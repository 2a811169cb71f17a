import DataLake.MigrationInvariant

/-! The rule of a migration pass among any others: each record it has dealt with
needs nothing more, and undisturbed it deals with every record. -/

namespace DataLake

open Foundation

namespace Migration

variable {m : Migration} {calm : Bool} {r r' : RawPayloadRecord} {key : Text}

def pass (m : Migration) (options : MigrationOptions) : StoreProg MigrationInspectionResult :=
  runRawPayloadMigration m.bucket m.schemaName { options with dryRun := false }

def SizeAgrees (m : Migration) (r : RawPayloadRecord) : Prop :=
  ∀ o₀ o, m.source r = some o₀ → m.initial.bucket (m.targetKey r) = some o →
    o.body.length = o₀.body.length

def SizesAgree (m : Migration) : Prop := ∀ r ∈ m.initial.records, m.SizeAgrees r

def Settled (m : Migration) (v : StoreWorld) (r : RawPayloadRecord) : Prop :=
  (∀ o₀, m.source r = some o₀ → m.moved r ∈ v.records) ∧ m.SizeAgrees r

theorem readerRely (m : Migration) (key : Text) : ReaderRely key m.Keeps m.Inv where
  refl := Keeps.refl
  trans _ _ _ := Keeps.trans
  inv _ _ hv hvw := (hvw hv).1
  lasts _ _ o hv hvw ho := ⟨o, (hvw hv).2.1 _ _ ho, rfl⟩

theorem writerRely (hr : r ∈ m.initial.records) {o₀ : S3Object} (hsource : m.source r = some o₀) :
    WriterRely (m.targetKey r) (copied o₀) m.Keeps m.Inv where
  toReaderRely := m.readerRely _
  write _ _ hu habsent _ := keeps_write hr hsource hu habsent

theorem safe_reached {α : Type} {Q : Except Exc α → StoreWorld → Prop} {p : StoreProg α}
    {w : StoreWorld} (hp : p.Safe (tenantExec m.tenant calm) m.Keeps m.Keeps Q w) :
    p.Safe (tenantExec m.tenant calm) m.Keeps m.Keeps (fun out v => m.Keeps w v ∧ Q out v) w :=
  Prog.Safe.reached (R := m.Keeps) (fun _ _ _ => Keeps.trans) (Keeps.refl w) hp

theorem Settled.mono {v w : StoreWorld} (hv : m.Inv v) (hvw : m.Keeps v w)
    (hr : r ∈ m.initial.records) (h : m.Settled v r) : m.Settled w r :=
  ⟨fun o₀ hsource => (hvw hv).2.2 r hr (h.1 o₀ hsource), h.2⟩

theorem settled_of_source_none (h : m.source r = none) (v : StoreWorld) : m.Settled v r :=
  ⟨fun o₀ ho => by simp [h] at ho, fun o₀ o ho => by simp [h] at ho⟩

theorem source_none_of_legacyKey (h : m.legacyKey r = none) : m.source r = none := by
  simp [source, h]

theorem source_moved (m : Migration) (r : RawPayloadRecord) : m.legacyKey (m.moved r) = none := by
  cases h : m.legacyKey (m.moved r) with
  | none => rfl
  | some key =>
    obtain ⟨huri, hne, -⟩ := legacyKey_spec h
    exact absurd (storageUri_inj huri).symm hne

/-- The size of a copy agrees with its source, whatever else was there. -/
theorem Inv.sizeAgrees_of_stored {v : StoreWorld} {o₀ : S3Object} (hv : m.Inv v)
    (hsource : m.source r = some o₀) (h : Stored (m.targetKey r) o₀.body v) : m.SizeAgrees r := by
  intro o₁ o hsource' ho
  rw [hsource] at hsource'
  obtain rfl := Option.some.inj hsource'
  obtain ⟨o', ho', hlen⟩ := h
  rw [hv.retained _ _ ho] at ho'
  obtain rfl := Option.some.inj ho'
  exact hlen

theorem Inv.not_sizesAgree {v : StoreWorld} {o₀ : S3Object} (hv : m.Inv v)
    (hr : r ∈ m.initial.records) (hsource : m.source r = some o₀)
    (h : SizeDiffers (m.targetKey r) o₀.body v) : ¬ m.SizesAgree := by
  intro hsizes
  obtain ⟨o, ho, hne⟩ := h
  rcases hv.target_cases hr hsource ho with hinitial | rfl
  · exact hne (hsizes r hr o₀ o hsource hinitial)
  · exact hne rfl

/-- What a pass knows of a record it has read: it was there from the start, and it
is unchanged or has moved. -/
def Known (m : Migration) (v : StoreWorld) (x : RawPayloadRecord) : Prop :=
  ∃ r ∈ m.initial.records, x = r ∨ (x = m.moved r ∧ m.Settled v r)

theorem Known.mono {v w : StoreWorld} {x : RawPayloadRecord} (hv : m.Inv v)
    (hvw : m.Keeps v w) (h : m.Known v x) : m.Known w x := by
  obtain ⟨r, hr, hx | ⟨hx, hs⟩⟩ := h
  · exact ⟨r, hr, .inl hx⟩
  · exact ⟨r, hr, .inr ⟨hx, hs.mono hv hvw hr⟩⟩

theorem Inv.known {v : StoreWorld} (hv : m.Inv v) {x : RawPayloadRecord} (hx : x ∈ v.records) :
    m.Known v x := by
  obtain ⟨done, hrecords, hdone⟩ := hv.records
  have hmem := hx
  rw [hrecords] at hx
  obtain ⟨r, hr, rfl⟩ := List.mem_map.mp hx
  by_cases hd : done r.id = true
  · have hmove : m.move done r = m.moved r := by simp [move, hd]
    rw [hmove] at hmem ⊢
    obtain ⟨o₀, o, hsource, ho, -, hlen⟩ := hdone r hr hd
    exact ⟨r, hr, .inr ⟨rfl, fun _ _ => hmem, hv.sizeAgrees_of_stored hsource ⟨o, ho, hlen⟩⟩⟩
  · exact ⟨r, hr, .inl (by simp [move, hd])⟩

/-- What holds after a pass has dealt with a record it read. -/
def Handled (m : Migration) (v : StoreWorld) (x : RawPayloadRecord) : Prop :=
  ∀ r ∈ m.initial.records, r.id = x.id → m.Settled v r

theorem handled_of_settled {v : StoreWorld} {x : RawPayloadRecord} (hr : r ∈ m.initial.records)
    (hid : x.id = r.id) (h : m.Settled v r) : m.Handled v x := by
  intro r' hr' hid'
  obtain rfl := id_inj hr' hr (hid'.trans hid)
  exact h

theorem Handled.mono {v w : StoreWorld} {x : RawPayloadRecord} (hv : m.Inv v)
    (hvw : m.Keeps v w) (h : m.Handled v x) : m.Handled w x :=
  fun r hr hid => (h r hr hid).mono hv hvw hr

theorem tenantExec_getObject {tenant : Uuid} {c : StoreAnswer} {w w' : StoreWorld}
    {x : Except S3Error S3Object} (h : tenantExec tenant calm (.getObject key) c w = some (x, w')) :
    w' = w ∧ ((w.bucket key = none ∧ x = .error noSuchKey) ∨
      (∃ o, w.bucket key = some o ∧ x = .ok o) ∨ (calm = false ∧ ∃ err, x = .error err)) := by
  obtain ⟨-, hcalm, he⟩ := tenantExec_spec h
  obtain ⟨rfl, hr⟩ := execStore_getObject he
  refine ⟨rfl, ?_⟩
  rcases hr with ⟨_, -, hb, hr⟩ | ⟨_, o, -, hb, hr⟩ | ⟨err, rfl, hr⟩
  · exact .inl ⟨hb, hr⟩
  · exact .inr (.inl ⟨o, hb, hr⟩)
  · exact .inr (.inr ⟨by simpa [undisturbed] using hcalm, err, hr⟩)

theorem getRawByKey_safe {w : StoreWorld} (hw : m.Inv w)
    (hfound : ∃ o, w.bucket key = some o) :
    (getRawByKey key).Safe (tenantExec m.tenant calm) m.Keeps m.Keeps
      (fun out v => m.Inv v ∧ match out with
        | .ok o => v.bucket key = some o
        | .error _ => calm = true → ¬ m.SizesAgree) w := by
  refine safe_storeCall fun v hwv c x v' he => ?_
  obtain ⟨rfl, hx⟩ := tenantExec_getObject he
  obtain ⟨hv, hkeys, -⟩ := hwv hw
  refine ⟨Keeps.refl _, ?_⟩
  rcases hx with ⟨hb, -⟩ | ⟨o, hb, rfl⟩ | ⟨hcalm, err, rfl⟩
  · obtain ⟨o, ho⟩ := hfound
    rw [hkeys _ _ ho] at hb
    cases hb
  · exact fun u hu => ⟨(hu hv).1, (hu hv).2.1 _ _ hb⟩
  · exact fun u hu => ⟨(hu hv).1, fun hc => by simp [hcalm] at hc⟩

theorem source_none_of_mismatch {w : StoreWorld} (hw : m.Inv w)
    (hkey : m.legacyKey r = some key) {o : S3Object} (ho : w.bucket key = some o)
    (hsum : sha256hex o.body ≠ r.checksumSha256) : m.source r = none := by
  cases hs : m.source r with
  | none => rfl
  | some o₀ =>
    obtain ⟨key', hkey', ho₀, hsum₀⟩ := source_spec hs
    rw [hkey] at hkey'
    obtain rfl := Option.some.inj hkey'
    rw [hw.retained _ _ ho₀] at ho
    obtain rfl := Option.some.inj ho
    exact absurd hsum₀ hsum

theorem migrateObject_safe {w : StoreWorld} (hw : m.Inv w) (hr : r ∈ m.initial.records)
    (hkey : m.legacyKey r = some key) {o : S3Object} (ho : w.bucket key = some o) :
    (migrateObject m.bucket r false o).Safe (tenantExec m.tenant calm) m.Keeps m.Keeps
      (fun out v => m.Inv v ∧ match out with
        | .ok (true, uri) => uri = some (storageUri m.bucket (m.targetKey r)) ∧
          ∃ o₀, m.source r = some o₀ ∧ Stored (m.targetKey r) o₀.body v
        | .ok (false, _) => m.source r = none
        | .error _ => calm = true → ¬ m.SizesAgree) w := by
  simp only [migrateObject, Bool.false_eq_true, if_false]
  split_ifs with hsum
  · exact fun v hv => ⟨(hv hw).1, source_none_of_mismatch hw hkey ho hsum⟩
  · have hsource := hw.legacy_initial hkey ho (not_not.mp hsum)
    refine (put_safe (writerRely hr hsource) hw).handle Keeps.refl (fun uri v hv => ?_)
      fun e v hv => ?_
    · obtain ⟨hIv, rfl, hstored⟩ := hv
      exact fun u hu => ⟨(hu hIv).1, rfl, o, hsource,
        (m.readerRely _).stored hIv hu hstored⟩
    · obtain ⟨hIv, hdiffers⟩ := hv
      exact fun u hu => ⟨(hu hIv).1, fun hc => hIv.not_sizesAgree hr hsource (hdiffers hc)⟩

theorem migrateRecord_safe {w : StoreWorld} (hw : m.Inv w) (hr : r ∈ m.initial.records)
    (hkey : m.legacyKey r = some key) (hfound : ∃ o, w.bucket key = some o) :
    (verifyAndMaybeMigrate m.bucket key r false).Safe (tenantExec m.tenant calm) m.Keeps m.Keeps
      (fun out v => m.Inv v ∧ match out with
        | .ok (true, uri) => uri = some (storageUri m.bucket (m.targetKey r)) ∧
          ∃ o₀, m.source r = some o₀ ∧ Stored (m.targetKey r) o₀.body v
        | .ok (false, _) => m.source r = none
        | .error _ => calm = true → ¬ m.SizesAgree) w := by
  refine (getRawByKey_safe hw hfound).handle Keeps.refl (fun o v hv => ?_) fun e v hv => ?_
  · exact migrateObject_safe hv.1 hr hkey hv.2
  · exact fun u hu => ⟨(hu hv.1).1, hv.2⟩

theorem inspectLegacy_safe {w : StoreWorld} (hw : m.Inv w) (hr : r ∈ m.initial.records)
    (hkey : m.legacyKey r = some key) (category : Category) (result : MigrationInspectionResult) :
    (inspectLegacy m.bucket category key false r result).Safe (tenantExec m.tenant calm) m.Keeps
      m.Keeps (fun out v => m.Inv v ∧ match out with
        | .ok _ => m.Settled v r
        | .error _ => calm = true → ¬ m.SizesAgree) w := by
  have finish : ∀ {u v : StoreWorld}, m.Inv u → m.Keeps u v → m.Settled u r →
      m.Inv v ∧ m.Settled v r := fun hu huv hs => ⟨(huv hu).1, hs.mono hu huv hr⟩
  refine (keyExists_safe (m.readerRely key) hw).handle Keeps.refl (fun found v hv => ?_)
    fun e v hv => ?_
  · obtain ⟨hIv, hfound⟩ := hv
    cases found with
    | false =>
      obtain ⟨a, hIa, habsent, -⟩ := hfound
      have hnone : m.source r = none := by
        cases hs : m.source r with
        | none => rfl
        | some o₀ =>
          obtain ⟨key', hkey', ho₀, -⟩ := source_spec hs
          rw [hkey] at hkey'
          obtain rfl := Option.some.inj hkey'
          have h := hIa.retained _ _ ho₀
          rw [habsent] at h
          cases h
      exact fun u hu => finish hIv hu (settled_of_source_none hnone v)
    | true =>
      refine (migrateRecord_safe hIv hr hkey hfound).handle Keeps.refl (fun ok u hu => ?_)
        fun e u hu => ?_
      · obtain ⟨hIu, hok⟩ := hu
        obtain ⟨_ | _, uri⟩ := ok
        · exact fun t ht => finish hIu ht (settled_of_source_none hok u)
        · obtain ⟨rfl, o₀, hsource, hstored⟩ := hok
          refine safe_storeCall fun t ht c y t' he => ?_
          have hIt := (ht hIu).1
          obtain ⟨-, -, he⟩ := tenantExec_spec he
          have hstored' := (m.readerRely _).stored hIu ht hstored
          obtain ⟨hkeeps, hmem⟩ := keeps_saveStorageUri hr hsource hIt hstored' he
          have hs : m.Settled t' r :=
            ⟨fun _ _ => hmem, hIt.sizeAgrees_of_stored hsource hstored'⟩
          exact ⟨hkeeps, fun s hs' => finish (hkeeps hIt).1 hs' hs⟩
      · exact fun t ht => ⟨(ht hu.1).1, hu.2⟩
  · exact fun u hu => ⟨(hu hv.1).1, fun hc => by simp [hv.2] at hc⟩

theorem classify_moved (m : Migration) (r : RawPayloadRecord) : ∃ k,
    classify m.bucket (m.moved r) m.tenant.text m.schemaName = (.alreadyMigrated, some k) := by
  rcases m.classify_cases (m.moved r) with ⟨k, hk, -⟩ | ⟨c, hk, hc⟩ | ⟨c, k, hk, hc, huri, hne, -⟩
  · exact ⟨k, hk⟩
  · have hparse := parseUri_storageUri m.bucket (tenantKey_ne_nil m.tenant (expectedLogicalKey r))
    have huri : (m.moved r).storageUri =
        storageUri m.bucket (tenantKey m.tenant (expectedLogicalKey r)) := rfl
    have hlogical : expectedLogicalKey (m.moved r) = expectedLogicalKey r := rfl
    have htarget : prefixedKey m.tenant.text (expectedLogicalKey r) =
        tenantKey m.tenant (expectedLogicalKey r) := rfl
    simp [classify, huri, hparse, hlogical, htarget] at hk
  · exact absurd (storageUri_inj huri).symm hne

theorem inspectRecord_safe {w : StoreWorld} (hw : m.Inv w) {x : RawPayloadRecord}
    (hx : m.Known w x) (result : MigrationInspectionResult) :
    (inspectRecord m.bucket m.tenant.text m.schemaName false x result).Safe
      (tenantExec m.tenant calm) m.Keeps m.Keeps
      (fun out v => m.Inv v ∧ match out with
        | .ok _ => m.Handled v x
        | .error _ => calm = true → ¬ m.SizesAgree) w := by
  obtain ⟨r, hr, hx⟩ := hx
  have hid : x.id = r.id := by
    rcases hx with rfl | ⟨rfl, -⟩ <;> rfl
  have finish : ∀ {u v : StoreWorld}, m.Inv u → m.Keeps u v → m.Settled u r →
      m.Inv v ∧ m.Handled v x := fun hu huv hs =>
    ⟨(huv hu).1, handled_of_settled hr hid (hs.mono hu huv hr)⟩
  rcases hx with rfl | ⟨rfl, hs⟩
  · rcases m.classify_cases x with ⟨k, hk, hmoved⟩ | ⟨c, hk, hc⟩ | ⟨c, k, hk, hc, -⟩
    · have hs : m.Settled w x := by
        rw [hmoved]
        exact settled_of_source_none (source_none_of_legacyKey (m.source_moved x)) w
      simp only [inspectRecord, hk]
      exact fun v hv => finish hw hv hs
    · have hnone : m.legacyKey x = none := by
        cases c <;> simp_all [legacyKey]
      have hs := settled_of_source_none (source_none_of_legacyKey hnone) w
      cases c with
      | alreadyMigrated => exact absurd rfl hc
      | _ =>
        simp only [inspectRecord, hk]
        exact fun v hv => finish hw hv hs
    · have hkey : m.legacyKey x = some k := by
        cases c <;> simp_all [legacyKey]
      rw [inspectRecord_legacy hk hc]
      refine (inspectLegacy_safe hw hr hkey c _).weaken fun out v hv => ?_
      cases out with
      | ok _ => exact ⟨hv.1, handled_of_settled hr rfl hv.2⟩
      | error _ => exact hv
  · obtain ⟨k, hk⟩ := m.classify_moved r
    simp only [inspectRecord, hk]
    exact fun v hv => finish hw hv hs

section Callbacks

variable {R : StoreWorld → StoreWorld → Prop}

theorem reportProgress_safe (hrefl : ∀ w, R w w) (htrans : ∀ u v w, R u v → R v w → R u w)
    (options : MigrationOptions) (result : MigrationInspectionResult) (w : StoreWorld) :
    (reportProgress options result).Safe (tenantExec m.tenant calm) R R
      (fun out v => R w v ∧ ∃ x, out = .ok x) w := by
  unfold reportProgress
  split_ifs
  · intro v hv c x v' he
    obtain ⟨-, -, he⟩ := tenantExec_spec he
    obtain rfl : v' = v := by
      cases c with
      | done _ => cases he; rfl
      | _ => cases he
    exact ⟨hrefl _, fun u hu => ⟨htrans _ _ _ hv hu, x, rfl⟩⟩
  · exact fun v hv => ⟨hv, (), rfl⟩

theorem pollCancel_safe (hrefl : ∀ w, R w w) (htrans : ∀ u v w, R u v → R v w → R u w)
    (options : MigrationOptions) (w : StoreWorld) :
    (pollCancel options).Safe (tenantExec m.tenant calm) R R
      (fun out v => R w v ∧ ∃ b, out = .ok b ∧ (calm = true → b = false)) w := by
  unfold pollCancel
  split_ifs
  · intro v hv c x v' he
    obtain ⟨-, hcalm, he⟩ := tenantExec_spec he
    obtain ⟨rfl, rfl⟩ : c = .cancel x ∧ v' = v := by
      cases c with
      | cancel _ => cases he; exact ⟨rfl, rfl⟩
      | _ => cases he
    refine ⟨hrefl _, fun u hu => ⟨htrans _ _ _ hv hu, x, rfl, fun hc => ?_⟩⟩
    simpa [undisturbed] using hcalm hc
  · exact fun v hv => ⟨hv, false, rfl, fun _ => rfl⟩

end Callbacks

theorem migrateRecords_safe (options : MigrationOptions) {w : StoreWorld} (hw : m.Inv w)
    (xs : List RawPayloadRecord) (hxs : ∀ x ∈ xs, m.Known w x) (since : Nat)
    (result : MigrationInspectionResult) :
    (migrateRecords m.bucket m.tenant.text m.schemaName { options with dryRun := false } xs since
      result).Safe (tenantExec m.tenant calm) m.Keeps m.Keeps
      (fun out v => m.Inv v ∧ match out with
        | .ok _ => calm = true → ∀ x ∈ xs, m.Handled v x
        | .error _ => calm = true → ¬ m.SizesAgree) w := by
  induction xs generalizing w since result with
  | nil => exact fun v hv => ⟨(hv hw).1, nofun⟩
  | cons x xs ih =>
    have hx := hxs x List.mem_cons_self
    refine (safe_reached (inspectRecord_safe hw hx result)).handle Keeps.refl
      (fun result v hv => ?_) fun e v hv => ?_
    · obtain ⟨hwv, hIv, hhandled⟩ := hv
      -- The rest of the loop, from any later state.
      have rest : ∀ (u : StoreWorld) (since : Nat), m.Keeps v u →
          (migrateRecords m.bucket m.tenant.text m.schemaName { options with dryRun := false } xs
            since result).Safe (tenantExec m.tenant calm) m.Keeps m.Keeps
            (fun out t => m.Inv t ∧ match out with
              | .ok _ => calm = true → ∀ y ∈ x :: xs, m.Handled t y
              | .error _ => calm = true → ¬ m.SizesAgree) u := by
        intro u since hu
        have hxs' : ∀ y ∈ xs, m.Known u y := fun y hy =>
          ((hxs y (List.mem_cons_of_mem _ hy)).mono hw (hwv.trans hu))
        refine (safe_reached (ih (hu hIv).1 hxs' since result)).weaken fun out t ht => ?_
        obtain ⟨hut, hIt, hout⟩ := ht
        refine ⟨hIt, ?_⟩
        cases out with
        | error e => exact hout
        | ok _ =>
          intro hcalm y hy
          rcases List.mem_cons.mp hy with rfl | hy
          · exact hhandled.mono hIv (hu.trans hut)
          · exact hout hcalm y hy
      dsimp only
      split_ifs
      · refine (reportProgress_safe Keeps.refl (fun _ _ _ => Keeps.trans) _ _ v).handle Keeps.refl
          (fun _ u hu => ?_) fun e u hu => ?_
        · refine (pollCancel_safe Keeps.refl (fun _ _ _ => Keeps.trans) _ u).handle Keeps.refl
            (fun b t ht => ?_) fun e t ht => ?_
          · obtain ⟨hut, b', hb, hcalm⟩ := ht
            obtain rfl : b = b' := by simpa using hb
            cases b with
            | true =>
              exact fun a ha => ⟨((hu.1.trans hut).trans ha hIv).1, fun hc => by simpa using hcalm hc⟩
            | false => exact rest t 0 (hu.1.trans hut)
          · obtain ⟨-, b', hb, -⟩ := ht
            cases hb
        · obtain ⟨-, x', hx'⟩ := hu
          cases hx'
      · exact rest v _ (Keeps.refl v)
    · exact fun u hu => ⟨(hu hv.2.1).1, hv.2.2⟩

/-- A pass keeps the invariant, together with any others. When no call of it fails it
leaves nothing to do, or it has met an object of the wrong size. -/
theorem pass_safe (options : MigrationOptions) {w : StoreWorld} (hw : m.Inv w) :
    (m.pass options).Safe (tenantExec m.tenant calm) m.Keeps m.Keeps
      (fun out v => m.Inv v ∧ match out with
        | .ok _ => calm = true → ∀ r ∈ m.initial.records, m.Settled v r
        | .error _ => calm = true → ¬ m.SizesAgree) w := by
  refine safe_storeCall fun v hv c x v' he => ?_
  obtain ⟨rfl, hx⟩ := tenantExec_tenantUuid he
  have hIv := (hv hw).1
  refine ⟨Keeps.refl _, ?_⟩
  rcases hx with rfl | ⟨hcalm, e, rfl⟩
  · refine safe_storeCall fun u hu c xs u' he => ?_
    obtain ⟨-, -, he⟩ := tenantExec_spec he
    have hIu := (hu hIv).1
    obtain ⟨hxs, rfl⟩ : xs = u.records.insertionSort (fun a b => a.id.bits.toNat ≤ b.id.bits.toNat) ∧
        u' = u := by
      cases c with
      | done _ => cases he; exact ⟨rfl, rfl⟩
      | _ => cases he
    have hknown : ∀ y ∈ xs, m.Known u' y := by
      intro y hy
      rw [hxs, List.mem_insertionSort] at hy
      exact hIu.known hy
    refine ⟨Keeps.refl _, ?_⟩
    refine (safe_reached (migrateRecords_safe options hIu xs hknown 0 {})).handle Keeps.refl
      (fun result t ht => ?_) fun e t ht => ?_
    · obtain ⟨hut, hIt, hhandled⟩ := ht
      have hall : calm = true → ∀ r ∈ m.initial.records, m.Settled t r := by
        intro hcalm r hr
        obtain ⟨done, hrecords, -⟩ := hIu.records
        have hmem : m.move done r ∈ xs := by
          rw [hxs, List.mem_insertionSort, hrecords]
          exact List.mem_map_of_mem hr
        exact hhandled hcalm _ hmem r hr (m.move_id done r).symm
      refine (reportProgress_safe Keeps.refl (fun _ _ _ => Keeps.trans) _ _ t).handle Keeps.refl
        (fun _ s hs => ?_) fun e s hs => ?_
      · exact fun a ha => ⟨((hs.1.trans ha) hIt).1, fun hc r hr =>
          (hall hc r hr).mono hIt (hs.1.trans ha) hr⟩
      · obtain ⟨-, x', hx'⟩ := hs
        cases hx'
    · exact fun a ha => ⟨(ha ht.2.1).1, ht.2.2⟩
  · exact fun u hu => ⟨(hu hIv).1, fun hc => by simp [hcalm] at hc⟩

end Migration

end DataLake
