import DataLake.MigrationConvergence

/-! What a pass reports, read off the store before it: nothing a pass does for one record
changes what it finds about another, so a dry run counts what a real pass will do. -/

namespace DataLake

open Foundation

/-- What a pass finds about a record; the category of one whose object is there. -/
inductive Finding where
  | alreadyMigrated
  | unrecognized
  | missing
  | mismatch (category : Category)
  | ready (category : Category)
deriving DecidableEq

namespace Finding

def problem : Finding → Bool
  | unrecognized | missing | mismatch _ => true
  | alreadyMigrated | ready _ => false

def isReady : Finding → Bool
  | ready _ => true
  | _ => false

end Finding

namespace MigrationInspectionResult

def counted (result : MigrationInspectionResult) (category : Category) :
    MigrationInspectionResult :=
  if category = .legacyUnprefixed then
    { result with legacyUnprefixed := result.legacyUnprefixed + 1 }
  else { result with schemaPrefixed := result.schemaPrefixed + 1 }

/-- What is counted for a record with the finding. -/
def report (dryRun : Bool) (result : MigrationInspectionResult) (record : RawPayloadRecord) :
    Finding → MigrationInspectionResult
  | .alreadyMigrated => { result with alreadyMigrated := result.alreadyMigrated + 1 }
  | .unrecognized => result.conflict record
      "storage_uri does not match any recognized key shape for this record"
  | .missing => result.missing record
  | .mismatch category => (result.counted category).conflict record
      "downloaded object checksum does not match the recorded checksum"
  | .ready category =>
    let result := result.counted category
    let result := { result with readyForMigration := result.readyForMigration + 1 }
    if dryRun then result else { result with recordsMigrated := result.recordsMigrated + 1 }

def inspected (dryRun : Bool) (result : MigrationInspectionResult) (record : RawPayloadRecord)
    (finding : Finding) : MigrationInspectionResult :=
  { result with recordsInspected := result.recordsInspected + 1 }.report dryRun record finding

end MigrationInspectionResult

def StoreOp.isCallback : StoreOp → Bool
  | .progressCallback _ | .cancelCheck => true
  | _ => false

theorem recordOp_isCallback {dryRun : Bool} {op : StoreOp}
    (h : recordOp dryRun op) : op.isCallback = false := by
  cases op with
  | progressCallback _ => exact h.elim
  | cancelCheck => exact h.elim
  | _ => rfl

namespace Migration

variable {m : Migration} {calm dryRun : Bool} {x r : RawPayloadRecord} {key : Text}
  {w : StoreWorld} {o : S3Object}

def finding (m : Migration) (r : RawPayloadRecord) : Finding :=
  match classify m.bucket r m.tenant.text m.schemaName with
  | (.alreadyMigrated, _) => .alreadyMigrated
  | (_, none) => .unrecognized
  | (category, some key) =>
    match m.initial.bucket key with
    | none => .missing
    | some o => if sha256hex o.body = r.checksumSha256 then .ready category else .mismatch category

/-- The column of the checksum holds 64 characters. -/
def ColumnsFit (m : Migration) : Prop :=
  ∀ r ∈ m.initial.records, r.checksumSha256.length ≤ 64

/-- A key whose checksum has a slash in it ends in a piece that is too short for a file name
under a target key. -/
theorem legacyKey_ne_targetKey_of_column (hcolumn : x.checksumSha256.length ≤ 64)
    (hkey : m.legacyKey x = some key) (hsum : sha256hex o.body = r.checksumSha256) :
    key ≠ m.targetKey r := by
  have hslash : '/' ∉ r.checksumSha256 := by
    rw [← hsum]
    exact slash_notMem_sha256hex o.body
  by_cases hx : '/' ∈ x.checksumSha256
  · intro heq
    have hlength : r.checksumSha256.length = 64 := by
      rw [← hsum]
      exact length_sha256hex o.body
    obtain ⟨front, tail, hcut, htail⟩ : ∃ front tail : Text,
        x.checksumSha256 = front ++ '/' :: tail ∧ '/' ∉ tail := by
      obtain ⟨a, b, hab, ha⟩ := List.eq_append_cons_of_mem (List.mem_reverse.mpr hx)
      refine ⟨b.reverse, a.reverse, ?_, by simpa using ha⟩
      simpa using congrArg List.reverse hab
    obtain ⟨pre, hpre⟩ : ∃ pre, key = pre ++ '/' :: (tail ++ rawSuffix) := by
      obtain ⟨-, -, h | h⟩ := legacyKey_spec hkey
      · exact ⟨m.schemaName ++ '/' :: (x.pipeline.text ++ '/' :: (x.run.text ++ '/' ::
          (zeroPad 6 x.sequence ++ '-' :: front))), by
            rw [h, prefixedKey, expectedLogicalKey, logicalKey, keyFilename, hcut]; simp⟩
      · exact ⟨x.pipeline.text ++ '/' :: (x.run.text ++ '/' ::
          (zeroPad 6 x.sequence ++ '-' :: front)), by
            rw [h, expectedLogicalKey, logicalKey, keyFilename, hcut]; simp⟩
    have htarget : m.targetKey r = (m.tenant.text ++ '/' :: (r.pipeline.text ++ '/' ::
        r.run.text)) ++ '/' :: keyFilename r.sequence r.checksumSha256 := by
      simp [targetKey, tenantKey, prefixedKey, expectedLogicalKey_eq]
    have hname : '/' ∉ tail ++ rawSuffix := by
      simpa [rawSuffix] using htail
    have hfile := (cut_last_inj hname (slash_notMem_keyFilename r.sequence hslash)
      (hpre.symm.trans (heq.trans htarget))).2
    have hlengths := congrArg List.length hfile
    have hshort := congrArg List.length hcut
    simp only [keyFilename, List.length_append, List.length_cons] at hlengths hshort
    omega
  · exact legacyKey_ne_targetKey hx hslash hkey

theorem Inv.legacy_bucket (hw : m.Inv w) (hcolumn : x.checksumSha256.length ≤ 64)
    (hkey : m.legacyKey x = some key) : w.bucket key = m.initial.bucket key := by
  cases hi : m.initial.bucket key with
  | some o => exact hw.retained _ _ hi
  | none =>
    cases hb : w.bucket key with
    | none => rfl
    | some o =>
      rcases hw.origin _ _ hb with h | ⟨r, -, o₀, hsource, htarget, -⟩
      · rw [hi] at h
        cases h
      · obtain ⟨-, -, -, hsum⟩ := source_spec hsource
        exact absurd htarget (legacyKey_ne_targetKey_of_column hcolumn hkey hsum)

/-! One record of a pass that runs alone. -/

/-- The table is left alone. -/
def Still (m : Migration) (v w : StoreWorld) : Prop := m.Keeps v w ∧ w.records = v.records

theorem Still.refl (w : StoreWorld) : m.Still w w := ⟨Keeps.refl w, rfl⟩

theorem Still.trans {u v w : StoreWorld} (huv : m.Still u v) (hvw : m.Still v w) :
    m.Still u w := ⟨huv.1.trans hvw.1, hvw.2.trans huv.2⟩

theorem still_reached {α : Type} {Q : Except Exc α → StoreWorld → Prop} {p : StoreProg α}
    (hp : p.Safe (tenantExec m.tenant calm) m.Still m.Still Q w) :
    p.Safe (tenantExec m.tenant calm) m.Still (fun _ _ => True)
      (fun out v => m.Still w v ∧ Q out v) w :=
  (Prog.Safe.reached (R := m.Still) (fun _ _ _ => Still.trans) (Still.refl w) hp).guarantee
    fun _ _ _ => trivial

theorem stillReader (m : Migration) (key : Text) : ReaderRely key m.Still m.Inv where
  refl := Still.refl
  trans _ _ _ := Still.trans
  inv _ _ hv hvw := (hvw.1 hv).1
  lasts _ _ o hv hvw ho := ⟨o, (hvw.1 hv).2.1 _ _ ho, rfl⟩

theorem stillWriter (hr : r ∈ m.initial.records) {o₀ : S3Object} (hsource : m.source r = some o₀) :
    WriterRely (m.targetKey r) (copied o₀) m.Still m.Inv where
  toReaderRely := m.stillReader _
  write _ _ hu habsent _ := ⟨keeps_write hr hsource hu habsent, rfl⟩

theorem getRawByKey_still (hw : m.Inv w) (hcolumn : x.checksumSha256.length ≤ 64)
    (hkey : m.legacyKey x = some key) (ho : m.initial.bucket key = some o) :
    (getRawByKey key).Safe (tenantExec m.tenant calm) m.Still m.Still
      (fun out v => m.Inv v ∧ match out with
        | .ok found => found = o
        | .error _ => calm = false) w := by
  refine safe_storeCall fun v hv c y v' he => ?_
  obtain ⟨rfl, hy⟩ := tenantExec_getObject he
  have hIv := (hv.1 hw).1
  have hb := (hIv.legacy_bucket hcolumn hkey).trans ho
  refine ⟨Still.refl _, ?_⟩
  rcases hy with ⟨hnone, -⟩ | ⟨o', hb', rfl⟩ | ⟨hcalm, err, rfl⟩
  · rw [hb] at hnone
    cases hnone
  · rw [hb] at hb'
    obtain rfl := Option.some.inj hb'
    exact fun u hu => ⟨(hu.1 hIv).1, rfl⟩
  · exact fun u hu => ⟨(hu.1 hIv).1, hcalm⟩

/-- Undisturbed, only a real pass fails, and it has met an object of another size. -/
def Refused (m : Migration) (calm dryRun : Bool) : Prop :=
  calm = true → dryRun = false ∧ ¬ m.SizesAgree

def Verified (m : Migration) (dryRun : Bool) (x : RawPayloadRecord) (o : S3Object) (v : StoreWorld) :
    Bool × Option Text → Prop
  | (false, _) => sha256hex o.body ≠ x.checksumSha256
  | (true, uri) => sha256hex o.body = x.checksumSha256 ∧
    if dryRun then uri = none
    else uri = some (storageUri m.bucket (m.targetKey x)) ∧ Stored (m.targetKey x) o.body v

theorem migrateObject_still (hw : m.Inv w) (hx : x ∈ m.initial.records)
    (hkey : m.legacyKey x = some key) (ho : m.initial.bucket key = some o) :
    (migrateObject m.bucket x dryRun o).Safe (tenantExec m.tenant calm) m.Still m.Still
      (fun out v => m.Inv v ∧ match out with
        | .ok answer => m.Verified dryRun x o v answer
        | .error _ => m.Refused calm dryRun) w := by
  unfold migrateObject
  split_ifs with hsum hdry
  · exact fun v hv => ⟨(hv.1 hw).1, hsum⟩
  · exact fun v hv => ⟨(hv.1 hw).1, not_not.mp hsum, by rw [if_pos hdry]⟩
  · have hsource := source_eq hkey ho (not_not.mp hsum)
    refine (put_safe (stillWriter hx hsource) hw).handle Still.refl (fun uri v hv => ?_)
      fun e v hv => ?_
    · obtain ⟨hIv, rfl, hstored⟩ := hv
      refine fun u hu => ⟨(hu.1 hIv).1, not_not.mp hsum, ?_⟩
      rw [if_neg hdry]
      exact ⟨rfl, (m.stillReader _).stored hIv hu hstored⟩
    · obtain ⟨hIv, hdiffers⟩ := hv
      exact fun u hu => ⟨(hu.1 hIv).1, fun hc =>
        ⟨Bool.eq_false_iff.mpr hdry, hIv.not_sizesAgree hx hsource (hdiffers hc)⟩⟩

theorem verifyAndMaybeMigrate_still (hw : m.Inv w) (hx : x ∈ m.initial.records)
    (hcolumn : x.checksumSha256.length ≤ 64) (hkey : m.legacyKey x = some key)
    (ho : m.initial.bucket key = some o) :
    (verifyAndMaybeMigrate m.bucket key x dryRun).Safe (tenantExec m.tenant calm) m.Still m.Still
      (fun out v => m.Inv v ∧ match out with
        | .ok answer => m.Verified dryRun x o v answer
        | .error _ => m.Refused calm dryRun) w := by
  refine (getRawByKey_still hw hcolumn hkey ho).handle Still.refl (fun found v hv => ?_)
    fun e v hv => ?_
  · obtain ⟨hIv, rfl⟩ := hv
    exact migrateObject_still hIv hx hkey ho
  · exact fun u hu => ⟨(hu.1 hv.1).1, fun hc => by simp [hv.2] at hc⟩

theorem finding_legacy {category : Category}
    (hclass : classify m.bucket x m.tenant.text m.schemaName = (category, some key))
    (hne : category ≠ .alreadyMigrated) :
    m.legacyKey x = some key ∧ m.finding x = match m.initial.bucket key with
      | none => .missing
      | some o =>
        if sha256hex o.body = x.checksumSha256 then .ready category else .mismatch category := by
  cases category with
  | alreadyMigrated => exact absurd rfl hne
  | _ => exact ⟨by rw [legacyKey, hclass], by rw [finding, hclass]⟩

def relocate (m : Migration) (dryRun : Bool) (x r : RawPayloadRecord) : RawPayloadRecord :=
  if !dryRun && (m.finding x).isReady && r.id = x.id then m.moved r else r

theorem relocate_idle (h : dryRun = true ∨ (m.finding x).isReady = false) :
    m.relocate dryRun x = id := by
  funext r
  rcases h with h | h <;> simp [relocate, h]

/-- What a pass that runs alone leaves after a record. -/
def Alone (m : Migration) (dryRun : Bool) (x : RawPayloadRecord) (v w : StoreWorld) : Prop :=
  m.Inv w ∧ w.records = v.records.map (m.relocate dryRun x)

theorem alone_idle {u v : StoreWorld} (h : dryRun = true ∨ (m.finding x).isReady = false)
    (hu : m.Inv u) (hrecords : u.records = w.records) (huv : m.Still u v) :
    m.Alone dryRun x w v := by
  refine ⟨(huv.1 hu).1, ?_⟩
  rw [relocate_idle h, List.map_id, huv.2, hrecords]

theorem saveStorageUri_alone {u v v' : StoreWorld} {c : StoreAnswer} {y : Unit}
    (hx : x ∈ m.initial.records) {o₀ : S3Object} (hsource : m.source x = some o₀)
    (hready : (m.finding x).isReady = true) (hv : m.Inv v) (hrecords : v.records = w.records)
    (hstored : Stored (m.targetKey x) o₀.body v)
    (h : execStore (.saveStorageUri x.id (storageUri m.bucket (m.targetKey x))) c v =
      some (y, v')) (hu : m.Still v' u) : m.Alone false x w u := by
  obtain ⟨hkeeps, -⟩ := keeps_saveStorageUri hx hsource hv hstored h
  refine ⟨(hu.1 (hkeeps hv).1).1, ?_⟩
  rw [hu.2, ← hrecords]
  obtain rfl : { v with records := v.records.map fun r =>
      if r.id = x.id then { r with storageUri := storageUri m.bucket (m.targetKey x) } else r } =
        v' := by
    cases c with
    | done _ =>
      obtain ⟨-, rfl⟩ : () = y ∧ _ = v' := by simpa only [execStore, Option.some.injEq,
        Prod.mk.injEq] using h
      rfl
    | _ => cases h
  refine List.map_congr_left fun r hr => ?_
  obtain ⟨done, hdone, -⟩ := hv.records
  rw [hdone] at hr
  obtain ⟨r₀, hr₀, rfl⟩ := List.mem_map.mp hr
  by_cases hid : r₀.id = x.id
  · obtain rfl := id_inj hr₀ hx hid
    simp only [relocate, hready, move_id]
    unfold move
    split_ifs <;> simp_all [moved, targetKey, expectedLogicalKey]
  · simp [relocate, hid]

theorem inspectLegacy_alone (hw : m.Inv w) (hx : x ∈ m.initial.records)
    (hcolumn : x.checksumSha256.length ≤ 64) {category : Category}
    (hclass : classify m.bucket x m.tenant.text m.schemaName = (category, some key))
    (hne : category ≠ .alreadyMigrated) (result : MigrationInspectionResult) :
    (inspectLegacy m.bucket category key dryRun x result).Safe (tenantExec m.tenant calm) m.Still
      (fun _ _ => True) (fun out v => match out with
        | .ok result' => m.Alone dryRun x w v ∧ result' = result.report dryRun x (m.finding x)
        | .error _ => m.Inv v ∧ m.Refused calm dryRun) w := by
  obtain ⟨hkey, hfinding⟩ := finding_legacy hclass hne
  refine (still_reached (keyExists_safe (m.stillReader key) hw)).handle Still.refl (fun found v hv => ?_)
    fun e v hv => ?_
  · obtain ⟨hwv, hIv, hfound⟩ := hv
    cases found with
    | false =>
      obtain ⟨a, hIa, habsent, -⟩ := hfound
      rw [hIa.legacy_bucket hcolumn hkey] at habsent
      rw [habsent] at hfinding
      exact fun u hu => ⟨alone_idle (.inr (by rw [hfinding]; rfl)) hIv hwv.2 hu, by
        rw [hfinding]; rfl⟩
    | true =>
      obtain ⟨o, ho⟩ := hfound
      rw [hIv.legacy_bucket hcolumn hkey] at ho
      rw [ho] at hfinding
      refine (still_reached (verifyAndMaybeMigrate_still hIv hx hcolumn hkey ho)).handle Still.refl
        (fun answer u hu => ?_) fun e u hu => ?_
      · obtain ⟨hvu, hIu, hanswer⟩ := hu
        have hrecords : u.records = w.records := hvu.2.trans hwv.2
        obtain ⟨_ | _, uri⟩ := answer
        · have hsum : sha256hex o.body ≠ x.checksumSha256 := hanswer
          simp only [if_neg hsum] at hfinding
          exact fun t ht => ⟨alone_idle (.inr (by rw [hfinding]; rfl)) hIu hrecords ht, by
            rw [hfinding]; rfl⟩
        · obtain ⟨hsum, huri⟩ := hanswer
          simp only [if_pos hsum] at hfinding
          cases dryRun with
          | true =>
            exact fun t ht => ⟨alone_idle (.inl rfl) hIu hrecords ht, by rw [hfinding]; rfl⟩
          | false =>
            obtain ⟨rfl, hstored⟩ : uri = some (storageUri m.bucket (m.targetKey x)) ∧
              Stored (m.targetKey x) o.body u := huri
            refine safe_storeCall fun t ht c y t' he => ⟨trivial, fun s hs => ?_⟩
            have hIt := (ht.1 hIu).1
            obtain ⟨-, -, he⟩ := tenantExec_spec he
            refine ⟨saveStorageUri_alone hx (source_eq hkey ho hsum) (by rw [hfinding]; rfl) hIt
              (ht.2.trans hrecords) ((m.stillReader _).stored hIu ht hstored) he hs, ?_⟩
            rw [hfinding]
            rfl
      · exact fun t ht => ⟨(ht.1 hu.2.1).1, hu.2.2⟩
  · exact fun u hu => ⟨(hu.1 hv.2.1).1, fun hc => by simp [hv.2.2] at hc⟩

theorem inspectRecord_alone (hw : m.Inv w) (hx : x ∈ m.initial.records)
    (hcolumn : x.checksumSha256.length ≤ 64) (result : MigrationInspectionResult) :
    (inspectRecord m.bucket m.tenant.text m.schemaName dryRun x result).Safe
      (tenantExec m.tenant calm) m.Still (fun _ _ => True) (fun out v => match out with
        | .ok result' => m.Alone dryRun x w v ∧ result' = result.inspected dryRun x (m.finding x)
        | .error _ => m.Inv v ∧ m.Refused calm dryRun) w := by
  rcases m.classify_cases x with ⟨k, hk, -⟩ | ⟨c, hk, hc⟩ | ⟨c, k, hk, hc, -⟩
  · have hfinding : m.finding x = .alreadyMigrated := by rw [finding, hk]
    simp only [inspectRecord, hk]
    exact fun v hv => ⟨alone_idle (.inr (by rw [hfinding]; rfl)) hw rfl hv, by
      rw [hfinding]; rfl⟩
  · have hfinding : m.finding x = .unrecognized := by
      cases c with
      | alreadyMigrated => exact absurd rfl hc
      | _ => rw [finding, hk]
    cases c with
    | alreadyMigrated => exact absurd rfl hc
    | _ =>
      simp only [inspectRecord, hk]
      exact fun v hv => ⟨alone_idle (.inr (by rw [hfinding]; rfl)) hw rfl hv, by
        rw [hfinding]; rfl⟩
  · rw [inspectRecord_legacy hk hc]
    exact inspectLegacy_alone hw hx hcolumn hk hc _

/-! A whole pass, in a world that has the store as a part. -/

/-- A world in which one pass is at work on the store. Others may only ask for its
cancellation, and the check answers `true` only then. -/
structure Workplace {C W : Type} (m : Migration) (calm : Bool) (exec : Exec StoreSig C W)
    (store : W → StoreWorld) (cancelled : W → Prop) (R : W → W → Prop) : Prop where
  refl : ∀ w, R w w
  trans : ∀ u v w, R u v → R v w → R u w
  rely : ∀ v w, R v w → store w = store v ∧ (cancelled v → cancelled w)
  record : ∀ op, op.isCallback = false → ∀ c w r v, exec op c w = some (r, v) →
    ∃ c₀, tenantExec m.tenant calm op c₀ (store w) = some (r, store v)
  progress : ∀ result c w r v, exec (.progressCallback result) c w = some (r, v) →
    store v = store w ∧ (cancelled w → cancelled v)
  check : ∀ c w r v, exec .cancelCheck c w = some (r, v) →
    store v = store w ∧ (r = true → cancelled v)

def tally (m : Migration) (dryRun : Bool) (result : MigrationInspectionResult)
    (xs : List RawPayloadRecord) : MigrationInspectionResult :=
  xs.foldl (fun result x => result.inspected dryRun x (m.finding x)) result

def relocateAll (m : Migration) (dryRun : Bool) (records xs : List RawPayloadRecord) :
    List RawPayloadRecord :=
  xs.foldl (fun records x => records.map (m.relocate dryRun x)) records

section Workplace

variable {C W : Type} {exec : Exec StoreSig C W} {store : W → StoreWorld} {cancelled : W → Prop}
  {R : W → W → Prop} {u : W}

theorem Workplace.inspectRecord (h : m.Workplace calm exec store cancelled R)
    (hu : m.Inv (store u)) (hx : x ∈ m.initial.records) (hcolumns : m.ColumnsFit)
    (result : MigrationInspectionResult) :
    (inspectRecord m.bucket m.tenant.text m.schemaName dryRun x result).Safe exec R
      (fun _ _ => True) (fun out v => match out with
        | .ok result' => m.Alone dryRun x (store u) (store v) ∧
            result' = result.inspected dryRun x (m.finding x)
        | .error _ => m.Inv (store v) ∧ m.Refused calm dryRun) u := by
  refine Prog.Safe.project store (fun v w hvw => ?_)
    (fun op hop => h.record op (recordOp_isCallback hop)) (issues_inspectRecord _ _ _ _ _ _)
    (inspectRecord_alone hu hx (hcolumns x hx) result)
  rw [(h.rely v w hvw).1]
  exact Still.refl _

theorem Workplace.reportProgress (h : m.Workplace calm exec store cancelled R)
    (options : MigrationOptions) (result : MigrationInspectionResult) :
    (reportProgress options result).Safe exec R (fun _ _ => True)
      (fun out v => store v = store u ∧ (cancelled u → cancelled v) ∧ ∃ y, out = .ok y) u := by
  unfold DataLake.reportProgress
  split_ifs
  · intro v hv c y v' he
    obtain ⟨hstore, hkeeps⟩ := h.rely u v hv
    obtain ⟨hstore', hkeeps'⟩ := h.progress result c v y v' he
    refine ⟨trivial, fun t ht => ?_⟩
    obtain ⟨hstore'', hkeeps''⟩ := h.rely v' t ht
    exact ⟨by rw [hstore'', hstore', hstore], fun hc => hkeeps'' (hkeeps' (hkeeps hc)), y, rfl⟩
  · exact fun v hv => ⟨(h.rely u v hv).1, (h.rely u v hv).2, (), rfl⟩

theorem Workplace.pollCancel (h : m.Workplace calm exec store cancelled R)
    (options : MigrationOptions) :
    (pollCancel options).Safe exec R (fun _ _ => True)
      (fun out v => store v = store u ∧ ∃ b, out = .ok b ∧ (b = true → cancelled v)) u := by
  unfold DataLake.pollCancel
  split_ifs
  · intro v hv c b v' he
    obtain ⟨hstore', hcancelled⟩ := h.check c v b v' he
    refine ⟨trivial, fun t ht => ?_⟩
    obtain ⟨hstore'', hkeeps''⟩ := h.rely v' t ht
    exact ⟨by rw [hstore'', hstore', (h.rely u v hv).1], b, rfl, fun hb =>
      hkeeps'' (hcancelled hb)⟩
  · exact fun v hv => ⟨(h.rely u v hv).1, false, rfl, nofun⟩

/-- What the loop over the records `xs` leaves: it has dealt with all of them, or with the
first ones and was told to stop. -/
def Processed (m : Migration) (dryRun : Bool) (cancelled : W → Prop) (v₀ : StoreWorld)
    (result : MigrationInspectionResult) (xs : List RawPayloadRecord)
    (result' : MigrationInspectionResult) (store : W → StoreWorld) (v : W) : Prop :=
  ∃ ys, ys <+: xs ∧ (ys = xs ∨ cancelled v) ∧ result' = m.tally dryRun result ys ∧
    m.Inv (store v) ∧ (store v).records = m.relocateAll dryRun v₀.records ys

theorem Workplace.migrateRecords (h : m.Workplace calm exec store cancelled R)
    (hcolumns : m.ColumnsFit) (options : MigrationOptions) (xs : List RawPayloadRecord)
    (hxs : ∀ x ∈ xs, x ∈ m.initial.records) (hu : m.Inv (store u)) (since : Nat)
    (result : MigrationInspectionResult) :
    (migrateRecords m.bucket m.tenant.text m.schemaName options xs since result).Safe exec R
      (fun _ _ => True) (fun out v => match out with
        | .ok result' =>
          m.Processed options.dryRun cancelled (store u) result xs result' store v
        | .error _ => m.Inv (store v) ∧ m.Refused calm options.dryRun) u := by
  induction xs generalizing u since result with
  | nil =>
    intro v hv
    have hstore := (h.rely u v hv).1
    exact ⟨[], List.nil_prefix, .inl rfl, rfl, by rw [hstore]; exact hu, by rw [hstore]; rfl⟩
  | cons x xs ih =>
    refine (h.inspectRecord hu (hxs x List.mem_cons_self) hcolumns result).handle h.refl
      (fun next v hv => ?_) fun e v hv => ?_
    · obtain ⟨⟨hIv, hrecords⟩, rfl⟩ := hv
      -- The rest of the loop, from any later state with the same store.
      have rest : ∀ (t : W) (since : Nat), store t = store v →
          (DataLake.migrateRecords m.bucket m.tenant.text m.schemaName options xs since
            (result.inspected options.dryRun x (m.finding x))).Safe exec R (fun _ _ => True)
            (fun out s => match out with
              | .ok result' => m.Processed options.dryRun cancelled (store u) result (x :: xs)
                  result' store s
              | .error _ => m.Inv (store s) ∧ m.Refused calm options.dryRun) t := by
        intro t since ht
        refine (ih (fun y hy => hxs y (List.mem_cons_of_mem _ hy)) (by rw [ht]; exact hIv) since
          _).weaken fun out s hs => ?_
        cases out with
        | error e => exact hs
        | ok result' =>
          obtain ⟨ys, hprefix, hall, rfl, hIs, hfinal⟩ := hs
          refine ⟨x :: ys, List.cons_prefix_cons.mpr ⟨rfl, hprefix⟩,
            hall.imp (fun h => by rw [h]) id, rfl, hIs, ?_⟩
          rw [hfinal, ht, hrecords]
          rfl
      split_ifs
      · refine (h.reportProgress options _).handle h.refl (fun _ t ht => ?_) fun e t ht => ?_
        · refine (h.pollCancel options).handle h.refl (fun b s hs => ?_) fun e s hs => ?_
          · obtain ⟨hstore, b', hb, hcancelled⟩ := hs
            obtain rfl : b = b' := by simpa using hb
            cases b with
            | true =>
              intro a ha
              have hstore' : store a = store v := by rw [(h.rely s a ha).1, hstore, ht.1]
              exact ⟨[x], List.cons_prefix_cons.mpr ⟨rfl, List.nil_prefix⟩,
                .inr ((h.rely s a ha).2 (hcancelled rfl)), rfl, by rw [hstore']; exact hIv, by
                  rw [hstore', hrecords]; rfl⟩
            | false => exact rest s 0 (by rw [hstore, ht.1])
          · obtain ⟨-, b, hb, -⟩ := hs
            cases hb
        · obtain ⟨-, -, y, hy⟩ := ht
          cases hy
      · exact rest v _ rfl
    · intro s hs
      rw [(h.rely v s hs).1]
      exact hv

def sorted (m : Migration) : List RawPayloadRecord :=
  m.initial.records.insertionSort fun a b => a.id.bits.toNat ≤ b.id.bits.toNat

theorem Workplace.runRawPayloadMigration (h : m.Workplace calm exec store cancelled R)
    (hcolumns : m.ColumnsFit) (options : MigrationOptions) (hu : store u = m.initial) :
    (runRawPayloadMigration m.bucket m.schemaName options).Safe exec R (fun _ _ => True)
      (fun out v => match out with
        | .ok result => ∃ result', result = result'.skipped ∧
          m.Processed options.dryRun cancelled m.initial {} m.sorted result' store v
        | .error _ => m.Inv (store v) ∧ m.Refused calm options.dryRun) u := by
  refine safe_storeCall fun v hv c tenant v' he => ⟨trivial, ?_⟩
  have hv := (h.rely u v hv).1.trans hu
  obtain ⟨c₀, he⟩ := h.record .tenantUuid rfl c v tenant v' he
  obtain ⟨hv', htenant⟩ := tenantExec_tenantUuid he
  rcases htenant with rfl | ⟨rfl, e, rfl⟩
  · refine safe_storeCall fun t ht c xs t' he => ⟨trivial, ?_⟩
    have ht : store t = m.initial := by rw [(h.rely v' t ht).1, hv', hv]
    obtain ⟨c₁, he⟩ := h.record .selectRecords rfl c t xs t' he
    obtain ⟨-, -, he⟩ := tenantExec_spec he
    obtain ⟨rfl, ht'⟩ : xs = m.sorted ∧ store t' = m.initial := by
      cases c₁ with
      | done _ =>
        simp only [execStore, Option.some.injEq, Prod.mk.injEq, ht] at he
        exact ⟨he.1.symm, he.2.symm⟩
      | _ => cases he
    have hmem : ∀ x ∈ m.sorted, x ∈ m.initial.records := fun x hx =>
      (List.mem_insertionSort _).mp hx
    refine (h.migrateRecords hcolumns options m.sorted hmem (by rw [ht']; exact m.inv_initial) 0
      {}).handle h.refl (fun result s hs => ?_) fun e s hs => ?_
    · refine (h.reportProgress options _).handle h.refl (fun _ a ha => ?_) fun e a ha => ?_
      · obtain ⟨hstore, hkeeps, -⟩ := ha
        intro b hb
        obtain ⟨ys, hprefix, hall, hresult, hIs, hfinal⟩ := hs
        have hstore' : store b = store s := by rw [(h.rely a b hb).1, hstore]
        refine ⟨result, rfl, ys, hprefix,
          hall.imp id fun hc => (h.rely a b hb).2 (hkeeps hc), hresult, ?_, ?_⟩
        · rw [hstore']
          exact hIs
        · rw [hstore', hfinal, ht']
      · obtain ⟨-, -, y, hy⟩ := ha
        cases hy
    · intro a ha
      rw [(h.rely s a ha).1]
      exact hs
  · intro t ht
    rw [(h.rely v' t ht).1, hv', hv]
    exact ⟨m.inv_initial, fun h => by cases h⟩

end Workplace

/-! What the pass reports and leaves, once it has dealt with every record. -/

def carried (m : Migration) (xs : List RawPayloadRecord) (r : RawPayloadRecord) :
    RawPayloadRecord :=
  if r ∈ xs ∧ (m.finding r).isReady = true then m.moved r else r

theorem relocate_carried {xs : List RawPayloadRecord} (hx : x ∈ m.initial.records)
    (hr : r ∈ m.initial.records) :
    m.relocate false x (m.carried xs r) = m.carried (xs ++ [x]) r := by
  have hid : (m.carried xs r).id = r.id := by
    unfold carried
    split_ifs <;> rfl
  by_cases heq : r = x
  · subst heq
    by_cases hready : (m.finding r).isReady = true
    · have hmoved : m.moved (m.carried xs r) = m.moved r := by
        unfold carried
        split_ifs <;> rfl
      rw [relocate, hid, hmoved]
      simp [hready, carried]
    · simp [relocate, hready, carried]
  · have hne : r.id ≠ x.id := fun h => heq (id_inj hr hx h)
    rw [relocate, hid]
    simp [hne, carried, heq]

theorem relocateAll_carried (before xs : List RawPayloadRecord)
    (hxs : ∀ x ∈ xs, x ∈ m.initial.records) :
    m.relocateAll false (m.initial.records.map (m.carried before)) xs =
      m.initial.records.map (m.carried (before ++ xs)) := by
  induction xs generalizing before with
  | nil => simp [relocateAll]
  | cons x xs ih =>
    have hstep : (m.initial.records.map (m.carried before)).map (m.relocate false x) =
        m.initial.records.map (m.carried (before ++ [x])) := by
      rw [List.map_map]
      exact List.map_congr_left fun r hr => relocate_carried (hxs x List.mem_cons_self) hr
    rw [relocateAll, List.foldl_cons, hstep, ← relocateAll,
      ih _ fun y hy => hxs y (List.mem_cons_of_mem _ hy), List.append_assoc]
    rfl

theorem relocateAll_false (xs : List RawPayloadRecord) (hxs : ∀ x ∈ xs, x ∈ m.initial.records) :
    m.relocateAll false m.initial.records xs = m.initial.records.map (m.carried xs) := by
  have h := relocateAll_carried [] xs hxs
  have hnone : m.initial.records.map (m.carried []) = m.initial.records := by
    rw [List.map_congr_left (g := id) fun r _ => by simp [carried]]
    exact List.map_id _
  rwa [hnone] at h

/-- The result of the real pass that the result of a dry run predicts. -/
def performed (dry : MigrationInspectionResult) : MigrationInspectionResult :=
  { dry with recordsMigrated := dry.readyForMigration }

theorem performed_addProblem (dry : MigrationInspectionResult) (entry : ProblemEntry) :
    (performed dry).addProblem entry = performed (dry.addProblem entry) := by
  by_cases h : dry.problemRecords.length < maxSampleProblemRecords <;>
    simp [performed, MigrationInspectionResult.addProblem, h]

theorem performed_counted (dry : MigrationInspectionResult) (category : Category) :
    (performed dry).counted category = performed (dry.counted category) := by
  cases category <;> rfl

theorem performed_conflict (dry : MigrationInspectionResult) (reason : String) :
    (performed dry).conflict x reason = performed (dry.conflict x reason) :=
  performed_addProblem { dry with checksumConflicts := dry.checksumConflicts + 1 } _

theorem performed_missing (dry : MigrationInspectionResult) :
    (performed dry).missing x = performed (dry.missing x) :=
  performed_addProblem { dry with missingObjects := dry.missingObjects + 1 } _

theorem performed_inspected (dry : MigrationInspectionResult) (finding : Finding) :
    (performed dry).inspected false x finding = performed (dry.inspected true x finding) := by
  cases finding with
  | alreadyMigrated => rfl
  | unrecognized =>
    exact performed_conflict { dry with recordsInspected := dry.recordsInspected + 1 } _
  | missing => exact performed_missing { dry with recordsInspected := dry.recordsInspected + 1 }
  | mismatch category =>
    have hcounted :=
      performed_counted { dry with recordsInspected := dry.recordsInspected + 1 } category
    exact (congrArg (fun result : MigrationInspectionResult => result.conflict x
      "downloaded object checksum does not match the recorded checksum") hcounted).trans
      (performed_conflict _ _)
  | ready category => cases category <;> rfl

theorem performed_tally (dry : MigrationInspectionResult) (xs : List RawPayloadRecord) :
    m.tally false (performed dry) xs = performed (m.tally true dry xs) := by
  induction xs generalizing dry with
  | nil => rfl
  | cons x xs ih =>
    rw [tally, List.foldl_cons, performed_inspected]
    exact ih _

theorem recordsMigrated_counted (result : MigrationInspectionResult) (category : Category) :
    (result.counted category).recordsMigrated = result.recordsMigrated := by
  cases category <;> rfl

theorem tally_recordsMigrated (result : MigrationInspectionResult) (xs : List RawPayloadRecord) :
    (m.tally true result xs).recordsMigrated = result.recordsMigrated := by
  induction xs generalizing result with
  | nil => rfl
  | cons x xs ih =>
    rw [tally, List.foldl_cons, ← tally, ih]
    cases m.finding x with
    | alreadyMigrated => rfl
    | unrecognized => exact recordsMigrated_addProblem _ _
    | missing => exact recordsMigrated_addProblem _ _
    | mismatch category =>
      exact (recordsMigrated_addProblem _ _).trans (recordsMigrated_counted _ category)
    | ready category => exact recordsMigrated_counted _ category

def SizeClash (m : Migration) : Prop :=
  ∃ r ∈ m.initial.records, ∃ key o₀ o, m.legacyKey r = some key ∧
    m.initial.bucket key = some o₀ ∧ m.initial.bucket (m.targetKey r) = some o ∧
    sha256hex o.body = sha256hex o₀.body ∧ o.body.length ≠ o₀.body.length

theorem sizeClash_of_not_sizesAgree (h : ¬ m.SizesAgree) : m.SizeClash := by
  simp only [SizesAgree, SizeAgrees, not_forall] at h
  obtain ⟨r, hr, o₀, o, hsource, ho, hne⟩ := h
  obtain ⟨key, hkey, ho₀, hsum⟩ := source_spec hsource
  exact ⟨r, hr, key, o₀, o, hkey, ho₀, ho,
    (m.inv_initial.target_hashed hr hsource ho).trans hsum.symm, hne⟩

/-! A pass on its own. -/

def readOp : StoreOp → Prop
  | .putIfAbsent _ _ | .putObject _ _ | .saveStorageUri _ _ | .getOrCreateRecord _
  | .saveLoaded _ => False
  | _ => True

theorem execStore_readOp {op : StoreOp} (hop : readOp op) {c : StoreAnswer} {v : StoreWorld}
    {y : op.Resp} (h : execStore op c w = some (y, v)) : v = w := by
  cases op with
  | tenantUuid => exact (execStore_tenantUuid h).2
  | headObject key => exact (execStore_headObject h).1
  | getObject key => exact (execStore_getObject h).1
  | selectRecords =>
    cases c with
    | done _ => cases h; rfl
    | _ => cases h
  | progressCallback result =>
    cases c with
    | done _ => cases h; rfl
    | _ => cases h
  | cancelCheck =>
    cases c with
    | cancel _ => cases h; rfl
    | _ => cases h
  | _ => exact hop.elim

theorem workplace_alone (m : Migration) :
    m.Workplace true (tenantExec m.tenant true) id (fun _ => False) Eq where
  refl _ := rfl
  trans _ _ _ h h' := h.trans h'
  rely v w h := ⟨congrArg id h.symm, id⟩
  record op _ c w r v h := ⟨c, h⟩
  progress result c w r v h := by
    obtain ⟨-, -, he⟩ := tenantExec_spec h
    exact ⟨execStore_readOp (show readOp (.progressCallback result) from trivial) he, id⟩
  check c w r v h := by
    obtain ⟨-, hcalm, he⟩ := tenantExec_spec h
    refine ⟨execStore_readOp (show readOp .cancelCheck from trivial) he, ?_⟩
    cases c with
    | cancel b =>
      cases he
      simpa [undisturbed] using hcalm
    | _ => cases he

theorem exists_run (m : Migration) (options : MigrationOptions) :
    ∃ out w, (runRawPayloadMigration m.bucket m.schemaName options).Runs (tenantExec m.tenant true)
      m.initial out w :=
  Prog.exists_runs (issues_runRawPayloadMigration (fun _ => recordOp_migrationOp)
    (fun _ => trivial) trivial trivial trivial _ _) m.answers m.initial

theorem recordOp_readOp {op : StoreOp} (h : recordOp true op) : readOp op := by
  cases op with
  | headObject _ => trivial
  | getObject _ => trivial
  | tenantUuid => trivial
  | putIfAbsent _ _ => cases h
  | putObject _ _ => cases h
  | saveStorageUri _ _ => cases h
  | _ => exact h.elim

theorem dry_run_reads {options : MigrationOptions} (hdry : options.dryRun = true)
    {out : Except Exc MigrationInspectionResult}
    (h : (runRawPayloadMigration m.bucket m.schemaName options).Runs (tenantExec m.tenant true)
      m.initial out w) : w = m.initial := by
  have hissues : (runRawPayloadMigration m.bucket m.schemaName options).Issues readOp :=
    issues_runRawPayloadMigration (P := readOp) (fun op hop => recordOp_readOp (by rwa [hdry] at hop))
      (fun _ => trivial) trivial trivial trivial _ _
  have hframe : (runRawPayloadMigration m.bucket m.schemaName options).Safe
      (tenantExec m.tenant true) Eq (fun _ _ => True) (fun _ v => v = m.initial) m.initial := by
    refine Prog.Safe.frame (fun v v' hv hvv' => hvv' ▸ hv) (fun op hop v c r v' hv he => ?_)
      hissues rfl
    obtain ⟨-, -, he⟩ := tenantExec_spec he
    exact ⟨trivial, (execStore_readOp hop he).trans hv⟩
  exact hframe.runs (fun _ => rfl) h

theorem pass_result (hcolumns : m.ColumnsFit) {options : MigrationOptions}
    {out : Except Exc MigrationInspectionResult}
    (h : (runRawPayloadMigration m.bucket m.schemaName options).Runs (tenantExec m.tenant true)
      m.initial out w) :
    out = .ok (m.tally options.dryRun {} m.sorted).skipped ∨
      ((∃ e, out = .error e) ∧ options.dryRun = false ∧ ¬ m.SizesAgree) := by
  have hout := ((m.workplace_alone.runRawPayloadMigration hcolumns options rfl)).runs
    (fun _ => rfl) h
  cases out with
  | error e => exact .inr ⟨⟨e, rfl⟩, hout.2 rfl⟩
  | ok result =>
    obtain ⟨result', rfl, ys, -, rfl | hno, rfl, -⟩ := hout
    · exact .inl rfl
    · exact hno.elim

end Migration

open Migration

/-- A dry run leaves the store as it is and has the result of a real pass from the same
state, but for the records it has not migrated. A real pass has a result unless the two
keys of a record have objects of different sizes with one hash. -/
theorem dry_run_predicts (m : Migration) (hcolumns : m.ColumnsFit)
    (options options' : MigrationOptions) :
    (∃ out w, (runRawPayloadMigration m.bucket m.schemaName { options with dryRun := true }).Runs
      (tenantExec m.tenant true) m.initial out w) ∧
    (∃ out w, (runRawPayloadMigration m.bucket m.schemaName { options' with dryRun := false }).Runs
      (tenantExec m.tenant true) m.initial out w) ∧
    ∀ out w, (runRawPayloadMigration m.bucket m.schemaName { options with dryRun := true }).Runs
      (tenantExec m.tenant true) m.initial out w →
    w = m.initial ∧
    ∃ dry, out = .ok dry ∧ dry.recordsMigrated = 0 ∧
      ∀ out' w', (runRawPayloadMigration m.bucket m.schemaName
        { options' with dryRun := false }).Runs (tenantExec m.tenant true) m.initial out' w' →
      out' = .ok { dry with recordsMigrated := dry.readyForMigration } ∨
        ((∃ e, out' = .error e) ∧ m.SizeClash) := by
  refine ⟨m.exists_run _, m.exists_run _, fun out w hdry => ⟨dry_run_reads rfl hdry, ?_⟩⟩
  rcases pass_result hcolumns hdry with rfl | ⟨-, hreal, -⟩
  · refine ⟨_, rfl, tally_recordsMigrated _ _, fun out' w' hreal => ?_⟩
    rcases pass_result hcolumns hreal with rfl | ⟨herror, -, hsizes⟩
    · left
      have hresult := performed_tally (m := m) {} m.sorted
      exact congrArg Except.ok (congrArg MigrationInspectionResult.skipped hresult)
    · exact .inr ⟨herror, sizeClash_of_not_sizesAgree hsizes⟩
  · cases hreal

theorem legacyMigration_columnsFit : legacyMigration.ColumnsFit := by
  intro r hr
  obtain rfl := List.mem_singleton.mp hr
  exact (length_sha256hex [7]).le

theorem dry_run_predicts_legacy : ∃ dry : MigrationInspectionResult,
    (runRawPayloadMigration legacyMigration.bucket legacyMigration.schemaName
      { dryRun := true }).Runs (tenantExec ⟨1⟩ true) legacyMigration.initial (.ok dry)
        legacyMigration.initial ∧
    dry.readyForMigration = 1 ∧ dry.recordsMigrated = 0 ∧
    ∀ out w, (runRawPayloadMigration legacyMigration.bucket legacyMigration.schemaName
      { dryRun := false }).Runs (tenantExec ⟨1⟩ true) legacyMigration.initial out w →
      out = .ok { dry with recordsMigrated := 1 } := by
  obtain ⟨⟨out, w, hw⟩, -, hall⟩ :=
    dry_run_predicts legacyMigration legacyMigration_columnsFit {} {}
  obtain ⟨rfl, dry, rfl, hnone, hreal⟩ := hall out w hw
  have hready : dry.readyForMigration = 1 := by
    rcases pass_result legacyMigration_columnsFit hw with heq | ⟨⟨e, heq⟩, -⟩
    · have htally : (legacyMigration.tally true {}
          legacyMigration.sorted).skipped.readyForMigration = 1 := by
        decide +kernel
      cases heq
      exact htally
    · cases heq
  refine ⟨dry, hw, hready, hnone, fun out' w' h => ?_⟩
  rcases hreal out' w' h with rfl | ⟨-, r, -, key, o₀, o, -, -, ho, -⟩
  · rw [hready]
  · rw [legacyMigration_target] at ho
    cases ho

end DataLake
