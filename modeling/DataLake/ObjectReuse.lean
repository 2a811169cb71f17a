import DataLake.PassCompletion

/-! Reuse of an object that is there already: `put` and a migration pass compare its size,
so they hold on to the data exactly when no object differs from it in its bytes only. -/

namespace DataLake

open Foundation

section Put

variable {bucket : BucketName} {tenant : Uuid} {calm : Bool} {key contentType : Text}
  {data : Bytes} {w : StoreWorld} {object : S3Object}

/-- What `put` returns is the URI of an object with exactly the data, whatever the service
answers. -/
def PutsExactly (bucket : BucketName) (tenant : Uuid) (key : Text) (data : Bytes)
    (contentType : Text) (w : StoreWorld) : Prop :=
  ∀ calm uri v, (put bucket key data contentType).Runs (tenantExec tenant calm) w (.ok uri) v →
    uri = storageUri bucket (tenantKey tenant key) ∧
      ∃ o, v.bucket (tenantKey tenant key) = some o ∧ o.body = data

theorem eval_put_reuses (hobject : w.bucket (tenantKey tenant key) = some object)
    (hlength : object.body.length = data.length) :
    (put bucket key data contentType).eval (tenantExec tenant true) (servedAs tenant) w =
      some (.ok (storageUri bucket (tenantKey tenant key)), w) := by
  simp [put, currentTenantKey, putCreateOnly, verifyExistingObject, Prog.bind_eq, storeCall,
    Prog.perform, Prog.eval, Exec.only, underTenant, undisturbed, execStore, servedAs, Prog.pure_eq,
    hobject, hlength, S3Error.codeIn, preconditionFailed]

theorem put_exact_iff : PutsExactly bucket tenant key data contentType w ↔
    ∀ o, w.bucket (tenantKey tenant key) = some o → o.body.length = data.length →
      o.body = data := by
  constructor
  · intro hexact o ho hlength
    obtain ⟨-, o', ho', hbody⟩ :=
      hexact true _ w (.of_eval (servedAs tenant) (eval_put_reuses ho hlength))
    rw [ho] at ho'
    obtain rfl := Option.some.inj ho'
    exact hbody
  · intro hsame calm uri v h
    obtain ⟨rfl, hsize, rfl⟩ := (put_alone w).runs (fun _ => rfl) h
    refine ⟨rfl, ?_⟩
    cases hb : w.bucket (tenantKey tenant key) with
    | none =>
      rw [writeIfAbsent_none hb]
      exact ⟨_, Function.update_self _ _ _, rfl⟩
    | some o =>
      rw [writeIfAbsent_some hb]
      refine ⟨o, hb, hsame o hb ?_⟩
      by_contra hne
      exact hsize ⟨o, hb, hne⟩

end Put

namespace RecordTable

variable {t : RecordTable} {contents : Bucket} {calm dryRun : Bool} {x r r' : RawPayloadRecord}
  {xs ys zs : List RawPayloadRecord} {w : StoreWorld} {key : Text} {o : S3Object}

theorem settleAll_bucket (hne : ∀ x ∈ xs, ∀ o, t.source contents x = some o → key ≠ t.targetKey x) :
    (t.settleAll dryRun contents w xs).bucket key = w.bucket key := by
  induction xs generalizing w with
  | nil => rfl
  | cons x xs ih =>
    have hstep := @settle_bucket t _ dryRun _ _ w (hne x List.mem_cons_self)
    exact (ih fun y hy => hne y (List.mem_cons_of_mem _ hy)).trans hstep

/-- The copy of a record that a real pass got through: what was there, or the source. -/
theorem settleAll_target (hxs : ∀ x ∈ xs, x ∈ t.records) (hnodup : xs.Nodup) (hr : r ∈ xs)
    (hsource : t.source contents r = some o) :
    (t.settleAll false contents w xs).bucket (t.targetKey r) =
      some ((w.bucket (t.targetKey r)).getD (Migration.copied o)) := by
  induction xs generalizing w with
  | nil => cases hr
  | cons x xs ih =>
    obtain ⟨hnotMem, hnodup⟩ := List.nodup_cons.mp hnodup
    have hmem := hxs x List.mem_cons_self
    have hlater : ∀ y ∈ xs, y ∈ t.records := fun y hy => hxs y (List.mem_cons_of_mem _ hy)
    rcases List.mem_cons.mp hr with rfl | hr'
    · have hstep : (t.settle false contents w r).bucket (t.targetKey r) =
          some ((w.bucket (t.targetKey r)).getD (Migration.copied o)) := by
        simp only [settle, hsource, Bool.false_eq_true, if_false, repoint]
        cases hb : w.bucket (t.targetKey r) with
        | none => rw [writeIfAbsent_none hb]; exact Function.update_self _ _ _
        | some o' => rw [writeIfAbsent_some hb, hb]; rfl
      refine (@settleAll_bucket t contents false xs (t.settle false contents w r) _
        fun y hy o' _ heq => hnotMem ?_).trans hstep
      rw [targetKey_inj hmem (hlater y hy) heq]
      exact hy
    · have hstep := @settle_bucket t contents false x (t.targetKey r) w fun o' _ heq =>
        hnotMem (targetKey_inj (hlater r hr') hmem heq ▸ hr')
      refine (ih hlater hnodup hr').trans ?_
      rw [hstep]

theorem checksumFromKey_targetKey (hsource : t.source contents r = some o) :
    checksumFromKey (t.targetKey r) = some r.checksumSha256 := by
  obtain ⟨-, -, -, hsum⟩ := source_spec hsource
  refine checksumFromKey_tenantKey _ _ _ _ ?_ ?_
  · rw [← hsum]
    exact slash_notMem_sha256hex o.body
  · rw [← hsum]
    exact length_sha256hex o.body

theorem moved_ne (hsource : t.source contents r = some o) :
    (t.moved r).storageUri ≠ r.storageUri := by
  obtain ⟨key, hkey, -⟩ := source_spec hsource
  obtain ⟨huri, hne, -⟩ := Migration.legacyKey_spec (m := t.emptied) hkey
  intro h
  exact hne (storageUri_inj (h.trans huri)).symm

/-- A record that a pass re-points is readable from its new URI and has the bytes of its
legacy object. -/
def RepointsExactly (t : RecordTable) (contents : Bucket) (options : MigrationOptions) : Prop :=
  ∀ calm out w, (runRawPayloadMigration t.bucket t.schemaName { options with dryRun := false }).Runs
    (tenantExec t.tenant calm) ⟨contents, t.records⟩ out w →
  ∀ r ∈ t.records, ∀ r' ∈ w.records, r'.id = r.id → r'.storageUri ≠ r.storageUri →
    ∃ o, t.source contents r = some o ∧
      (get t.bucket r'.storageUri).eval execStore (servedAs t.tenant) w = some (.ok o.body, w)

/-- Of the records a pass can reach, none has an object with other bytes of the same number
where its copy belongs. -/
def SameWhereReached (t : RecordTable) (contents : Bucket) : Prop :=
  ∀ before r after, t.sorted = before ++ r :: after →
    (∀ x ∈ before, t.clash contents x = false) →
  ∀ o o', t.source contents r = some o → contents (t.targetKey r) = some o' →
    o'.body.length = o.body.length → o'.body = o.body

theorem length_eq_of_not_clash {o' : S3Object} (hsource : t.source contents r = some o)
    (htarget : contents (t.targetKey r) = some o') (hclash : t.clash contents r = false) :
    o'.body.length = o.body.length := by
  simpa [clash, hsource, htarget] using hclash

theorem clash_of_length_eq {o' : S3Object} (hsource : t.source contents r = some o)
    (htarget : contents (t.targetKey r) = some o') (hlength : o'.body.length = o.body.length) :
    t.clash contents r = false := by
  simp [clash, hsource, htarget, hlength]

theorem get_target (hsource : t.source contents r = some o)
    (htarget : w.bucket (t.targetKey r) = some o') (hbody : o'.body = o.body) :
    (get t.bucket (t.moved r).storageUri).eval execStore (servedAs t.tenant) w =
      some (.ok o.body, w) := by
  obtain ⟨-, -, -, hsum⟩ := source_spec hsource
  have h := @eval_get_own t.bucket _ _ _ _ _ htarget (checksumFromKey_targetKey hsource)
    (by rw [hbody]; exact hsum)
  rwa [hbody] at h

theorem get_target_inv (hsource : t.source contents r = some o)
    (htarget : w.bucket (t.targetKey r) = some o')
    (h : (get t.bucket (t.moved r).storageUri).eval execStore (servedAs t.tenant) w =
      some (.ok o.body, w)) : o'.body = o.body := by
  by_cases hsum : sha256hex o'.body = r.checksumSha256
  · have hget := @eval_get_own t.bucket _ _ _ _ _ htarget (checksumFromKey_targetKey hsource) hsum
    have hsame := h.symm.trans hget
    simpa using hsame.symm
  · obtain ⟨message, hget⟩ := @eval_get_replaced t.bucket _ _ _ _ _ htarget
      (checksumFromKey_targetKey hsource) hsum
    have hsame := h.symm.trans hget
    simp at hsame

/-- A pass that ends has got through some first records, and has re-pointed those only. -/
theorem pass_prefix {options : MigrationOptions} {out : Except Exc MigrationInspectionResult}
    (h : (runRawPayloadMigration t.bucket t.schemaName { options with dryRun := false }).Runs
      (tenantExec t.tenant calm) ⟨contents, t.records⟩ out w) :
    ∃ ys zs, t.sorted = ys ++ zs ∧ (∀ y ∈ ys, t.clash contents y = false) ∧
      w.records = t.records.map (t.carried contents ys) ∧
      (∀ r ∈ ys, ∀ o, t.source contents r = some o →
        w.bucket (t.targetKey r) =
          some ((contents (t.targetKey r)).getD (Migration.copied o))) ∧
      (calm = true → ∀ x zs', zs = x :: zs' → t.clash contents x = true) := by
  obtain ⟨noted, hleaves⟩ := pass_leaves h
  have hclear : ∀ {ys}, t.Clear false contents ys → ∀ y ∈ ys, t.clash contents y = false :=
    fun h => h.resolve_left nofun
  have hmem : ∀ {ys zs}, t.sorted = ys ++ zs → ∀ y ∈ ys, y ∈ t.records := fun hsplit y hy =>
    mem_sorted.mp (by rw [hsplit]; exact List.mem_append_left _ hy)
  have hnodup : ∀ {ys zs}, t.sorted = ys ++ zs → ys.Nodup := fun hsplit =>
    (List.nodup_append.mp (hsplit ▸ t.sorted_nodup)).1
  cases out with
  | ok result =>
    obtain ⟨ys, zs, hsplit, hall, hys, -, hstore, -⟩ := hleaves
    obtain rfl : w = _ := hstore
    refine ⟨ys, zs, hsplit, hclear hys, settleAll_records (hmem hsplit), fun r hr o ho =>
      settleAll_target (hmem hsplit) (hnodup hsplit) hr ho, fun hcalm x zs' hzs => ?_⟩
    rw [hall hcalm] at hzs
    cases hzs
  | error e =>
    rcases hleaves with ⟨hcalm, hstore, -⟩ | ⟨ys, x, zs, hsplit, hys, hfailed, -⟩
    · obtain rfl : w = _ := hstore
      refine ⟨[], t.sorted, rfl, nofun, ?_, nofun, fun hc => ?_⟩
      · rw [carried_nil, List.map_id]
      · rw [hcalm] at hc
        cases hc
    · obtain ⟨hrecords, hbucket, hclash⟩ := hfailed
      refine ⟨ys, x :: zs, hsplit, hclear hys, ?_, fun r hr o ho => ?_, fun hcalm x' zs' hzs => ?_⟩
      · exact hrecords.trans (settleAll_records (hmem hsplit))
      · have htarget := settleAll_target (w := ⟨contents, t.records⟩) (hmem hsplit)
          (hnodup hsplit) hr ho
        rcases hbucket with hb | ⟨o', -, hb⟩
        · rw [show w.bucket = _ from hb]
          exact htarget
        · rw [show w.bucket = _ from hb]
          rcases writeIfAbsent_cases (t.settleAll false contents ⟨contents, t.records⟩ ys)
            (t.targetKey x) (Migration.copied o') with heq | ⟨habsent, heq⟩
          · rw [heq]
            exact htarget
          · rw [heq, StoreWorld.write_bucket, Function.update_of_ne]
            · exact htarget
            · intro hkey
              rw [hkey, habsent] at htarget
              cases htarget
      · obtain ⟨rfl, -⟩ : x = x' ∧ _ := by simpa using hzs
        exact (hclash hcalm).2

theorem repointsExactly_iff (options : MigrationOptions) :
    t.RepointsExactly contents options ↔ t.SameWhereReached contents := by
  constructor
  · intro hexact before r after hsplit hbefore o o' hsource htarget hlength
    have hr : r ∈ t.records := mem_sorted.mp (by rw [hsplit]; simp)
    obtain ⟨out, w, h⟩ := t.exists_run { options with dryRun := false } contents
    obtain ⟨ys, zs, hys, hclear, hrecords, hbucket, hstop⟩ := pass_prefix h
    -- The pass does not stop before `r`, which is in the way of nothing.
    have hreached : r ∈ ys := by
      rw [hsplit] at hys
      rcases List.append_eq_append_iff.mp hys with ⟨as, rfl, has⟩ | ⟨bs, rfl, hbs⟩
      · cases as with
        | nil =>
          have hx := hstop rfl r after has.symm
          rw [clash_of_length_eq hsource htarget hlength] at hx
          cases hx
        | cons a as =>
          obtain ⟨rfl, -⟩ : r = a ∧ _ := by simpa using has
          simp
      · cases bs with
        | nil =>
          have hx := hstop rfl r after (by simpa using hbs)
          rw [clash_of_length_eq hsource htarget hlength] at hx
          cases hx
        | cons b bs =>
          have hx := hstop rfl b (bs ++ r :: after) (by simpa using hbs)
          rw [hbefore b (by simp)] at hx
          cases hx
    have hcarried : t.carried contents ys r = t.moved r := by
      rw [carried, if_pos ⟨hreached, by rw [hsource]; rfl⟩]
    have hmoved : t.moved r ∈ w.records := by
      rw [hrecords, ← hcarried]
      exact List.mem_map_of_mem hr
    obtain ⟨o₁, hsource₁, hget⟩ := hexact true out w h r hr _ hmoved rfl (moved_ne hsource)
    rw [hsource] at hsource₁
    obtain rfl := Option.some.inj hsource₁
    have hstored := hbucket r hreached o hsource
    rw [htarget, Option.getD_some] at hstored
    exact get_target_inv hsource hstored hget
  · intro hsame calm out w h r hr r' hr' hid hne
    obtain ⟨ys, zs, hys, hclear, hrecords, hbucket, -⟩ := pass_prefix h
    rw [hrecords] at hr'
    obtain ⟨r₁, hr₁, rfl⟩ := List.mem_map.mp hr'
    have hid₁ : (t.carried contents ys r₁).id = r₁.id := by
      unfold carried
      split_ifs <;> rfl
    obtain rfl : r₁ = r := id_inj hr hr₁ (hid₁.symm.trans hid)
    unfold carried at hne ⊢
    split_ifs at hne ⊢ with hmoved
    · obtain ⟨hreached, hsome⟩ := hmoved
      obtain ⟨o, hsource⟩ := Option.isSome_iff_exists.mp hsome
      refine ⟨o, hsource, get_target hsource (hbucket r₁ hreached o hsource) ?_⟩
      cases hb : contents (t.targetKey r₁) with
      | none => rfl
      | some o' =>
        obtain ⟨before, after, rfl⟩ := List.append_of_mem hreached
        have hlength := length_eq_of_not_clash hsource hb (hclear r₁ hreached)
        exact hsame before r₁ (after ++ zs) (by rw [hys, List.append_assoc, List.cons_append])
          (fun x hx => hclear x (List.mem_append_left _ hx)) o o' hsource hb hlength
    · exact absurd rfl hne

end RecordTable

/-- Reuse is blind to the bytes: `put` is exact, and so is a pass, just when no object has
the number of bytes of the data that belong there but other bytes. -/
theorem reuse_exact_iff (bucket : BucketName) (tenant pipeline run : Uuid) (sequence : Nat)
    (data : Bytes) (contentType : Text) (w : StoreWorld) (t : RecordTable) (contents : Bucket)
    (options : MigrationOptions) :
    (PutsExactly bucket tenant (logicalKey pipeline run sequence (sha256hex data)) data contentType
        w ↔
      ∀ o, w.bucket (tenantKey tenant (logicalKey pipeline run sequence (sha256hex data))) = some o →
        o.body.length = data.length → o.body = data) ∧
    (t.RepointsExactly contents options ↔ t.SameWhereReached contents) :=
  ⟨put_exact_iff, RecordTable.repointsExactly_iff options⟩

/-- An object of one other byte under the tenant's key: `put` returns its URI, and a pass
re-points the record to it. -/
theorem reuse_blind :
    ¬ PutsExactly legacyTable.bucket ⟨1⟩ (logicalKey ⟨2⟩ ⟨3⟩ 1 (sha256hex [7])) [7] []
      ⟨plantedBucket [8], []⟩ ∧
    ¬ legacyTable.RepointsExactly (plantedBucket [8]) {} := by
  have htarget : plantedBucket [8] (tenantKey ⟨1⟩ (logicalKey ⟨2⟩ ⟨3⟩ 1 (sha256hex [7]))) =
      some ⟨[8], none⟩ := by decide +kernel
  have hsource : legacyTable.source (plantedBucket [8]) (legacyRecord ⟨4⟩ 1 [7]) =
      some ⟨[7], none⟩ := by decide +kernel
  have hsorted : legacyTable.sorted = [] ++ legacyRecord ⟨4⟩ 1 [7] :: [legacyRecord ⟨5⟩ 2 [6]] := by
    decide +kernel
  refine ⟨fun hput => ?_, fun hpass => ?_⟩
  · have hsame := put_exact_iff.mp hput _ htarget rfl
    cases hsame
  · have hsame := (RecordTable.repointsExactly_iff {}).mp hpass [] _ _ hsorted nofun _ _ hsource
      htarget rfl
    cases hsame

end DataLake
