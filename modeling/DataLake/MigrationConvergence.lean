import DataLake.MigrationPass

/-! Migration passes converge: a pass that is not disturbed moves every record
whose object can be moved, whatever happened before, and then there is nothing
left to do. -/

namespace DataLake

open Foundation

/-! The calls of a pass. -/

def MigrationOp : StoreOp → Prop
  | .getOrCreateRecord _ => False
  | .saveLoaded _ => False
  | _ => True

/-- The calls for one record; a dry run only reads. -/
def recordOp (dryRun : Bool) : StoreOp → Prop
  | .headObject _ | .getObject _ => True
  | .tenantUuid | .putIfAbsent _ _ | .putObject _ _ | .saveStorageUri _ _ => dryRun = false
  | _ => False

theorem recordOp_migrationOp {dryRun : Bool} {op : StoreOp} (h : recordOp dryRun op) :
    MigrationOp op := by
  cases op with
  | getOrCreateRecord _ => exact h
  | saveLoaded _ => exact h
  | _ => trivial

theorem issues_inspectLegacy (bucket : BucketName) (category : Category) (key : Text)
    (dryRun : Bool) (record : RawPayloadRecord) (result : MigrationInspectionResult) :
    (inspectLegacy bucket category key dryRun record result).Issues (recordOp dryRun) := by
  refine (issues_keyExists trivial).bind fun found => ?_
  cases found with
  | false => trivial
  | true =>
    have hmigrate : (verifyAndMaybeMigrate bucket key record dryRun).Issues (recordOp dryRun) := by
      refine Prog.Issues.bind ?_ fun object => ?_
      · refine issues_storeCall trivial fun r => ?_
        rcases r with _ | _ <;> trivial
      · unfold migrateObject
        split_ifs with hsum hdry
        · trivial
        · trivial
        · have hreal : dryRun = false := Bool.eq_false_iff.mpr hdry
          exact (issues_put hreal fun u => ⟨hreal, hreal, trivial⟩).bind fun _ => trivial
    refine hmigrate.bind fun ok => ?_
    obtain ⟨_ | _, uri⟩ := ok
    · trivial
    · cases dryRun with
      | true => trivial
      | false =>
        cases uri with
        | none => trivial
        | some uri => exact ⟨rfl, fun _ => trivial⟩

theorem issues_inspectRecord (bucket : BucketName) (tenant schemaName : Text) (dryRun : Bool)
    (record : RawPayloadRecord) (result : MigrationInspectionResult) :
    (inspectRecord bucket tenant schemaName dryRun record result).Issues (recordOp dryRun) := by
  unfold inspectRecord
  dsimp only
  split
  · trivial
  · trivial
  · exact issues_inspectLegacy _ _ _ _ _ _

section Calls

variable {P : StoreOp → Prop}

theorem issues_reportProgress (hprogress : ∀ result, P (.progressCallback result))
    (options : MigrationOptions) (result : MigrationInspectionResult) :
    (reportProgress options result).Issues P := by
  unfold reportProgress
  split_ifs
  · exact ⟨hprogress result, fun _ => trivial⟩
  · trivial

theorem issues_pollCancel (hcheck : P .cancelCheck) (options : MigrationOptions) :
    (pollCancel options).Issues P := by
  unfold pollCancel
  split_ifs
  · exact ⟨hcheck, fun _ => trivial⟩
  · trivial

theorem issues_migrateRecords {options : MigrationOptions}
    (hrecord : ∀ op, recordOp options.dryRun op → P op)
    (hprogress : ∀ result, P (.progressCallback result)) (hcheck : P .cancelCheck)
    (bucket : BucketName) (tenant schemaName : Text) (records : List RawPayloadRecord)
    (since : Nat) (result : MigrationInspectionResult) :
    (migrateRecords bucket tenant schemaName options records since result).Issues P := by
  induction records generalizing since result with
  | nil => trivial
  | cons record records ih =>
    refine ((issues_inspectRecord bucket tenant schemaName options.dryRun record result).mono
      hrecord).bind fun result => ?_
    split_ifs
    · refine (issues_reportProgress hprogress options result).bind fun _ => ?_
      refine (issues_pollCancel hcheck options).bind fun cancelled => ?_
      cases cancelled with
      | true => trivial
      | false => exact ih 0 result
    · exact ih _ _

theorem issues_runRawPayloadMigration {options : MigrationOptions}
    (hrecord : ∀ op, recordOp options.dryRun op → P op)
    (hprogress : ∀ result, P (.progressCallback result)) (hcheck : P .cancelCheck)
    (htenant : P .tenantUuid) (hselect : P .selectRecords) (bucket : BucketName)
    (schemaName : Text) : (runRawPayloadMigration bucket schemaName options).Issues P := by
  refine issues_storeCall htenant fun tenant => ?_
  rcases tenant with e | tenant
  · trivial
  · refine issues_storeCall hselect fun records => ?_
    refine (issues_migrateRecords hrecord hprogress hcheck _ _ _ _ _ _).bind fun result => ?_
    exact (issues_reportProgress hprogress _ _).bind fun _ => trivial

end Calls

namespace Migration

variable {m : Migration} {calm : Bool} {r : RawPayloadRecord}

theorem issues_pass (m : Migration) (options : MigrationOptions) :
    (m.pass options).Issues MigrationOp :=
  issues_runRawPayloadMigration (fun _ => recordOp_migrationOp) (fun _ => trivial) trivial trivial
    trivial _ _

theorem answers (m : Migration) (op : StoreOp) (hop : MigrationOp op) (w : StoreWorld) :
    ∃ c x, tenantExec m.tenant true op c w = some x := by
  have done : ∀ key, (∃ x, tenantExec m.tenant true (.headObject key) (.done ⟨0⟩) w = some x) ∧
      (∃ x, tenantExec m.tenant true (.getObject key) (.done ⟨0⟩) w = some x) ∧
      ∀ object, ∃ x, tenantExec m.tenant true (.putIfAbsent key object) (.done ⟨0⟩) w = some x := by
    intro key
    cases hb : w.bucket key <;> simp [Exec.only, underTenant, undisturbed, execStore, hb]
  cases op with
  | tenantUuid =>
    refine ⟨.tenant (.ok m.tenant), (.ok m.tenant, w), ?_⟩
    simp [Exec.only, underTenant, undisturbed, execStore]
  | cancelCheck => exact ⟨.cancel false, _, rfl⟩
  | getOrCreateRecord _ => exact hop.elim
  | saveLoaded _ => exact hop.elim
  | putIfAbsent key object => exact ⟨_, (done key).2.2 object⟩
  | headObject key => exact ⟨_, (done key).1⟩
  | getObject key => exact ⟨_, (done key).2.1⟩
  | _ => exact ⟨.done ⟨0⟩, _, rfl⟩

/-! Where a pass ends. -/

def converged (m : Migration) : List RawPayloadRecord :=
  m.initial.records.map fun r => if (m.source r).isSome then m.moved r else r

theorem Inv.records_eq {v : StoreWorld} (hv : m.Inv v)
    (hall : ∀ r ∈ m.initial.records, m.Settled v r) : v.records = m.converged := by
  obtain ⟨done, hrecords, hdone⟩ := hv.records
  rw [hrecords]
  refine List.map_congr_left fun r hr => ?_
  cases hs : m.source r with
  | none =>
    have hd : done r.id = false := by
      cases hd : done r.id with
      | false => rfl
      | true =>
        obtain ⟨o₀, o, hsource, -⟩ := hdone r hr hd
        rw [hs] at hsource
        cases hsource
    simp [move, hd]
  | some o₀ =>
    have hmem := (hall r hr).1 o₀ hs
    rw [hrecords] at hmem
    obtain ⟨r₁, hr₁, heq⟩ := List.mem_map.mp hmem
    obtain rfl : r₁ = r := id_inj hr₁ hr (by simpa [moved] using congrArg RawPayloadRecord.id heq)
    simpa using heq

theorem mem_converged {x : RawPayloadRecord} (hx : x ∈ m.converged) :
    m.legacyKey x = none ∨ m.source x = none := by
  obtain ⟨r, -, rfl⟩ := List.mem_map.mp hx
  cases hs : m.source r with
  | none => exact .inr (by simpa using hs)
  | some o₀ => exact .inl (by simpa using m.source_moved r)

section Idle

variable {w : StoreWorld}

@[simp] theorem recordsMigrated_addProblem (result : MigrationInspectionResult)
    (entry : ProblemEntry) : (result.addProblem entry).recordsMigrated = result.recordsMigrated := by
  unfold MigrationInspectionResult.addProblem
  split_ifs <;> rfl

/-- What a pass does when there is nothing left to do. -/
def Idle (w : StoreWorld) (migrated : Nat) (out : Except Exc MigrationInspectionResult)
    (v : StoreWorld) : Prop :=
  v = w ∧ ∀ result, out = .ok result → result.recordsMigrated = migrated

theorem idle_ok {result : MigrationInspectionResult} {migrated : Nat}
    (h : result.recordsMigrated = migrated) : ∀ v, w = v → Idle w migrated (.ok result) v := by
  rintro v rfl
  refine ⟨rfl, fun result' h' => ?_⟩
  obtain rfl := Except.ok.inj h'
  exact h

theorem idle_error (e : Exc) (migrated : Nat) : ∀ v, w = v → Idle w migrated (.error e) v := by
  rintro v rfl
  exact ⟨rfl, nofun⟩

/-- The object at a legacy key does not have the recorded checksum, or it would be a
source, so nothing is copied. -/
theorem verifyAndMaybeMigrate_idle (hw : m.Inv w) {x : RawPayloadRecord} {key : Text}
    (hkey : m.legacyKey x = some key) (hsource : m.source x = none) :
    (verifyAndMaybeMigrate m.bucket key x false).Safe (tenantExec m.tenant calm) Eq Eq
      (fun out v => w = v ∧ ∀ uri, out ≠ .ok (true, uri)) w := by
  have hget : (getRawByKey key).Safe (tenantExec m.tenant calm) Eq Eq
      (fun out v => w = v ∧ ∀ o, out = .ok o → w.bucket key = some o) w := by
    refine safe_storeCall fun v hv c y v' he => ?_
    obtain ⟨rfl, hy⟩ := tenantExec_getObject he
    subst hv
    refine ⟨rfl, ?_⟩
    rcases hy with ⟨-, rfl⟩ | ⟨o, hb, rfl⟩ | ⟨-, err, rfl⟩
    · exact fun u hu => ⟨hu, fun _ h => by cases h⟩
    · refine fun u hu => ⟨hu, fun o' ho' => ?_⟩
      obtain rfl := Except.ok.inj ho'
      exact hb
    · exact fun u hu => ⟨hu, fun _ h => by cases h⟩
  refine hget.handle (fun _ => rfl) (fun o v hv => ?_) fun e v hv => ?_
  · obtain ⟨rfl, ho⟩ := hv
    have hsum : sha256hex o.body ≠ x.checksumSha256 := by
      intro hsum
      have h := hw.legacy_initial hkey (ho o rfl) hsum
      rw [hsource] at h
      cases h
    simp only [migrateObject, if_pos hsum]
    exact fun u hu => ⟨hu, fun _ h => by cases h⟩
  · obtain ⟨rfl, -⟩ := hv
    exact fun u hu => ⟨hu, fun _ h => by cases h⟩

theorem inspectRecord_idle (hw : m.Inv w) {x : RawPayloadRecord}
    (hx : m.legacyKey x = none ∨ m.source x = none) (result : MigrationInspectionResult) :
    (inspectRecord m.bucket m.tenant.text m.schemaName false x result).Safe
      (tenantExec m.tenant calm) Eq Eq (Idle w result.recordsMigrated) w := by
  rcases m.classify_cases x with ⟨k, hk, -⟩ | ⟨c, hk, hc⟩ | ⟨c, k, hk, hc, -⟩
  · simp only [inspectRecord, hk]
    exact idle_ok rfl
  · cases c with
    | alreadyMigrated => exact absurd rfl hc
    | _ =>
      simp only [inspectRecord, hk]
      exact idle_ok (recordsMigrated_addProblem _ _)
  · have hkey : m.legacyKey x = some k := by
      cases c <;> simp_all [legacyKey]
    have hsource : m.source x = none := by
      rcases hx with hx | hx
      · rw [hkey] at hx
        cases hx
      · exact hx
    rw [inspectRecord_legacy hk hc]
    refine (keyExists_safe (lone_reader k w) rfl).handle (fun _ => rfl) (fun found v hv => ?_) fun e v hv => ?_
    · obtain ⟨rfl, -⟩ := hv
      cases found with
      | false => exact idle_ok (recordsMigrated_addProblem _ _)
      | true =>
        refine (verifyAndMaybeMigrate_idle hw hkey hsource).handle (fun _ => rfl)
          (fun ok v hv => ?_) fun e v hv => ?_
        · obtain ⟨rfl, hno⟩ := hv
          obtain ⟨_ | _, uri⟩ := ok
          · refine idle_ok ?_
            rw [MigrationInspectionResult.conflict, recordsMigrated_addProblem]
            dsimp only
            split_ifs <;> rfl
          · exact absurd rfl (hno uri)
        · obtain ⟨rfl, -⟩ := hv
          exact idle_error e _
    · obtain ⟨rfl, -⟩ := hv
      exact idle_error e _

theorem migrateRecords_idle (hw : m.Inv w) (options : MigrationOptions)
    (xs : List RawPayloadRecord) (hxs : ∀ x ∈ xs, m.legacyKey x = none ∨ m.source x = none)
    (since : Nat) (result : MigrationInspectionResult) :
    (migrateRecords m.bucket m.tenant.text m.schemaName { options with dryRun := false } xs since
      result).Safe (tenantExec m.tenant calm) Eq Eq (Idle w result.recordsMigrated) w := by
  have htrans : ∀ u v w : StoreWorld, u = v → v = w → u = w := fun _ _ _ h h' => h.trans h'
  induction xs generalizing since result with
  | nil => exact idle_ok rfl
  | cons x xs ih =>
    have ih := ih fun y hy => hxs y (List.mem_cons_of_mem _ hy)
    refine (inspectRecord_idle hw (hxs x List.mem_cons_self) result).handle (fun _ => rfl)
      (fun next v hv => ?_) fun e v hv => ?_
    · obtain ⟨rfl, hnext⟩ := hv
      have hsame : next.recordsMigrated = result.recordsMigrated := hnext next rfl
      rw [← hsame]
      split_ifs
      · refine (reportProgress_safe (fun _ => rfl) htrans _ _ v).handle (fun _ => rfl)
          (fun _ u hu => ?_) fun e u hu => ?_
        · obtain ⟨rfl, -⟩ := hu
          refine (pollCancel_safe (fun _ => rfl) htrans _ v).handle (fun _ => rfl)
            (fun cancelled u hu => ?_) fun e u hu => ?_
          · obtain ⟨rfl, -⟩ := hu
            cases cancelled with
            | true => exact idle_ok rfl
            | false => exact ih 0 next
          · obtain ⟨rfl, -⟩ := hu
            exact idle_error e _
        · obtain ⟨rfl, -⟩ := hu
          exact idle_error e _
      · exact ih _ next
    · obtain ⟨rfl, -⟩ := hv
      exact idle_error e _

theorem pass_idle (hw : m.Inv w) (hrecords : w.records = m.converged)
    (options : MigrationOptions) :
    (m.pass options).Safe (tenantExec m.tenant calm) Eq Eq (Idle w 0) w := by
  refine safe_storeCall fun v hv c x v' he => ?_
  obtain ⟨rfl, hx⟩ := tenantExec_tenantUuid he
  subst hv
  refine ⟨rfl, ?_⟩
  rcases hx with rfl | ⟨-, e, rfl⟩
  · refine safe_storeCall fun v hv c xs v' he => ?_
    subst hv
    obtain ⟨-, -, he⟩ := tenantExec_spec he
    obtain ⟨hxs, rfl⟩ : xs = w.records.insertionSort (fun a b => a.id.bits.toNat ≤ b.id.bits.toNat) ∧
        v' = w := by
      cases c with
      | done _ => cases he; exact ⟨rfl, rfl⟩
      | _ => cases he
    have hmem : ∀ y ∈ xs, m.legacyKey y = none ∨ m.source y = none := by
      intro y hy
      rw [hxs, List.mem_insertionSort, hrecords] at hy
      exact mem_converged hy
    refine ⟨rfl, ?_⟩
    refine (migrateRecords_idle hw options xs hmem 0 {}).handle (fun _ => rfl)
      (fun result v hv => ?_) fun e v hv => ?_
    · obtain ⟨rfl, hresult⟩ := hv
      refine (reportProgress_safe (fun _ => rfl) (fun _ _ _ h h' => h.trans h') _ _ v).handle
        (fun _ => rfl) (fun _ u hu => ?_) fun e u hu => ?_
      · obtain ⟨rfl, -⟩ := hu
        exact idle_ok (hresult result rfl)
      · obtain ⟨rfl, -⟩ := hu
        exact idle_error e _
    · obtain ⟨rfl, -⟩ := hv
      exact idle_error e _
  · exact idle_error _ _

end Idle

/-- Any passes of the tenant; one that is never scheduled again has been killed. -/
def passes (m : Migration) : Pool StoreSig Exc Unit StoreWorld →
    PoolEvent StoreSig Exc Unit StoreAnswer → Prop
  | _, .start _ p => ∃ options, p = (m.pass options).discard
  | _, .step _ _ => True

theorem passes_keep {s t : Pool StoreSig Exc Unit StoreWorld}
    (hs : s.Safe (tenantExec m.tenant false) m.Keeps fun _ _ => True) (hIs : m.Inv s.world)
    (h : Reaches (Pool.next (tenantExec m.tenant false)) m.passes s t) :
    m.Keeps s.world t.world ∧ t.Safe (tenantExec m.tenant false) m.Keeps fun _ _ => True := by
  refine Pool.Safe.reaches Keeps.refl (fun _ _ _ => Keeps.trans) (fun u i p hu hp => ?_) hs h
  obtain ⟨options, rfl⟩ := hp
  exact (pass_safe options (hu hIs).1).handle Keeps.refl (fun _ _ _ => fun _ _ => trivial)
    fun _ _ _ => fun _ _ => trivial

end Migration

open Migration

/-- Passes converge, however they are interrupted or overlapped. A single pass from
the initial state is taken to return, which it does unless two objects of different
sizes have one hash. -/
theorem migration_converges (m : Migration) {s t : Pool StoreSig Exc Unit StoreWorld}
    (hs : Reaches (Pool.next (tenantExec m.tenant false)) m.passes (.idle m.initial) s)
    (ht : Reaches (Pool.next (tenantExec m.tenant false)) m.passes s t) :
    (∀ key o, s.world.bucket key = some o → t.world.bucket key = some o) ∧
    List.Forall₂ (fun r x => x = r ∨ (x = m.moved r ∧
      ∃ o, t.world.bucket (m.targetKey r) = some o ∧ sha256hex o.body = r.checksumSha256))
      m.initial.records t.world.records ∧
    ∀ options result single,
      (m.pass options).Runs (tenantExec m.tenant true) m.initial (.ok result) single →
      ∀ options', (∃ out w, (m.pass options').Runs (tenantExec m.tenant true) t.world out w) ∧
      ∀ out w, (m.pass options').Runs (tenantExec m.tenant true) t.world out w →
        (∃ result', out = .ok result') ∧ w.records = single.records ∧
        ∀ options'' calm out' w', (m.pass options'').Runs (tenantExec m.tenant calm) w out' w' →
          w' = w ∧ ∀ result', out' = .ok result' → result'.recordsMigrated = 0 := by
  obtain ⟨hws, hsafe⟩ := passes_keep (Pool.safe_idle _) m.inv_initial hs
  have hIs := (hws m.inv_initial).1
  obtain ⟨hst, -⟩ := passes_keep hsafe hIs ht
  obtain ⟨hIt, hkeys, -⟩ := hst hIs
  refine ⟨hkeys, ?_, fun options result single hsingle options' => ⟨?_, fun out w hw => ?_⟩⟩
  · obtain ⟨done, hrecords, hdone⟩ := hIt.records
    rw [hrecords, List.forall₂_map_right_iff]
    refine List.forall₂_same.mpr fun r hr => ?_
    cases hd : done r.id with
    | false => exact .inl (by simp [move, hd])
    | true =>
      obtain ⟨o₀, o, -, ho, hsum, -⟩ := hdone r hr hd
      exact .inr ⟨by simp [move, hd], o, ho, hsum⟩
  · exact Prog.exists_runs (m.issues_pass options') m.answers t.world
  · obtain ⟨hIsingle, hsettled⟩ := (pass_safe options m.inv_initial).runs Keeps.refl hsingle
    have hsizes : m.SizesAgree := fun r hr => (hsettled rfl r hr).2
    obtain ⟨hIw, hout⟩ := (pass_safe options' hIt).runs Keeps.refl hw
    cases out with
    | error e => exact absurd hsizes (hout rfl)
    | ok result' =>
      have hrecords := hIw.records_eq (hout rfl)
      refine ⟨⟨result', rfl⟩, ?_, fun options'' calm out' w' hw' => ?_⟩
      · rw [hrecords, hIsingle.records_eq (hsettled rfl)]
      · exact (pass_idle hIw hrecords options'').runs (fun _ => rfl) hw'

theorem tenantKey_ne_logicalKey (tenant pipeline : Uuid) (h : tenant ≠ pipeline) (key : Text)
    (run : Uuid) (sequence : Nat) (checksum : Text) :
    tenantKey tenant key ≠ logicalKey pipeline run sequence checksum := by
  intro heq
  have hcut := cut_inj tenant.slash_notMem_text pipeline.slash_notMem_text heq
  exact h (Uuid.text_inj hcut.1)

/-- One record under a legacy key, and its object. -/
def legacyMigration : Migration :=
  let bucket := smallBucket
  let key := logicalKey ⟨2⟩ ⟨3⟩ 1 (sha256hex [7])
  { bucket
    tenant := ⟨1⟩
    schemaName := "acme".toList
    initial := ⟨Function.update (fun _ => none) key (some ⟨[7], none⟩),
      [{ id := ⟨4⟩, run := ⟨3⟩, pipeline := ⟨2⟩, storageUri := storageUri bucket key,
         contentType := [], sizeBytes := 1, checksumSha256 := sha256hex [7], sequence := 1 }]⟩
    ids := List.nodup_singleton _
    versions := List.nodup_singleton _
    hashed := by
      intro pipeline run sequence checksum o _ h
      have hne := tenantKey_ne_logicalKey ⟨1⟩ ⟨2⟩ (by decide)
        (logicalKey pipeline run sequence checksum) ⟨3⟩ 1 (sha256hex [7])
      dsimp only at h
      rw [Function.update_of_ne hne] at h
      cases h }

theorem legacyMigration_target (r : RawPayloadRecord) :
    legacyMigration.initial.bucket (legacyMigration.targetKey r) = none := by
  have hne := tenantKey_ne_logicalKey ⟨1⟩ ⟨2⟩ (by decide)
    (expectedLogicalKey r) ⟨3⟩ 1 (sha256hex [7])
  dsimp only [legacyMigration, targetKey]
  rw [Function.update_of_ne hne]

theorem legacyMigration_sizesAgree : legacyMigration.SizesAgree := by
  intro r _ o₀ o _ h
  rw [legacyMigration_target] at h
  cases h

/-- A pass starts and stops; the next one moves the record, and those after it do nothing. -/
theorem migration_converges_legacy : ∃ w : StoreWorld,
    (∃ result, (legacyMigration.pass {}).Runs (tenantExec ⟨1⟩ true) legacyMigration.initial
      (.ok result) w) ∧
    w.records = legacyMigration.initial.records.map legacyMigration.moved ∧
    w.records ≠ legacyMigration.initial.records ∧
    ∀ options calm out w', (legacyMigration.pass options).Runs (tenantExec ⟨1⟩ calm) w out w' →
      w' = w := by
  obtain ⟨out, single, hsingle⟩ := Prog.exists_runs (legacyMigration.issues_pass {})
    legacyMigration.answers legacyMigration.initial
  obtain ⟨hinv, hout⟩ := (pass_safe {} legacyMigration.inv_initial).runs Keeps.refl hsingle
  cases out with
  | error e => exact absurd legacyMigration_sizesAgree (hout rfl)
  | ok result =>
    have hs : Reaches (Pool.next (tenantExec ⟨1⟩ false)) legacyMigration.passes
        (.idle legacyMigration.initial) _ :=
      (Reaches.refl.tail (e := .start 0 (legacyMigration.pass {}).discard) ⟨{}, rfl⟩ rfl).tail
        (e := .step 0 (.tenant (.ok ⟨1⟩))) trivial rfl
    obtain ⟨-, -, hconverges⟩ := migration_converges legacyMigration hs .refl
    obtain ⟨⟨out', w, hw⟩, hall⟩ := hconverges {} result single hsingle {}
    obtain ⟨⟨result', rfl⟩, hsame, hidle⟩ := hall out' w hw
    have hmoved : w.records = legacyMigration.initial.records.map legacyMigration.moved := by
      rw [hsame, hinv.records_eq (hout rfl)]
      decide +kernel
    refine ⟨w, ⟨result', hw⟩, hmoved, fun heq => ?_,
      fun options calm out w' h => (hidle options calm out w' h).1⟩
    rw [hmoved] at heq
    exact absurd heq (by decide +kernel)

end DataLake
