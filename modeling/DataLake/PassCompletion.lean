import DataLake.RoundTrip
import DataLake.WatchedPass

/-! One bad object and the rest of a migration: what a pass counts, the records it has
re-pointed, and the object that makes it stop. -/

namespace DataLake

open Foundation

/-- What one record adds to the counters. -/
structure CountedAs (dryRun : Bool) (finding : Finding)
    (result next : MigrationInspectionResult) : Prop where
  inspected : next.recordsInspected = result.recordsInspected + 1
  already : next.alreadyMigrated =
    result.alreadyMigrated + if finding = .alreadyMigrated then 1 else 0
  problems : next.missingObjects + next.checksumConflicts =
    result.missingObjects + result.checksumConflicts + if finding.problem then 1 else 0
  ready : next.readyForMigration = result.readyForMigration + if finding.isReady then 1 else 0
  migrated : next.recordsMigrated =
    result.recordsMigrated + if !dryRun && finding.isReady then 1 else 0
  skipped : next.recordsSkipped = result.recordsSkipped
  samples : next.problemRecords.length =
    result.problemRecords.length +
      if finding.problem && result.problemRecords.length < maxSampleProblemRecords then 1 else 0

theorem addProblem_eq (result : MigrationInspectionResult) (entry : ProblemEntry) :
    result.addProblem entry = { result with problemRecords := result.problemRecords ++
      if result.problemRecords.length < maxSampleProblemRecords then [entry] else [] } := by
  unfold MigrationInspectionResult.addProblem
  split_ifs
  · rfl
  · simp

theorem countedAs_inspected (dryRun : Bool) (result : MigrationInspectionResult)
    (record : RawPayloadRecord) (finding : Finding) :
    CountedAs dryRun finding result (result.inspected dryRun record finding) := by
  have sample : ∀ (p : Prop) [Decidable p] (entry : ProblemEntry),
      (if p then [entry] else []).length = if p then 1 else 0 := fun p _ entry => by
    split_ifs <;> rfl
  cases finding with
  | alreadyMigrated =>
    constructor <;> simp [MigrationInspectionResult.inspected, MigrationInspectionResult.report,
      Finding.problem, Finding.isReady]
  | unrecognized =>
    constructor <;> simp [MigrationInspectionResult.inspected, MigrationInspectionResult.report,
      MigrationInspectionResult.conflict, addProblem_eq, sample, Finding.problem,
      Finding.isReady, Nat.add_assoc]
  | missing =>
    constructor <;> simp [MigrationInspectionResult.inspected, MigrationInspectionResult.report,
      MigrationInspectionResult.missing, addProblem_eq, sample, Finding.problem,
      Finding.isReady, Nat.add_right_comm]
  | mismatch category =>
    cases category <;> constructor <;> simp [MigrationInspectionResult.inspected,
      MigrationInspectionResult.report, MigrationInspectionResult.counted,
      MigrationInspectionResult.conflict, addProblem_eq, sample, Finding.problem,
      Finding.isReady, Nat.add_assoc]
  | ready category =>
    cases dryRun <;> cases category <;> constructor <;> simp [MigrationInspectionResult.inspected,
      MigrationInspectionResult.report, MigrationInspectionResult.counted, Finding.problem,
      Finding.isReady]

namespace RecordTable

variable {t : RecordTable} {contents : Bucket} {dryRun calm : Bool} {x r : RawPayloadRecord}
  {xs ys : List RawPayloadRecord} {result : MigrationInspectionResult}

theorem tally_inspected (xs : List RawPayloadRecord) (result : MigrationInspectionResult) :
    (t.tally dryRun contents result xs).recordsInspected = result.recordsInspected + xs.length := by
  induction xs generalizing result with
  | nil => rfl
  | cons x xs ih =>
    have hx := (countedAs_inspected dryRun result x (t.finding contents x)).inspected
    rw [tally, List.foldl_cons, ← tally, ih, hx, List.length_cons]
    omega

theorem tally_problems (xs : List RawPayloadRecord) (result : MigrationInspectionResult) :
    (t.tally dryRun contents result xs).missingObjects +
        (t.tally dryRun contents result xs).checksumConflicts =
      result.missingObjects + result.checksumConflicts +
        xs.countP fun x => (t.finding contents x).problem := by
  induction xs generalizing result with
  | nil => rfl
  | cons x xs ih =>
    have hx := (countedAs_inspected dryRun result x (t.finding contents x)).problems
    rw [tally, List.foldl_cons, ← tally, ih, hx, List.countP_cons]
    omega

theorem tally_skipped (xs : List RawPayloadRecord) (result : MigrationInspectionResult) :
    (t.tally dryRun contents result xs).recordsSkipped = result.recordsSkipped := by
  induction xs generalizing result with
  | nil => rfl
  | cons x xs ih =>
    rw [tally, List.foldl_cons, ← tally, ih]
    exact (countedAs_inspected dryRun result x (t.finding contents x)).skipped

/-! The table after a pass. -/

theorem id_inj (hx : x ∈ t.records) (hr : r ∈ t.records) (h : r.id = x.id) : r = x :=
  List.inj_on_of_nodup_map t.ids hr hx h

def moved (t : RecordTable) (r : RawPayloadRecord) : RawPayloadRecord :=
  { r with storageUri := storageUri t.bucket (t.targetKey r) }

def carried (t : RecordTable) (contents : Bucket) (xs : List RawPayloadRecord)
    (r : RawPayloadRecord) : RawPayloadRecord :=
  if r ∈ xs ∧ (t.source contents r).isSome = true then t.moved r else r

theorem settle_carried {w : StoreWorld} (hx : x ∈ t.records)
    (hw : w.records = t.records.map (t.carried contents xs)) :
    (t.settle false contents w x).records = t.records.map (t.carried contents (xs ++ [x])) := by
  cases hs : t.source contents x with
  | none =>
    rw [settle, hs, hw]
    refine List.map_congr_left fun r hr => ?_
    by_cases heq : r = x
    · simp [carried, heq, hs]
    · simp [carried, heq]
  | some o =>
    have hsame : (w.writeIfAbsent (t.targetKey x) (Migration.copied o)).records = w.records := by
      rcases writeIfAbsent_cases w (t.targetKey x) (Migration.copied o) with h | ⟨-, h⟩ <;> rw [h]
      rfl
    simp only [settle, hs, Bool.false_eq_true, if_false, repoint, hsame, hw, List.map_map]
    refine List.map_congr_left fun r hr => ?_
    have hid : (t.carried contents xs r).id = r.id := by
      unfold carried
      split_ifs <;> rfl
    by_cases heq : r = x
    · subst heq
      rw [Function.comp_apply, if_pos hid]
      unfold carried
      split_ifs <;> simp_all [moved]
    · have hne : ¬ r.id = x.id := fun h => heq (id_inj hx hr h)
      rw [Function.comp_apply, hid, if_neg hne]
      simp [carried, heq]

theorem settleAll_carried {w : StoreWorld} (before : List RawPayloadRecord)
    (hxs : ∀ x ∈ xs, x ∈ t.records) (hw : w.records = t.records.map (t.carried contents before)) :
    (t.settleAll false contents w xs).records = t.records.map (t.carried contents (before ++ xs)) := by
  induction xs generalizing w before with
  | nil => simpa [settleAll] using hw
  | cons x xs ih =>
    have hstep := settle_carried (hxs x List.mem_cons_self) hw
    have hrest := ih (before ++ [x]) (fun y hy => hxs y (List.mem_cons_of_mem _ hy)) hstep
    rwa [List.append_assoc] at hrest

theorem carried_nil : t.carried contents [] = id := by
  funext r
  simp [carried]

theorem settleAll_records (hxs : ∀ x ∈ xs, x ∈ t.records) :
    (t.settleAll false contents ⟨contents, t.records⟩ xs).records =
      t.records.map (t.carried contents xs) :=
  settleAll_carried [] hxs (by rw [carried_nil, List.map_id])

/-! The pass that no object blocks. -/

/-- A verified object that nothing of another size is in the way of. -/
def migratable (t : RecordTable) (contents : Bucket) (r : RawPayloadRecord) : Bool :=
  (t.source contents r).isSome && !t.clash contents r

/-- The record as a pass should leave it. -/
def outcome (t : RecordTable) (contents : Bucket) (r : RawPayloadRecord) : RawPayloadRecord :=
  if t.migratable contents r then t.moved r else r

/-- The pass returns and has inspected every record; each is left as its own objects say,
and the ones that cannot be migrated are counted as problems. -/
def Completes (t : RecordTable) (contents : Bucket) (out : Except Exc MigrationInspectionResult)
    (w : StoreWorld) : Prop :=
  ∃ result, out = .ok result ∧ result.recordsInspected = t.records.length ∧
    w.records = t.records.map (t.outcome contents) ∧
    result.missingObjects + result.checksumConflicts = t.records.countP fun r =>
      !t.migratable contents r && !decide (t.finding contents r = .alreadyMigrated)

theorem finding_problem (r : RawPayloadRecord) : (t.finding contents r).problem =
    (!(t.source contents r).isSome && !decide (t.finding contents r = .alreadyMigrated)) := by
  rw [Bool.eq_iff_iff.mpr isReady_iff.symm]
  cases t.finding contents r <;> rfl

/-- A record's outcome is read off the objects at its own keys. -/
theorem outcome_congr {contents' : Bucket}
    (hlegacy : ∀ key, t.legacyKey r = some key → contents key = contents' key)
    (htarget : contents (t.targetKey r) = contents' (t.targetKey r)) :
    t.outcome contents r = t.outcome contents' r := by
  have hsource : t.source contents r = t.source contents' r := by
    unfold source
    cases hkey : t.legacyKey r with
    | none => rfl
    | some key => rw [Option.bind_some, Option.bind_some, hlegacy key hkey]
  have hmigratable : t.migratable contents r = t.migratable contents' r := by
    rw [migratable, migratable, clash, clash, hsource, htarget]
  rw [outcome, outcome, hmigratable]

theorem exists_run (t : RecordTable) (options : MigrationOptions) (contents : Bucket) :
    ∃ out w, (runRawPayloadMigration t.bucket t.schemaName options).Runs
      (tenantExec t.tenant true) ⟨contents, t.records⟩ out w :=
  Prog.exists_runs (issues_runRawPayloadMigration (fun _ => recordOp_migrationOp)
    (fun _ => trivial) trivial trivial trivial _ _) t.emptied.answers _

/-- A pass on its own, read off the rule of the watched one. -/
theorem pass_leaves {options : MigrationOptions} {out : Except Exc MigrationInspectionResult}
    {w : StoreWorld}
    (h : (runRawPayloadMigration t.bucket t.schemaName options).Runs (tenantExec t.tenant calm)
      ⟨contents, t.records⟩ out w) : ∃ noted, t.PassLeaves calm options contents out (w, noted) := by
  obtain ⟨noted, hnoted⟩ := @Prog.Runs.noting _ _ _ _ _ _ _ snapshot _ _ _ _ h []
  exact ⟨noted, (runRawPayloadMigration_alone t calm options contents).runs (fun _ => rfl) hnoted⟩

theorem completes_of_clear {options : MigrationOptions}
    {out : Except Exc MigrationInspectionResult} {w : StoreWorld}
    (hclear : ∀ r ∈ t.records, t.clash contents r = false)
    (h : (runRawPayloadMigration t.bucket t.schemaName { options with dryRun := false }).Runs
      (tenantExec t.tenant true) ⟨contents, t.records⟩ out w) : t.Completes contents out w := by
  obtain ⟨noted, hleaves⟩ := pass_leaves h
  have hmigratable : ∀ r ∈ t.records,
      t.migratable contents r = (t.source contents r).isSome := fun r hr => by
    rw [migratable, hclear r hr, Bool.not_false, Bool.and_true]
  cases out with
  | error e =>
    rcases hleaves with ⟨hcalm, -⟩ | ⟨ys, x, zs, hsplit, -, ⟨-, -, hfailed⟩, -⟩
    · cases hcalm
    · have hx : x ∈ t.records := mem_sorted.mp (by rw [hsplit]; simp)
      have hclash := (hfailed rfl).2
      rw [hclear x hx] at hclash
      cases hclash
  | ok result =>
    obtain ⟨ys, zs, hsplit, hall, -, rfl, hstore, -⟩ := hleaves
    rw [hall rfl, List.append_nil] at hsplit
    subst hsplit
    have hperm : t.sorted.Perm t.records := List.perm_insertionSort _ _
    refine ⟨_, rfl, ?_, ?_, ?_⟩
    · exact (tally_inspected _ _).trans (by rw [Nat.zero_add, hperm.length_eq])
    · rw [show w = _ from hstore, settleAll_records fun x hx => mem_sorted.mp hx]
      refine List.map_congr_left fun r hr => ?_
      rw [carried, outcome, hmigratable r hr]
      simp [mem_sorted, hr]
    · refine (tally_problems _ _).trans ((Nat.zero_add _).trans ?_)
      rw [hperm.countP_eq]
      refine List.countP_congr fun r hr => ?_
      rw [hmigratable r hr, finding_problem]

theorem stops_at_clash {options : MigrationOptions} {out : Except Exc MigrationInspectionResult}
    {w : StoreWorld} (hr : r ∈ t.records) (hclash : t.clash contents r = true)
    (h : (runRawPayloadMigration t.bucket t.schemaName { options with dryRun := false }).Runs
      (tenantExec t.tenant true) ⟨contents, t.records⟩ out w) : ∃ e, out = .error e := by
  obtain ⟨noted, hleaves⟩ := pass_leaves h
  cases out with
  | error e => exact ⟨e, rfl⟩
  | ok result =>
    obtain ⟨ys, zs, hsplit, hall, hclear, -⟩ := hleaves
    rw [hall rfl, List.append_nil] at hsplit
    subst hsplit
    rcases hclear with hdry | hclear
    · cases hdry
    · rw [hclear r (mem_sorted.mpr hr)] at hclash
      cases hclash

end RecordTable

/-- An undisturbed pass completes exactly when no verified object has one of another size
where its copy belongs. The first such object stops every pass. -/
theorem migration_completes_iff (t : RecordTable) (contents : Bucket) (options : MigrationOptions) :
    (∃ out w, (runRawPayloadMigration t.bucket t.schemaName { options with dryRun := false }).Runs
      (tenantExec t.tenant true) ⟨contents, t.records⟩ out w) ∧
    (∀ out w, (runRawPayloadMigration t.bucket t.schemaName { options with dryRun := false }).Runs
      (tenantExec t.tenant true) ⟨contents, t.records⟩ out w →
      (t.Completes contents out w ↔ ∀ r ∈ t.records, t.clash contents r = false)) ∧
    ∀ r contents', (∀ key, t.legacyKey r = some key → contents key = contents' key) →
      contents (t.targetKey r) = contents' (t.targetKey r) →
      t.outcome contents r = t.outcome contents' r := by
  refine ⟨t.exists_run _ contents, fun out w h => ⟨fun hcompletes r hr => ?_, fun hclear => ?_⟩,
    fun r contents' => RecordTable.outcome_congr⟩
  · obtain ⟨result, rfl, -⟩ := hcompletes
    by_contra hclash
    obtain ⟨e, he⟩ := RecordTable.stops_at_clash hr (Bool.eq_true_of_not_eq_false hclash) h
    cases he
  · exact RecordTable.completes_of_clear hclear h

/-- A record whose object is still under the key without a tenant. -/
def legacyRecord (id : Uuid) (sequence : Nat) (data : Bytes) : RawPayloadRecord :=
  { id, run := ⟨3⟩, pipeline := ⟨2⟩, contentType := [], sizeBytes := data.length,
    checksumSha256 := sha256hex data, sequence
    storageUri := storageUri smallBucket
      (logicalKey ⟨2⟩ ⟨3⟩ sequence (sha256hex data)) }

def legacyTable : RecordTable where
  bucket := smallBucket
  tenant := ⟨1⟩
  schemaName := "acme".toList
  records := [legacyRecord ⟨4⟩ 1 [7], legacyRecord ⟨5⟩ 2 [6]]
  ids := by decide
  versions := by decide
  columns r hr := by
    rcases List.mem_pair.mp hr with rfl | rfl <;> exact (length_sha256hex _).le

/-- The legacy objects of the table, and `planted` where the first one's copy belongs. -/
def plantedBucket (planted : Bytes) : Bucket := fun key =>
  if key = logicalKey ⟨2⟩ ⟨3⟩ 1 (sha256hex [7]) then some ⟨[7], none⟩
  else if key = logicalKey ⟨2⟩ ⟨3⟩ 2 (sha256hex [6]) then some ⟨[6], none⟩
  else if key = legacyTable.targetKey (legacyRecord ⟨4⟩ 1 [7]) then some ⟨planted, none⟩
  else none

/-- An object of two bytes under the tenant's key of the first record: the second one, in
perfect order, is not migrated either. -/
theorem migration_blocked : ∃ out w,
    (runRawPayloadMigration legacyTable.bucket legacyTable.schemaName { dryRun := false }).Runs
      (tenantExec ⟨1⟩ true) ⟨plantedBucket [8, 9], legacyTable.records⟩ out w ∧
    w.records = legacyTable.records ∧
    ¬ legacyTable.Completes (plantedBucket [8, 9]) out w := by
  have hrun : ((runRawPayloadMigration legacyTable.bucket legacyTable.schemaName
      { dryRun := false }).eval (tenantExec ⟨1⟩ true) (servedAs ⟨1⟩)
      ⟨plantedBucket [8, 9], legacyTable.records⟩).map (fun x => x.2.records) =
      some legacyTable.records := by
    decide +kernel
  obtain ⟨⟨out, w⟩, heval, hrecords⟩ := Option.map_eq_some_iff.mp hrun
  have h := Prog.Runs.of_eval _ heval
  refine ⟨out, w, h, hrecords, ?_⟩
  rintro ⟨result, rfl, -⟩
  obtain ⟨e, he⟩ := @RecordTable.stops_at_clash legacyTable (plantedBucket [8, 9])
    (legacyRecord ⟨4⟩ 1 [7]) {} _ _ List.mem_cons_self (by decide +kernel) h
  cases he

end DataLake
