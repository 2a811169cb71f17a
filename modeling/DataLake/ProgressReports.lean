import DataLake.PassCompletion

/-! The counters of a migration in every report of it: which relations hold on the way, and
the one that holds at the end only. -/

namespace DataLake

open Foundation

/-- The relations that hold after every record. -/
structure Balanced (dryRun : Bool) (s : MigrationInspectionResult) : Prop where
  inspected : s.recordsInspected =
    s.alreadyMigrated + s.missingObjects + s.checksumConflicts + s.readyForMigration
  migrated : s.recordsMigrated = if dryRun then 0 else s.readyForMigration
  samples : s.problemRecords.length =
    min maxSampleProblemRecords (s.missingObjects + s.checksumConflicts)

/-- All the relations of a report. -/
structure AddsUp (dryRun : Bool) (s : MigrationInspectionResult) : Prop
    extends Balanced dryRun s where
  skipped : s.recordsSkipped = s.alreadyMigrated + s.missingObjects + s.checksumConflicts

/-- A finding is of one of three kinds. -/
theorem Finding.kinds (finding : Finding) :
    (if finding = .alreadyMigrated then 1 else 0) + (if finding.problem then 1 else 0) +
      (if finding.isReady then 1 else 0) = 1 := by
  cases finding <;> rfl

theorem Balanced.inspect {dryRun : Bool} {s : MigrationInspectionResult}
    (h : Balanced dryRun s) (record : RawPayloadRecord) (finding : Finding) :
    Balanced dryRun (s.inspected dryRun record finding) := by
  obtain ⟨hinspected, halready, hproblems, hready, hmigrated, -, hsamples⟩ :=
    countedAs_inspected dryRun s record finding
  have hkinds := finding.kinds
  refine ⟨?_, ?_, ?_⟩
  · have hbefore := h.inspected
    omega
  · rw [hmigrated, hready, h.migrated]
    cases dryRun <;> rfl
  · rw [hsamples, h.samples, hproblems]
    unfold maxSampleProblemRecords
    cases finding.problem with
    | false => simp
    | true =>
      simp only [Bool.true_and, decide_eq_true_eq, if_true]
      split_ifs <;> omega

theorem Balanced.addsUp {dryRun : Bool} {s : MigrationInspectionResult}
    (h : Balanced dryRun s) : AddsUp dryRun s.skipped :=
  ⟨⟨h.inspected, h.migrated, h.samples⟩, rfl⟩

namespace RecordTable

variable {t : RecordTable} {contents : Bucket} {dryRun : Bool} {xs ys zs : List RawPayloadRecord}
  {options : MigrationOptions} {result s : MigrationInspectionResult} {since k : Nat}

theorem tally_balanced (xs : List RawPayloadRecord) (h : Balanced dryRun result) :
    Balanced dryRun (t.tally dryRun contents result xs) := by
  induction xs generalizing result with
  | nil => exact h
  | cons x xs ih => exact ih (h.inspect x _)

theorem tally_ready (xs : List RawPayloadRecord) (result : MigrationInspectionResult) :
    (t.tally dryRun contents result xs).readyForMigration =
      result.readyForMigration + xs.countP fun x => (t.finding contents x).isReady := by
  induction xs generalizing result with
  | nil => rfl
  | cons x xs ih =>
    have hx := (countedAs_inspected dryRun result x (t.finding contents x)).ready
    rw [tally, List.foldl_cons, ← tally, ih, hx, List.countP_cons]
    omega

/-- The reports on the way stand at the multiples of the batch size. -/
theorem mem_reports (hbatch : 1 ≤ options.batchSize) (hsince : since < options.batchSize) :
    s ∈ t.reports options contents xs since result ↔ options.progressCallback = true ∧
      ∃ k, 0 < k ∧ k * options.batchSize ≤ xs.length + since ∧
        s = t.tally options.dryRun contents result (xs.take (k * options.batchSize - since)) := by
  induction xs generalizing since result with
  | nil =>
    simp only [reports, List.not_mem_nil, false_iff, not_and, not_exists]
    intro _ k hk hle
    have := Nat.le_mul_of_pos_left options.batchSize hk
    simp only [List.length_nil] at hle
    omega
  | cons x xs ih =>
    have htake : ∀ n, t.tally options.dryRun contents result ((x :: xs).take (n + 1)) =
        t.tally options.dryRun contents
          (result.inspected options.dryRun x (t.finding contents x)) (xs.take n) := fun n => rfl
    by_cases hfull : since + 1 ≥ options.batchSize
    · -- This record ends a batch.
      have hnext : ∀ j, (j + 1) * options.batchSize - since = j * options.batchSize + 1 := fun j => by
        rw [Nat.succ_mul]
        omega
      rw [reports, if_pos hfull, List.mem_append, ih hbatch]
      constructor
      · rintro (hs | ⟨hcallback, j, hj, hle, rfl⟩)
        · split_ifs at hs with hcallback
          · obtain rfl := List.mem_singleton.mp hs
            refine ⟨hcallback, 1, one_pos, ?_, ?_⟩
            · rw [List.length_cons]
              omega
            · rw [hnext 0, htake, Nat.zero_mul]
              rfl
          · cases hs
        · refine ⟨hcallback, j + 1, j.succ_pos, ?_, by rw [hnext, htake, Nat.sub_zero]⟩
          rw [Nat.succ_mul, List.length_cons]
          omega
      · rintro ⟨hcallback, k, hk, hle, rfl⟩
        obtain ⟨j, rfl⟩ := Nat.exists_eq_succ_of_ne_zero hk.ne'
        rw [hnext, htake, if_pos hcallback]
        cases j with
        | zero =>
          left
          rw [Nat.zero_mul]
          exact List.mem_singleton.mpr rfl
        | succ j =>
          refine .inr ⟨hcallback, j + 1, j.succ_pos, ?_, by rw [Nat.sub_zero]⟩
          rw [Nat.succ_mul, List.length_cons] at hle
          omega
    · have hshift : ∀ k, 0 < k →
          k * options.batchSize - since = k * options.batchSize - (since + 1) + 1 := fun k hk => by
        have := Nat.le_mul_of_pos_left options.batchSize hk
        omega
      rw [reports, if_neg hfull, ih (by omega)]
      refine and_congr_right fun _ => exists_congr fun k => and_congr_right fun hk => ?_
      rw [hshift k hk, htake, List.length_cons, Nat.add_right_comm, Nat.add_assoc]

theorem reports_nil (h : options.progressCallback = false) :
    t.reports options contents xs since result = [] := by
  induction xs generalizing since result with
  | nil => rfl
  | cons x xs ih =>
    simp only [reports, h, ih, Bool.false_eq_true, if_false, List.append_nil, ite_self]

/-- The records before every report on the way are ready. -/
def ReadyWhereReported (t : RecordTable) (contents : Bucket) (options : MigrationOptions) : Prop :=
  ∀ k, 0 < k → k * options.batchSize ≤ t.records.length →
    t.Clear options.dryRun contents (t.sorted.take (k * options.batchSize)) →
    ∀ r ∈ t.sorted.take (k * options.batchSize), (t.finding contents r).isReady = true

theorem length_sorted (t : RecordTable) : t.sorted.length = t.records.length :=
  (List.perm_insertionSort _ t.records).length_eq

theorem Clear.take {n : Nat} (h : t.Clear dryRun contents xs) : t.Clear dryRun contents (xs.take n) :=
  h.imp_right fun hall x hx => hall x (List.mem_of_mem_take hx)

theorem balanced_initial (dryRun : Bool) : Balanced dryRun {} :=
  ⟨rfl, by cases dryRun <;> rfl, rfl⟩

/-- A report on the way adds up when every record before it is ready, and only then: the
skipped ones are counted at the end. -/
theorem tally_addsUp_iff (xs : List RawPayloadRecord) :
    AddsUp dryRun (t.tally dryRun contents {} xs) ↔
      ∀ x ∈ xs, (t.finding contents x).isReady = true := by
  have hbalanced := @tally_balanced t contents _ _ xs (balanced_initial dryRun)
  have hlength : (t.tally dryRun contents {} xs).recordsInspected = xs.length :=
    (tally_inspected xs {}).trans (Nat.zero_add _)
  have hready : (t.tally dryRun contents {} xs).readyForMigration =
      xs.countP fun x => (t.finding contents x).isReady :=
    (tally_ready xs {}).trans (Nat.zero_add _)
  have hskipped : (t.tally dryRun contents {} xs).recordsSkipped = 0 := tally_skipped xs {}
  have hinspected := hbalanced.inspected
  rw [← List.countP_eq_length]
  constructor
  · intro h
    have := h.skipped
    omega
  · exact fun hall => ⟨hbalanced, by omega⟩

/-- Every report on the way, and what the pass returns, in a run of it. -/
def ReportsAddUp (t : RecordTable) (contents : Bucket) (options : MigrationOptions) : Prop :=
  ∀ calm out v, (runRawPayloadMigration t.bucket t.schemaName options).Runs
    (watchedExec t.tenant calm) (⟨contents, t.records⟩, []) out v →
  (∀ s ∈ v.2, AddsUp options.dryRun s) ∧ ∀ result, out = .ok result → AddsUp options.dryRun result

theorem reports_addUp (hbatch : 1 ≤ options.batchSize) (hsplit : t.sorted = ys ++ zs)
    (hclear : t.Clear options.dryRun contents ys)
    (hready : options.progressCallback = false ∨ t.ReadyWhereReported contents options) :
    ∀ s ∈ t.reports options contents ys 0 {}, AddsUp options.dryRun s := by
  intro s hs
  rcases hready with hnone | hready
  · rw [reports_nil hnone] at hs
    cases hs
  · obtain ⟨-, k, hk, hle, rfl⟩ := (mem_reports hbatch hbatch).mp hs
    have htake : ys.take (k * options.batchSize) = t.sorted.take (k * options.batchSize) := by
      rw [hsplit, List.take_append_of_le_length hle]
    have hlength : k * options.batchSize ≤ t.records.length := by
      rw [← length_sorted, hsplit, List.length_append]
      omega
    rw [Nat.sub_zero, tally_addsUp_iff, htake]
    refine hready k hk hlength ?_
    rw [← htake]
    exact hclear.take

/-- A run that reaches the report after `k` batches notes it. -/
theorem exists_report (hbatch : 1 ≤ options.batchSize) (hcallback : options.progressCallback = true)
    (hk : 0 < k) (hle : k * options.batchSize ≤ t.records.length)
    (hclear : t.Clear options.dryRun contents (t.sorted.take (k * options.batchSize))) :
    ∃ out v, (runRawPayloadMigration t.bucket t.schemaName options).Runs
      (watchedExec t.tenant true) (⟨contents, t.records⟩, []) out v ∧
      t.tally options.dryRun contents {} (t.sorted.take (k * options.batchSize)) ∈ v.2 := by
  obtain ⟨out, w, h⟩ := t.exists_run options contents
  obtain ⟨noted, hnoted⟩ := @Prog.Runs.noting _ _ _ _ _ _ _ snapshot _ _ _ _ h []
  refine ⟨out, (w, noted), hnoted, ?_⟩
  have hleaves := (runRawPayloadMigration_alone t true options contents).runs (fun _ => rfl) hnoted
  have report : ∀ ys zs, t.sorted = ys ++ zs → k * options.batchSize ≤ ys.length →
      t.tally options.dryRun contents {} (t.sorted.take (k * options.batchSize)) ∈
        t.reports options contents ys 0 {} := fun ys zs hsplit hys =>
    (mem_reports hbatch hbatch).mpr ⟨hcallback, k, hk, hys, by
      rw [hsplit, List.take_append_of_le_length hys, Nat.sub_zero]⟩
  cases out with
  | ok result =>
    obtain ⟨ys, zs, hsplit, hall, -, -, -, hv⟩ := hleaves
    rw [hv]
    refine List.mem_append_left _ (report ys zs hsplit ?_)
    rw [hall rfl, List.append_nil] at hsplit
    rw [← hsplit, length_sorted]
    exact hle
  | error e =>
    rcases hleaves with ⟨hcalm, -⟩ | ⟨ys, x, zs, hsplit, -, ⟨-, -, hfailed⟩, hv⟩
    · cases hcalm
    · rw [hv]
      refine report ys (x :: zs) hsplit (Nat.le_of_not_lt fun hlt => ?_)
      obtain ⟨hreal, hclash⟩ := hfailed rfl
      have hx : x ∈ t.sorted.take (k * options.batchSize) := by
        rw [hsplit, List.take_append, List.mem_append]
        right
        obtain ⟨n, hn⟩ := Nat.exists_eq_add_of_lt hlt
        rw [hn, show ys.length + n + 1 - ys.length = n + 1 by omega]
        exact List.mem_cons_self
      rcases hclear with hdry | hclear
      · rw [hreal] at hdry
        cases hdry
      · rw [hclear x hx] at hclash
        cases hclash

end RecordTable

/-- The reports of a pass add up, in every run of it, just when there are none on the way or
each has only ready records before it. -/
theorem reports_addUp_iff (t : RecordTable) (contents : Bucket) (options : MigrationOptions)
    (hbatch : 1 ≤ options.batchSize) :
    t.ReportsAddUp contents options ↔
      options.progressCallback = false ∨ t.ReadyWhereReported contents options := by
  constructor
  · intro hreports
    rw [or_iff_not_imp_left]
    intro hcallback k hk hle hclear
    obtain ⟨out, v, h, hmem⟩ := RecordTable.exists_report hbatch
      (Bool.eq_true_of_not_eq_false hcallback) hk hle hclear
    exact (RecordTable.tally_addsUp_iff _).mp ((hreports true out v h).1 _ hmem)
  · intro hready calm out v h
    have hleaves := (RecordTable.runRawPayloadMigration_alone t calm options contents).runs
      (fun _ => rfl) h
    cases out with
    | ok result =>
      obtain ⟨ys, zs, hsplit, -, hclear, rfl, -, hv⟩ := hleaves
      have hresult := (@RecordTable.tally_balanced t contents _ _ ys
        (RecordTable.balanced_initial options.dryRun)).addsUp
      refine ⟨fun s hs => ?_, fun result hout => ?_⟩
      · rw [hv, List.mem_append] at hs
        rcases hs with hs | hs
        · exact RecordTable.reports_addUp hbatch hsplit hclear hready s hs
        · split_ifs at hs
          · obtain rfl := List.mem_singleton.mp hs
            exact hresult
          · cases hs
      · obtain rfl := Except.ok.inj hout
        exact hresult
    | error e =>
      refine ⟨fun s hs => ?_, nofun⟩
      rcases hleaves with ⟨-, -, hv⟩ | ⟨ys, x, zs, hsplit, hclear, -, hv⟩
      · rw [hv] at hs
        cases hs
      · rw [hv] at hs
        exact RecordTable.reports_addUp hbatch hsplit hclear hready s hs

theorem reports_addUp_iff_batches : legacyTable.ReportsAddUp (plantedBucket [7])
    { dryRun := true, batchSize := 1, progressCallback := true } := by
  refine (reports_addUp_iff legacyTable (plantedBucket [7])
    { dryRun := true, batchSize := 1, progressCallback := true } le_rfl).mpr (.inr ?_)
  intro k _ _ _ r hr
  have hmem : r ∈ legacyTable.records := RecordTable.mem_sorted.mp (List.mem_of_mem_take hr)
  rcases List.mem_pair.mp hmem with rfl | rfl
  · decide +kernel
  · decide +kernel

/-- With nothing in the bucket both records are missing. The report after the first one has
no record skipped. -/
theorem reports_off :
    ¬ legacyTable.ReportsAddUp (fun _ => none) { batchSize := 1, progressCallback := true } := by
  intro hreports
  obtain ⟨out, v, h, hmem⟩ := @RecordTable.exists_report legacyTable (fun _ => none)
    { batchSize := 1, progressCallback := true } 1 le_rfl rfl one_pos (by decide) (.inl rfl)
  have hready := (RecordTable.tally_addsUp_iff _).mp ((hreports true out v h).1 _ hmem)
    (legacyRecord ⟨4⟩ 1 [7]) (by decide +kernel)
  revert hready
  decide +kernel

end DataLake
