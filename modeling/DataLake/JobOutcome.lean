import DataLake.JobFinality
import DataLake.MigrationPrediction

/-! What the status of a finished migration job says about the records of its tenant. -/

namespace DataLake

open Foundation

/-! What the others do while a worker executes a job. -/

structure Asks (id : Uuid) (v w : OpsWorld) : Prop where
  tenants : w.tenantUuids = v.tenantUuids
  bucket : w.bucket = v.bucket
  records : w.records = v.records
  row : ∀ row, findJob v.jobs id = some row → ∃ cancelRequested updatedAt,
    findJob w.jobs id = some { row with cancelRequested, updatedAt } ∧
      (row.cancelRequested = true → cancelRequested = true)

variable {id : Uuid} {u v w : OpsWorld} {job row : RawPayloadMigrationJob} {c : OpsAnswer}
  {platform : Platform} {m : Migration}

theorem Asks.refl (id : Uuid) (w : OpsWorld) : Asks id w w :=
  ⟨rfl, rfl, rfl, fun row hrow => ⟨row.cancelRequested, row.updatedAt, hrow, fun h => h⟩⟩

theorem Asks.trans (huv : Asks id u v) (hvw : Asks id v w) : Asks id u w := by
  refine ⟨hvw.tenants.trans huv.tenants, hvw.bucket.trans huv.bucket,
    hvw.records.trans huv.records, fun row hrow => ?_⟩
  obtain ⟨asked, n, hv, hkeeps⟩ := huv.row row hrow
  obtain ⟨asked', n', hw, hkeeps'⟩ := hvw.row _ hv
  exact ⟨asked', n', hw, fun h => hkeeps' (hkeeps h)⟩

theorem Asks.storeIn (h : Asks id v w) (schemaName : Text) :
    w.storeIn schemaName = v.storeIn schemaName := by
  rw [OpsWorld.storeIn, OpsWorld.storeIn, h.bucket, h.records]

theorem findJob_saved {id' : Uuid} {now : Nat} {f : RawPayloadMigrationJob → RawPayloadMigrationJob}
    (hf : ∀ row, (f row).id = row.id) (hrow : findJob w.jobs id = some row) :
    findJob (updateJob id' now f w.jobs) id =
      some (if id = id' then { f row with updatedAt := now } else row) := by
  rw [findJob_updateJob now hf, hrow, Option.map_some, savedRow, findJob_id hrow]

theorem asks_cancelOp {op : JobOp} {r : op.Resp} (hop : cancelOp op)
    (h : execJobs op c v = some (r, w)) : Asks id v w := by
  cases op with
  | getJob _ =>
    cases c with
    | clock _ =>
      cases h
      exact Asks.refl _ _
    | _ => cases h
  | requirePlatformOperator =>
    cases c <;> cases h <;> exact Asks.refl _ _
  | saveCancelRequested copy =>
    cases c with
    | clock now =>
      have hasked : copy.cancelRequested = true := hop
      cases h
      refine ⟨rfl, rfl, rfl, fun row hrow => ?_⟩
      have hsaved : findJob (updateJob copy.id now (fun job =>
          { job with cancelRequested := copy.cancelRequested }) v.jobs) id = some (if id = copy.id
            then { row with cancelRequested := copy.cancelRequested, updatedAt := now } else row) :=
        findJob_saved (fun _ => rfl) hrow
      split_ifs at hsaved
      · exact ⟨copy.cancelRequested, now, hsaved, fun _ => hasked⟩
      · exact ⟨row.cancelRequested, row.updatedAt, hsaved, fun h => h⟩
    | _ => cases h
  | _ => exact hop.elim

/-! The pass of the task. -/

theorem execJobs_store {schemaName : Text} {op : StoreOp} {r : op.Resp}
    (h : execJobs (.store schemaName op) c w = some (r, v)) :
    ∃ a s, underTenant (w.tenantUuids schemaName) a = true ∧
      execStore op a (w.storeIn schemaName) = some (r, s) ∧ v = w.withStore schemaName s := by
  cases c with
  | raw a =>
    simp only [execJobs] at h
    split_ifs at h with htenant
    simp only [Option.map_eq_some_iff, Prod.exists, Prod.mk.injEq] at h
    obtain ⟨r', s, he, rfl, rfl⟩ := h
    exact ⟨a, s, htenant, he, rfl⟩
  | _ => cases h

@[simp] theorem withStore_storeIn (w : OpsWorld) (schemaName : Text) (s : StoreWorld) :
    (w.withStore schemaName s).storeIn schemaName = s := by
  simp [OpsWorld.withStore, OpsWorld.storeIn]

theorem execJobs_saveResult {result : MigrationInspectionResult} {r : Unit}
    (h : execJobs (.saveResult id result) c w = some (r, v)) :
    ∃ now, v = { w with jobs := updateJob id now (fun job => { job with result }) w.jobs } := by
  cases c with
  | clock now =>
    cases h
    exact ⟨now, rfl⟩
  | _ => cases h

theorem execJobs_refreshCancelRequested {r : Bool}
    (h : execJobs (.refreshCancelRequested id) c w = some (r, v)) :
    v = w ∧ ∃ row, findJob w.jobs id = some row ∧ r = row.cancelRequested := by
  cases c with
  | clock now =>
    simp only [execJobs, Option.map_eq_some_iff, Prod.mk.injEq] at h
    obtain ⟨row, hrow, rfl, rfl⟩ := h
    exact ⟨rfl, row, hrow, rfl⟩
  | _ => cases h

def CancelAsked (id : Uuid) (w : OpsWorld) : Prop :=
  ∃ row, findJob w.jobs id = some row ∧ row.cancelRequested = true

theorem Asks.cancelAsked (h : Asks id v w) (hv : CancelAsked id v) : CancelAsked id w := by
  obtain ⟨row, hrow, hasked⟩ := hv
  obtain ⟨asked, n, hw, hkeeps⟩ := h.row row hrow
  exact ⟨_, hw, hkeeps hasked⟩

/-- The calls of the pass, with the callbacks of the task. -/
def passExec (job : RawPayloadMigrationJob) (tenant : Uuid) : Exec StoreSig OpsAnswer OpsWorld :=
  fun op c w =>
    if w.tenantUuids job.organization.schemaName = tenant then
      (execJobs (taskOp job op) c w).map fun x => (taskAnswer job op x.1, x.2)
    else none

theorem passExec_spec {tenant : Uuid} {op : StoreOp} {r : op.Resp}
    (h : passExec job tenant op c w = some (r, v)) :
    w.tenantUuids job.organization.schemaName = tenant ∧
      ∃ r', execJobs (taskOp job op) c w = some (r', v) ∧ taskAnswer job op r' = r := by
  unfold passExec at h
  split_ifs at h with htenant
  simp only [Option.map_eq_some_iff, Prod.exists, Prod.mk.injEq] at h
  obtain ⟨r', v', he, rfl, rfl⟩ := h
  exact ⟨htenant, r', he, rfl⟩

theorem findJob_savedResult {now : Nat} {result : MigrationInspectionResult}
    (hrow : findJob w.jobs id = some row) :
    findJob (updateJob id now (fun job => { job with result }) w.jobs) id =
      some { row with result, updatedAt := now } := by
  have hsaved : findJob (updateJob id now (fun job => { job with result }) w.jobs) id =
      some (if id = id then { row with result, updatedAt := now } else row) :=
    findJob_saved (fun _ => rfl) hrow
  rwa [if_pos rfl] at hsaved

theorem cancelAsked_saved {now : Nat} {result : MigrationInspectionResult}
    (h : CancelAsked id w) :
    CancelAsked id { w with jobs := updateJob id now (fun job => { job with result }) w.jobs } := by
  obtain ⟨row, hrow, hasked⟩ := h
  exact ⟨_, findJob_savedResult hrow, hasked⟩

theorem workplace_task (hschema : job.organization.schemaName = m.schemaName) :
    m.Workplace false (passExec job m.tenant) (fun w => w.storeIn m.schemaName)
      (CancelAsked job.id) (Asks job.id) where
  refl := Asks.refl job.id
  trans _ _ _ := Asks.trans
  rely _ _ h := ⟨h.storeIn _, h.cancelAsked⟩
  record op hop c w r v h := by
    obtain ⟨htenant, r', he, rfl⟩ := passExec_spec h
    have hstore : ∀ x, execJobs (.store job.organization.schemaName op) c w = some (x, v) →
        ∃ c₀, tenantExec m.tenant false op c₀ (w.storeIn m.schemaName) =
          some (x, v.storeIn m.schemaName) := by
      intro x hx
      obtain ⟨a, s, hunder, hs, rfl⟩ := execJobs_store hx
      rw [htenant] at hunder
      rw [hschema] at hs ⊢
      exact ⟨a, by simp [Exec.only, hunder, hs]⟩
    cases op with
    | progressCallback _ => cases hop
    | cancelCheck => cases hop
    | _ => exact hstore _ he
  progress result c w r v h := by
    obtain ⟨-, r', he, -⟩ := passExec_spec h
    obtain ⟨now, rfl⟩ := execJobs_saveResult he
    exact ⟨rfl, cancelAsked_saved⟩
  check c w r v h := by
    obtain ⟨-, r', he, rfl⟩ := passExec_spec h
    obtain ⟨rfl, row, hrow, hasked⟩ := execJobs_refreshCancelRequested he
    exact ⟨rfl, fun hr => ⟨row, hrow, hasked ▸ hr⟩⟩

/-! The task. -/

/-- The worker of the job has saved RUNNING. -/
def Working (m : Migration) (job : RawPayloadMigrationJob) (w : OpsWorld) : Prop :=
  w.tenantUuids m.schemaName = m.tenant ∧
    ∃ row, findJob w.jobs job.id = some row ∧ row.dryRun = job.dryRun ∧ row.status = .running

theorem Asks.working (h : Asks job.id v w) (hv : Working m job v) : Working m job w := by
  obtain ⟨htenant, row, hrow, hdry, hrunning⟩ := hv
  obtain ⟨asked, n, hw, -⟩ := h.row row hrow
  exact ⟨h.tenants ▸ htenant, _, hw, hdry, hrunning⟩

theorem Working.pass (hschema : job.organization.schemaName = m.schemaName)
    (hw : Working m job w) {op : StoreOp} {r : (taskOp job op).Resp}
    (h : execJobs (taskOp job op) c w = some (r, v)) :
    passExec job m.tenant op c w = some (taskAnswer job op r, v) ∧ Working m job v := by
  refine ⟨?_, ?_⟩
  · rw [passExec, hschema, if_pos hw.1]
    simp only [h, Option.map_some]
  · have hstore : ∀ (op : StoreOp) (x : op.Resp),
        execJobs (.store job.organization.schemaName op) c w = some (x, v) → Working m job v := by
      intro op x hx
      obtain ⟨a, s, -, -, rfl⟩ := execJobs_store hx
      exact hw
    cases op with
    | progressCallback result =>
      obtain ⟨now, rfl⟩ := execJobs_saveResult h
      obtain ⟨htenant, row, hrow, hdry, hrunning⟩ := hw
      exact ⟨htenant, _, findJob_savedResult hrow, hdry, hrunning⟩
    | cancelCheck =>
      obtain ⟨rfl, -⟩ := execJobs_refreshCancelRequested h
      exact hw
    | _ => exact hstore _ _ h

theorem migrationPass_safe (hbucket : m.bucket = platform.bucket)
    (hschema : job.organization.schemaName = m.schemaName) (hcolumns : m.ColumnsFit)
    (hu : Working m job u) (hstore : u.storeIn m.schemaName = m.initial) :
    (migrationPass platform job).Safe execJobs (Asks job.id) (fun _ _ => True)
      (fun out v => Working m job v ∧ ∀ result, out = .ok result → ∃ result',
        result = result'.skipped ∧ m.Processed job.dryRun (CancelAsked job.id) m.initial {} m.sorted
          result' (fun w => w.storeIn m.schemaName) v) u := by
  rw [migrationPass, ← hbucket, hschema]
  refine (Prog.Safe.embed (K := Working m job) (fun _ _ hv hvw => hvw.working hv)
    (fun op c w r v hw he => hw.pass hschema he) hu
    ((workplace_task hschema).runRawPayloadMigration hcolumns _ hstore)).weaken fun out v hv => ?_
  refine ⟨hv.1, fun result hout => ?_⟩
  subst hout
  exact hv.2

/-- The pass has dealt with every record, and the row says what it counted. -/
structure Migration.Finished (m : Migration) (row : RawPayloadMigrationJob) (w : StoreWorld) :
    Prop where
  status : row.status = finalStatus false row.dryRun row.result
  result : row.result = (m.tally row.dryRun {} m.sorted).skipped
  inv : m.Inv w
  records : w.records = m.relocateAll row.dryRun m.initial.records m.sorted

/-- What the task leaves when it ends; an exception leaves the status that it met. -/
def TaskEnded (m : Migration) (job : RawPayloadMigrationJob) (out : Except Exc Unit)
    (w : OpsWorld) : Prop :=
  ∃ row, findJob w.jobs job.id = some row ∧ row.dryRun = job.dryRun ∧
    match out with
    | .ok _ => row.status = .failed ∨ row.status = .cancelled ∨
        m.Finished row (w.storeIn m.schemaName)
    | .error _ => row.status = job.status ∨ row.status = .running

theorem Asks.taskEnded {out : Except Exc Unit} (h : Asks job.id v w) (hv : TaskEnded m job out v) :
    TaskEnded m job out w := by
  obtain ⟨row, hrow, hdry, hout⟩ := hv
  obtain ⟨asked, n, hw, -⟩ := h.row row hrow
  refine ⟨_, hw, hdry, ?_⟩
  cases out with
  | error e => exact hout
  | ok _ =>
    rcases hout with hfailed | hcancelled | hfinished
    · exact .inl hfailed
    · exact .inr (.inl hcancelled)
    · refine .inr (.inr ⟨hfinished.status, hfinished.result, ?_, ?_⟩)
      · rw [h.storeIn]
        exact hfinished.inv
      · rw [h.storeIn]
        exact hfinished.records

theorem safe_jobCall {α C W : Type} {exec : Exec JobSig C W} {R G : W → W → Prop}
    {Q : Except Exc α → W → Prop} {op : JobOp} {f : op.Resp → JobProg α} {w : W}
    (h : ∀ v, R w v → ∀ c r v', exec op c v = some (r, v') →
      G v v' ∧ (f r).Safe exec R G Q v') :
    (jobCall op >>= f).Safe exec R G Q w := h

theorem execJobs_now {r : Nat} (h : execJobs .now c w = some (r, v)) : v = w := by
  cases c with
  | clock now =>
    cases h
    rfl
  | _ => cases h

theorem lastSave_safe {fields : StatusFields} {copy : RawPayloadMigrationJob}
    (hid : copy.id = job.id) (hu : Working m job u)
    (hsaved : ∀ v row now, Asks job.id u v → findJob v.jobs job.id = some row →
      row.dryRun = job.dryRun →
      let saved := { fields.write copy row with updatedAt := now }
      saved.status = .failed ∨ saved.status = .cancelled ∨
        m.Finished saved (v.storeIn m.schemaName)) :
    (jobCall (.saveStatus fields copy) >>= fun saved => Prog.ofExcept saved).Safe execJobs
      (Asks job.id) (fun _ _ => True) (TaskEnded m job) u := by
  refine safe_jobCall fun v hv c saved v' he => ⟨trivial, ?_⟩
  obtain ⟨htenant, row, hrow, hdry, hrunning⟩ := hv.working hu
  rcases execJobs_saveStatus he with ⟨⟨e, rfl⟩, rfl⟩ | ⟨row', now, rfl, -, -, rfl⟩
  · exact fun w hw => hw.taskEnded ⟨row, hrow, hdry, .inr hrunning⟩
  · intro w hw
    refine hw.taskEnded ⟨{ fields.write copy row with updatedAt := now }, ?_, ?_,
      hsaved v row now hv hrow hdry⟩
    · rw [← hid] at hrow ⊢
      have hsaved : findJob (updateJob copy.id now (fields.write copy) v.jobs) copy.id =
          some (if copy.id = copy.id then { fields.write copy row with updatedAt := now } else row) :=
        findJob_saved (fields.write_id copy) hrow
      rwa [if_pos rfl] at hsaved
    · exact (fields.write_dryRun copy row).trans hdry

theorem failJob_safe (e : Exc) (hu : Working m job u) :
    (failJob platform job e).Safe execJobs (Asks job.id) (fun _ _ => True) (TaskEnded m job) u := by
  refine safe_jobCall fun v hv c now v' he => ⟨trivial, ?_⟩
  obtain rfl := execJobs_now he
  exact lastSave_safe rfl (hv.working hu) fun _ _ _ _ _ _ => .inl rfl

theorem finishJob_safe {result : MigrationInspectionResult} (hu : Working m job u)
    (hpass : m.Processed job.dryRun (CancelAsked job.id) m.initial {} m.sorted result
      (fun w => w.storeIn m.schemaName) u) :
    (finishJob job result.skipped).Safe execJobs (Asks job.id) (fun _ _ => True)
      (TaskEnded m job) u := by
  refine safe_jobCall fun v hv c _ v' he => ⟨trivial, ?_⟩
  have hworking := hv.working hu
  obtain ⟨now, rfl⟩ := execJobs_saveResult he
  obtain ⟨htenant, row, hrow, hdry, hrunning⟩ := hworking
  have hrow' : findJob (updateJob job.id now (fun row => { row with result := result.skipped })
      v.jobs) job.id = some { row with result := result.skipped, updatedAt := now } :=
    findJob_savedResult hrow
  refine safe_jobCall fun w hw c asked w' he => ⟨trivial, ?_⟩
  obtain ⟨rfl, row₁, hrow₁, hasked⟩ := execJobs_refreshCancelRequested he
  refine safe_jobCall fun s hs c finishedAt s' he => ⟨trivial, ?_⟩
  obtain rfl := execJobs_now he
  have hreached := hw.trans hs
  refine lastSave_safe rfl (hreached.working ⟨htenant, _, hrow', hdry, hrunning⟩)
    fun t final now' ht hfinal hdry' => ?_
  cases asked with
  | true => exact .inr (.inl rfl)
  | false =>
    obtain ⟨ys, -, hall, hresult, hinv, hrecords⟩ := hpass
    have hreported : final.result = result.skipped := by
      obtain ⟨b, n, hfound, -⟩ := (hreached.trans ht).row _ hrow'
      rw [Option.some.inj (hfinal.symm.trans hfound)]
    have hstore : t.storeIn m.schemaName = u.storeIn m.schemaName := by
      rw [(hreached.trans ht).storeIn, ← hv.storeIn m.schemaName]
      rfl
    -- Whoever stopped the loop had found the cancellation, and the task finds it again.
    obtain rfl : ys = m.sorted := by
      refine hall.resolve_right fun hcancelled => ?_
      obtain ⟨row₂, hrow₂, hcancel⟩ := hw.cancelAsked (cancelAsked_saved (hv.cancelAsked hcancelled))
      obtain rfl := Option.some.inj (hrow₁.symm.trans hrow₂)
      rw [hcancel] at hasked
      cases hasked
    right
    right
    refine ⟨?_, ?_, by rwa [hstore], ?_⟩
    · show finalStatus false job.dryRun result.skipped = finalStatus false final.dryRun final.result
      rw [hdry', hreported]
    · show final.result = (m.tally final.dryRun {} m.sorted).skipped
      rw [hdry', hreported, hresult]
    · show (t.storeIn m.schemaName).records = m.relocateAll final.dryRun m.initial.records m.sorted
      rw [hdry', hstore, hrecords]

theorem execJobs_getJob {r : Option RawPayloadMigrationJob}
    (h : execJobs (.getJob id) c w = some (r, v)) : v = w ∧ r = findJob w.jobs id := by
  cases c with
  | clock now =>
    cases h
    exact ⟨rfl, rfl⟩
  | _ => cases h

theorem task_safe (hbucket : m.bucket = platform.bucket) (hcolumns : m.ColumnsFit)
    (hschema : job.organization.schemaName = m.schemaName)
    (htenant : u.tenantUuids m.schemaName = m.tenant) (hstore : u.storeIn m.schemaName = m.initial)
    (hjob : findJob u.jobs job.id = some job) (task : Uuid) :
    (runRawPayloadMigrationTask platform job.id task).Safe execJobs (Asks job.id) (fun _ _ => True)
      (TaskEnded m job) u := by
  refine safe_jobCall fun v hv c found v' he => ⟨trivial, ?_⟩
  obtain ⟨rfl, hfound⟩ := execJobs_getJob he
  obtain ⟨asked, n, hrow, -⟩ := hv.row job hjob
  rw [hrow] at hfound
  subst hfound
  refine safe_jobCall fun w hw c now w' he => ⟨trivial, ?_⟩
  obtain rfl := execJobs_now he
  refine safe_jobCall fun s hs c saved s' he => ⟨trivial, ?_⟩
  have hreached := (hv.trans hw).trans hs
  obtain ⟨asked', n', hrow', -⟩ := hreached.row job hjob
  rcases execJobs_saveStatus he with ⟨⟨e, rfl⟩, rfl⟩ | ⟨row, updatedAt, rfl, -, -, rfl⟩
  · exact fun t ht => ht.taskEnded ⟨_, hrow', rfl, .inl rfl⟩
  · let copy := startedJob { job with cancelRequested := asked, updatedAt := n } task now
    have hworking : Working m copy { s with
        jobs := updateJob job.id updatedAt (StatusFields.started.write copy) s.jobs } := by
      have hsaved : findJob (updateJob job.id updatedAt (StatusFields.started.write copy) s.jobs)
          job.id = some (if job.id = job.id then
            { StatusFields.started.write copy
                { job with cancelRequested := asked', updatedAt := n' } with updatedAt }
            else { job with cancelRequested := asked', updatedAt := n' }) :=
        findJob_saved (StatusFields.started.write_id copy) hrow'
      rw [if_pos rfl] at hsaved
      exact ⟨hreached.tenants ▸ htenant, _, hsaved, rfl, rfl⟩
    have hended : ∀ out t, TaskEnded m copy out t → TaskEnded m job out t := by
      rintro out t ⟨row, hrow, hdry, hout⟩
      refine ⟨row, hrow, hdry, ?_⟩
      cases out with
      | ok _ => exact hout
      | error e => exact .inr (hout.elim id id)
    refine Prog.Safe.weaken hended ?_
    have hschema' : copy.organization.schemaName = m.schemaName := hschema
    refine (migrationPass_safe hbucket hschema' hcolumns hworking
      ((hreached.storeIn m.schemaName).trans hstore)).handle (Asks.refl _)
      (fun result t ht => ?_) fun e t ht => failJob_safe e ht.1
    obtain ⟨result', rfl, hpass⟩ := ht.2 result rfl
    exact finishJob_safe ht.1 hpass

/-! What the counters say about the records. -/

def Finding.conflict : Finding → Bool
  | unrecognized | mismatch _ => true
  | _ => false

theorem Finding.problem_eq (finding : Finding) :
    finding.problem = (decide (finding = .missing) || finding.conflict) := by
  cases finding <;> rfl

theorem problems_addProblem (result : MigrationInspectionResult) (entry : ProblemEntry) :
    (result.addProblem entry).missingObjects = result.missingObjects ∧
      (result.addProblem entry).checksumConflicts = result.checksumConflicts := by
  unfold MigrationInspectionResult.addProblem
  split_ifs <;> exact ⟨rfl, rfl⟩

theorem problems_inspected (result : MigrationInspectionResult) (dryRun : Bool)
    (record : RawPayloadRecord) (finding : Finding) :
    (result.inspected dryRun record finding).missingObjects =
        result.missingObjects + (if finding = .missing then 1 else 0) ∧
      (result.inspected dryRun record finding).checksumConflicts =
        result.checksumConflicts + (if finding.conflict = true then 1 else 0) := by
  cases finding with
  | alreadyMigrated => exact ⟨rfl, rfl⟩
  | unrecognized => exact problems_addProblem _ _
  | missing => exact problems_addProblem _ _
  | mismatch category => cases category <;> exact problems_addProblem _ _
  | ready category => cases category <;> cases dryRun <;> exact ⟨rfl, rfl⟩

theorem problems_tally (m : Migration) (dryRun : Bool) (result : MigrationInspectionResult)
    (xs : List RawPayloadRecord) :
    (m.tally dryRun result xs).missingObjects =
        result.missingObjects + xs.countP (fun r => m.finding r = .missing) ∧
      (m.tally dryRun result xs).checksumConflicts =
        result.checksumConflicts + xs.countP (fun r => (m.finding r).conflict) := by
  induction xs generalizing result with
  | nil => exact ⟨rfl, rfl⟩
  | cons x xs ih =>
    obtain ⟨hmissing, hconflicts⟩ := problems_inspected result dryRun x (m.finding x)
    obtain ⟨hmissing', hconflicts'⟩ := ih (result.inspected dryRun x (m.finding x))
    rw [hmissing] at hmissing'
    rw [hconflicts] at hconflicts'
    refine ⟨hmissing'.trans ?_, hconflicts'.trans ?_⟩
    · simp only [List.countP_cons, decide_eq_true_eq]
      omega
    · rw [List.countP_cons]
      omega

namespace Migration

/-- A record that is not a problem ends at its key, whether or not the pass has moved it. -/
theorem carried_sorted {r : RawPayloadRecord} (hr : r ∈ m.initial.records) :
    m.carried m.sorted r = if (m.finding r).problem then r else m.moved r := by
  have hmem : r ∈ m.sorted := (List.mem_insertionSort _).mpr hr
  cases hfinding : m.finding r with
  | alreadyMigrated =>
    have hmoved : r = m.moved r := by
      rcases m.classify_cases r with ⟨k, -, hmoved⟩ | ⟨category, hk, hne⟩ | ⟨category, k, hk, hne, -⟩
      · exact hmoved
      · cases category <;> simp_all [finding]
      · have hlegacy := (finding_legacy hk hne).2
        rw [hfinding] at hlegacy
        split at hlegacy
        · cases hlegacy
        · split_ifs at hlegacy
    simpa [carried, hfinding, Finding.isReady, Finding.problem] using hmoved
  | unrecognized => simp [carried, hfinding, Finding.isReady, Finding.problem]
  | missing => simp [carried, hfinding, Finding.isReady, Finding.problem]
  | mismatch category => simp [carried, hfinding, Finding.isReady, Finding.problem]
  | ready category => simp [carried, hfinding, hmem, Finding.isReady, Finding.problem]

theorem moved_ne_of_problem {r : RawPayloadRecord} (h : (m.finding r).problem = true) :
    m.moved r ≠ r := by
  intro heq
  obtain ⟨k, hk⟩ := m.classify_moved r
  rw [heq] at hk
  rw [finding, hk] at h
  cases h

theorem Finished.records_eq {w : StoreWorld} (h : m.Finished row w) (hdry : row.dryRun = false) :
    w.records = m.initial.records.map fun r => if (m.finding r).problem then r else m.moved r := by
  have hmem : ∀ x ∈ m.sorted, x ∈ m.initial.records := fun x hx =>
    (List.mem_insertionSort _).mp hx
  rw [h.records, hdry, relocateAll_false _ hmem]
  exact List.map_congr_left fun r hr => carried_sorted hr

theorem Inv.moved_object {w : StoreWorld} (hw : m.Inv w) {r : RawPayloadRecord}
    (hr : r ∈ m.initial.records) (hmoved : m.moved r ∈ w.records) (hne : m.moved r ≠ r) :
    ∃ o, w.bucket (m.targetKey r) = some o ∧ sha256hex o.body = r.checksumSha256 := by
  obtain ⟨done, hrecords, hcompleted⟩ := hw.records
  rw [hrecords] at hmoved
  obtain ⟨r', hr', heq⟩ := List.mem_map.mp hmoved
  have hid := congrArg RawPayloadRecord.id heq
  rw [move_id] at hid
  obtain rfl := id_inj hr' hr hid
  cases hdone : done r'.id with
  | false => exact absurd (by simpa [move, hdone] using heq.symm) hne
  | true =>
    obtain ⟨-, o, -, ho, hsum, -⟩ := hcompleted r' hr hdone
    exact ⟨o, ho, hsum⟩

theorem Finished.counts {w : StoreWorld} (h : m.Finished row w) :
    row.result.missingObjects = m.initial.records.countP (fun r => m.finding r = .missing) ∧
      row.result.checksumConflicts =
        m.initial.records.countP (fun r => (m.finding r).conflict) := by
  have hperm : m.sorted.Perm m.initial.records := List.perm_insertionSort _ _
  obtain ⟨hmissing, hconflicts⟩ := problems_tally m row.dryRun {} m.sorted
  rw [h.result]
  refine ⟨hmissing.trans ?_, hconflicts.trans ?_⟩
  · rw [hperm.countP_eq]
    exact Nat.zero_add _
  · rw [hperm.countP_eq]
    exact Nat.zero_add _

theorem Finished.no_problem {w : StoreWorld} (h : m.Finished row w) (hdry : row.dryRun = false)
    (hsucceeded : row.status = .succeeded) : ∀ r ∈ m.initial.records,
      (m.finding r).problem = false := by
  have hstatus := h.status
  rw [hsucceeded, hdry] at hstatus
  obtain ⟨hmissing, hconflicts⟩ := h.counts
  by_cases hmissing' : row.result.missingObjects = 0
  · by_cases hconflicts' : row.result.checksumConflicts = 0
    · intro r hr
      rw [hmissing, List.countP_eq_zero] at hmissing'
      rw [hconflicts, List.countP_eq_zero] at hconflicts'
      have hmissing'' := hmissing' r hr
      have hconflicts'' := hconflicts' r hr
      rw [Finding.problem_eq]
      simp_all
    · simp [finalStatus, hconflicts'] at hstatus
  · simp [finalStatus, hmissing'] at hstatus

end Migration

/-! An execution of the task, and requests to cancel at any moment. -/

def executing (platform : Platform) (w : OpsWorld) (job task : Uuid) : Ops :=
  (Sessions.idle w).set w 0
    { request := .work
      prog := do
        runRawPayloadMigrationTask platform job task
        return .done
      log := [⟨.receive, ⟨job, task⟩⟩] }

def cancelOnly : OpsEvent → Bool
  | .start _ (.cancel _) | .step _ _ | .die _ => true
  | .start _ _ => false

theorem guarded_executing (hbucket : m.bucket = platform.bucket) (hcolumns : m.ColumnsFit)
    (hschema : job.organization.schemaName = m.schemaName)
    (htenant : w.tenantUuids m.schemaName = m.tenant) (hstore : w.storeIn m.schemaName = m.initial)
    (hjob : findJob w.jobs job.id = some job) (task : Uuid) {t : Ops}
    (ht : Reaches (Ops.next platform) (fun _ e => cancelOnly e = true)
      (executing platform w job.id task) t) :
    t.Guarded execJobs (Asks job.id) (fun out v => TaskEnded m job (out.map fun _ => ()) v)
      cancelOp 0 := by
  refine ht.invariant ⟨⟨_, Sessions.set_self, ?_⟩, fun j y hj hy => ?_⟩ fun u e v hu hok he => ?_
  · refine (task_safe hbucket hcolumns hschema htenant hstore hjob task).handle (Asks.refl _)
      (fun _ v hv => ?_) fun e v hv => ?_
    · exact fun v' hv' => hv'.taskEnded hv
    · exact fun v' hv' => hv'.taskEnded hv
  · rcases Sessions.set_sessions hy with ⟨rfl, -⟩ | ⟨-, hy⟩
    · exact absurd rfl hj
    · cases hy
  · refine hu.next (Asks.refl _) (fun _ _ _ => Asks.trans)
      (fun op hop c v r w hexec => asks_cancelOp hop hexec) (fun j request hstart => ?_) he
    subst hstart
    cases request with
    | cancel id => exact issues_migrationJobCancel id
    | _ => cases hok

/-- The status of a migration job that is not a dry run, at the end of an execution of its
task during which cancellations were asked for at any moments: SUCCEEDED says that every
record has its tenant key and every record that was moved its object, PARTIALLY_FAILED
that the records counted as missing or as conflicts, and no others, are left. -/
theorem succeeded_job_migrated (platform : Platform) (m : Migration)
    (hbucket : m.bucket = platform.bucket) (hcolumns : m.ColumnsFit) {w : OpsWorld}
    {job : RawPayloadMigrationJob} (hjob : findJob w.jobs job.id = some job)
    (hschema : job.organization.schemaName = m.schemaName)
    (htenant : w.tenantUuids m.schemaName = m.tenant) (hstore : w.storeIn m.schemaName = m.initial)
    (task : Uuid) {t : Ops} (ht : Reaches (Ops.next platform) (fun _ e => cancelOnly e = true)
      (executing platform w job.id task) t)
    {x : JobSession} (hx : t.sessions 0 = some x) {row : RawPayloadMigrationJob}
    (hrow : findJob t.world.jobs job.id = some row) (hdry : row.dryRun = false) :
    let final := t.world.storeIn m.schemaName
    (∀ e, x.prog = .raise e → row.status = job.status ∨ row.status = .running) ∧
    ∀ reply, x.prog = .ret reply →
      (row.status = .succeeded →
        final.records = m.initial.records.map m.moved ∧
        ∀ r ∈ m.initial.records, m.moved r ≠ r →
          ∃ o, final.bucket (m.targetKey r) = some o ∧ sha256hex o.body = r.checksumSha256) ∧
      (row.status = .partiallyFailed →
        final.records = m.initial.records.map (fun r =>
          if (m.finding r).problem then r else m.moved r) ∧
        (∀ r ∈ m.initial.records, (m.finding r).problem = true → m.moved r ≠ r) ∧
        row.result.missingObjects = m.initial.records.countP (fun r => m.finding r = .missing) ∧
        row.result.checksumConflicts = m.initial.records.countP (fun r => (m.finding r).conflict) ∧
        ∀ r ∈ m.initial.records, (m.finding r).problem = false → m.moved r ≠ r →
          ∃ o, final.bucket (m.targetKey r) = some o ∧ sha256hex o.body = r.checksumSha256) := by
  intro final
  have hguarded := guarded_executing hbucket hcolumns hschema htenant hstore hjob task ht
  refine ⟨fun e he => ?_, fun reply hreply => ?_⟩
  · obtain ⟨row', hrow', -, hstatus⟩ := hguarded.ended (Asks.refl _) hx (.error e) he
    obtain rfl := Option.some.inj (hrow.symm.trans hrow')
    exact hstatus
  · obtain ⟨row', hrow', -, hout⟩ := hguarded.ended (Asks.refl _) hx (.ok reply) hreply
    obtain rfl := Option.some.inj (hrow.symm.trans hrow')
    have hfinished : row.status ≠ .failed → row.status ≠ .cancelled → m.Finished row final :=
      fun hfailed hcancelled => (hout.resolve_left hfailed).resolve_left hcancelled
    refine ⟨fun hsucceeded => ?_, fun hpartly => ?_⟩
    · have h := hfinished (by rw [hsucceeded]; nofun) (by rw [hsucceeded]; nofun)
      have hnone := h.no_problem hdry hsucceeded
      have hrecords : final.records = m.initial.records.map m.moved := by
        rw [h.records_eq hdry]
        exact List.map_congr_left fun r hr => by rw [hnone r hr]; rfl
      refine ⟨hrecords, fun r hr hne => h.inv.moved_object hr ?_ hne⟩
      rw [hrecords]
      exact List.mem_map_of_mem hr
    · have h := hfinished (by rw [hpartly]; nofun) (by rw [hpartly]; nofun)
      have hrecords := h.records_eq hdry
      refine ⟨hrecords, fun r _ => Migration.moved_ne_of_problem, h.counts.1, h.counts.2,
        fun r hr hsound hne => h.inv.moved_object hr ?_ hne⟩
      rw [hrecords]
      exact List.mem_map.mpr ⟨r, hr, by rw [hsound]; rfl⟩

def legacyJob : RawPayloadMigrationJob := { id := ⟨6⟩, organization := acme, dryRun := false }

def legacyOps : OpsWorld :=
  { organizations := [acme]
    tenantUuids := fun _ => ⟨1⟩
    jobs := [legacyJob]
    bucket := legacyMigration.initial.bucket
    records := fun _ => legacyMigration.initial.records }

/-- The task is executed to its end; meanwhile another job is looked up to be cancelled. -/
def legacyExecution : List OpsEvent :=
  [.start 1 (.cancel ⟨9⟩), .step 0 (.clock 0), .step 0 (.clock 0), .step 0 (.clock 0),
    .step 1 (.clock 0), .step 0 (.raw (.tenant (.ok ⟨1⟩))), .step 0 (.raw (.done ⟨0⟩)),
    .step 0 (.raw (.done ⟨0⟩)), .step 0 (.raw (.done ⟨0⟩)), .step 0 (.raw (.tenant (.ok ⟨1⟩))),
    .step 0 (.raw (.done ⟨0⟩)), .step 0 (.raw (.done ⟨0⟩)), .step 0 (.clock 0),
    .step 0 (.clock 0), .step 0 (.clock 0), .step 0 (.clock 0), .step 0 (.clock 0)]

def JobSession.returned (x : JobSession) : Bool :=
  match x.prog with
  | .ret _ => true
  | _ => false

theorem JobSession.returned_ret {x : JobSession} (h : x.returned = true) :
    ∃ reply, x.prog = .ret reply := by
  unfold returned at h
  split at h
  · exact ⟨_, ‹_›⟩
  · cases h

theorem succeeded_job_migrated_legacy : ∃ t : Ops,
    Reaches (Ops.next smallPlatform) (fun _ e => cancelOnly e = true)
      (executing smallPlatform legacyOps ⟨6⟩ ⟨5⟩) t ∧
    statusOf t.world.jobs ⟨6⟩ = some .succeeded ∧
    (t.world.storeIn legacyMigration.schemaName).records =
      legacyMigration.initial.records.map legacyMigration.moved := by
  have hfinal : (replay (Ops.next smallPlatform) (fun _ e => cancelOnly e = true)
      (executing smallPlatform legacyOps ⟨6⟩ ⟨5⟩) legacyExecution).map (fun t =>
        ((t.sessions 0).map JobSession.returned,
          (findJob t.world.jobs ⟨6⟩).map fun row => (row.dryRun, row.status))) =
      some (some true, some (false, .succeeded)) := by
    decide +kernel
  obtain ⟨t, ht, hend⟩ := Option.map_eq_some_iff.mp hfinal
  obtain ⟨hsession, hstatus⟩ := Prod.mk.injEq _ _ _ _ ▸ hend
  obtain ⟨x, hx, hreturned⟩ := Option.map_eq_some_iff.mp hsession
  obtain ⟨row, hrow, hpair⟩ := Option.map_eq_some_iff.mp hstatus
  obtain ⟨hdry, hsucceeded⟩ := Prod.mk.injEq _ _ _ _ ▸ hpair
  obtain ⟨reply, hreply⟩ := JobSession.returned_ret hreturned
  have hreach := Reaches.of_replay _ ht
  have hjob : findJob legacyOps.jobs legacyJob.id = some legacyJob := rfl
  have hmigrated := succeeded_job_migrated smallPlatform legacyMigration rfl
    legacyMigration_columnsFit hjob rfl rfl rfl ⟨5⟩ hreach hx hrow hdry
  refine ⟨t, hreach, ?_, ((hmigrated.2 reply hreply).1 hsucceeded).1⟩
  rw [statusOf, hrow, Option.map_some, hsucceeded]

end DataLake
