import DataLake.JobOutcome
import Mathlib.Data.List.Induction

/-! Cancelling a migration job: a request that is saved while the task executes is not lost. -/

namespace DataLake

open Foundation

/-- The task leaves the size of its batches to the default. -/
abbrev taskBatchSize : Nat := ({} : MigrationOptions).batchSize

/-- What the calls of a task tell of its execution. -/
structure TaskView where
  /-- The records that its last report counts. -/
  counted : Nat := 0
  /-- It has reported since it last read the flag. -/
  reported : Bool := false
  asked : Option Bool := none
  failed : Bool := false
  status : Option JobStatus := none

namespace TaskView

def note (v : TaskView) : Call JobSig → TaskView
  | ⟨.saveResult _ result, _⟩ => { v with counted := result.recordsInspected, reported := true }
  | ⟨.refreshCancelRequested _, asked⟩ => { v with asked := some asked, reported := false }
  | ⟨.saveStatus fields copy, .ok _⟩ =>
    { v with failed := v.failed || fields = .failure, status := some copy.status }
  | ⟨.saveStatus fields _, .error _⟩ => { v with failed := v.failed || fields = .failure }
  | _ => v

/-- No further record is dealt with before the next read. -/
def closed (v : TaskView) : Bool := v.reported || v.asked = some true

def Admits (v : TaskView) (result : MigrationInspectionResult) : Prop :=
  if v.closed then result.recordsInspected = v.counted
  else result.recordsInspected ≤ v.counted + taskBatchSize

theorem Admits.of_closed {v : TaskView} {result : MigrationInspectionResult}
    (hclosed : v.closed = true) (hcounted : result.recordsInspected = v.counted) :
    v.Admits result := by
  rw [Admits, if_pos hclosed]
  exact hcounted

end TaskView

def taskView (l : JobLog) : TaskView := l.foldl TaskView.note {}

theorem taskView_append (l : JobLog) (call : Call JobSig) :
    taskView (l ++ [call]) = (taskView l).note call := by
  rw [taskView, List.foldl_append]
  rfl

theorem taskView_failed {l : JobLog} (h : (taskView l).failed = true) :
    ∃ copy r, (⟨.saveStatus .failure copy, r⟩ : Call JobSig) ∈ l := by
  induction l using List.reverseRecOn with
  | nil => cases h
  | append_singleton l call ih =>
    rw [taskView_append] at h
    have hbefore : (taskView l).failed = true →
        ∃ copy r, (⟨.saveStatus .failure copy, r⟩ : Call JobSig) ∈ l ++ [call] := fun hl =>
      let ⟨copy, r, hmem⟩ := ih hl
      ⟨copy, r, List.mem_append_left _ hmem⟩
    obtain ⟨op, r⟩ := call
    cases op with
    | saveStatus fields copy =>
      by_cases hfields : fields = .failure
      · subst hfields
        exact ⟨copy, r, List.mem_append_right _ (List.mem_singleton.mpr rfl)⟩
      · refine hbefore ?_
        cases r <;> simpa [TaskView.note, hfields] using h
    | _ => exact hbefore h

/-- A call for one of the records of the batch that follows the first `n`. -/
def OfBatch (platform : Platform) (l : JobLog) (n : Nat) (schemaName : Text) (op : StoreOp) :
    Prop :=
  ∃ records i record tenant dryRun result,
    (⟨.store schemaName .selectRecords, records⟩ : Call JobSig) ∈ l ∧
    records[i]? = some record ∧ n ≤ i ∧ i < n + taskBatchSize ∧
    (inspectRecord platform.bucket tenant schemaName dryRun record result).CanIssue op

theorem OfBatch.mono {platform : Platform} {l l' : JobLog} {n : Nat} {schemaName : Text}
    {op : StoreOp} (h : OfBatch platform l n schemaName op) (hl : ∀ z ∈ l, z ∈ l') :
    OfBatch platform l' n schemaName op := by
  obtain ⟨records, i, record, tenant, dryRun, result, hmem, hrest⟩ := h
  exact ⟨records, i, record, tenant, dryRun, result, hl _ hmem, hrest⟩

/-- The call the task of a job may make after the calls `l`. -/
def TaskRule (platform : Platform) (job : Uuid) (l : JobLog) : JobOp → Prop
  | .receive | .getJob _ | .now => True
  | .saveStatus _ copy => copy.id = job
  | .saveResult id result => id = job ∧ (taskView l).Admits result
  | .refreshCancelRequested id => id = job
  | .store schemaName op => op = .tenantUuid ∨ op = .selectRecords ∨
      ((taskView l).closed = false ∧ OfBatch platform l (taskView l).counted schemaName op)
  | _ => False

def TaskAnswered (job : Uuid) : ∀ op : JobOp, op.Resp → Prop
  | .getJob id, r => ∀ row, r = some row → row.id = id
  | .saveStatus _ copy, r => copy.id = job → ∀ e, r = .error e → copy.status.active = true
  | _, _ => True

/-- How the task ends where the last it read of the flag is a request. -/
def TaskEnd (l : JobLog) : Prop :=
  (taskView l).asked = some true → (taskView l).failed = false →
    (taskView l).status = some .cancelled

variable {platform : Platform} {job : RawPayloadMigrationJob} {id : Uuid} {l : JobLog}
  {result : MigrationInspectionResult}

/-! The loop over the records. -/

theorem inspected_addProblem (result : MigrationInspectionResult) (entry : ProblemEntry) :
    (result.addProblem entry).recordsInspected = result.recordsInspected := by
  unfold MigrationInspectionResult.addProblem
  split_ifs <;> rfl

/-- A result counts `n` records. -/
def CountsTo (n : Nat) : Except Exc MigrationInspectionResult → Prop
  | .ok next => next.recordsInspected = n
  | .error _ => True

theorem inspectLegacy_counts (bucket : BucketName) (category : Category) (key : Text)
    (dryRun : Bool) (record : RawPayloadRecord) (result : MigrationInspectionResult) :
    (inspectLegacy bucket category key dryRun record result).Within (fun _ => True)
      (CountsTo result.recordsInspected) := by
  refine (Prog.issues_true _).within.handle (fun found _ => ?_) fun _ _ => trivial
  cases found with
  | false => exact inspected_addProblem _ _
  | true =>
    let found := if category = .legacyUnprefixed then
        { result with legacyUnprefixed := result.legacyUnprefixed + 1 }
      else { result with schemaPrefixed := result.schemaPrefixed + 1 }
    have hfound : found.recordsInspected = result.recordsInspected := by
      dsimp only [found]
      split_ifs <;> rfl
    refine (Prog.issues_true _).within.handle (fun verified _ => ?_) fun _ _ => trivial
    obtain ⟨_ | _, uri⟩ := verified
    · exact (inspected_addProblem _ _).trans hfound
    · cases dryRun with
      | true => exact hfound
      | false =>
        cases uri with
        | none => exact hfound
        | some uri => exact ⟨trivial, fun _ => hfound⟩

/-- The calls for a record, and the counter after it. -/
theorem inspectRecord_counts (bucket : BucketName) (tenant schemaName : Text) (dryRun : Bool)
    (record : RawPayloadRecord) (result : MigrationInspectionResult) :
    (inspectRecord bucket tenant schemaName dryRun record result).Within
      (fun op => recordOp dryRun op ∧
        (inspectRecord bucket tenant schemaName dryRun record result).CanIssue op)
      (CountsTo (result.recordsInspected + 1)) := by
  have hcounted : (inspectRecord bucket tenant schemaName dryRun record result).Within
      (fun _ => True) (CountsTo (result.recordsInspected + 1)) := by
    unfold inspectRecord
    dsimp only
    split
    · exact rfl
    · exact inspected_addProblem _ _
    · exact inspectLegacy_counts _ _ _ _ _
        { result with recordsInspected := result.recordsInspected + 1 }
  exact ((hcounted.and (issues_inspectRecord _ _ _ _ _ _)).and (Prog.issues_canIssue _)).mono
    fun op h => ⟨h.1.2, h.2⟩

/-- Between two batches: what the loop has counted since its last report. -/
structure Counting (schemaName : Text) (all : List RawPayloadRecord) (n : Nat) (l : JobLog) :
    Prop where
  selected : (⟨.store schemaName .selectRecords, all⟩ : Call JobSig) ∈ l
  closed : (taskView l).closed = false
  counted : (taskView l).counted = n

theorem Counting.store {schemaName schemaName' : Text} {all : List RawPayloadRecord} {n : Nat}
    (h : Counting schemaName all n l) (op : StoreOp) (r : op.Resp) :
    Counting schemaName all n (l ++ [⟨.store schemaName' op, r⟩]) := by
  refine ⟨List.mem_append_left _ h.selected, ?_, ?_⟩
  · rw [taskView_append]
    exact h.closed
  · rw [taskView_append]
    exact h.counted

def taskOptions (job : RawPayloadMigrationJob) : MigrationOptions :=
  { dryRun := job.dryRun, progressCallback := true, cancelCheck := true }

theorem taskOp_record {dryRun : Bool} {op : StoreOp} (h : recordOp dryRun op) :
    taskOp job op = .store job.organization.schemaName op := by
  cases op with
  | progressCallback _ => cases h
  | cancelCheck => cases h
  | _ => rfl

theorem inspectRecord_along {tenant : Text} {all : List RawPayloadRecord} {n : Nat}
    {record : RawPayloadRecord} (hl : Counting job.organization.schemaName all n l)
    (hrecord : all[result.recordsInspected]? = some record) (hn : n ≤ result.recordsInspected)
    (hbatch : result.recordsInspected < n + taskBatchSize) :
    ((inspectRecord platform.bucket tenant job.organization.schemaName job.dryRun record
      result).embed (T := JobSig) (taskOp job) (taskAnswer job)).Along (TaskAnswered job.id)
      (TaskRule platform job.id)
      (fun l out => Counting job.organization.schemaName all n l ∧
        CountsTo (result.recordsInspected + 1) out) l := by
  let P (op : JobOp) : Prop := ∃ op', op = .store job.organization.schemaName op' ∧
    (inspectRecord platform.bucket tenant job.organization.schemaName job.dryRun record
      result).CanIssue op'
  have hcalls : ((inspectRecord platform.bucket tenant job.organization.schemaName job.dryRun
      record result).embed (T := JobSig) (taskOp job) (taskAnswer job)).Within P
      (CountsTo (result.recordsInspected + 1)) :=
    Prog.Within.embed ((inspectRecord_counts _ _ _ _ _ _).mono
      fun op h => ⟨op, taskOp_record h.1, h.2⟩)
  refine hcalls.along hl fun l op hl hop => ?_
  obtain ⟨op', rfl, hissue⟩ := hop
  refine ⟨.inr (.inr ⟨hl.closed, ?_⟩), fun r _ => hl.store op' r⟩
  rw [hl.counted]
  exact ⟨all, _, record, tenant, job.dryRun, result, hl.selected, hrecord, hn, hbatch, hissue⟩

theorem Counting.admits {schemaName : Text} {all : List RawPayloadRecord} {n : Nat}
    (h : Counting schemaName all n l) (hbatch : result.recordsInspected ≤ n + taskBatchSize) :
    (taskView l).Admits result := by
  rw [TaskView.Admits, h.closed, h.counted]
  exact hbatch

/-- Where the pass has a result, it may be reported. -/
def Reportable (l : JobLog) : Except Exc MigrationInspectionResult → Prop
  | .ok next => (taskView l).Admits next
  | .error _ => True

theorem migrateRecords_along {tenant : Text} {all records : List RawPayloadRecord} {n since : Nat}
    (hl : Counting job.organization.schemaName all n l)
    (hrecords : all.drop result.recordsInspected = records)
    (hcounted : result.recordsInspected = n + since) (hsince : since < taskBatchSize) :
    ((migrateRecords platform.bucket tenant job.organization.schemaName (taskOptions job) records
      since result).embed (T := JobSig) (taskOp job) (taskAnswer job)).Along (TaskAnswered job.id)
      (TaskRule platform job.id)
      Reportable l := by
  induction records generalizing l n since result with
  | nil => exact hl.admits (by omega)
  | cons record records ih =>
    have hrecord : all[result.recordsInspected]? = some record := by
      rw [← List.head?_drop, hrecords, List.head?_cons]
    have hrest : all.drop (result.recordsInspected + 1) = records := by
      rw [← List.drop_drop, hrecords, List.drop_one, List.tail_cons]
    refine (inspectRecord_along hl hrecord (by omega) (by omega)).embed_bind
      (fun l next hnext => ?_) fun _ _ _ => trivial
    obtain ⟨hl, hnext⟩ := hnext
    have hnext : next.recordsInspected = result.recordsInspected + 1 := hnext
    split_ifs with hfull
    · refine ⟨⟨rfl, hl.admits (by omega)⟩, fun r _ => ⟨rfl, fun asked _ => ?_⟩⟩
      cases asked with
      | true =>
        refine TaskView.Admits.of_closed ?_ ?_
        · rw [taskView_append]
          rfl
        · rw [taskView_append, taskView_append]
          rfl
      | false =>
        refine ih ⟨?_, ?_, ?_⟩ ?_ rfl (by decide)
        · exact List.mem_append_left _ (List.mem_append_left _ hl.selected)
        · rw [taskView_append]
          rfl
        · rw [taskView_append, taskView_append]
          rfl
        · rw [hnext, hrest]
    · refine ih hl ?_ ?_ ?_
      · rw [hnext, hrest]
      · omega
      · change ¬ since + 1 ≥ taskBatchSize at hfull
        omega

theorem admits_reported {id : Uuid} {r : Unit} (l : JobLog) :
    (taskView (l ++ [⟨.saveResult id result, r⟩])).Admits result := by
  refine TaskView.Admits.of_closed ?_ ?_
  · rw [taskView_append]
    rfl
  · rw [taskView_append]
    rfl

theorem migrationPass_along (hasked : (taskView l).closed = false)
    (hcounted : (taskView l).counted = 0) :
    (migrationPass platform job).Along (TaskAnswered job.id) (TaskRule platform job.id)
      Reportable l := by
  refine ⟨.inl rfl, fun tenant _ => ?_⟩
  cases tenant with
  | error e => trivial
  | ok tenant =>
    refine ⟨.inr (.inl rfl), fun records _ => ?_⟩
    have hl : Counting job.organization.schemaName records 0 (l ++
        [⟨.store job.organization.schemaName .tenantUuid, .ok tenant⟩] ++
        [⟨.store job.organization.schemaName .selectRecords, records⟩]) := by
      refine ⟨List.mem_append_right _ (List.mem_singleton.mpr rfl), ?_, ?_⟩
      · rw [taskView_append, taskView_append]
        exact hasked
      · rw [taskView_append, taskView_append]
        exact hcounted
    have hloop : ((migrateRecords platform.bucket tenant.text job.organization.schemaName
        (taskOptions job) records 0 {}).embed (T := JobSig) (taskOp job) (taskAnswer job)).Along
        (TaskAnswered job.id) (TaskRule platform job.id) Reportable _ :=
      migrateRecords_along hl List.drop_zero rfl (by decide)
    refine hloop.embed_bind (fun l next hnext => ?_) fun _ _ _ => trivial
    exact ⟨⟨rfl, hnext⟩, fun r _ => admits_reported l⟩

/-! The task. -/

theorem lastSave_along {fields : StatusFields} {copy : RawPayloadMigrationJob}
    (hid : copy.id = job.id) (hterminal : copy.status.terminal = true)
    (hlast : (taskView l).asked = some true → fields ≠ .failure → copy.status = .cancelled) :
    (jobCall (.saveStatus fields copy) >>= fun saved => Prog.ofExcept saved).Along
      (TaskAnswered job.id) (TaskRule platform job.id) (fun l _ => TaskEnd l) l := by
  refine ⟨hid, fun saved hsaved => ?_⟩
  cases saved with
  | error e =>
    have hactive : copy.status.active = true := hsaved hid e rfl
    cases hstatus : copy.status <;> rw [hstatus] at hactive hterminal <;> contradiction
  | ok _ =>
    show TaskEnd _
    rw [TaskEnd, taskView_append]
    intro hasked hfailed
    have hfields : fields ≠ .failure := by
      rintro rfl
      simp [TaskView.note] at hfailed
    exact congrArg some (hlast hasked hfields)

theorem failJob_ends (e : Exc) : (failJob platform job e).Along (TaskAnswered job.id)
    (TaskRule platform job.id) (fun l _ => TaskEnd l) l :=
  ⟨trivial, fun _ _ => lastSave_along rfl rfl fun _ h => absurd rfl h⟩

theorem finishJob_ends (hresult : (taskView l).Admits result) :
    (finishJob job result).Along (TaskAnswered job.id) (TaskRule platform job.id)
      (fun l _ => TaskEnd l) l := by
  refine ⟨⟨rfl, hresult⟩, fun _ _ => ⟨rfl, fun asked _ => ⟨trivial, fun now _ => ?_⟩⟩⟩
  refine lastSave_along rfl (finalStatus_terminal _ _ _) fun hasked _ => ?_
  rw [taskView_append, taskView_append] at hasked
  obtain rfl : asked = true := Option.some.inj hasked
  rfl

theorem task_ends (hasked : (taskView l).asked = none) (hreported : (taskView l).reported = false)
    (hcounted : (taskView l).counted = 0) (id task : Uuid) :
    (runRawPayloadMigrationTask platform id task).Along (TaskAnswered id) (TaskRule platform id)
      (fun l _ => TaskEnd l) l := by
  have hunasked : ∀ l, (taskView l).asked = none → TaskEnd l := by
    intro l hl h
    rw [hl] at h
    cases h
  refine ⟨trivial, fun found hfound => ?_⟩
  cases found with
  | none => exact hunasked _ (by rw [taskView_append]; exact hasked)
  | some job =>
    obtain rfl : job.id = id := hfound job rfl
    refine ⟨trivial, fun now _ => ⟨rfl, fun saved _ => ?_⟩⟩
    cases saved with
    | error e =>
      refine hunasked _ ?_
      rw [taskView_append, taskView_append, taskView_append]
      exact hasked
    | ok _ =>
      have hpass : (migrationPass platform (startedJob job task now)).Along
          (TaskAnswered (startedJob job task now).id) (TaskRule platform (startedJob job task now).id)
          Reportable (l ++ [⟨.getJob job.id, some job⟩] ++ [⟨.now, now⟩] ++
            [⟨.saveStatus .started (startedJob job task now), .ok ()⟩]) := by
        refine migrationPass_along ?_ ?_
        · rw [taskView_append, taskView_append, taskView_append]
          simp [TaskView.note, TaskView.closed, hasked, hreported]
        · rw [taskView_append, taskView_append, taskView_append]
          exact hcounted
      exact hpass.handle (fun l result hl => finishJob_ends hl) fun l e _ => failJob_ends e

/-! The table of jobs under an execution of the task. -/

variable {c : OpsAnswer} {v w : OpsWorld} {s t : Ops}

def flagOf (jobs : List RawPayloadMigrationJob) (id : Uuid) : Option Bool :=
  (findJob jobs id).map RawPayloadMigrationJob.cancelRequested

theorem cancelAsked_iff : CancelAsked id w ↔ flagOf w.jobs id = some true := by
  simp only [CancelAsked, flagOf, Option.map_eq_some_iff]

theorem flagOf_updateJob {id' : Uuid} (now : Nat)
    {f : RawPayloadMigrationJob → RawPayloadMigrationJob} (hid : ∀ row, (f row).id = row.id)
    (hf : ∀ row, (f row).cancelRequested = row.cancelRequested)
    (jobs : List RawPayloadMigrationJob) : flagOf (updateJob id' now f jobs) id = flagOf jobs id := by
  rw [flagOf, findJob_updateJob now hid, Option.map_map, flagOf]
  congr 1
  funext row
  rw [Function.comp_apply, savedRow]
  split_ifs
  · exact hf row
  · rfl

theorem StatusFields.write_cancelRequested (fields : StatusFields)
    (copy row : RawPayloadMigrationJob) :
    (fields.write copy row).cancelRequested = row.cancelRequested := by
  cases fields <;> rfl

/-- No save of the task writes the flag. -/
theorem TaskRule.flagOf {id' : Uuid} {op : JobOp} {r : op.Resp}
    (hop : TaskRule platform id' l op) (h : execJobs op c v = some (r, w)) (id : Uuid) : flagOf w.jobs id = flagOf v.jobs id := by
  cases op with
  | getJob _ => rw [(execJobs_getJob h).1]
  | now => rw [execJobs_now h]
  | receive =>
    rcases execJobs_receive h with ⟨k, -, -, rfl⟩ | ⟨k, -, -, rfl⟩ <;> rfl
  | saveStatus fields copy =>
    rcases execJobs_saveStatus h with ⟨-, rfl⟩ | ⟨row, now, -, -, -, rfl⟩
    · rfl
    · exact flagOf_updateJob now (fields.write_id copy) (fields.write_cancelRequested copy) _
  | saveResult _ result =>
    obtain ⟨now, rfl⟩ := execJobs_saveResult h
    exact flagOf_updateJob now (f := fun row => { row with result }) (fun _ => rfl) (fun _ => rfl) _
  | refreshCancelRequested _ => rw [(execJobs_refreshCancelRequested h).1]
  | store schemaName op =>
    obtain ⟨a, s, -, -, rfl⟩ := execJobs_store h
    rfl
  | _ => exact hop.elim

theorem execJobs_saveStatus_refused {fields : StatusFields} {copy row : RawPayloadMigrationJob}
    {e : Exc} (hrow : findJob w.jobs copy.id = some row)
    (h : execJobs (.saveStatus fields copy) c w = some (.error e, v)) :
    copy.status.active = true := by
  cases c with
  | clock now =>
    simp only [execJobs, hrow] at h
    split_ifs at h with hactive
    · rw [Bool.and_eq_true] at hactive
      exact hactive.1
    · cases h
  | _ => cases h

/-- The rule of a session while the task of the job executes. -/
def ExecutionRule (platform : Platform) (id : Uuid) : JobRequest → JobLog → JobOp → Prop
  | .work => TaskRule platform id
  | _ => fun _ => cancelOp

structure Followed (platform : Platform) (id : Uuid) (s : Ops) : Prop where
  conform : Sessions.Conform (fun _ => TaskAnswered id) (ExecutionRule platform id)
    (fun request l _ => request = .work → TaskEnd l) s
  found : ∃ status, statusOf s.world.jobs id = some status
  worker : ∃ x, s.sessions 0 = some x ∧ x.request = .work ∧ ∀ status,
    (taskView x.log).status = some status → statusOf s.world.jobs id = some status
  others : ∀ i x, i ≠ 0 → s.sessions i = some x → x.request ≠ .work

theorem followed_executing {row : RawPayloadMigrationJob} (hrow : findJob w.jobs id = some row)
    (task : Uuid) : Followed platform id (executing platform w id task) := by
  refine ⟨fun i x hx => ?_, ⟨row.status, congrArg _ hrow⟩,
    ⟨_, Sessions.set_self, rfl, nofun⟩, fun i x hi hx => ?_⟩
  · rcases Sessions.set_sessions hx with ⟨rfl, rfl⟩ | ⟨-, hx⟩
    · refine ⟨?_, fun l op r l' hl => ?_⟩
      · exact (task_ends rfl rfl rfl id task).handle (fun l _ hl _ => hl) fun l _ hl _ => hl
      · cases l with
        | nil =>
          cases hl
          exact ⟨trivial, trivial⟩
        | cons call l => simp at hl
    · cases hx
  · rcases Sessions.set_sessions hx with ⟨rfl, -⟩ | ⟨-, hx⟩
    · exact absurd rfl hi
    · cases hx

theorem taskAnswered_of_found {op : JobOp} {r : op.Resp} (hrow : ∃ row, findJob v.jobs id = some row)
    (h : execJobs op c v = some (r, w)) : TaskAnswered id op r := by
  cases op with
  | getJob id' =>
    intro row hr
    rw [(execJobs_getJob h).2] at hr
    exact findJob_id hr
  | saveStatus fields copy =>
    rintro rfl e rfl
    obtain ⟨row, hrow⟩ := hrow
    exact execJobs_saveStatus_refused hrow h
  | _ => trivial

/-- The status in the table follows the saves of the task. -/
theorem TaskRule.statusOf {op : JobOp} {r : op.Resp} (hop : TaskRule platform id l op)
    (h : execJobs op c v = some (r, w)) :
    (statusOf w.jobs id = statusOf v.jobs id ∧
      (taskView (l ++ [⟨op, r⟩])).status = (taskView l).status) ∨
    ∃ status, statusOf w.jobs id = some status ∧
      (taskView (l ++ [⟨op, r⟩])).status = some status := by
  rw [taskView_append]
  cases op with
  | saveStatus fields copy =>
    obtain rfl : copy.id = id := hop
    rcases execJobs_saveStatus h with ⟨⟨e, rfl⟩, rfl⟩ | ⟨row, now, rfl, hrow, -, rfl⟩
    · exact .inl ⟨rfl, rfl⟩
    · exact .inr ⟨copy.status, (statusOf_saveStatus hrow).trans (if_pos rfl), rfl⟩
  | receive =>
    rcases execJobs_receive h with ⟨k, -, -, rfl⟩ | ⟨k, -, -, rfl⟩ <;> exact .inl ⟨rfl, rfl⟩
  | getJob _ => exact .inl ⟨statusOf_fixed (execJobs_keeps rfl h).2.2 id, rfl⟩
  | now => exact .inl ⟨statusOf_fixed (execJobs_keeps rfl h).2.2 id, rfl⟩
  | saveResult _ _ => exact .inl ⟨statusOf_fixed (execJobs_keeps rfl h).2.2 id, rfl⟩
  | refreshCancelRequested _ => exact .inl ⟨statusOf_fixed (execJobs_keeps rfl h).2.2 id, rfl⟩
  | store _ _ => exact .inl ⟨statusOf_fixed (execJobs_keeps rfl h).2.2 id, rfl⟩
  | _ => exact hop.elim

theorem statusOf_cancelOp {op : JobOp} {r : op.Resp} (hop : cancelOp op)
    (h : execJobs op c v = some (r, w)) (id : Uuid) : statusOf w.jobs id = statusOf v.jobs id := by
  refine statusOf_fixed (execJobs_keeps ?_ h).2.2 id
  cases op with
  | getJob _ => rfl
  | requirePlatformOperator => rfl
  | saveCancelRequested _ => rfl
  | _ => exact hop.elim

theorem cancelOnly_start {i : Nat} {request : JobRequest}
    (h : cancelOnly (.start i request) = true) : ∃ id, request = .cancel id := by
  cases request with
  | cancel id => exact ⟨id, rfl⟩
  | _ => cases h

theorem Followed.set {i : Nat} {x : JobSession} (hs : Followed platform id s)
    (hconform : Sessions.Conform (fun _ => TaskAnswered id) (ExecutionRule platform id)
      (fun request l _ => request = .work → TaskEnd l) (s.set w i x))
    (hfound : ∃ status, statusOf w.jobs id = some status)
    (hworker : i = 0 → x.request = .work ∧ ∀ status, (taskView x.log).status = some status →
      statusOf w.jobs id = some status)
    (hother : i ≠ 0 → x.request ≠ .work ∧ statusOf w.jobs id = statusOf s.world.jobs id) :
    Followed platform id (s.set w i x) := by
  refine ⟨hconform, hfound, ?_, fun j y hj hy => ?_⟩
  · by_cases h0 : i = 0
    · subst h0
      exact ⟨x, Sessions.set_self, hworker rfl⟩
    · obtain ⟨y, hy, hrequest, hstatus⟩ := hs.worker
      refine ⟨y, by simpa [Sessions.set, Ne.symm h0] using hy, hrequest, fun status hlast => ?_⟩
      exact (hother h0).2.trans (hstatus status hlast)
  · rcases Sessions.set_sessions hy with ⟨rfl, rfl⟩ | ⟨-, hy⟩
    · exact (hother hj).1
    · exact hs.others j y hj hy

theorem Followed.rule {i : Nat} {x : JobSession} {op : JobOp} {k : op.Resp → JobProg Reply}
    (hs : Followed platform id s) (hx : s.sessions i = some x) (hprog : x.prog = .call op k) :
    (i = 0 ∧ TaskRule platform id x.log op) ∨ (i ≠ 0 ∧ x.request ≠ .work ∧ cancelOp op) := by
  have hrule := hs.conform.rule hx hprog
  by_cases hi : i = 0
  · subst hi
    obtain ⟨y, hy, hwork, -⟩ := hs.worker
    obtain rfl := Option.some.inj (hy.symm.trans hx)
    rw [hwork] at hrule
    exact .inl ⟨rfl, hrule⟩
  · have hrequest := hs.others i x hi hx
    refine .inr ⟨hi, hrequest, ?_⟩
    cases hreq : x.request with
    | work => exact absurd hreq hrequest
    | _ =>
      rw [hreq] at hrule
      exact hrule

theorem Followed.next {e : OpsEvent} (hs : Followed platform id s) (hok : cancelOnly e = true)
    (h : s.next platform e = some t) : Followed platform id t := by
  have hrow : ∃ row, findJob s.world.jobs id = some row :=
    let ⟨status, hstatus⟩ := hs.found
    let ⟨row, hrow, _⟩ := Option.map_eq_some_iff.mp hstatus
    ⟨row, hrow⟩
  have hconform := hs.conform.next
    (fun i request hstart => by
      subst hstart
      obtain ⟨id', rfl⟩ := cancelOnly_start hok
      exact ((issues_migrationJobCancel id').along (K := fun _ => True) trivial
        fun _ _ _ hop => ⟨hop, fun _ _ => trivial⟩).imp fun _ _ _ => nofun)
    (fun _ _ _ _ _ _ _ _ _ _ hexec => taskAnswered_of_found hrow hexec) h
  obtain ⟨x₀, hx₀, hwork, hstatus⟩ := hs.worker
  rcases Sessions.next_cases h with ⟨i, request, rfl, hi, rfl⟩ |
    ⟨i, c, x, op, k, r, w, rfl, hx, -, hprog, hexec, rfl⟩ | ⟨i, x, rfl, hx, rfl⟩
  · obtain ⟨id', rfl⟩ := cancelOnly_start hok
    refine hs.set hconform hs.found (fun h0 => ?_) fun _ => ⟨nofun, rfl⟩
    rw [h0, hx₀] at hi
    cases hi
  · obtain ⟨status, hfound⟩ := hs.found
    rcases hs.rule hx hprog with ⟨rfl, hrule⟩ | ⟨hi, hrequest, hop⟩
    · obtain rfl := Option.some.inj (hx₀.symm.trans hx)
      rcases hrule.statusOf hexec with ⟨hsame, hview⟩ | ⟨status', hsaved, hview⟩
      · refine hs.set hconform ⟨status, hsame.trans hfound⟩ (fun _ => ⟨hwork, ?_⟩)
          fun h => absurd rfl h
        intro last hlast
        exact hsame.trans (hstatus last (hview.symm.trans hlast))
      · refine hs.set hconform ⟨status', hsaved⟩ (fun _ => ⟨hwork, ?_⟩) fun h => absurd rfl h
        intro last hlast
        exact hsaved.trans (hview.symm.trans hlast)
    · have hsame := statusOf_cancelOp hop hexec id
      exact hs.set hconform ⟨status, hsame.trans hfound⟩ (fun h => absurd h hi)
        fun _ => ⟨hrequest, hsame⟩
  · refine hs.set hconform hs.found (fun h0 => ?_) fun hi => ⟨hs.others i x hi hx, rfl⟩
    subst h0
    obtain rfl := Option.some.inj (hx₀.symm.trans hx)
    exact ⟨hwork, hstatus⟩

/-! What the task does once a request is saved. -/

/-- The task reads the request, whenever it reads. -/
def ReadsRequest (id : Uuid) : ∀ op : JobOp, op.Resp → Prop
  | .refreshCancelRequested id', r => id' = id → r = true
  | _, _ => True

/-- Either nothing was reported since the first `n` records were, or the batch that was then
begun is the last. -/
def TaskView.Narrow (n : Nat) (v : TaskView) : Prop :=
  v.counted = n ∨ (v.closed = true ∧ v.counted ≤ n + taskBatchSize)

theorem TaskView.Narrow.le {n : Nat} {v : TaskView} (h : v.Narrow n) :
    v.counted ≤ n + taskBatchSize := by
  rcases h with h | ⟨-, h⟩
  · exact h.le.trans (Nat.le_add_right _ _)
  · exact h

theorem TaskView.Narrow.counted {n : Nat} {v : TaskView} (h : v.Narrow n)
    (hopen : v.closed = false) : v.counted = n := by
  rcases h with h | ⟨hclosed, -⟩
  · exact h
  · rw [hopen] at hclosed
    cases hclosed

theorem TaskRule.narrow {n : Nat} {op : JobOp} {r : op.Resp} (hop : TaskRule platform id l op)
    (hr : ReadsRequest id op r) (h : (taskView l).Narrow n) :
    (taskView (l ++ [⟨op, r⟩])).Narrow n := by
  rw [taskView_append]
  cases op with
  | saveResult id' result =>
    have hadmits := hop.2
    unfold TaskView.Admits at hadmits
    split_ifs at hadmits with hclosed
    · rcases h with h | ⟨-, h⟩
      · exact .inl (hadmits.trans h)
      · exact .inr ⟨rfl, hadmits.le.trans h⟩
    · refine .inr ⟨rfl, ?_⟩
      rcases h with h | ⟨h, -⟩
      · rwa [h] at hadmits
      · exact absurd h hclosed
  | refreshCancelRequested id' =>
    obtain rfl : r = true := hr hop
    exact h.imp (fun h => h) fun h => ⟨rfl, h.2⟩
  | saveStatus fields copy =>
    cases r <;> exact h
  | _ => exact h

/-- The calls after `l` that the rule of the task allows, and that read the request. -/
def Continues (platform : Platform) (id : Uuid) (l later : JobLog) : Prop :=
  (∀ a op r b, later = a ++ ⟨op, r⟩ :: b → TaskRule platform id (l ++ a) op) ∧
    ∀ z ∈ later, ReadsRequest id z.1 z.2

theorem Continues.left {l a b : JobLog} (h : Continues platform id l (a ++ b)) :
    Continues platform id l a := by
  refine ⟨fun a' op r b' ha => h.1 a' op r (b' ++ b) ?_,
    fun z hz => h.2 z (List.mem_append_left _ hz)⟩
  rw [ha, List.append_assoc, List.cons_append]

theorem Continues.last {l a : JobLog} {call : Call JobSig}
    (h : Continues platform id l (a ++ [call])) :
    TaskRule platform id (l ++ a) call.1 ∧ ReadsRequest id call.1 call.2 :=
  ⟨h.1 a call.1 call.2 [] rfl, h.2 call (List.mem_append_right _ (List.mem_singleton.mpr rfl))⟩

theorem Continues.narrow {l later : JobLog} (h : Continues platform id l later) :
    (taskView (l ++ later)).Narrow (taskView l).counted := by
  induction later using List.reverseRecOn with
  | nil =>
    rw [List.append_nil]
    exact .inl rfl
  | append_singleton a call ih =>
    rw [← List.append_assoc]
    exact TaskRule.narrow h.last.1 h.last.2 (ih h.left)

theorem Continues.asked {l later : JobLog} (h : Continues platform id l later)
    (hread : ∃ asked, (⟨.refreshCancelRequested id, asked⟩ : Call JobSig) ∈ later) :
    (taskView (l ++ later)).asked = some true := by
  induction later using List.reverseRecOn with
  | nil =>
    obtain ⟨asked, hmem⟩ := hread
    cases hmem
  | append_singleton a call ih =>
    obtain ⟨asked, hmem⟩ := hread
    obtain ⟨hrule, hreads⟩ := h.last
    obtain ⟨op, r⟩ := call
    rw [← List.append_assoc, taskView_append]
    have hlast : op ≠ .refreshCancelRequested id →
        (⟨.refreshCancelRequested id, asked⟩ : Call JobSig) ∈ a := fun hne =>
      (List.mem_append.mp hmem).resolve_right fun h => hne (by cases List.mem_singleton.mp h; rfl)
    cases op with
    | refreshCancelRequested id' =>
      obtain rfl : r = true := hreads hrule
      rfl
    | saveStatus fields copy => cases r <;> exact ih h.left ⟨asked, hlast nofun⟩
    | _ => exact ih h.left ⟨asked, hlast nofun⟩

theorem Followed.cancelAsked {e : OpsEvent} (hs : Followed platform id s)
    (h : s.next platform e = some t) (hasked : CancelAsked id s.world) :
    CancelAsked id t.world := by
  rcases Sessions.next_cases h with ⟨i, request, -, -, rfl⟩ |
    ⟨i, c, x, op, k, r, w, -, hx, -, hprog, hexec, rfl⟩ | ⟨i, x, -, -, rfl⟩
  · exact hasked
  · rcases hs.rule hx hprog with ⟨-, hrule⟩ | ⟨-, -, hop⟩
    · exact cancelAsked_iff.mpr ((hrule.flagOf hexec id).trans (cancelAsked_iff.mp hasked))
    · exact (asks_cancelOp hop hexec).cancelAsked hasked
  · exact hasked

theorem readsRequest_of_cancelAsked {op : JobOp} {r : op.Resp} (hasked : CancelAsked id v)
    (h : execJobs op c v = some (r, w)) : ReadsRequest id op r := by
  cases op with
  | refreshCancelRequested id' =>
    rintro rfl
    obtain ⟨row, hrow, hflag⟩ := hasked
    obtain ⟨-, row', hrow', rfl⟩ := execJobs_refreshCancelRequested h
    rwa [← Option.some.inj (hrow.symm.trans hrow')]
  | _ => trivial

/-- A cancellation that is saved while the task of a job executes is not lost: no save of the
task writes the flag; where it was saved before the task read it for the last time, the job
ends CANCELLED unless the pass raised; and the records dealt with after it was saved are
among the `taskBatchSize` records that follow those reported. -/
theorem cancel_request_kept (platform : Platform) {w : OpsWorld} {job : RawPayloadMigrationJob}
    (hjob : findJob w.jobs job.id = some job) (task : Uuid) {s t : Ops}
    (hs : Reaches (Ops.next platform) (fun _ e => cancelOnly e = true)
      (executing platform w job.id task) s)
    (ht : Reaches (Ops.next platform) (fun _ e => cancelOnly e = true) s t)
    {x y : JobSession} (hx : s.sessions 0 = some x) (hy : t.sessions 0 = some y) :
    (∀ c u, s.next platform (.step 0 c) = some u →
      ∀ id, flagOf u.world.jobs id = flagOf s.world.jobs id) ∧
    (CancelAsked job.id s.world → CancelAsked job.id t.world ∧
      ∃ later, y.log = x.log ++ later ∧
        ((∃ asked, (⟨.refreshCancelRequested job.id, asked⟩ : Call JobSig) ∈ later) →
          y.prog.pending = false →
          (∀ copy r, (⟨.saveStatus .failure copy, r⟩ : Call JobSig) ∉ y.log) →
          statusOf t.world.jobs job.id = some .cancelled) ∧
        (∀ result r, (⟨.saveResult job.id result, r⟩ : Call JobSig) ∈ later →
          result.recordsInspected ≤ (taskView x.log).counted + taskBatchSize) ∧
        ∀ schemaName op r, (⟨.store schemaName op, r⟩ : Call JobSig) ∈ later →
          op = .tenantUuid ∨ op = .selectRecords ∨
            OfBatch platform y.log (taskView x.log).counted schemaName op) := by
  have hfollow : ∀ u, Reaches (Ops.next platform) (fun _ e => cancelOnly e = true)
      (executing platform w job.id task) u → Followed platform job.id u := fun u hu =>
    hu.invariant (followed_executing hjob task) fun _ _ _ hi hok he => hi.next hok he
  have hs' := hfollow s hs
  have ht' := hfollow t (hs.trans ht)
  refine ⟨fun c u hu id => ?_, fun hasked => ?_⟩
  · rcases Sessions.next_cases hu with ⟨_, _, hstep, -⟩ |
      ⟨i, c', z, op, k, r, v, hstep, hz, -, hprog, hexec, rfl⟩ | ⟨_, _, hstep, -⟩
    · cases hstep
    · cases hstep
      rcases hs'.rule hz hprog with ⟨-, hrule⟩ | ⟨h0, -⟩
      · exact hrule.flagOf hexec id
      · exact absurd rfl h0
    · cases hstep
  · have hguarded : Reaches (Ops.next platform) (fun u _ => Followed platform job.id u) s t :=
      ht.restrict hs' (fun _ _ _ hi hok he => hi.next hok he) fun _ _ hi _ => hi
    obtain ⟨hkept, y', later, hy', hrequest, hlog, hreads⟩ := Sessions.later
      (B := ReadsRequest job.id) (K := CancelAsked job.id) hx hasked
      (fun _ _ _ hv hu he => hu.cancelAsked he hv)
      (fun _ _ _ _ _ hv hexec => readsRequest_of_cancelAsked hv hexec) hguarded
    obtain rfl := Option.some.inj (hy.symm.trans hy')
    obtain ⟨y', hy', hwork, hstatus⟩ := ht'.worker
    obtain rfl := Option.some.inj (hy.symm.trans hy')
    have hcontinues : Continues platform job.id x.log later := by
      refine ⟨fun a op r b hlater => ?_, hreads⟩
      have hrule := ((ht'.conform 0 y hy).2 (x.log ++ a) op r b
        (by rw [hlog, hlater, List.append_assoc])).1
      rwa [hwork] at hrule
    refine ⟨hkept, later, hlog, fun hread hend hnone => ?_, fun result r hmem => ?_,
      fun schemaName op r hmem => ?_⟩
    · have hfailed : (taskView y.log).failed = false := by
        refine Bool.eq_false_iff.mpr fun h => ?_
        obtain ⟨copy, r, hmem⟩ := taskView_failed h
        exact hnone copy r hmem
      obtain ⟨out, hout⟩ := ht'.conform.ended hy hend
      rw [hlog] at hout hfailed hstatus
      exact hstatus _ (hout hwork (hcontinues.asked hread) hfailed)
    · obtain ⟨a, b, rfl⟩ := List.append_of_mem hmem
      have hnarrow := TaskRule.narrow (r := r) (hcontinues.1 a _ _ b rfl) trivial
        hcontinues.left.narrow
      rw [taskView_append] at hnarrow
      exact hnarrow.le
    · obtain ⟨a, b, rfl⟩ := List.append_of_mem hmem
      rcases hcontinues.1 a _ _ b rfl with htenant | hselect | ⟨hopen, hbatch⟩
      · exact .inl htenant
      · exact .inr (.inl hselect)
      · rw [hcontinues.left.narrow.counted hopen] at hbatch
        refine .inr (.inr (hbatch.mono fun z hz => ?_))
        rw [hlog, ← List.append_assoc]
        exact List.mem_append_left _ hz

/-- The cancellation is saved after the records have been selected. -/
def cancelledMidway : List OpsEvent :=
  [.step 0 (.clock 0), .step 0 (.clock 0), .step 0 (.clock 0),
    .step 0 (.raw (.tenant (.ok ⟨1⟩))), .start 1 (.cancel ⟨6⟩), .step 0 (.raw (.done ⟨0⟩)),
    .step 1 (.clock 0), .step 1 (.clock 0), .step 1 (.clock 0)]

def cancelledEnd : List OpsEvent :=
  [.step 0 (.raw (.done ⟨0⟩)), .step 0 (.raw (.done ⟨0⟩)), .step 0 (.raw (.tenant (.ok ⟨1⟩))),
    .step 0 (.raw (.done ⟨0⟩)), .step 0 (.raw (.done ⟨0⟩)), .step 0 (.clock 0),
    .step 0 (.clock 0), .step 0 (.clock 0), .step 0 (.clock 0), .step 0 (.clock 0)]

def readsFlag (id : Uuid) : Call JobSig → Bool
  | ⟨.refreshCancelRequested id', _⟩ => id' = id
  | _ => false

def savesFailure : Call JobSig → Bool
  | ⟨.saveStatus .failure _, _⟩ => true
  | _ => false

theorem exists_read {l : JobLog} (h : l.any (readsFlag id) = true) :
    ∃ asked, (⟨.refreshCancelRequested id, asked⟩ : Call JobSig) ∈ l := by
  obtain ⟨⟨op, r⟩, hmem, hop⟩ := List.any_eq_true.mp h
  cases op with
  | refreshCancelRequested id' =>
    obtain rfl : id' = id := of_decide_eq_true hop
    exact ⟨r, hmem⟩
  | _ => cases hop

theorem cancel_request_kept_midway : ∃ s t : Ops,
    Reaches (Ops.next smallPlatform) (fun _ e => cancelOnly e = true)
      (executing smallPlatform legacyOps ⟨6⟩ ⟨5⟩) s ∧
    Reaches (Ops.next smallPlatform) (fun _ e => cancelOnly e = true) s t ∧
    CancelAsked ⟨6⟩ s.world ∧ statusOf t.world.jobs ⟨6⟩ = some .cancelled := by
  have hfinal : ((replay (Ops.next smallPlatform) (fun _ e => cancelOnly e = true)
      (executing smallPlatform legacyOps ⟨6⟩ ⟨5⟩) cancelledMidway).bind fun s =>
        (replay (Ops.next smallPlatform) (fun _ e => cancelOnly e = true) s cancelledEnd).map
          fun t => (flagOf s.world.jobs ⟨6⟩, (s.sessions 0).map fun x => x.log.length,
            (t.sessions 0).map fun y => (y.prog.pending, y.log.any savesFailure,
              (y.log.drop 6).any (readsFlag ⟨6⟩)))) =
      some (some true, some 6, some (false, false, true)) := by
    decide +kernel
  obtain ⟨s, hs, hrest⟩ := Option.bind_eq_some_iff.mp hfinal
  obtain ⟨t, ht, hend⟩ := Option.map_eq_some_iff.mp hrest
  obtain ⟨hflag, hend⟩ := Prod.mk.injEq _ _ _ _ ▸ hend
  obtain ⟨hsession, hend⟩ := Prod.mk.injEq _ _ _ _ ▸ hend
  obtain ⟨x, hx, hlength⟩ := Option.map_eq_some_iff.mp hsession
  obtain ⟨y, hy, hend⟩ := Option.map_eq_some_iff.mp hend
  obtain ⟨hpending, hend⟩ := Prod.mk.injEq _ _ _ _ ▸ hend
  obtain ⟨hfailure, hread⟩ := Prod.mk.injEq _ _ _ _ ▸ hend
  have hs' := Reaches.of_replay _ hs
  have ht' := Reaches.of_replay _ ht
  have hjob : findJob legacyOps.jobs legacyJob.id = some legacyJob := rfl
  have hasked : CancelAsked ⟨6⟩ s.world := cancelAsked_iff.mpr hflag
  obtain ⟨-, later, hlog, hcancelled, -⟩ :=
    (cancel_request_kept smallPlatform hjob ⟨5⟩ hs' ht' hx hy).2 hasked
  refine ⟨s, t, hs', ht', hasked, hcancelled (exists_read ?_) hpending fun copy r hmem => ?_⟩
  · rwa [hlog, ← hlength, List.drop_left] at hread
  · rw [List.any_eq_false] at hfailure
    exact hfailure _ hmem rfl

end DataLake
