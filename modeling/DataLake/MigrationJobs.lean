import DataLake.Foundation.Sessions
import DataLake.Orchestration
import DataLake.RawMigration
import DataLake.StoreService
import DataLake.PutRule

/-! The jobs of the operator's interface: the row of a migration job, the views that
start, retry and cancel one, and the task that executes it. -/

namespace DataLake

open Foundation

inductive JobStatus where
  | pending
  | running
  | succeeded
  | partiallyFailed
  | failed
  | cancelled
deriving DecidableEq

/-- `TERMINAL_STATUSES`. -/
def JobStatus.terminal : JobStatus → Bool
  | succeeded | partiallyFailed | failed | cancelled => true
  | pending | running => false

/-- The statuses that the constraint on active jobs names. -/
def JobStatus.active : JobStatus → Bool
  | pending | running => true
  | _ => false

structure OrganizationRow where
  id : Nat
  name : String
  schemaName : Text
deriving DecidableEq

structure RawPayloadMigrationJob where
  id : Uuid
  organization : OrganizationRow
  dryRun : Bool := true
  status : JobStatus := .pending
  celeryTaskId : Option Uuid := none
  cancelRequested : Bool := false
  startedAt : Option Nat := none
  finishedAt : Option Nat := none
  result : MigrationInspectionResult := {}
  errorMessage : Option String := none
  updatedAt : Nat := 0
deriving DecidableEq

/-- Fifteen minutes. -/
def staleJobThreshold : Nat := 900

def RawPayloadMigrationJob.isStale (job : RawPayloadMigrationJob) (now : Nat) : Bool :=
  job.status = .running && now - job.updatedAt > staleJobThreshold

/-- The saves that write the status. -/
inductive StatusFields where
  | started
  | failure
  | finished
deriving DecidableEq

def StatusFields.write (copy row : RawPayloadMigrationJob) : StatusFields → RawPayloadMigrationJob
  | started =>
    { row with
      status := copy.status
      celeryTaskId := copy.celeryTaskId
      startedAt := copy.startedAt }
  | failure =>
    { row with
      status := copy.status
      errorMessage := copy.errorMessage
      finishedAt := copy.finishedAt }
  | finished => { row with status := copy.status, finishedAt := copy.finishedAt }

structure JobMessage where
  job : Uuid
  task : Uuid
deriving DecidableEq

inductive JobAuditAction where
  | dryRunRequested
  | started
deriving DecidableEq

def auditAction (dryRun : Bool) : JobAuditAction := if dryRun then .dryRunRequested else .started

inductive JobOp where
  | getOrganization (id : Nat)
  | requirePlatformOperator
  | getJob (id : Uuid)
  | getActiveJob (organization : Nat)
  | createJob (organization : OrganizationRow) (dryRun : Bool)
  | saveStatus (fields : StatusFields) (copy : RawPayloadMigrationJob)
  | saveCancelRequested (copy : RawPayloadMigrationJob)
  | saveResult (job : Uuid) (result : MigrationInspectionResult)
  | refreshCancelRequested (job : Uuid)
  | now
  | recordAuditEvent (action : JobAuditAction) (target : Uuid)
  | delay (job : Uuid)
  | receive
  | store (schemaName : Text) (op : StoreOp)

/-- A creation is answered with no row where the constraint refuses it. -/
@[reducible] def JobOp.Resp : JobOp → Type
  | getOrganization _ => Option OrganizationRow
  | requirePlatformOperator => Except Exc Unit
  | getJob _ => Option RawPayloadMigrationJob
  | getActiveJob _ => Option RawPayloadMigrationJob
  | createJob _ _ => Option RawPayloadMigrationJob
  | saveStatus _ _ => Except Exc Unit
  | saveCancelRequested _ => Unit
  | saveResult _ _ => Unit
  | refreshCancelRequested _ => Bool
  | now => Nat
  | recordAuditEvent _ _ => Unit
  | delay _ => Except Exc Unit
  | receive => JobMessage
  | store _ op => op.Resp

abbrev JobSig : Signature := ⟨JobOp, JobOp.Resp⟩

abbrev JobProg (α : Type) := Prog JobSig Exc α

def jobCall (op : JobOp) : JobProg op.Resp := Prog.perform (S := JobSig) op

def integrityError : Exc :=
  .other "duplicate key value violates unique constraint one_active_raw_payload_migration_job_per_org"

/-! The service. -/

/-- The job, and whether this call created it. -/
def startMigrationJob (organization : OrganizationRow) (dryRun : Bool) :
    JobProg (RawPayloadMigrationJob × Bool) := do
  match ← jobCall (.getActiveJob organization.id) with
  | some active => return (active, false)
  | none =>
    match ← jobCall (.createJob organization dryRun) with
    | some job => return (job, true)
    | none =>
      -- Lost the race against a concurrent submission.
      match ← jobCall (.getActiveJob organization.id) with
      | some existing => return (existing, false)
      | none => .raise integrityError

def supersededMessage : String :=
  "marked cancelled: appeared stalled (no progress for longer than " ++
    "the configured staleness threshold) and was superseded by a manual retry"

def superseded (job : RawPayloadMigrationJob) : RawPayloadMigrationJob :=
  { job with
    status := .cancelled
    errorMessage := some supersededMessage
    finishedAt := some job.updatedAt }

def retryMigrationJob (job : RawPayloadMigrationJob) : JobProg (RawPayloadMigrationJob × Bool) :=
  if job.status = .running then do
    let now ← jobCall .now
    if !job.isStale now then
      raiseError (configurationError (s!"migration job {String.ofList job.id.text} is still " ++
        "running; wait for it to finish or cancel it"))
    else
      let saved ← jobCall (.saveStatus .failure (superseded job))
      let _ ← Prog.ofExcept saved
      startMigrationJob job.organization job.dryRun
  else startMigrationJob job.organization job.dryRun

def requestCancel (job : RawPayloadMigrationJob) : JobProg Unit :=
  if !job.status.active then
    raiseError (configurationError (s!"migration job {String.ofList job.id.text} is not running; " ++
      "cannot cancel it"))
  else jobCall (.saveCancelRequested { job with cancelRequested := true })

/-! The views. -/

/-- The job the operator is sent to, and the message shown there. -/
inductive Reply where
  | redirect (job : RawPayloadMigrationJob) (message : Option String)
  | done

def jobNotFound {α : Type} : JobProg α :=
  .raise (.other "No RawPayloadMigrationJob matches the given query.")

def migrationStart (orgId : Nat) (dryRun : Bool) : JobProg Reply := do
  match ← jobCall (.getOrganization orgId) with
  | none => .raise (.other "organization not found")
  | some organization =>
    let role ← jobCall .requirePlatformOperator
    let _ ← Prog.ofExcept role
    let (job, created) ← startMigrationJob organization dryRun
    if !created then
      return .redirect job (some (s!"An active migration job already exists for " ++
        s!"{organization.name} -- showing its progress instead of starting a new one."))
    else
      jobCall (.recordAuditEvent (auditAction dryRun) job.id)
      let sent ← jobCall (.delay job.id)
      let _ ← Prog.ofExcept sent
      return .redirect job none

def migrationJobRetry (jobId : Uuid) : JobProg Reply := do
  match ← jobCall (.getJob jobId) with
  | none => jobNotFound
  | some job =>
    let role ← jobCall .requirePlatformOperator
    let _ ← Prog.ofExcept role
    (retryMigrationJob job).handle
      (fun result => do
        -- Whether the job is new is not looked at.
        jobCall (.recordAuditEvent (auditAction result.1.dryRun) result.1.id)
        let sent ← jobCall (.delay result.1.id)
        let _ ← Prog.ofExcept sent
        return .redirect result.1 none)
      fun e =>
        match e with
        | .dataLake e =>
          if e.category = "ConfigurationError" then .ret (.redirect job (some e.message))
          else raiseError e
        | .other message => .raise (.other message)

def migrationJobCancel (jobId : Uuid) : JobProg Reply := do
  match ← jobCall (.getJob jobId) with
  | none => jobNotFound
  | some job =>
    let role ← jobCall .requirePlatformOperator
    let _ ← Prog.ofExcept role
    (requestCancel job).handle (fun _ => .ret (.redirect job none)) fun e =>
      match e with
      | .dataLake e =>
        if e.category = "ConfigurationError" then .ret (.redirect job (some e.message))
        else raiseError e
      | .other message => .raise (.other message)

/-! The task. -/

/-- The callbacks of the pass are the task's own. -/
def taskOp (job : RawPayloadMigrationJob) : StoreOp → JobOp
  | .progressCallback result => .saveResult job.id result
  | .cancelCheck => .refreshCancelRequested job.id
  | op => .store job.organization.schemaName op

def taskAnswer (job : RawPayloadMigrationJob) : ∀ op, (taskOp job op).Resp → op.Resp
  | .tenantUuid => id
  | .putIfAbsent _ _ => id
  | .putObject _ _ => id
  | .headObject _ => id
  | .getObject _ => id
  | .getOrCreateRecord _ => id
  | .saveLoaded _ => id
  | .selectRecords => id
  | .saveStorageUri _ _ => id
  | .progressCallback _ => id
  | .cancelCheck => id

def migrationPass (platform : Platform) (job : RawPayloadMigrationJob) :
    JobProg MigrationInspectionResult :=
  (runRawPayloadMigration platform.bucket job.organization.schemaName
    { dryRun := job.dryRun, progressCallback := true, cancelCheck := true }).embed (T := JobSig)
      (taskOp job) (taskAnswer job)

def Exc.text : Exc → String
  | .dataLake e => e.message
  | .other message => message

def failJob (platform : Platform) (job : RawPayloadMigrationJob) (e : Exc) : JobProg Unit := do
  let now ← jobCall .now
  let saved ← jobCall (.saveStatus .failure { job with
    status := .failed
    errorMessage := some (sanitizeErrorMessage platform e.text)
    finishedAt := some now })
  Prog.ofExcept saved

def finalStatus (cancelRequested dryRun : Bool) (result : MigrationInspectionResult) : JobStatus :=
  if cancelRequested then .cancelled
  else if dryRun then .succeeded
  else if result.missingObjects ≠ 0 || result.checksumConflicts ≠ 0 then .partiallyFailed
  else .succeeded

def finishJob (job : RawPayloadMigrationJob) (result : MigrationInspectionResult) :
    JobProg Unit := do
  jobCall (.saveResult job.id result)
  let cancelRequested ← jobCall (.refreshCancelRequested job.id)
  let now ← jobCall .now
  let saved ← jobCall (.saveStatus .finished { job with
    status := finalStatus cancelRequested job.dryRun result
    finishedAt := some now })
  Prog.ofExcept saved

def startedJob (job : RawPayloadMigrationJob) (task : Uuid) (now : Nat) :
    RawPayloadMigrationJob :=
  { job with status := .running, celeryTaskId := some task, startedAt := some now }

def runRawPayloadMigrationTask (platform : Platform) (jobId task : Uuid) : JobProg Unit := do
  match ← jobCall (.getJob jobId) with
  | none => .raise (.other "RawPayloadMigrationJob matching query does not exist.")
  | some job =>
    let now ← jobCall .now
    let saved ← jobCall (.saveStatus .started (startedJob job task now))
    let _ ← Prog.ofExcept saved
    (migrationPass platform (startedJob job task now)).handle
      (finishJob (startedJob job task now)) (failJob platform (startedJob job task now))

def worker (platform : Platform) : JobProg Reply := do
  let message ← jobCall .receive
  runRawPayloadMigrationTask platform message.job message.task
  return .done

inductive JobRequest where
  | start (orgId : Nat) (dryRun : Bool)
  | retry (job : Uuid)
  | cancel (job : Uuid)
  | work
deriving DecidableEq

def JobRequest.program (platform : Platform) : JobRequest → JobProg Reply
  | start orgId dryRun => migrationStart orgId dryRun
  | retry job => migrationJobRetry job
  | cancel job => migrationJobCancel job
  | work => worker platform

/-! The database, the broker and the store. -/

structure OpsWorld where
  organizations : List OrganizationRow
  tenantUuids : Text → Uuid
  jobs : List RawPayloadMigrationJob := []
  queue : List JobMessage := []
  delivered : List JobMessage := []
  audit : List (JobAuditAction × Uuid) := []
  bucket : Bucket := fun _ => none
  records : Text → List RawPayloadRecord := fun _ => []

/-- The store as it is seen from a schema. -/
def OpsWorld.storeIn (w : OpsWorld) (schemaName : Text) : StoreWorld :=
  ⟨w.bucket, w.records schemaName⟩

def OpsWorld.withStore (w : OpsWorld) (schemaName : Text) (store : StoreWorld) : OpsWorld :=
  { w with
    bucket := store.bucket
    records := Function.update w.records schemaName store.records }

/-- What the environment decides about a call: the clock, the identifier of a new row or
task, a failure, or which message is delivered. -/
inductive OpsAnswer where
  | clock (now : Nat)
  | fresh (id : Uuid) (now : Nat)
  | fail (e : Exc)
  | message (k : Nat)
  | again (k : Nat)
  | raw (a : StoreAnswer)

def findJob (jobs : List RawPayloadMigrationJob) (id : Uuid) : Option RawPayloadMigrationJob :=
  jobs.find? fun job => job.id = id

def activeJob (jobs : List RawPayloadMigrationJob) (organization : Nat) :
    Option RawPayloadMigrationJob :=
  jobs.reverse.find? fun job => job.organization.id = organization && job.status.active

/-- The constraint allows no active row for the organization under the identifier. -/
def hasOtherActive (jobs : List RawPayloadMigrationJob) (id : Uuid) (organization : Nat) : Bool :=
  jobs.any fun job => job.id ≠ id && job.organization.id = organization && job.status.active

def noRowsAffected : Exc := .other "Save with update_fields did not affect any rows."

def savedRow (id : Uuid) (now : Nat) (f : RawPayloadMigrationJob → RawPayloadMigrationJob)
    (job : RawPayloadMigrationJob) : RawPayloadMigrationJob :=
  if job.id = id then { f job with updatedAt := now } else job

def updateJob (id : Uuid) (now : Nat) (f : RawPayloadMigrationJob → RawPayloadMigrationJob)
    (jobs : List RawPayloadMigrationJob) : List RawPayloadMigrationJob :=
  jobs.map (savedRow id now f)

def execJobs : Exec JobSig OpsAnswer OpsWorld
  | .getOrganization id, .clock _, w => some (w.organizations.find? fun org => org.id = id, w)
  | .requirePlatformOperator, .clock _, w => some (.ok (), w)
  | .requirePlatformOperator, .fail e, w => some (.error e, w)
  | .getJob id, .clock _, w => some (findJob w.jobs id, w)
  | .getActiveJob organization, .clock _, w => some (activeJob w.jobs organization, w)
  | .createJob organization dryRun, .fresh id now, w =>
    if id ∈ w.jobs.map RawPayloadMigrationJob.id then none
    else
      let job : RawPayloadMigrationJob := { id, organization, dryRun, updatedAt := now }
      if hasOtherActive w.jobs id organization.id then some (none, w)
      else some (some job, { w with jobs := w.jobs ++ [job] })
  | .saveStatus fields copy, .clock now, w =>
    match findJob w.jobs copy.id with
    | none => some (.error noRowsAffected, w)
    | some row =>
      if copy.status.active && hasOtherActive w.jobs copy.id row.organization.id then
        some (.error integrityError, w)
      else some (.ok (), { w with jobs := updateJob copy.id now (fields.write copy) w.jobs })
  | .saveCancelRequested copy, .clock now, w =>
    let f (job : RawPayloadMigrationJob) := { job with cancelRequested := copy.cancelRequested }
    some ((), { w with jobs := updateJob copy.id now f w.jobs })
  | .saveResult job result, .clock now, w =>
    some ((), { w with jobs := updateJob job now (fun job => { job with result }) w.jobs })
  | .refreshCancelRequested job, .clock _, w =>
    (findJob w.jobs job).map fun row => (row.cancelRequested, w)
  | .now, .clock now, w => some (now, w)
  | .recordAuditEvent action target, .clock _, w =>
    some ((), { w with audit := w.audit ++ [⟨action, target⟩] })
  | .delay job, .fresh task _, w =>
    some (.ok (), { w with queue := w.queue ++ [⟨job, task⟩] })
  | .delay _, .fail e, w => some (.error e, w)
  | .receive, .message k, w =>
    (w.queue[k]?).map fun m =>
      (m, { w with queue := w.queue.eraseIdx k, delivered := w.delivered ++ [m] })
  | .receive, .again k, w => (w.delivered[k]?).map fun m => (m, w)
  | .store schemaName op, .raw a, w =>
    if underTenant (w.tenantUuids schemaName) a then
      (execStore op a (w.storeIn schemaName)).map fun x => (x.1, w.withStore schemaName x.2)
    else none
  | _, _, _ => none

abbrev Ops := Sessions JobSig Exc Reply JobRequest OpsWorld

abbrev OpsEvent := SessionEvent OpsAnswer JobRequest

/-- The steps of the operator's interface, of the workers and of the broker. -/
def Ops.next (platform : Platform) : Ops → OpsEvent → Option Ops :=
  Sessions.next (JobRequest.program platform) execJobs

end DataLake
