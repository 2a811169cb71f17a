import DataLake.ObjectKeys

/-! The row of a pipeline run, and the functions that change its status. A worker
holds a copy of the row and saves named fields of it. -/

namespace DataLake

open Foundation

inductive Status where
  | pending
  | running
  | succeeded
  | failed
deriving DecidableEq

def Status.text : Status → String
  | pending => "pending"
  | running => "running"
  | succeeded => "succeeded"
  | failed => "failed"

def Status.terminal : Status → Bool
  | succeeded | failed => true
  | pending | running => false

structure PipelineRun where
  id : Uuid
  pipeline : Uuid
  idempotencyKey : Text
  status : Status := .pending
  startedAt : Option Nat := none
  finishedAt : Option Nat := none
  continuedFrom : Option Uuid := none
  attempt : Nat := 0
  celeryTaskId : Option Uuid := none
  lastSuccessfulCursor : Option Text := none
  pagesExtracted : Nat := 0
  recordsExtracted : Nat := 0
  recordsLoaded : Nat := 0
  rawPayloadCount : Nat := 0
  errorCategory : Option String := none
  errorMessage : Option String := none
  errorIsRetryable : Option Bool := none
deriving DecidableEq

/-- Which fields a save writes: the `update_fields` of the source. -/
inductive RunFields where
  | claim
  | progress
  | outcome
  | error
deriving DecidableEq

/-- The row after `copy.save(update_fields=...)`. -/
def RunFields.write (copy row : PipelineRun) : RunFields → PipelineRun
  | claim =>
    { row with
      status := copy.status
      startedAt := copy.startedAt
      celeryTaskId := copy.celeryTaskId
      attempt := copy.attempt }
  | progress =>
    { row with
      pagesExtracted := copy.pagesExtracted
      recordsExtracted := copy.recordsExtracted
      recordsLoaded := copy.recordsLoaded
      rawPayloadCount := copy.rawPayloadCount
      lastSuccessfulCursor := copy.lastSuccessfulCursor }
  | outcome =>
    { row with
      status := copy.status
      finishedAt := copy.finishedAt
      errorCategory := copy.errorCategory
      errorMessage := copy.errorMessage
      errorIsRetryable := copy.errorIsRetryable }
  | error =>
    { row with
      errorCategory := copy.errorCategory
      errorMessage := copy.errorMessage
      errorIsRetryable := copy.errorIsRetryable }

/-- The table after a save of the fields of a copy. -/
def saveFields (fields : RunFields) (copy : PipelineRun) (runs : List PipelineRun) :
    List PipelineRun :=
  runs.map fun row => if row.id = copy.id then fields.write copy row else row

def claimedRow (row : PipelineRun) (taskId : Uuid) (now : Nat) : PipelineRun :=
  { row with
    startedAt := if row.status = .pending then row.startedAt <|> some now else row.startedAt
    status := .running
    celeryTaskId := some taskId
    attempt := row.attempt + 1 }

/-- What `claim_run` decides once it holds the lock of the row. -/
def claimRun (row : PipelineRun) (taskId : Uuid) (now : Nat) : Except DataLakeError PipelineRun :=
  if row.status.terminal then
    .error (runClaimRejected
      s!"pipeline run {String.ofList row.id.text} is already {row.status.text}")
  else if row.status = .running ∧ row.celeryTaskId ≠ some taskId then
    let owner := row.celeryTaskId.elim "None" fun t => pyRepr t.text
    .error (runClaimRejected (s!"pipeline run {String.ofList row.id.text} is already being " ++
      s!"executed (owning task {owner})"))
  else .ok (claimedRow row taskId now)

def rowNotFound (runId : Uuid) : DataLakeError :=
  runClaimRejected (s!"pipeline run {String.ofList runId.text} was not found, or is currently " ++
    "locked by another claim")

def markRunSucceeded (run : PipelineRun) (now : Nat) : Except DataLakeError PipelineRun :=
  if run.status ≠ .running then
    .error (invalidRunTransition (s!"cannot mark run {String.ofList run.id.text} succeeded " ++
      s!"from status {run.status.text}"))
  else
    .ok { run with
      status := .succeeded
      finishedAt := some now
      errorCategory := none
      errorMessage := none
      errorIsRetryable := none }

def withError (run : PipelineRun) (e : DataLakeError) : PipelineRun :=
  { run with
    errorCategory := some e.category
    errorMessage := some e.message
    errorIsRetryable := some e.retryable }

def markRunFailed (run : PipelineRun) (e : DataLakeError) (now : Nat) :
    Except DataLakeError PipelineRun :=
  if run.status ≠ .running then
    .error (invalidRunTransition (s!"cannot mark run {String.ofList run.id.text} failed " ++
      s!"from status {run.status.text}"))
  else .ok { withError run e with status := .failed, finishedAt := some now }

inductive TaskStatus where
  | pending
  | running
  | succeeded
  | failed
deriving DecidableEq

/-- One attempt at a run, as the history shows it. -/
structure TaskExecution where
  run : Uuid
  attempt : Nat
  startedAt : Nat
  status : TaskStatus := .running
  finishedAt : Option Nat := none
  errorMessage : Option String := none
deriving DecidableEq

/-! What a save leaves alone. -/

@[simp] theorem write_id (fields : RunFields) (copy row : PipelineRun) :
    (fields.write copy row).id = row.id := by
  cases fields <;> rfl

@[simp] theorem write_pipeline (fields : RunFields) (copy row : PipelineRun) :
    (fields.write copy row).pipeline = row.pipeline := by
  cases fields <;> rfl

theorem saveFields_ids (fields : RunFields) (copy : PipelineRun) (runs : List PipelineRun) :
    (saveFields fields copy runs).map PipelineRun.id = runs.map PipelineRun.id := by
  rw [saveFields, List.map_map]
  refine List.map_congr_left fun row _ => ?_
  simp only [Function.comp_apply]
  split_ifs <;> simp

theorem claimRun_ok {row run : PipelineRun} {taskId : Uuid} {now : Nat}
    (h : claimRun row taskId now = .ok run) :
    (row.status = .pending ∨ (row.status = .running ∧ row.celeryTaskId = some taskId)) ∧
    run = claimedRow row taskId now := by
  unfold claimRun at h
  split_ifs at h with hterminal howner
  refine ⟨?_, (Except.ok.inj h).symm⟩
  cases hs : row.status with
  | pending => exact .inl rfl
  | running =>
    refine .inr ⟨rfl, ?_⟩
    by_contra hne
    exact howner ⟨hs, hne⟩
  | succeeded => simp [hs, Status.terminal] at hterminal
  | failed => simp [hs, Status.terminal] at hterminal

end DataLake
