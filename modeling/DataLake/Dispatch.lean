import DataLake.Foundation.Pool
import DataLake.Orchestration
import DataLake.RunService

/-! Creating and enqueuing a run: the dispatch service and its two callers, the
operator's view and the management command. -/

namespace DataLake

open Foundation

/-- A task message: which run, under which task id, after how many retries. -/
structure Message where
  run : Uuid
  task : Uuid
  retries : Nat := 0
deriving DecidableEq

inductive AuditAction where
  | continuationReused
  | continuationRequested
  | continuationCreated
deriving DecidableEq

inductive DispatchOp where
  | requireOrgRole
  | getPipeline (id : Uuid)
  | getRun (id : Uuid)
  | existingContinuation (run : Uuid)
  | recordAuditEvent (action : AuditAction) (target : Uuid)
  | uuid4
  | getOrCreate (key : Text) (defaults : PipelineRun)
  | delay (run : Uuid)

@[reducible] def DispatchOp.Resp : DispatchOp → Type
  | requireOrgRole => Except Exc Unit
  | getPipeline _ => Option Pipeline
  | getRun _ => Option PipelineRun
  | existingContinuation _ => Option PipelineRun
  | recordAuditEvent _ _ => Unit
  | uuid4 => Uuid
  | getOrCreate _ _ => PipelineRun × Bool
  | delay _ => Except Exc Unit

abbrev DispatchSig : Signature := ⟨DispatchOp, DispatchOp.Resp⟩

abbrev DispatchProg (α : Type) := Prog DispatchSig Exc α

def dispatchCall (op : DispatchOp) : DispatchProg op.Resp := Prog.perform (S := DispatchSig) op

def continuableErrorCategory : String := "PageLimitExceededError"

def isContinuable (run : PipelineRun) : Bool :=
  run.status = .failed && run.errorCategory = some continuableErrorCategory

/-- The two checks of `trigger_manual_run` on the run it continues. -/
def checkContinueFrom (pipeline : Pipeline) (run : PipelineRun) : Except DataLakeError Unit :=
  if run.pipeline ≠ pipeline.id then
    .error (configurationError (s!"cannot continue run {String.ofList run.id.text}: it belongs " ++
      "to a different pipeline"))
  else if !isContinuable run then
    let category := run.errorCategory.elim "None" fun c => pyRepr c.toList
    .error (configurationError (s!"cannot continue run {String.ofList run.id.text}: only a run " ++
      s!"FAILED with {pyRepr continuableErrorCategory.toList} carries a safe resume point " ++
      s!"(status={pyRepr run.status.text.toList}, error_category=" ++
      s!"{category})"))
  else .ok ()

/-- The row that `get_or_create` inserts; its identifier is the database's. -/
def newRun (pipeline : Pipeline) (key : Text) (continueFrom : Option PipelineRun) : PipelineRun :=
  match continueFrom with
  | none => { id := ⟨0⟩, pipeline := pipeline.id, idempotencyKey := key }
  | some prior =>
    { id := ⟨0⟩
      pipeline := pipeline.id
      idempotencyKey := key
      continuedFrom := some prior.id
      lastSuccessfulCursor := prior.lastSuccessfulCursor
      pagesExtracted := prior.pagesExtracted
      recordsExtracted := prior.recordsExtracted
      recordsLoaded := prior.recordsLoaded
      rawPayloadCount := prior.rawPayloadCount }

def freshKey (pipeline : Pipeline) (u : Uuid) : Text :=
  "manual-".toList ++ pipeline.id.text ++ '-' :: u.hex

/-- What follows `get_or_create`. -/
def enqueue (pipeline : Pipeline) (key : Text) (run : PipelineRun) (created : Bool) :
    DispatchProg (PipelineRun × Bool) :=
  if !created && run.pipeline ≠ pipeline.id then
    raiseError (configurationError (s!"idempotency_key {pyRepr key} is already in use by a run " ++
      "of a different pipeline"))
  else if !created && run.status ≠ .pending then
    return (run, false)
  else do
    let sent ← dispatchCall (.delay run.id)
    let _ ← Prog.ofExcept sent
    return (run, true)

def createAndEnqueue (pipeline : Pipeline) (continueFrom : Option PipelineRun) (key : Text) :
    DispatchProg (PipelineRun × Bool) := do
  let (run, created) ← dispatchCall (.getOrCreate key (newRun pipeline key continueFrom))
  enqueue pipeline key run created

/-- The part of `trigger_manual_run` after the checks. -/
def createKeyed (pipeline : Pipeline) (continueFrom : Option PipelineRun) :
    Option Text → DispatchProg (PipelineRun × Bool)
  | some (c :: cs) => createAndEnqueue pipeline continueFrom (c :: cs)
  | _ => do
    let u ← dispatchCall .uuid4
    createAndEnqueue pipeline continueFrom (freshKey pipeline u)

def triggerManualRun (pipeline : Pipeline) (idempotencyKey : Option Text)
    (continueFrom : Option PipelineRun) : DispatchProg (PipelineRun × Bool) := do
  if !pipeline.isActive then
    raiseError (configurationError s!"pipeline {String.ofList pipeline.id.text} is not active")
  else
    match continueFrom with
    | some prior => Prog.ofExcept ((checkContinueFrom pipeline prior).mapError Exc.dataLake)
    | none => pure ()
    createKeyed pipeline continueFrom idempotencyKey

/-- Where the view sends the operator, and what it says there. -/
structure Redirect where
  run : Uuid
  message : String

def notFound404 {α : Type} (name : String) : DispatchProg α :=
  .raise (.other s!"No {name} matches the given query.")

def runContinue (pipelineId runId : Uuid) : DispatchProg Redirect := do
  let role ← dispatchCall .requireOrgRole
  let _ ← Prog.ofExcept role
  match ← dispatchCall (.getPipeline pipelineId) with
  | none => notFound404 "Pipeline"
  | some pipeline =>
    match (← dispatchCall (.getRun runId)).filter fun run => run.pipeline = pipeline.id with
    | none => notFound404 "PipelineRun"
    | some failedRun =>
      match ← dispatchCall (.existingContinuation failedRun.id) with
      | some existing =>
        dispatchCall (.recordAuditEvent .continuationReused existing.id)
        return ⟨existing.id, "A continuation run already exists for this failed run."⟩
      | none =>
        dispatchCall (.recordAuditEvent .continuationRequested failedRun.id)
        (triggerManualRun pipeline none (some failedRun)).handle
          (fun result => do
            dispatchCall (.recordAuditEvent .continuationCreated result.1.id)
            return ⟨result.1.id,
              s!"Continuation run {String.ofList result.1.id.text} dispatched."⟩)
          fun e =>
            match e with
            | .dataLake e =>
              if e.category = "ConfigurationError" then .ret ⟨failedRun.id, e.message⟩
              else raiseError e
            | .other message => .raise (.other message)

structure CommandOptions where
  schema : Text
  pipelineId : Uuid
  idempotencyKey : Option Text := none
  continueFrom : Option Uuid := none

def commandError {α : Type} (message : String) : DispatchProg α := .raise (.other message)

def continueFromOption (options : CommandOptions) : DispatchProg (Option PipelineRun) := do
  match options.continueFrom with
  | none => return none
  | some runId =>
    match ← dispatchCall (.getRun runId) with
    | none =>
      commandError (s!"No PipelineRun with id {pyRepr runId.text} in schema " ++
        s!"{pyRepr options.schema}")
    | some run => return some run

/-- `Command.handle`; the result is what it prints. -/
def handle (options : CommandOptions) : DispatchProg String := do
  match ← dispatchCall (.getPipeline options.pipelineId) with
  | none =>
    commandError (s!"No pipeline with id {pyRepr options.pipelineId.text} in schema " ++
      s!"{pyRepr options.schema}")
  | some pipeline =>
    if !pipeline.isActive then
      commandError s!"Pipeline {String.ofList pipeline.id.text} is not active"
    else
      let continueFrom ← continueFromOption options
      (triggerManualRun pipeline options.idempotencyKey continueFrom).handle
        (fun result =>
          let verb := if result.2 then "dispatched" else "reused (not re-dispatched)"
          let note := continueFrom.elim "" fun run =>
            s!", continuing from run {String.ofList run.id.text}"
          .ret (s!"PipelineRun {String.ofList result.1.id.text} {verb} for pipeline " ++
            s!"{String.ofList pipeline.id.text} (schema={pyRepr options.schema}, " ++
            s!"idempotency_key={pyRepr result.1.idempotencyKey}){note}"))
        fun e =>
          match e with
          | .dataLake e =>
            if e.category = "ConfigurationError" then commandError e.message else raiseError e
          | .other message => .raise (.other message)

/-- What asks for a run: the view, the command, or another caller of the service. -/
inductive Request where
  | post (pipelineId runId : Uuid)
  | command (options : CommandOptions)
  | direct (pipeline : Pipeline) (idempotencyKey : Option Text) (continueFrom : Option PipelineRun)

def Request.program : Request → DispatchProg Unit
  | post pipelineId runId => (runContinue pipelineId runId).discard
  | command options => (handle options).discard
  | direct pipeline key continueFrom => (triggerManualRun pipeline key continueFrom).discard

/-! The database and the broker. -/

structure DispatchWorld where
  runs : List PipelineRun
  queue : List Message := []
  issued : List Uuid := []
  audit : List (AuditAction × Uuid) := []

/-- The environment's part of an answer: an identifier, a row of the pipelines
table, or a failure. -/
inductive DispatchAnswer where
  | done
  | uuid (u : Uuid)
  | pipeline (p : Option Pipeline)
  | fail (e : Exc)

def findKey (runs : List PipelineRun) (key : Text) : Option PipelineRun :=
  runs.find? fun row => row.idempotencyKey = key

def execDispatch : Exec DispatchSig DispatchAnswer DispatchWorld
  | .requireOrgRole, .done, w => some (.ok (), w)
  | .requireOrgRole, .fail e, w => some (.error e, w)
  | .getPipeline id, .pipeline p, w =>
    if p.all fun pipeline => pipeline.id = id then some (p, w) else none
  | .getRun id, .done, w => some (findRun w.runs id, w)
  | .existingContinuation run, .done, w =>
    some (w.runs.reverse.find? fun row => row.continuedFrom = some run, w)
  | .recordAuditEvent action target, .done, w =>
    some ((), { w with audit := w.audit ++ [(action, target)] })
  | .uuid4, .uuid u, w => some (u, w)
  | .getOrCreate key defaults, .uuid fresh, w =>
    match findKey w.runs key with
    | some row => some ((row, false), w)
    | none =>
      if fresh ∈ w.runs.map PipelineRun.id then none
      else
        let row := { defaults with id := fresh }
        some ((row, true), { w with runs := w.runs ++ [row] })
  | .delay run, .uuid task, w =>
    if task ∈ w.issued then none
    else some (.ok (), { w with queue := w.queue ++ [⟨run, task, 0⟩], issued := w.issued ++ [task] })
  | .delay _, .fail e, w => some (.error e, w)
  | _, _, _ => none

theorem execDispatch_runs {op : DispatchOp} {c : DispatchAnswer} {w w' : DispatchWorld}
    {r : op.Resp} (h : execDispatch op c w = some (r, w')) :
    w'.runs = w.runs ∨ ∃ key defaults fresh, op = .getOrCreate key defaults ∧
      findKey w.runs key = none ∧ fresh ∉ w.runs.map PipelineRun.id ∧
      w'.runs = w.runs ++ [{ defaults with id := fresh }] := by
  cases op with
  | getOrCreate key defaults =>
    cases c with
    | uuid fresh =>
      simp only [execDispatch] at h
      split at h
      · cases h
        exact .inl rfl
      · rename_i hkey
        split_ifs at h with hfresh
        cases h
        exact .inr ⟨key, defaults, fresh, rfl, hkey, hfresh, rfl⟩
    | _ => cases h
  | delay run =>
    left
    cases c with
    | uuid task =>
      simp only [execDispatch] at h
      split_ifs at h
      cases h
      rfl
    | fail e =>
      cases h
      rfl
    | _ => cases h
  | getPipeline id =>
    left
    cases c with
    | pipeline p =>
      simp only [execDispatch] at h
      split_ifs at h
      cases h
      rfl
    | _ => cases h
  | _ => cases c <;> cases h <;> exact .inl rfl

/-- A key that is taken leaves the table as it is; a new one adds a row. -/
def Dispatched (pipeline : Pipeline) (continueFrom : Option PipelineRun) (w : DispatchWorld)
    (out : Except Exc (PipelineRun × Bool)) (v : DispatchWorld) : Prop :=
  (v.runs = w.runs ∧ ∀ new sent, out = .ok (new, sent) → new ∈ w.runs) ∨
  ∃ key fresh, fresh ∉ w.runs.map PipelineRun.id ∧
    v.runs = w.runs ++ [{ newRun pipeline key continueFrom with id := fresh }] ∧
    ∀ new sent, out = .ok (new, sent) → new = { newRun pipeline key continueFrom with id := fresh }

theorem safe_dispatchCall {α : Type} {G : DispatchWorld → DispatchWorld → Prop}
    {Q : Except Exc α → DispatchWorld → Prop} {op : DispatchOp} {f : op.Resp → DispatchProg α}
    {w : DispatchWorld}
    (h : ∀ c r v, execDispatch op c w = some (r, v) →
      G w v ∧ (f r).Safe execDispatch Eq G Q v) :
    (dispatchCall op >>= f).Safe execDispatch Eq G Q w := by
  intro u hu c r v he
  subst hu
  exact h c r v he

theorem enqueue_safe (pipeline : Pipeline) (key : Text) (run : PipelineRun) (created : Bool)
    (w : DispatchWorld) :
    (enqueue pipeline key run created).Safe execDispatch Eq (fun _ _ => True)
      (fun out v => v.runs = w.runs ∧ ∀ new sent, out = .ok (new, sent) → new = run) w := by
  unfold enqueue
  split_ifs
  · rintro _ rfl
    exact ⟨rfl, fun _ _ h => by cases h⟩
  · rintro _ rfl
    exact ⟨rfl, fun _ _ h => by cases h; rfl⟩
  · refine safe_dispatchCall fun c sent v he => ⟨trivial, ?_⟩
    have hruns : v.runs = w.runs := by
      rcases execDispatch_runs he with h | ⟨_, _, _, h, -⟩
      · exact h
      · cases h
    cases sent with
    | error e =>
      rintro _ rfl
      exact ⟨hruns, fun _ _ h => by cases h⟩
    | ok _ =>
      rintro _ rfl
      exact ⟨hruns, fun _ _ h => by cases h; rfl⟩

theorem createAndEnqueue_safe (pipeline : Pipeline) (continueFrom : Option PipelineRun)
    (key : Text) (w : DispatchWorld) :
    (createAndEnqueue pipeline continueFrom key).Safe execDispatch Eq (fun _ _ => True)
      (Dispatched pipeline continueFrom w) w := by
  refine safe_dispatchCall fun c r v he => ⟨trivial, ?_⟩
  refine (enqueue_safe pipeline key r.1 r.2 v).weaken fun out u ⟨hruns, hout⟩ => ?_
  cases c with
  | uuid fresh =>
    simp only [execDispatch] at he
    split at he
    · rename_i row hkey
      cases he
      refine .inl ⟨hruns, fun new sent h => ?_⟩
      rw [hout new sent h]
      exact List.mem_of_find?_eq_some hkey
    · split_ifs at he with hfresh
      cases he
      exact .inr ⟨key, fresh, hfresh, hruns, hout⟩
  | _ => cases he

theorem Dispatched.same {pipeline : Pipeline} {continueFrom : Option PipelineRun}
    {w : DispatchWorld} (e : Exc) : Dispatched pipeline continueFrom w (.error e) w :=
  .inl ⟨rfl, fun _ _ h => by cases h⟩

theorem triggerManualRun_safe (pipeline : Pipeline) (key : Option Text)
    (continueFrom : Option PipelineRun) (w : DispatchWorld) :
    (triggerManualRun pipeline key continueFrom).Safe execDispatch Eq (fun _ _ => True)
      (fun out v => Dispatched pipeline continueFrom w out v ∧
        ∀ prior, continueFrom = some prior → v.runs ≠ w.runs → isContinuable prior = true) w := by
  have hkey : (createKeyed pipeline continueFrom key).Safe execDispatch Eq (fun _ _ => True)
      (Dispatched pipeline continueFrom w) w := by
    unfold createKeyed
    split
    · exact createAndEnqueue_safe pipeline continueFrom _ w
    · refine safe_dispatchCall fun c u v he => ⟨trivial, ?_⟩
      obtain rfl : v = w := by
        cases c with
        | uuid _ => cases he; rfl
        | _ => cases he
      exact createAndEnqueue_safe pipeline continueFrom _ v
  unfold triggerManualRun
  split_ifs
  · rintro _ rfl
    exact ⟨.same _, fun _ _ h => absurd rfl h⟩
  · cases continueFrom with
    | none => exact hkey.weaken fun out v h => ⟨h, fun _ h => by cases h⟩
    | some prior =>
      dsimp only
      cases hcheck : checkContinueFrom pipeline prior with
      | error e =>
        rintro _ rfl
        exact ⟨.same _, fun _ _ h => absurd rfl h⟩
      | ok _ =>
        refine Prog.Safe.weaken (fun out v h => ⟨h, fun prior' h' _ => ?_⟩) hkey
        obtain rfl := Option.some.inj h'
        unfold checkContinueFrom at hcheck
        split_ifs at hcheck with hpipeline hcontinuable
        simpa using hcontinuable

end DataLake
