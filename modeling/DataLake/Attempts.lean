import DataLake.BodyCalls
import DataLake.Dispatch
import DataLake.Foundation.Transition
import DataLake.PutRule
import DataLake.RunService

/-! The attempts at a run, one after another, and the runs that continue it, on a source
that may answer differently each time. No worker dies. -/

namespace DataLake

open Foundation

/-- A call of `destination.load`: what the worker had received last, and what the store
held by then. -/
structure PageLoad where
  pipeline : Pipeline
  run : Uuid
  sequence : Nat
  received : Option (Int × Response)
  rows : List Row
  before : StoreWorld
  completed : Bool

structure StoredPage where
  run : Uuid
  sequence : Nat
  data : Bytes
deriving DecidableEq

/-- The world, with the pages stored and loaded so far. A page is stored when its write leaves an
object under its key. It is `storing` until its row is returned, and `lapsed` when the worker goes
on to something else before that, as it does when the storing has raised. `flagging` holds from the
save of a record's flag to that of the progress. -/
structure Watched where
  world : World
  received : Option (Int × Response) := none
  stored : List StoredPage := []
  storing : Option StoredPage := none
  lapsed : List StoredPage := []
  loads : List PageLoad := []
  flagging : Bool := false

def World.sequence (w : World) (run : Uuid) : Nat :=
  ((findRun w.runs run).map PipelineRun.pagesExtracted).getD 0 + 1

def Watched.left (t : Watched) : Watched :=
  { t with storing := none, lapsed := t.lapsed ++ t.storing.toList }

/-- A write of the page is over. -/
def Watched.written (t : Watched) (key : Text) (page : StoredPage) (w : World) : Watched :=
  if (w.store.bucket key).isSome then
    { t.left with world := w, stored := t.stored ++ [page], storing := some page }
  else { t with world := w }

def Watched.observe (t : Watched) (pipeline : Pipeline) (run : Uuid) :
    (op : RunOp) → op.Resp → World → Watched
  | .raw (.putIfAbsent key object), _, w | .raw (.putObject key object), _, w =>
    t.written key ⟨run, t.world.sequence run, object.body⟩ w
  | .raw (.getOrCreateRecord _), .ok _, w => { t with world := w, storing := none }
  | .raw (.saveLoaded _), _, w => { t with world := w, flagging := true }
  | .raw _, _, w => { t with world := w }
  | .send page, .ok response, w => { t.left with world := w, received := some (page, response) }
  | .load rows, answer, w =>
    { t.left with
      world := w
      loads := t.loads ++ [{
        pipeline, run, rows
        sequence := t.world.sequence run
        received := t.received
        before := t.world.store
        completed := match answer with | .ok _ => true | .error _ => false }] }
  | .saveRun .progress _, _, w => { t.left with world := w, flagging := false }
  | _, _, w => { t.left with world := w }

/-- The tenant stays the same, and the identifier of a new record is new. -/
def admissible (tenant : Uuid) (store : StoreWorld) : RunOp → RunAnswer → Bool
  | .raw (.getOrCreateRecord _), .raw (.done fresh)
  | .raw (.getOrCreateRecord _), .raw (.unheard fresh _) =>
    fresh ∉ store.records.map RawPayloadRecord.id
  | .raw _, .raw a => underTenant tenant a
  | _, _ => true

def execWatched (tenant : Uuid) (pipeline : Pipeline) (run : Uuid) :
    Exec RunSig RunAnswer Watched := fun op c t =>
  if admissible tenant t.world.store op c then
    (execRun op c t.world).map fun x => (x.1, t.observe pipeline run op x.1 x.2)
  else none

/-- The run, and what its worker still has to do, while there is one. `retried` tells whether
an attempt has ended and asked for another one. -/
structure Attempts where
  watched : Watched
  run : Uuid
  attempt : Option (Pipeline × Bool × RunProg Unit) := none
  retried : Bool := false

inductive AttemptsEvent where
  | deliver (pipeline : Pipeline) (task : Uuid) (isFinal : Bool) (now : Nat)
  | answer (c : RunAnswer)
  | finish
  | continueRun (pipeline : Pipeline) (idempotencyKey : Option Text)
      (policy : DispatchOp → DispatchAnswer)

namespace Attempts

def runs (s : Attempts) : List PipelineRun := s.watched.world.runs

def row (s : Attempts) : Option PipelineRun := findRun s.runs s.run

def withRuns (s : Attempts) (runs : List PipelineRun) : Attempts :=
  { s with watched := { s.watched with world := { s.watched.world with runs } } }

def claim (platform : Platform) (s : Attempts) (pipeline : Pipeline) (claimed : PipelineRun)
    (isFinal : Bool) : Attempts :=
  { s.withRuns (saveFields .claim claimed s.runs) with
    attempt := some (pipeline, isFinal, runBody platform pipeline claimed isFinal) }

/-- The last run, once a continuation request has left the table `runs`. -/
def continued (s : Attempts) (runs : List PipelineRun) : Uuid :=
  match runs.drop s.runs.length with
  | new :: _ => new.id
  | [] => s.run

def outcome : RunProg Unit → Option (Except Exc Unit)
  | .ret a => some (.ok a)
  | .raise e => some (.error e)
  | .call _ _ => none

def next (platform : Platform) (tenant : Uuid) (s : Attempts) : AttemptsEvent → Option Attempts
  | .deliver pipeline task isFinal now =>
    match s.attempt, s.row with
    | none, some row =>
      match claimRun row task now with
      | .ok claimed => some (s.claim platform pipeline claimed isFinal)
      | .error _ => some s
    | _, _ => none
  | .answer c =>
    s.attempt.bind fun (pipeline, isFinal, p) =>
      (p.step (execWatched tenant pipeline s.run) c s.watched).map fun x =>
        { s with watched := x.2, attempt := some (pipeline, isFinal, x.1) }
  | .finish =>
    s.attempt.bind fun (_, isFinal, p) => (outcome p).map fun out =>
      { s with attempt := none, retried := s.retried || asksRetry isFinal out }
  | .continueRun pipeline key policy =>
    match s.attempt, s.row with
    | none, some row =>
      ((triggerManualRun pipeline key (some row)).eval execDispatch policy
        { runs := s.runs }).map fun x =>
          { s.withRuns x.2.runs with run := s.continued x.2.runs }
    | _, _ => none

variable {platform : Platform} {tenant : Uuid} {s t : Attempts}

theorem next_deliver {pipeline : Pipeline} {task : Uuid} {isFinal : Bool} {now : Nat}
    (h : s.next platform tenant (.deliver pipeline task isFinal now) = some t) :
    s.attempt = none ∧ ∃ row, s.row = some row ∧ (t = s ∨ ∃ claimed,
      claimRun row task now = .ok claimed ∧ t = s.claim platform pipeline claimed isFinal) := by
  simp only [next] at h
  split at h
  · rename_i row hattempt hrow
    refine ⟨hattempt, row, hrow, ?_⟩
    cases hclaim : claimRun row task now with
    | ok claimed =>
      rw [hclaim] at h
      exact .inr ⟨claimed, rfl, (Option.some.inj h).symm⟩
    | error e =>
      rw [hclaim] at h
      exact .inl (Option.some.inj h).symm
  · cases h

theorem next_answer {c : RunAnswer} (h : s.next platform tenant (.answer c) = some t) :
    ∃ pipeline isFinal p p' watched, s.attempt = some (pipeline, isFinal, p) ∧
      p.step (execWatched tenant pipeline s.run) c s.watched = some (p', watched) ∧
      t = { s with watched := watched, attempt := some (pipeline, isFinal, p') } := by
  obtain ⟨⟨pipeline, isFinal, p⟩, hattempt, h⟩ := Option.bind_eq_some_iff.mp h
  obtain ⟨⟨p', watched⟩, hp, rfl⟩ := Option.map_eq_some_iff.mp h
  exact ⟨pipeline, isFinal, p, p', watched, hattempt, hp, rfl⟩

theorem next_finish (h : s.next platform tenant .finish = some t) :
    ∃ pipeline isFinal out, s.attempt = some (pipeline, isFinal, Prog.ofExcept out) ∧
      t = { s with attempt := none, retried := s.retried || asksRetry isFinal out } := by
  obtain ⟨⟨pipeline, isFinal, p⟩, hattempt, h⟩ := Option.bind_eq_some_iff.mp h
  obtain ⟨out, hout, rfl⟩ := Option.map_eq_some_iff.mp h
  refine ⟨pipeline, isFinal, out, ?_, rfl⟩
  cases p with
  | ret a => cases hout; exact hattempt
  | raise e => cases hout; exact hattempt
  | call op k => cases hout

theorem next_continueRun {pipeline : Pipeline} {key : Option Text}
    {policy : DispatchOp → DispatchAnswer}
    (h : s.next platform tenant (.continueRun pipeline key policy) = some t) :
    s.attempt = none ∧ ∃ row, s.row = some row ∧ (t = s ∨ ∃ key fresh,
      isContinuable row = true ∧ fresh ∉ s.runs.map PipelineRun.id ∧
      t = { s.withRuns (s.runs ++ [{ newRun pipeline key (some row) with id := fresh }]) with
        run := fresh }) := by
  simp only [next] at h
  split at h
  · rename_i row hattempt hrow
    refine ⟨hattempt, row, hrow, ?_⟩
    simp only [Option.map_eq_some_iff, Prod.exists] at h
    obtain ⟨out, w, heval, rfl⟩ := h
    obtain ⟨hdispatched, hguard⟩ := (triggerManualRun_safe pipeline key (some row)
      { runs := s.runs }).runs (fun _ => rfl) (Prog.Runs.of_eval policy heval)
    rcases hdispatched with ⟨hruns, -⟩ | ⟨key, fresh, hfresh, hruns, -⟩
    · left
      simp only at hruns
      rw [hruns]
      simp [continued, withRuns, runs]
    · right
      simp only at hruns hfresh
      refine ⟨key, fresh, hguard row rfl fun h => ?_, hfresh, ?_⟩
      · simp [hruns] at h
      · rw [hruns]
        simp [continued]
  · cases h

end Attempts

/-! What a call changes, apart from what is observed of it. -/

variable {tenant run : Uuid} {pipeline : Pipeline} {op : RunOp} {c : RunAnswer} {r : op.Resp}
  {t t' : Watched}

theorem execWatched_some (h : execWatched tenant pipeline run op c t = some (r, t')) :
    admissible tenant t.world.store op c = true ∧
    ∃ w, execRun op c t.world = some (r, w) ∧ t' = t.observe pipeline run op r w := by
  unfold execWatched at h
  split_ifs at h with hadmissible
  obtain ⟨⟨r', w⟩, he, heq⟩ := Option.map_eq_some_iff.mp h
  cases heq
  exact ⟨hadmissible, w, he, rfl⟩

@[simp] theorem observe_world (w : World) : (t.observe pipeline run op r w).world = w := by
  unfold Watched.observe Watched.written
  split <;> (try split) <;> rfl

end DataLake
