import DataLake.Foundation.Transition
import DataLake.AttemptSafety
import DataLake.Dispatch

/-! The attempts at a run, one after another, and the runs that continue it. A
worker may die at any moment; a task message may be delivered again. -/

namespace DataLake

open Foundation

def Traced.withRuns (t : Traced) (runs : List PipelineRun) : Traced :=
  { t with world := { t.world with runs := runs } }

/-- `attempt` is what the worker still has to do, while there is one. -/
structure Chain where
  traced : Traced
  run : Uuid
  attempt : Option (RunProg Unit) := none

inductive ChainEvent where
  | deliver (task : Uuid) (maxPages : Int) (isFinal : Bool) (now : Nat)
  | answer (c : RunAnswer)
  | finish
  | die
  | continueRun (idempotencyKey : Option Text) (policy : DispatchOp → DispatchAnswer)

namespace Chain

def start (w : World) (run : Uuid) : Chain := { traced := { world := w }, run := run }

def runs (s : Chain) : List PipelineRun := s.traced.world.runs

def row (s : Chain) : Option PipelineRun := findRun s.runs s.run

def claim (y : Sync) (s : Chain) (claimed : PipelineRun) (maxPages : Int) (isFinal : Bool) : Chain :=
  { s with
    traced := s.traced.withRuns (saveFields .claim claimed s.runs)
    attempt := some (runBody y.platform (y.pipeline.withMaxPages maxPages) claimed isFinal) }

/-- The last run of the chain, once a continuation request has left the table `runs`. -/
def continued (s : Chain) (runs : List PipelineRun) : Uuid :=
  match runs.drop s.runs.length with
  | new :: _ => new.id
  | [] => s.run

def next (y : Sync) (s : Chain) : ChainEvent → Option Chain
  | .deliver task maxPages isFinal now =>
    match s.attempt, s.row with
    | none, some row =>
      match claimRun row task now with
      | .ok claimed => some (s.claim y claimed maxPages isFinal)
      | .error _ => some s
    | _, _ => none
  | .answer c =>
    match s.attempt with
    | none => none
    | some p => (p.step (execSource y.source) c s.traced).map fun x =>
        { s with traced := x.2, attempt := some x.1 }
  | .finish =>
    match s.attempt with
    | some (.ret _) | some (.raise _) => some { s with attempt := none }
    | _ => none
  | .die => s.attempt.map fun _ => { s with attempt := none }
  | .continueRun key policy =>
    match s.attempt, s.row with
    | none, some row =>
      ((triggerManualRun y.pipeline key (some row)).eval execDispatch policy
        { runs := s.runs }).map fun x =>
          { s with traced := s.traced.withRuns x.2.runs, run := s.continued x.2.runs }
    | _, _ => none

variable {y : Sync} {s t : Chain}

theorem next_deliver {task : Uuid} {maxPages : Int} {isFinal : Bool} {now : Nat}
    (h : s.next y (.deliver task maxPages isFinal now) = some t) :
    s.attempt = none ∧ ∃ row, s.row = some row ∧ (t = s ∨ ∃ claimed,
      claimRun row task now = .ok claimed ∧ t = s.claim y claimed maxPages isFinal) := by
  simp only [next] at h
  split at h
  · rename_i row hattempt hrow
    refine ⟨hattempt, row, hrow, ?_⟩
    cases hclaim : claimRun row task now with
    | ok claimed =>
      rw [hclaim] at h
      exact .inr ⟨claimed, rfl, (Option.some.inj h).symm⟩
    | error e =>
      rw [hclaim] at h
      exact .inl (Option.some.inj h).symm
  · cases h

theorem next_answer {c : RunAnswer} (h : s.next y (.answer c) = some t) :
    ∃ p p' traced, s.attempt = some p ∧ p.step (execSource y.source) c s.traced = some (p', traced) ∧
      t = { s with traced := traced, attempt := some p' } := by
  simp only [next] at h
  split at h
  · cases h
  · rename_i p hattempt
    simp only [Option.map_eq_some_iff, Prod.exists] at h
    obtain ⟨p', traced, hp, rfl⟩ := h
    exact ⟨p, p', traced, hattempt, hp, rfl⟩

theorem next_finish (h : s.next y .finish = some t) :
    (∃ out : Except Exc Unit, s.attempt = some (Prog.ofExcept out)) ∧
      t = { s with attempt := none } := by
  simp only [next] at h
  split at h
  · rename_i a hattempt
    exact ⟨⟨.ok a, hattempt⟩, (Option.some.inj h).symm⟩
  · rename_i e hattempt
    exact ⟨⟨.error e, hattempt⟩, (Option.some.inj h).symm⟩
  · cases h

theorem next_die (h : s.next y .die = some t) :
    (∃ p, s.attempt = some p) ∧ t = { s with attempt := none } := by
  simp only [next, Option.map_eq_some_iff] at h
  obtain ⟨p, hp, rfl⟩ := h
  exact ⟨⟨p, hp⟩, rfl⟩

theorem next_continueRun {key : Option Text} {policy : DispatchOp → DispatchAnswer}
    (h : s.next y (.continueRun key policy) = some t) :
    s.attempt = none ∧ ∃ row, s.row = some row ∧ (t = s ∨ ∃ key fresh,
      isContinuable row = true ∧ fresh ∉ s.runs.map PipelineRun.id ∧
      t = { s with
        traced := s.traced.withRuns
          (s.runs ++ [{ newRun y.pipeline key (some row) with id := fresh }])
        run := fresh }) := by
  simp only [next] at h
  split at h
  · rename_i row hattempt hrow
    refine ⟨hattempt, row, hrow, ?_⟩
    simp only [Option.map_eq_some_iff, Prod.exists] at h
    obtain ⟨out, w, heval, rfl⟩ := h
    obtain ⟨hdispatched, hguard⟩ := (triggerManualRun_safe y.pipeline key (some row)
      { runs := s.runs }).runs (fun _ => rfl) (Prog.Runs.of_eval policy heval)
    rcases hdispatched with ⟨hruns, -⟩ | ⟨key, fresh, hfresh, hruns, -⟩
    · left
      simp only at hruns
      rw [hruns]
      simp [continued, Traced.withRuns, runs]
    · right
      simp only at hruns hfresh
      refine ⟨key, fresh, hguard row rfl fun h => ?_, hfresh, ?_⟩
      · simp [hruns] at h
      · rw [hruns]
        simp [continued]
  · cases h

end Chain

/-! A source of one page with one record, for the runs on fixed inputs. -/

/-- The bytes of `[{}]` and of `[]`. -/
def oneRecord : Bytes := [91, 123, 125, 93]

def noRecord : Bytes := [91, 93]

def smallLoads (body : Bytes) : Except String Json :=
  if body = oneRecord then .ok (.arr [.obj []])
  else if body = noRecord then .ok (.arr [])
  else .error "Expecting value: line 1 column 1 (char 0)"

def smallSync (pageSize : Option Rat) : Sync where
  platform :=
    { bucket := smallBucket, loads := smallLoads, redact := id }
  pipeline :=
    { id := ⟨7⟩, isActive := true, sourceConnection := ⟨8⟩, destinationConnection := ⟨9⟩
      sourceConfig :=
        { baseUrl := "https://source".toList, path := "/rows".toList, pageSize := pageSize }
      destinationMapping := [("id".toList, "id".toList)], strictMapping := false }
  source page := ⟨200, none, if page = 1 then oneRecord else noRecord⟩

def smallRun : PipelineRun := { id := ⟨1⟩, pipeline := ⟨7⟩, idempotencyKey := "first".toList }

def smallWorld : World := { runs := [smallRun] }

def loadAnswers : List RunAnswer :=
  [.clock 1, .done, .done, .done, .response ⟨200, none, oneRecord⟩, .raw (.tenant (.ok ⟨3⟩)),
    .raw (.done ⟨0⟩), .raw (.done ⟨40⟩), .done]

def saveAnswers : List RunAnswer := [.raw (.done ⟨0⟩), .done]

end DataLake
