import DataLake.Foundation.Transition
import DataLake.Dispatch

/-! The deployed system: requests that dispatch runs, a broker, and workers that claim a
run under row locks, execute it and ask for another attempt. -/

namespace DataLake

open Foundation

/-- The rows that the claim of a run selects for update: the run, its pipeline and the
two connections it joins. -/
inductive LockedRow where
  | run (id : Uuid)
  | pipeline (id : Uuid)
  | connection (id : Uuid)
deriving DecidableEq

def lockRows (row : PipelineRun) (pipeline : Pipeline) : List LockedRow :=
  [.run row.id, .pipeline pipeline.id, .connection pipeline.sourceConnection,
    .connection pipeline.destinationConnection]

/-- How far a worker is with its message. A locked worker has read the row and holds the
locks until it decides; the body is what an executing worker still has to do. -/
inductive Worker where
  | received (m : Message)
  | locked (m : Message) (row : PipelineRun) (pipeline : Pipeline)
  | executing (m : Message) (body : RunProg Unit)

def Worker.message : Worker → Message
  | received m => m
  | locked m _ _ => m
  | executing m _ => m

/-- `claims` records the run of every claim that succeeded. -/
structure Cluster where
  world : World := { runs := [] }
  queue : List Message := []
  issued : List Uuid := []
  audit : List (AuditAction × Uuid) := []
  workers : Nat → Option Worker := fun _ => none
  dispatchers : Nat → Option (DispatchProg Unit) := fun _ => none
  locks : List (Nat × LockedRow) := []
  claims : List Uuid := []

inductive ClusterEvent where
  | trigger (i : Nat) (request : Request)
  | dispatch (i : Nat) (c : DispatchAnswer)
  | deliver (j : Nat) (m : Message)
  | redeliver (j : Nat)
  | lock (j : Nat) (pipeline : Pipeline)
  | decide (j : Nat) (now : Nat)
  | answer (j : Nat) (c : RunAnswer)
  | finish (j : Nat)
  | die (j : Nat)

namespace Cluster

def runs (s : Cluster) : List PipelineRun := s.world.runs

def row (s : Cluster) (run : Uuid) : Option PipelineRun := findRun s.world.runs run

def isLocked (s : Cluster) (x : LockedRow) : Bool := s.locks.any fun held => held.2 = x

def withRuns (s : Cluster) (runs : List PipelineRun) : Cluster :=
  { s with world := { s.world with runs := runs } }

def setWorker (s : Cluster) (j : Nat) (w : Option Worker) : Cluster :=
  { s with workers := Function.update s.workers j w }

def unlock (s : Cluster) (j : Nat) : Cluster :=
  { s with locks := s.locks.filter fun held => held.1 ≠ j }

def drop (s : Cluster) (j : Nat) : Cluster := (s.unlock j).setWorker j none

def send (s : Cluster) (m : Message) : Cluster := { s with queue := s.queue ++ [m] }

/-- The rows are free: the worker holds them and has read the run. -/
def lockFor (s : Cluster) (j : Nat) (m : Message) (row : PipelineRun) (pipeline : Pipeline) :
    Cluster :=
  { s.setWorker j (some (.locked m row pipeline)) with
    locks := s.locks ++ (lockRows row pipeline).map (j, ·) }

def claim (platform : Platform) (s : Cluster) (j : Nat) (m : Message) (pipeline : Pipeline)
    (claimed : PipelineRun) : Cluster :=
  let body := runBody platform pipeline claimed (isFinalAttempt m.retries)
  { ((s.unlock j).withRuns (saveFields .claim claimed s.runs)).setWorker j
      (some (.executing m body)) with
    claims := s.claims ++ [m.run] }

def dispatchWorld (s : Cluster) : DispatchWorld := ⟨s.runs, s.queue, s.issued, s.audit⟩

def dispatched (s : Cluster) (i : Nat) (p : DispatchProg Unit) (w : DispatchWorld) : Cluster :=
  { s.withRuns w.runs with
    queue := w.queue
    issued := w.issued
    audit := w.audit
    dispatchers := Function.update s.dispatchers i (some p) }

/-- A save waits while another transaction holds the row of the run. -/
def waits (s : Cluster) : RunOp → Bool
  | .saveRun _ copy => s.isLocked (.run copy.id)
  | _ => false

def answerBody (s : Cluster) (c : RunAnswer) : RunProg Unit → Option (RunProg Unit × World)
  | .call op k => if s.waits op then none else Prog.step execRun c (.call op k) s.world
  | _ => none

def ended (s : Cluster) (j : Nat) (m : Message) (out : Except Exc Unit) : Cluster :=
  if asksRetry (isFinalAttempt m.retries) out then
    (s.setWorker j none).send { m with retries := m.retries + 1 }
  else s.setWorker j none

def next (platform : Platform) (s : Cluster) : ClusterEvent → Option Cluster
  | .trigger i request =>
    match s.dispatchers i with
    | none => some { s with dispatchers := Function.update s.dispatchers i (some request.program) }
    | some _ => none
  | .dispatch i c =>
    match s.dispatchers i with
    | none => none
    | some p => (p.step execDispatch c s.dispatchWorld).map fun x => s.dispatched i x.1 x.2
  | .deliver j m =>
    match s.workers j with
    | none =>
      if m ∈ s.queue then
        some ({ s with queue := s.queue.erase m }.setWorker j (some (.received m)))
      else none
    | some _ => none
  | .redeliver j => (s.workers j).map fun w => s.send w.message
  | .lock j pipeline =>
    match s.workers j with
    | some (.received m) =>
      match s.row m.run with
      | none => some (s.drop j)
      | some row =>
        if pipeline.id ≠ row.pipeline then none
        else if (lockRows row pipeline).any s.isLocked then some (s.drop j)
        else some (s.lockFor j m row pipeline)
    | _ => none
  | .decide j now =>
    match s.workers j with
    | some (.locked m row pipeline) =>
      match claimRun row m.task now with
      | .ok claimed => some (s.claim platform j m pipeline claimed)
      | .error _ => some (s.drop j)
    | _ => none
  | .answer j c =>
    match s.workers j with
    | some (.executing m body) => (s.answerBody c body).map fun x =>
        { s with world := x.2 }.setWorker j (some (.executing m x.1))
    | _ => none
  | .finish j =>
    match s.workers j with
    | some (.executing m (.ret a)) => some (s.ended j m (.ok a))
    | some (.executing m (.raise e)) => some (s.ended j m (.error e))
    | _ => none
  | .die j => (s.workers j).map fun w => (s.drop j).send w.message

variable {platform : Platform} {s t : Cluster} {j : Nat}

theorem next_trigger {i : Nat} {request : Request}
    (h : s.next platform (.trigger i request) = some t) :
    t = { s with dispatchers := Function.update s.dispatchers i (some request.program) } := by
  simp only [next] at h
  split at h
  · exact (Option.some.inj h).symm
  · cases h

theorem next_dispatch {i : Nat} {c : DispatchAnswer}
    (h : s.next platform (.dispatch i c) = some t) :
    ∃ op k r w, s.dispatchers i = some (.call op k) ∧
      execDispatch op c s.dispatchWorld = some (r, w) ∧ t = s.dispatched i (k r) w := by
  simp only [next] at h
  split at h
  · cases h
  · rename_i p hp
    simp only [Option.map_eq_some_iff, Prod.exists] at h
    obtain ⟨p', w, hstep, rfl⟩ := h
    cases p with
    | ret a => cases hstep
    | raise e => cases hstep
    | call op k =>
      simp only [Prog.step, Option.map_eq_some_iff, Prod.exists, Prod.mk.injEq] at hstep
      obtain ⟨r, v, he, rfl, rfl⟩ := hstep
      exact ⟨op, k, r, v, hp, he, rfl⟩

theorem next_deliver {m : Message} (h : s.next platform (.deliver j m) = some t) :
    s.workers j = none ∧ m ∈ s.queue ∧
      t = { s with queue := s.queue.erase m }.setWorker j (some (.received m)) := by
  simp only [next] at h
  split at h
  · rename_i hj
    split_ifs at h with hm
    exact ⟨hj, hm, (Option.some.inj h).symm⟩
  · cases h

theorem next_redeliver (h : s.next platform (.redeliver j) = some t) :
    ∃ w, s.workers j = some w ∧ t = s.send w.message := by
  simp only [next, Option.map_eq_some_iff] at h
  obtain ⟨w, hw, rfl⟩ := h
  exact ⟨w, hw, rfl⟩

theorem next_lock {pipeline : Pipeline} (h : s.next platform (.lock j pipeline) = some t) :
    ∃ m, s.workers j = some (.received m) ∧
      ((t = s.drop j ∧ ∀ row, s.row m.run = some row →
          (lockRows row pipeline).any s.isLocked = true) ∨
        ∃ row, s.row m.run = some row ∧ (lockRows row pipeline).any s.isLocked = false ∧
          t = s.lockFor j m row pipeline) := by
  simp only [next] at h
  split at h
  · rename_i m hm
    refine ⟨m, hm, ?_⟩
    split at h
    · rename_i hrow
      exact .inl ⟨(Option.some.inj h).symm, fun row h' => by simp [hrow] at h'⟩
    · rename_i row hrow
      split_ifs at h with hid hlocked
      · refine .inl ⟨(Option.some.inj h).symm, fun row' h' => ?_⟩
        obtain rfl : row = row' := Option.some.inj (hrow.symm.trans h')
        exact hlocked
      · exact .inr ⟨row, hrow, by simpa using hlocked, (Option.some.inj h).symm⟩
  · cases h

theorem next_decide {now : Nat} (h : s.next platform (.decide j now) = some t) :
    ∃ m row pipeline, s.workers j = some (.locked m row pipeline) ∧
      ((∃ e, claimRun row m.task now = .error e ∧ t = s.drop j) ∨
        ∃ claimed, claimRun row m.task now = .ok claimed ∧
          t = s.claim platform j m pipeline claimed) := by
  simp only [next] at h
  split at h
  · rename_i m row pipeline hm
    refine ⟨m, row, pipeline, hm, ?_⟩
    split at h
    · rename_i claimed hclaim
      exact .inr ⟨claimed, hclaim, (Option.some.inj h).symm⟩
    · rename_i e hclaim
      exact .inl ⟨e, hclaim, (Option.some.inj h).symm⟩
  · cases h

theorem next_answer {c : RunAnswer} (h : s.next platform (.answer j c) = some t) :
    ∃ m op k r w, s.workers j = some (.executing m (.call op k)) ∧ s.waits op = false ∧
      execRun op c s.world = some (r, w) ∧
      t = { s with world := w }.setWorker j (some (.executing m (k r))) := by
  simp only [next] at h
  split at h
  · rename_i m body hm
    simp only [Option.map_eq_some_iff, Prod.exists] at h
    obtain ⟨p', w, hbody, rfl⟩ := h
    cases body with
    | ret a => cases hbody
    | raise e => cases hbody
    | call op k =>
      simp only [answerBody] at hbody
      split_ifs at hbody with hwaits
      simp only [Prog.step, Option.map_eq_some_iff, Prod.exists, Prod.mk.injEq] at hbody
      obtain ⟨r, v, he, rfl, rfl⟩ := hbody
      exact ⟨m, op, k, r, v, hm, by simpa using hwaits, he, rfl⟩
  · cases h

theorem next_finish (h : s.next platform (.finish j) = some t) :
    ∃ m out, s.workers j = some (.executing m (Prog.ofExcept out)) ∧ t = s.ended j m out := by
  simp only [next] at h
  split at h
  · rename_i m a hm
    exact ⟨m, .ok a, hm, (Option.some.inj h).symm⟩
  · rename_i m e hm
    exact ⟨m, .error e, hm, (Option.some.inj h).symm⟩
  · cases h

theorem next_die (h : s.next platform (.die j) = some t) :
    ∃ w, s.workers j = some w ∧ t = (s.drop j).send w.message := by
  simp only [next, Option.map_eq_some_iff] at h
  obtain ⟨w, hw, rfl⟩ := h
  exact ⟨w, hw, rfl⟩

end Cluster

end DataLake
