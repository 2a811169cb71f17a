import DataLake.Cluster

/-! Row locks: they are held by the workers that are about to decide, each row by one
of them at most. -/

namespace DataLake

open Foundation

namespace Cluster

variable {platform : Platform} {s t : Cluster} {e : ClusterEvent} {i j : Nat}

theorem setWorker_self (w : Option Worker) : (s.setWorker j w).workers j = w := by
  simp [setWorker]

theorem setWorker_other (w : Option Worker) (h : i ≠ j) :
    (s.setWorker j w).workers i = s.workers i := by
  simp [setWorker, h]

def Deciding (s : Cluster) (j : Nat) : Prop :=
  ∃ m row pipeline, s.workers j = some (.locked m row pipeline)

/-- How a step changes the lock table: not at all, by the release of what a worker
holds, or by a claimer that has found its rows free. -/
theorem next_locks (h : s.next platform e = some t) :
    (t.workers = s.workers ∧ t.locks = s.locks) ∨
    (∃ j, (∀ i, i ≠ j → t.workers i = s.workers i) ∧ ¬ t.Deciding j ∧
      (t.locks = (s.unlock j).locks ∨ (t.locks = s.locks ∧ ¬ s.Deciding j))) ∨
    ∃ j m row pipeline, s.workers j = some (.received m) ∧ s.row m.run = some row ∧
      (∀ x ∈ lockRows row pipeline, s.isLocked x = false) ∧ t = s.lockFor j m row pipeline := by
  have hidle {u : Cluster} {j : Nat} {w : Option Worker} (hu : u.workers j = w)
      (hw : ∀ m row pipeline, w ≠ some (.locked m row pipeline)) : ¬ u.Deciding j := by
    rintro ⟨m, row, pipeline, h⟩
    exact hw m row pipeline (hu.symm.trans h)
  cases e with
  | trigger i request =>
    obtain rfl := next_trigger h
    exact .inl ⟨rfl, rfl⟩
  | dispatch i c =>
    obtain ⟨op, k, r, w, -, -, rfl⟩ := next_dispatch h
    exact .inl ⟨rfl, rfl⟩
  | deliver j m =>
    obtain ⟨hj, -, rfl⟩ := next_deliver h
    exact .inr (.inl ⟨j, fun i hi => setWorker_other _ hi, hidle (setWorker_self _) (by simp),
      .inr ⟨rfl, hidle hj (by simp)⟩⟩)
  | redeliver j =>
    obtain ⟨w, -, rfl⟩ := next_redeliver h
    exact .inl ⟨rfl, rfl⟩
  | lock j pipeline =>
    obtain ⟨m, hj, ⟨rfl, -⟩ | ⟨row, hrow, hfree, rfl⟩⟩ := next_lock h
    · exact .inr (.inl ⟨j, fun i hi => setWorker_other _ hi, hidle (setWorker_self _) (by simp),
        .inl rfl⟩)
    · exact .inr (.inr ⟨j, m, row, pipeline, hj, hrow, by simpa using hfree, rfl⟩)
  | decide j now =>
    obtain ⟨m, row, pipeline, -, ⟨e, -, rfl⟩ | ⟨claimed, -, rfl⟩⟩ := next_decide h
    · exact .inr (.inl ⟨j, fun i hi => setWorker_other _ hi, hidle (setWorker_self _) (by simp),
        .inl rfl⟩)
    · exact .inr (.inl ⟨j, fun i hi => setWorker_other _ hi, hidle (setWorker_self _) (by simp),
        .inl rfl⟩)
  | answer j c =>
    obtain ⟨m, op, k, r, w, hj, -, -, rfl⟩ := next_answer h
    exact .inr (.inl ⟨j, fun i hi => setWorker_other _ hi, hidle (setWorker_self _) (by simp),
      .inr ⟨rfl, hidle hj (by simp)⟩⟩)
  | finish j =>
    obtain ⟨m, out, hj, rfl⟩ := next_finish h
    refine .inr (.inl ⟨j, ?_⟩)
    unfold ended
    split_ifs
    · exact ⟨fun i hi => setWorker_other _ hi, hidle (setWorker_self _) (by simp),
        .inr ⟨rfl, hidle hj (by simp)⟩⟩
    · exact ⟨fun i hi => setWorker_other _ hi, hidle (setWorker_self _) (by simp),
        .inr ⟨rfl, hidle hj (by simp)⟩⟩
  | die j =>
    obtain ⟨w, -, rfl⟩ := next_die h
    exact .inr (.inl ⟨j, fun i hi => setWorker_other _ hi, hidle (setWorker_self _) (by simp),
      .inl rfl⟩)

def actor : ClusterEvent → Option Nat
  | .deliver j _ | .lock j _ | .decide j _ | .answer j _ | .finish j | .die j => some j
  | .trigger _ _ | .dispatch _ _ | .redeliver _ => none

theorem next_other (h : s.next platform e = some t) (hi : actor e ≠ some i) :
    t.workers i = s.workers i := by
  have hne {j : Nat} (h : some j ≠ some i) : i ≠ j := fun hij => h (by rw [hij])
  cases e with
  | trigger i request =>
    obtain rfl := next_trigger h
    rfl
  | dispatch i c =>
    obtain ⟨op, k, r, w, -, -, rfl⟩ := next_dispatch h
    rfl
  | deliver j m =>
    obtain ⟨-, -, rfl⟩ := next_deliver h
    exact setWorker_other _ (hne hi)
  | redeliver j =>
    obtain ⟨w, -, rfl⟩ := next_redeliver h
    rfl
  | lock j pipeline =>
    obtain ⟨m, -, ⟨rfl, -⟩ | ⟨row, -, -, rfl⟩⟩ := next_lock h <;> exact setWorker_other _ (hne hi)
  | decide j now =>
    obtain ⟨m, row, pipeline, -, ⟨e, -, rfl⟩ | ⟨claimed, -, rfl⟩⟩ := next_decide h <;>
      exact setWorker_other _ (hne hi)
  | answer j c =>
    obtain ⟨m, op, k, r, w, -, -, -, rfl⟩ := next_answer h
    exact setWorker_other _ (hne hi)
  | finish j =>
    obtain ⟨m, out, -, rfl⟩ := next_finish h
    unfold ended
    split_ifs <;> exact setWorker_other _ (hne hi)
  | die j =>
    obtain ⟨w, -, rfl⟩ := next_die h
    exact setWorker_other _ (hne hi)

/-- How a worker got to where it is. -/
inductive WorkerStep (platform : Platform) (s : Cluster) (e : ClusterEvent) (t : Cluster)
    (i : Nat) : Worker → Prop where
  | same {w : Worker} (hi : s.workers i = some w) (hactor : actor e ≠ some i) : WorkerStep platform s e t i w
  | received (m : Message) (he : e = .deliver i m) (hm : m ∈ s.queue) :
    WorkerStep platform s e t i (.received m)
  | locked (m : Message) (row : PipelineRun) (pipeline : Pipeline) (he : e = .lock i pipeline)
    (hi : s.workers i = some (.received m)) (hrow : s.row m.run = some row) :
    WorkerStep platform s e t i (.locked m row pipeline)
  | claimed (now : Nat) (m : Message) (row claimed : PipelineRun) (pipeline : Pipeline)
    (he : e = .decide i now) (hi : s.workers i = some (.locked m row pipeline))
    (hclaim : claimRun row m.task now = .ok claimed)
    (ht : t = s.claim platform i m pipeline claimed) :
    WorkerStep platform s e t i
      (.executing m (runBody platform pipeline claimed (isFinalAttempt m.retries)))
  | answered (c : RunAnswer) (m : Message) (op : RunOp) (k : op.Resp → RunProg Unit) (r : op.Resp)
    (he : e = .answer i c) (hi : s.workers i = some (.executing m (.call op k)))
    (hexec : execRun op c s.world = some (r, t.world)) :
    WorkerStep platform s e t i (.executing m (k r))

theorem next_worker {w : Worker} (h : s.next platform e = some t) (hi : t.workers i = some w) :
    WorkerStep platform s e t i w := by
  by_cases hactor : actor e = some i
  · have hself {u : Cluster} {v : Option Worker} (hv : (u.setWorker i v).workers i = some w) :
        v = some w := (setWorker_self v).symm.trans hv
    cases e with
    | trigger | dispatch | redeliver => cases hactor
    | deliver j m =>
      obtain rfl := Option.some.inj hactor
      obtain ⟨-, hm, rfl⟩ := next_deliver h
      obtain rfl := Option.some.inj (hself hi)
      exact .received m rfl hm
    | lock j pipeline =>
      obtain rfl := Option.some.inj hactor
      obtain ⟨m, hj, ⟨rfl, -⟩ | ⟨row, hrow, -, rfl⟩⟩ := next_lock h
      · cases hself hi
      · obtain rfl := Option.some.inj (hself hi)
        exact .locked m row pipeline rfl hj hrow
    | decide j now =>
      obtain rfl := Option.some.inj hactor
      obtain ⟨m, row, pipeline, hj, ⟨e, -, rfl⟩ | ⟨claimed, hclaim, rfl⟩⟩ := next_decide h
      · cases hself hi
      · obtain rfl := Option.some.inj (hself hi)
        exact .claimed now m row claimed pipeline rfl hj hclaim rfl
    | answer j c =>
      obtain rfl := Option.some.inj hactor
      obtain ⟨m, op, k, r, w, hj, -, hexec, rfl⟩ := next_answer h
      obtain rfl := Option.some.inj (hself hi)
      exact .answered c m op k r rfl hj hexec
    | finish j =>
      obtain rfl := Option.some.inj hactor
      obtain ⟨m, out, -, rfl⟩ := next_finish h
      unfold ended at hi
      split_ifs at hi <;> cases hself hi
    | die j =>
      obtain rfl := Option.some.inj hactor
      obtain ⟨w, -, rfl⟩ := next_die h
      cases hself hi
  · exact .same ((next_other h hactor).symm.trans hi) hactor

theorem decided {now : Nat} (h : s.next platform (.decide j now) = some t) : ¬ t.Deciding j := by
  rintro ⟨m, row, pipeline, hj⟩
  cases next_worker h hj with
  | same hi hactor => exact hactor rfl
  | locked m row pipeline he => cases he

structure Locking (s : Cluster) : Prop where
  held : ∀ j x, (j, x) ∈ s.locks ↔ ∃ m row pipeline,
    s.workers j = some (.locked m row pipeline) ∧ x ∈ lockRows row pipeline
  exclusive : ∀ i j x, (i, x) ∈ s.locks → (j, x) ∈ s.locks → i = j

theorem isLocked_iff {x : LockedRow} : s.isLocked x = true ↔ ∃ j, (j, x) ∈ s.locks := by
  simp [isLocked]

theorem Locking.empty : Locking {} := ⟨by simp, by simp⟩

theorem Locking.release (hs : s.Locking) (hother : ∀ i, i ≠ j → t.workers i = s.workers i)
    (hj : ¬ t.Deciding j) (hlocks : ∀ i x, (i, x) ∈ t.locks ↔ (i, x) ∈ s.locks ∧ i ≠ j) :
    t.Locking := by
  refine ⟨fun i x => ?_, fun i i' x hi hi' => ?_⟩
  · rw [hlocks]
    by_cases hij : i = j
    · subst hij
      refine ⟨fun h => absurd rfl h.2, fun ⟨m, row, pipeline, h, _⟩ => ?_⟩
      exact absurd ⟨m, row, pipeline, h⟩ hj
    · simp only [hs.held, hother i hij, ne_eq, hij, not_false_eq_true, and_true]
  · exact hs.exclusive i i' x ((hlocks i x).mp hi).1 ((hlocks i' x).mp hi').1

theorem Locking.acquire {m : Message} {row : PipelineRun} {pipeline : Pipeline} (hs : s.Locking)
    (hj : s.workers j = some (.received m)) (hfree : ∀ x ∈ lockRows row pipeline, s.isLocked x = false) :
    (s.lockFor j m row pipeline).Locking := by
  have hmem (i : Nat) (x : LockedRow) : (i, x) ∈ (s.lockFor j m row pipeline).locks ↔
      (i, x) ∈ s.locks ∨ (i = j ∧ x ∈ lockRows row pipeline) := by
    simp [lockFor, and_comm, eq_comm]
  have hnone (x : LockedRow) : (j, x) ∉ s.locks := by
    rw [hs.held]
    rintro ⟨m', row', pipeline', h, -⟩
    rw [hj] at h
    cases h
  refine ⟨fun i x => ?_, fun i i' x hi hi' => ?_⟩
  · rw [hmem]
    by_cases hij : i = j
    · subst hij
      have hself : (s.lockFor i m row pipeline).workers i = some (.locked m row pipeline) := by
        simp [lockFor, setWorker]
      rw [hself]
      constructor
      · rintro (h | ⟨-, h⟩)
        · exact absurd h (hnone x)
        · exact ⟨m, row, pipeline, rfl, h⟩
      · rintro ⟨m', row', pipeline', h, hx⟩
        cases h
        exact .inr ⟨rfl, hx⟩
    · have hother : (s.lockFor j m row pipeline).workers i = s.workers i := by
        simp [lockFor, setWorker, hij]
      simp only [hs.held, hother, hij, false_and, or_false]
  · have hfresh (i : Nat) (hx : x ∈ lockRows row pipeline) : (i, x) ∉ s.locks := fun h =>
      Bool.false_ne_true ((hfree x hx).symm.trans (isLocked_iff.mpr ⟨i, h⟩))
    rcases (hmem i x).mp hi with hold | ⟨rfl, hnew⟩ <;>
      rcases (hmem i' x).mp hi' with hold' | ⟨rfl, hnew'⟩
    · exact hs.exclusive i i' x hold hold'
    · exact absurd hold (hfresh i hnew')
    · exact absurd hold' (hfresh i' hnew)
    · rfl

theorem Locking.next (hs : s.Locking) (h : s.next platform e = some t) : t.Locking := by
  rcases next_locks h with ⟨hworkers, hlocks⟩ | ⟨j, hother, hj, hlocks⟩ |
    ⟨j, m, row, pipeline, hj, -, hfree, rfl⟩
  · exact ⟨fun j x => by rw [hlocks, hworkers, hs.held], fun i j x hi hj =>
      hs.exclusive i j x (hlocks ▸ hi) (hlocks ▸ hj)⟩
  · refine hs.release hother hj fun i x => ?_
    rcases hlocks with hlocks | ⟨hlocks, hold⟩
    · simp [hlocks, unlock]
    · rw [hlocks, iff_self_and]
      rintro h rfl
      obtain ⟨m, row, pipeline, hi, -⟩ := (hs.held i x).mp h
      exact hold ⟨m, row, pipeline, hi⟩
  · exact hs.acquire hj hfree

end Cluster

end DataLake
