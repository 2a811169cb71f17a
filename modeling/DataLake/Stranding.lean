import DataLake.TerminalStates

/-! Whether somebody is left to finish a RUNNING run: the message of its task, or the
worker that holds it. -/

namespace DataLake

open Foundation

namespace Cluster

/-- A message of the task is in the queue or with a worker. -/
def Carries (s : Cluster) (run task : Uuid) : Prop :=
  (∃ m ∈ s.queue, m.run = run ∧ m.task = task) ∨
    ∃ j w, s.workers j = some w ∧ w.message.run = run ∧ w.message.task = task

/-- No worker dies; and when the owner of a RUNNING run comes back for it, no other
claimer holds a row that it selects, or its message is not the last one of the task. -/
def Spared (s : Cluster) : ClusterEvent → Prop
  | .die _ => False
  | .lock j pipeline => ∀ m row, s.workers j = some (.received m) → s.row m.run = some row →
    row.status = .running → row.celeryTaskId = some m.task →
    (lockRows row pipeline).any s.isLocked = false ∨ (s.setWorker j none).Carries m.run m.task
  | _ => True

variable {platform : Platform} {s t : Cluster} {e : ClusterEvent} {i j : Nat} {run task : Uuid}

/-- A body that is executed ends the run or asks for another attempt, and a RUNNING run
is carried. -/
structure Live (s : Cluster) : Prop where
  inv : s.Invariant
  must : ∀ j m body, s.workers j = some (.executing m body) → s.Ended m.run ∨
    body.Must (savesTerminal m.run) fun out => asksRetry (isFinalAttempt m.retries) out = true
  carried : ∀ run row task, s.row run = some row → row.status = .running →
    row.celeryTaskId = some task → s.Carries run task

theorem Live.empty : Live {} where
  inv := .empty
  must _ _ _ h := by cases h
  carried _ _ _ h := by cases h

theorem Ended.next (hs : s.Invariant) (h : s.next platform e = some t) (hended : s.Ended run) :
    t.Ended run := by
  obtain ⟨row, hrow, hterminal⟩ := hended
  exact ((hs.row_step _ h).ended hrow hterminal).2

theorem Live.next_must {m : Message} {body : RunProg Unit} (hs : s.Live)
    (h : s.next platform e = some t) (hj : t.workers j = some (.executing m body)) :
    t.Ended m.run ∨
      body.Must (savesTerminal m.run) fun out => asksRetry (isFinalAttempt m.retries) out = true := by
  cases next_worker h hj with
  | same hold => exact (hs.must j m body hold).imp_left (Ended.next hs.inv h)
  | claimed now m row claimed pipeline he hold hclaim =>
    obtain ⟨-, rfl⟩ := claimRun_ok hclaim
    have hid := findRun_id (hs.inv.current j m row pipeline hold)
    have hstatus : (claimedRow row m.task now).status = .running := rfl
    have hmust := runBody_must platform pipeline (isFinalAttempt m.retries) hstatus
    exact .inr (hid ▸ hmust)
  | answered c m op k r he hold hexec =>
    rcases hs.must j m _ hold with hended | hmust | hrest
    · exact .inl (hended.next hs.inv h)
    · left
      obtain ⟨-, row, hrow, -⟩ := hs.inv.executing j m _ hold
      cases op with
      | saveRun fields copy =>
        obtain ⟨rfl, hid, hterminal⟩ := hmust
        refine ⟨RunFields.outcome.write copy row, ?_, hterminal⟩
        rw [Cluster.row, execRun_saveRun hexec, findRun_saveFields]
        change Option.map _ (s.row m.run) = _
        simp [hrow, hid]
      | _ => exact hmust.elim
    · exact .inr (hrest r)

theorem Carries.of_worker {w : Worker} (hj : s.workers j = some w) :
    s.Carries w.message.run w.message.task := .inr ⟨j, w, hj, rfl, rfl⟩

theorem Carries.of_queue {m : Message} (hm : m ∈ s.queue) : s.Carries m.run m.task :=
  .inl ⟨m, hm, rfl, rfl⟩

theorem next_queued {m : Message} (h : s.next platform e = some t) (hm : m ∈ s.queue) :
    t.Carries m.run m.task := by
  cases e with
  | trigger i request =>
    obtain rfl := next_trigger h
    exact .of_queue hm
  | dispatch i c =>
    obtain ⟨op, k, r, w, -, he, rfl⟩ := next_dispatch h
    refine .of_queue ?_
    change m ∈ w.queue
    rcases execDispatch_queue he with ⟨hqueue, -⟩ | ⟨run, task, -, hqueue, -⟩
    · rwa [hqueue]
    · rw [hqueue]
      exact List.mem_append_left _ hm
  | deliver j m' =>
    obtain ⟨-, -, rfl⟩ := next_deliver h
    by_cases heq : m = m'
    · subst heq
      exact .of_worker (setWorker_self _)
    · exact .of_queue ((List.mem_erase_of_ne heq).mpr hm)
  | redeliver j =>
    obtain ⟨w, -, rfl⟩ := next_redeliver h
    exact .of_queue (List.mem_append_left _ hm)
  | lock j pipeline =>
    obtain ⟨m', -, ⟨rfl, -⟩ | ⟨row, -, -, rfl⟩⟩ := next_lock h <;> exact .of_queue hm
  | decide j now =>
    obtain ⟨m', row, pipeline, -, ⟨e, -, rfl⟩ | ⟨claimed, -, rfl⟩⟩ := next_decide h <;>
      exact .of_queue hm
  | answer j c =>
    obtain ⟨m', op, k, r, w, -, -, -, rfl⟩ := next_answer h
    exact .of_queue hm
  | finish j =>
    obtain ⟨m', out, -, rfl⟩ := next_finish h
    unfold ended
    split_ifs
    · exact .of_queue (List.mem_append_left _ hm)
    · exact .of_queue hm
  | die j =>
    obtain ⟨w, -, rfl⟩ := next_die h
    exact .of_queue (List.mem_append_left _ hm)

theorem Live.next_carrier {w : Worker} {row : PipelineRun} (hs : s.Live) (hok : s.Spared e)
    (h : s.next platform e = some t) (hi : s.workers i = some w)
    (hrow : s.row w.message.run = some row) (hstatus : row.status = .running)
    (howner : row.celeryTaskId = some w.message.task) :
    t.Carries w.message.run w.message.task := by
  by_cases hactor : actor e = some i
  · cases e with
    | trigger | dispatch | redeliver => cases hactor
    | deliver j m =>
      obtain rfl := Option.some.inj hactor
      obtain ⟨hnone, -, -⟩ := next_deliver h
      cases hnone.symm.trans hi
    | lock j pipeline =>
      obtain rfl := Option.some.inj hactor
      obtain ⟨m, hj, ⟨rfl, hlocked⟩ | ⟨row, -, -, rfl⟩⟩ := next_lock h
      · cases hi.symm.trans hj
        rcases hok m row hj hrow hstatus howner with hfree | hother
        · cases hfree.symm.trans (hlocked row hrow)
        · exact hother
      · cases hi.symm.trans hj
        exact .inr ⟨j, .locked m row pipeline, setWorker_self _, rfl, rfl⟩
    | decide j now =>
      obtain rfl := Option.some.inj hactor
      obtain ⟨m, row', pipeline, hj, ⟨e, hclaim, rfl⟩ | ⟨claimed, -, rfl⟩⟩ := next_decide h
      · cases hi.symm.trans hj
        obtain rfl := Option.some.inj ((hs.inv.current j m row' pipeline hj).symm.trans hrow)
        simp only [Worker.message] at howner
        simp [claimRun, hstatus, howner, Status.terminal] at hclaim
      · cases hi.symm.trans hj
        exact .inr ⟨j, .executing m _, setWorker_self _, rfl, rfl⟩
    | answer j c =>
      obtain rfl := Option.some.inj hactor
      obtain ⟨m, op, k, r, w, hj, -, -, rfl⟩ := next_answer h
      cases hi.symm.trans hj
      exact .inr ⟨j, .executing m (k r), setWorker_self _, rfl, rfl⟩
    | finish j =>
      obtain rfl := Option.some.inj hactor
      obtain ⟨m, out, hj, rfl⟩ := next_finish h
      cases hi.symm.trans hj
      rcases hs.must j m _ hj with ⟨row', hrow', hterminal⟩ | hmust
      · obtain rfl := Option.some.inj (hrow.symm.trans hrow')
        rw [hstatus] at hterminal
        cases hterminal
      · have hretry : asksRetry (isFinalAttempt m.retries) out = true := by
          cases out <;> exact hmust
        simp only [ended, hretry, if_true]
        exact .inl ⟨_, List.mem_append_right _ (List.mem_singleton_self _), rfl, rfl⟩
    | die j => exact hok.elim
  · exact .of_worker ((next_other h hactor).trans hi)

theorem Live.next_carried {row : PipelineRun} (hs : s.Live) (hok : s.Spared e)
    (h : s.next platform e = some t) (hrow : t.row run = some row)
    (hstatus : row.status = .running) (howner : row.celeryTaskId = some task) :
    t.Carries run task := by
  have hold : ∀ old, s.row run = some old → old.status = .running →
      old.celeryTaskId = some task → t.Carries run task := by
    intro old hrow hstatus howner
    rcases hs.carried run old task hrow hstatus howner with ⟨m, hm, rfl, rfl⟩ | ⟨i, w, hi, rfl, rfl⟩
    · exact next_queued h hm
    · exact hs.next_carrier hok h hi hrow hstatus howner
  cases hs.inv.row_step run h with
  | same hsame => exact hold row (hsame.symm.trans hrow) hstatus howner
  | created new hnone hnew hpending =>
    obtain rfl := Option.some.inj (hnew.symm.trans hrow)
    cases hpending.symm.trans hstatus
  | saved j c m fields copy old k he hj hrun hfree hsaves hbefore hnew =>
    obtain rfl := Option.some.inj (hnew.symm.trans hrow)
    obtain ⟨htask, -, hsame | hterminal⟩ := savesOwn_write old hsaves
    · exact hold old hbefore (hsame.symm.trans hstatus) (htask.symm.trans howner)
    · rw [hstatus] at hterminal
      cases hterminal
  | claimed j now m old pipeline he hj hrun hbefore hclaim hnew hclaims hexec =>
    obtain rfl := Option.some.inj (hnew.symm.trans hrow)
    obtain rfl := Option.some.inj howner
    obtain ⟨body, hj'⟩ := hexec
    exact .inr ⟨j, _, hj', hrun, rfl⟩

theorem Live.next (hs : s.Live) (hok : s.Spared e) (h : s.next platform e = some t) : t.Live where
  inv := hs.inv.next h
  must _ _ _ hj := hs.next_must h hj
  carried _ _ _ hrow hstatus howner := hs.next_carried hok h hrow hstatus howner

/-- The condition is exact: where it fails, the claimer drops the last message. -/
theorem stranded {m : Message} {row : PipelineRun} {pipeline : Pipeline}
    (hj : s.workers j = some (.received m)) (hrow : s.row m.run = some row)
    (hlocked : (lockRows row pipeline).any s.isLocked = true)
    (hlast : ¬ (s.setWorker j none).Carries m.run m.task)
    (h : s.next platform (.lock j pipeline) = some t) :
    t.row m.run = some row ∧ ¬ t.Carries m.run m.task := by
  obtain ⟨m', hj', ⟨rfl, -⟩ | ⟨row', hrow', hfree, -⟩⟩ := next_lock h
  · exact ⟨hrow, hlast⟩
  · cases hj.symm.trans hj'
    obtain rfl := Option.some.inj (hrow.symm.trans hrow')
    cases hfree.symm.trans hlocked

/-- Every claimer finds its rows free. -/
def undisturbed (s : Cluster) : ClusterEvent → Bool
  | .die _ => false
  | .lock j pipeline =>
    match s.workers j with
    | some (.received m) => (s.row m.run).all fun row => !(lockRows row pipeline).any s.isLocked
    | _ => true
  | _ => true

theorem spared_of_undisturbed (h : s.undisturbed e = true) : s.Spared e := by
  cases e with
  | die j => cases h
  | lock j pipeline =>
    intro m row hj hrow _ _
    left
    simpa [undisturbed, hj, hrow] using h
  | _ => trivial

theorem replay_other {ok : Cluster → ClusterEvent → Prop} [∀ s e, Decidable (ok s e)]
    {es : List ClusterEvent} (hi : ∀ e ∈ es, actor e ≠ some i)
    (h : replay (next platform) ok s es = some t) : t.workers i = s.workers i := by
  induction es generalizing s with
  | nil =>
    cases h
    rfl
  | cons e es ih =>
    simp only [replay] at h
    split_ifs at h
    obtain ⟨u, hu, hrest⟩ := Option.bind_eq_some_iff.mp h
    exact (ih (fun e he => hi e (List.mem_cons_of_mem _ he)) hrest).trans
      (next_other hu (hi e List.mem_cons_self))

end Cluster

/-- A RUNNING run has an owner, and somebody carries the owner's message. -/
theorem running_run_carried {platform : Platform} {s : Cluster} {run : Uuid} {row : PipelineRun}
    (h : Reaches (Cluster.next platform) Cluster.Spared {} s) (hrow : s.row run = some row)
    (hstatus : row.status = .running) :
    ∃ task, row.celeryTaskId = some task ∧ s.Carries run task := by
  have hlive : s.Live := h.invariant .empty fun _ _ _ hi hok he => hi.next hok he
  have hstarted : row.status ≠ .pending := by simp [hstatus]
  obtain ⟨task, htask⟩ := Option.ne_none_iff_exists'.mp
    (mt (hlive.inv.unowned run row hrow).mpr hstarted)
  exact ⟨task, htask, hlive.carried run row task hrow hstatus htask⟩

def recordsRetry (j : Nat) : List ClusterEvent := [.answer j .done, .answer j .done, .finish j]

/-- The first attempt of the first message fails and asks for another one. -/
def retriedOnce : List ClusterEvent :=
  twoMessages ++ takes 0 ⟨⟨1⟩, ⟨5⟩, 0⟩ ++ failsEarly 0 true ++ recordsRetry 0

theorem running_run_carried_retry : ∃ s : Cluster,
    Reaches (Cluster.next (smallSync none).platform) Cluster.Spared {} s ∧
    ∃ task, (s.row ⟨1⟩).map PipelineRun.celeryTaskId = some (some task) ∧ s.Carries ⟨1⟩ task := by
  have hfinal : (replay (Cluster.next (smallSync none).platform)
      (fun s e => s.undisturbed e = true) {} retriedOnce).map (fun s =>
        (s.row ⟨1⟩).map PipelineRun.status) = some (some .running) := by
    decide +kernel
  obtain ⟨s, hs, hstatus⟩ := Option.map_eq_some_iff.mp hfinal
  obtain ⟨row, hrow, hrunning⟩ := Option.map_eq_some_iff.mp hstatus
  have hreach := (Reaches.of_replay _ hs).mono fun _ _ h => Cluster.spared_of_undisturbed h
  obtain ⟨task, htask, hcarries⟩ := running_run_carried hreach hrow hrunning
  exact ⟨s, hreach, task, by rw [hrow, Option.map_some, htask], hcarries⟩

def ClusterEvent.survives : ClusterEvent → Prop
  | die _ => False
  | _ => True

instance : DecidablePred ClusterEvent.survives
  | .die _ => .isFalse id
  | .trigger .. | .dispatch .. | .deliver .. | .redeliver _ | .lock .. | .decide .. | .answer ..
  | .finish _ => .isTrue trivial

/-- The retry of the first message finds the row locked by the claim of the second one,
which is then rejected. -/
def bothDropped : List ClusterEvent :=
  retriedOnce ++ [.deliver 1 ⟨⟨1⟩, ⟨6⟩, 0⟩, .lock 1 (smallSync none).pipeline] ++
    [.deliver 0 ⟨⟨1⟩, ⟨5⟩, 1⟩, .lock 0 (smallSync none).pipeline, .decide 1 20]

theorem running_run_stranded : ¬ ∀ (platform : Platform) (s : Cluster) (run : Uuid)
    (row : PipelineRun), Reaches (Cluster.next platform) (fun _ e => e.survives) {} s →
    s.row run = some row → row.status = .running →
    ∃ task, row.celeryTaskId = some task ∧ s.Carries run task := by
  intro hclaim
  have hfinal : (replay (Cluster.next (smallSync none).platform) (fun _ e => e.survives) {}
      bothDropped).map (fun s => ((s.row ⟨1⟩).map PipelineRun.status, s.queue,
        (s.workers 0).isNone, (s.workers 1).isNone)) = some (some .running, [], true, true) := by
    decide +kernel
  obtain ⟨s, hs, hsummary⟩ := Option.map_eq_some_iff.mp hfinal
  simp only [Prod.mk.injEq] at hsummary
  obtain ⟨hstatus, hqueue, hfirst, hsecond⟩ := hsummary
  obtain ⟨row, hrow, hrunning⟩ := Option.map_eq_some_iff.mp hstatus
  obtain ⟨task, -, ⟨m, hm, -⟩ | ⟨j, w, hw, -⟩⟩ :=
    hclaim _ s ⟨1⟩ row (Reaches.of_replay _ hs) hrow hrunning
  · simp [hqueue] at hm
  · have hactors : ∀ e ∈ bothDropped, Cluster.actor e = none ∨ Cluster.actor e = some 0 ∨
        Cluster.actor e = some 1 := by decide
    have hj : j = 0 ∨ j = 1 := by
      by_contra hother
      have hidle := Cluster.replay_other (i := j) (fun e he hj => ?_) hs
      · cases hidle.symm.trans hw
      · have hactor := hactors e he
        simp only [hj, reduceCtorEq, Option.some.injEq, false_or] at hactor
        exact hother hactor
    rcases hj with rfl | rfl
    · simp [hw] at hfirst
    · simp [hw] at hsecond

end DataLake
