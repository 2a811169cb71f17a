import DataLake.Chain
import DataLake.ClusterInvariant

/-! One owner for each run, when the messages of a task id are delivered one after
another. -/

namespace DataLake

open Foundation

/-- No message is delivered again while its execution goes on. -/
def ClusterEvent.serial : ClusterEvent → Prop
  | redeliver _ => False
  | _ => True

instance : DecidablePred ClusterEvent.serial
  | .redeliver _ => .isFalse id
  | .trigger .. | .dispatch .. | .deliver .. | .lock .. | .decide .. | .answer .. | .finish _
  | .die _ => .isTrue trivial

theorem execDispatch_queue {op : DispatchOp} {c : DispatchAnswer} {w w' : DispatchWorld}
    {r : op.Resp} (h : execDispatch op c w = some (r, w')) :
    (w'.queue = w.queue ∧ w'.issued = w.issued) ∨
    ∃ run task, task ∉ w.issued ∧ w'.queue = w.queue ++ [⟨run, task, 0⟩] ∧
      w'.issued = w.issued ++ [task] := by
  cases op with
  | delay run =>
    cases c with
    | uuid task =>
      simp only [execDispatch] at h
      split_ifs at h with hfresh
      cases h
      exact .inr ⟨run, task, hfresh, rfl, rfl⟩
    | fail e =>
      cases h
      exact .inl ⟨rfl, rfl⟩
    | _ => cases h
  | getOrCreate key defaults =>
    left
    cases c with
    | uuid fresh =>
      simp only [execDispatch] at h
      split at h
      · cases h
        exact ⟨rfl, rfl⟩
      · split_ifs at h
        cases h
        exact ⟨rfl, rfl⟩
    | _ => cases h
  | getPipeline id =>
    left
    cases c with
    | pipeline p =>
      simp only [execDispatch] at h
      split_ifs at h
      cases h
      exact ⟨rfl, rfl⟩
    | _ => cases h
  | _ => cases c <;> cases h <;> exact .inl ⟨rfl, rfl⟩

namespace Cluster

variable {platform : Platform} {s t : Cluster} {e : ClusterEvent} {i j : Nat}

theorem next_message {w : Worker} (h : s.next platform e = some t)
    (hi : t.workers i = some w) :
    (∃ v, s.workers i = some v ∧ v.message = w.message) ∨
      (e = .deliver i w.message ∧ w.message ∈ s.queue) := by
  cases next_worker h hi with
  | same hi => exact .inl ⟨w, hi, rfl⟩
  | received m he hm => exact .inr ⟨he, hm⟩
  | locked m row pipeline he hold => exact .inl ⟨_, hold, rfl⟩
  | claimed now m row claimed pipeline he hold => exact .inl ⟨_, hold, rfl⟩
  | answered c m op k r he hold => exact .inl ⟨_, hold, rfl⟩

inductive QueueStep (s : Cluster) (e : ClusterEvent) (t : Cluster) : Prop where
  | same (hdeliver : ∀ j m, e ≠ .deliver j m) (hqueue : t.queue = s.queue)
    (hissued : t.issued = s.issued)
  | enqueued (run task : Uuid) (hdeliver : ∀ j m, e ≠ .deliver j m) (hfresh : task ∉ s.issued)
    (hqueue : t.queue = s.queue ++ [⟨run, task, 0⟩]) (hissued : t.issued = s.issued ++ [task])
  | delivered (j : Nat) (m : Message) (he : e = .deliver j m) (hm : m ∈ s.queue)
    (hqueue : t.queue = s.queue.erase m) (hissued : t.issued = s.issued)
  | returned (j : Nat) (w : Worker) (m : Message) (hdeliver : ∀ j m, e ≠ .deliver j m)
    (hj : s.workers j = some w) (hended : t.workers j = none) (hrun : m.run = w.message.run)
    (htask : m.task = w.message.task) (hqueue : t.queue = s.queue ++ [m]) (hissued : t.issued = s.issued)

theorem next_queue (hserial : e.serial) (h : s.next platform e = some t) : QueueStep s e t := by
  cases e with
  | trigger i request =>
    obtain rfl := next_trigger h
    exact .same (fun _ _ h => by cases h) rfl rfl
  | dispatch i c =>
    obtain ⟨op, k, r, w, -, he, rfl⟩ := next_dispatch h
    rcases execDispatch_queue he with ⟨hqueue, hissued⟩ | ⟨run, task, hfresh, hqueue, hissued⟩
    · exact .same (fun _ _ h => by cases h) hqueue hissued
    · exact .enqueued run task (fun _ _ h => by cases h) hfresh hqueue hissued
  | deliver j m =>
    obtain ⟨-, hm, rfl⟩ := next_deliver h
    exact .delivered j m rfl hm rfl rfl
  | redeliver j => exact hserial.elim
  | lock j pipeline =>
    obtain ⟨m, -, ⟨rfl, -⟩ | ⟨row, -, -, rfl⟩⟩ := next_lock h <;>
      exact .same (fun _ _ h => by cases h) rfl rfl
  | decide j now =>
    obtain ⟨m, row, pipeline, -, ⟨e, -, rfl⟩ | ⟨claimed, -, rfl⟩⟩ := next_decide h <;>
      exact .same (fun _ _ h => by cases h) rfl rfl
  | answer j c =>
    obtain ⟨m, op, k, r, w, -, -, -, rfl⟩ := next_answer h
    exact .same (fun _ _ h => by cases h) rfl rfl
  | finish j =>
    obtain ⟨m, out, hj, rfl⟩ := next_finish h
    unfold ended
    split_ifs
    · exact .returned j _ { m with retries := m.retries + 1 } (fun _ _ h => by cases h) hj
        (setWorker_self _) rfl rfl rfl rfl
    · exact .same (fun _ _ h => by cases h) rfl rfl
  | die j =>
    obtain ⟨w, hj, rfl⟩ := next_die h
    exact .returned j w w.message (fun _ _ h => by cases h) hj (setWorker_self _) rfl rfl rfl rfl

/-- Where a task id is: in the queue, or with a worker. -/
def At (s : Cluster) (task : Uuid) : Option Nat → Prop
  | none => task ∈ s.queue.map Message.task
  | some j => ∃ w, s.workers j = some w ∧ w.message.task = task

/-- Every task id is in one place. -/
structure Tokens (s : Cluster) : Prop where
  queued : (s.queue.map Message.task).Nodup
  unique : ∀ task p q, s.At task p → s.At task q → p = q
  known : ∀ task p, s.At task p → task ∈ s.issued

theorem Tokens.empty : Tokens {} := by
  have hnone : ∀ task p, ¬ At {} task p := by
    rintro task (_ | j) h
    · cases h
    · obtain ⟨w, hw, -⟩ := h
      cases hw
  exact ⟨List.nodup_nil, fun task p _ h => absurd h (hnone task p),
    fun task p h => absurd h (hnone task p)⟩

theorem Tokens.move (task : Uuid) (place : Option Nat) (hs : s.Tokens)
    (hqueued : (t.queue.map Message.task).Nodup)
    (hat : ∀ k p, t.At k p → (k ≠ task ∧ s.At k p) ∨ (k = task ∧ p = place))
    (hknown : ∀ k, k ∈ s.issued ∨ k = task → k ∈ t.issued) : t.Tokens where
  queued := hqueued
  unique k p q hp hq := by
    rcases hat k p hp with ⟨hk, hp'⟩ | ⟨hk, rfl⟩ <;> rcases hat k q hq with ⟨hk', hq'⟩ | ⟨hk', rfl⟩
    · exact hs.unique k p q hp' hq'
    · exact absurd hk' hk
    · exact absurd hk hk'
    · rfl
  known k p hp := by
    rcases hat k p hp with ⟨-, hp'⟩ | ⟨hk, -⟩
    · exact hknown k (.inl (hs.known k p hp'))
    · exact hknown k (.inr hk)

theorem At.of_next {task : Uuid} {j : Nat} (h : s.next platform e = some t)
    (ht : t.At task (some j)) :
    s.At task (some j) ∨ ∃ m ∈ s.queue, e = .deliver j m ∧ m.task = task := by
  obtain ⟨w, hw, rfl⟩ := ht
  rcases next_message h hw with ⟨v, hv, hm⟩ | ⟨he, hm⟩
  · exact .inl ⟨v, hv, by rw [hm]⟩
  · exact .inr ⟨w.message, hm, he, rfl⟩

theorem Tokens.enqueue {run task : Uuid} (hs : s.Tokens) (h : s.next platform e = some t)
    (hdeliver : ∀ j m, e ≠ .deliver j m) (hfresh : task ∉ s.issued)
    (hqueue : t.queue = s.queue ++ [⟨run, task, 0⟩]) (hissued : t.issued = s.issued ++ [task]) :
    t.Tokens := by
  have hnew : ∀ p, ¬ s.At task p := fun p hp => hfresh (hs.known task p hp)
  refine hs.move task none ?_ ?_ ?_
  · rw [hqueue, List.map_append, List.nodup_append]
    refine ⟨hs.queued, List.nodup_singleton _, fun k hk k' hk' => ?_⟩
    obtain rfl : k' = task := by simpa using hk'
    rintro rfl
    exact hnew none hk
  · rintro k (_ | j) hp
    · have hmem : k ∈ s.queue.map Message.task ∨ k = task := by
        simpa [At, hqueue] using hp
      rcases hmem with hold | rfl
      · exact .inl ⟨fun hk => hnew none (hk ▸ hold), hold⟩
      · exact .inr ⟨rfl, rfl⟩
    · rcases hp.of_next h with hold | ⟨m, -, he, -⟩
      · exact .inl ⟨fun hk => hnew _ (hk ▸ hold), hold⟩
      · exact absurd he (hdeliver j m)
  · simp [hissued]

theorem Tokens.deliver {m : Message} (hs : s.Tokens) (h : s.next platform (.deliver j m) = some t)
    (hm : m ∈ s.queue) (hqueue : t.queue = s.queue.erase m) (hissued : t.issued = s.issued) :
    t.Tokens := by
  have hat : s.At m.task none := List.mem_map.mpr ⟨m, hm, rfl⟩
  have hperm : s.queue.Perm (m :: t.queue) := hqueue ▸ List.perm_cons_erase hm
  have hnodup : (m.task :: t.queue.map Message.task).Nodup :=
    ((hperm.map Message.task).nodup_iff).mp hs.queued
  obtain ⟨hgone, hrest⟩ := List.nodup_cons.mp hnodup
  refine hs.move m.task (some j) hrest ?_ ?_
  · rintro k (_ | i) hp
    · have hold : k ∈ s.queue.map Message.task :=
        (hperm.map Message.task).mem_iff.mpr (List.mem_cons_of_mem _ hp)
      exact .inl ⟨fun hk => hgone (hk ▸ hp), hold⟩
    · rcases hp.of_next h with hold | ⟨m', -, he, rfl⟩
      · refine .inl ⟨?_, hold⟩
        rintro rfl
        cases hs.unique _ _ _ hat hold
      · cases he
        exact .inr ⟨rfl, rfl⟩
  · rintro k (hk | rfl)
    · rwa [hissued]
    · rw [hissued]
      exact hs.known _ _ hat

theorem Tokens.giveBack {w : Worker} {m : Message} (hs : s.Tokens)
    (h : s.next platform e = some t) (hdeliver : ∀ j m, e ≠ .deliver j m)
    (hj : s.workers j = some w) (hended : t.workers j = none) (htask : m.task = w.message.task)
    (hqueue : t.queue = s.queue ++ [m]) (hissued : t.issued = s.issued) : t.Tokens := by
  have hat : s.At m.task (some j) := ⟨w, hj, htask.symm⟩
  have hnot : m.task ∉ s.queue.map Message.task := fun hmem => by
    cases hs.unique _ none _ hmem hat
  refine hs.move m.task none ?_ ?_ ?_
  · rw [hqueue, List.map_append, List.nodup_append]
    refine ⟨hs.queued, List.nodup_singleton _, fun k hk k' hk' => ?_⟩
    obtain rfl : k' = m.task := by simpa using hk'
    rintro rfl
    exact hnot hk
  · rintro k (_ | i) hp
    · have hmem : k ∈ s.queue.map Message.task ∨ k = m.task := by
        simpa [At, hqueue] using hp
      rcases hmem with hold | rfl
      · exact .inl ⟨fun hk => hnot (hk ▸ hold), hold⟩
      · exact .inr ⟨rfl, rfl⟩
    · rcases hp.of_next h with hold | ⟨m', -, he, -⟩
      · refine .inl ⟨?_, hold⟩
        rintro rfl
        cases hs.unique _ _ _ hat hold
        obtain ⟨v, hv, -⟩ := hp
        cases hended.symm.trans hv
      · exact absurd he (hdeliver i m')
  · rintro k (hk | rfl)
    · rwa [hissued]
    · rw [hissued]
      exact hs.known _ _ hat

theorem Tokens.next (hs : s.Tokens) (hserial : e.serial) (h : s.next platform e = some t) :
    t.Tokens := by
  cases next_queue hserial h with
  | same hdeliver hqueue hissued =>
    have hat : ∀ task p, t.At task p → s.At task p := by
      rintro task (_ | j) hp
      · rwa [At, hqueue] at hp
      · rcases hp.of_next h with hold | ⟨m, -, he, -⟩
        · exact hold
        · exact absurd he (hdeliver j m)
    exact ⟨hqueue ▸ hs.queued, fun task p q hp hq => hs.unique task p q (hat _ _ hp) (hat _ _ hq),
      fun task p hp => hissued ▸ hs.known task p (hat _ _ hp)⟩
  | enqueued run task hdeliver hfresh hqueue hissued =>
    exact hs.enqueue h hdeliver hfresh hqueue hissued
  | delivered j m he hm hqueue hissued =>
    subst he
    exact hs.deliver h hm hqueue hissued
  | returned j w m hdeliver hj hended hrun htask hqueue hissued =>
    exact hs.giveBack h hdeliver hj hended htask hqueue hissued

/-! What a run keeps. -/

/-- From one state to a later one: the owner of a run stays, and no claim is granted
once the run has ended. -/
structure Keeps (s t : Cluster) : Prop where
  owner : ∀ run row task, s.row run = some row → row.celeryTaskId = some task →
    ∃ row', t.row run = some row' ∧ row'.celeryTaskId = some task
  ended : ∀ run row, s.row run = some row → row.status.terminal = true →
    t.claims.count run = s.claims.count run ∧
      ∃ row', t.row run = some row' ∧ row'.status.terminal = true

theorem Keeps.refl (s : Cluster) : s.Keeps s :=
  ⟨fun _ row _ hrow htask => ⟨row, hrow, htask⟩, fun _ row hrow h => ⟨rfl, row, hrow, h⟩⟩

theorem Keeps.trans {u : Cluster} (h : s.Keeps t) (h' : t.Keeps u) : s.Keeps u where
  owner run row task hrow htask := by
    obtain ⟨row', hrow', htask'⟩ := h.owner run row task hrow htask
    exact h'.owner run row' task hrow' htask'
  ended run row hrow hterminal := by
    obtain ⟨hcount, row', hrow', hterminal'⟩ := h.ended run row hrow hterminal
    obtain ⟨hcount', hrow''⟩ := h'.ended run row' hrow' hterminal'
    exact ⟨hcount'.trans hcount, hrow''⟩

theorem RowStep.ended {run : Uuid} {row : PipelineRun} (h : RowStep s e t run)
    (hrow : s.row run = some row) (hterminal : row.status.terminal = true) :
    t.claims.count run = s.claims.count run ∧
      ∃ row', t.row run = some row' ∧ row'.status.terminal = true := by
  cases h with
  | same hsame hclaims => exact ⟨hclaims, row, hsame.trans hrow, hterminal⟩
  | created new hnone => cases hnone.symm.trans hrow
  | saved j c m fields copy old k he hj hrun hfree hsaves hold hnew hclaims =>
    obtain rfl := Option.some.inj (hold.symm.trans hrow)
    obtain ⟨-, -, hstatus⟩ := savesOwn_write old hsaves
    refine ⟨by rw [hclaims], _, hnew, ?_⟩
    rcases hstatus with h | h
    · rwa [h]
    · exact h
  | claimed j now m old pipeline he hj hrun hold hstatus hnew =>
    obtain rfl := Option.some.inj (hold.symm.trans hrow)
    rcases hstatus with h | ⟨h, -⟩ <;> rw [h] at hterminal <;> cases hterminal

theorem Invariant.keeps (hs : s.Invariant) (h : s.next platform e = some t) : s.Keeps t where
  owner run row task hrow htask := by
    have hstatus : row.status ≠ .pending := fun hpending => by
      cases htask.symm.trans ((hs.unowned run row hrow).mp hpending)
    obtain ⟨row', hrow', -, htask'⟩ := (hs.row_step _ h).owned ⟨row, hrow, hstatus, htask⟩
    exact ⟨row', hrow', htask'⟩
  ended _ _ hrow hterminal := (hs.row_step _ h).ended hrow hterminal

theorem serial_run (hs : s.Invariant) (htokens : s.Tokens)
    (h : Reaches (next platform) (fun _ e => e.serial) s t) :
    (t.Invariant ∧ t.Tokens) ∧ s.Keeps t := by
  refine h.relates (I := fun s => s.Invariant ∧ s.Tokens) Keeps.refl
    (fun _ _ _ h h' => h.trans h') ⟨hs, htokens⟩ fun s e t hi hok he => ?_
  exact ⟨⟨hi.1.next he, hi.2.next hok he⟩, hi.1.keeps he⟩

theorem Tokens.one_executor {m m' : Message} {body body' : RunProg Unit} (hs : s.Tokens)
    (hinv : s.Invariant) (hi : s.workers i = some (.executing m body))
    (hj : s.workers j = some (.executing m' body')) (hrun : m.run = m'.run) : i = j := by
  obtain ⟨-, row, hrow, -, htask⟩ := hinv.executing i m body hi
  obtain ⟨-, row', hrow', -, htask'⟩ := hinv.executing j m' body' hj
  rw [hrun] at hrow
  obtain rfl := Option.some.inj (hrow.symm.trans hrow')
  have hsame : m.task = m'.task := Option.some.inj (htask.symm.trans htask')
  exact Option.some.inj (hs.unique m.task _ _ ⟨_, hi, rfl⟩ ⟨_, hj, hsame.symm⟩)

end Cluster

theorem single_ownership {platform : Platform} {s t : Cluster}
    (hs : Reaches (Cluster.next platform) (fun _ e => e.serial) {} s)
    (ht : Reaches (Cluster.next platform) (fun _ e => e.serial) s t) :
    (∀ run row task, s.row run = some row → row.celeryTaskId = some task →
      ∃ row', t.row run = some row' ∧ row'.celeryTaskId = some task) ∧
    (∀ j m body, t.workers j = some (.executing m body) →
      ∃ row, t.row m.run = some row ∧ row.celeryTaskId = some m.task) ∧
    (∀ i j m m' body body', t.workers i = some (.executing m body) →
      t.workers j = some (.executing m' body') → m.run = m'.run → i = j) ∧
    (∀ run row, s.row run = some row → row.status.terminal = true →
      t.claims.count run = s.claims.count run) ∧
    ∀ run row, t.row run = some row → row.attempt = t.claims.count run := by
  obtain ⟨⟨hinv, htokens⟩, -⟩ := Cluster.serial_run .empty .empty hs
  obtain ⟨⟨hinv', htokens'⟩, hkeeps⟩ := Cluster.serial_run hinv htokens ht
  refine ⟨hkeeps.owner, fun j m body hj => ?_, fun i j m m' body body' hi hj hrun => ?_,
    fun run row hrow hterminal => (hkeeps.ended run row hrow hterminal).1, fun run row hrow => ?_⟩
  · obtain ⟨-, row, hrow, -, htask⟩ := hinv'.executing j m body hj
    exact ⟨row, hrow, htask⟩
  · exact htokens'.one_executor hinv' hi hj hrun
  · rw [hinv'.attempts, hrow]
    rfl

/-- The run is requested twice under one key, so that two messages are about it. -/
def twoMessages : List ClusterEvent :=
  let request : Request := .direct (smallSync none).pipeline (some "first".toList) none
  [.trigger 0 request, .dispatch 0 (.uuid ⟨1⟩), .dispatch 0 (.uuid ⟨5⟩),
    .trigger 1 request, .dispatch 1 (.uuid ⟨2⟩), .dispatch 1 (.uuid ⟨6⟩)]

def takes (j : Nat) (m : Message) : List ClusterEvent :=
  [.deliver j m, .lock j (smallSync (some 2)).pipeline, .decide j 10]

def failsEarly (j : Nat) (retryable : Bool) : List ClusterEvent :=
  [.answer j (.clock 11), .answer j .done,
    .answer j (.fail (.dataLake ⟨"no credential", retryable, "CredentialError"⟩))]

def recordsFailure (j : Nat) : List ClusterEvent :=
  [.answer j (.clock 12), .answer j .done, .answer j (.clock 12), .answer j .done]

/-- The first message ends the run, and the claim of the second is rejected. -/
theorem single_ownership_failed : ∃ s t : Cluster,
    Reaches (Cluster.next (smallSync none).platform) (fun _ e => e.serial) {} s ∧
    Reaches (Cluster.next (smallSync none).platform) (fun _ e => e.serial) s t ∧
    (s.row ⟨1⟩).map PipelineRun.status = some .failed ∧ s.queue = [⟨⟨1⟩, ⟨6⟩, 0⟩] ∧ t.queue = [] ∧
    t.claims.count ⟨1⟩ = s.claims.count ⟨1⟩ := by
  have hfinal : ((replay (Cluster.next (smallSync none).platform) (fun _ e => e.serial) {}
      (twoMessages ++ takes 0 ⟨⟨1⟩, ⟨5⟩, 0⟩ ++ failsEarly 0 false ++ recordsFailure 0 ++
        [.finish 0])).bind fun s =>
      (replay (Cluster.next (smallSync none).platform) (fun _ e => e.serial) s
        (takes 0 ⟨⟨1⟩, ⟨6⟩, 0⟩)).map fun t =>
          ((s.row ⟨1⟩).map PipelineRun.status, s.queue, t.queue)) =
      some (some .failed, [⟨⟨1⟩, ⟨6⟩, 0⟩], []) := by
    decide +kernel
  obtain ⟨s, hs, hrest⟩ := Option.bind_eq_some_iff.mp hfinal
  obtain ⟨t, ht, hsummary⟩ := Option.map_eq_some_iff.mp hrest
  simp only [Prod.mk.injEq] at hsummary
  obtain ⟨hstatus, hqueue, hqueue'⟩ := hsummary
  have hreach := Reaches.of_replay _ hs
  have hreach' := Reaches.of_replay _ ht
  refine ⟨s, t, hreach, hreach', hstatus, hqueue, hqueue', ?_⟩
  obtain ⟨row, hrow, hfailed⟩ := Option.map_eq_some_iff.mp hstatus
  exact (single_ownership hreach hreach').2.2.2.1 ⟨1⟩ row hrow (by rw [hfailed]; rfl)

end DataLake
