import DataLake.Attempts
import DataLake.Chain

/-! The history of a run's attempts: which of them are recorded as ended. -/

namespace DataLake

open Foundation

def World.history (w : World) (run : Uuid) : List TaskExecution :=
  w.taskExecutions.filter fun t => t.run = run

def TaskExecution.Closed (t : TaskExecution) : Prop :=
  (t.status = .succeeded ∨ t.status = .failed) ∧ t.finishedAt.isSome = true

/-- Only the attempt being executed is RUNNING, and the others are recorded as ended. -/
structure ClosedHistory (s : Attempts) : Prop where
  running : ∀ t ∈ s.watched.world.history s.run, t.status = .running →
    s.attempt ≠ none ∧ ∃ row, s.row = some row ∧ t.attempt = row.attempt
  one : ((s.watched.world.history s.run).filter fun t => t.status = .running).length ≤ 1
  ended : ∀ row k, s.row = some row → 1 ≤ k → k ≤ row.attempt →
    (k = row.attempt → s.attempt = none) →
    ∃ t ∈ s.watched.world.history s.run, t.attempt = k ∧ t.Closed
  final : ∀ row, s.row = some row → row.status.terminal = true → s.attempt = none →
    ∀ t ∈ s.watched.world.history s.run, t.status ≠ .running

variable {claimed copy : PipelineRun} {ended : List TaskExecution} {task : TaskExecution}
  {w w' : World} {op : RunOp} {c : RunAnswer} {r : op.Resp} {platform : Platform}
  {pipeline : Pipeline} {tenant : Uuid} {isFinal : Bool} {t t' : Watched}

/-- The row keeps the number of the attempt, and the history is as it says. -/
structure Tracks (claimed : PipelineRun) (history : List TaskExecution) (t : Watched) : Prop where
  row : ∃ row, findRun t.world.runs claimed.id = some row ∧ row.attempt = claimed.attempt
  history : t.world.history claimed.id = history

/-- At any moment of an attempt: it is not in the history yet, or it is the last one there. -/
def Tracked (claimed : PipelineRun) (ended : List TaskExecution) (t : Watched) : Prop :=
  Tracks claimed ended t ∨ ∃ task : TaskExecution, task.run = claimed.id ∧
    task.attempt = claimed.attempt ∧ Tracks claimed (ended ++ [task]) t

def keepsHistory : RunOp → Prop
  | .createTaskExecution _ | .saveTaskExecution _ => False
  | _ => True

theorem execRun_history (hop : keepsHistory op) (he : execRun op c w = some (r, w')) :
    w'.taskExecutions = w.taskExecutions := by
  cases op with
  | createTaskExecution t => exact hop.elim
  | saveTaskExecution t => exact hop.elim
  | raw op =>
    cases c with
    | raw a =>
      simp only [execRun, Option.map_eq_some_iff, Prod.mk.injEq] at he
      obtain ⟨x, -, -, rfl⟩ := he
      rfl
    | _ => cases he
  | _ => cases c <;> cases he <;> rfl

theorem savesOwn_attempt {row : PipelineRun} {fields : RunFields}
    (hop : savesOwn claimed.id (.saveRun fields copy)) :
    (fields.write copy row).attempt = row.attempt := (savesOwn_write row hop).2.1

theorem Tracks.call {history : List TaskExecution} (h : Tracks claimed history t)
    (he : execWatched tenant pipeline claimed.id op c t = some (r, t'))
    (hop : savesOwn claimed.id op) (hkeeps : keepsHistory op) :
    Tracks claimed history t' := by
  obtain ⟨-, w, hexec, rfl⟩ := execWatched_some he
  obtain ⟨row, hrow, hattempt⟩ := h.row
  refine ⟨?_, ?_⟩
  · rw [observe_world]
    rcases execRun_runs hexec with hruns | ⟨fields, copy, rfl, hruns⟩
    · exact ⟨row, by rw [hruns, hrow], hattempt⟩
    · refine ⟨fields.write copy row, ?_, by rw [savesOwn_attempt hop, hattempt]⟩
      rw [hruns, findRun_saveFields, hrow]
      simp [hop.1]
  · rw [observe_world, World.history, execRun_history hkeeps hexec]
    exact h.history

theorem Tracks.create (h : Tracks claimed ended t) (hrun : task.run = claimed.id) {r : Unit}
    (he : execWatched tenant pipeline claimed.id (.createTaskExecution task) c t = some (r, t')) :
    Tracks claimed (ended ++ [task]) t' := by
  obtain ⟨-, w, hexec, rfl⟩ := execWatched_some he
  cases c with
  | done =>
    cases hexec
    refine ⟨?_, ?_⟩
    · rw [observe_world]
      exact h.row
    · rw [observe_world, World.history, List.filter_append, ← h.history]
      simp [World.history, hrun]
  | _ => cases hexec

theorem Tracks.save (h : Tracks claimed (ended ++ [task]) t) {task' : TaskExecution} {r : Unit}
    (he : execWatched tenant pipeline claimed.id (.saveTaskExecution task') c t = some (r, t'))
    (hattempt : task.attempt = claimed.attempt) (hrun' : task'.run = task.run)
    (hattempt' : task'.attempt = task.attempt)
    (hothers : ∀ u ∈ ended, u.attempt ≠ claimed.attempt) :
    Tracks claimed (ended ++ [task']) t' := by
  obtain ⟨-, w, hexec, rfl⟩ := execWatched_some he
  cases c with
  | done =>
    cases hexec
    refine ⟨?_, ?_⟩
    · rw [observe_world]
      exact h.row
    · have hfilter : ∀ l : List TaskExecution,
          (l.map fun row => if row.run = task'.run ∧ row.attempt = task'.attempt then task'
            else row).filter (fun t => t.run = claimed.id) =
          (l.filter fun t => t.run = claimed.id).map fun row =>
            if row.run = task'.run ∧ row.attempt = task'.attempt then task' else row := by
        intro l
        rw [List.filter_map]
        congr 1
        refine List.filter_congr fun row _ => ?_
        simp only [Function.comp_apply]
        split_ifs with hsame
        · simp [hsame.1]
        · rfl
      have hhistory := h.history
      rw [World.history] at hhistory
      rw [observe_world, World.history, hfilter, hhistory, List.map_append]
      congr 1
      · have hsame : ∀ u ∈ ended, (if u.run = task'.run ∧ u.attempt = task'.attempt then task'
            else u) = id u := by
          intro u hu
          rw [hattempt', hattempt, if_neg fun hu' => hothers u hu hu'.2]
          rfl
        rw [List.map_congr_left hsame, List.map_id]
      · simp [hrun', hattempt']
  | _ => cases hexec

/-! The attempt, call by call. -/

structure Own (claimed : PipelineRun) (task : TaskExecution) : Prop where
  run : task.run = claimed.id
  attempt : task.attempt = claimed.attempt

def Guards (claimed : PipelineRun) (ended : List TaskExecution) (_ t : Watched) : Prop :=
  Tracked claimed ended t

theorem Tracks.guards {v : Watched} (h : Tracks claimed (ended ++ [task]) t)
    (hown : Own claimed task) : Guards claimed ended v t := .inr ⟨task, hown.run, hown.attempt, h⟩

/-- How an attempt leaves its row: RUNNING if it asks for another one, else closed. -/
def Leaves (claimed : PipelineRun) (ended : List TaskExecution) (retry : Bool) (t : Watched) :
    Prop :=
  ∃ task : TaskExecution, Own claimed task ∧ Tracks claimed (ended ++ [task]) t ∧
    if retry = true then task.status = .running else task.Closed

section Body

variable (hothers : ∀ u ∈ ended, u.attempt ≠ claimed.attempt)
include hothers

theorem recordSuccess_history (hcopy : Owned claimed copy) (hown : Own claimed task)
    (h : Tracks claimed (ended ++ [task]) t) :
    (recordSuccess copy task).Safe (execWatched tenant pipeline claimed.id) Eq
      (Guards claimed ended) (fun out t' => out = .ok () ∧ Leaves claimed ended false t') t := by
  refine safe_runCall fun c now t₁ he => ?_
  have h₁ := h.call he trivial trivial
  refine ⟨h₁.guards hown, safe_runCall fun c finishedAt t₂ he => ?_⟩
  have h₂ := h₁.call he trivial trivial
  refine ⟨h₂.guards hown, ?_⟩
  simp only [markRunSucceeded, hcopy.2, ne_eq, not_true_eq_false, if_false, Except.mapError]
  rw [orRaise_ok]
  refine safe_runCall fun c r t₃ he => ?_
  have h₃ := h₂.call he ⟨hcopy.1, by decide, fun _ => rfl⟩ trivial
  refine ⟨h₃.guards hown, ?_⟩
  rintro _ rfl c r t₄ he
  have h₄ := h₃.save he hown.attempt rfl rfl hothers
  refine ⟨h₄.guards ⟨hown.run, hown.attempt⟩, ?_⟩
  rintro _ rfl
  exact ⟨rfl, _, by exact ⟨hown.run, hown.attempt⟩, h₄, .inl rfl, rfl⟩

theorem recordFailure_history (hstatus : claimed.status = .running) (hown : Own claimed task)
    (hrunning : task.status = .running) (h : Tracks claimed (ended ++ [task]) t)
    (e : DataLakeError) :
    (recordFailure platform claimed task e isFinal).Safe (execWatched tenant pipeline claimed.id)
      Eq (Guards claimed ended)
      (fun out t' => out = .ok () ∧ Leaves claimed ended (e.retryable && !isFinal) t') t := by
  unfold recordFailure
  dsimp only
  split_ifs with hfinal
  · have hretry : (e.retryable && !isFinal) = false := by
      cases isFinal <;> simp_all
    rw [hretry]
    refine safe_runCall fun c now t₁ he => ?_
    have h₁ := h.call he trivial trivial
    refine ⟨h₁.guards hown, ?_⟩
    simp only [markRunFailed, hstatus, ne_eq, not_true_eq_false, if_false, Except.mapError]
    rw [orRaise_ok]
    refine safe_runCall fun c r t₂ he => ?_
    have h₂ := h₁.call he ⟨rfl, by decide, fun _ => rfl⟩ trivial
    refine ⟨h₂.guards hown, safe_runCall fun c finishedAt t₃ he => ?_⟩
    have h₃ := h₂.call he trivial trivial
    refine ⟨h₃.guards hown, ?_⟩
    rintro _ rfl c r t₄ he
    have h₄ := h₃.save he hown.attempt rfl rfl hothers
    refine ⟨h₄.guards ⟨hown.run, hown.attempt⟩, ?_⟩
    rintro _ rfl
    exact ⟨rfl, _, by exact ⟨hown.run, hown.attempt⟩, h₄, .inr rfl, rfl⟩
  · have hretry : (e.retryable && !isFinal) = true := by
      cases isFinal <;> simp_all
    rw [hretry]
    refine safe_runCall fun c r t₁ he => ?_
    have h₁ := h.call he ⟨rfl, by decide, fun h => by cases h⟩ trivial
    refine ⟨h₁.guards hown, ?_⟩
    rintro _ rfl c r t₂ he
    have h₂ := h₁.save he hown.attempt rfl rfl hothers
    refine ⟨h₂.guards ⟨hown.run, hown.attempt⟩, ?_⟩
    rintro _ rfl
    exact ⟨rfl, _, by exact ⟨hown.run, hown.attempt⟩, h₂, hrunning⟩

theorem runBody_history (hstatus : claimed.status = .running) (h : Tracks claimed ended t) :
    (runBody platform pipeline claimed isFinal).Safe (execWatched tenant pipeline claimed.id) Eq
      (Guards claimed ended) (fun out t' => Leaves claimed ended (asksRetry isFinal out) t') t := by
  refine safe_runCall fun c startedAt t₁ he => ?_
  have h₁ := h.call he trivial trivial
  refine ⟨.inl h₁, safe_runCall fun c r t₂ he => ?_⟩
  have hown : Own claimed { run := claimed.id, attempt := claimed.attempt, startedAt } := ⟨rfl, rfl⟩
  have h₂ := h₁.create rfl he
  refine ⟨h₂.guards hown, ?_⟩
  have hexecute : (execute platform pipeline claimed).Safe (execWatched tenant pipeline claimed.id)
      Eq (Guards claimed ended) _ t₂ := ((execute_within platform pipeline ⟨rfl, hstatus⟩).and
    (execute_issues claimed platform pipeline (P := keepsHistory) (fun _ => trivial)
      (fun _ => trivial) (fun _ => trivial) (fun _ => trivial) fun _ => trivial)).safe
    (fun v v' hv heq => heq ▸ hv)
    (fun op hop v c r v' hv he => ⟨(hv.call he hop.1.own hop.2).guards hown,
      hv.call he hop.1.own hop.2⟩) h₂
  refine hexecute.handle (fun _ => rfl) (fun copy v hv => ?_) fun e v hv => ?_
  · refine (recordSuccess_history hothers hv.2 hown hv.1).weaken fun out t' hout => ?_
    obtain ⟨rfl, hleaves⟩ := hout
    exact hleaves
  · refine (recordFailure_history hothers hstatus hown rfl hv.1 e.wrapped).handle (fun _ => rfl)
      (fun _ u hu => ?_) fun e' u hu => absurd hu.1 nofun
    rintro _ rfl
    exact hu.2

end Body

/-! The attempts of a run. -/

/-- The attempts that have ended, in order, and whether they are closed. -/
structure Recorded (retried : Bool) (ended : List TaskExecution) : Prop where
  numbers : ended.map TaskExecution.attempt = List.range' 1 ended.length
  closed : retried = false → ∀ t ∈ ended, t.Closed
  left : retried = true → ∃ t ∈ ended, t.status = .running

def HistoryInv (tenant : Uuid) (s : Attempts) : Prop :=
  ∃ ended, Recorded s.retried ended ∧
    match s.attempt with
    | none => s.watched.world.history s.run = ended ∧
        ∃ row, s.row = some row ∧ row.attempt = ended.length
    | some (pipeline, isFinal, p) => ∃ claimed : PipelineRun, claimed.id = s.run ∧
        claimed.attempt = ended.length + 1 ∧ Tracked claimed ended s.watched ∧
        p.Safe (execWatched tenant pipeline claimed.id) Eq (Guards claimed ended)
          (fun out t => Leaves claimed ended (asksRetry isFinal out) t) s.watched

theorem Recorded.attempt_mem {retried : Bool} (h : Recorded retried ended) {k : Nat} :
    (∃ t ∈ ended, t.attempt = k) ↔ 1 ≤ k ∧ k ≤ ended.length := by
  have hmem : k ∈ ended.map TaskExecution.attempt ↔ 1 ≤ k ∧ k ≤ ended.length := by
    rw [h.numbers, List.mem_range'_1]
    omega
  rw [← hmem, List.mem_map]

theorem Recorded.append {retried retry : Bool} (h : Recorded retried ended)
    (hattempt : task.attempt = ended.length + 1)
    (hleft : if retry = true then task.status = .running else task.Closed) :
    Recorded (retried || retry) (ended ++ [task]) where
  numbers := by
    rw [List.map_append, h.numbers, List.length_append, List.length_singleton, List.range'_concat]
    simp [hattempt, Nat.add_comm]
  closed hnone t ht := by
    obtain ⟨hretried, rfl⟩ : retried = false ∧ retry = false := by simpa using hnone
    rcases List.mem_append.mp ht with ht | ht
    · exact h.closed hretried t ht
    · rw [List.mem_singleton.mp ht]
      simpa using hleft
  left hsome := by
    cases retry with
    | true => exact ⟨task, by simp, by simpa using hleft⟩
    | false =>
      obtain ⟨t, ht, hrunning⟩ := h.left (by simpa using hsome)
      exact ⟨t, List.mem_append_left _ ht, hrunning⟩

def sameRun : AttemptsEvent → Prop
  | .continueRun _ _ _ => False
  | _ => True

variable {s u : Attempts}

theorem HistoryInv.deliver {task : Uuid} {now : Nat} (hs : HistoryInv tenant s)
    (h : s.next platform tenant (.deliver pipeline task isFinal now) = some u) :
    HistoryInv tenant u := by
  obtain ⟨hattempt, row, hrow, rfl | ⟨claimed, hclaim, rfl⟩⟩ := Attempts.next_deliver h
  · exact hs
  · obtain ⟨ended, hrecorded, hstate⟩ := hs
    rw [hattempt] at hstate
    obtain ⟨hhistory, row', hrow', hnumber⟩ := hstate
    rw [hrow] at hrow'
    cases hrow'
    obtain rfl := (claimRun_ok hclaim).2
    have hid : (claimedRow row task now).id = s.run := by
      change row.id = s.run
      exact findRun_id hrow
    have htracks : Tracks (claimedRow row task now) ended
        (s.claim platform pipeline (claimedRow row task now) isFinal).watched :=
      ⟨⟨_, findRun_claim hrow task now, rfl⟩, by rw [hid]; exact hhistory⟩
    have hothers : ∀ u ∈ ended, u.attempt ≠ (claimedRow row task now).attempt := by
      intro u hu heq
      have hle := (hrecorded.attempt_mem.mp ⟨u, hu, rfl⟩).2
      rw [heq, ← hnumber] at hle
      exact absurd hle (Nat.not_succ_le_self _)
    exact ⟨ended, hrecorded, _, hid, by rw [← hnumber]; rfl, .inl htracks,
      runBody_history hothers rfl htracks⟩

theorem HistoryInv.answer (hs : HistoryInv tenant s)
    (h : s.next platform tenant (.answer c) = some u) : HistoryInv tenant u := by
  obtain ⟨pipeline, isFinal, p, p', watched, hattempt, hp, rfl⟩ := Attempts.next_answer h
  obtain ⟨ended, hrecorded, hstate⟩ := hs
  rw [hattempt] at hstate
  obtain ⟨claimed, hid, hnumber, -, hsafe⟩ := hstate
  rw [← hid] at hp
  obtain ⟨hguards, hsafe'⟩ := hsafe.step (fun _ => rfl) hp
  exact ⟨ended, hrecorded, claimed, hid, hnumber, hguards, hsafe'⟩

theorem HistoryInv.finish (hs : HistoryInv tenant s)
    (h : s.next platform tenant .finish = some u) : HistoryInv tenant u := by
  obtain ⟨pipeline, isFinal, out, hattempt, rfl⟩ := Attempts.next_finish h
  obtain ⟨ended, hrecorded, hstate⟩ := hs
  rw [hattempt] at hstate
  obtain ⟨claimed, hid, hnumber, -, hsafe⟩ := hstate
  obtain ⟨task, hown, htracks, hleft⟩ := hsafe.ended fun _ => rfl
  obtain ⟨row, hrow, hattempt'⟩ := htracks.row
  refine ⟨ended ++ [task], hrecorded.append (hown.attempt.trans hnumber) hleft, ?_, row, ?_, ?_⟩
  · rw [← hid]
    exact htracks.history
  · show findRun s.watched.world.runs s.run = some row
    rw [← hid]
    exact hrow
  · simp [hattempt', hnumber]

theorem HistoryInv.next {e : AttemptsEvent} (hs : HistoryInv tenant s) (hok : sameRun e)
    (h : s.next platform tenant e = some u) : HistoryInv tenant u := by
  cases e with
  | deliver pipeline task isFinal now => exact hs.deliver h
  | answer c => exact hs.answer h
  | finish => exact hs.finish h
  | continueRun pipeline key policy => exact hok.elim

def Attempts.start (w : World) (run : Uuid) : Attempts := { watched := { world := w }, run }

theorem historyInv_start {w : World} {row : PipelineRun} (hrow : findRun w.runs row.id = some row)
    (hattempt : row.attempt = 0) (hnone : ∀ t ∈ w.taskExecutions, t.run ≠ row.id) :
    HistoryInv tenant (.start w row.id) := by
  refine ⟨[], ⟨rfl, fun _ t ht => ?_, nofun⟩, ?_, row, hrow, hattempt⟩
  · cases ht
  · rw [World.history, List.filter_eq_nil_iff]
    intro t ht hrun
    exact hnone t ht (of_decide_eq_true hrun)

/-- Where the history of the run stands: the attempts that have ended, and the one that is
being executed. -/
theorem HistoryInv.split (hs : HistoryInv tenant s) :
    ∃ ended, Recorded s.retried ended ∧
      ((s.attempt = none ∧ s.watched.world.history s.run = ended ∧
        ∃ row, s.row = some row ∧ row.attempt = ended.length) ∨
      (s.attempt ≠ none ∧ (∃ row, s.row = some row ∧ row.attempt = ended.length + 1) ∧
        (s.watched.world.history s.run = ended ∨ ∃ task, task.attempt = ended.length + 1 ∧
          s.watched.world.history s.run = ended ++ [task]))) := by
  obtain ⟨ended, hrecorded, hstate⟩ := hs
  refine ⟨ended, hrecorded, ?_⟩
  cases hattempt : s.attempt with
  | none =>
    rw [hattempt] at hstate
    exact .inl ⟨rfl, hstate⟩
  | some x =>
    obtain ⟨pipeline, isFinal, p⟩ := x
    rw [hattempt] at hstate
    obtain ⟨claimed, hid, hnumber, htracked, -⟩ := hstate
    refine .inr ⟨nofun, ?_⟩
    rw [Attempts.row, Attempts.runs, ← hid]
    rcases htracked with htracks | ⟨task, -, htask, htracks⟩
    · obtain ⟨row, hrow, hattempt⟩ := htracks.row
      exact ⟨⟨row, hrow, hattempt.trans hnumber⟩, .inl htracks.history⟩
    · obtain ⟨row, hrow, hattempt⟩ := htracks.row
      exact ⟨⟨row, hrow, hattempt.trans hnumber⟩, .inr ⟨task, htask.trans hnumber, htracks.history⟩⟩

theorem TaskExecution.Closed.not_running {t : TaskExecution} (h : t.Closed) :
    t.status ≠ .running := by
  rcases h.1 with hstatus | hstatus <;> rw [hstatus] <;> nofun

theorem HistoryInv.closed (hs : HistoryInv tenant s) (hretried : s.retried = false) :
    ClosedHistory s := by
  obtain ⟨ended, hrecorded, hstate⟩ := hs.split
  have hclosed := hrecorded.closed hretried
  have hnone : (ended.filter fun t => t.status = .running) = [] := by
    rw [List.filter_eq_nil_iff]
    intro t ht
    simpa using (hclosed t ht).not_running
  have hmem : ∀ k, 1 ≤ k → k ≤ ended.length → ∃ t ∈ ended, t.attempt = k ∧ t.Closed := by
    intro k hk hle
    obtain ⟨t, ht, hnumber⟩ := hrecorded.attempt_mem.mpr ⟨hk, hle⟩
    exact ⟨t, ht, hnumber, hclosed t ht⟩
  rcases hstate with ⟨hidle, hhistory, row, hrow, hnumber⟩ |
    ⟨hbusy, ⟨row, hrow, hnumber⟩, hhistory⟩
  · refine ⟨fun t ht hrunning => ?_, ?_, fun row' k hrow' hk hle _ => ?_, fun _ _ _ _ t ht => ?_⟩
    · rw [hhistory] at ht
      exact absurd hrunning (hclosed t ht).not_running
    · rw [hhistory, hnone]
      exact Nat.zero_le _
    · rw [hrow] at hrow'
      cases hrow'
      rw [hhistory]
      exact hmem k hk (hnumber ▸ hle)
    · rw [hhistory] at ht
      exact (hclosed t ht).not_running
  · have hended : ∀ k, 1 ≤ k → k ≤ row.attempt → (k = row.attempt → s.attempt = none) →
        ∃ t ∈ ended, t.attempt = k ∧ t.Closed := by
      intro k hk hle hother
      have hne : k ≠ row.attempt := fun heq => hbusy (hother heq)
      exact hmem k hk (by omega)
    rcases hhistory with hhistory | ⟨task, htask, hhistory⟩
    · refine ⟨fun t ht hrunning => ?_, ?_, fun row' k hrow' hk hle hother => ?_,
        fun _ _ _ hidle => absurd hidle hbusy⟩
      · rw [hhistory] at ht
        exact absurd hrunning (hclosed t ht).not_running
      · rw [hhistory, hnone]
        exact Nat.zero_le _
      · rw [hrow] at hrow'
        cases hrow'
        rw [hhistory]
        exact hended k hk hle hother
    · refine ⟨fun t ht hrunning => ⟨hbusy, row, hrow, ?_⟩, ?_, fun row' k hrow' hk hle hother => ?_,
        fun _ _ _ hidle => absurd hidle hbusy⟩
      · rw [hhistory] at ht
        rcases List.mem_append.mp ht with ht | ht
        · exact absurd hrunning (hclosed t ht).not_running
        · rw [List.mem_singleton.mp ht, htask, hnumber]
      · rw [hhistory, List.filter_append, hnone, List.nil_append]
        exact List.length_filter_le _ _
      · rw [hrow] at hrow'
        cases hrow'
        obtain ⟨t, ht, hclosed⟩ := hended k hk hle hother
        rw [hhistory]
        exact ⟨t, List.mem_append_left _ ht, hclosed⟩

theorem HistoryInv.left (hs : HistoryInv tenant s) (hretried : s.retried = true) :
    ¬ ClosedHistory s := by
  intro hclosed
  obtain ⟨ended, hrecorded, hstate⟩ := hs.split
  obtain ⟨t, ht, hrunning⟩ := hrecorded.left hretried
  have hle := (hrecorded.attempt_mem.mp ⟨t, ht, rfl⟩).2
  rcases hstate with ⟨hidle, hhistory, -⟩ | ⟨-, ⟨row, hrow, hnumber⟩, hhistory⟩
  · exact (hclosed.running t (hhistory ▸ ht) hrunning).1 hidle
  · have hmem : t ∈ s.watched.world.history s.run := by
      rcases hhistory with hhistory | ⟨task, -, hhistory⟩ <;> rw [hhistory]
      · exact ht
      · exact List.mem_append_left _ ht
    obtain ⟨-, row', hrow', hattempt⟩ := hclosed.running t hmem hrunning
    rw [hrow] at hrow'
    cases hrow'
    omega

/-- The history of a run is closed, at any moment, exactly if none of its attempts has ended
by asking for another one. -/
theorem history_closed_iff (platform : Platform) (tenant : Uuid) {w : World} {row : PipelineRun}
    (hrow : findRun w.runs row.id = some row) (hattempt : row.attempt = 0)
    (hnone : ∀ t ∈ w.taskExecutions, t.run ≠ row.id) {s : Attempts}
    (h : Reaches (Attempts.next platform tenant) (fun _ e => sameRun e) (.start w row.id) s) :
    ClosedHistory s ↔ s.retried = false := by
  have hs : HistoryInv tenant s := h.invariant (historyInv_start hrow hattempt hnone)
    fun _ _ _ hs hok he => hs.next hok he
  refine ⟨fun hclosed => ?_, hs.closed⟩
  cases hretried : s.retried with
  | false => rfl
  | true => exact absurd hclosed (hs.left hretried)

instance : DecidablePred sameRun := fun e => by
  cases e <;> unfold sameRun <;> infer_instance

def emptyAttempt (now : Nat) : List AttemptsEvent :=
  [.deliver (smallSync none).pipeline ⟨5⟩ false now] ++
    ([.clock now, .done, .done, .done, .response ⟨200, none, noRecord⟩, .clock now, .clock now,
      .done, .done] : List RunAnswer).map AttemptsEvent.answer ++ [.finish]

theorem history_closed_once : ∃ s : Attempts,
    Reaches (Attempts.next (smallSync none).platform ⟨3⟩) (fun _ e => sameRun e)
      (.start smallWorld ⟨1⟩) s ∧
    (s.watched.world.history ⟨1⟩).map TaskExecution.status = [.succeeded] ∧ ClosedHistory s := by
  have hfinal : (replay (Attempts.next (smallSync none).platform ⟨3⟩) (fun _ e => sameRun e)
      (.start smallWorld ⟨1⟩) (emptyAttempt 1)).map (fun s => (s.retried,
        (s.watched.world.history ⟨1⟩).map TaskExecution.status)) = some (false, [.succeeded]) := by
    decide +kernel
  obtain ⟨s, hs, hsummary⟩ := Option.map_eq_some_iff.mp hfinal
  obtain ⟨hretried, hstatuses⟩ := Prod.mk.injEq _ _ _ _ ▸ hsummary
  have hreach := Reaches.of_replay _ hs
  have hrow : findRun smallWorld.runs smallRun.id = some smallRun := rfl
  exact ⟨s, hreach, hstatuses, (history_closed_iff (smallSync none).platform ⟨3⟩ hrow rfl
    (fun t ht => by cases ht) hreach).mpr hretried⟩

def refusedAttempt (now : Nat) : List AttemptsEvent :=
  [.deliver (smallSync none).pipeline ⟨5⟩ false now] ++
    ([.clock now, .done, .fail (.dataLake (fetchFailed "the vault does not answer" true)), .done,
      .done] : List RunAnswer).map AttemptsEvent.answer ++ [.finish]

/-- The first attempt fails and the second one succeeds: the first is RUNNING for good. -/
theorem retried_attempt_left_running : ¬ ∀ (platform : Platform) (tenant : Uuid) (w : World)
    (row : PipelineRun) (s : Attempts), findRun w.runs row.id = some row → row.attempt = 0 →
    (∀ t ∈ w.taskExecutions, t.run ≠ row.id) →
    Reaches (Attempts.next platform tenant) (fun _ e => sameRun e) (.start w row.id) s →
    ClosedHistory s := by
  intro hclaim
  have hfinal : (replay (Attempts.next (smallSync none).platform ⟨3⟩) (fun _ e => sameRun e)
      (.start smallWorld ⟨1⟩) (refusedAttempt 1 ++ emptyAttempt 2)).map (fun s =>
        (s.attempt.isNone, s.run, s.row.map PipelineRun.status,
          (s.watched.world.history ⟨1⟩).map TaskExecution.status)) =
      some (true, ⟨1⟩, some .succeeded, [.running, .succeeded]) := by
    decide +kernel
  obtain ⟨s, hs, hsummary⟩ := Option.map_eq_some_iff.mp hfinal
  simp only [Prod.mk.injEq] at hsummary
  obtain ⟨hidle, hrun, hstatus, hstatuses⟩ := hsummary
  obtain ⟨row, hrow, hsucceeded⟩ := Option.map_eq_some_iff.mp hstatus
  have hclosed := hclaim _ _ smallWorld smallRun s rfl rfl (fun t ht => by cases ht)
    (Reaches.of_replay _ hs)
  obtain ⟨t, ht, hrunning⟩ := List.mem_map.mp
    (show TaskStatus.running ∈ (s.watched.world.history ⟨1⟩).map TaskExecution.status by
      rw [hstatuses]; simp)
  exact hclosed.final row hrow (by rw [hsucceeded]; rfl) (Option.isNone_iff_eq_none.mp hidle) t
    (by rw [hrun]; exact ht) hrunning

end DataLake
