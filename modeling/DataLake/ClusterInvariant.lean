import DataLake.BodyCalls
import DataLake.ClusterLocks
import DataLake.Continuations

/-! What holds of the system whatever is delivered twice and whoever dies: the row that a
claimer has read is current, and the task that executes a run is the one the row names. -/

namespace DataLake

open Foundation

/-- Rows are inserted as the dispatch service makes them. -/
def insertsNew : DispatchOp → Prop
  | .getOrCreate _ defaults => ∃ pipeline key continueFrom, defaults = newRun pipeline key continueFrom
  | _ => True

theorem plain.insertsNew {op : DispatchOp} (h : plain op) : insertsNew op := by
  cases op with
  | getOrCreate key defaults => exact h.elim
  | _ => trivial

theorem issues_dispatchCall {α : Type} {P : DispatchOp → Prop} {op : DispatchOp}
    {f : op.Resp → DispatchProg α} (hop : P op) (hf : ∀ r, (f r).Issues P) :
    (dispatchCall op >>= f).Issues P := ⟨hop, hf⟩

theorem triggerManualRun_inserts (pipeline : Pipeline) (key : Option Text)
    (continueFrom : Option PipelineRun) :
    (triggerManualRun pipeline key continueFrom).Issues insertsNew :=
  triggerManualRun_issues _ _ _ trivial (fun _ => trivial) fun key => ⟨pipeline, key, continueFrom, rfl⟩

theorem runContinue_inserts (pipelineId runId : Uuid) :
    (runContinue pipelineId runId).Issues insertsNew := by
  refine issues_dispatchCall trivial fun role => (Prog.issues_ofExcept _ role).bind fun _ =>
    issues_dispatchCall trivial fun p => ?_
  cases p with
  | none => trivial
  | some pipeline =>
    refine issues_dispatchCall trivial fun run => ?_
    cases run.filter fun run => run.pipeline = pipeline.id with
    | none => trivial
    | some failedRun =>
      refine issues_dispatchCall trivial fun existing => ?_
      cases existing with
      | some existing => exact ⟨trivial, fun _ => trivial⟩
      | none =>
        refine issues_dispatchCall trivial fun _ => (triggerManualRun_inserts _ _ _).handle
          (fun result => ⟨trivial, fun _ => trivial⟩) fun e => ?_
        cases e with
        | dataLake e =>
          dsimp only
          split_ifs <;> trivial
        | other message => trivial

theorem handle_inserts (options : CommandOptions) : (handle options).Issues insertsNew := by
  refine issues_dispatchCall trivial fun p => ?_
  cases p with
  | none => trivial
  | some pipeline =>
    dsimp only
    split_ifs
    · trivial
    · refine Prog.Issues.bind ((continueFromOption_plain options).mono fun _ h => h.insertsNew)
        fun prior => (triggerManualRun_inserts _ _ _).handle (fun _ => trivial) fun e => ?_
      cases e with
      | dataLake e =>
        dsimp only
        split_ifs <;> trivial
      | other message => trivial

theorem request_inserts (request : Request) : request.program.Issues insertsNew := by
  cases request with
  | post pipelineId runId => exact (runContinue_inserts pipelineId runId).discard
  | command options => exact (handle_inserts options).discard
  | direct pipeline key continueFrom =>
    exact (triggerManualRun_inserts pipeline key continueFrom).discard

theorem newRun_fields (pipeline : Pipeline) (key : Text) (continueFrom : Option PipelineRun) :
    (newRun pipeline key continueFrom).status = .pending ∧
    (newRun pipeline key continueFrom).attempt = 0 ∧
    (newRun pipeline key continueFrom).celeryTaskId = none := by
  cases continueFrom <;> exact ⟨rfl, rfl, rfl⟩

namespace Cluster

variable {platform : Platform} {s t : Cluster} {e : ClusterEvent} {i j : Nat} {run : Uuid}

structure Invariant (s : Cluster) : Prop where
  locking : s.Locking
  current : ∀ j m row pipeline, s.workers j = some (.locked m row pipeline) →
    s.row m.run = some row
  dispatching : ∀ i p, s.dispatchers i = some p → p.Issues insertsNew
  executing : ∀ j m body, s.workers j = some (.executing m body) → body.Issues (savesOwn m.run) ∧
    ∃ row, s.row m.run = some row ∧ row.status ≠ .pending ∧ row.celeryTaskId = some m.task
  unowned : ∀ run row, s.row run = some row → (row.status = .pending ↔ row.celeryTaskId = none)
  attempts : ∀ run, s.claims.count run = (s.row run).elim 0 PipelineRun.attempt

theorem Invariant.empty : Invariant {} where
  locking := .empty
  current _ _ _ _ h := by cases h
  dispatching _ _ h := by cases h
  executing _ _ _ h := by cases h
  unowned _ _ h := by cases h
  attempts _ := rfl

inductive RowStep (s : Cluster) (e : ClusterEvent) (t : Cluster) (run : Uuid) : Prop where
  | same (hrow : t.row run = s.row run) (hclaims : t.claims.count run = s.claims.count run)
  | created (row : PipelineRun) (hnone : s.row run = none) (hrow : t.row run = some row)
    (hstatus : row.status = .pending) (hattempt : row.attempt = 0)
    (htask : row.celeryTaskId = none) (hclaims : t.claims = s.claims)
  | saved (j : Nat) (c : RunAnswer) (m : Message) (fields : RunFields) (copy row : PipelineRun)
    (k : Unit → RunProg Unit) (he : e = .answer j c)
    (hj : s.workers j = some (.executing m (.call (.saveRun fields copy) k)))
    (hrun : m.run = run) (hfree : s.isLocked (.run run) = false)
    (hsaves : savesOwn run (.saveRun fields copy)) (hold : s.row run = some row)
    (hrow : t.row run = some (fields.write copy row)) (hclaims : t.claims = s.claims)
  | claimed (j now : Nat) (m : Message) (row : PipelineRun) (pipeline : Pipeline)
    (he : e = .decide j now) (hj : s.workers j = some (.locked m row pipeline))
    (hrun : m.run = run) (hold : s.row run = some row)
    (hstatus : row.status = .pending ∨ (row.status = .running ∧ row.celeryTaskId = some m.task))
    (hrow : t.row run = some (claimedRow row m.task now)) (hclaims : t.claims = s.claims ++ [run])
    (hexec : ∃ body, t.workers j = some (.executing m body))

theorem dispatched_row {i : Nat} {p : DispatchProg Unit} {w : DispatchWorld} :
    (s.dispatched i p w).row run = findRun w.runs run := rfl

theorem RowStep.of_world (hworld : t.world = s.world) (hclaims : t.claims = s.claims) :
    RowStep s e t run :=
  .same (by rw [row, row, hworld]) (by rw [hclaims])

theorem RowStep.dispatch {i : Nat} {c : DispatchAnswer} {op : DispatchOp} {r : op.Resp}
    {p : DispatchProg Unit} {w : DispatchWorld} (hop : insertsNew op)
    (he : execDispatch op c s.dispatchWorld = some (r, w)) :
    RowStep s e (s.dispatched i p w) run := by
  rcases execDispatch_runs he with hruns | ⟨key, defaults, fresh, rfl, -, hfresh, hruns⟩
  · exact .same (by rw [dispatched_row, hruns]; rfl) rfl
  · have hrow : (s.dispatched i p w).row run =
        if run = fresh then some { defaults with id := fresh } else s.row run := by
      rw [dispatched_row, hruns, findRun_append hfresh]
      rfl
    by_cases hrun : run = fresh
    · obtain ⟨pipeline, key, continueFrom, rfl⟩ := hop
      obtain ⟨hstatus, hattempt, htask⟩ := newRun_fields pipeline key continueFrom
      refine .created { newRun pipeline key continueFrom with id := fresh } ?_
        (by rw [hrow, if_pos hrun]) hstatus hattempt htask rfl
      rw [row, findRun, List.find?_eq_none]
      rintro other hother h
      refine hfresh (List.mem_map.mpr ⟨other, hother, ?_⟩)
      rw [← hrun]
      simpa using h
    · exact .same (by rw [hrow, if_neg hrun]) rfl

variable (run) in
theorem Invariant.row_step (hs : s.Invariant) (h : s.next platform e = some t) :
    RowStep s e t run := by
  cases e with
  | trigger i request =>
    obtain rfl := next_trigger h
    exact .of_world rfl rfl
  | dispatch i c =>
    obtain ⟨op, k, r, w, hi, he, rfl⟩ := next_dispatch h
    exact .dispatch (hs.dispatching i _ hi).1 he
  | deliver j m =>
    obtain ⟨-, -, rfl⟩ := next_deliver h
    exact .of_world rfl rfl
  | redeliver j =>
    obtain ⟨w, -, rfl⟩ := next_redeliver h
    exact .of_world rfl rfl
  | lock j pipeline =>
    obtain ⟨m, -, ⟨rfl, -⟩ | ⟨row, -, -, rfl⟩⟩ := next_lock h <;> exact .of_world rfl rfl
  | decide j now =>
    obtain ⟨m, row, pipeline, hj, ⟨e, -, rfl⟩ | ⟨claimed, hclaim, rfl⟩⟩ := next_decide h
    · exact .of_world rfl rfl
    · obtain ⟨hstatus, rfl⟩ := claimRun_ok hclaim
      have hrow := hs.current j m row pipeline hj
      have hid := findRun_id hrow
      by_cases hrun : m.run = run
      · subst hrun
        refine .claimed j now m row pipeline rfl hj rfl hrow hstatus ?_ rfl ⟨_, setWorker_self _⟩
        change findRun (saveFields _ _ _) m.run = _
        rw [← hid]
        exact findRun_claim hrow m.task now
      · refine .same (findRun_saveFields_other .claim (by rw [← hid] at hrun; exact Ne.symm hrun)) ?_
        simp [claim, List.count_append, hrun]
  | answer j c =>
    obtain ⟨m, op, k, r, w, hj, hwaits, hexec, rfl⟩ := next_answer h
    obtain ⟨hown, row, hrow, -⟩ := hs.executing j m _ hj
    rcases execRun_runs hexec with hruns | ⟨fields, copy, rfl, hruns⟩
    · refine .same ?_ rfl
      change findRun w.runs run = _
      rw [hruns]
      rfl
    · by_cases hrun : m.run = run
      · subst hrun
        have hid : copy.id = m.run := hown.1.1
        refine .saved j c m fields copy row k rfl hj rfl (hid ▸ hwaits) hown.1 hrow ?_ rfl
        change findRun w.runs m.run = _
        rw [hruns, findRun_saveFields]
        change Option.map _ (s.row m.run) = _
        simp [hrow, hid]
      · refine .same ?_ rfl
        change findRun w.runs run = _
        rw [hruns]
        exact findRun_saveFields_other fields (by rw [hown.1.1]; exact Ne.symm hrun)
  | finish j =>
    obtain ⟨m, out, -, rfl⟩ := next_finish h
    unfold ended
    split_ifs <;> exact .of_world rfl rfl
  | die j =>
    obtain ⟨w, -, rfl⟩ := next_die h
    exact .of_world rfl rfl

theorem next_dispatchers {p : DispatchProg Unit} (h : s.next platform e = some t)
    (hi : t.dispatchers i = some p) :
    s.dispatchers i = some p ∨ (∃ request : Request, p = request.program) ∨
      ∃ op k r, s.dispatchers i = some (.call op k) ∧ p = k r := by
  cases e with
  | trigger j request =>
    obtain rfl := next_trigger h
    by_cases hij : i = j
    · subst hij
      exact .inr (.inl ⟨request, by simpa using hi.symm⟩)
    · exact .inl (by simpa [hij] using hi)
  | dispatch j c =>
    obtain ⟨op, k, r, w, hj, -, rfl⟩ := next_dispatch h
    by_cases hij : i = j
    · subst hij
      exact .inr (.inr ⟨op, k, r, hj, by simpa [dispatched] using hi.symm⟩)
    · exact .inl (by simpa [dispatched, hij] using hi)
  | deliver j m =>
    obtain ⟨-, -, rfl⟩ := next_deliver h
    exact .inl hi
  | redeliver j =>
    obtain ⟨w, -, rfl⟩ := next_redeliver h
    exact .inl hi
  | lock j pipeline =>
    obtain ⟨m, -, ⟨rfl, -⟩ | ⟨row, -, -, rfl⟩⟩ := next_lock h <;> exact .inl hi
  | decide j now =>
    obtain ⟨m, row, pipeline, -, ⟨e, -, rfl⟩ | ⟨claimed, -, rfl⟩⟩ := next_decide h <;> exact .inl hi
  | answer j c =>
    obtain ⟨m, op, k, r, w, -, -, -, rfl⟩ := next_answer h
    exact .inl hi
  | finish j =>
    obtain ⟨m, out, -, rfl⟩ := next_finish h
    unfold ended at hi
    split_ifs at hi <;> exact .inl hi
  | die j =>
    obtain ⟨w, -, rfl⟩ := next_die h
    exact .inl hi

theorem RowStep.owned {task : Uuid} (h : RowStep s e t run)
    (hs : ∃ row, s.row run = some row ∧ row.status ≠ .pending ∧ row.celeryTaskId = some task) :
    ∃ row, t.row run = some row ∧ row.status ≠ .pending ∧ row.celeryTaskId = some task := by
  obtain ⟨row, hrow, hstatus, htask⟩ := hs
  cases h with
  | same hsame => exact ⟨row, hsame.trans hrow, hstatus, htask⟩
  | created new hnone => cases hnone.symm.trans hrow
  | saved j c m fields copy row' k he hj hrun hfree hsaves hold hnew =>
    obtain rfl := Option.some.inj (hold.symm.trans hrow)
    obtain ⟨htask', -, hstatus'⟩ := savesOwn_write row' hsaves
    refine ⟨_, hnew, ?_, htask'.trans htask⟩
    rcases hstatus' with h | h
    · rwa [h]
    · exact ne_pending_of_terminal h
  | claimed j now m row' pipeline he hj hrun hold hclaim hnew =>
    obtain rfl := Option.some.inj (hold.symm.trans hrow)
    rcases hclaim with hpending | ⟨-, howner⟩
    · exact absurd hpending hstatus
    · exact ⟨_, hnew, by simp [claimedRow], howner.symm.trans htask⟩

theorem Invariant.next_current {m : Message} {row : PipelineRun} {pipeline : Pipeline}
    (hs : s.Invariant) (h : s.next platform e = some t)
    (hj : t.workers j = some (.locked m row pipeline)) : t.row m.run = some row := by
  cases next_worker h hj with
  | same hi =>
    have hrow := hs.current j m row pipeline hi
    have hheld : (j, .run m.run) ∈ s.locks := by
      rw [hs.locking.held]
      exact ⟨m, row, pipeline, hi, by simp [lockRows, findRun_id hrow]⟩
    cases hs.row_step m.run h with
    | same hsame => exact hsame.trans hrow
    | created new hnone => cases hnone.symm.trans hrow
    | saved i c m' fields copy row' k he hi' hrun hfree =>
      exact absurd (isLocked_iff.mpr ⟨j, hheld⟩) (by simp [hfree])
    | claimed i now m' row' pipeline' he hi' hrun hold =>
      have hheld' : (i, .run m.run) ∈ s.locks := by
        rw [hs.locking.held]
        exact ⟨m', row', pipeline', hi', by simp [lockRows, findRun_id hold]⟩
      obtain rfl := hs.locking.exclusive i j _ hheld' hheld
      subst he
      exact absurd ⟨m, row, pipeline, hj⟩ (decided h)
  | locked m row pipeline he hi hrow =>
    subst he
    cases hs.row_step m.run h with
    | same hsame => exact hsame.trans hrow
    | created new hnone => cases hnone.symm.trans hrow
    | saved i c m' fields copy row' k he => cases he
    | claimed i now m' row' pipeline' he => cases he

theorem Invariant.next_executing {m : Message} {body : RunProg Unit} (hs : s.Invariant)
    (h : s.next platform e = some t) (hj : t.workers j = some (.executing m body)) :
    body.Issues (savesOwn m.run) ∧
    ∃ row, t.row m.run = some row ∧ row.status ≠ .pending ∧ row.celeryTaskId = some m.task := by
  cases next_worker h hj with
  | same hi =>
    obtain ⟨hown, hrow⟩ := hs.executing j m body hi
    exact ⟨hown, (hs.row_step _ h).owned hrow⟩
  | claimed now m row claimed pipeline he hi hclaim ht =>
    obtain ⟨-, rfl⟩ := claimRun_ok hclaim
    have hrow := hs.current j m row pipeline hi
    have hid := findRun_id hrow
    have hstatus : (claimedRow row m.task now).status = .running := rfl
    have hown := runBody_own platform pipeline (isFinalAttempt m.retries) hstatus
    refine ⟨hid ▸ hown, claimedRow row m.task now, ?_, by simp [hstatus], rfl⟩
    rw [ht]
    change findRun (saveFields _ _ _) m.run = _
    rw [← hid]
    exact findRun_claim hrow m.task now
  | answered c m op k r he hi hexec =>
    obtain ⟨hown, hrow⟩ := hs.executing j m _ hi
    exact ⟨hown.2 r, (hs.row_step _ h).owned hrow⟩

theorem RowStep.unowned {row : PipelineRun} (hs : s.Invariant) (h : RowStep s e t run)
    (hrow : t.row run = some row) : row.status = .pending ↔ row.celeryTaskId = none := by
  cases h with
  | same hsame => exact hs.unowned run row (hsame.symm.trans hrow)
  | created new hnone hnew hstatus hattempt htask =>
    obtain rfl := Option.some.inj (hnew.symm.trans hrow)
    simp [hstatus, htask]
  | saved j c m fields copy old k he hj hrun hfree hsaves hold hnew =>
    obtain rfl := Option.some.inj (hnew.symm.trans hrow)
    obtain ⟨-, old', hold', hstatus, htask⟩ := hs.executing j m _ hj
    rw [hrun] at hold'
    obtain rfl := Option.some.inj (hold.symm.trans hold')
    obtain ⟨htask', -, hstatus'⟩ := savesOwn_write old hsaves
    rw [htask', htask]
    simp only [reduceCtorEq, iff_false]
    rcases hstatus' with h | h
    · rwa [h]
    · exact ne_pending_of_terminal h
  | claimed j now m old pipeline he hj hrun hold hstatus hnew =>
    obtain rfl := Option.some.inj (hnew.symm.trans hrow)
    simp [claimedRow]

theorem RowStep.attempts (h : RowStep s e t run)
    (hs : s.claims.count run = (s.row run).elim 0 PipelineRun.attempt) :
    t.claims.count run = (t.row run).elim 0 PipelineRun.attempt := by
  cases h with
  | same hsame hclaims => rw [hclaims, hsame, hs]
  | created new hnone hnew hstatus hattempt htask hclaims =>
    rw [hclaims, hs, hnone, hnew]
    exact hattempt.symm
  | saved j c m fields copy old k he hj hrun hfree hsaves hold hnew hclaims =>
    rw [hclaims, hs, hold, hnew]
    exact (savesOwn_write old hsaves).2.1.symm
  | claimed j now m old pipeline he hj hrun hold hstatus hnew hclaims =>
    rw [hclaims, List.count_append, hs, hold, hnew]
    simp [claimedRow]

theorem Invariant.next (hs : s.Invariant) (h : s.next platform e = some t) : t.Invariant where
  locking := hs.locking.next h
  current _ _ _ _ hj := hs.next_current h hj
  dispatching i p hi := by
    rcases next_dispatchers h hi with hold | ⟨request, rfl⟩ | ⟨op, k, r, hold, rfl⟩
    · exact hs.dispatching i p hold
    · exact request_inserts request
    · exact (hs.dispatching i _ hold).2 r
  executing _ _ _ hj := hs.next_executing h hj
  unowned _ _ hrow := (hs.row_step _ h).unowned hs hrow
  attempts run := (hs.row_step _ h).attempts (hs.attempts run)

end Cluster

end DataLake
