import DataLake.BodyCalls
import DataLake.Chain

/-! One task and its retries: the row of the run and the task's decision to ask for
another attempt agree after every attempt. -/

namespace DataLake

open Foundation

/-- `self.request.retries >= self.max_retries`, for any number of retries. -/
def finalAttempt (maxRetries retries : Nat) : Bool := retries ≥ maxRetries

example : isFinalAttempt = finalAttempt (maxRunAttempts - 1) := rfl

/-- What `run_pipeline` does once `_execute` has ended. -/
def recordOutcome (platform : Platform) (claimed : PipelineRun) (task : TaskExecution)
    (isFinal : Bool) : Except Exc PipelineRun → RunProg Unit
  | .ok run => recordSuccess run task
  | .error e => do
    recordFailure platform claimed task e.wrapped isFinal
    raiseError e.wrapped

/-- An attempt in which `_execute` ends with `x` and `run_pipeline` with `out`. -/
inductive Attempt (platform : Platform) (pipeline : Pipeline) (claimed : PipelineRun)
    (isFinal : Bool) (w : World) (x : Except Exc PipelineRun) (out : Except Exc Unit)
    (w' : World) : Prop where
  | ends (startedAt : Nat) {c c' : RunAnswer} {u v : World} {r : Unit}
    (now : execRun .now c w = some (startedAt, w))
    (create : execRun (.createTaskExecution
      { run := claimed.id, attempt := claimed.attempt, startedAt }) c' w = some (r, u))
    (executes : (execute platform pipeline claimed).Runs execRun u x v)
    (records : (recordOutcome platform claimed
      { run := claimed.id, attempt := claimed.attempt, startedAt } isFinal x).Runs execRun v out w')

theorem runs_runBody {platform : Platform} {pipeline : Pipeline} {claimed : PipelineRun}
    {isFinal : Bool} {w w' : World} {out : Except Exc Unit} :
    (runBody platform pipeline claimed isFinal).Runs execRun w out w' ↔
      ∃ x, Attempt platform pipeline claimed isFinal w x out w' := by
  constructor
  · intro h
    cases h with
    | call hnow h =>
      cases h with
      | call hcreate h =>
        obtain ⟨-, rfl⟩ := execRun_now hnow
        rcases (Prog.runs_handle (p := execute platform pipeline claimed)).mp h with
          ⟨run, v, hp, hf⟩ | ⟨e, v, hp, hg⟩
        · exact ⟨_, .ends _ hnow hcreate hp hf⟩
        · exact ⟨_, .ends _ hnow hcreate hp hg⟩
  · rintro ⟨x, startedAt, hnow, hcreate, hexecutes, hrecords⟩
    refine .call hnow (.call hcreate
      ((Prog.runs_handle (p := execute platform pipeline claimed)).mpr ?_))
    cases x with
    | ok run => exact .inl ⟨run, _, hexecutes, hrecords⟩
    | error e => exact .inr ⟨e, _, hexecutes, hrecords⟩

/-- A task: what its attempts have ended with, and whether another one is asked for. -/
structure TaskChain where
  world : World
  outcomes : List (Except Exc Unit) := []
  scheduled : Bool := true

/-- One execution of `run_pipeline_task`. Between two of them the pipeline may be edited. -/
inductive TaskChain.Next (platform : Platform) (run task : Uuid) (maxRetries : Nat) :
    TaskChain → TaskChain → Prop where
  | attempt {s : TaskChain} {row claimed : PipelineRun} {pipeline : Pipeline} {now : Nat}
    {x : Except Exc PipelineRun} {out : Except Exc Unit} {w' : World} (scheduled : s.scheduled = true)
    (found : findRun s.world.runs run = some row) (claim : claimRun row task now = .ok claimed)
    (attempt : Attempt platform pipeline claimed (finalAttempt maxRetries s.outcomes.length)
      { s.world with runs := saveFields .claim claimed s.world.runs } x out w') :
    Next platform run task maxRetries s
      { world := w'
        outcomes := s.outcomes ++ [x.map fun _ => ()]
        scheduled := asksRetry (finalAttempt maxRetries s.outcomes.length) out }
  | rejected {s : TaskChain} {now : Nat} (scheduled : s.scheduled = true)
    (rejects : ∀ row, findRun s.world.runs run = some row →
      ∀ claimed, claimRun row task now ≠ .ok claimed) :
    Next platform run task maxRetries s { s with scheduled := false }

def Settles (row : PipelineRun) : Except Exc Unit → Prop
  | .ok _ => row.status = .succeeded ∧ row.errorCategory = none ∧ row.errorMessage = none ∧
      row.errorIsRetryable = none ∧ row.finishedAt.isSome = true
  | .error e => row.status = .failed ∧ row.errorCategory = some e.wrapped.category ∧
      row.errorIsRetryable = some e.wrapped.retryable ∧ row.finishedAt.isSome = true

def Retryable : Except Exc Unit → Prop
  | .ok _ => False
  | .error e => e.wrapped.retryable = true

variable {platform : Platform} {pipeline : Pipeline} {claimed copy row : PipelineRun}
  {isFinal : Bool} {w w' : World} {x : Except Exc PipelineRun} {out : Except Exc Unit}
  {id : Uuid} {task : TaskExecution}

theorem runs_runCall {α : Type} {op : RunOp} {f : op.Resp → RunProg α} {out : Except Exc α}
    (h : (runCall op >>= f).Runs execRun w out w') :
    ∃ c r v, execRun op c w = some (r, v) ∧ (f r).Runs execRun v out w' := by
  cases h with
  | call he hrest => exact ⟨_, _, _, he, hrest⟩

/-- The run is still being executed under its task. -/
def Underway (claimed : PipelineRun) (w : World) : Prop :=
  ∃ row, findRun w.runs claimed.id = some row ∧ row.status = .running ∧
    row.celeryTaskId = claimed.celeryTaskId

theorem Underway.call {op : RunOp} {c : RunAnswer} {r : op.Resp} (h : Underway claimed w)
    (hop : savesProgress claimed.id op) (he : execRun op c w = some (r, w')) :
    Underway claimed w' := by
  obtain ⟨row, hrow, hstatus, htask⟩ := h
  rcases execRun_runs he with hruns | ⟨fields, copy, rfl, hruns⟩
  · exact ⟨row, by rw [hruns, hrow], hstatus, htask⟩
  · obtain ⟨rfl, hid⟩ := hop
    refine ⟨RunFields.progress.write copy row, ?_, hstatus, htask⟩
    rw [hruns, findRun_saveFields, hrow]
    simp [hid]

theorem Underway.quiet {op : RunOp} {c : RunAnswer} {r : op.Resp} (h : Underway claimed w)
    (hop : op.quiet = true) (he : execRun op c w = some (r, w')) : Underway claimed w' := by
  obtain ⟨row, hrow, hstatus, htask⟩ := h
  exact ⟨row, by rw [(execRun_quiet hop he).1, hrow], hstatus, htask⟩

theorem Underway.execute (h : Underway claimed w) (hstatus : claimed.status = .running)
    (hx : (execute platform pipeline claimed).Runs execRun w x w') :
    Underway claimed w' ∧ okOwned claimed x :=
  (execute_within platform pipeline (⟨rfl, hstatus⟩ : Owned claimed claimed)).runs
    (fun _ hop _ _ _ _ hw he => hw.call hop he) hx h

theorem Underway.save (h : Underway claimed w) {fields : RunFields} {c : RunAnswer} {r : Unit}
    (hid : copy.id = claimed.id) (he : execRun (.saveRun fields copy) c w = some (r, w')) :
    ∃ row, findRun w'.runs claimed.id = some (fields.write copy row) ∧ row.status = .running ∧
      row.celeryTaskId = claimed.celeryTaskId := by
  obtain ⟨row, hrow, hstatus, htask⟩ := h
  refine ⟨row, ?_, hstatus, htask⟩
  rw [execRun_saveRun he, findRun_saveFields, hrow]
  simp [hid]

theorem Underway.recordSuccess (h : Underway claimed w) (hcopy : Owned claimed copy)
    (hruns : (recordSuccess copy task).Runs execRun w out w') :
    out = .ok () ∧ ∃ row, findRun w'.runs claimed.id = some row ∧ Settles row (.ok ()) := by
  obtain ⟨c, now, v, he, hruns⟩ := runs_runCall hruns
  have h := h.quiet rfl he
  obtain ⟨c, finishedAt, v, he, hruns⟩ := runs_runCall hruns
  have h := h.quiet rfl he
  simp only [markRunSucceeded, hcopy.2, ne_eq, not_true_eq_false, if_false, Except.mapError,
    orRaise_ok] at hruns
  obtain ⟨c, r, v, he, hruns⟩ := runs_runCall hruns
  obtain ⟨row, hrow, -⟩ := h.save (by exact hcopy.1) he
  cases hruns with
  | call he' hruns =>
    cases hruns with
    | ret a w =>
      rw [← (execRun_quiet rfl he').1] at hrow
      exact ⟨rfl, _, hrow, rfl, rfl, rfl, rfl, rfl⟩

theorem Underway.recordFailure (h : Underway claimed w) (hstatus : claimed.status = .running)
    {e : DataLakeError} {out : Except Exc Unit}
    (hruns : (recordFailure platform claimed task e isFinal).Runs execRun w out w') :
    out = .ok () ∧ if (e.retryable && !isFinal) = true then Underway claimed w' else
      ∃ row, findRun w'.runs claimed.id = some row ∧ Settles row (.error (.dataLake e)) := by
  unfold DataLake.recordFailure at hruns
  dsimp only at hruns
  split_ifs at hruns with hfinal
  · have hretry : ¬ (e.retryable && !isFinal) = true := by
      cases isFinal <;> simp_all
    rw [if_neg hretry]
    obtain ⟨c, finishedAt, v, he, hruns⟩ := runs_runCall hruns
    have h := h.quiet rfl he
    simp only [markRunFailed, hstatus, ne_eq, not_true_eq_false, if_false, Except.mapError,
      orRaise_ok] at hruns
    obtain ⟨c, r, v, he, hruns⟩ := runs_runCall hruns
    obtain ⟨row, hrow, -⟩ := h.save (by rfl) he
    obtain ⟨c, now, v, he, hruns⟩ := runs_runCall hruns
    rw [← (execRun_quiet rfl he).1] at hrow
    cases hruns with
    | call he' hruns =>
      cases hruns with
      | ret a w =>
        rw [← (execRun_quiet rfl he').1] at hrow
        exact ⟨rfl, _, hrow, rfl, rfl, rfl, rfl⟩
  · have hretry : (e.retryable && !isFinal) = true := by
      cases isFinal <;> simp_all
    rw [if_pos hretry]
    obtain ⟨c, r, v, he, hruns⟩ := runs_runCall hruns
    obtain ⟨row, hrow, hrunning, htask⟩ := h.save (by rfl) he
    cases hruns with
    | call he' hruns =>
      cases hruns with
      | ret a w =>
        rw [← (execRun_quiet rfl he').1] at hrow
        exact ⟨rfl, _, hrow, hrunning, htask⟩

/-- The decision of the task, seen from the outcome of `_execute`. -/
def retried (isFinal : Bool) : Except Exc Unit → Bool
  | .ok _ => false
  | .error e => e.wrapped.retryable && !isFinal

theorem Attempt.spec (h : Attempt platform pipeline claimed isFinal w x out w')
    (hrow : findRun w.runs claimed.id = some claimed) (hstatus : claimed.status = .running) :
    asksRetry isFinal out = retried isFinal (x.map fun _ => ()) ∧
    if retried isFinal (x.map fun _ => ()) = true then Underway claimed w' else
      ∃ row, findRun w'.runs claimed.id = some row ∧ Settles row (x.map fun _ => ()) := by
  obtain ⟨startedAt, hnow, hcreate, hexecutes, hrecords⟩ := h
  have hunderway : Underway claimed w := ⟨claimed, hrow, hstatus, rfl⟩
  obtain ⟨hafter, howned⟩ := (hunderway.quiet rfl hcreate).execute hstatus hexecutes
  cases x with
  | ok run =>
    obtain ⟨rfl, hsettles⟩ := hafter.recordSuccess howned hrecords
    exact ⟨rfl, hsettles⟩
  | error e =>
    have hraise : ∀ e', (raiseError e' : RunProg Unit) = .raise (.dataLake e') := fun _ => rfl
    rcases Prog.runs_handle.mp hrecords with ⟨r, v, hfailure, hraises⟩ | ⟨e', v, hfailure, hraises⟩
    · obtain ⟨-, hleft⟩ := hafter.recordFailure hstatus hfailure
      rw [hraise] at hraises
      cases hraises
      exact ⟨rfl, hleft⟩
    · cases (hafter.recordFailure hstatus hfailure).1

theorem claimedRow_id (row : PipelineRun) (task : Uuid) (now : Nat) :
    (claimedRow row task now).id = row.id := rfl

variable {run taskId : Uuid} {n : Nat} {s t : TaskChain}

/-- Where a task stands between two attempts. -/
structure ChainState (run taskId : Uuid) (n : Nat) (s : TaskChain) (row : PipelineRun) : Prop where
  found : findRun s.world.runs run = some row
  count : s.outcomes.length ≤ n + 1
  retried : ∀ pre x post, s.outcomes = pre ++ x :: post → post ≠ [] → Retryable x
  waiting : s.scheduled = true → s.outcomes.length ≤ n ∧ (∀ x ∈ s.outcomes, Retryable x) ∧
    ((row.status = .pending ∧ s.outcomes = []) ∨
      (row.status = .running ∧ row.celeryTaskId = some taskId))
  stopped : s.scheduled = false → ∃ pre x, s.outcomes = pre ++ [x] ∧ Settles row x

theorem chainState_start (hrow : findRun w.runs run = some row) (hpending : row.status = .pending) :
    ChainState run taskId n { world := w } row where
  found := hrow
  count := Nat.zero_le _
  retried := fun pre x post h => by simp at h
  waiting := fun _ => ⟨Nat.zero_le _, fun x hx => (by cases hx), .inl ⟨hpending, rfl⟩⟩
  stopped := fun h => by cases h

theorem retryable_of_retried {x : Except Exc Unit} (h : retried isFinal x = true) :
    Retryable x ∧ isFinal = false := by
  cases x with
  | ok _ => cases h
  | error e => simpa [retried, Retryable] using h

theorem retried_append {l : List (Except Exc Unit)} (hl : ∀ x ∈ l, Retryable x)
    {y : Except Exc Unit} (pre : List (Except Exc Unit)) (x : Except Exc Unit)
    (post : List (Except Exc Unit)) (h : l ++ [y] = pre ++ x :: post) (hpost : post ≠ []) :
    Retryable x := by
  have hx : x ∈ l := by
    rcases List.append_eq_append_iff.mp h with ⟨m, rfl, hm⟩ | ⟨m, rfl, hm⟩
    · cases m with
      | nil =>
        obtain ⟨-, rfl⟩ := List.cons_eq_cons.mp hm
        exact absurd rfl hpost
      | cons z m => simp at hm
    · cases m with
      | nil =>
        obtain ⟨-, rfl⟩ := List.cons_eq_cons.mp hm
        exact absurd rfl hpost
      | cons z m =>
        obtain ⟨rfl, -⟩ := List.cons_eq_cons.mp hm
        simp
  exact hl x hx

theorem ChainState.claim {now : Nat} (h : ChainState run taskId n s row) (hs : s.scheduled = true) :
    claimRun row taskId now = .ok (claimedRow row taskId now) := by
  unfold claimRun
  rcases (h.waiting hs).2.2 with ⟨hpending, -⟩ | ⟨hrunning, htask⟩
  · simp [hpending, Status.terminal]
  · simp [hrunning, htask, Status.terminal]

theorem ChainState.next (h : ChainState run taskId n s row)
    (he : TaskChain.Next platform run taskId n s t) : ∃ row', ChainState run taskId n t row' := by
  cases he with
  | @attempt row₀ claimed pipeline now x out w' hs hfound hclaim hattempt =>
    obtain ⟨hcount, hretryable, -⟩ := h.waiting hs
    rw [h.found] at hfound
    cases hfound
    obtain rfl := (claimRun_ok hclaim).2
    obtain ⟨hasks, hleft⟩ := hattempt.spec (findRun_claim h.found taskId now) rfl
    have hid : (claimedRow row taskId now).id = run := by
      rw [claimedRow_id, findRun_id h.found]
    split_ifs at hleft with hretried
    · obtain ⟨hlast, hnotFinal⟩ := retryable_of_retried hretried
      obtain ⟨row', hrow', hstatus, htask⟩ := hleft
      have hlt : s.outcomes.length < n := by simpa [finalAttempt] using hnotFinal
      have hall : ∀ y ∈ s.outcomes ++ [x.map fun _ => ()], Retryable y := by
        intro y hy
        rcases List.mem_append.mp hy with hy | hy
        · exact hretryable y hy
        · rwa [List.mem_singleton.mp hy]
      refine ⟨row', hid ▸ hrow', ?_, retried_append hretryable, fun _ => ⟨?_, hall,
        .inr ⟨hstatus, htask⟩⟩, fun hstopped => ?_⟩
      · simp; omega
      · simp; omega
      · simp [hasks, hretried] at hstopped
    · obtain ⟨row', hrow', hsettles⟩ := hleft
      refine ⟨row', hid ▸ hrow', ?_, retried_append hretryable, fun hscheduled => ?_,
        fun _ => ⟨_, _, rfl, hsettles⟩⟩
      · simpa using hcount
      · simp [hasks, hretried] at hscheduled
  | @rejected now hs hrejects =>
    exact absurd (h.claim hs) (hrejects row h.found _)

theorem Settles.status {x : Except Exc Unit} (h : Settles row x) :
    row.status ≠ .running ∧ (row.status = .succeeded ↔ x = .ok ()) := by
  cases x with
  | ok _ => exact ⟨by rw [h.1]; nofun, by simp [h.1]⟩
  | error e => exact ⟨by rw [h.1]; nofun, by simp [h.1]⟩

/-- After every attempt the run is RUNNING exactly when another one is asked for; there are
at most `n + 1`, the ones before the last are retryable failures, and the last one decides
the row. -/
theorem run_state_agrees_with_retries (platform : Platform) (run taskId : Uuid) (n : Nat)
    {w : World} {row : PipelineRun} (hrow : findRun w.runs run = some row)
    (hpending : row.status = .pending) {s : TaskChain}
    (h : Relation.ReflTransGen (TaskChain.Next platform run taskId n) { world := w } s)
    (hsome : s.outcomes ≠ []) :
    ∃ row, findRun s.world.runs run = some row ∧ (row.status = .running ↔ s.scheduled = true) ∧
      s.outcomes.length ≤ n + 1 ∧
      (∀ pre x post, s.outcomes = pre ++ x :: post → post ≠ [] → Retryable x) ∧
      (s.scheduled = false → ∃ pre x, s.outcomes = pre ++ [x] ∧ Settles row x ∧
        (row.status = .succeeded ↔ x = .ok ())) := by
  have hstate : ∃ row, ChainState run taskId n s row := by
    clear hsome
    induction h with
    | refl => exact ⟨row, chainState_start hrow hpending⟩
    | tail _ he ih =>
      obtain ⟨row, hstate⟩ := ih
      exact hstate.next he
  obtain ⟨row, hstate⟩ := hstate
  refine ⟨row, hstate.found, ?_, hstate.count, hstate.retried, fun hstopped => ?_⟩
  · cases hs : s.scheduled with
    | true =>
      rcases (hstate.waiting hs).2.2 with ⟨-, hnone⟩ | ⟨hrunning, -⟩
      · exact absurd hnone hsome
      · simp [hrunning]
    | false =>
      obtain ⟨pre, x, -, hsettles⟩ := hstate.stopped hs
      simp [hsettles.status.1]
  · obtain ⟨pre, x, hlast, hsettles⟩ := hstate.stopped hstopped
    exact ⟨pre, x, hlast, hsettles, hsettles.status.2⟩

/-- Every call succeeds at once, and the source has no records; the credentials fail as
`credential` says. -/
def promptly (credential : Option Exc) : RunOp → RunAnswer
  | .now => .clock 1
  | .send _ => .response ⟨200, none, noRecord⟩
  | .resolveCredential _ => (credential.map RunAnswer.fail).getD .done
  | _ => .done

def smallAttempt (w : World) (isFinal : Bool) (credential : Option Exc) :
    Option (PipelineRun × Except Exc Unit × World) :=
  (findRun w.runs ⟨1⟩).bind fun row =>
    match claimRun row ⟨5⟩ 1 with
    | .ok claimed =>
      ((runBody (smallSync none).platform (smallSync none).pipeline claimed isFinal).eval execRun
        (promptly credential) { w with runs := saveFields .claim claimed w.runs }).map (claimed, ·)
    | .error _ => none

theorem smallAttempt_next {s : TaskChain} {credential : Option Exc} {claimed : PipelineRun}
    {out : Except Exc Unit} {w' : World} (hs : s.scheduled = true)
    (h : smallAttempt s.world (finalAttempt 1 s.outcomes.length) credential =
      some (claimed, out, w')) :
    ∃ x, TaskChain.Next (smallSync none).platform ⟨1⟩ ⟨5⟩ 1 s
      { world := w'
        outcomes := s.outcomes ++ [x]
        scheduled := asksRetry (finalAttempt 1 s.outcomes.length) out } := by
  obtain ⟨row, hrow, h⟩ := Option.bind_eq_some_iff.mp h
  split at h
  · rename_i claimed' hclaim
    obtain ⟨⟨out', w''⟩, heval, heq⟩ := Option.map_eq_some_iff.mp h
    cases heq
    obtain ⟨x, hattempt⟩ := runs_runBody.mp (Prog.Runs.of_eval _ heval)
    exact ⟨_, .attempt hs hrow hclaim hattempt⟩
  · cases h

theorem run_state_agrees_with_retries_small : ∃ s : TaskChain,
    Relation.ReflTransGen (TaskChain.Next (smallSync none).platform ⟨1⟩ ⟨5⟩ 1)
      { world := smallWorld } s ∧ s.outcomes.length = 2 ∧
    ∃ row, findRun s.world.runs ⟨1⟩ = some row ∧ row.status ≠ .running := by
  let unreachable : Exc := .dataLake (fetchFailed "the vault does not answer" true)
  have hfinal : ((smallAttempt smallWorld false (some unreachable)).bind fun x =>
      (smallAttempt x.2.2 true none).map fun y => (asksRetry false x.2.1, asksRetry true y.2.1)) =
      some (true, false) := by
    decide +kernel
  obtain ⟨⟨claimed, out, w⟩, hfirst, hrest⟩ := Option.bind_eq_some_iff.mp hfinal
  obtain ⟨⟨claimed', out', w'⟩, hsecond, hasks⟩ := Option.map_eq_some_iff.mp hrest
  obtain ⟨hretries, hstops⟩ := Prod.mk.injEq _ _ _ _ ▸ hasks
  obtain ⟨x, hnext⟩ := smallAttempt_next (s := { world := smallWorld }) rfl hfirst
  obtain ⟨y, hnext'⟩ := smallAttempt_next (s := ⟨w, [x], true⟩) rfl hsecond
  have hscheduled : asksRetry (finalAttempt 1 0) out = true := hretries
  simp only [List.nil_append, List.length_nil, hscheduled] at hnext
  have hreach := (Relation.ReflTransGen.single hnext).tail hnext'
  have hfound : findRun smallWorld.runs smallRun.id = some smallRun := rfl
  obtain ⟨row, hrow, hrunning, -⟩ := run_state_agrees_with_retries _ _ _ _ hfound rfl hreach
    (by simp)
  refine ⟨_, hreach, rfl, row, hrow, fun h => ?_⟩
  have hasked : asksRetry true out' = true := hrunning.mp h
  have hstops : asksRetry true out' = false := hstops
  rw [hstops] at hasked
  cases hasked

end DataLake
