import DataLake.Dispatch

/-! Continuation requests for one failed run, in any interleaving: when they create
more than one continuation, and when they cannot. -/

namespace DataLake

open Foundation

abbrev Requests := Pool DispatchSig Exc Unit DispatchWorld

abbrev RequestEvent := PoolEvent DispatchSig Exc Unit DispatchAnswer

def onlyRequests (_ : Requests) : RequestEvent → Prop
  | .start _ p => ∃ request : Request, p = request.program
  | .step _ _ => True

def continuations (run : Uuid) (runs : List PipelineRun) : List PipelineRun :=
  runs.filter fun row => row.continuedFrom = some run

def lookedUp : (op : DispatchOp) → op.Resp → Prop
  | .getRun id, r => ∀ row ∈ r, row.id = id
  | _, _ => True

def asks (run : Uuid) : DispatchOp → Prop
  | .existingContinuation prior => prior = run
  | _ => False

def inserts (run : Uuid) (runs : List PipelineRun) : DispatchOp → Prop
  | .getOrCreate key defaults => defaults.continuedFrom = some run ∧ findKey runs key = none
  | _ => False

/-- The request can still insert a continuation of the run without asking first
whether there is one. -/
def MayInsert (run : Uuid) (runs : List PipelineRun) (p : DispatchProg Unit) : Prop :=
  p.Uncovered lookedUp (asks run) (inserts run runs)

/-- A direct call starts only while the run has no continuation, and a continuation is
inserted only while no other request may insert one. -/
def Undisputed (run : Uuid) (s : Requests) : RequestEvent → Prop
  | .start _ p =>
    (∃ request : Request, p = request.program) ∧
      (MayInsert run s.world.runs p → continuations run s.world.runs = [])
  | .step i _ =>
    ∀ op k, s.threads i = some (.call op k) → inserts run s.world.runs op →
      ∀ j q, j ≠ i → s.threads j = some q → ¬ MayInsert run s.world.runs q

/-! What the answers of the database mean. -/

theorem execDispatch_lookedUp {op : DispatchOp} {c : DispatchAnswer} {w w' : DispatchWorld}
    {r : op.Resp} (h : execDispatch op c w = some (r, w')) : lookedUp op r := by
  cases op with
  | getRun id =>
    cases c with
    | done =>
      cases h
      exact fun row hrow => findRun_id hrow
    | _ => cases h
  | _ => trivial

theorem execDispatch_existing {run : Uuid} {c : DispatchAnswer} {w w' : DispatchWorld}
    {r : Option PipelineRun} (h : execDispatch (.existingContinuation run) c w = some (r, w'))
    (hne : continuations run w.runs ≠ []) : r.isSome = true := by
  cases c with
  | done =>
    cases h
    obtain ⟨row, hrow⟩ := List.exists_mem_of_ne_nil _ hne
    obtain ⟨hmem, hcont⟩ := List.mem_filter.mp hrow
    exact List.find?_isSome.mpr ⟨row, List.mem_reverse.mpr hmem, hcont⟩
  | _ => cases h

theorem continuations_append (run : Uuid) (runs : List PipelineRun) (row : PipelineRun) :
    continuations run (runs ++ [row]) =
      continuations run runs ++ if row.continuedFrom = some run then [row] else [] := by
  by_cases h : row.continuedFrom = some run <;> simp [continuations, List.filter_append, h]

theorem inserts_mono {run : Uuid} {runs new : List PipelineRun} {op : DispatchOp}
    (h : inserts run (runs ++ new) op) : inserts run runs op := by
  cases op with
  | getOrCreate key defaults =>
    obtain ⟨hrun, hkey⟩ := h
    simp only [findKey, List.find?_append, Option.or_eq_none_iff] at hkey
    exact ⟨hrun, hkey.1⟩
  | _ => exact h.elim

/-! The shape of a request: once it has inserted, or has seen a continuation, it
inserts no more. -/

def settles : (op : DispatchOp) → op.Resp → Prop
  | .getOrCreate _ _, _ => True
  | .existingContinuation _, r => r.isSome = true
  | _, _ => False

def noInsert : DispatchOp → Prop
  | .getOrCreate _ _ => False
  | _ => True

theorem not_mayInsert {run : Uuid} {runs : List PipelineRun} {p : DispatchProg Unit}
    (hp : p.Issues noInsert) : ¬ MayInsert run runs p := by
  refine Prog.not_uncovered_of_issues (hp.mono fun op hop => ?_)
  cases op with
  | getOrCreate key defaults => exact hop.elim
  | _ => exact id

/-- The calls that neither insert nor look for a continuation. -/
def plain : DispatchOp → Prop
  | .getOrCreate _ _ | .existingContinuation _ => False
  | _ => True

theorem plain_noInsert {op : DispatchOp} (h : plain op) :
    noInsert op ∧ ∀ r, ¬ settles op r := by
  cases op with
  | getOrCreate key defaults => exact h.elim
  | existingContinuation run => exact h.elim
  | _ => exact ⟨trivial, fun _ => id⟩

theorem then_plain {α : Type} {p : DispatchProg α} (hp : p.Issues plain) :
    p.Then settles noInsert :=
  .of_issues (hp.mono fun _ h => (plain_noInsert h).2)

theorem then_dispatchCall {α : Type} {op : DispatchOp} {f : op.Resp → DispatchProg α}
    (hsettled : ∀ r, settles op r → (f r).Issues noInsert)
    (hf : ∀ r, (f r).Then settles noInsert) : (dispatchCall op >>= f).Then settles noInsert :=
  fun r => ⟨hsettled r, hf r⟩

theorem enqueue_plain (pipeline : Pipeline) (key : Text) (run : PipelineRun) (created : Bool) :
    (enqueue pipeline key run created).Issues plain := by
  unfold enqueue
  split_ifs
  · trivial
  · trivial
  · exact ⟨trivial, fun sent => (Prog.issues_ofExcept _ sent).bind fun _ => trivial⟩

theorem createAndEnqueue_then (pipeline : Pipeline) (continueFrom : Option PipelineRun)
    (key : Text) : (createAndEnqueue pipeline continueFrom key).Then settles noInsert :=
  then_dispatchCall
    (fun r _ => (enqueue_plain pipeline key r.1 r.2).mono fun _ h => (plain_noInsert h).1)
    fun r => then_plain (enqueue_plain pipeline key r.1 r.2)

theorem triggerManualRun_then (pipeline : Pipeline) (key : Option Text)
    (continueFrom : Option PipelineRun) :
    (triggerManualRun pipeline key continueFrom).Then settles noInsert := by
  have henqueue : (createKeyed pipeline continueFrom key).Then settles noInsert := by
    unfold createKeyed
    split
    · exact createAndEnqueue_then _ _ _
    · exact fun u => ⟨False.elim, createAndEnqueue_then _ _ _⟩
  unfold triggerManualRun
  split_ifs
  · trivial
  · cases continueFrom with
    | none => exact henqueue
    | some prior =>
      exact Prog.Then.handle (Prog.issues_ofExcept _ _) (fun _ => henqueue) fun _ => trivial

/-- The calls of the service: an identifier, an insertion, a message. -/
theorem triggerManualRun_issues {P : DispatchOp → Prop} (pipeline : Pipeline) (key : Option Text)
    (continueFrom : Option PipelineRun) (huuid : P .uuid4) (hdelay : ∀ run, P (.delay run))
    (hcreate : ∀ key, P (.getOrCreate key (newRun pipeline key continueFrom))) :
    (triggerManualRun pipeline key continueFrom).Issues P := by
  have henqueue : ∀ key run created, (enqueue pipeline key run created).Issues P := by
    intro key run created
    unfold enqueue
    split_ifs
    · trivial
    · trivial
    · exact ⟨hdelay _, fun sent => (Prog.issues_ofExcept _ sent).bind fun _ => trivial⟩
  have hinsert : ∀ key, (createAndEnqueue pipeline continueFrom key).Issues P :=
    fun key => ⟨hcreate key, fun r => henqueue key r.1 r.2⟩
  have hkeyed : (createKeyed pipeline continueFrom key).Issues P := by
    unfold createKeyed
    split
    · exact hinsert _
    · exact ⟨huuid, fun _ => hinsert _⟩
  unfold triggerManualRun
  split_ifs
  · trivial
  · cases continueFrom with
    | none => exact hkeyed
    | some prior => exact (Prog.issues_ofExcept _ _).bind fun _ => hkeyed

theorem runContinue_then (pipelineId runId : Uuid) :
    (runContinue pipelineId runId).Then settles noInsert := by
  refine then_dispatchCall (fun _ => False.elim) fun role =>
    Prog.Then.handle (Prog.issues_ofExcept _ role) (fun _ => ?_) fun _ => trivial
  refine then_dispatchCall (fun _ => False.elim) fun pipeline => ?_
  cases pipeline with
  | none => trivial
  | some pipeline =>
    refine then_dispatchCall (fun _ => False.elim) fun run => ?_
    cases run.filter fun run => run.pipeline = pipeline.id with
    | none => trivial
    | some failedRun =>
      refine then_dispatchCall (fun existing hsome => ?_) fun existing => ?_
      · cases existing with
        | none => cases hsome
        | some existing => exact ⟨trivial, fun _ => trivial⟩
      cases existing with
      | some existing => exact fun _ => ⟨False.elim, trivial⟩
      | none =>
        refine then_dispatchCall (fun _ => False.elim) fun _ => ?_
        refine (triggerManualRun_then pipeline none (some failedRun)).handle_issues
          (fun result => ⟨⟨trivial, fun _ => id⟩, fun _ => trivial⟩) fun e => ?_
        cases e with
        | dataLake e =>
          dsimp only
          split_ifs <;> trivial
        | other message => trivial

theorem continueFromOption_plain (options : CommandOptions) :
    (continueFromOption options).Issues plain := by
  unfold continueFromOption
  split
  · trivial
  · refine ⟨trivial, fun run => ?_⟩
    cases run <;> trivial

theorem handle_then (options : CommandOptions) : (handle options).Then settles noInsert := by
  refine then_dispatchCall (fun _ => False.elim) fun pipeline => ?_
  cases pipeline with
  | none => trivial
  | some pipeline =>
    dsimp only
    split_ifs
    · trivial
    · refine Prog.Then.handle ((continueFromOption_plain options).mono fun _ h =>
        (plain_noInsert h).2) (fun prior => ?_) fun _ => trivial
      refine (triggerManualRun_then pipeline _ prior).handle_issues (fun _ => trivial) fun e => ?_
      cases e with
      | dataLake e =>
        dsimp only
        split_ifs <;> trivial
      | other message => trivial

theorem request_then (request : Request) : request.program.Then settles noInsert := by
  cases request with
  | post pipelineId runId =>
    exact (runContinue_then pipelineId runId).handle_issues (fun _ => trivial) fun _ => trivial
  | command options =>
    exact (handle_then options).handle_issues (fun _ => trivial) fun _ => trivial
  | direct pipeline key continueFrom =>
    exact (triggerManualRun_then pipeline key continueFrom).handle_issues (fun _ => trivial)
      fun _ => trivial

/-! At most one continuation. -/

/-- Either the run has no continuation, or it has one and no request may insert
another. -/
structure Unique (run : Uuid) (s : Requests) : Prop where
  shape : ∀ i p, s.threads i = some p → p.Then settles noInsert
  unique : continuations run s.world.runs = [] ∨
    ((continuations run s.world.runs).length = 1 ∧
      ∀ i p, s.threads i = some p → ¬ MayInsert run s.world.runs p)

variable {run : Uuid} {runs : List PipelineRun}

theorem MayInsert.of_append {new : List PipelineRun} {p : DispatchProg Unit}
    (h : MayInsert run (runs ++ new) p) : MayInsert run runs p :=
  Prog.Uncovered.mono (fun _ hop => inserts_mono hop) h

/-- A request that may not insert is not brought to insert by an answer, when a
continuation is there to be found. -/
theorem MayInsert.of_answer {op : DispatchOp} {k : op.Resp → DispatchProg Unit}
    {c : DispatchAnswer} {w w' : DispatchWorld} {r : op.Resp}
    (hthen : Prog.Then settles noInsert (.call op k : DispatchProg Unit))
    (hne : continuations run w.runs ≠ []) (he : execDispatch op c w = some (r, w'))
    (h : MayInsert run w.runs (k r)) : MayInsert run w.runs (.call op k) := by
  refine .inr ⟨fun hasks => ?_, r, execDispatch_lookedUp he, h⟩
  cases op with
  | existingContinuation prior =>
    obtain rfl : prior = run := hasks
    exact not_mayInsert ((hthen r).1 (execDispatch_existing he hne)) h
  | _ => exact hasks.elim

theorem Unique.start {s : Requests} {i : Nat} {p : DispatchProg Unit} (hs : Unique run s)
    (hok : Undisputed run s (.start i p)) :
    Unique run ⟨s.world, Function.update s.threads i (some p)⟩ := by
  obtain ⟨⟨request, rfl⟩, hdirect⟩ := hok
  refine ⟨fun j q hj => ?_, ?_⟩
  · by_cases hij : j = i
    · subst hij
      obtain rfl : request.program = q := by simpa using hj
      exact request_then request
    · exact hs.shape j q (by simpa [hij] using hj)
  · rcases hs.unique with hnone | ⟨hone, hothers⟩
    · exact .inl hnone
    · refine .inr ⟨hone, fun j q hj => ?_⟩
      by_cases hij : j = i
      · subst hij
        obtain rfl : request.program = q := by simpa using hj
        intro hmay
        have hnone := hdirect hmay
        simp [hnone] at hone
      · exact hothers j q (by simpa [hij] using hj)

theorem Unique.step {s : Requests} {i : Nat} {c : DispatchAnswer} {p p' : DispatchProg Unit}
    {w' : DispatchWorld} (hs : Unique run s) (hok : Undisputed run s (.step i c))
    (hi : s.threads i = some p) (hp : p.step execDispatch c s.world = some (p', w')) :
    Unique run ⟨w', Function.update s.threads i (some p')⟩ := by
  cases p with
  | ret a => simp [Prog.step] at hp
  | raise e => simp [Prog.step] at hp
  | call op k =>
    simp only [Prog.step, Option.map_eq_some_iff, Prod.exists, Prod.mk.injEq] at hp
    obtain ⟨r, v, he, rfl, rfl⟩ := hp
    have hthen := hs.shape i _ hi
    refine ⟨fun j q hj => ?_, ?_⟩
    · by_cases hij : j = i
      · subst hij
        obtain rfl : k r = q := by simpa using hj
        exact (hthen r).2
      · exact hs.shape j q (by simpa [hij] using hj)
    · -- What the step adds to the table of runs.
      obtain ⟨new, hruns, hnew⟩ : ∃ new, v.runs = s.world.runs ++ new ∧
          (continuations run v.runs = continuations run s.world.runs ∨
            (inserts run s.world.runs op ∧
              (continuations run v.runs).length =
                (continuations run s.world.runs).length + 1)) := by
        rcases execDispatch_runs he with heq | ⟨key, defaults, fresh, rfl, hkey, -, heq⟩
        · exact ⟨[], by simpa using heq, .inl (by rw [heq])⟩
        · refine ⟨_, heq, ?_⟩
          rw [heq, continuations_append]
          by_cases hrun : defaults.continuedFrom = some run
          · exact .inr ⟨⟨hrun, hkey⟩, by simp [hrun]⟩
          · exact .inl (by simp [hrun])
      have hothers : (∀ j q, j ≠ i → s.threads j = some q → ¬ MayInsert run s.world.runs q) →
          ¬ MayInsert run v.runs (k r) →
          ∀ j q, Function.update s.threads i (some (k r)) j = some q → ¬ MayInsert run v.runs q := by
        intro hold hself j q hj
        by_cases hij : j = i
        · subst hij
          obtain rfl : k r = q := by simpa using hj
          exact hself
        · intro hmay
          rw [hruns] at hmay
          exact hold j q hij (by simpa [hij] using hj) hmay.of_append
      rcases hnew with hsame | ⟨hinserts, hlen⟩
      · rcases hs.unique with hnone | ⟨hone, hquiet⟩
        · exact .inl (hsame.trans hnone)
        · refine .inr ⟨by rw [hsame, hone], hothers (fun j q _ hj => hquiet j q hj) fun hmay => ?_⟩
          have hne : continuations run s.world.runs ≠ [] := by
            intro hnil
            simp [hnil] at hone
          rw [hruns] at hmay
          exact hquiet i _ hi (hmay.of_append.of_answer hthen hne he)
      · rcases hs.unique with hnone | ⟨-, hquiet⟩
        · refine .inr ⟨by rw [hlen, hnone]; rfl, hothers (hok op k hi hinserts) ?_⟩
          cases op with
          | getOrCreate key defaults => exact not_mayInsert ((hthen r).1 trivial)
          | _ => exact hinserts.elim
        · exact absurd (.inl hinserts) (hquiet i _ hi)

/-- Requests that do not dispute the run create at most one continuation of it. -/
theorem at_most_one_continuation (run : Uuid) {w : DispatchWorld} {s : Requests}
    (hw : continuations run w.runs = [])
    (h : Reaches (Pool.next execDispatch) (Undisputed run) (.idle w) s) :
    (continuations run s.world.runs).length ≤ 1 := by
  have hidle : Unique run (.idle w) :=
    { shape := fun i p hi => by cases hi
      unique := .inl hw }
  have hinv : Unique run s := by
    refine h.invariant hidle fun t e u ht hok he => ?_
    rcases Pool.next_cases he with ⟨i, p, rfl, -, rfl⟩ | ⟨i, c, p, p', w', rfl, hi, hp, rfl⟩
    · exact ht.start hok
    · exact ht.step hok hi hp
  rcases hinv.unique with hnone | ⟨hone, -⟩
  · simp [hnone]
  · exact hone.le

/-- While only one request may insert, its steps are undisputed. -/
theorem undisputed_alone {s t : Requests} {i : Nat}
    (hs : ∀ j q, j ≠ i → s.threads j = some q → q.Issues noInsert)
    (h : Reaches (Pool.next execDispatch) (fun _ e => ∃ c, e = .step i c) s t) :
    Reaches (Pool.next execDispatch) (Undisputed run) s t := by
  suffices hboth : Reaches (Pool.next execDispatch) (Undisputed run) s t ∧
      ∀ j q, j ≠ i → t.threads j = some q → q.Issues noInsert from hboth.1
  induction h with
  | refl => exact ⟨.refl, hs⟩
  | @tail u v e _ hok he ih =>
    obtain ⟨c, rfl⟩ := hok
    obtain ⟨hr, hu⟩ := ih
    have hok : Undisputed run u (.step i c) :=
      fun _ _ _ _ j q hj hq => not_mayInsert (hu j q hj hq)
    refine ⟨hr.tail hok he, fun j q hj hq => ?_⟩
    rcases Pool.next_cases he with ⟨_, _, h, -⟩ | ⟨i', c', p, p', w', h, -, -, rfl⟩
    · cases h
    · cases h
      exact hu j q hj (by simpa [hj] using hq)

theorem not_uncovered_dispatchCall {α : Type} {op : DispatchOp} {f : op.Resp → DispatchProg α}
    (hop : ¬ inserts run runs op)
    (hf : ¬ asks run op → ∀ r, ¬ (f r).Uncovered lookedUp (asks run) (inserts run runs)) :
    ¬ (dispatchCall op >>= f).Uncovered lookedUp (asks run) (inserts run runs) :=
  Prog.not_uncovered_call hop fun hasks r _ => hf hasks r

/-- A request of the view asks for a continuation before it inserts one. -/
theorem post_asks (pipelineId runId : Uuid) :
    ¬ MayInsert run runs (Request.post pipelineId runId).program := by
  have hother : ∀ {pipeline : Pipeline} {prior : PipelineRun}, prior.id ≠ run →
      (triggerManualRun pipeline none (some prior)).Issues fun op => ¬ inserts run runs op :=
    fun hne => triggerManualRun_issues _ _ _ id (fun _ => id)
      fun _ h => hne (Option.some.inj h.1)
  suffices hview : ¬ (runContinue pipelineId runId).Uncovered lookedUp (asks run) (inserts run runs) by
    intro h
    exact hview (Prog.Uncovered.of_handle (f := fun _ => .ret ()) (g := .raise) (fun _ => trivial)
      (fun _ => trivial) h)
  refine not_uncovered_dispatchCall id fun _ role => ?_
  cases role with
  | error e => exact id
  | ok _ =>
    refine not_uncovered_dispatchCall id fun _ found => ?_
    cases found with
    | none => exact id
    | some pipeline =>
      refine not_uncovered_dispatchCall id fun _ found => ?_
      cases found.filter fun run => run.pipeline = pipeline.id with
      | none => exact id
      | some failedRun =>
        refine not_uncovered_dispatchCall id fun hasks existing => ?_
        cases existing with
        | some existing => exact not_uncovered_dispatchCall id fun _ _ => id
        | none =>
          refine not_uncovered_dispatchCall id fun _ _ => Prog.not_uncovered_of_issues ?_
          refine (hother hasks).handle (fun result => ⟨id, fun _ => trivial⟩) fun e => ?_
          cases e with
          | dataLake e =>
            dsimp only
            split_ifs <;> trivial
          | other message => trivial

/-! A run that failed at the page limit, and requests to continue it. -/

def limitedPipeline : Pipeline where
  id := ⟨7⟩
  isActive := true
  sourceConnection := ⟨8⟩
  destinationConnection := ⟨9⟩
  sourceConfig := { baseUrl := "https://source".toList, path := "/rows".toList }
  destinationMapping := [("id".toList, "id".toList)]
  strictMapping := true

def limitedRun : PipelineRun where
  id := ⟨1⟩
  pipeline := ⟨7⟩
  idempotencyKey := "first".toList
  status := .failed
  errorCategory := some continuableErrorCategory
  lastSuccessfulCursor := some "3".toList
  pagesExtracted := 2

def limitedWorld : DispatchWorld := { runs := [limitedRun] }

def postLimited : Request := .post ⟨7⟩ ⟨1⟩

def commandLimited : Request :=
  .command { schema := "acme".toList, pipelineId := ⟨7⟩, idempotencyKey := some "again".toList
             continueFrom := some ⟨1⟩ }

def postAnswers : List DispatchAnswer :=
  [.done, .pipeline (some limitedPipeline), .done, .done, .done, .uuid ⟨20⟩, .uuid ⟨21⟩, .uuid ⟨22⟩,
    .done]

def commandAnswers : List DispatchAnswer :=
  [.pipeline (some limitedPipeline), .done, .uuid ⟨31⟩, .uuid ⟨32⟩]

/-- The view finds a continuation. -/
def reuseAnswers : List DispatchAnswer := [.done, .pipeline (some limitedPipeline), .done, .done, .done]

/-- The second of two requests finds the continuation of the first. -/
theorem at_most_one_continuation_post : ∃ s : Requests,
    Reaches (Pool.next execDispatch) (Undisputed ⟨1⟩) (.idle limitedWorld) s ∧
    (continuations ⟨1⟩ s.world.runs).length = 1 ∧ s.world.queue = [⟨⟨21⟩, ⟨22⟩, 0⟩] ∧
    s.world.audit = [(.continuationRequested, ⟨1⟩), (.continuationCreated, ⟨21⟩),
      (.continuationReused, ⟨21⟩)] ∧
    (continuations ⟨1⟩ s.world.runs).length ≤ 1 := by
  let first : Requests :=
    ⟨limitedWorld, Function.update (fun _ => none) 0 (some postLimited.program)⟩
  have hfirst : Reaches (Pool.next execDispatch) (Undisputed ⟨1⟩) (.idle limitedWorld) first :=
    Reaches.refl.tail (e := .start 0 postLimited.program)
      ⟨⟨postLimited, rfl⟩, fun hmay => absurd hmay (post_asks _ _)⟩ rfl
  let second (s : Requests) : Requests :=
    ⟨s.world, Function.update s.threads 1 (some postLimited.program)⟩
  obtain ⟨s, t, hs, hended, hfree, ht, hone, hqueue, haudit⟩ : ∃ s t,
      Pool.play execDispatch first (postAnswers.map (0, ·)) = some s ∧
      s.threads 0 = some (.ret ()) ∧ (∀ j, j ≠ 0 → s.threads j = none) ∧
      Pool.play execDispatch (second s) (reuseAnswers.map (1, ·)) = some t ∧
      (continuations ⟨1⟩ t.world.runs).length = 1 ∧ t.world.queue = [⟨⟨21⟩, ⟨22⟩, 0⟩] ∧
      t.world.audit = [(.continuationRequested, ⟨1⟩), (.continuationCreated, ⟨21⟩),
        (.continuationReused, ⟨21⟩)] := by
    refine ⟨_, _, rfl, rfl, fun j hj => ?_, rfl, rfl, rfl, rfl⟩
    simp [first, hj]
  have hsteps : ∀ {i : Nat} {answers : List DispatchAnswer} {u v : Requests},
      Pool.play execDispatch u (answers.map (i, ·)) = some v →
      Reaches (Pool.next execDispatch) (fun _ e => ∃ c, e = .step i c) u v := by
    intro i answers u v h
    refine (Pool.reaches_play h).mono fun _ e ⟨x, hx, he⟩ => ?_
    obtain ⟨c, -, rfl⟩ := List.mem_map.mp hx
    exact ⟨c, he⟩
  have hstart : Reaches (Pool.next execDispatch) (Undisputed ⟨1⟩) s (second s) :=
    Reaches.refl.tail (e := .start 1 postLimited.program)
      ⟨⟨postLimited, rfl⟩, fun hmay => absurd hmay (post_asks _ _)⟩ (by
        rw [Pool.next, hfree 1 (by decide)])
  have hbefore : ∀ j q, j ≠ 0 → first.threads j = some q → q.Issues noInsert := by
    intro j q hj hq
    simp [first, hj] at hq
  have hafter : ∀ j q, j ≠ 1 → (second s).threads j = some q → q.Issues noInsert := by
    intro j q hj hq
    have hq : s.threads j = some q := by simpa [second, hj] using hq
    by_cases hzero : j = 0
    · subst hzero
      obtain rfl := Option.some.inj (hended.symm.trans hq)
      trivial
    · rw [hfree j hzero] at hq
      cases hq
  have hreach := ((hfirst.trans (undisputed_alone hbefore (hsteps hs))).trans hstart).trans
    (undisputed_alone hafter (hsteps ht))
  exact ⟨t, hreach, hone, hqueue, haudit, at_most_one_continuation ⟨1⟩ (by decide) hreach⟩

/-- The view sees no continuation, a command creates one, and the view goes on to
create another. -/
theorem continuation_raced : ¬ ∀ (run : Uuid) (w : DispatchWorld) (row : PipelineRun) (s : Requests),
    findRun w.runs run = some row → isContinuable row = true → continuations run w.runs = [] →
    Reaches (Pool.next execDispatch) onlyRequests (.idle w) s →
    (continuations run s.world.runs).length ≤ 1 := by
  intro hclaim
  let started : Requests :=
    ⟨limitedWorld, Function.update (Function.update (fun _ => none) 0 (some postLimited.program)) 1
      (some commandLimited.program)⟩
  have hstart : Reaches (Pool.next execDispatch) onlyRequests (.idle limitedWorld) started :=
    (Reaches.refl.tail (e := .start 0 postLimited.program) ⟨postLimited, rfl⟩ rfl).tail
      (e := .start 1 commandLimited.program) ⟨commandLimited, rfl⟩ rfl
  obtain ⟨s, hs, htwo⟩ : ∃ s, Pool.play execDispatch started
      ((postAnswers.take 4).map (0, ·) ++ commandAnswers.map (1, ·) ++
        (postAnswers.drop 4).map (0, ·)) = some s ∧
      (continuations ⟨1⟩ s.world.runs).length = 2 := ⟨_, rfl, rfl⟩
  have hsteps : Reaches (Pool.next execDispatch) onlyRequests started s := by
    refine (Pool.reaches_play hs).mono fun _ e ⟨x, _, he⟩ => ?_
    subst he
    trivial
  have hone := hclaim ⟨1⟩ limitedWorld limitedRun s rfl (by decide) (by decide) (hstart.trans hsteps)
  omega

end DataLake
