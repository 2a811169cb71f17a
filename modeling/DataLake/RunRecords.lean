import DataLake.Ownership
import DataLake.Foundation.Answers
import DataLake.StrictMapping

/-! What the stored rows of runs and of their attempts say: the fields of a row agree with each
other, whatever is delivered twice and whoever dies. -/

namespace DataLake

open Foundation

variable (platform : Platform)

def Sanitized (message : Option String) : Prop :=
  ∀ text ∈ message, ∃ raw, text = sanitizeErrorMessage platform raw

/-- The counters of a row count the same pages and the same records. -/
structure CountersAgree (row : PipelineRun) : Prop where
  loaded : row.recordsLoaded = row.recordsExtracted
  payloads : row.rawPayloadCount = row.pagesExtracted
  cursor : row.lastSuccessfulCursor = none ↔ row.pagesExtracted = 0

/-- An error has a category, a sanitized message and a flag, or there is none. -/
structure ErrorFields (row : PipelineRun) : Prop where
  message : row.errorMessage.isSome = row.errorCategory.isSome
  retryable : row.errorIsRetryable.isSome = row.errorCategory.isSome
  sanitized : Sanitized platform row.errorMessage

structure Coherent (row : PipelineRun) : Prop where
  counts : CountersAgree row
  error : ErrorFields platform row
  pending : row.status = .pending →
    row.attempt = 0 ∧ row.startedAt = none ∧ row.celeryTaskId = none ∧ row.errorCategory = none
  claimed : row.status ≠ .pending →
    0 < row.attempt ∧ row.startedAt.isSome = true ∧ row.celeryTaskId.isSome = true
  finished : row.finishedAt.isSome = row.status.terminal
  failed : row.status = .failed → row.errorCategory.isSome = true

structure CoherentTask (task : TaskExecution) : Prop where
  attempted : task.status ≠ .pending
  finished : task.finishedAt = none ↔ task.status = .running
  failed : task.status = .failed → task.errorMessage.isSome = true
  sanitized : Sanitized platform task.errorMessage

/-- What a body may save: whole groups of fields that agree. -/
def CoherentSave (copy : PipelineRun) : RunFields → Prop
  | .claim => False
  | .progress => CountersAgree copy
  | .outcome => copy.status.terminal = true ∧ copy.finishedAt.isSome = true ∧
    ErrorFields platform copy ∧ (copy.status = .failed → copy.errorCategory.isSome = true)
  | .error => ErrorFields platform copy ∧ copy.errorCategory.isSome = true

def SavesCoherent : RunOp → Prop
  | .saveRun fields copy => CoherentSave platform copy fields
  | .createTaskExecution task | .saveTaskExecution task => CoherentTask platform task
  | _ => True

/-- A load tells how many rows it has loaded. -/
def LoadAnswered : ∀ op : RunOp, op.Resp → Prop
  | .load rows, answer => ∀ n, answer = .ok n → n = rows.length
  | _, _ => True

theorem execRun_loadAnswered {op : RunOp} {c : RunAnswer} {w v : World} {r : op.Resp}
    (h : execRun op c w = some (r, v)) : LoadAnswered op r := by
  cases op with
  | load rows =>
    intro n hn
    rcases execRun_load h with ⟨rfl, -⟩ | ⟨e, rfl, -⟩
    · exact (Except.ok.inj hn).symm
    · cases hn
  | _ => trivial

variable {platform} {pipeline : Pipeline} {copy : PipelineRun}

/-! The body of a run. -/

theorem obeys_orRaise {α β : Type} {A : ∀ op : RunOp, op.Resp → Prop} {P : RunOp → Prop}
    {Q : Except Exc β → Prop} {x : Except Exc α} {f : α → RunProg β} (hQ : ∀ e, Q (.error e))
    (hf : ∀ a, x = .ok a → (f a).Obeys A P Q) : (orRaise x >>= f).Obeys A P Q := by
  cases x with
  | ok a => exact hf a rfl
  | error e => exact hQ e

/-- The state that a step comes to, if it comes to one. -/
def OkState {σ : Type} (K : σ → Prop) : Except Exc σ → Prop
  | .ok s => K s
  | .error _ => True

theorem pyOr_ne_none {a : Option Text} {text : Text} : pyOr a (some text) ≠ none := by
  rcases a with _ | _ | _ <;> simp [pyOr]

theorem CountersAgree.withPage (h : CountersAgree copy) {page : FetchResult} {loaded : Nat} {text : Text}
    (hused : page.cursorUsed = some text) (hloaded : loaded = page.records.length) :
    CountersAgree (withPage copy page loaded) where
  loaded := by
    have := h.loaded
    simp only [DataLake.withPage]
    omega
  payloads := by
    have := h.payloads
    simp only [DataLake.withPage]
    omega
  cursor := by
    have hcursor : pyOr page.nextCursor page.cursorUsed ≠ none := by
      rw [hused]
      exact pyOr_ne_none
    simp [DataLake.withPage, hcursor]

theorem processPage_obeys (h : CountersAgree copy) {page : FetchResult} {text : Text}
    (hused : page.cursorUsed = some text) :
    (processPage platform pipeline copy page).Obeys LoadAnswered (SavesCoherent platform)
      (OkState CountersAgree) := by
  have hstore : (rawCall (storeRawPayload platform.bucket (rawPage copy page))).Issues
      (SavesCoherent platform) :=
    Prog.Issues.embed ((Prog.issues_true _).mono fun _ _ => trivial)
  refine Prog.Obeys.handle hstore.confined (fun record _ => ?_) fun e _ => trivial
  refine obeys_orRaise (fun _ => trivial) fun rows hrows => ?_
  refine ⟨trivial, fun answer hanswer => ?_⟩
  refine obeys_orRaise (fun _ => trivial) fun loaded hloaded => ?_
  have hlength : loaded = page.records.length := by
    cases hmapped : mapRecords page.records pipeline.destinationMapping pipeline.strictMapping with
    | error e => simp [hmapped, Except.mapError] at hrows
    | ok mapped =>
      simp only [hmapped, Except.mapError, Except.ok.injEq] at hrows
      subst hrows
      rw [hanswer loaded hloaded, (mapRecords_ok.mp hmapped).length_eq]
  have hcounts : CountersAgree (withPage copy page loaded) := h.withPage hused hlength
  exact ⟨trivial, fun _ _ => ⟨hcounts, fun _ _ => hcounts⟩⟩

section Loop

variable {P : RunOp → Prop} {config : RestApiConfig} {loads : Bytes → Except String Json}
  {maxPages : Int} {provider : Bool} {σ : Type} {K : σ → Prop} {consume : σ → FetchResult → RunProg σ}

theorem fetchTurn_obeys (hsend : ∀ page, P (.send page))
    (hconsume : ∀ s result text, K s → result.cursorUsed = some text →
      (consume s result).Obeys LoadAnswered P (OkState K))
    {next : σ → RunProg σ} {page : Int} {s : σ} (hs : K s)
    (hnext : ∀ s, K s → (next s).Obeys LoadAnswered P (OkState K)) :
    (do
      let response ← sendWithAuthRetry provider page
      let step ← orRaise (readPage config loads page response)
      let s ← match step.page with
        | some result => consume s result
        | none => pure s
      if step.stop then return s else next s : RunProg σ).Obeys LoadAnswered P (OkState K) := by
  have hsent := (sendWithAuthRetry_issues hsend provider page).confined (A := LoadAnswered)
  refine Prog.Obeys.handle hsent (fun response _ => ?_) fun e _ => trivial
  refine obeys_orRaise (fun _ => trivial) fun step hread => ?_
  have hcursor := readPage_ok hread
  obtain ⟨result, stop⟩ := step
  have hend : ∀ s, K s →
      (if stop then pure s else next s : RunProg σ).Obeys LoadAnswered P (OkState K) := by
    intro s hs
    split_ifs
    · exact hs
    · exact hnext s hs
  cases result with
  | none => exact hend s hs
  | some result =>
    exact (hconsume s result _ hs hcursor.1).handle (fun s hs => hend s hs) fun e _ => trivial

theorem fetchPages_obeys (hsend : ∀ page, P (.send page))
    (hconsume : ∀ s result text, K s → result.cursorUsed = some text →
      (consume s result).Obeys LoadAnswered P (OkState K))
    (remaining : Nat) {page : Int} {s : σ} (hs : K s) :
    (fetchPages config loads maxPages provider consume remaining page s).Obeys LoadAnswered P
      (OkState K) := by
  induction remaining generalizing page s with
  | zero => exact fetchTurn_obeys hsend hconsume hs fun _ _ => trivial
  | succ remaining ih => exact fetchTurn_obeys hsend hconsume hs fun s hs => ih hs

end Loop

theorem execute_obeys (h : CountersAgree copy) :
    (execute platform pipeline copy).Obeys LoadAnswered (SavesCoherent platform)
      (OkState CountersAgree) := by
  unfold execute
  split_ifs
  · trivial
  · refine ⟨trivial, fun source _ => obeys_orRaise (x := source) (fun _ => trivial) fun _ _ => ?_⟩
    refine ⟨trivial, fun answer _ => obeys_orRaise (x := answer) (fun _ => trivial) fun _ _ => ?_⟩
    refine obeys_orRaise (fun _ => trivial) fun limits _ => ?_
    refine obeys_orRaise (fun _ => trivial) fun page _ => ?_
    refine obeys_orRaise (fun _ => trivial) fun provider _ => ?_
    exact fetchPages_obeys (fun _ => trivial)
      (fun copy result text hcopy hused => processPage_obeys hcopy hused) _ h

theorem sanitized_none : Sanitized platform none := by
  intro text htext
  cases htext

theorem sanitized_some (raw : String) :
    Sanitized platform (some (sanitizeErrorMessage platform raw)) := by
  intro text htext
  exact ⟨raw, (Option.some.inj htext).symm⟩

theorem errorFields_withError (e : DataLakeError) :
    ErrorFields platform
      (withError copy { e with message := sanitizeErrorMessage platform e.message }) where
  message := rfl
  retryable := rfl
  sanitized := sanitized_some e.message

variable {task : TaskExecution}

theorem recordSuccess_obeys (htask : task.errorMessage = none) :
    (recordSuccess copy task).Confined LoadAnswered (SavesCoherent platform) := by
  refine ⟨trivial, fun now _ => ⟨trivial, fun finishedAt _ => ?_⟩⟩
  refine obeys_orRaise (fun _ => trivial) fun run hrun => ?_
  have hsave : CoherentSave platform run .outcome := by
    unfold markRunSucceeded at hrun
    split_ifs at hrun
    · cases hrun
    · obtain rfl := Except.ok.inj hrun
      exact ⟨rfl, rfl, ⟨rfl, rfl, sanitized_none⟩, fun h => by cases h⟩
  refine ⟨hsave, fun _ _ => ⟨⟨by simp, by simp, by simp, ?_⟩, fun _ _ => trivial⟩⟩
  simp only [htask]
  exact sanitized_none

theorem recordFailure_obeys (htask : task.finishedAt = none ∧ task.status = .running)
    (e : DataLakeError) (isFinal : Bool) :
    (recordFailure platform copy task e isFinal).Confined LoadAnswered
      (SavesCoherent platform) := by
  unfold recordFailure
  dsimp only
  split_ifs
  · refine ⟨trivial, fun finishedAt _ => obeys_orRaise (fun _ => trivial) fun run hrun => ?_⟩
    have hsave : CoherentSave platform run .outcome := by
      unfold markRunFailed at hrun
      split_ifs at hrun
      · cases hrun
      · obtain rfl := Except.ok.inj hrun
        exact ⟨rfl, rfl, ⟨rfl, rfl, sanitized_some e.message⟩, fun _ => rfl⟩
    refine ⟨hsave, fun _ _ => ⟨trivial, fun now _ => ⟨⟨by simp, by simp, by simp, ?_⟩,
      fun _ _ => trivial⟩⟩⟩
    exact sanitized_some e.message
  · refine ⟨⟨errorFields_withError e, rfl⟩, fun _ _ => ⟨⟨?_, ?_, by simp [htask.2], ?_⟩,
      fun _ _ => trivial⟩⟩
    · simp [htask.2]
    · simp [htask]
    · exact sanitized_some e.message

variable (platform pipeline) in
/-- The body of a run saves whole groups of fields that agree. -/
theorem runBody_obeys (h : CountersAgree copy) (isFinal : Bool) :
    (runBody platform pipeline copy isFinal).Confined LoadAnswered (SavesCoherent platform) := by
  refine ⟨trivial, fun startedAt _ => ⟨⟨by simp, by simp, by simp, sanitized_none⟩, fun _ _ => ?_⟩⟩
  refine (execute_obeys h).handle (fun run _ => recordSuccess_obeys rfl) fun e _ => ?_
  exact (recordFailure_obeys ⟨rfl, rfl⟩ _ _).bind fun _ => trivial

/-! The requests. -/

variable (platform) in
/-- A row that is looked up is one of the table, and those are coherent. -/
def RunAnswered : ∀ op : DispatchOp, op.Resp → Prop
  | .getRun _, found => ∀ row, found = some row → Coherent platform row
  | _, _ => True

variable (platform) in
def InsertsCoherent : DispatchOp → Prop
  | .getOrCreate _ defaults => ∀ fresh, Coherent platform { defaults with id := fresh }
  | _ => True

theorem newRun_coherent (pipeline : Pipeline) (key : Text) {continueFrom : Option PipelineRun}
    (h : ∀ prior, continueFrom = some prior → Coherent platform prior) (fresh : Uuid) :
    Coherent platform { newRun pipeline key continueFrom with id := fresh } := by
  cases continueFrom with
  | none =>
    exact ⟨⟨rfl, rfl, by simp [newRun]⟩, ⟨rfl, rfl, sanitized_none⟩, fun _ => ⟨rfl, rfl, rfl, rfl⟩,
      fun hstatus => absurd rfl hstatus, rfl, fun hstatus => by cases hstatus⟩
  | some prior =>
    obtain ⟨hloaded, hpayloads, hcursor⟩ := (h prior rfl).counts
    exact ⟨⟨hloaded, hpayloads, hcursor⟩, ⟨rfl, rfl, sanitized_none⟩,
      fun _ => ⟨rfl, rfl, rfl, rfl⟩, fun hstatus => absurd rfl hstatus, rfl,
      fun hstatus => by cases hstatus⟩

theorem obeys_dispatchCall {α : Type} {A : ∀ op : DispatchOp, op.Resp → Prop}
    {P : DispatchOp → Prop} {Q : Except Exc α → Prop} {op : DispatchOp}
    {f : op.Resp → DispatchProg α} (hop : P op) (hf : ∀ r, A op r → (f r).Obeys A P Q) :
    (dispatchCall op >>= f).Obeys A P Q := ⟨hop, hf⟩

/-- A program that looks no run up and inserts none. -/
theorem confined_plain {α : Type} {p : DispatchProg α} (hp : p.Issues plain) :
    p.Confined (RunAnswered platform) (InsertsCoherent platform) := by
  refine (hp.mono fun op hop => ?_).confined
  cases op with
  | getOrCreate key defaults => exact hop.elim
  | _ => trivial

theorem triggerManualRun_coherent (pipeline : Pipeline) (key : Option Text)
    {continueFrom : Option PipelineRun}
    (h : ∀ prior, continueFrom = some prior → Coherent platform prior) :
    (triggerManualRun pipeline key continueFrom).Confined (RunAnswered platform)
      (InsertsCoherent platform) := by
  have hinsert : ∀ key, (createAndEnqueue pipeline continueFrom key).Confined
      (RunAnswered platform) (InsertsCoherent platform) := fun key =>
    ⟨newRun_coherent pipeline key h, fun r _ => confined_plain (enqueue_plain pipeline key r.1 r.2)⟩
  have hcreate : (createKeyed pipeline continueFrom key).Confined (RunAnswered platform)
      (InsertsCoherent platform) := by
    unfold createKeyed
    split
    · exact hinsert _
    · exact ⟨trivial, fun u _ => hinsert _⟩
  unfold triggerManualRun
  split_ifs
  · trivial
  · cases continueFrom with
    | none => exact hcreate
    | some prior => exact (Prog.issues_ofExcept _ _).confined.bind fun _ => hcreate

/-- The last step of both callers: the error of a refused request is shown or raised. -/
theorem confined_reported {α β : Type} {p : DispatchProg α} {f : α → DispatchProg β}
    {g : Exc → DispatchProg β} (hp : p.Confined (RunAnswered platform) (InsertsCoherent platform))
    (hf : ∀ a, (f a).Issues plain) (hg : ∀ e, (g e).Issues plain) :
    (p.handle f g).Confined (RunAnswered platform) (InsertsCoherent platform) :=
  hp.handle (fun a => confined_plain (hf a)) fun e => confined_plain (hg e)

theorem runContinue_coherent (pipelineId runId : Uuid) :
    (runContinue pipelineId runId).Confined (RunAnswered platform) (InsertsCoherent platform) := by
  refine obeys_dispatchCall trivial fun role _ =>
    (Prog.issues_ofExcept _ role).confined.bind fun _ => ?_
  refine obeys_dispatchCall trivial fun found _ => ?_
  cases found with
  | none => trivial
  | some pipeline =>
    refine obeys_dispatchCall trivial fun run hrun => ?_
    cases hfiltered : run.filter fun run => run.pipeline = pipeline.id with
    | none => trivial
    | some failedRun =>
      obtain ⟨rfl, -⟩ := Option.filter_eq_some_iff.mp hfiltered
      refine obeys_dispatchCall trivial fun existing _ => ?_
      cases existing with
      | some existing => exact ⟨trivial, fun _ _ => trivial⟩
      | none =>
        refine obeys_dispatchCall trivial fun _ _ => ?_
        refine confined_reported (triggerManualRun_coherent pipeline none fun prior hprior => ?_)
          (fun result => ⟨trivial, fun _ => trivial⟩) fun e => ?_
        · obtain rfl := Option.some.inj hprior
          exact hrun failedRun rfl
        · cases e with
          | dataLake e =>
            dsimp only
            split_ifs <;> trivial
          | other message => trivial

theorem continueFromOption_obeys (options : CommandOptions) :
    (continueFromOption options).Obeys (RunAnswered platform) (InsertsCoherent platform)
      (OkState fun continueFrom => ∀ prior, continueFrom = some prior → Coherent platform prior) := by
  unfold continueFromOption
  cases options.continueFrom with
  | none =>
    intro prior hprior
    cases hprior
  | some runId =>
    refine obeys_dispatchCall trivial fun run hrun => ?_
    cases run with
    | none => trivial
    | some run =>
      intro prior hprior
      obtain rfl := Option.some.inj hprior
      exact hrun run rfl

theorem handle_coherent (options : CommandOptions) :
    (handle options).Confined (RunAnswered platform) (InsertsCoherent platform) := by
  refine obeys_dispatchCall trivial fun found _ => ?_
  cases found with
  | none => trivial
  | some pipeline =>
    dsimp only
    split_ifs
    · trivial
    · refine (continueFromOption_obeys options).handle (fun prior hprior => ?_) fun e _ => trivial
      refine confined_reported (triggerManualRun_coherent pipeline _ hprior) (fun _ => trivial)
        fun e => ?_
      cases e with
      | dataLake e =>
        dsimp only
        split_ifs <;> trivial
      | other message => trivial

/-- The run that a caller of the service asks to continue. -/
def ClusterEvent.prior : ClusterEvent → Option PipelineRun
  | .trigger _ (.direct _ _ continueFrom) => continueFrom
  | _ => none

/-- What a caller passes as the run to continue is the row of the table. -/
def Cluster.Given (s : Cluster) (e : ClusterEvent) : Prop :=
  ∀ prior ∈ e.prior, s.row prior.id = some prior

instance (s : Cluster) (e : ClusterEvent) : Decidable (s.Given e) :=
  inferInstanceAs (Decidable (∀ prior ∈ e.prior, s.row prior.id = some prior))

theorem request_coherent (request : Request)
    (h : ∀ pipeline key prior, request = .direct pipeline key (some prior) →
      Coherent platform prior) :
    request.program.Confined (RunAnswered platform) (InsertsCoherent platform) := by
  cases request with
  | post pipelineId runId =>
    exact (runContinue_coherent pipelineId runId).handle (fun _ => trivial) fun _ => trivial
  | command options => exact (handle_coherent options).handle (fun _ => trivial) fun _ => trivial
  | direct pipeline key continueFrom =>
    refine (triggerManualRun_coherent pipeline key fun prior hprior => ?_).handle
      (fun _ => trivial) fun _ => trivial
    exact h pipeline key prior (by rw [hprior])

theorem execDispatch_runAnswered {op : DispatchOp} {c : DispatchAnswer} {w v : DispatchWorld}
    {r : op.Resp} (hw : ∀ run row, findRun w.runs run = some row → Coherent platform row)
    (h : execDispatch op c w = some (r, v)) : RunAnswered platform op r := by
  cases op with
  | getRun id =>
    cases c with
    | done =>
      cases h
      exact hw id
    | _ => cases h
  | _ => trivial

/-! The rows. -/

theorem Coherent.write {fields : RunFields} {row : PipelineRun} (h : Coherent platform row)
    (hsave : CoherentSave platform copy fields) (hstatus : row.status ≠ .pending) :
    Coherent platform (fields.write copy row) := by
  cases fields with
  | claim => exact hsave.elim
  | progress =>
    exact ⟨⟨hsave.loaded, hsave.payloads, hsave.cursor⟩,
      ⟨h.error.message, h.error.retryable, h.error.sanitized⟩, h.pending, h.claimed, h.finished,
      h.failed⟩
  | outcome =>
    obtain ⟨hterminal, hfinished, herror, hfailed⟩ := hsave
    refine ⟨⟨h.counts.loaded, h.counts.payloads, h.counts.cursor⟩,
      ⟨herror.message, herror.retryable, herror.sanitized⟩, fun hpending => ?_,
      fun _ => h.claimed hstatus, hfinished.trans hterminal.symm, hfailed⟩
    exact absurd hpending (ne_pending_of_terminal hterminal)
  | error =>
    obtain ⟨herror, hsome⟩ := hsave
    exact ⟨⟨h.counts.loaded, h.counts.payloads, h.counts.cursor⟩,
      ⟨herror.message, herror.retryable, herror.sanitized⟩,
      fun hpending => absurd hpending hstatus, h.claimed, h.finished, fun _ => hsome⟩

theorem Coherent.claim {row : PipelineRun} {task : Uuid} {now : Nat} (h : Coherent platform row)
    (hstatus : row.status = .pending ∨ row.status = .running) :
    Coherent platform (claimedRow row task now) where
  counts := ⟨h.counts.loaded, h.counts.payloads, h.counts.cursor⟩
  error := ⟨h.error.message, h.error.retryable, h.error.sanitized⟩
  pending hpending := by cases hpending
  claimed _ := by
    refine ⟨Nat.succ_pos _, ?_, rfl⟩
    rcases hstatus with hpending | hrunning
    · simp [claimedRow, hpending]
    · have hclaimed := h.claimed (by simp [hrunning])
      simpa [claimedRow, hrunning] using hclaimed.2.1
  finished := by
    have hfinished := h.finished
    rcases hstatus with hpending | hrunning
    · simpa [claimedRow, hpending, Status.terminal] using hfinished
    · simpa [claimedRow, hrunning, Status.terminal] using hfinished
  failed hfailed := by cases hfailed

namespace Cluster

variable {s t : Cluster} {e : ClusterEvent} {run : Uuid} {row : PipelineRun}

variable (platform) in
/-- The rows are coherent, and what the workers and the requests may still save is. -/
structure Recorded (s : Cluster) : Prop where
  inv : s.Invariant
  rows : ∀ run row, s.row run = some row → Coherent platform row
  tasks : ∀ task ∈ s.world.taskExecutions, CoherentTask platform task
  bodies : ∀ j m body, s.workers j = some (.executing m body) →
    body.Confined LoadAnswered (SavesCoherent platform)
  requests : ∀ i p, s.dispatchers i = some p →
    p.Confined (RunAnswered platform) (InsertsCoherent platform)

theorem Recorded.empty : Recorded platform {} where
  inv := .empty
  rows _ _ h := by cases h
  tasks _ h := by cases h
  bodies _ _ _ h := by cases h
  requests _ _ h := by cases h

/-- Only a request that inserts a row makes one appear. -/
theorem next_row_none (h : s.next platform e = some t) (hnone : s.row run = none)
    (hrow : t.row run = some row) :
    ∃ i c op k r w, s.dispatchers i = some (.call op k) ∧
      execDispatch op c s.dispatchWorld = some (r, w) ∧ t = s.dispatched i (k r) w := by
  have hsame : t.world.runs = s.world.runs → False := by
    intro hruns
    rw [Cluster.row, hruns] at hrow
    cases hnone.symm.trans hrow
  have hsaved : ∀ fields copy, t.world.runs = saveFields fields copy s.world.runs → False := by
    intro fields copy hruns
    rw [Cluster.row] at hnone
    rw [Cluster.row, hruns, findRun_saveFields, hnone] at hrow
    cases hrow
  cases e with
  | dispatch i c =>
    obtain ⟨op, k, r, w, hi, he, rfl⟩ := next_dispatch h
    exact ⟨i, c, op, k, r, w, hi, he, rfl⟩
  | trigger i request =>
    obtain rfl := next_trigger h
    exact (hsame rfl).elim
  | deliver j m =>
    obtain ⟨-, -, rfl⟩ := next_deliver h
    exact (hsame rfl).elim
  | redeliver j =>
    obtain ⟨w, -, rfl⟩ := next_redeliver h
    exact (hsame rfl).elim
  | lock j pipeline =>
    obtain ⟨m, -, ⟨rfl, -⟩ | ⟨row, -, -, rfl⟩⟩ := next_lock h <;> exact (hsame rfl).elim
  | decide j now =>
    obtain ⟨m, row, pipeline, -, ⟨e, -, rfl⟩ | ⟨claimed, -, rfl⟩⟩ := next_decide h
    · exact (hsame rfl).elim
    · exact (hsaved .claim claimed rfl).elim
  | answer j c =>
    obtain ⟨m, op, k, r, w, -, -, hexec, rfl⟩ := next_answer h
    rcases execRun_runs hexec with hruns | ⟨fields, copy, -, hruns⟩
    · exact (hsame hruns).elim
    · exact (hsaved fields copy hruns).elim
  | finish j =>
    obtain ⟨m, out, -, rfl⟩ := next_finish h
    unfold ended at hsame
    split_ifs at hsame <;> exact (hsame rfl).elim
  | die j =>
    obtain ⟨w, -, rfl⟩ := next_die h
    exact (hsame rfl).elim

theorem Recorded.next_row (hs : s.Recorded platform) (h : s.next platform e = some t)
    (hrow : t.row run = some row) : Coherent platform row := by
  cases hs.inv.row_step run h with
  | same hsame => exact hs.rows run row (hsame.symm.trans hrow)
  | created new hnone hnew =>
    obtain ⟨i, c, op, k, r, w, hi, he, rfl⟩ := next_row_none h hnone hrow
    rcases execDispatch_runs he with hruns | ⟨key, defaults, fresh, rfl, -, hfresh, hruns⟩
    · rw [dispatched_row, hruns] at hrow
      cases hnone.symm.trans hrow
    · rw [dispatched_row, hruns, findRun_append hfresh] at hrow
      split_ifs at hrow
      · obtain rfl := Option.some.inj hrow
        exact (hs.requests i _ hi).1 fresh
      · cases hnone.symm.trans hrow
  | saved j c m fields copy old k he hj hrun hfree hsaves hold hnew =>
    obtain rfl := Option.some.inj (hnew.symm.trans hrow)
    obtain ⟨-, owned, howned, hstatus, -⟩ := hs.inv.executing j m _ hj
    rw [hrun, hold] at howned
    obtain rfl := Option.some.inj howned
    exact (hs.rows run old hold).write (hs.bodies j m _ hj).1 hstatus
  | claimed j now m old pipeline he hj hrun hold hstatus hnew =>
    obtain rfl := Option.some.inj (hnew.symm.trans hrow)
    exact (hs.rows run old hold).claim (hstatus.imp_right And.left)

theorem Recorded.next_body {j : Nat} {m : Message} {body : RunProg Unit}
    (hs : s.Recorded platform) (h : s.next platform e = some t)
    (hj : t.workers j = some (.executing m body)) :
    body.Confined LoadAnswered (SavesCoherent platform) := by
  cases next_worker h hj with
  | same hold => exact hs.bodies j m body hold
  | claimed now m row claimed pipeline he hold hclaim =>
    obtain ⟨hstatus, rfl⟩ := claimRun_ok hclaim
    have hrow := hs.rows m.run row (hs.inv.current j m row pipeline hold)
    exact runBody_obeys platform pipeline (hrow.claim (hstatus.imp_right And.left)).counts _
  | answered c m op k r he hold hexec =>
    exact (hs.bodies j m _ hold).2 r (execRun_loadAnswered hexec)

/-- Where the program of a request comes from. -/
theorem next_request {i : Nat} {p : DispatchProg Unit} (h : s.next platform e = some t)
    (hi : t.dispatchers i = some p) :
    s.dispatchers i = some p ∨ (∃ request, e = .trigger i request ∧ p = request.program) ∨
      ∃ c op k r w, s.dispatchers i = some (.call op k) ∧
        execDispatch op c s.dispatchWorld = some (r, w) ∧ p = k r := by
  cases e with
  | trigger j request =>
    obtain rfl := next_trigger h
    by_cases hij : i = j
    · subst hij
      exact .inr (.inl ⟨request, rfl, by simpa using hi.symm⟩)
    · exact .inl (by simpa [hij] using hi)
  | dispatch j c =>
    obtain ⟨op, k, r, w, hj, he, rfl⟩ := next_dispatch h
    by_cases hij : i = j
    · subst hij
      exact .inr (.inr ⟨c, op, k, r, w, hj, he, by simpa [dispatched] using hi.symm⟩)
    · exact .inl (by simpa [dispatched, hij] using hi)
  | deliver j m =>
    obtain ⟨-, -, rfl⟩ := next_deliver h
    exact .inl hi
  | redeliver j =>
    obtain ⟨w, -, rfl⟩ := next_redeliver h
    exact .inl hi
  | lock j pipeline =>
    obtain ⟨m, -, ⟨rfl, -⟩ | ⟨row, -, -, rfl⟩⟩ := next_lock h <;> exact .inl hi
  | decide j now =>
    obtain ⟨m, row, pipeline, -, ⟨e, -, rfl⟩ | ⟨claimed, -, rfl⟩⟩ := next_decide h <;> exact .inl hi
  | answer j c =>
    obtain ⟨m, op, k, r, w, -, -, -, rfl⟩ := next_answer h
    exact .inl hi
  | finish j =>
    obtain ⟨m, out, -, rfl⟩ := next_finish h
    unfold ended at hi
    split_ifs at hi <;> exact .inl hi
  | die j =>
    obtain ⟨w, -, rfl⟩ := next_die h
    exact .inl hi

theorem Recorded.next_coherent {i : Nat} {p : DispatchProg Unit} (hs : s.Recorded platform)
    (hok : s.Given e) (h : s.next platform e = some t) (hi : t.dispatchers i = some p) :
    p.Confined (RunAnswered platform) (InsertsCoherent platform) := by
  rcases next_request h hi with hold | ⟨request, rfl, rfl⟩ | ⟨c, op, k, r, w, hold, he, rfl⟩
  · exact hs.requests i p hold
  · refine request_coherent request fun pipeline key prior hrequest => ?_
    subst hrequest
    exact hs.rows prior.id prior (hok prior rfl)
  · exact (hs.requests i _ hold).2 r (execDispatch_runAnswered (w := s.dispatchWorld) hs.rows he)

theorem Recorded.next_tasks (hs : s.Recorded platform) (h : s.next platform e = some t) :
    ∀ task ∈ t.world.taskExecutions, CoherentTask platform task := by
  have hsame : t.world.taskExecutions = s.world.taskExecutions →
      ∀ task ∈ t.world.taskExecutions, CoherentTask platform task := fun heq => heq ▸ hs.tasks
  cases e with
  | answer j c =>
    obtain ⟨m, op, k, r, w, hj, -, hexec, rfl⟩ := next_answer h
    have hsave := (hs.bodies j m _ hj).1
    cases op with
    | createTaskExecution task =>
      cases c with
      | done =>
        cases hexec
        intro task' htask'
        rcases List.mem_append.mp htask' with hmem | hmem
        · exact hs.tasks task' hmem
        · obtain rfl := List.mem_singleton.mp hmem
          exact hsave
      | _ => cases hexec
    | saveTaskExecution task =>
      cases c with
      | done =>
        cases hexec
        intro task' htask'
        obtain ⟨old, hold, rfl⟩ := List.mem_map.mp htask'
        split_ifs
        · exact hsave
        · exact hs.tasks old hold
      | _ => cases hexec
    | raw op =>
      cases c with
      | raw a =>
        simp only [execRun, Option.map_eq_some_iff, Prod.mk.injEq] at hexec
        obtain ⟨x, -, -, rfl⟩ := hexec
        exact hsame rfl
      | _ => cases hexec
    | _ => cases c <;> cases hexec <;> exact hsame rfl
  | trigger i request =>
    obtain rfl := next_trigger h
    exact hsame rfl
  | dispatch i c =>
    obtain ⟨op, k, r, w, -, -, rfl⟩ := next_dispatch h
    exact hsame rfl
  | deliver j m =>
    obtain ⟨-, -, rfl⟩ := next_deliver h
    exact hsame rfl
  | redeliver j =>
    obtain ⟨w, -, rfl⟩ := next_redeliver h
    exact hsame rfl
  | lock j pipeline =>
    obtain ⟨m, -, ⟨rfl, -⟩ | ⟨row, -, -, rfl⟩⟩ := next_lock h <;> exact hsame rfl
  | decide j now =>
    obtain ⟨m, row, pipeline, -, ⟨e, -, rfl⟩ | ⟨claimed, -, rfl⟩⟩ := next_decide h <;> exact hsame rfl
  | finish j =>
    obtain ⟨m, out, -, rfl⟩ := next_finish h
    unfold ended
    split_ifs <;> exact hs.tasks
  | die j =>
    obtain ⟨w, -, rfl⟩ := next_die h
    exact hsame rfl

theorem Recorded.next (hs : s.Recorded platform) (hok : s.Given e)
    (h : s.next platform e = some t) : t.Recorded platform where
  inv := hs.inv.next h
  rows _ _ hrow := hs.next_row h hrow
  tasks := hs.next_tasks h
  bodies _ _ _ hj := hs.next_body h hj
  requests _ _ hi := hs.next_coherent hok h hi

end Cluster

/-- Whatever is requested, delivered twice or answered, and whoever dies: every row of a run
that is stored is coherent, and so is every record of an attempt. -/
theorem rows_coherent (platform : Platform) {s : Cluster}
    (hs : Reaches (Cluster.next platform) Cluster.Given {} s) :
    (∀ run row, s.row run = some row → Coherent platform row) ∧
      ∀ task ∈ s.world.taskExecutions, CoherentTask platform task := by
  have hrecorded : s.Recorded platform :=
    hs.invariant .empty fun _ _ _ hi hok he => hi.next hok he
  exact ⟨hrecorded.rows, hrecorded.tasks⟩

/-- Two workers have the same message. The one fails for good, and the other one records an
error that it would retry. -/
theorem rows_coherent_twice : ∃ (s : Cluster) (row : PipelineRun),
    Reaches (Cluster.next (smallSync none).platform) Cluster.Given {} s ∧ s.row ⟨1⟩ = some row ∧
    row.status = .failed ∧ row.attempt = 2 ∧ row.errorIsRetryable = some true ∧
    row.finishedAt.isSome = true ∧ row.errorCategory.isSome = true := by
  have hfinal : (replay (Cluster.next (smallSync none).platform) Cluster.Given {}
      (twoMessages ++ takes 0 ⟨⟨1⟩, ⟨5⟩, 0⟩ ++ [.redeliver 0] ++ takes 1 ⟨⟨1⟩, ⟨5⟩, 0⟩ ++
        failsEarly 0 false ++ recordsFailure 0 ++ failsEarly 1 true ++
        [.answer 1 .done, .answer 1 .done])).bind (fun s => (s.row ⟨1⟩).map fun row =>
          (row.status, row.attempt, row.errorIsRetryable)) = some (.failed, 2, some true) := by
    decide +kernel
  obtain ⟨s, hs, hend⟩ := Option.bind_eq_some_iff.mp hfinal
  obtain ⟨row, hrow, hsummary⟩ := Option.map_eq_some_iff.mp hend
  simp only [Prod.mk.injEq] at hsummary
  obtain ⟨hstatus, hattempt, hretryable⟩ := hsummary
  have hreach := Reaches.of_replay _ hs
  have hcoherent := (rows_coherent _ hreach).1 ⟨1⟩ row hrow
  have hfinished := hcoherent.finished
  rw [hstatus] at hfinished
  exact ⟨s, row, hreach, hrow, hstatus, hattempt, hretryable, hfinished, hcoherent.failed hstatus⟩

end DataLake
