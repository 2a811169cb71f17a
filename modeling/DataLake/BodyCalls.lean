import DataLake.Orchestration

/-! Which calls the body of a run makes: the rows it saves are its own, it saves one
outcome at most, and it saves one or asks for another attempt. -/

namespace DataLake

open Foundation

def savesProgress (run : Uuid) : RunOp → Prop
  | .saveRun fields copy => fields = .progress ∧ copy.id = run
  | _ => True

def savesOwn (run : Uuid) : RunOp → Prop
  | .saveRun fields copy =>
    copy.id = run ∧ fields ≠ .claim ∧ (fields = .outcome → copy.status.terminal = true)
  | _ => True

def savesOutcome : RunOp → Prop
  | .saveRun fields _ => fields = .outcome
  | _ => False

def savesNothing : RunOp → Prop
  | .saveRun _ _ => False
  | _ => True

theorem savesProgress.own {run : Uuid} {op : RunOp} (h : savesProgress run op) :
    savesOwn run op := by
  cases op with
  | saveRun fields copy =>
    obtain ⟨rfl, hid⟩ := h
    exact ⟨hid, by simp, by simp⟩
  | _ => trivial

theorem savesProgress.not_outcome {run : Uuid} {op : RunOp} (h : savesProgress run op) :
    ¬ savesOutcome op := by
  cases op with
  | saveRun fields copy =>
    obtain ⟨rfl, -⟩ := h
    simp [savesOutcome]
  | _ => exact id

theorem savesNothing.progress {run : Uuid} {op : RunOp} (h : savesNothing op) :
    savesProgress run op := by
  cases op with
  | saveRun fields copy => exact h.elim
  | _ => trivial

/-- The save of a body that is not a claim leaves the owner, and never makes the run
pending or running again. -/
theorem savesOwn_write {run : Uuid} {fields : RunFields} {copy : PipelineRun} (row : PipelineRun)
    (h : savesOwn run (.saveRun fields copy)) :
    (fields.write copy row).celeryTaskId = row.celeryTaskId ∧
    (fields.write copy row).attempt = row.attempt ∧
    ((fields.write copy row).status = row.status ∨
      (fields.write copy row).status.terminal = true) := by
  obtain ⟨-, hclaim, hterminal⟩ := h
  cases fields with
  | claim => exact absurd rfl hclaim
  | progress => exact ⟨rfl, rfl, .inl rfl⟩
  | outcome => exact ⟨rfl, rfl, .inr (hterminal rfl)⟩
  | error => exact ⟨rfl, rfl, .inl rfl⟩

theorem ne_pending_of_terminal {status : Status} (h : status.terminal = true) :
    status ≠ .pending := by
  rintro rfl
  cases h

def Owned (claimed copy : PipelineRun) : Prop :=
  copy.id = claimed.id ∧ copy.status = .running

def okOwned (claimed : PipelineRun) : Except Exc PipelineRun → Prop
  | .ok copy => Owned claimed copy
  | .error _ => True

variable {claimed copy : PipelineRun} {platform : Platform} {pipeline : Pipeline}

theorem within_raise {α : Type} {P : RunOp → Prop} {Q : Except Exc α → Prop} (hQ : ∀ e, Q (.error e))
    (e : Exc) : (Prog.raise e : RunProg α).Within P Q := hQ e

theorem within_orRaise {α β : Type} {P : RunOp → Prop} {Q : Except Exc β → Prop}
    {x : Except Exc α} {f : α → RunProg β} (hQ : ∀ e, Q (.error e))
    (hf : ∀ a, (f a).Within P Q) : (orRaise x >>= f).Within P Q := by
  cases x with
  | ok a => exact hf a
  | error e => exact hQ e

theorem processPage_within (h : Owned claimed copy) (page : FetchResult) :
    (processPage platform pipeline copy page).Within (savesProgress claimed.id)
      (okOwned claimed) := by
  have hstore : (rawCall (storeRawPayload platform.bucket (rawPage copy page))).Issues
      (savesProgress claimed.id) :=
    Prog.Issues.embed ((Prog.issues_true _).mono fun _ _ => trivial)
  refine hstore.within.handle (fun record _ => ?_) fun e _ => trivial
  refine within_orRaise (fun _ => trivial) fun rows => ⟨trivial, fun answer => ?_⟩
  refine within_orRaise (x := answer) (fun _ => trivial) fun loaded => ⟨trivial, fun _ => ?_⟩
  exact ⟨⟨rfl, h.1⟩, fun _ => h⟩

theorem issues_orRaise {α : Type} (P : RunOp → Prop) (x : Except Exc α) :
    (orRaise x).Issues P := Prog.issues_ofExcept (S := RunSig) P x

theorem send_issues {P : RunOp → Prop} (hsend : ∀ page, P (.send page)) (page : Int) :
    (send page).Issues P :=
  ⟨hsend page, fun r => issues_orRaise P r⟩

theorem sendWithAuthRetry_issues {P : RunOp → Prop} (hsend : ∀ page, P (.send page))
    (provider : Bool) (page : Int) : (sendWithAuthRetry provider page).Issues P := by
  refine (send_issues hsend page).bind fun response => ?_
  dsimp only
  split_ifs
  · exact (send_issues hsend page).bind fun response => issues_orRaise P _
  · exact issues_orRaise P _

section Loop

variable {σ : Type} {P : RunOp → Prop} {Q : Except Exc σ → Prop} {config : RestApiConfig}
  {loads : Bytes → Except String Json} {maxPages : Int} {provider : Bool}
  {consume : σ → FetchResult → RunProg σ} {s : σ}

theorem fetchTurn_within (hsend : ∀ page, P (.send page)) (hraise : ∀ e, Q (.error e))
    (hconsume : ∀ s page, Q (.ok s) → (consume s page).Within P Q) {next : σ → RunProg σ}
    (hnext : ∀ s, Q (.ok s) → (next s).Within P Q) (page : Int) (hs : Q (.ok s)) :
    (do
      let response ← sendWithAuthRetry provider page
      let step ← orRaise (readPage config loads page response)
      let s ← match step.page with
        | some result => consume s result
        | none => pure s
      if step.stop then return s else next s : RunProg σ).Within P Q := by
  refine (sendWithAuthRetry_issues hsend provider page).within.handle (fun response _ => ?_)
    fun e _ => hraise e
  refine within_orRaise hraise fun step => ?_
  obtain ⟨page, stop⟩ := step
  have hend : ∀ s, Q (.ok s) → (if stop then pure s else next s : RunProg σ).Within P Q := by
    intro s hs
    split_ifs
    · exact hs
    · exact hnext s hs
  cases page with
  | none => exact hend s hs
  | some result => exact (hconsume s result hs).handle hend fun e _ => hraise e

theorem fetchPages_within (hsend : ∀ page, P (.send page)) (hraise : ∀ e, Q (.error e))
    (hconsume : ∀ s page, Q (.ok s) → (consume s page).Within P Q) (remaining : Nat) (page : Int)
    (hs : Q (.ok s)) :
    (fetchPages config loads maxPages provider consume remaining page s).Within P Q := by
  induction remaining generalizing page s with
  | zero =>
    exact fetchTurn_within hsend hraise hconsume
      (fun _ _ => within_raise hraise (.dataLake (pageLimitExceeded maxPages page))) page hs
  | succ remaining ih =>
    exact fetchTurn_within hsend hraise hconsume (fun s hs => ih (page + 1) hs) page hs

theorem fetch_within (hsend : ∀ page, P (.send page)) (hraise : ∀ e, Q (.error e))
    (hconsume : ∀ s page, Q (.ok s) → (consume s page).Within P Q) (cursor : Option Text)
    (hs : Q (.ok s)) : (fetch config loads cursor consume s).Within P Q := by
  refine within_orRaise hraise fun limits => ?_
  refine within_orRaise hraise fun page => within_orRaise hraise fun provider => ?_
  exact fetchPages_within hsend hraise hconsume _ page hs

end Loop

variable (platform pipeline) in
theorem execute_within (h : Owned claimed copy) :
    (execute platform pipeline copy).Within (savesProgress claimed.id) (okOwned claimed) := by
  have hraise : ∀ e, okOwned claimed (.error e) := fun _ => trivial
  unfold execute
  split_ifs
  · trivial
  · refine ⟨trivial, fun source => within_orRaise (x := source) hraise fun _ => ?_⟩
    refine ⟨trivial, fun destination => within_orRaise (x := destination) hraise fun _ => ?_⟩
    exact fetch_within (fun _ => trivial) hraise (fun _ page h => processPage_within h page) _ h

variable (platform pipeline copy) in
theorem execute_issues {P : RunOp → Prop} (hcredential : ∀ kind, P (.resolveCredential kind))
    (hsend : ∀ page, P (.send page)) (hraw : ∀ op, P (.raw op)) (hload : ∀ rows, P (.load rows))
    (hsave : ∀ run, P (.saveRun .progress run)) : (execute platform pipeline copy).Issues P := by
  have hraise : ∀ e : Exc, (fun _ : Except Exc PipelineRun => True) (.error e) := fun _ => trivial
  have hpage : ∀ (run : PipelineRun) (page : FetchResult),
      (processPage platform pipeline run page).Issues P := by
    intro run page
    refine Prog.Issues.bind (Prog.Issues.embed ((Prog.issues_true _).mono fun _ _ => hraw _))
      fun record => ?_
    refine (issues_orRaise P _).bind fun rows => ⟨hload rows, fun answer => ?_⟩
    exact (issues_orRaise P answer).bind fun loaded => ⟨hraw _, fun _ => ⟨hsave _, fun _ => trivial⟩⟩
  unfold execute
  split_ifs
  · trivial
  · refine ⟨hcredential _, fun source => (issues_orRaise P source).bind fun _ => ?_⟩
    refine ⟨hcredential _, fun destination => (issues_orRaise P destination).bind fun _ => ?_⟩
    exact (fetch_within hsend hraise (fun run page _ => (hpage run page).within) _ trivial).issues

/-! The record of the attempt. -/

variable {task : TaskExecution} {e : DataLakeError} {isFinal : Bool}

theorem recordSuccess_own (h : Owned claimed copy) :
    (recordSuccess copy task).Issues (savesOwn claimed.id) := by
  refine ⟨trivial, fun _ => ⟨trivial, fun finishedAt => ?_⟩⟩
  simp only [markRunSucceeded, h.2, ne_eq, not_true_eq_false, if_false]
  exact ⟨⟨h.1, by simp, fun _ => rfl⟩, fun _ => ⟨trivial, fun _ => trivial⟩⟩

theorem recordFailure_own (h : Owned claimed copy) :
    (recordFailure platform copy task e isFinal).Issues (savesOwn claimed.id) := by
  unfold recordFailure
  dsimp only
  split_ifs
  · refine ⟨trivial, fun finishedAt => ?_⟩
    simp only [markRunFailed, h.2, ne_eq, not_true_eq_false, if_false]
    exact ⟨⟨h.1, by simp, fun _ => rfl⟩, fun _ => ⟨trivial, fun _ => ⟨trivial, fun _ => trivial⟩⟩⟩
  · exact ⟨⟨h.1, by simp, by simp⟩, fun _ => ⟨trivial, fun _ => trivial⟩⟩

variable (platform pipeline isFinal) in
theorem runBody_own (hstatus : claimed.status = .running) :
    (runBody platform pipeline claimed isFinal).Issues (savesOwn claimed.id) := by
  refine ⟨trivial, fun _ => ⟨trivial, fun _ => ?_⟩⟩
  have hexecute := (execute_within platform pipeline ⟨rfl, hstatus⟩).mono fun _ h => h.own
  refine (hexecute.handle (fun copy hcopy => (recordSuccess_own hcopy).within) fun e _ => ?_).issues
  exact ((recordFailure_own ⟨rfl, hstatus⟩).bind fun _ => issues_orRaise _ (.error _)).within

def savesTerminal (run : Uuid) : RunOp → Prop
  | .saveRun fields copy => fields = .outcome ∧ copy.id = run ∧ copy.status.terminal = true
  | _ => False

theorem recordSuccess_must {Q : Except Exc Unit → Prop} (h : Owned claimed copy) :
    (recordSuccess copy task).Must (savesTerminal claimed.id) Q := by
  refine .inr fun _ => .inr fun finishedAt => ?_
  simp only [markRunSucceeded, h.2, ne_eq, not_true_eq_false, if_false]
  exact .inl ⟨rfl, h.1, rfl⟩

/-- A failure is final, or another attempt is asked for. -/
theorem recordFailure_must (h : Owned claimed copy) :
    (recordFailure platform copy task e isFinal >>= fun _ => raiseError e : RunProg Unit).Must
      (savesTerminal claimed.id) fun out => asksRetry isFinal out = true := by
  unfold recordFailure
  dsimp only
  split_ifs with hfinal
  · refine .inr fun finishedAt => ?_
    simp only [markRunFailed, h.2, ne_eq, not_true_eq_false, if_false]
    exact .inl ⟨rfl, h.1, rfl⟩
  · refine .inr fun _ => .inr fun _ => ?_
    change (e.retryable && !isFinal) = true
    simpa [and_comm] using hfinal

variable (platform pipeline isFinal) in
/-- The body saves a terminal status or ends by asking for another attempt. -/
theorem runBody_must (hstatus : claimed.status = .running) :
    (runBody platform pipeline claimed isFinal).Must (savesTerminal claimed.id)
      fun out => asksRetry isFinal out = true := by
  refine .inr fun _ => .inr fun _ => ?_
  have hclaimed : Owned claimed claimed := ⟨rfl, hstatus⟩
  exact (execute_within platform pipeline hclaimed).must (fun copy hcopy => recordSuccess_must hcopy) fun e _ =>
    recordFailure_must hclaimed

section Then

variable {α : Type} {M : ∀ op : RunOp, op.Resp → Prop} {P : RunOp → Prop}

theorem then_runCall {op : RunOp} {f : op.Resp → RunProg α}
    (h : ∀ r, (M op r → (f r).Issues P) ∧ (f r).Then M P) : (runCall op >>= f).Then M P := h

theorem then_orRaise {β : Type} {x : Except Exc β} {f : β → RunProg α}
    (h : ∀ a, (f a).Then M P) : (orRaise x >>= f).Then M P := by
  cases x with
  | ok a => exact h a
  | error e => trivial

theorem then_last {A : Prop} {p : RunProg α} (hp : p.Issues fun op => P op ∧ ∀ r, ¬ M op r) :
    (A → p.Issues P) ∧ p.Then M P :=
  ⟨fun _ => hp.mono fun _ h => h.1, .of_issues (hp.mono fun _ h => h.2)⟩

end Then

theorem recordSuccess_then :
    (recordSuccess copy task).Then (fun op _ => savesOutcome op) savesNothing := by
  refine then_runCall fun now => ⟨fun h => h.elim, ?_⟩
  refine then_runCall fun finishedAt => ⟨fun h => h.elim, then_orRaise fun run => ?_⟩
  exact then_runCall fun r => then_last ⟨⟨trivial, fun _ => id⟩, fun _ => trivial⟩

theorem recordFailure_then :
    (recordFailure platform copy task e isFinal).Then (fun op _ => savesOutcome op)
      savesNothing := by
  unfold recordFailure
  dsimp only
  split_ifs
  · refine then_runCall fun finishedAt => ⟨fun h => h.elim, then_orRaise fun run => ?_⟩
    refine then_runCall fun r => then_last ?_
    exact ⟨⟨trivial, fun _ => id⟩, fun now => ⟨⟨trivial, fun _ => id⟩, fun _ => trivial⟩⟩
  · refine .of_issues ⟨fun _ => ?_, fun _ => ⟨fun _ => id, fun _ => trivial⟩⟩
    simp [savesOutcome]

theorem runBody_then (hstatus : claimed.status = .running) :
    (runBody platform pipeline claimed isFinal).Then (fun op _ => savesOutcome op)
      savesNothing := by
  refine then_runCall fun startedAt => ⟨fun h => h.elim, ?_⟩
  refine then_runCall fun _ => ⟨fun h => h.elim, ?_⟩
  have hclaimed : Owned claimed claimed := ⟨rfl, hstatus⟩
  have hexecute := (execute_within platform pipeline hclaimed).issues
  exact .handle (hexecute.mono fun _ h _ => h.not_outcome) (fun _ => recordSuccess_then)
    fun _ => recordFailure_then.handle_issues (fun _ => issues_orRaise _ (.error _))
      fun _ => issues_orRaise _ (.error _)

end DataLake
