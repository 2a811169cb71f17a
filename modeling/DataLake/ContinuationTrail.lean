import DataLake.ClusterInvariant
import DataLake.Foundation.Testimony

/-! The audit trail of continuations: a run that the button makes has been requested in the trail
before, and what the trail tells of runs is true of them. -/

namespace DataLake

open Foundation

abbrev Desk := Sessions DispatchSig Exc Unit Request DispatchWorld

abbrev DeskEvent := SessionEvent DispatchAnswer Request

/-- Requests in any interleaving, each of which may stop anywhere. -/
def Desk.next : Desk → DeskEvent → Option Desk := Sessions.next Request.program execDispatch

abbrev DispatchLog := List (Call DispatchSig)

/-- What an answer tells about itself. -/
def DispatchAnswered : ∀ op : DispatchOp, op.Resp → Prop
  | .getPipeline id, r => ∀ pipeline, r = some pipeline → pipeline.id = id
  | .getRun id, r => ∀ run, r = some run → run.id = id
  | .existingContinuation run, r => ∀ row, r = some row → row.continuedFrom = some run
  | _, _ => True

/-- The calls by which a request to continue a run looks it up, records what it does, and makes
a run. -/
def Noted (pipelineId runId : Uuid) (l : DispatchLog) : DispatchOp → Prop
  | .recordAuditEvent .continuationRequested target =>
    target = runId ∧ ∃ prior, (⟨.getRun runId, some prior⟩ : Call DispatchSig) ∈ l
  | .recordAuditEvent .continuationReused target => ∃ existing,
    (⟨.existingContinuation runId, some existing⟩ : Call DispatchSig) ∈ l ∧ existing.id = target
  | .recordAuditEvent .continuationCreated target => ∃ key defaults row created,
    (⟨.getOrCreate key defaults, (row, created)⟩ : Call DispatchSig) ∈ l ∧ row.id = target
  | .getOrCreate key defaults => ∃ pipeline prior, pipeline.id = pipelineId ∧
    (⟨.getRun runId, some prior⟩ : Call DispatchSig) ∈ l ∧ prior.pipeline = pipelineId ∧
    isContinuable prior = true ∧ defaults = newRun pipeline key (some prior) ∧
    (⟨.recordAuditEvent .continuationRequested runId, ()⟩ : Call DispatchSig) ∈ l
  | _ => True

/-- The calls that record nothing, and neither make a run nor look for one. -/
def isSilent : DispatchOp → Bool
  | .recordAuditEvent _ _ | .getOrCreate _ _ => false
  | _ => true

def recordsNothing : DispatchOp → Prop
  | .recordAuditEvent _ _ => False
  | _ => True

/-- Only the view records what it does. -/
def NotedBy : Request → DispatchLog → DispatchOp → Prop
  | .post pipelineId runId, l, op => Noted pipelineId runId l op
  | _, _, op => recordsNothing op

variable {l : DispatchLog} {pipelineId runId : Uuid} {pipeline : Pipeline} {prior : PipelineRun}

theorem silent_noted {op : DispatchOp} (hop : isSilent op = true) :
    Noted pipelineId runId l op := by
  cases op with
  | getOrCreate key defaults => cases hop
  | recordAuditEvent action target => cases hop
  | _ => trivial

/-- What follows `get_or_create` is silent, and returns the run that was made or found. -/
theorem enqueue_silent (pipeline : Pipeline) (key : Text) (run : PipelineRun) (created : Bool) :
    (enqueue pipeline key run created).Within (fun op => isSilent op = true)
      fun out => ∀ result, out = .ok result → result.1 = run := by
  have hok : ∀ sent result, (.ok (run, sent) : Except Exc (PipelineRun × Bool)) = .ok result →
      result.1 = run := by
    intro sent result h
    obtain rfl := Except.ok.inj h
    rfl
  have herror : ∀ e result, (.error e : Except Exc (PipelineRun × Bool)) = .ok result →
      result.1 = run := by
    intro e result h
    cases h
  unfold enqueue
  split_ifs
  · exact herror _
  · exact hok false
  · refine ⟨rfl, fun sent => ?_⟩
    cases sent with
    | error e => exact herror e
    | ok _ => exact hok true

/-! The view. -/

/-- The run that a request made or found. -/
def Made (l : DispatchLog) : Except Exc (PipelineRun × Bool) → Prop
  | .ok result => ∃ key defaults created,
    (⟨.getOrCreate key defaults, (result.1, created)⟩ : Call DispatchSig) ∈ l
  | .error _ => True

theorem createAndEnqueue_noted {key : Text} (hid : pipeline.id = pipelineId)
    (hprior : (⟨.getRun runId, some prior⟩ : Call DispatchSig) ∈ l)
    (hpipeline : prior.pipeline = pipelineId) (hcontinuable : isContinuable prior = true)
    (hrequested : (⟨.recordAuditEvent .continuationRequested runId, ()⟩ : Call DispatchSig) ∈ l) :
    (createAndEnqueue pipeline (some prior) key).Along DispatchAnswered (Noted pipelineId runId)
      Made l := by
  refine ⟨⟨pipeline, prior, hid, hprior, hpipeline, hcontinuable, rfl, hrequested⟩,
    fun result _ => ?_⟩
  let call : Call DispatchSig := ⟨.getOrCreate key (newRun pipeline key (some prior)), result⟩
  have hlast : call ∈ l ++ [call] := List.mem_concat_self
  have henqueue := (enqueue_silent pipeline key result.1 result.2).along
    (A := DispatchAnswered) (P := Noted pipelineId runId) (K := fun l => call ∈ l) hlast
    fun l op hl hop => ⟨silent_noted hop, fun r _ => List.mem_append_left _ hl⟩
  refine henqueue.imp fun l' out ⟨hmem, hout⟩ => ?_
  cases out with
  | error e => trivial
  | ok made =>
    have hsame : made.1 = result.1 := hout made rfl
    exact ⟨key, _, result.2, by rwa [hsame]⟩

theorem triggerManualRun_noted (hid : pipeline.id = pipelineId)
    (hprior : (⟨.getRun runId, some prior⟩ : Call DispatchSig) ∈ l)
    (hpipeline : prior.pipeline = pipelineId)
    (hrequested : (⟨.recordAuditEvent .continuationRequested runId, ()⟩ : Call DispatchSig) ∈ l) :
    (triggerManualRun pipeline none (some prior)).Along DispatchAnswered
      (Noted pipelineId runId) Made l := by
  unfold triggerManualRun
  split_ifs
  · trivial
  dsimp only
  cases hcheck : checkContinueFrom pipeline prior with
  | error e => trivial
  | ok _ =>
    have hcontinuable : isContinuable prior = true := by
      unfold checkContinueFrom at hcheck
      split_ifs at hcheck with hother hcontinuable
      simpa using hcontinuable
    exact ⟨trivial, fun u _ => createAndEnqueue_noted hid (List.mem_append_left _ hprior) hpipeline
      hcontinuable (List.mem_append_left _ hrequested)⟩

theorem along_dispatchCall {α : Type} {A : ∀ op : DispatchOp, op.Resp → Prop}
    {P : DispatchLog → DispatchOp → Prop} {Q : DispatchLog → Except Exc α → Prop} {op : DispatchOp}
    {f : op.Resp → DispatchProg α} (hop : P l op)
    (hf : ∀ r, A op r → (f r).Along A P Q (l ++ [⟨op, r⟩])) :
    (dispatchCall op >>= f).Along A P Q l := ⟨hop, hf⟩

theorem runContinue_noted (pipelineId runId : Uuid) :
    (runContinue pipelineId runId).Along DispatchAnswered (Noted pipelineId runId)
      (fun _ _ => True) l := by
  refine along_dispatchCall trivial fun role _ => Prog.along_ofExcept (fun _ _ => trivial) fun _ _ => ?_
  refine along_dispatchCall trivial fun found hfound => ?_
  cases found with
  | none => trivial
  | some pipeline =>
    have hid : pipeline.id = pipelineId := hfound pipeline rfl
    refine along_dispatchCall trivial fun run hrun => ?_
    cases hfiltered : run.filter fun run => run.pipeline = pipeline.id with
    | none => trivial
    | some prior =>
      obtain ⟨rfl, hbelongs⟩ := Option.filter_eq_some_iff.mp hfiltered
      have hpipeline : prior.pipeline = pipelineId := by
        rw [← hid]
        simpa using hbelongs
      obtain rfl : prior.id = runId := hrun prior rfl
      refine along_dispatchCall trivial fun existing _ => ?_
      cases existing with
      | some existing =>
        refine along_dispatchCall ⟨existing, ?_, rfl⟩ fun _ _ => trivial
        exact List.mem_concat_self
      | none =>
        refine along_dispatchCall ⟨rfl, prior, ?_⟩ fun _ _ => ?_
        · simp
        · refine (triggerManualRun_noted hid (by simp) hpipeline (by simp)).handle
            (fun l result hmade => ?_) fun l e _ => ?_
          · obtain ⟨key, defaults, created, hmem⟩ := hmade
            exact along_dispatchCall ⟨key, defaults, result.1, created, hmem, rfl⟩ fun _ _ => trivial
          · cases e with
            | dataLake e =>
              dsimp only
              split_ifs <;> trivial
            | other message => trivial

/-! The other callers. -/

theorem triggerManualRun_recordsNothing (pipeline : Pipeline) (key : Option Text)
    (continueFrom : Option PipelineRun) :
    (triggerManualRun pipeline key continueFrom).Issues recordsNothing :=
  triggerManualRun_issues _ _ _ trivial (fun _ => trivial) fun _ => trivial

theorem handle_recordsNothing (options : CommandOptions) :
    (handle options).Issues recordsNothing := by
  refine issues_dispatchCall trivial fun found => ?_
  cases found with
  | none => trivial
  | some pipeline =>
    dsimp only
    split_ifs
    · trivial
    · have hoption : (continueFromOption options).Issues recordsNothing := by
        unfold continueFromOption
        cases options.continueFrom with
        | none => trivial
        | some runId =>
          refine issues_dispatchCall trivial fun run => ?_
          cases run <;> trivial
      refine hoption.bind fun prior => (triggerManualRun_recordsNothing _ _ _).handle
        (fun _ => trivial) fun e => ?_
      cases e with
      | dataLake e =>
        dsimp only
        split_ifs <;> trivial
      | other message => trivial

theorem request_noted (request : Request) :
    request.program.Along DispatchAnswered (NotedBy request) (fun _ _ => True) [] := by
  have hother : ∀ {p : DispatchProg Unit}, p.Issues recordsNothing →
      p.Along DispatchAnswered (fun _ => recordsNothing) (fun _ _ => True) [] := fun hp =>
    hp.along (K := fun _ => True) trivial fun _ _ _ hop => ⟨hop, fun _ _ => trivial⟩
  cases request with
  | post pipelineId runId =>
    exact (runContinue_noted pipelineId runId).handle (fun _ _ _ => trivial) fun _ _ _ => trivial
  | command options => exact hother (handle_recordsNothing options).discard
  | direct pipeline key continueFrom =>
    exact hother (triggerManualRun_recordsNothing pipeline key continueFrom).discard

/-! The table and the trail. -/

variable {c : DispatchAnswer} {v w : DispatchWorld}

/-- Rows and entries are only added. -/
structure Extends (v w : DispatchWorld) : Prop where
  runs : ∀ row ∈ v.runs, row ∈ w.runs
  audit : ∀ entry ∈ v.audit, entry ∈ w.audit

theorem execDispatch_audit {op : DispatchOp} {r : op.Resp} (h : execDispatch op c v = some (r, w)) :
    w.audit = v.audit ∨ ∃ action target, op = .recordAuditEvent action target ∧
      w.audit = v.audit ++ [(action, target)] := by
  cases op with
  | getOrCreate key defaults =>
    cases c with
    | uuid fresh =>
      simp only [execDispatch] at h
      split at h
      · cases h
        exact .inl rfl
      · split_ifs at h
        cases h
        exact .inl rfl
    | _ => cases h
  | recordAuditEvent action target =>
    cases c with
    | done =>
      cases h
      exact .inr ⟨action, target, rfl, rfl⟩
    | _ => cases h
  | delay run =>
    cases c with
    | uuid task =>
      simp only [execDispatch] at h
      split_ifs at h
      cases h
      exact .inl rfl
    | fail e =>
      cases h
      exact .inl rfl
    | _ => cases h
  | getPipeline id =>
    cases c with
    | pipeline found =>
      simp only [execDispatch] at h
      split_ifs at h
      cases h
      exact .inl rfl
    | _ => cases h
  | _ => cases c <;> cases h <;> exact .inl rfl

theorem execDispatch_extends {op : DispatchOp} {r : op.Resp}
    (h : execDispatch op c v = some (r, w)) : Extends v w := by
  refine ⟨fun row hrow => ?_, fun entry hentry => ?_⟩
  · rcases execDispatch_runs h with heq | ⟨key, defaults, fresh, -, -, -, heq⟩
    · rwa [heq]
    · rw [heq]
      exact List.mem_append_left _ hrow
  · rcases execDispatch_audit h with heq | ⟨action, target, -, heq⟩
    · rwa [heq]
    · rw [heq]
      exact List.mem_append_left _ hentry

theorem execDispatch_answered {op : DispatchOp} {r : op.Resp}
    (h : execDispatch op c v = some (r, w)) : DispatchAnswered op r := by
  cases op with
  | getPipeline id =>
    cases c with
    | pipeline found =>
      simp only [execDispatch] at h
      split_ifs at h with hall
      cases h
      rintro pipeline rfl
      simpa using hall
    | _ => cases h
  | getRun id => exact fun run hrun => execDispatch_lookedUp h run hrun
  | existingContinuation run =>
    cases c with
    | done =>
      cases h
      exact fun row hrow => by simpa using List.find?_some hrow
    | _ => cases h
  | _ => trivial

/-- What the view is asked for. -/
def Request.posted : Request → Option (Uuid × Uuid)
  | post pipelineId runId => some (pipelineId, runId)
  | _ => none

/-- What the table and the trail say of a call that was made. The run that the view makes is
the one it asks for. -/
def Witnessed (request : Request) (w : DispatchWorld) : Call DispatchSig → Prop
  | ⟨.getRun _, found⟩ => ∀ row, found = some row → row ∈ w.runs
  | ⟨.existingContinuation _, found⟩ => ∀ row, found = some row → row ∈ w.runs
  | ⟨.getOrCreate _ defaults, result⟩ => result.1 ∈ w.runs ∧
    (request.posted.isSome = true → result.1.continuedFrom = defaults.continuedFrom)
  | ⟨.recordAuditEvent action target, _⟩ => (action, target) ∈ w.audit
  | _ => True

theorem Witnessed.extend {request : Request} {call : Call DispatchSig}
    (h : Witnessed request v call) (hextends : Extends v w) : Witnessed request w call := by
  obtain ⟨op, r⟩ := call
  cases op with
  | getRun id => exact fun row hrow => hextends.runs row (h row hrow)
  | existingContinuation run => exact fun row hrow => hextends.runs row (h row hrow)
  | getOrCreate key defaults => exact ⟨hextends.runs _ h.1, h.2⟩
  | recordAuditEvent action target => exact hextends.audit _ h
  | _ => trivial

theorem execDispatch_witnessed {request : Request} {op : DispatchOp} {r : op.Resp}
    (h : execDispatch op c v = some (r, w))
    (hdrawn : request.posted.isSome = true → ∀ key defaults, op = .getOrCreate key defaults →
      findKey v.runs key = none) : Witnessed request w ⟨op, r⟩ := by
  cases op with
  | getRun id =>
    cases c with
    | done =>
      cases h
      exact fun row hrow => findRun_mem hrow
    | _ => cases h
  | existingContinuation run =>
    cases c with
    | done =>
      cases h
      exact fun row hrow => List.mem_reverse.mp (List.mem_of_find?_eq_some hrow)
    | _ => cases h
  | getOrCreate key defaults =>
    cases c with
    | uuid fresh =>
      simp only [execDispatch] at h
      split at h
      · rename_i row hrow
        cases h
        refine ⟨List.mem_of_find?_eq_some hrow, fun hpost => ?_⟩
        cases hrow.symm.trans (hdrawn hpost key defaults rfl)
      · split_ifs at h
        cases h
        exact ⟨List.mem_concat_self, fun _ => rfl⟩
    | _ => cases h
  | recordAuditEvent action target =>
    cases c with
    | done =>
      cases h
      exact List.mem_concat_self
    | _ => cases h
  | _ => trivial

/-- What an entry of the trail says is so. -/
def Truthful (w : DispatchWorld) : AuditAction × Uuid → Prop
  | (.continuationRequested, target) => ∃ row ∈ w.runs, row.id = target
  | (.continuationReused, target) => ∃ row ∈ w.runs, row.id = target ∧ row.continuedFrom.isSome = true
  | (.continuationCreated, target) => ∃ row ∈ w.runs, row.id = target ∧
    ∃ prior, row.continuedFrom = some prior ∧ (.continuationRequested, prior) ∈ w.audit

theorem Truthful.extend {entry : AuditAction × Uuid} (h : Truthful v entry)
    (hextends : Extends v w) : Truthful w entry := by
  obtain ⟨action, target⟩ := entry
  cases action with
  | continuationRequested =>
    obtain ⟨row, hrow, hid⟩ := h
    exact ⟨row, hextends.runs row hrow, hid⟩
  | continuationReused =>
    obtain ⟨row, hrow, hid, hsome⟩ := h
    exact ⟨row, hextends.runs row hrow, hid, hsome⟩
  | continuationCreated =>
    obtain ⟨row, hrow, hid, prior, hprior, hentry⟩ := h
    exact ⟨row, hextends.runs row hrow, hid, prior, hprior, hextends.audit _ hentry⟩

/-! Whole runs. -/

variable {s t : Desk} {e : DeskEvent}

/-- The key that the view has drawn is in no row yet. -/
def Desk.drawn (s : Desk) : DeskEvent → Bool
  | .step i _ =>
    match s.sessions i with
    | some ⟨.post _ _, .call (.getOrCreate key _) _, _, _⟩ => (findKey s.world.runs key).isNone
    | _ => true
  | _ => true

structure Audited (s : Desk) : Prop where
  noted : Sessions.Conform (fun _ => DispatchAnswered) NotedBy (fun _ _ _ => True) s
  witnessed : s.BorneOut Witnessed
  truthful : ∀ entry ∈ s.world.audit, Truthful s.world entry

theorem Desk.drawn_key {i : Nat} {x : Session DispatchSig Exc Unit Request} {key : Text}
    {defaults : PipelineRun} {k : PipelineRun × Bool → DispatchProg Unit}
    (hok : s.drawn (.step i c) = true) (hx : s.sessions i = some x)
    (hprog : x.prog = .call (.getOrCreate key defaults) k) (hpost : x.request.posted.isSome = true) :
    findKey s.world.runs key = none := by
  obtain ⟨request, prog, log, alive⟩ := x
  cases request with
  | post pipelineId runId =>
    dsimp only at hprog
    subst hprog
    simpa [Desk.drawn, hx] using hok
  | _ => cases hpost

theorem Audited.truthful_new {i : Nat} {x : Session DispatchSig Exc Unit Request}
    {action : AuditAction} {target : Uuid} (hs : Audited s) (hx : s.sessions i = some x)
    (hrule : NotedBy x.request x.log (.recordAuditEvent action target)) :
    Truthful s.world (action, target) := by
  obtain ⟨request, prog, log, alive⟩ := x
  have hborne := hs.witnessed i _ hx
  cases request with
  | post pipelineId runId =>
    cases action with
    | continuationRequested =>
      obtain ⟨rfl, prior, hmem⟩ := hrule
      obtain ⟨-, -, -, hfound⟩ := hs.noted.made hx hmem
      exact ⟨prior, hborne _ hmem prior rfl, hfound prior rfl⟩
    | continuationReused =>
      obtain ⟨existing, hmem, hid⟩ := hrule
      obtain ⟨-, -, -, hfound⟩ := hs.noted.made hx hmem
      have hcontinues : existing.continuedFrom = some runId := hfound existing rfl
      exact ⟨existing, hborne _ hmem existing rfl, hid, by simp [hcontinues]⟩
    | continuationCreated =>
      obtain ⟨key, defaults, row, created, hmem, hid⟩ := hrule
      obtain ⟨hrow, hcontinues⟩ := hborne _ hmem
      obtain ⟨l, hpast, hmade, -⟩ := hs.noted.made hx hmem
      obtain ⟨pipeline, prior, -, hprior, -, -, rfl, hrequested⟩ := hmade
      obtain ⟨-, -, -, hfound⟩ := hs.noted.made hx (hpast _ hprior)
      have hid' : prior.id = runId := hfound prior rfl
      refine ⟨row, hrow, hid, runId, ?_, hborne _ (hpast _ hrequested)⟩
      rw [hcontinues rfl, ← hid']
      rfl
  | command options => exact hrule.elim
  | direct pipeline key continueFrom => exact hrule.elim

theorem Audited.next (hs : Audited s) (hok : s.drawn e = true) (he : s.next e = some t) :
    Audited t := by
  have hnoted := hs.noted.next (fun _ request _ => request_noted request)
    (fun _ _ _ _ _ _ _ _ _ _ hexec => execDispatch_answered hexec) he
  have hwitnessed : t.BorneOut Witnessed := by
    refine hs.witnessed.next (fun i c x op k r w _ _ _ hexec request call hcall =>
      hcall.extend (execDispatch_extends hexec)) (fun i c x op k r w heq hx hprog hexec => ?_) he
    refine execDispatch_witnessed hexec fun hpost key defaults hop => ?_
    subst hop heq
    exact Desk.drawn_key hok hx hprog hpost
  refine ⟨hnoted, hwitnessed, ?_⟩
  rcases Sessions.next_cases he with ⟨i, request, rfl, -, rfl⟩ |
    ⟨i, c, x, op, k, r, w, rfl, hx, -, hprog, hexec, rfl⟩ | ⟨i, x, rfl, hx, rfl⟩
  · exact hs.truthful
  · have hextends := execDispatch_extends hexec
    intro entry hentry
    rcases execDispatch_audit hexec with heq | ⟨action, target, rfl, heq⟩
    · exact (hs.truthful entry (heq ▸ hentry)).extend hextends
    · rw [Sessions.set_world, heq] at hentry
      rcases List.mem_append.mp hentry with hentry | hentry
      · exact (hs.truthful entry hentry).extend hextends
      · obtain rfl := List.mem_singleton.mp hentry
        have hrule : NotedBy x.request x.log (.recordAuditEvent action target) :=
          hs.noted.rule hx hprog
        exact (hs.truthful_new hx hrule).extend hextends
  · exact hs.truthful

/-- In any interleaving of requests, each of which may stop anywhere: what the trail says is
so, and a run that the view adds continues, for the same pipeline, a run that stopped at the
page limit, and the trail has it that this was requested. -/
theorem continuations_audited {w : DispatchWorld} (hw : ∀ entry ∈ w.audit, Truthful w entry)
    {s t : Desk} {e : DeskEvent}
    (hs : Reaches Desk.next (fun s e => s.drawn e = true) (Sessions.idle w) s)
    (he : s.next e = some t) :
    (∀ entry ∈ s.world.audit, Truthful s.world entry) ∧
    ∀ i c x pipelineId runId, e = .step i c → s.sessions i = some x →
      x.request = .post pipelineId runId → t.world.runs ≠ s.world.runs →
      ∃ prior row, prior ∈ s.world.runs ∧ prior.id = runId ∧ prior.pipeline = pipelineId ∧
        isContinuable prior = true ∧ t.world.runs = s.world.runs ++ [row] ∧
        row.continuedFrom = some runId ∧ row.pipeline = pipelineId ∧
        (.continuationRequested, runId) ∈ s.world.audit := by
  have haudited : Audited s :=
    hs.invariant ⟨Sessions.conform_idle w, Sessions.borneOut_idle w, hw⟩
      fun _ _ _ hu hok he => hu.next hok he
  refine ⟨haudited.truthful, ?_⟩
  rintro i c x pipelineId runId rfl hx hpost hchange
  rcases Sessions.next_cases he with ⟨_, _, h, -⟩ |
    ⟨i', c', y, op, k, r, v, h, hy, -, hprog, hexec, rfl⟩ | ⟨_, _, h, -⟩
  · cases h
  · obtain ⟨rfl, rfl⟩ := SessionEvent.step.inj h
    obtain rfl := Option.some.inj (hx.symm.trans hy)
    rcases execDispatch_runs hexec with hsame | ⟨key, defaults, fresh, rfl, -, -, hadded⟩
    · exact absurd hsame hchange
    · have hrule : NotedBy x.request x.log (.getOrCreate key defaults) :=
        haudited.noted.rule hx hprog
      rw [hpost] at hrule
      obtain ⟨pipeline, prior, hpipeline, hprior, hbelongs, hcontinuable, rfl, hrequested⟩ := hrule
      obtain ⟨-, -, -, hfound⟩ := haudited.noted.made hx hprior
      have hid : prior.id = runId := hfound prior rfl
      have hborne := haudited.witnessed i x hx
      refine ⟨prior, _, hborne _ hprior prior rfl, hid, hbelongs, hcontinuable, hadded, ?_, ?_,
        hborne _ hrequested⟩
      · exact congrArg some hid
      · exact hpipeline
  · cases h

/-- A request to continue a run at its page limit, up to the run that it makes. -/
def postEvents : List DeskEvent :=
  .start 0 postLimited :: (postAnswers.take 6).map (.step 0)

theorem continuations_audited_post : ∃ (s t : Desk) (row : PipelineRun),
    Reaches Desk.next (fun s e => s.drawn e = true) (Sessions.idle limitedWorld) s ∧
    s.next (.step 0 (.uuid ⟨21⟩)) = some t ∧ t.world.runs = s.world.runs ++ [row] ∧
    row.continuedFrom = some ⟨1⟩ ∧ s.world.audit = [(.continuationRequested, ⟨1⟩)] := by
  have hfinal : (replay Desk.next (fun s e => s.drawn e = true) (Sessions.idle limitedWorld)
      postEvents).bind (fun s => (s.next (.step 0 (.uuid ⟨21⟩))).map fun t =>
        ((s.sessions 0).map fun x => x.request.posted, s.world.runs.length, t.world.runs.length,
          s.world.audit)) =
      some (some (some (⟨7⟩, ⟨1⟩)), 1, 2, [(.continuationRequested, ⟨1⟩)]) := by
    decide +kernel
  obtain ⟨s, hs, hend⟩ := Option.bind_eq_some_iff.mp hfinal
  obtain ⟨t, ht, hsummary⟩ := Option.map_eq_some_iff.mp hend
  simp only [Prod.mk.injEq] at hsummary
  obtain ⟨hrequest, hbefore, hafter, haudit⟩ := hsummary
  obtain ⟨x, hx, hposted⟩ := Option.map_eq_some_iff.mp hrequest
  have hpost : x.request = .post ⟨7⟩ ⟨1⟩ := by
    cases hcase : x.request with
    | post pipelineId runId =>
      rw [hcase] at hposted
      cases hposted
      rfl
    | command options =>
      rw [hcase] at hposted
      cases hposted
    | direct pipeline key continueFrom =>
      rw [hcase] at hposted
      cases hposted
  have hreach := Reaches.of_replay _ hs
  have hchange : t.world.runs ≠ s.world.runs := by
    intro heq
    rw [heq, hbefore] at hafter
    cases hafter
  have hnone : ∀ entry ∈ limitedWorld.audit, Truthful limitedWorld entry := by
    intro entry hentry
    cases hentry
  obtain ⟨prior, row, -, -, -, -, hadded, hcontinues, -, -⟩ :=
    (continuations_audited hnone hreach ht).2 0 _ x ⟨7⟩ ⟨1⟩ rfl hx hpost hchange
  exact ⟨s, t, row, hreach, ht, hadded, hcontinues, haudit⟩

end DataLake
