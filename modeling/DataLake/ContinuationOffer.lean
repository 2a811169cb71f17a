import DataLake.Permissions

/-! The button on the page of a failed run: it is offered to the users whose request is
answered with a new run, and to nobody else. -/

namespace DataLake

open Foundation

section Visit

variable (d : Directory) (user : User) (organization : Nat) (pipelines : List Pipeline)
  (broker : Bool)

/-- The answers that one user's request gets: roles and pipelines are looked up in the
tables, a random identifier is in no key yet, and a broker that is up takes every message. -/
def execVisit : Exec DispatchSig DispatchAnswer DispatchWorld
  | .requireOrgRole, _, w =>
    some ((d.requireOrgRole user organization continuationRoles).map fun _ => (), w)
  | .getPipeline id, _, w => some (pipelines.find? fun pipeline => pipeline.id = id, w)
  | .uuid4, .uuid u, w =>
    if w.runs.any fun row => u.hex.isSuffixOf row.idempotencyKey then none else some (u, w)
  | .delay run, .fail e, w => if broker then none else execDispatch (.delay run) (.fail e) w
  | op, c, w => execDispatch op c w

/-- The page shows the button, and the pipeline is active. -/
def Offered (runs : List PipelineRun) (pipelineId runId : Uuid) : Prop :=
  ∃ page, d.runDetail user organization pipelines runs pipelineId runId = .shown page ∧
    page.canContinue = true ∧ page.pipeline.isActive = true

end Visit

variable {d : Directory} {user : User} {organization : Nat} {pipelines : List Pipeline}
  {broker : Bool} {w : DispatchWorld} {pipeline : Pipeline} {prior : PipelineRun}

/-! The roles that may continue a run may see it. -/

theorem isAuthenticated_of_requireOrgRole {roles : List Role} {m : Option Membership}
    (h : d.requireOrgRole user organization roles = .ok m) : user.isAuthenticated = true := by
  by_contra hauth
  have hfalse : user.isAuthenticated = false := by simpa using hauth
  simp [Directory.requireOrgRole, isPlatformOperator, Directory.getMembership, hfalse] at h

theorem requireOrgRole_continuation {m : Option Membership} :
    d.requireOrgRole user organization continuationRoles = .ok m ↔
      d.requireOrgMember user organization = .ok m ∧
        (isPlatformOperator user || m.any fun m => m.role ∈ continuationRoles) = true := by
  unfold Directory.requireOrgMember Directory.requireOrgRole
  cases hoperator : isPlatformOperator user with
  | true => simp
  | false =>
    cases d.getMembership user organization with
    | none => simp
    | some membership =>
      have hview : ∀ role ∈ continuationRoles, role ∈ viewRoles := by decide
      by_cases hrole : membership.role ∈ continuationRoles
      · have hmember := hview membership.role hrole
        simp only [Bool.false_eq_true, if_false, hrole, hmember, if_true, Bool.false_or,
          Except.ok.injEq, iff_self_and]
        rintro rfl
        simpa using hrole
      · simp only [Bool.false_eq_true, if_false, hrole, Bool.false_or, reduceCtorEq, false_iff,
          not_and]
        intro hmember
        split_ifs at hmember
        obtain rfl := Except.ok.inj hmember
        simpa using hrole

theorem offered_iff {runs : List PipelineRun} {pipelineId runId : Uuid} :
    Offered d user organization pipelines runs pipelineId runId ↔
      ∃ m pipeline run, d.requireOrgRole user organization continuationRoles = .ok m ∧
        (pipelines.find? fun pipeline => pipeline.id = pipelineId) = some pipeline ∧
        ((findRun runs runId).filter fun run => run.pipeline = pipeline.id) = some run ∧
        (runs.reverse.find? fun row => row.continuedFrom = some run.id) = none ∧
        isContinuable run = true ∧ pipeline.isActive = true := by
  constructor
  · rintro ⟨page, hpage, hcontinue, hactive⟩
    unfold Directory.runDetail loginRequired at hpage
    split_ifs at hpage with hauth
    cases hmember : d.requireOrgMember user organization with
    | error e => simp [hmember, permitted] at hpage
    | ok m =>
      cases hpipeline : pipelines.find? fun pipeline => pipeline.id = pipelineId with
      | none => simp [hmember, hpipeline, permitted, getOr404] at hpage
      | some pipeline =>
        cases hrun : (findRun runs runId).filter fun run => run.pipeline = pipeline.id with
        | none => simp [hmember, hpipeline, hrun, permitted, getOr404] at hpage
        | some run =>
          simp only [hmember, hpipeline, hrun, permitted, getOr404, Page.shown.injEq] at hpage
          subst hpage
          simp only [runPage, Bool.and_eq_true, Option.isNone_iff_eq_none] at hcontinue
          obtain ⟨⟨hcontinuable, hnone⟩, hrole⟩ := hcontinue
          exact ⟨m, pipeline, run, requireOrgRole_continuation.mpr ⟨hmember, hrole⟩, rfl, hrun,
            hnone, hcontinuable, hactive⟩
  · rintro ⟨m, pipeline, run, hrole, hpipeline, hrun, hnone, hcontinuable, hactive⟩
    obtain ⟨hmember, hallowed⟩ := requireOrgRole_continuation.mp hrole
    have hauth := isAuthenticated_of_requireOrgRole hrole
    refine ⟨runPage user m runs pipeline run, ?_, ?_, hactive⟩
    · simp only [Directory.runDetail, loginRequired, hauth, if_true, hmember, permitted, hpipeline,
        getOr404, hrun]
    · simp [runPage, hcontinuable, hnone, hallowed]

theorem offered_found {runs : List PipelineRun} {pipelineId runId : Uuid} {m : Option Membership}
    (hrole : d.requireOrgRole user organization continuationRoles = .ok m)
    (hpipeline : (pipelines.find? fun pipeline => pipeline.id = pipelineId) = some pipeline)
    (hrun : ((findRun runs runId).filter fun run => run.pipeline = pipeline.id) = some prior) :
    Offered d user organization pipelines runs pipelineId runId ↔
      (runs.reverse.find? fun row => row.continuedFrom = some prior.id) = none ∧
        isContinuable prior = true ∧ pipeline.isActive = true := by
  rw [offered_iff]
  constructor
  · rintro ⟨m', pipeline', run', -, hpipeline', hrun', h⟩
    obtain rfl : pipeline = pipeline' := Option.some.inj (hpipeline.symm.trans hpipeline')
    obtain rfl : prior = run' := Option.some.inj (hrun.symm.trans hrun')
    exact h
  · intro h
    exact ⟨m, pipeline, prior, hrole, hpipeline, hrun, h⟩

/-! The request. -/

theorem execVisit_other {op : DispatchOp} (hrole : op ≠ .requireOrgRole)
    (hpipeline : ∀ id, op ≠ .getPipeline id) (huuid : op ≠ .uuid4) (hdelay : ∀ id, op ≠ .delay id)
    (c : DispatchAnswer) (w : DispatchWorld) :
    execVisit d user organization pipelines broker op c w = execDispatch op c w := by
  cases op with
  | requireOrgRole => exact absurd rfl hrole
  | getPipeline id => exact absurd rfl (hpipeline id)
  | uuid4 => exact absurd rfl huuid
  | delay id => exact absurd rfl (hdelay id)
  | _ => rfl

theorem execVisit_audit {action : AuditAction} {target : Uuid} {c : DispatchAnswer} {r : Unit}
    {v : DispatchWorld}
    (h : execVisit d user organization pipelines broker (.recordAuditEvent action target) c w =
      some (r, v)) : v.runs = w.runs ∧ v.queue = w.queue := by
  cases c with
  | done =>
    cases h
    exact ⟨rfl, rfl⟩
  | _ => cases h

/-- What holds when the request of a visit has ended. -/
abbrev VisitEnds {α : Type} (d : Directory) (user : User) (organization : Nat)
    (pipelines : List Pipeline) (broker : Bool) (p : DispatchProg α) (w : DispatchWorld)
    (Q : Except Exc α → DispatchWorld → Prop) : Prop :=
  p.Safe (execVisit d user organization pipelines broker) Eq (fun _ _ => True) Q w

theorem visit_call {α : Type} {op : DispatchOp} {f : op.Resp → DispatchProg α}
    {Q : Except Exc α → DispatchWorld → Prop}
    (h : ∀ c r v, execVisit d user organization pipelines broker op c w = some (r, v) →
      VisitEnds d user organization pipelines broker (f r) v Q) :
    VisitEnds d user organization pipelines broker (dispatchCall op >>= f) w Q := by
  intro u hu c r v he
  subst hu
  exact ⟨trivial, h c r v he⟩

theorem visit_ret {α : Type} {Q : Except Exc α → DispatchWorld → Prop} (a : α) (h : Q (.ok a) w) :
    VisitEnds d user organization pipelines broker (.ret a) w Q := by
  rintro _ rfl
  exact h

theorem visit_raise {α : Type} {Q : Except Exc α → DispatchWorld → Prop} (e : Exc)
    (h : Q (.error e) w) : VisitEnds d user organization pipelines broker (.raise e) w Q := by
  rintro _ rfl
  exact h

theorem checkContinueFrom_ok (hpipeline : prior.pipeline = pipeline.id)
    (hcontinuable : isContinuable prior = true) : checkContinueFrom pipeline prior = .ok () := by
  simp [checkContinueFrom, hpipeline, hcontinuable]

/-- The message of a run is in the queue, or the broker is down and the call fails. -/
def MessageSent (broker : Bool) (w : DispatchWorld) (run : Uuid)
    (out : Except Exc (PipelineRun × Bool)) (v : DispatchWorld) : Prop :=
  (∃ task, v.queue = w.queue ++ [⟨run, task, 0⟩] ∧ ∃ row, row.id = run ∧ out = .ok (row, true)) ∨
  (broker = false ∧ v.queue = w.queue ∧ ∃ e, out = .error e)

/-- The same for the whole request: the operator is sent to the new run, or stays. -/
def RunDispatched (broker : Bool) (w : DispatchWorld) (prior : PipelineRun) (run : Uuid)
    (out : Except Exc Redirect) (v : DispatchWorld) : Prop :=
  (∃ task, v.queue = w.queue ++ [⟨run, task, 0⟩] ∧ ∃ message, out = .ok ⟨run, message⟩) ∨
  (broker = false ∧ v.queue = w.queue ∧ ∀ redirect, out = .ok redirect → redirect.run = prior.id)

/-- A run that continues `prior` is added to the table, and dispatched as `dispatches` says. -/
def RunMade (pipeline : Pipeline) (prior : PipelineRun) (w v : DispatchWorld)
    (dispatches : Uuid → Prop) : Prop :=
  ∃ key fresh, fresh ∉ w.runs.map PipelineRun.id ∧
    v.runs = w.runs ++ [{ newRun pipeline key (some prior) with id := fresh }] ∧ dispatches fresh

theorem enqueue_visit (key : Text) (run : PipelineRun) :
    VisitEnds d user organization pipelines broker (enqueue pipeline key run true) w
      fun out v => v.runs = w.runs ∧ MessageSent broker w run.id out v := by
  have hprog : enqueue pipeline key run true = (dispatchCall (.delay run.id) >>= fun sent =>
      Prog.ofExcept sent >>= fun _ => .ret (run, true)) := by
    simp [enqueue, Prog.pure_eq]
  rw [hprog]
  apply visit_call
  intro c sent v he
  cases c with
  | uuid task =>
    simp only [execVisit, execDispatch] at he
    split_ifs at he
    cases he
    exact visit_ret _ ⟨rfl, .inl ⟨task, rfl, run, rfl, rfl⟩⟩
  | fail e =>
    cases broker with
    | true => cases he
    | false =>
      cases he
      exact visit_raise e ⟨rfl, .inr ⟨rfl, rfl, e, rfl⟩⟩
  | _ => cases he

theorem findKey_freshKey {u : Uuid}
    (h : ¬ (w.runs.any fun row => u.hex.isSuffixOf row.idempotencyKey) = true) :
    findKey w.runs (freshKey pipeline u) = none := by
  apply List.find?_eq_none.mpr
  intro row hrow hkey
  apply h
  have hkey' : row.idempotencyKey = freshKey pipeline u := by simpa using hkey
  refine List.any_eq_true.mpr ⟨row, hrow, ?_⟩
  rw [hkey', List.isSuffixOf_iff_suffix]
  exact (List.suffix_cons '-' u.hex).trans (List.suffix_append _ _)

theorem triggerManualRun_visit (hactive : pipeline.isActive = true)
    (hpipeline : prior.pipeline = pipeline.id) (hcontinuable : isContinuable prior = true) :
    VisitEnds d user organization pipelines broker (triggerManualRun pipeline none (some prior)) w
      fun out v => RunMade pipeline prior w v fun run => MessageSent broker w run out v := by
  have hprog : triggerManualRun pipeline none (some prior) =
      (dispatchCall .uuid4 >>= fun u =>
        createAndEnqueue pipeline (some prior) (freshKey pipeline u)) := by
    simp [triggerManualRun, hactive, checkContinueFrom_ok hpipeline hcontinuable]
    rfl
  rw [hprog]
  refine visit_call fun c u v he => ?_
  cases c with
  | uuid u' =>
    simp only [execVisit] at he
    split_ifs at he with hkey
    cases he
    refine visit_call fun c r v' he' => ?_
    rw [execVisit_other (by simp) (by simp) (by simp) (by simp)] at he'
    cases c with
    | uuid fresh =>
      simp only [execDispatch, findKey_freshKey hkey] at he'
      split_ifs at he' with hfresh
      cases he'
      refine (enqueue_visit _ _).weaken fun out v hv => ?_
      exact ⟨_, fresh, hfresh, hv⟩
    | _ => cases he'
  | _ => cases he

theorem triggerManualRun_refuses (h : ¬ (isContinuable prior = true ∧ pipeline.isActive = true)) :
    ∃ e, triggerManualRun pipeline none (some prior) = .raise e := by
  unfold triggerManualRun
  cases hactive : pipeline.isActive with
  | false => exact ⟨_, rfl⟩
  | true =>
    dsimp only
    cases hcheck : checkContinueFrom pipeline prior with
    | error e => exact ⟨.dataLake e, rfl⟩
    | ok _ =>
      exfalso
      unfold checkContinueFrom at hcheck
      split_ifs at hcheck with hother hcontinuable
      exact h ⟨by simpa using hcontinuable, hactive⟩

/-- No run is added and no message is sent. -/
def Unchanged (w v : DispatchWorld) : Prop := v.runs = w.runs ∧ v.queue = w.queue

/-- A request that is offered makes a run and dispatches it; any other changes nothing. -/
def VisitAnswer (broker : Bool) (offered : Prop) (pipelineId runId : Uuid) (w : DispatchWorld)
    (out : Except Exc Redirect) (v : DispatchWorld) : Prop :=
  (offered → ∃ pipeline prior, pipeline.id = pipelineId ∧ prior.id = runId ∧
    RunMade pipeline prior w v fun run => RunDispatched broker w prior run out v) ∧
  (¬ offered → Unchanged w v)

theorem VisitAnswer.refused {offered : Prop} {pipelineId runId : Uuid} {out : Except Exc Redirect}
    {v : DispatchWorld} (h : ¬ offered) (hv : Unchanged w v) :
    VisitAnswer broker offered pipelineId runId w out v :=
  ⟨fun ho => absurd ho h, fun _ => hv⟩

/-- The message of a configuration error is shown; any other error is raised. -/
def reportError (failedRun : PipelineRun) : Exc → DispatchProg Redirect
  | .dataLake e =>
    if e.category = "ConfigurationError" then .ret ⟨failedRun.id, e.message⟩ else raiseError e
  | .other message => .raise (.other message)

/-- What the view does once it has found the run, and no continuation of it. -/
def continueRun (pipeline : Pipeline) (failedRun : PipelineRun) : DispatchProg Redirect :=
  (triggerManualRun pipeline none (some failedRun)).handle
    (fun result => do
      dispatchCall (.recordAuditEvent .continuationCreated result.1.id)
      return ⟨result.1.id, s!"Continuation run {String.ofList result.1.id.text} dispatched."⟩)
    (reportError failedRun)

/-- The operator is not sent to another run. -/
theorem reportError_visit {Q : Except Exc Redirect → DispatchWorld → Prop} (e : Exc)
    (h : ∀ out, (∀ redirect, out = .ok redirect → redirect.run = prior.id) → Q out w) :
    VisitEnds d user organization pipelines broker (reportError prior e) w Q := by
  cases e with
  | dataLake e =>
    dsimp only [reportError]
    split_ifs
    · refine visit_ret _ (h _ ?_)
      rintro _ ⟨⟩
      rfl
    · exact visit_raise _ (h _ fun _ h => by cases h)
  | other message => exact visit_raise _ (h _ fun _ h => by cases h)

theorem continueRun_visit {pipelineId runId : Uuid} {v : DispatchWorld}
    (hpipeline : (pipelines.find? fun pipeline => pipeline.id = pipelineId) = some pipeline)
    (hrun : ((findRun w.runs runId).filter fun run => run.pipeline = pipeline.id) = some prior)
    (hexisting : (w.runs.reverse.find? fun row => row.continuedFrom = some prior.id) = none)
    (hoffered : Offered d user organization pipelines w.runs pipelineId runId ↔
      (w.runs.reverse.find? fun row => row.continuedFrom = some prior.id) = none ∧
        isContinuable prior = true ∧ pipeline.isActive = true) (hv : Unchanged w v) :
    VisitEnds d user organization pipelines broker (continueRun pipeline prior) v fun out v =>
      VisitAnswer broker (Offered d user organization pipelines w.runs pipelineId runId) pipelineId
        runId w out v := by
  by_cases ho : isContinuable prior = true ∧ pipeline.isActive = true
  · have hid : pipeline.id = pipelineId := by simpa using List.find?_some hpipeline
    obtain ⟨hfound, hbelongs⟩ := Option.filter_eq_some_iff.mp hrun
    have hprior : prior.id = runId := findRun_id hfound
    have hmade : ∀ out u,
        (RunMade pipeline prior w u fun run => RunDispatched broker w prior run out u) →
        VisitAnswer broker (Offered d user organization pipelines w.runs pipelineId runId) pipelineId
          runId w out u := fun out u hu =>
      ⟨fun _ => ⟨pipeline, prior, hid, hprior, hu⟩,
        fun hno => absurd (hoffered.mpr ⟨hexisting, ho⟩) hno⟩
    have htrigger : VisitEnds d user organization pipelines broker
        (triggerManualRun pipeline none (some prior)) v fun out u =>
          RunMade pipeline prior v u fun run => MessageSent broker v run out u :=
      triggerManualRun_visit ho.2 (by simpa using hbelongs) ho.1
    refine htrigger.handle (fun _ => rfl) (fun result u hu => ?_) fun e u hu => ?_
    · obtain ⟨key, fresh, hfresh, hruns, hsends⟩ := hu
      obtain ⟨task, hqueue, row, rfl, hrow⟩ | ⟨-, -, e, he⟩ := hsends
      · cases hrow
        apply visit_call
        intro c r u' he
        obtain ⟨hruns', hqueue'⟩ := execVisit_audit he
        apply visit_ret
        rw [hv.1] at hfresh hruns
        rw [hv.2] at hqueue
        exact hmade _ _ ⟨key, row.id, hfresh, hruns'.trans hruns,
          .inl ⟨task, hqueue'.trans hqueue, _, rfl⟩⟩
      · cases he
    · obtain ⟨key, fresh, hfresh, hruns, hsends⟩ := hu
      obtain ⟨_, _, _, _, he⟩ | ⟨hdown, hqueue, -⟩ := hsends
      · cases he
      · rw [hv.1] at hfresh hruns
        rw [hv.2] at hqueue
        exact reportError_visit e fun out hout =>
          hmade _ _ ⟨key, fresh, hfresh, hruns, .inr ⟨hdown, hqueue, hout⟩⟩
  · obtain ⟨e, he⟩ := triggerManualRun_refuses ho
    rw [continueRun, he]
    exact reportError_visit e fun _ _ => .refused (fun hyes => ho (hoffered.mp hyes).2) hv

/-- The visit of a user who is offered the button makes a run, and no other visit adds a
run or sends a message. -/
theorem runContinue_visit (pipelineId runId : Uuid) :
    VisitEnds d user organization pipelines broker (runContinue pipelineId runId) w fun out v =>
      VisitAnswer broker (Offered d user organization pipelines w.runs pipelineId runId) pipelineId
        runId w out v := by
  apply visit_call
  intro c role v he
  cases he
  cases hrole : d.requireOrgRole user organization continuationRoles with
  | error e =>
    rintro _ rfl
    refine .refused (fun ho => ?_) ⟨rfl, rfl⟩
    obtain ⟨m, pipeline, run, hok, -⟩ := offered_iff.mp ho
    simp [hrole] at hok
  | ok m =>
    apply visit_call
    intro c found v he
    cases he
    cases hpipeline : pipelines.find? fun pipeline => pipeline.id = pipelineId with
    | none =>
      rintro _ rfl
      refine .refused (fun ho => ?_) ⟨rfl, rfl⟩
      obtain ⟨m, pipeline, run, -, hsome, -⟩ := offered_iff.mp ho
      simp [hpipeline] at hsome
    | some pipeline =>
      apply visit_call
      intro c found v he
      rw [execVisit_other (by simp) (by simp) (by simp) (by simp)] at he
      cases c with
      | done =>
        cases he
        cases hrun : (findRun w.runs runId).filter fun run => run.pipeline = pipeline.id with
        | none =>
          rintro _ rfl
          refine .refused (fun ho => ?_) ⟨rfl, rfl⟩
          obtain ⟨m, pipeline', run, -, hsome, hfound, -⟩ := offered_iff.mp ho
          obtain rfl : pipeline = pipeline' := Option.some.inj (hpipeline.symm.trans hsome)
          simp [hrun] at hfound
        | some failedRun =>
          have hoffered := offered_found hrole hpipeline hrun
          apply visit_call
          intro c existing v he
          rw [execVisit_other (by simp) (by simp) (by simp) (by simp)] at he
          cases c with
          | done =>
            cases he
            cases hexisting : w.runs.reverse.find? fun row => row.continuedFrom = some failedRun.id with
            | some existing =>
              apply visit_call
              intro c r v he
              have hsame := execVisit_audit he
              rintro _ rfl
              refine .refused (fun ho => ?_) hsame
              have hnone := (hoffered.mp ho).1
              simp [hexisting] at hnone
            | none =>
              apply visit_call
              intro c r v he
              exact continueRun_visit hpipeline hrun hexisting hoffered (execVisit_audit he)
          | _ => cases he
      | _ => cases he

/-- For every user, the page of a run shows the button, on an active pipeline, exactly
where the request of that user makes a run that continues it, and puts its message into the queue
unless the broker is down; every other request leaves the table of runs and the queue as
they were. -/
theorem continuation_offer_honoured (d : Directory) (user : User) (organization : Nat)
    (pipelines : List Pipeline) (broker : Bool) (pipelineId runId : Uuid) {w v : DispatchWorld}
    {out : Except Exc Redirect}
    (h : (runContinue pipelineId runId).Runs (execVisit d user organization pipelines broker) w
      out v) :
    (Offered d user organization pipelines w.runs pipelineId runId →
      ∃ pipeline prior, pipeline.id = pipelineId ∧ prior.id = runId ∧
        RunMade pipeline prior w v fun run => RunDispatched broker w prior run out v) ∧
    (¬ Offered d user organization pipelines w.runs pipelineId runId →
      v.runs = w.runs ∧ v.queue = w.queue) :=
  (runContinue_visit pipelineId runId).runs (fun _ => rfl) h

/-! An engineer of the organization, and a run that stopped at the page limit. -/

def engineer : User := { id := 4 }

def engineerDirectory : Directory where
  organizations := [⟨1, "Acme", "acme".toList⟩]
  memberships := [⟨4, 1, .engineer⟩]
  ids := by simp
  unique := by simp

def cappedPipeline : Pipeline where
  id := ⟨7⟩
  isActive := true
  sourceConnection := ⟨8⟩
  destinationConnection := ⟨9⟩
  sourceConfig := { baseUrl := "https://source".toList, path := "/rows".toList }
  destinationMapping := [("id".toList, "id".toList)]
  strictMapping := false

def cappedRun : PipelineRun :=
  { id := ⟨1⟩
    pipeline := ⟨7⟩
    idempotencyKey := "first".toList
    status := .failed
    errorCategory := some continuableErrorCategory }

def visitPolicy : DispatchOp → DispatchAnswer
  | .uuid4 => .uuid ⟨20⟩
  | .getOrCreate _ _ => .uuid ⟨2⟩
  | .delay _ => .uuid ⟨6⟩
  | _ => .done

theorem continuation_offer_honoured_engineer :
    ∃ out v pipeline prior, v.queue = [⟨⟨2⟩, ⟨6⟩, 0⟩] ∧ pipeline.id = ⟨7⟩ ∧ prior.id = ⟨1⟩ ∧
      RunMade pipeline prior { runs := [cappedRun] } v fun run =>
        RunDispatched true { runs := [cappedRun] } prior run out v := by
  have hfinal : ((runContinue ⟨7⟩ ⟨1⟩).eval
      (execVisit engineerDirectory engineer 1 [cappedPipeline] true)
      visitPolicy { runs := [cappedRun] }).map (fun x => x.2.queue) = some [⟨⟨2⟩, ⟨6⟩, 0⟩] := by
    decide +kernel
  obtain ⟨⟨out, v⟩, heval, hqueue⟩ := Option.map_eq_some_iff.mp hfinal
  have hoffered : Offered engineerDirectory engineer 1 [cappedPipeline] [cappedRun] ⟨7⟩ ⟨1⟩ :=
    ⟨runPage engineer (some ⟨4, 1, .engineer⟩) [cappedRun] cappedPipeline cappedRun, rfl, rfl, rfl⟩
  have hhonoured := continuation_offer_honoured engineerDirectory engineer 1 [cappedPipeline] true
    ⟨7⟩ ⟨1⟩ (Prog.Runs.of_eval visitPolicy heval)
  obtain ⟨pipeline, prior, hpipeline, hprior, hmade⟩ := hhonoured.1 hoffered
  exact ⟨out, v, pipeline, prior, hqueue, hpipeline, hprior, hmade⟩

end DataLake
