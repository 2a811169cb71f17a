import DataLake.JobTable
import DataLake.MigrationConvergence

/-! Which session writes which status of a job, and when: the views and the task follow a
protocol, whatever they are answered. -/

namespace DataLake

open Foundation

abbrev JobLog := List (Call JobSig)

def Received (l : JobLog) (m : JobMessage) : Prop := ∃ rest, l = ⟨.receive, m⟩ :: rest

/-- Only the save of a start has written a status. -/
def Unfinished (l : JobLog) : Prop :=
  ∀ fields copy r, (⟨.saveStatus fields copy, r⟩ : Call JobSig) ∈ l → fields = .started

def Started (l : JobLog) : Prop :=
  ∃ copy, (⟨.saveStatus .started copy, .ok ()⟩ : Call JobSig) ∈ l

/-- The call a session may make after the calls `l`. -/
def Rule (request : JobRequest) (l : JobLog) (op : JobOp) : Prop :=
  (request = .work → Unfinished l) ∧
  match op with
  | .receive => request = .work ∧ l = []
  | .saveStatus fields copy =>
    (request = .work ∧ ∃ m, Received l m ∧ copy.id = m.job ∧
      ((fields = .started ∧ copy.status = .running) ∨
        (fields ≠ .started ∧ copy.status.terminal = true ∧ Started l))) ∨
    (∃ id, request = .retry id ∧ fields = .failure ∧ copy.status = .cancelled)
  | _ => True

variable {l : JobLog} {m m' : JobMessage} {request : JobRequest} {platform : Platform}

theorem along_jobCall {α : Type} {A : ∀ op : JobOp, op.Resp → Prop} {P : JobLog → JobOp → Prop}
    {Q : JobLog → Except Exc α → Prop} {op : JobOp} {f : op.Resp → JobProg α} (hop : P l op)
    (hf : ∀ r, A op r → (f r).Along A P Q (l ++ [⟨op, r⟩])) :
    (jobCall op >>= f).Along A P Q l := ⟨hop, hf⟩

theorem Received.append (h : Received l m) (x : Call JobSig) : Received (l ++ [x]) m := by
  obtain ⟨rest, rfl⟩ := h
  exact ⟨rest ++ [x], rfl⟩

theorem Received.inj (h : Received l m) (h' : Received l m') : m = m' := by
  obtain ⟨rest, rfl⟩ := h
  obtain ⟨rest', h'⟩ := h'
  cases h'
  rfl

theorem Started.append (h : Started l) (x : Call JobSig) : Started (l ++ [x]) := by
  obtain ⟨copy, hcopy⟩ := h
  exact ⟨copy, List.mem_append_left _ hcopy⟩

theorem unfinished_nil : Unfinished [] := by
  intro fields copy r h
  cases h

def JobOp.isStatusSave : JobOp → Bool
  | .saveStatus _ _ => true
  | _ => false

theorem Unfinished.append (h : Unfinished l) (op : JobOp) (hop : op.isStatusSave = false)
    (r : op.Resp) : Unfinished (l ++ [⟨op, r⟩]) := by
  intro fields copy r' hmem
  rcases List.mem_append.mp hmem with hmem | hmem
  · exact h fields copy r' hmem
  · obtain hcall := List.mem_singleton.mp hmem
    cases hcall
    cases hop

theorem Unfinished.append_started (h : Unfinished l) (copy : RawPayloadMigrationJob)
    (r : Except Exc Unit) : Unfinished (l ++ [⟨.saveStatus .started copy, r⟩]) := by
  intro fields copy' r' hmem
  rcases List.mem_append.mp hmem with hmem | hmem
  · exact h fields copy' r' hmem
  · obtain hcall := List.mem_singleton.mp hmem
    cases hcall
    rfl

/-! The task. -/

/-- A worker that executes the task of a message. -/
structure AtWork (m : JobMessage) (l : JobLog) : Prop where
  received : Received l m
  unfinished : Unfinished l

theorem AtWork.append (h : AtWork m l) (op : JobOp) (hop : op.isStatusSave = false)
    (r : op.Resp) : AtWork m (l ++ [⟨op, r⟩]) :=
  ⟨h.received.append _, h.unfinished.append op hop r⟩

/-- A call that no rule restricts. -/
def JobOp.isFree : JobOp → Bool
  | .receive | .saveStatus _ _ => false
  | _ => true

theorem AtWork.rule (h : AtWork m l) (op : JobOp) (hop : op.isFree = true) :
    Rule .work l op := by
  refine ⟨fun _ => h.unfinished, ?_⟩
  cases op with
  | receive => cases hop
  | saveStatus fields copy => cases hop
  | _ => trivial

theorem isStatusSave_of_isFree {op : JobOp} (h : op.isFree = true) : op.isStatusSave = false := by
  cases op with
  | saveStatus fields copy => cases h
  | _ => rfl

/-- What is left of a task once its status is saved for good: nothing. -/
theorem along_final {fields : StatusFields} {copy : RawPayloadMigrationJob}
    (hwork : AtWork m l) (hstarted : Started l) (hid : copy.id = m.job)
    (hfields : fields ≠ .started) (hterminal : copy.status.terminal = true) :
    (jobCall (.saveStatus fields copy) >>= fun saved => Prog.ofExcept saved).Along JobAnswered
      (Rule .work) (fun _ _ => True) l := by
  refine ⟨⟨fun _ => hwork.unfinished, .inl ⟨rfl, m, hwork.received, hid,
    .inr ⟨hfields, hterminal, hstarted⟩⟩⟩, fun r _ => ?_⟩
  cases r <;> trivial

theorem finalStatus_terminal (cancelRequested dryRun : Bool)
    (result : MigrationInspectionResult) :
    (finalStatus cancelRequested dryRun result).terminal = true := by
  unfold finalStatus
  split_ifs <;> rfl

variable {job : RawPayloadMigrationJob}

theorem failJob_along (hwork : AtWork m l) (hstarted : Started l) (hid : job.id = m.job)
    (e : Exc) : (failJob platform job e).Along JobAnswered (Rule .work) (fun _ _ => True) l :=
  ⟨hwork.rule _ rfl, fun now _ => along_final (hwork.append .now rfl now) (hstarted.append _) hid
    nofun rfl⟩

theorem finishJob_along (hwork : AtWork m l) (hstarted : Started l) (hid : job.id = m.job)
    (result : MigrationInspectionResult) :
    (finishJob job result).Along JobAnswered (Rule .work) (fun _ _ => True) l := by
  refine ⟨hwork.rule _ rfl, fun saved _ => ?_⟩
  have hwork := hwork.append (.saveResult job.id result) rfl saved
  refine ⟨hwork.rule _ rfl, fun cancelRequested _ => ?_⟩
  have hwork := hwork.append (.refreshCancelRequested job.id) rfl cancelRequested
  refine ⟨hwork.rule _ rfl, fun now _ => ?_⟩
  exact along_final (hwork.append .now rfl now) (((hstarted.append _).append _).append _) hid nofun
    (finalStatus_terminal _ _ _)

theorem issues_migrationPass (platform : Platform) (job : RawPayloadMigrationJob) :
    (migrationPass platform job).Issues fun op : JobOp => op.isFree = true := by
  refine Prog.Issues.embed ((Prog.issues_true _).mono fun op _ => ?_)
  cases op <;> rfl

theorem task_along (hwork : AtWork m l) (task : Uuid) :
    (runRawPayloadMigrationTask platform m.job task).Along JobAnswered (Rule .work)
      (fun _ _ => True) l := by
  refine ⟨hwork.rule _ rfl, fun found hfound => ?_⟩
  have hwork := hwork.append (.getJob m.job) rfl found
  cases found with
  | none => trivial
  | some job =>
    have hid : job.id = m.job := hfound job rfl
    refine ⟨hwork.rule _ rfl, fun now _ => ?_⟩
    have hwork := hwork.append .now rfl now
    refine ⟨⟨fun _ => hwork.unfinished, .inl ⟨rfl, m, hwork.received, hid, .inl ⟨rfl, rfl⟩⟩⟩,
      fun saved _ => ?_⟩
    cases saved with
    | error e => trivial
    | ok _ =>
      have hworking : AtWork m _ := ⟨hwork.received.append _, hwork.unfinished.append_started
        (startedJob job task now) (.ok ())⟩
      have hpass : (migrationPass platform (startedJob job task now)).Along JobAnswered (Rule .work)
          (fun l _ => AtWork m l ∧ Started l) _ :=
        (issues_migrationPass platform (startedJob job task now)).along ⟨hworking, startedJob job task now, List.mem_append_right _ (List.mem_singleton.mpr rfl)⟩
        fun l op hl hop => ⟨hl.1.rule op hop, fun r _ =>
          ⟨hl.1.append op (isStatusSave_of_isFree hop) r, hl.2.append _⟩⟩
      have hid : (startedJob job task now).id = m.job := hid
      exact hpass.handle (fun l result hl => finishJob_along hl.1 hl.2 hid result)
        fun l e hl => failJob_along hl.1 hl.2 hid e

theorem worker_along (platform : Platform) :
    (worker platform).Along JobAnswered (Rule .work) (fun _ _ => True) [] := by
  refine ⟨⟨fun _ => unfinished_nil, rfl, rfl⟩, fun m _ => ?_⟩
  have hwork : AtWork m [⟨.receive, m⟩] :=
    ⟨⟨[], rfl⟩, unfinished_nil.append .receive rfl m⟩
  exact (task_along hwork m.task).handle (fun _ _ _ => trivial) fun _ _ _ => trivial

/-! The views. -/

theorem rule_view (hrequest : request ≠ .work) (op : JobOp) (hop : op.isFree = true) :
    Rule request l op := by
  refine ⟨fun h => absurd h hrequest, ?_⟩
  cases op with
  | receive => cases hop
  | saveStatus fields copy => cases hop
  | _ => trivial

theorem rule_retry (id : Uuid) (op : JobOp) (hop : op.isFree = true) : Rule (.retry id) l op :=
  rule_view (fun h => by cases h) op hop

theorem free_along {α : Type} {p : JobProg α} (hp : p.Issues fun op : JobOp => op.isFree = true)
    (hrequest : request ≠ .work) :
    p.Along JobAnswered (Rule request) (fun _ _ => True) l :=
  hp.along (K := fun _ => True) trivial fun _ _ _ hop =>
    ⟨rule_view hrequest _ hop, fun _ _ => trivial⟩

theorem issues_startMigrationJob (organization : OrganizationRow) (dryRun : Bool) :
    (startMigrationJob organization dryRun).Issues fun op : JobOp => op.isFree = true := by
  refine ⟨rfl, fun active => ?_⟩
  cases active with
  | some active => trivial
  | none =>
    refine ⟨rfl, fun job => ?_⟩
    cases job with
    | some job => trivial
    | none =>
      refine ⟨rfl, fun existing => ?_⟩
      cases existing <;> trivial

theorem issues_migrationStart (orgId : Nat) (dryRun : Bool) :
    (migrationStart orgId dryRun).Issues fun op : JobOp => op.isFree = true := by
  refine ⟨rfl, fun organization => ?_⟩
  cases organization with
  | none => trivial
  | some organization =>
    refine ⟨rfl, fun role => ?_⟩
    refine (Prog.issues_ofExcept _ role).bind fun _ => ?_
    refine (issues_startMigrationJob organization dryRun).bind fun result => ?_
    obtain ⟨job, _ | _⟩ := result
    · trivial
    · refine ⟨rfl, fun _ => ⟨rfl, fun sent => ?_⟩⟩
      exact (Prog.issues_ofExcept _ sent).bind fun _ => trivial

def cancelOp : JobOp → Prop
  | .getJob _ | .requirePlatformOperator => True
  | .saveCancelRequested copy => copy.cancelRequested = true
  | _ => False

theorem issues_migrationJobCancel (jobId : Uuid) :
    (migrationJobCancel jobId).Issues cancelOp := by
  refine ⟨trivial, fun job => ?_⟩
  cases job with
  | none => trivial
  | some job =>
    refine ⟨trivial, fun role => ?_⟩
    refine (Prog.issues_ofExcept _ role).bind fun _ => ?_
    refine Prog.Issues.handle ?_ (fun _ => trivial) fun e => ?_
    · unfold requestCancel
      split_ifs
      · trivial
      · exact ⟨rfl, fun _ => trivial⟩
    · cases e with
      | dataLake e =>
        dsimp only
        split_ifs <;> trivial
      | other message => trivial

theorem cancelOp_isFree {op : JobOp} (h : cancelOp op) : op.isFree = true := by
  cases op with
  | receive => exact h.elim
  | saveStatus fields copy => exact h.elim
  | _ => rfl

theorem retryMigrationJob_along (job : RawPayloadMigrationJob) (id : Uuid) :
    (retryMigrationJob job).Along JobAnswered (Rule (.retry id)) (fun _ _ => True) l := by
  have hstart : ∀ l, (startMigrationJob job.organization job.dryRun).Along JobAnswered
      (Rule (.retry id)) (fun _ _ => True) l := fun l =>
    free_along (issues_startMigrationJob _ _) nofun
  unfold retryMigrationJob
  split_ifs
  · refine along_jobCall (rule_retry id _ rfl) fun now _ => ?_
    split_ifs
    · trivial
    · refine ⟨⟨nofun, .inr ⟨id, rfl, rfl, rfl⟩⟩, fun saved _ => ?_⟩
      cases saved with
      | error e => trivial
      | ok _ => exact hstart _
  · exact hstart _

theorem migrationJobRetry_along (id : Uuid) :
    (migrationJobRetry id).Along JobAnswered (Rule (.retry id)) (fun _ _ => True) l := by
  refine ⟨rule_retry id _ rfl, fun job _ => ?_⟩
  cases job with
  | none => trivial
  | some job =>
    refine ⟨rule_retry id _ rfl, fun role _ => ?_⟩
    cases role with
    | error e => trivial
    | ok _ =>
      refine (retryMigrationJob_along job id).handle (fun l result _ => ?_) fun l e _ => ?_
      · refine ⟨rule_retry id _ rfl, fun _ _ => ⟨rule_retry id _ rfl, fun sent _ => ?_⟩⟩
        cases sent <;> trivial
      · cases e with
        | dataLake e =>
          dsimp only
          split_ifs <;> trivial
        | other message => trivial

theorem program_along (platform : Platform) (request : JobRequest) :
    (request.program platform).Along JobAnswered (Rule request) (fun _ _ => True) [] := by
  cases request with
  | start orgId dryRun => exact free_along (issues_migrationStart orgId dryRun) nofun
  | retry id => exact migrationJobRetry_along id
  | cancel id => exact free_along ((issues_migrationJobCancel id).mono fun _ => cancelOp_isFree) nofun
  | work => exact worker_along platform

def Ops.Conform (s : Ops) : Prop :=
  Sessions.Conform (fun _ => JobAnswered) Rule (fun _ _ _ => True) s

theorem Ops.Conform.next {s t : Ops} {e : OpsEvent} (hs : s.Conform)
    (h : s.next platform e = some t) : t.Conform :=
  Sessions.Conform.next hs (fun _ request _ => program_along platform request)
    (fun _ _ _ _ _ _ _ _ _ _ hexec => execJobs_answered hexec) h

end DataLake
