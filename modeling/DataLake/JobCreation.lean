import DataLake.JobFinality

/-! Which session puts a job into the broker: the one that created it, as long as a retry
finds no active job of the organization. -/

namespace DataLake

open Foundation

/-- A retry is told of no active job. -/
def Unrivalled (request : JobRequest) (op : JobOp) (r : op.Resp) : Prop :=
  JobAnswered op r ∧
  match op, r with
  | .getActiveJob _, r => (∃ id, request = .retry id) → r = none
  | _, _ => True

def Creates (l : JobLog) (job : RawPayloadMigrationJob) : Prop :=
  ∃ organization dryRun, (⟨.createJob organization dryRun, some job⟩ : Call JobSig) ∈ l

def Enqueues (l : JobLog) (id : Uuid) : Prop :=
  (⟨.delay id, .ok ()⟩ : Call JobSig) ∈ l

def Retries (request : JobRequest) (l : JobLog) (job : RawPayloadMigrationJob) : Prop :=
  ∃ id, request = .retry id ∧ (⟨.getJob id, some job⟩ : Call JobSig) ∈ l

def JobOp.isCreation : JobOp → Bool
  | .createJob _ _ => true
  | _ => false

def JobOp.isDelay : JobOp → Bool
  | .delay _ => true
  | _ => false

/-- A job is created once, in the mode of the retried one, and enqueued once, after it was
created. -/
def Dispatches (request : JobRequest) (l : JobLog) : JobOp → Prop
  | .createJob _ dryRun => (∀ call ∈ l, call.1.isCreation = false) ∧
      ((∃ id, request = .retry id) → ∃ job, Retries request l job ∧ dryRun = job.dryRun)
  | .delay id => (∃ job, Creates l job ∧ job.id = id) ∧ ∀ call ∈ l, call.1.isDelay = false
  | _ => True

/-- What a session that has come to its end has done. -/
def Served (request : JobRequest) (l : JobLog) : Except Exc Reply → Prop
  | .ok reply => (∀ job, Creates l job → Enqueues l job.id) ∧
      ∀ job', reply = .redirect job' none → (∃ id, request = .retry id) →
        ∃ job, Retries request l job ∧ job'.dryRun = job.dryRun
  | .error _ => True

def JobOp.isPlain : JobOp → Bool
  | .createJob _ _ | .delay _ => false
  | _ => true

def Plain (l : JobLog) : Prop := ∀ call ∈ l, call.1.isPlain = true

variable {l : JobLog} {op : JobOp} {request : JobRequest} {platform : Platform}
  {job : RawPayloadMigrationJob}

theorem plain_nil : Plain [] := by
  intro call hcall
  cases hcall

theorem Plain.append (h : Plain l) (x : Call JobSig) (hx : x.1.isPlain = true) :
    Plain (l ++ [x]) := by
  intro call hcall
  rcases List.mem_append.mp hcall with hcall | hcall
  · exact h call hcall
  · obtain rfl := List.mem_singleton.mp hcall
    exact hx

theorem Plain.no_creation (h : Plain l) : ∀ call ∈ l, call.1.isCreation = false := by
  rintro ⟨op, r⟩ hcall
  have := h _ hcall
  cases op <;> first | rfl | cases this

theorem Plain.no_delay (h : Plain l) : ∀ call ∈ l, call.1.isDelay = false := by
  rintro ⟨op, r⟩ hcall
  have := h _ hcall
  cases op <;> first | rfl | cases this

theorem not_creates (h : ∀ call ∈ l, call.1.isCreation = false) : ¬ Creates l job := by
  rintro ⟨organization, dryRun, hmem⟩
  cases h _ hmem

theorem dispatches_plain (hop : op.isPlain = true) : Dispatches request l op := by
  cases op with
  | createJob organization dryRun => cases hop
  | delay id => cases hop
  | _ => trivial

theorem Retries.append (h : Retries request l job) (x : Call JobSig) :
    Retries request (l ++ [x]) job := by
  obtain ⟨id, hrequest, hmem⟩ := h
  exact ⟨id, hrequest, List.mem_append_left _ hmem⟩

/-- The mode that a retry is bound to. -/
def Bound (request : JobRequest) (l : JobLog) (dryRun : Bool) : Prop :=
  (∃ id, request = .retry id) → ∃ job, Retries request l job ∧ dryRun = job.dryRun

theorem Bound.append {dryRun : Bool} (h : Bound request l dryRun) (x : Call JobSig) :
    Bound request (l ++ [x]) dryRun := by
  intro hrequest
  obtain ⟨job, hjob, hdry⟩ := h hrequest
  exact ⟨job, hjob.append x, hdry⟩

/-- The session has created the job and nothing else, and not enqueued it. -/
structure Created (request : JobRequest) (l : JobLog) (job : RawPayloadMigrationJob) : Prop where
  creates : Creates l job
  only : ∀ job', Creates l job' → job' = job
  unsent : ∀ call ∈ l, call.1.isDelay = false
  mode : Bound request l job.dryRun

theorem Creates.append (h : Creates l job) (x : Call JobSig) : Creates (l ++ [x]) job := by
  obtain ⟨organization, dryRun, hmem⟩ := h
  exact ⟨organization, dryRun, List.mem_append_left _ hmem⟩

theorem creates_append (hop : op.isCreation = false) {r : op.Resp}
    (h : Creates (l ++ [⟨op, r⟩]) job) : Creates l job := by
  obtain ⟨organization, dryRun, hmem⟩ := h
  rcases List.mem_append.mp hmem with hmem | hmem
  · exact ⟨organization, dryRun, hmem⟩
  · cases List.mem_singleton.mp hmem
    cases hop

theorem not_creates_append (h : ∀ job, ¬ Creates l job) (x : Call JobSig)
    (hx : x.1.isCreation = false) (job : RawPayloadMigrationJob) : ¬ Creates (l ++ [x]) job :=
  fun hjob => h job (creates_append hx hjob)

theorem Plain.refused (h : Plain l) (organization : OrganizationRow) (dryRun : Bool)
    (job : RawPayloadMigrationJob) :
    ¬ Creates (l ++ [⟨.createJob organization dryRun, none⟩]) job := by
  rintro ⟨organization', dryRun', hmem⟩
  rcases List.mem_append.mp hmem with hmem | hmem
  · exact not_creates h.no_creation ⟨organization', dryRun', hmem⟩
  · cases List.mem_singleton.mp hmem

theorem Created.append (h : Created request l job) (x : Call JobSig) (hx : x.1.isPlain = true) :
    Created request (l ++ [x]) job := by
  obtain ⟨op, r⟩ := x
  have hcreation : op.isCreation = false := by cases op <;> first | rfl | cases hx
  refine ⟨h.creates.append _, fun job' hjob' => h.only job' (creates_append hcreation hjob'),
    fun call hcall => ?_, h.mode.append _⟩
  rcases List.mem_append.mp hcall with hcall | hcall
  · exact h.unsent call hcall
  · obtain rfl := List.mem_singleton.mp hcall
    cases op <;> first | rfl | cases hx

theorem Plain.created {organization : OrganizationRow} (h : Plain l)
    (hmode : Bound request l job.dryRun) :
    Created request (l ++ [⟨.createJob organization job.dryRun, some job⟩]) job := by
  refine ⟨⟨organization, job.dryRun, List.mem_append_right _ (List.mem_singleton.mpr rfl)⟩,
    fun job' hjob' => ?_, fun call hcall => ?_, hmode.append _⟩
  · obtain ⟨organization', dryRun', hmem⟩ := hjob'
    rcases List.mem_append.mp hmem with hmem | hmem
    · exact absurd ⟨organization', dryRun', hmem⟩ (not_creates h.no_creation)
    · cases List.mem_singleton.mp hmem
      rfl
  · rcases List.mem_append.mp hcall with hcall | hcall
    · exact h.no_delay call hcall
    · obtain rfl := List.mem_singleton.mp hcall
      rfl

/-! The requests. -/

theorem plain_along {α : Type} {p : JobProg α} {A : ∀ op : JobOp, op.Resp → Prop}
    (hp : p.Issues fun op : JobOp => op.isPlain = true) (hl : Plain l) :
    p.Along A (Dispatches request) (fun l _ => Plain l) l :=
  hp.along hl fun _ _ hl hop => ⟨dispatches_plain hop, fun r _ => hl.append ⟨_, r⟩ hop⟩

/-- The job that a service call returns: created by this session, or else an active one that
was there. -/
def Yields (request : JobRequest) (l : JobLog) :
    Except Exc (RawPayloadMigrationJob × Bool) → Prop
  | .ok (job, true) => Created request l job
  | .ok (_, false) => (∀ id, request ≠ .retry id) ∧ ∀ job, ¬ Creates l job
  | .error _ => ∀ job, ¬ Creates l job

theorem startMigrationJob_along (organization : OrganizationRow) {dryRun : Bool} (hl : Plain l)
    (hmode : Bound request l dryRun) :
    (startMigrationJob organization dryRun).Along (Unrivalled request) (Dispatches request)
      (Yields request) l := by
  have hrival : ∀ {id job}, Unrivalled request (.getActiveJob id) (some job) →
      ∀ id', request ≠ .retry id' := by
    rintro id job ⟨-, hnone⟩ id' hrequest
    cases hnone ⟨id', hrequest⟩
  refine ⟨trivial, fun active hactive => ?_⟩
  have hl := hl.append ⟨.getActiveJob organization.id, active⟩ rfl
  have hmode := hmode.append ⟨.getActiveJob organization.id, active⟩
  cases active with
  | some active => exact ⟨hrival hactive, fun job => not_creates hl.no_creation⟩
  | none =>
    refine ⟨⟨hl.no_creation, hmode⟩, fun job hjob => ?_⟩
    cases job with
    | some job =>
      obtain rfl : job.dryRun = dryRun := hjob.1 job rfl
      exact hl.created hmode
    | none =>
      refine ⟨trivial, fun existing hexisting => ?_⟩
      have hnone := not_creates_append (hl.refused organization dryRun)
        ⟨.getActiveJob organization.id, existing⟩ rfl
      cases existing with
      | none => exact hnone
      | some existing => exact ⟨hrival hexisting, hnone⟩

theorem delay_along (h : Created request l job) :
    (jobCall (.delay job.id) >>= fun sent => Prog.ofExcept sent >>= fun _ =>
      Prog.ret (Reply.redirect job none)).Along (Unrivalled request) (Dispatches request)
        (Served request) l := by
  refine ⟨⟨⟨job, h.creates, rfl⟩, h.unsent⟩, fun sent _ => ?_⟩
  cases sent with
  | error e => trivial
  | ok _ =>
    refine ⟨fun job' hjob' => ?_, fun job' hreply hrequest => ?_⟩
    · rw [h.only job' (creates_append rfl hjob')]
      exact List.mem_append_right _ (List.mem_singleton.mpr rfl)
    · cases hreply
      exact h.mode.append _ hrequest

theorem migrationStart_along (orgId : Nat) (dryRun : Bool) :
    (migrationStart orgId dryRun).Along (Unrivalled (.start orgId dryRun))
      (Dispatches (.start orgId dryRun)) (Served (.start orgId dryRun)) [] := by
  refine ⟨trivial, fun organization _ => ?_⟩
  have hl := plain_nil.append ⟨.getOrganization orgId, organization⟩ rfl
  cases organization with
  | none => trivial
  | some organization =>
    refine ⟨trivial, fun role _ => ?_⟩
    have hl := hl.append ⟨.requirePlatformOperator, role⟩ rfl
    cases role with
    | error e => trivial
    | ok _ =>
      have hmode : ∀ l, Bound (.start orgId dryRun) l dryRun := by
        rintro l ⟨id, hretry⟩
        cases hretry
      refine (startMigrationJob_along organization hl (hmode _)).handle
        (fun l result hresult => ?_) fun _ _ _ => trivial
      obtain ⟨job, _ | _⟩ := result
      · refine ⟨fun job hjob => absurd hjob (hresult.2 job), fun job' hreply => ?_⟩
        cases hreply
      · exact ⟨trivial, fun r _ => delay_along
          (hresult.append ⟨.recordAuditEvent (auditAction dryRun) job.id, r⟩ rfl)⟩

theorem retryMigrationJob_dispatches (hl : Plain l) (hmode : Bound request l job.dryRun) :
    (retryMigrationJob job).Along (Unrivalled request) (Dispatches request)
      (Yields request) l := by
  unfold retryMigrationJob
  split_ifs
  · refine along_jobCall trivial fun now _ => ?_
    have hl := hl.append ⟨.now, now⟩ rfl
    split_ifs
    · exact fun job => not_creates hl.no_creation
    · refine ⟨trivial, fun saved _ => ?_⟩
      have hl := hl.append ⟨.saveStatus .failure (superseded job), saved⟩ rfl
      cases saved with
      | error e => exact fun job => not_creates hl.no_creation
      | ok _ =>
        exact startMigrationJob_along job.organization hl ((hmode.append _).append _)
  · exact startMigrationJob_along job.organization hl hmode

theorem migrationJobRetry_dispatches (id : Uuid) :
    (migrationJobRetry id).Along (Unrivalled (.retry id)) (Dispatches (.retry id))
      (Served (.retry id)) [] := by
  refine ⟨trivial, fun found _ => ?_⟩
  have hl := plain_nil.append ⟨.getJob id, found⟩ rfl
  cases found with
  | none => trivial
  | some job =>
    have hretries : Retries (.retry id) [⟨.getJob id, some job⟩] job :=
      ⟨id, rfl, List.mem_singleton.mpr rfl⟩
    refine ⟨trivial, fun role _ => ?_⟩
    have hl := hl.append ⟨.requirePlatformOperator, role⟩ rfl
    cases role with
    | error e => trivial
    | ok _ =>
      refine (retryMigrationJob_dispatches hl fun _ => ⟨job, hretries.append _, rfl⟩).handle
        (fun l result hresult => ?_) fun l e hresult => ?_
      · obtain ⟨job', _ | _⟩ := result
        · exact absurd rfl (hresult.1 id)
        · exact ⟨trivial, fun r _ => delay_along
            (hresult.append ⟨.recordAuditEvent (auditAction job'.dryRun) job'.id, r⟩ rfl)⟩
      · cases e with
        | other message => trivial
        | dataLake e =>
          dsimp only
          split_ifs
          · refine ⟨fun job' hjob' => absurd hjob' (hresult job'), fun job' hreply => ?_⟩
            cases hreply
          · trivial

theorem plain_served {p : JobProg Reply} (hrequest : ∀ id, request ≠ .retry id)
    (hp : p.Issues fun op : JobOp => op.isPlain = true) :
    p.Along (Unrivalled request) (Dispatches request) (Served request) [] := by
  refine Prog.Along.imp (plain_along hp plain_nil) fun l out hl => ?_
  cases out with
  | error e => trivial
  | ok reply =>
    exact ⟨fun job hjob => absurd hjob (not_creates hl.no_creation),
      fun job' _ ⟨id, hretry⟩ => absurd hretry (hrequest id)⟩

theorem cancelOp_isPlain {op : JobOp} (h : cancelOp op) : op.isPlain = true := by
  cases op with
  | createJob organization dryRun => exact h.elim
  | delay id => exact h.elim
  | _ => rfl

theorem plain_task (platform : Platform) (id task : Uuid) :
    (runRawPayloadMigrationTask platform id task).Issues fun op : JobOp => op.isPlain = true := by
  refine ⟨rfl, fun found => ?_⟩
  cases found with
  | none => trivial
  | some job =>
    refine ⟨rfl, fun now => ⟨rfl, fun saved => ?_⟩⟩
    refine (Prog.issues_ofExcept _ saved).bind fun _ => ?_
    refine Prog.Issues.handle ?_ (fun result => ?_) fun e => ?_
    · refine Prog.Issues.embed ((Prog.issues_true _).mono fun op _ => ?_)
      cases op <;> rfl
    · exact ⟨rfl, fun _ => ⟨rfl, fun _ => ⟨rfl, fun _ => ⟨rfl, fun r => Prog.issues_ofExcept _ r⟩⟩⟩⟩
    · exact ⟨rfl, fun _ => ⟨rfl, fun r => Prog.issues_ofExcept _ r⟩⟩

theorem plain_worker (platform : Platform) :
    (worker platform).Issues fun op : JobOp => op.isPlain = true :=
  ⟨rfl, fun message => (plain_task platform message.job message.task).bind fun _ => trivial⟩

theorem program_dispatches (platform : Platform) (request : JobRequest) :
    (request.program platform).Along (Unrivalled request) (Dispatches request)
      (Served request) [] := by
  cases request with
  | start orgId dryRun => exact migrationStart_along orgId dryRun
  | retry id => exact migrationJobRetry_dispatches id
  | cancel id => exact plain_served nofun ((issues_migrationJobCancel id).mono fun _ => cancelOp_isPlain)
  | work => exact plain_served nofun (plain_worker platform)

end DataLake
