import DataLake.Foundation.Testimony
import DataLake.JobOutcome

/-! The audit trail of the operator's interface: a pass that writes is that of a job whose
start has been recorded before. -/

namespace DataLake

open Foundation

def StoreOp.writes : StoreOp → Bool
  | .putIfAbsent _ _ | .putObject _ _ | .getOrCreateRecord _ | .saveLoaded _ | .saveStorageUri _ _ =>
    true
  | _ => false

/-- The row was an answer to one of the calls. -/
def Told (l : JobLog) (row : RawPayloadMigrationJob) : Prop :=
  (∃ id, (⟨.getJob id, some row⟩ : Call JobSig) ∈ l) ∨
  (∃ organization, (⟨.getActiveJob organization, some row⟩ : Call JobSig) ∈ l) ∨
  ∃ organization dryRun, (⟨.createJob organization dryRun, some row⟩ : Call JobSig) ∈ l

/-- A job is put into the broker once its start is in the audit trail, and only the pass of a
job that is no dry run writes, in the schema of its organization. -/
def Accounted (l : JobLog) : JobOp → Prop
  | .delay id => ∃ row, Told l row ∧ row.id = id ∧
      (⟨.recordAuditEvent (auditAction row.dryRun) id, ()⟩ : Call JobSig) ∈ l
  | .store schemaName op => op.writes = true → ∃ row m, Told l row ∧ row.dryRun = false ∧
      row.organization.schemaName = schemaName ∧ row.id = m.job ∧
      (⟨.receive, m⟩ : Call JobSig) ∈ l
  | _ => True

variable {l : JobLog} {row : RawPayloadMigrationJob} {platform : Platform}

theorem Told.append (h : Told l row) (l' : JobLog) : Told (l ++ l') row := by
  rcases h with ⟨id, h⟩ | ⟨organization, h⟩ | ⟨organization, dryRun, h⟩
  · exact .inl ⟨id, List.mem_append_left _ h⟩
  · exact .inr (.inl ⟨organization, List.mem_append_left _ h⟩)
  · exact .inr (.inr ⟨organization, dryRun, List.mem_append_left _ h⟩)

def JobOp.isQuiet : JobOp → Bool
  | .delay _ | .store _ _ => false
  | _ => true

theorem accounted_quiet {op : JobOp} (hop : op.isQuiet = true) : Accounted l op := by
  cases op with
  | delay id => cases hop
  | store schemaName op => cases hop
  | _ => trivial

theorem quiet_along {α : Type} {p : JobProg α} (hp : p.Issues fun op : JobOp => op.isQuiet = true) :
    p.Along JobAnswered Accounted (fun _ _ => True) l :=
  hp.along (K := fun _ => True) trivial fun _ _ _ hop =>
    ⟨accounted_quiet hop, fun _ _ => trivial⟩

/-! The views. -/

/-- The calls of a request to start a job. -/
def startOp : JobOp → Prop
  | .getOrganization _ | .requirePlatformOperator | .getActiveJob _ | .createJob _ _
  | .recordAuditEvent _ _ | .delay _ => True
  | _ => False

theorem startMigrationJob_startOp (organization : OrganizationRow) (dryRun : Bool) :
    (startMigrationJob organization dryRun).Issues startOp := by
  refine ⟨trivial, fun active => ?_⟩
  cases active with
  | some active => trivial
  | none =>
    refine ⟨trivial, fun job => ?_⟩
    cases job with
    | some job => trivial
    | none => exact ⟨trivial, fun existing => by cases existing <;> trivial⟩

theorem migrationStart_startOp (orgId : Nat) (dryRun : Bool) :
    (migrationStart orgId dryRun).Issues startOp := by
  refine ⟨trivial, fun found => ?_⟩
  cases found with
  | none => trivial
  | some organization =>
    refine ⟨trivial, fun role => (Prog.issues_ofExcept _ role).bind fun _ => ?_⟩
    refine (startMigrationJob_startOp organization dryRun).bind fun result => ?_
    obtain ⟨job, created⟩ := result
    cases created with
    | false => trivial
    | true =>
      refine ⟨trivial, fun _ => ⟨trivial, fun sent => ?_⟩⟩
      exact (Prog.issues_ofExcept _ sent).bind fun _ => trivial

/-- What is told of the job is told by an answer, and a job that is created is in the mode
that was asked for. -/
def JobTold (dryRun : Bool) (l : JobLog) : Except Exc (RawPayloadMigrationJob × Bool) → Prop
  | .ok (job, created) => Told l job ∧ (created = true → job.dryRun = dryRun)
  | .error _ => True

theorem startMigrationJob_told (organization : OrganizationRow) (dryRun : Bool) :
    (startMigrationJob organization dryRun).Along JobAnswered Accounted (JobTold dryRun) l := by
  refine ⟨trivial, fun active _ => ?_⟩
  cases active with
  | some job =>
    have htold : Told (l ++ [⟨.getActiveJob organization.id, some job⟩]) job :=
      .inr (.inl ⟨organization.id, List.mem_concat_self⟩)
    exact ⟨htold, fun h => by cases h⟩
  | none =>
    refine ⟨trivial, fun created hcreated => ?_⟩
    cases created with
    | some job =>
      have hmode : job.dryRun = dryRun := hcreated job rfl
      exact ⟨.inr (.inr ⟨organization, dryRun,
        List.mem_concat_self⟩), fun _ => hmode⟩
    | none =>
      refine ⟨trivial, fun existing _ => ?_⟩
      cases existing with
      | none => trivial
      | some job =>
        exact ⟨.inr (.inl ⟨organization.id, List.mem_concat_self⟩),
          fun h => by cases h⟩

/-- The end of a view: the audit entry, and the message. -/
theorem dispatch_along {job : RawPayloadMigrationJob} (htold : Told l job) :
    (do
      jobCall (.recordAuditEvent (auditAction job.dryRun) job.id)
      let sent ← jobCall (.delay job.id)
      let _ ← Prog.ofExcept sent
      return .redirect job none : JobProg Reply).Along JobAnswered Accounted (fun _ _ => True) l := by
  refine ⟨trivial, fun _ _ => ⟨?_, fun sent _ => ?_⟩⟩
  · exact ⟨job, htold.append _, rfl, List.mem_concat_self⟩
  · cases sent <;> trivial

theorem migrationStart_accounted (orgId : Nat) (dryRun : Bool) :
    (migrationStart orgId dryRun).Along JobAnswered Accounted (fun _ _ => True) l := by
  refine ⟨trivial, fun found _ => ?_⟩
  cases found with
  | none => trivial
  | some organization =>
    refine ⟨trivial, fun role _ => ?_⟩
    cases role with
    | error e => trivial
    | ok _ =>
      refine (startMigrationJob_told organization dryRun).handle (fun l result htold => ?_)
        fun _ _ _ => trivial
      obtain ⟨job, created⟩ := result
      cases created with
      | false => trivial
      | true =>
        have hmode : job.dryRun = dryRun := htold.2 rfl
        show (do
          jobCall (.recordAuditEvent (auditAction dryRun) job.id)
          let sent ← jobCall (.delay job.id)
          let _ ← Prog.ofExcept sent
          return .redirect job none : JobProg Reply).Along JobAnswered Accounted (fun _ _ => True) l
        rw [← hmode]
        exact dispatch_along htold.1

theorem retryMigrationJob_told (job : RawPayloadMigrationJob) :
    (retryMigrationJob job).Along JobAnswered Accounted (JobTold job.dryRun) l := by
  unfold retryMigrationJob
  split_ifs
  · refine ⟨trivial, fun now _ => ?_⟩
    show (if !job.isStale now then _ else _ : JobProg _).Along JobAnswered Accounted _ _
    split_ifs
    · trivial
    · refine ⟨trivial, fun saved _ => ?_⟩
      cases saved with
      | error e => trivial
      | ok _ => exact startMigrationJob_told _ _
  · exact startMigrationJob_told _ _

theorem migrationJobRetry_accounted (id : Uuid) :
    (migrationJobRetry id).Along JobAnswered Accounted (fun _ _ => True) l := by
  refine ⟨trivial, fun found _ => ?_⟩
  cases found with
  | none => trivial
  | some job =>
    refine ⟨trivial, fun role _ => ?_⟩
    cases role with
    | error e => trivial
    | ok _ =>
      refine (retryMigrationJob_told job).handle (fun l result htold => dispatch_along htold.1)
        fun l e _ => ?_
      cases e with
      | dataLake e =>
        dsimp only
        split_ifs <;> trivial
      | other message => trivial

/-! The task. -/

theorem issues_migrationPass_writes (job : RawPayloadMigrationJob) :
    (migrationPass platform job).Issues fun op : JobOp => op.isQuiet = true ∨
      ∃ storeOp, op = .store job.organization.schemaName storeOp ∧
        (storeOp.writes = true → job.dryRun = false) := by
  refine Prog.Issues.embed (issues_runRawPayloadMigration (fun op hop => ?_) (fun _ => .inl rfl)
    (.inl rfl) (.inr ⟨_, rfl, fun h => by cases h⟩) (.inr ⟨_, rfl, fun h => by cases h⟩) _ _)
  cases op with
  | tenantUuid => exact .inr ⟨_, rfl, fun h => by cases h⟩
  | putIfAbsent key object => exact .inr ⟨_, rfl, fun _ => hop⟩
  | putObject key object => exact .inr ⟨_, rfl, fun _ => hop⟩
  | headObject key => exact .inr ⟨_, rfl, fun h => by cases h⟩
  | getObject key => exact .inr ⟨_, rfl, fun h => by cases h⟩
  | saveStorageUri record uri => exact .inr ⟨_, rfl, fun _ => hop⟩
  | _ => exact hop.elim

/-- The worker has the message of the job, and the row. -/
structure Holding (m : JobMessage) (job : RawPayloadMigrationJob) (l : JobLog) : Prop where
  received : (⟨.receive, m⟩ : Call JobSig) ∈ l
  told : Told l job
  own : job.id = m.job

theorem Holding.append {m : JobMessage} {job : RawPayloadMigrationJob} (h : Holding m job l)
    (l' : JobLog) : Holding m job (l ++ l') :=
  ⟨List.mem_append_left _ h.received, h.told.append _, h.own⟩

theorem migrationPass_accounted {m : JobMessage} {job : RawPayloadMigrationJob} {task : Uuid}
    {now : Nat} (h : Holding m job l) :
    (migrationPass platform (startedJob job task now)).Along JobAnswered Accounted
      (fun l _ => Holding m job l) l := by
  refine (issues_migrationPass_writes (startedJob job task now)).along h fun l op hl hop =>
    ⟨?_, fun r _ => hl.append _⟩
  rcases hop with hop | ⟨storeOp, rfl, hreal⟩
  · exact accounted_quiet hop
  · exact fun hwrites => ⟨job, m, hl.told, hreal hwrites, rfl, hl.own, hl.received⟩

theorem task_accounted {m : JobMessage} (hreceived : (⟨.receive, m⟩ : Call JobSig) ∈ l) :
    (runRawPayloadMigrationTask platform m.job m.task).Along JobAnswered Accounted
      (fun _ _ => True) l := by
  refine ⟨trivial, fun found hfound => ?_⟩
  cases found with
  | none => trivial
  | some job =>
    have hholding : Holding m job (l ++ [⟨.getJob m.job, some job⟩]) :=
      ⟨List.mem_append_left _ hreceived, .inl ⟨m.job, by simp⟩, hfound job rfl⟩
    refine ⟨trivial, fun now _ => ⟨trivial, fun saved _ => ?_⟩⟩
    cases saved with
    | error e => trivial
    | ok _ =>
      refine (migrationPass_accounted ((hholding.append _).append _)).handle
        (fun l result _ => quiet_along ?_) fun l e _ => quiet_along ?_
      · refine ⟨rfl, fun _ => ⟨rfl, fun _ => ⟨rfl, fun _ => ⟨rfl, fun saved => ?_⟩⟩⟩⟩
        exact Prog.issues_ofExcept _ saved
      · exact ⟨rfl, fun _ => ⟨rfl, fun saved => Prog.issues_ofExcept _ saved⟩⟩

theorem worker_accounted : (worker platform).Along JobAnswered Accounted (fun _ _ => True) l :=
  ⟨trivial, fun _ _ => (task_accounted List.mem_concat_self).handle
    (fun _ _ _ => trivial) fun _ _ _ => trivial⟩

theorem program_accounted (platform : Platform) (request : JobRequest) :
    (request.program platform).Along JobAnswered Accounted (fun _ _ => True) [] := by
  cases request with
  | start orgId dryRun => exact migrationStart_accounted orgId dryRun
  | retry id => exact migrationJobRetry_accounted id
  | cancel id =>
    refine quiet_along ((issues_migrationJobCancel id).mono fun op hop => ?_)
    cases op with
    | delay id => exact hop.elim
    | store schemaName op => exact hop.elim
    | _ => rfl
  | work => exact worker_accounted

/-! The rows, the messages and the trail over a whole run. -/

/-- What of a row never changes. -/
def RawPayloadMigrationJob.identity (job : RawPayloadMigrationJob) :
    Uuid × OrganizationRow × Bool :=
  (job.id, job.organization, job.dryRun)

def InTable (w : OpsWorld) (row : RawPayloadMigrationJob) : Prop :=
  ∃ row' ∈ w.jobs, row'.identity = row.identity

/-- The start of the job is in the trail. -/
def Announced (w : OpsWorld) (id : Uuid) : Prop :=
  ∃ row ∈ w.jobs, row.id = id ∧ (auditAction row.dryRun, id) ∈ w.audit

/-- Rows stay, and so do the trail and the messages that were delivered. -/
structure Later (v w : OpsWorld) : Prop where
  rows : ∀ row ∈ v.jobs, InTable w row
  audit : ∀ entry ∈ v.audit, entry ∈ w.audit
  delivered : ∀ m ∈ v.delivered, m ∈ w.delivered

variable {v w : OpsWorld} {c : OpsAnswer}

theorem inTable_of_mem (h : row ∈ w.jobs) : InTable w row := ⟨row, h, rfl⟩

theorem Later.inTable (h : Later v w) (hrow : InTable v row) : InTable w row := by
  obtain ⟨row', hmem, heq⟩ := hrow
  obtain ⟨row'', hmem', heq'⟩ := h.rows row' hmem
  exact ⟨row'', hmem', heq'.trans heq⟩

theorem Later.announced (h : Later v w) {id : Uuid} (hid : Announced v id) : Announced w id := by
  obtain ⟨row, hmem, hrow, haudit⟩ := hid
  obtain ⟨row', hmem', heq⟩ := h.rows row hmem
  obtain ⟨hid', -, hdry⟩ : row'.id = row.id ∧ row'.organization = row.organization ∧
      row'.dryRun = row.dryRun := by
    simpa [RawPayloadMigrationJob.identity] using heq
  exact ⟨row', hmem', hid'.trans hrow, h.audit _ (by rwa [hdry])⟩

theorem later_updateJob {id : Uuid} {now : Nat}
    {f : RawPayloadMigrationJob → RawPayloadMigrationJob} (hf : ∀ row, (f row).identity = row.identity)
    (hjobs : w.jobs = updateJob id now f v.jobs) (haudit : w.audit = v.audit)
    (hdelivered : w.delivered = v.delivered) : Later v w := by
  refine ⟨fun row hrow => ?_, fun entry h => haudit ▸ h, fun m h => hdelivered ▸ h⟩
  refine ⟨savedRow id now f row, ?_, ?_⟩
  · rw [hjobs]
    exact List.mem_map_of_mem hrow
  · unfold savedRow
    split_ifs
    · exact hf row
    · rfl

theorem later_same (hjobs : w.jobs = v.jobs) (haudit : w.audit = v.audit)
    (hdelivered : w.delivered = v.delivered) : Later v w :=
  ⟨fun row h => ⟨row, hjobs ▸ h, rfl⟩, fun _ h => haudit ▸ h, fun _ h => hdelivered ▸ h⟩

theorem execJobs_later {op : JobOp} {r : op.Resp} (h : execJobs op c v = some (r, w)) :
    Later v w := by
  cases op with
  | createJob organization dryRun =>
    rcases execJobs_createJob h with ⟨-, rfl⟩ | ⟨job, -, -, -, -, -, rfl⟩
    · exact later_same rfl rfl rfl
    · exact ⟨fun row hrow => inTable_of_mem (List.mem_append_left _ hrow), fun _ h => h, fun _ h => h⟩
  | saveStatus fields copy =>
    rcases execJobs_saveStatus h with ⟨-, rfl⟩ | ⟨row, now, -, -, -, rfl⟩
    · exact later_same rfl rfl rfl
    · refine later_updateJob (f := fields.write copy) (fun row => ?_) rfl rfl rfl
      cases fields <;> rfl
  | saveCancelRequested copy =>
    cases c with
    | clock now =>
      cases h
      exact later_updateJob
        (f := fun job => { job with cancelRequested := copy.cancelRequested }) (fun _ => rfl) rfl rfl rfl
    | _ => cases h
  | saveResult id result =>
    cases c with
    | clock now =>
      cases h
      exact later_updateJob (f := fun job => { job with result }) (fun _ => rfl) rfl rfl rfl
    | _ => cases h
  | recordAuditEvent action target =>
    cases c with
    | clock now =>
      cases h
      exact ⟨fun row hrow => inTable_of_mem hrow, fun _ h => List.mem_append_left _ h, fun _ h => h⟩
    | _ => cases h
  | delay id =>
    rcases execJobs_delay h with ⟨-, rfl⟩ | ⟨task, -, rfl⟩ <;> exact later_same rfl rfl rfl
  | receive =>
    rcases execJobs_receive h with ⟨k, -, -, rfl⟩ | ⟨k, -, -, rfl⟩
    · exact ⟨fun row hrow => inTable_of_mem hrow, fun _ h => h, fun _ h => List.mem_append_left _ h⟩
    · exact later_same rfl rfl rfl
  | refreshCancelRequested id =>
    obtain ⟨rfl, -⟩ := execJobs_refreshCancelRequested h
    exact later_same rfl rfl rfl
  | store schemaName op =>
    obtain ⟨a, s, -, -, rfl⟩ := execJobs_store h
    exact later_same rfl rfl rfl
  | _ => cases c <;> cases h <;> exact later_same rfl rfl rfl

/-- An answer that tells of a row tells of one in the table. -/
theorem execJobs_told {op : JobOp} {r : op.Resp} (h : execJobs op c v = some (r, w))
    (htold : Told [⟨op, r⟩] row) : row ∈ w.jobs := by
  rcases htold with ⟨id, hmem⟩ | ⟨organization, hmem⟩ | ⟨organization, dryRun, hmem⟩
  · obtain ⟨rfl, hr⟩ := Sigma.mk.inj (List.mem_singleton.mp hmem)
    obtain rfl := eq_of_heq hr
    cases c with
    | clock now =>
      have hfind : findJob v.jobs id = some row ∧ v = w := by simpa [execJobs] using h
      exact hfind.2 ▸ findJob_mem hfind.1
    | _ => cases h
  · obtain ⟨rfl, hr⟩ := Sigma.mk.inj (List.mem_singleton.mp hmem)
    obtain rfl := eq_of_heq hr
    cases c with
    | clock now =>
      have hfind : activeJob v.jobs organization = some row ∧ v = w := by simpa [execJobs] using h
      have hrow := List.mem_reverse.mp (List.mem_of_find?_eq_some hfind.1)
      exact hfind.2 ▸ hrow
    | _ => cases h
  · obtain ⟨rfl, hr⟩ := Sigma.mk.inj (List.mem_singleton.mp hmem)
    obtain rfl := eq_of_heq hr
    rcases execJobs_createJob h with ⟨hnone, -⟩ | ⟨job, hsome, -, -, -, -, rfl⟩
    · cases hnone
    · obtain rfl := Option.some.inj hsome
      exact List.mem_concat_self

/-- What the table, the trail and the broker say of a call that was made. -/
def JobWitnessed (w : OpsWorld) : Call JobSig → Prop
  | ⟨.recordAuditEvent action id, _⟩ => (action, id) ∈ w.audit
  | ⟨.receive, m⟩ => m ∈ w.delivered
  | call => ∀ row, Told [call] row → InTable w row

theorem JobWitnessed.later {call : Call JobSig} (h : JobWitnessed v call) (hlater : Later v w) :
    JobWitnessed w call := by
  obtain ⟨op, r⟩ := call
  cases op with
  | recordAuditEvent action id => exact hlater.audit _ h
  | receive => exact hlater.delivered _ h
  | _ => exact fun row htold => hlater.inTable (h row htold)

theorem execJobs_witnessed {op : JobOp} {r : op.Resp} (h : execJobs op c v = some (r, w)) :
    JobWitnessed w ⟨op, r⟩ := by
  cases op with
  | recordAuditEvent action id =>
    cases c with
    | clock now =>
      cases h
      exact List.mem_concat_self
    | _ => cases h
  | receive =>
    rcases execJobs_receive h with ⟨n, -, -, rfl⟩ | ⟨n, -, hn, rfl⟩
    · exact List.mem_concat_self
    · exact List.mem_of_getElem? hn
  | _ => exact fun row htold => inTable_of_mem (execJobs_told h htold)

/-- It is one call that tells of a row. -/
theorem Told.call {l : JobLog} (h : Told l row) :
    ∃ call ∈ l, Told [call] row ∧ ∀ w, JobWitnessed w call → InTable w row := by
  rcases h with ⟨id, h⟩ | ⟨organization, h⟩ | ⟨organization, dryRun, h⟩
  · have htold : Told [⟨.getJob id, some row⟩] row := .inl ⟨id, List.mem_singleton.mpr rfl⟩
    exact ⟨_, h, htold, fun w hw => hw row htold⟩
  · have htold : Told [⟨.getActiveJob organization, some row⟩] row :=
      .inr (.inl ⟨organization, List.mem_singleton.mpr rfl⟩)
    exact ⟨_, h, htold, fun w hw => hw row htold⟩
  · have htold : Told [⟨.createJob organization dryRun, some row⟩] row :=
      .inr (.inr ⟨organization, dryRun, List.mem_singleton.mpr rfl⟩)
    exact ⟨_, h, htold, fun w hw => hw row htold⟩

/-- The identifiers are unique, and every message is of a job whose start is in the trail. -/
structure OpsWorld.Accounts (w : OpsWorld) : Prop where
  table : TableOk w.jobs
  queued : ∀ m ∈ w.queue, Announced w m.job
  delivered : ∀ m ∈ w.delivered, Announced w m.job

/-- What a session has been told and has recorded, the world bears out. -/
structure Trail (s : Ops) : Prop where
  accounts : s.world.Accounts
  borne : s.BorneOut fun _ => JobWitnessed

def Ops.Accounted (s : Ops) : Prop :=
  Sessions.Conform (fun _ => JobAnswered) (fun _ => DataLake.Accounted) (fun _ _ _ => True) s

theorem trail_idle (h : w.Accounts) : Trail (Sessions.idle w) :=
  ⟨h, Sessions.borneOut_idle w⟩

theorem OpsWorld.Accounts.answered {op : JobOp} {r : op.Resp} (h : v.Accounts)
    (hexec : execJobs op c v = some (r, w))
    (hrule : ∀ id, op = .delay id → Announced v id) : w.Accounts := by
  have hlater := execJobs_later hexec
  have hkept : w.queue = v.queue → w.delivered = v.delivered → w.Accounts := by
    intro hqueue hdelivered
    refine ⟨execJobs_tableOk h.table hexec, fun m hm => ?_, fun m hm => ?_⟩
    · rw [hqueue] at hm
      exact hlater.announced (h.queued m hm)
    · rw [hdelivered] at hm
      exact hlater.announced (h.delivered m hm)
  cases hop : op.keeps with
  | true =>
    obtain ⟨hqueue, hdelivered, -⟩ := execJobs_keeps hop hexec
    exact hkept hqueue hdelivered
  | false =>
    cases op with
    | createJob organization dryRun =>
      rcases execJobs_createJob hexec with ⟨-, rfl⟩ | ⟨job, -, -, -, -, -, rfl⟩ <;> exact hkept rfl rfl
    | saveStatus fields copy =>
      rcases execJobs_saveStatus hexec with ⟨-, rfl⟩ | ⟨row, now, -, -, -, rfl⟩ <;> exact hkept rfl rfl
    | delay id =>
      have hannounced := hlater.announced (hrule id rfl)
      have htable := execJobs_tableOk h.table hexec
      rcases execJobs_delay hexec with ⟨-, rfl⟩ | ⟨task, -, rfl⟩
      · exact hkept rfl rfl
      · refine ⟨htable, fun m hm => ?_, fun m hm => hlater.announced (h.delivered m hm)⟩
        rcases List.mem_append.mp hm with hm | hm
        · exact hlater.announced (h.queued m hm)
        · obtain rfl := List.mem_singleton.mp hm
          exact hannounced
    | receive =>
      have htable := execJobs_tableOk h.table hexec
      rcases execJobs_receive hexec with ⟨k, -, hk, rfl⟩ | ⟨k, -, -, rfl⟩
      · have hqueued := h.queued r (List.mem_of_getElem? hk)
        refine ⟨htable, fun m hm => ?_, fun m hm => ?_⟩
        · exact hlater.announced (h.queued m (List.mem_of_mem_eraseIdx hm))
        · rcases List.mem_append.mp hm with hm | hm
          · exact hlater.announced (h.delivered m hm)
          · obtain rfl := List.mem_singleton.mp hm
            exact hlater.announced hqueued
      · exact hkept rfl rfl
    | _ => cases hop

variable {s t : Ops}

theorem Trail.inTable (h : Trail s) {i : Nat} {x : JobSession} (hx : s.sessions i = some x)
    (htold : Told x.log row) : InTable s.world row := by
  obtain ⟨call, hcall, -, hrow⟩ := htold.call
  exact hrow s.world (h.borne i x hx call hcall)

/-- A session that may put a job into the broker has recorded its start. -/
theorem Trail.announced (h : Trail s) {i : Nat} {x : JobSession} {id : Uuid}
    (hx : s.sessions i = some x) (hrule : Accounted x.log (.delay id)) : Announced s.world id := by
  obtain ⟨row, htold, hid, hentry⟩ := hrule
  obtain ⟨row', hmem, hidentity⟩ := h.inTable hx htold
  have hentry : (auditAction row.dryRun, id) ∈ s.world.audit := h.borne i x hx _ hentry
  simp only [RawPayloadMigrationJob.identity, Prod.mk.injEq] at hidentity
  exact ⟨row', hmem, hidentity.1.trans hid, by rwa [hidentity.2.2]⟩

theorem Trail.next {e : OpsEvent} (h : Trail s) (hs : s.Accounted)
    (he : s.next platform e = some t) : Trail t := by
  refine ⟨?_, h.borne.next (fun i c x op k r w _ _ _ hexec request call hcall =>
    hcall.later (execJobs_later hexec)) (fun i c x op k r w _ _ _ hexec =>
      execJobs_witnessed hexec) he⟩
  rcases Sessions.next_cases he with ⟨i, request, rfl, -, rfl⟩ |
    ⟨i, c, x, op, k, r, w, rfl, hx, -, hprog, hexec, rfl⟩ | ⟨i, x, rfl, hx, rfl⟩
  · exact h.accounts
  · have hrule : Accounted x.log op := hs.rule hx hprog
    refine h.accounts.answered hexec ?_
    rintro id rfl
    exact h.announced hx hrule
  · exact h.accounts

theorem accounted_reaches {ok : Ops → OpsEvent → Prop} (hw : w.Accounts)
    (h : Reaches (Ops.next platform) ok (Sessions.idle w) s) : s.Accounted ∧ Trail s := by
  refine h.invariant (I := fun u : Ops => u.Accounted ∧ Trail u)
    ⟨Sessions.conform_idle w, trail_idle hw⟩ fun u e v ⟨hu, htrail⟩ _ he => ⟨?_, htrail.next hu he⟩
  exact hu.next (fun _ request _ => program_accounted platform request)
    (fun _ _ _ _ _ _ _ _ _ _ hexec => execJobs_answered hexec) he

theorem execStore_reads {op : StoreOp} {a : StoreAnswer} {store store' : StoreWorld} {r : op.Resp}
    (hop : op.writes = false) (h : execStore op a store = some (r, store')) : store' = store := by
  cases op with
  | tenantUuid => exact (execStore_tenantUuid h).2
  | headObject key => exact (execStore_headObject h).1
  | getObject key => exact (execStore_getObject h).1
  | selectRecords =>
    cases a with
    | done _ =>
      cases h
      rfl
    | _ => cases h
  | progressCallback result =>
    cases a with
    | done _ =>
      cases h
      rfl
    | _ => cases h
  | cancelCheck =>
    cases a with
    | cancel _ =>
      cases h
      rfl
    | _ => cases h
  | _ => cases hop

/-- Only the calls of a pass change the objects and the records, those of its own schema. -/
theorem execJobs_unchanged {op : JobOp} {r : op.Resp} (h : execJobs op c v = some (r, w)) :
    (w.bucket = v.bucket ∧ w.records = v.records) ∨
      ∃ schemaName storeOp, op = .store schemaName storeOp ∧ storeOp.writes = true ∧
        ∀ schema, schema ≠ schemaName → w.records schema = v.records schema := by
  cases op with
  | store schemaName storeOp =>
    obtain ⟨a, store, -, hexec, rfl⟩ := execJobs_store h
    cases hwrites : storeOp.writes with
    | true =>
      refine .inr ⟨schemaName, storeOp, rfl, hwrites, fun schema hne => ?_⟩
      simp [OpsWorld.withStore, hne]
    | false =>
      rw [execStore_reads hwrites hexec]
      exact .inl ⟨rfl, Function.update_eq_self _ _⟩
  | createJob organization dryRun =>
    rcases execJobs_createJob h with ⟨-, rfl⟩ | ⟨job, -, -, -, -, -, rfl⟩ <;> exact .inl ⟨rfl, rfl⟩
  | saveStatus fields copy =>
    rcases execJobs_saveStatus h with ⟨-, rfl⟩ | ⟨row, now, -, -, -, rfl⟩ <;> exact .inl ⟨rfl, rfl⟩
  | delay id =>
    rcases execJobs_delay h with ⟨-, rfl⟩ | ⟨task, -, rfl⟩ <;> exact .inl ⟨rfl, rfl⟩
  | receive =>
    rcases execJobs_receive h with ⟨n, -, -, rfl⟩ | ⟨n, -, -, rfl⟩ <;> exact .inl ⟨rfl, rfl⟩
  | refreshCancelRequested id =>
    obtain ⟨rfl, -⟩ := execJobs_refreshCancelRequested h
    exact .inl ⟨rfl, rfl⟩
  | _ => cases c <;> cases h <;> exact .inl ⟨rfl, rfl⟩

/-- The session has received the message of this job, and its next call is one of a pass in the
schema of the job's organization. -/
def PassesFor (s : Ops) (i : Nat) (m : JobMessage) (row : RawPayloadMigrationJob) : Prop :=
  row.id = m.job ∧ ∃ x op k, s.sessions i = some x ∧ (⟨.receive, m⟩ : Call JobSig) ∈ x.log ∧
    x.prog = .call (.store row.organization.schemaName op) k

/-- Whatever the requests, the workers and the broker do, and whoever dies: a step that changes
an object or a record is one of a pass for the job whose message its session has received. That
job is no dry run, its start is in the audit trail by then, and the records that the step changes
are those of the organization of the job. -/
theorem changes_audited (platform : Platform) {w : OpsWorld} (hw : w.Accounts) {s t : Ops}
    {e : OpsEvent} (hs : Reaches (Ops.next platform) (fun _ _ => True) (Sessions.idle w) s)
    (he : s.next platform e = some t)
    (hchange : t.world.bucket ≠ s.world.bucket ∨ t.world.records ≠ s.world.records) :
    ∃ i c m, e = .step i c ∧ ∃ row ∈ s.world.jobs, PassesFor s i m row ∧ row.dryRun = false ∧
      (JobAuditAction.started, row.id) ∈ s.world.audit ∧
      ∀ schema, schema ≠ row.organization.schemaName →
        t.world.records schema = s.world.records schema := by
  obtain ⟨haccounted, htrail⟩ := accounted_reaches hw hs
  rcases Sessions.next_cases he with ⟨i, request, rfl, -, rfl⟩ |
    ⟨i, c, x, op, k, r, w, rfl, hx, -, hprog, hexec, rfl⟩ | ⟨i, x, rfl, hx, rfl⟩
  · simp at hchange
  · rcases execJobs_unchanged hexec with ⟨hbucket, hrecords⟩ |
      ⟨schemaName, storeOp, rfl, hwrites, hothers⟩
    · simp [hbucket, hrecords] at hchange
    · have hrule : Accounted x.log (.store schemaName storeOp) := haccounted.rule hx hprog
      obtain ⟨told, m, htold, hreal, rfl, hown, hreceived⟩ := hrule hwrites
      obtain ⟨row, hrow, hidentity⟩ := htrail.inTable hx htold
      simp only [RawPayloadMigrationJob.identity, Prod.mk.injEq] at hidentity
      obtain ⟨hid, horganization, hdry⟩ := hidentity
      -- The job that was announced for the message is the one that was read.
      obtain ⟨row', hrow', hid', hentry⟩ :=
        htrail.accounts.delivered m (htrail.borne i x hx _ hreceived)
      have hsame : row' = row := by
        refine List.inj_on_of_nodup_map htrail.accounts.table.ids hrow' hrow ?_
        rw [hid', hid, hown]
      subst hsame
      rw [hdry, hreal, ← hid'] at hentry
      rw [← horganization] at hprog hothers
      exact ⟨i, c, m, rfl, row', hrow', ⟨hid', x, storeOp, k, hx, hreceived, hprog⟩,
        hdry.trans hreal, hentry, hothers⟩
  · simp at hchange

/-- Before the first request. -/
theorem OpsWorld.Accounts.of_empty (hjobs : w.jobs = []) (hqueue : w.queue = [])
    (hdelivered : w.delivered = []) : w.Accounts := by
  have htable : TableOk w.jobs := by
    rw [hjobs]
    exact ⟨List.nodup_nil, fun a ha => by cases ha⟩
  exact ⟨htable, by simp [hqueue], by simp [hdelivered]⟩

def legacyTenant : OpsWorld := { legacyOps with jobs := [] }

def legacyTarget : Text := tenantKey ⟨1⟩ (logicalKey ⟨2⟩ ⟨3⟩ 1 (sha256hex [7]))

/-- An operator starts a migration, and a worker comes to the write of its first object. -/
def firstWrite : List OpsEvent :=
  [.start 0 (.start 1 false), .step 0 (.clock 0), .step 0 (.clock 0), .step 0 (.clock 0),
    .step 0 (.fresh ⟨6⟩ 0), .step 0 (.clock 0), .step 0 (.fresh ⟨5⟩ 0), .start 1 .work,
    .step 1 (.message 0), .step 1 (.clock 0), .step 1 (.clock 0), .step 1 (.clock 0),
    .step 1 (.raw (.tenant (.ok ⟨1⟩))), .step 1 (.raw (.done ⟨0⟩)), .step 1 (.raw (.done ⟨0⟩)),
    .step 1 (.raw (.done ⟨0⟩)), .step 1 (.raw (.tenant (.ok ⟨1⟩)))]

theorem changes_audited_first : ∃ s t : Ops,
    Reaches (Ops.next smallPlatform) (fun _ _ => True) (Sessions.idle legacyTenant) s ∧
    s.next smallPlatform (.step 1 (.raw (.done ⟨0⟩))) = some t ∧
    (s.world.bucket legacyTarget).isSome = false ∧ (t.world.bucket legacyTarget).isSome = true ∧
    ∃ m, ∃ row ∈ s.world.jobs, PassesFor s 1 m row ∧ row.dryRun = false ∧
      (JobAuditAction.started, row.id) ∈ s.world.audit := by
  have hfinal : (replay (Ops.next smallPlatform) (fun _ _ => True) (Sessions.idle legacyTenant)
      firstWrite).map (fun s => ((s.world.bucket legacyTarget).isSome,
        (s.next smallPlatform (.step 1 (.raw (.done ⟨0⟩)))).map fun t =>
          (t.world.bucket legacyTarget).isSome)) = some (false, some true) := by
    decide +kernel
  obtain ⟨s, hs, hend⟩ := Option.map_eq_some_iff.mp hfinal
  obtain ⟨habsent, hwritten⟩ := Prod.mk.injEq _ _ _ _ ▸ hend
  obtain ⟨t, ht, hpresent⟩ := Option.map_eq_some_iff.mp hwritten
  have haccounts : legacyTenant.Accounts := .of_empty rfl rfl rfl
  have hreach := Reaches.of_replay _ hs
  have hchange : t.world.bucket ≠ s.world.bucket := by
    intro heq
    rw [heq, habsent] at hpresent
    cases hpresent
  obtain ⟨i, c, m, hstep, row, hrow, hpass, hdry, hentry, -⟩ :=
    changes_audited smallPlatform haccounts hreach ht (.inl hchange)
  cases hstep
  exact ⟨s, t, hreach, ht, habsent, hpresent, m, row, hrow, hpass, hdry, hentry⟩

end DataLake
