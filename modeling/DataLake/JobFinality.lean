import DataLake.JobProtocol

/-! When a finished migration job stays finished: as long as nobody writes the status of a
job that another session is still going to write. -/

namespace DataLake

open Foundation

abbrev JobSession := Session JobSig Exc Reply JobRequest

/-- A living worker has received a message of the job and is not done with it. -/
def Handles (x : JobSession) (id : Uuid) : Prop :=
  x.request = .work ∧ x.active = true ∧ ∃ m, Received x.log m ∧ m.job = id

/-- A retry has found the job stale, and its next call marks it CANCELLED. -/
def Overrides (x : JobSession) (id : Uuid) : Prop :=
  x.alive = true ∧ (∃ job, x.request = .retry job) ∧
    ∃ copy k, x.prog = .call (.saveStatus .failure copy) k ∧ copy.id = id

def delivers (c : OpsAnswer) (w : OpsWorld) : Option JobMessage :=
  match c with
  | .message k => w.queue[k]?
  | .again k => w.delivered[k]?
  | _ => none

/-- A message is delivered only while its job is not finished and no other session is at
work on the job; a retry finds a job stale only while its row says RUNNING and no worker
is alive. -/
def Exclusive (platform : Platform) (s : Ops) : OpsEvent → Prop
  | .step i c =>
    (∀ x k m, s.sessions i = some x → x.prog = .call .receive k →
      delivers c s.world = some m →
      (∀ status, statusOf s.world.jobs m.job = some status → status.terminal = false) ∧
      ∀ j y, s.sessions j = some y → ¬ Handles y m.job ∧ ¬ Overrides y m.job) ∧
    ∀ t y id, s.next platform (.step i c) = some t → t.sessions i = some y → Overrides y id →
      statusOf s.world.jobs id = some .running ∧
      ∀ j z, s.sessions j = some z → ¬ Handles z id
  | _ => True

variable {platform : Platform} {s t : Ops} {w : OpsWorld} {i j : Nat} {x y : JobSession}
  {id : Uuid} {op : JobOp} {k : op.Resp → JobProg Reply} {r : op.Resp}

theorem handles_answered (halive : x.alive = true) (hprog : x.prog = .call op k)
    (hop : ∀ m, (⟨op, r⟩ : Call JobSig) ≠ ⟨.receive, m⟩) (h : Handles (x.answered op k r) id) :
    Handles x id := by
  obtain ⟨hrequest, -, m, ⟨rest, hlog⟩, hid⟩ := h
  refine ⟨hrequest, by rw [Session.active, halive, hprog]; rfl, m, ?_, hid⟩
  have hlog : x.log ++ [⟨op, r⟩] = ⟨.receive, m⟩ :: rest := hlog
  cases hl : x.log with
  | nil =>
    rw [hl] at hlog
    exact absurd (List.cons_eq_cons.mp hlog).1 (hop m)
  | cons call calls =>
    rw [hl] at hlog
    obtain ⟨rfl, -⟩ := List.cons_eq_cons.mp hlog
    exact ⟨calls, rfl⟩

theorem not_handles_of_retry (h : Overrides x id) (id' : Uuid) : ¬ Handles x id' := by
  rintro ⟨hrequest, -⟩
  obtain ⟨-, ⟨job, hjob⟩, -⟩ := h
  rw [hrequest] at hjob
  cases hjob

/-- No two sessions write the status of a job, and nobody that of a finished one. -/
structure Undivided (s : Ops) : Prop where
  unfinished : ∀ i x id, s.sessions i = some x → Handles x id →
    ∀ status, statusOf s.world.jobs id = some status → status.terminal = false
  alone : ∀ i j x y id, s.sessions i = some x → s.sessions j = some y → Handles x id →
    Handles y id → i = j
  apart : ∀ i j x y id, s.sessions i = some x → s.sessions j = some y → Handles x id →
    ¬ Overrides y id
  stale : ∀ i x id, s.sessions i = some x → Overrides x id →
    statusOf s.world.jobs id = some .running ∨ statusOf s.world.jobs id = some .cancelled

theorem undivided_idle (w : OpsWorld) : Undivided (Sessions.idle w) :=
  ⟨nofun, nofun, nofun, nofun⟩

theorem Undivided.set (h : Undivided s)
    (hmine : ∀ id, Handles x id →
      (∀ status, statusOf w.jobs id = some status → status.terminal = false) ∧
      ∀ j y, j ≠ i → s.sessions j = some y → ¬ Handles y id ∧ ¬ Overrides y id)
    (hoverride : ∀ id, Overrides x id →
      (statusOf w.jobs id = some .running ∨ statusOf w.jobs id = some .cancelled) ∧
      ∀ j y, j ≠ i → s.sessions j = some y → ¬ Handles y id)
    (hothers : ∀ id j y, j ≠ i → s.sessions j = some y → Handles y id →
      ∀ status, statusOf w.jobs id = some status → status.terminal = false)
    (hoverrides : ∀ id j y, j ≠ i → s.sessions j = some y → Overrides y id →
      statusOf w.jobs id = some .running ∨ statusOf w.jobs id = some .cancelled) :
    Undivided (s.set w i x) := by
  refine ⟨fun j y id hy hhandles => ?_, fun j l y z id hy hz hhandles hhandles' => ?_,
    fun j l y z id hy hz hhandles hover => ?_, fun j y id hy hover => ?_⟩
  · rcases Sessions.set_sessions hy with ⟨rfl, rfl⟩ | ⟨hj, hy⟩
    · exact (hmine id hhandles).1
    · exact hothers id j y hj hy hhandles
  · rcases Sessions.set_sessions hy with ⟨rfl, rfl⟩ | ⟨hj, hsy⟩ <;>
      rcases Sessions.set_sessions hz with ⟨rfl, rfl⟩ | ⟨hl, hsz⟩
    · rfl
    · exact absurd hhandles' ((hmine id hhandles).2 l z hl hsz).1
    · exact absurd hhandles ((hmine id hhandles').2 j y hj hsy).1
    · exact h.alone j l y z id hsy hsz hhandles hhandles'
  · rcases Sessions.set_sessions hy with ⟨rfl, rfl⟩ | ⟨hj, hsy⟩ <;>
      rcases Sessions.set_sessions hz with ⟨rfl, rfl⟩ | ⟨hl, hsz⟩
    · exact absurd hhandles (not_handles_of_retry hover id)
    · exact ((hmine id hhandles).2 l z hl hsz).2 hover
    · exact absurd hhandles ((hoverride id hover).2 j y hj hsy)
    · exact h.apart j l y z id hsy hsz hhandles hover
  · rcases Sessions.set_sessions hy with ⟨rfl, rfl⟩ | ⟨hj, hy⟩
    · exact (hoverride id hover).1
    · exact hoverrides id j y hj hy hover

/-- Statuses stay, except that a new job appears with one that is not final. -/
structure Grows (jobs jobs' : List RawPayloadMigrationJob) : Prop where
  stays : ∀ id status, statusOf jobs id = some status → statusOf jobs' id = some status
  fresh : ∀ id status, statusOf jobs id = none → statusOf jobs' id = some status →
    status.terminal = false

theorem Grows.refl (jobs : List RawPayloadMigrationJob) : Grows jobs jobs :=
  ⟨fun _ _ h => h, fun _ _ hnone h => by rw [hnone] at h; cases h⟩

theorem Grows.of_fixed {jobs jobs' : List RawPayloadMigrationJob}
    (hfixed : jobs'.map RawPayloadMigrationJob.fixed = jobs.map RawPayloadMigrationJob.fixed) :
    Grows jobs jobs' := by
  refine ⟨fun id status h => ?_, fun id status hnone h => ?_⟩
  · rw [statusOf_fixed hfixed, h]
  · rw [statusOf_fixed hfixed, hnone] at h
    cases h

theorem Grows.append {jobs : List RawPayloadMigrationJob} {job : RawPayloadMigrationJob}
    (hfresh : job.id ∉ jobs.map RawPayloadMigrationJob.id) (hpending : job.status = .pending) :
    Grows jobs (jobs ++ [job]) := by
  have hnone : statusOf jobs job.id = none := by rw [statusOf, findJob_none.mpr hfresh]; rfl
  refine ⟨fun id status h => ?_, fun id status hid h => ?_⟩
  · rw [statusOf_append hfresh, if_neg, h]
    rintro rfl
    rw [hnone] at h
    cases h
  · rw [statusOf_append hfresh] at h
    split_ifs at h
    · rw [hpending] at h
      cases h
      rfl
    · rw [hid] at h
      cases h

theorem Grows.unfinished {jobs jobs' : List RawPayloadMigrationJob} (h : Grows jobs jobs')
    (hid : ∀ status, statusOf jobs id = some status → status.terminal = false) :
    ∀ status, statusOf jobs' id = some status → status.terminal = false := by
  intro status hstatus
  cases hjobs : statusOf jobs id with
  | none => exact h.fresh id status hjobs hstatus
  | some status' =>
    rw [h.stays id status' hjobs] at hstatus
    cases hstatus
    exact hid status hjobs

theorem Undivided.grows (h : Undivided s) (hx : s.sessions i = some x)
    (hgrows : Grows s.world.jobs w.jobs) (hhandles : ∀ id, Handles y id → Handles x id)
    (hoverride : ∀ id, Overrides y id → statusOf s.world.jobs id = some .running ∧
      ∀ j z, s.sessions j = some z → ¬ Handles z id) : Undivided (s.set w i y) := by
  refine h.set (fun id hy => ⟨hgrows.unfinished (h.unfinished i x id hx (hhandles id hy)),
    fun j z hj hz => ⟨fun hhandles' => ?_, h.apart i j x z id hx hz (hhandles id hy)⟩⟩)
    (fun id hy => ⟨.inl (hgrows.stays _ _ (hoverride id hy).1), fun j z _ hz =>
      (hoverride id hy).2 j z hz⟩)
    (fun id j z _ hz hhandles' => hgrows.unfinished (h.unfinished j z id hz hhandles'))
    fun id j z _ hz hover => ?_
  · exact hj (h.alone j i z x id hz hx hhandles' (hhandles id hy))
  · exact (h.stale j z id hz hover).imp (hgrows.stays _ _) (hgrows.stays _ _)

def Final (s t : Ops) : Prop :=
  ∀ id status, statusOf s.world.jobs id = some status → status.terminal = true →
    statusOf t.world.jobs id = some status

theorem Grows.final {s t : Ops} (h : Grows s.world.jobs t.world.jobs) : Final s t :=
  fun id status hstatus _ => h.stays id status hstatus

theorem Ops.Conform.rule (h : s.Conform) (hx : s.sessions i = some x) (hprog : x.prog = .call op k) :
    Rule x.request x.log op := by
  have halong := (h i x hx).1
  rw [hprog] at halong
  exact halong.1

/-- After the save of a final status the worker makes no more calls. -/
theorem Ops.Conform.ended {fields : StatusFields} {copy : RawPayloadMigrationJob}
    {r : Except Exc Unit} (h : s.Conform) (hx : s.sessions i = some x) (hwork : x.request = .work)
    (hmem : (⟨.saveStatus fields copy, r⟩ : Call JobSig) ∈ x.log) (hfields : fields ≠ .started) :
    x.active = false := by
  cases hprog : x.prog with
  | ret a => simp [Session.active, hprog, Prog.pending]
  | raise e => simp [Session.active, hprog, Prog.pending]
  | call op k => exact absurd ((h.rule hx hprog).1 hwork fields copy r hmem) hfields

section Save

variable {fields : StatusFields} {copy row : RawPayloadMigrationJob} {now : Nat} {m : JobMessage}

theorem Undivided.workerSave (h : Undivided s) (hx : s.sessions i = some x)
    (hhandles : Handles x copy.id) (hrow : findJob s.world.jobs copy.id = some row)
    (hw : w.jobs = updateJob copy.id now (fields.write copy) s.world.jobs)
    (hy : ∀ id, Handles y id → id = copy.id ∧ copy.status.terminal = false)
    (hwork : y.request = .work) : Undivided (s.set w i y) := by
  have hstatus : ∀ id, statusOf w.jobs id =
      if id = copy.id then some copy.status else statusOf s.world.jobs id := fun id => by
    rw [hw]
    exact statusOf_saveStatus hrow
  refine h.set (fun id hid => ?_) (fun id hover => ?_) (fun id j z hj hz hid => ?_)
    fun id j z hj hz hover => ?_
  · obtain ⟨rfl, hterminal⟩ := hy id hid
    refine ⟨fun status hfound => ?_, fun j z hj hz => ⟨fun hid' => ?_,
      h.apart i j x z _ hx hz hhandles⟩⟩
    · rw [hstatus, if_pos rfl] at hfound
      cases hfound
      exact hterminal
    · exact hj (h.alone j i z x _ hz hx hid' hhandles)
  · obtain ⟨-, ⟨job, hrequest⟩, -⟩ := hover
    rw [hwork] at hrequest
    cases hrequest
  · have hne : id ≠ copy.id := by
      rintro rfl
      exact hj (h.alone j i z x _ hz hx hid hhandles)
    rw [hstatus, if_neg hne]
    exact h.unfinished j z id hz hid
  · have hne : id ≠ copy.id := by
      rintro rfl
      exact h.apart i j x z _ hx hz hhandles hover
    rw [hstatus, if_neg hne]
    exact h.stale j z id hz hover

theorem Undivided.retrySave (h : Undivided s) (hx : s.sessions i = some x)
    (hover : Overrides x copy.id) (hcancelled : copy.status = .cancelled)
    (hrow : findJob s.world.jobs copy.id = some row)
    (hw : w.jobs = updateJob copy.id now (fields.write copy) s.world.jobs)
    (hwork : y.request ≠ .work)
    (hoverride : ∀ id, Overrides y id → statusOf s.world.jobs id = some .running ∧
      ∀ j z, s.sessions j = some z → ¬ Handles z id) : Undivided (s.set w i y) := by
  have hstatus : ∀ id, statusOf w.jobs id =
      if id = copy.id then some .cancelled else statusOf s.world.jobs id := fun id => by
    rw [hw, ← hcancelled]
    exact statusOf_saveStatus hrow
  have hstale : ∀ id, (statusOf s.world.jobs id = some .running ∨
      statusOf s.world.jobs id = some .cancelled) →
      statusOf w.jobs id = some .running ∨ statusOf w.jobs id = some .cancelled := by
    intro id hid
    rw [hstatus]
    split_ifs
    · exact .inr rfl
    · exact hid
  refine h.set (fun id hid => absurd hid.1 hwork) (fun id hover' => ?_)
    (fun id j z hj hz hid => ?_) fun id j z hj hz hover' => hstale id (h.stale j z id hz hover')
  · obtain ⟨hrunning, hnone⟩ := hoverride id hover'
    exact ⟨hstale id (.inl hrunning), fun j z _ hz => hnone j z hz⟩
  · have hne : id ≠ copy.id := by
      rintro rfl
      exact h.apart j i z x _ hz hx hid hover
    rw [hstatus, if_neg hne]
    exact h.unfinished j z id hz hid

end Save

/-! The step of a session, call by call. -/

section Step

variable {c : OpsAnswer}

/-- The facts that the condition gives about a call and its answer. -/
structure Answering (platform : Platform) (s : Ops) (i : Nat) (c : OpsAnswer) (x : JobSession)
    (op : JobOp) (k : op.Resp → JobProg Reply) (r : op.Resp) (w : OpsWorld) : Prop where
  session : s.sessions i = some x
  alive : x.alive = true
  prog : x.prog = .call op k
  exec : execJobs op c s.world = some (r, w)
  before : s.Conform
  after : Ops.Conform (s.set w i (x.answered op k r))
  undivided : Undivided s
  override : ∀ id, Overrides (x.answered op k r) id →
    statusOf s.world.jobs id = some .running ∧ ∀ j z, s.sessions j = some z → ¬ Handles z id

theorem Answering.active (h : Answering platform s i c x op k r w) : x.active = true := by
  rw [Session.active, h.alive, h.prog]
  rfl

theorem Answering.rule (h : Answering platform s i c x op k r w) : Rule x.request x.log op :=
  h.before.rule h.session h.prog

theorem Answering.grows (h : Answering platform s i c x op k r w)
    (hop : ∀ m, (⟨op, r⟩ : Call JobSig) ≠ ⟨.receive, m⟩) (hgrows : Grows s.world.jobs w.jobs) :
    Undivided (s.set w i (x.answered op k r)) ∧ Final s (s.set w i (x.answered op k r)) :=
  ⟨h.undivided.grows h.session hgrows (fun _ => handles_answered h.alive h.prog hop) h.override,
    Grows.final hgrows⟩

theorem Answering.receive {k : JobMessage → JobProg Reply} {m : JobMessage}
    (h : Answering platform s i c x .receive k m w)
    (hdelivered : ∀ m, delivers c s.world = some m →
      (∀ status, statusOf s.world.jobs m.job = some status → status.terminal = false) ∧
      ∀ j y, s.sessions j = some y → ¬ Handles y m.job ∧ ¬ Overrides y m.job) :
    Undivided (s.set w i (x.answered .receive k m)) ∧
      Final s (s.set w i (x.answered .receive k m)) := by
  obtain ⟨-, hwork, hlog⟩ := h.rule
  obtain ⟨hm, hjobs⟩ : delivers c s.world = some m ∧ w.jobs = s.world.jobs := by
    rcases execJobs_receive h.exec with ⟨n, rfl, hm, rfl⟩ | ⟨n, rfl, hm, rfl⟩ <;> exact ⟨hm, rfl⟩
  obtain ⟨hunfinished, hnobody⟩ := hdelivered m hm
  have hjob : ∀ id, Handles (x.answered .receive k m) id → id = m.job := by
    rintro id ⟨-, -, m', hreceived, rfl⟩
    have hfirst : Received (x.answered .receive k m).log m := ⟨[], by
      show x.log ++ _ = _
      rw [hlog]
      rfl⟩
    rw [hfirst.inj hreceived]
  refine ⟨h.undivided.set (fun id hid => ?_) (fun id hover => ?_) (fun id j z _ hz hid => ?_)
    fun id j z _ hz hover => ?_, Grows.final (hjobs ▸ Grows.refl _)⟩
  · obtain rfl := hjob id hid
    exact ⟨by rwa [hjobs], fun j z _ hz => hnobody j z hz⟩
  · obtain ⟨-, ⟨job, hrequest⟩, -⟩ := hover
    have hrequest : x.request = .retry job := hrequest
    rw [hwork] at hrequest
    cases hrequest
  · rw [hjobs]
    exact h.undivided.unfinished j z id hz hid
  · rw [hjobs]
    exact h.undivided.stale j z id hz hover

theorem Answering.workerSave {fields : StatusFields} {copy : RawPayloadMigrationJob}
    {k : Except Exc Unit → JobProg Reply} {r : Except Exc Unit} {m : JobMessage}
    (h : Answering platform s i c x (.saveStatus fields copy) k r w) (hwork : x.request = .work)
    (hm : Received x.log m) (hid : copy.id = m.job)
    (hcopy : (fields = .started ∧ copy.status = .running) ∨ fields ≠ .started) :
    Undivided (s.set w i (x.answered (.saveStatus fields copy) k r)) ∧
      Final s (s.set w i (x.answered (.saveStatus fields copy) k r)) := by
  have hhandles : Handles x copy.id := ⟨hwork, h.active, m, hm, hid.symm⟩
  rcases execJobs_saveStatus h.exec with ⟨-, rfl⟩ | ⟨row, now, -, hrow, -, hw⟩
  · exact h.grows (fun m heq => by cases heq) (Grows.refl _)
  · have hjobs : w.jobs = updateJob copy.id now (fields.write copy) s.world.jobs := by rw [hw]
    refine ⟨h.undivided.workerSave h.session hhandles hrow hjobs (fun id hy => ?_) hwork, ?_⟩
    · obtain ⟨-, hactive, m', hm', rfl⟩ := hy
      refine ⟨by rw [hid, (hm.append _).inj hm'], ?_⟩
      rcases hcopy with ⟨-, hrunning⟩ | hfields
      · rw [hrunning]
        rfl
      · rw [h.after.ended Sessions.set_self hwork (List.mem_append_right _ (List.mem_singleton.mpr rfl))
          hfields] at hactive
        cases hactive
    · intro id status hstatus hterminal
      have hne : id ≠ copy.id := by
        rintro rfl
        rw [h.undivided.unfinished i x _ h.session hhandles status hstatus] at hterminal
        cases hterminal
      rw [Sessions.set_world, hjobs, statusOf_saveStatus hrow, if_neg hne, hstatus]

theorem Answering.retrySave {fields : StatusFields} {copy : RawPayloadMigrationJob}
    {k : Except Exc Unit → JobProg Reply} {r : Except Exc Unit} {job : Uuid}
    (h : Answering platform s i c x (.saveStatus fields copy) k r w) (hretry : x.request = .retry job)
    (hfields : fields = .failure) (hcancelled : copy.status = .cancelled) :
    Undivided (s.set w i (x.answered (.saveStatus fields copy) k r)) ∧
      Final s (s.set w i (x.answered (.saveStatus fields copy) k r)) := by
  subst hfields
  have hover : Overrides x copy.id := ⟨h.alive, ⟨job, hretry⟩, copy, k, h.prog, rfl⟩
  rcases execJobs_saveStatus h.exec with ⟨-, rfl⟩ | ⟨row, now, -, hrow, -, hw⟩
  · exact h.grows (fun m heq => by cases heq) (Grows.refl _)
  · have hjobs : w.jobs = updateJob copy.id now (StatusFields.failure.write copy) s.world.jobs := by
      rw [hw]
    refine ⟨h.undivided.retrySave h.session hover hcancelled hrow hjobs
      (fun hwork => ?_) h.override, ?_⟩
    · have hwork : x.request = .work := hwork
      rw [hretry] at hwork
      cases hwork
    · intro id status hstatus hterminal
      rw [Sessions.set_world, hjobs, statusOf_saveStatus hrow]
      split_ifs with hid
      · subst hid
        rcases h.undivided.stale i x _ h.session hover with hrunning | hstays
        · rw [hrunning] at hstatus
          cases hstatus
          cases hterminal
        · rw [hcancelled, ← hstatus, hstays]
      · exact hstatus

end Step

theorem not_overrides_program (request : JobRequest) (id : Uuid) :
    ¬ Overrides { request, prog := request.program platform } id := by
  rintro ⟨-, -, copy, k, hprog, -⟩
  cases request <;> cases hprog

theorem not_handles_nil (request : JobRequest) (p : JobProg Reply) (id : Uuid) :
    ¬ Handles { request, prog := p } id := by
  rintro ⟨-, -, m, ⟨rest, hlog⟩, -⟩
  cases hlog

theorem Undivided.next {e : OpsEvent} (h : Undivided s) (hconform : s.Conform)
    (hok : Exclusive platform s e) (he : s.next platform e = some t) :
    Undivided t ∧ Final s t := by
  have hafter : t.Conform := hconform.next he
  rcases Sessions.next_cases he with ⟨i, request, rfl, hi, rfl⟩ |
    ⟨i, c, x, op, k, r, w, rfl, hx, halive, hprog, hexec, rfl⟩ | ⟨i, x, rfl, hx, rfl⟩
  · refine ⟨h.set (fun id hid => absurd hid (not_handles_nil _ _ id))
      (fun id hover => absurd hover (not_overrides_program request id))
      (fun id j y _ hy hid => h.unfinished j y id hy hid)
      fun id j y _ hy hover => h.stale j y id hy hover, Grows.final (Grows.refl _)⟩
  · have hcall : Answering platform s i c x op k r w := {
      session := hx
      alive := halive
      prog := hprog
      exec := hexec
      before := hconform
      after := hafter
      undivided := h
      override := fun id hover => hok.2 _ _ id he Sessions.set_self hover }
    cases hop : op.keeps with
    | true =>
      refine hcall.grows (fun m heq => ?_) (Grows.of_fixed (execJobs_keeps hop hexec).2.2)
      cases heq
      cases hop
    | false =>
      cases op with
      | createJob organization dryRun =>
        refine hcall.grows (fun m heq => by cases heq) ?_
        rcases execJobs_createJob hexec with ⟨-, rfl⟩ | ⟨job, -, -, hpending, hfresh, -, rfl⟩
        · exact Grows.refl _
        · exact Grows.append hfresh hpending
      | saveStatus fields copy =>
        rcases hcall.rule.2 with ⟨hwork, m, hm, hid, hcopy⟩ | ⟨job, hretry, hfields, hcancelled⟩
        · exact hcall.workerSave hwork hm hid (hcopy.imp id And.left)
        · exact hcall.retrySave hretry hfields hcancelled
      | delay job =>
        refine hcall.grows (fun m heq => by cases heq) ?_
        rcases execJobs_delay hexec with ⟨-, rfl⟩ | ⟨task, -, rfl⟩ <;> exact Grows.refl _
      | receive => exact hcall.receive fun m hm => hok.1 x k m hx hprog hm
      | _ => cases hop
  · have hdead : ∀ id, ¬ Handles { x with alive := false } id := fun id hid => by
      obtain ⟨-, hactive, -⟩ := hid
      cases hactive
    refine ⟨h.set (fun id hid => absurd hid (hdead id))
      (fun id hover => by cases hover.1) (fun id j y _ hy hid => h.unfinished j y id hy hid)
      fun id j y _ hy hover => h.stale j y id hy hover, Grows.final (Grows.refl _)⟩

/-- Where nobody writes the status of a job that another session is still going to write, a
finished job stays finished. -/
theorem terminal_job_final (platform : Platform) {w : OpsWorld} {s t : Ops}
    (hs : Reaches (Ops.next platform) (Exclusive platform) (Sessions.idle w) s)
    (ht : Reaches (Ops.next platform) (Exclusive platform) s t) {id : Uuid} {status : JobStatus}
    (hstatus : statusOf s.world.jobs id = some status) (hterminal : status.terminal = true) :
    statusOf t.world.jobs id = some status := by
  have hstep : ∀ (u : Ops) e v, u.Conform ∧ Undivided u → Exclusive platform u e →
      u.next platform e = some v → (v.Conform ∧ Undivided v) ∧ Final u v := by
    intro u e v hu hok he
    obtain ⟨hundivided, hfinal⟩ := hu.2.next hu.1 hok he
    exact ⟨⟨hu.1.next he, hundivided⟩, hfinal⟩
  have hidle : Ops.Conform (Sessions.idle w) ∧ Undivided (Sessions.idle w) :=
    ⟨Sessions.conform_idle w, undivided_idle w⟩
  have hinv := hs.invariant (I := fun u : Ops => u.Conform ∧ Undivided u) hidle
    fun u e v hu hok he => (hstep u e v hu hok he).1
  obtain ⟨-, hfinal⟩ := ht.relates (R := Final) (fun _ _ _ h _ => h)
    (fun _ _ _ h h' id status hid hfinal => h' id status (h id status hid hfinal) hfinal) hinv hstep
  exact hfinal id status hstatus hterminal

def smallPlatform : Platform where
  bucket := smallBucket
  loads := fun _ => .error "not JSON"
  redact := fun message => message

def acme : OrganizationRow := ⟨1, "Acme", "acme".toList⟩

def smallOps (jobs : List RawPayloadMigrationJob) (queue : List JobMessage) : OpsWorld :=
  { organizations := [acme], tenantUuids := fun _ => ⟨9⟩, jobs, queue }

def atWorkOn (id : Uuid) (x : JobSession) : Bool :=
  x.active && match x.log with
    | ⟨.receive, m⟩ :: _ => m.job = id
    | _ => false

theorem atWorkOn_of_handles (h : Handles x id) : atWorkOn id x = true := by
  obtain ⟨-, hactive, m, ⟨rest, hlog⟩, hid⟩ := h
  simp [atWorkOn, hactive, hlog, hid]

def JobRequest.retries : JobRequest → Bool
  | .retry _ => true
  | _ => false

/-- Nobody retries, and a message is delivered while its job is unfinished and no session
below `n` has it. -/
def orderly (n : Nat) (s : Ops) : OpsEvent → Bool
  | .start i request => i < n && !request.retries
  | .step i c =>
    match s.sessions i, delivers c s.world with
    | some ⟨_, .call .receive _, _, _⟩, some m =>
      !(statusOf s.world.jobs m.job).any JobStatus.terminal &&
        (List.range n).all fun j => !(s.sessions j).any (atWorkOn m.job)
    | _, _ => true
  | .die _ => true

def Unretried (n : Nat) (s : Ops) : Prop :=
  ∀ i x, s.sessions i = some x → i < n ∧ x.request.retries = false

theorem Unretried.next {n : Nat} {e : OpsEvent} (h : Unretried n s) (hok : orderly n s e = true)
    (he : s.next platform e = some t) : Unretried n t := by
  intro j y hy
  rcases Sessions.next_cases he with ⟨i, request, rfl, -, rfl⟩ |
    ⟨i, c, x, op, k, r, w, rfl, hx, -, -, -, rfl⟩ | ⟨i, x, rfl, hx, rfl⟩
  · rcases Sessions.set_sessions hy with ⟨rfl, rfl⟩ | ⟨-, hy⟩
    · simpa [orderly] using hok
    · exact h j y hy
  · rcases Sessions.set_sessions hy with ⟨rfl, rfl⟩ | ⟨-, hy⟩
    · exact h j x hx
    · exact h j y hy
  · rcases Sessions.set_sessions hy with ⟨rfl, rfl⟩ | ⟨-, hy⟩
    · exact h j x hx
    · exact h j y hy

theorem Unretried.not_overrides {n : Nat} (h : Unretried n s) (hx : s.sessions i = some x) :
    ¬ Overrides x id := by
  rintro ⟨-, ⟨job, hretry⟩, -⟩
  have hnone := (h i x hx).2
  rw [hretry] at hnone
  cases hnone

theorem exclusive_of_orderly {n : Nat} {e : OpsEvent} (h : Unretried n s)
    (hok : orderly n s e = true) : Exclusive platform s e := by
  cases e with
  | start i request => trivial
  | die i => trivial
  | step i c =>
    refine ⟨fun x k m hx hprog hm => ?_, fun t y id ht hy hover => ?_⟩
    · obtain ⟨request, prog, log, alive⟩ := x
      obtain rfl : prog = .call .receive k := hprog
      simp only [orderly, hx, hm, Bool.and_eq_true, Bool.not_eq_true', List.all_eq_true,
        List.mem_range, Option.any_eq_false] at hok
      refine ⟨fun status hstatus => ?_, fun j y hy => ⟨fun hhandles => ?_, h.not_overrides hy⟩⟩
      · simpa using hok.1 status hstatus
      · have hfree := hok.2 j (h j y hy).1 y hy
        rw [atWorkOn_of_handles hhandles] at hfree
        cases hfree
    · exact absurd hover ((h.next hok ht).not_overrides hy)

theorem Unretried.exclusive {n : Nat} (h : Unretried n s)
    (hrun : Reaches (Ops.next platform) (fun u e => orderly n u e = true) s t) :
    Unretried n t ∧ Reaches (Ops.next platform) (Exclusive platform) s t := by
  have hkept : ∀ (u : Ops) e v, Unretried n u → orderly n u e = true →
      u.next platform e = some v → Unretried n v := fun _ _ _ hu => hu.next
  exact ⟨hrun.invariant h hkept, hrun.restrict h hkept fun _ _ hu => exclusive_of_orderly hu⟩

/-- A job that nobody has begun, and its message. -/
def queuedJob : OpsWorld :=
  smallOps [{ id := ⟨1⟩, organization := acme, dryRun := false }] [⟨⟨1⟩, ⟨5⟩⟩]

/-- A worker executes the first job to its end. -/
def workedOff : List OpsEvent :=
  [.start 0 .work, .step 0 (.message 0), .step 0 (.clock 0), .step 0 (.clock 0),
    .step 0 (.clock 0), .step 0 (.raw (.tenant (.ok ⟨9⟩))), .step 0 (.raw (.done ⟨0⟩)),
    .step 0 (.clock 1), .step 0 (.clock 1), .step 0 (.clock 1), .step 0 (.clock 1),
    .step 0 (.clock 1)]

/-- An operator starts another job, and a second worker begins to execute it. -/
def startedNext : List OpsEvent :=
  [.start 1 (.start 1 false), .step 1 (.clock 2), .step 1 (.clock 2), .step 1 (.clock 2),
    .step 1 (.fresh ⟨2⟩ 2), .step 1 (.clock 2), .step 1 (.fresh ⟨6⟩ 2), .start 2 .work,
    .step 2 (.message 0), .step 2 (.clock 3), .step 2 (.clock 3), .step 2 (.clock 3)]

theorem terminal_job_final_succeeded : ∃ s t : Ops,
    Reaches (Ops.next smallPlatform) (Exclusive smallPlatform) (Sessions.idle queuedJob) s ∧
    Reaches (Ops.next smallPlatform) (Exclusive smallPlatform) s t ∧
    statusOf s.world.jobs ⟨1⟩ = some .succeeded ∧ statusOf t.world.jobs ⟨1⟩ = some .succeeded ∧
    statusOf t.world.jobs ⟨2⟩ = some .running := by
  have hfinal : ((replay (Ops.next smallPlatform) (fun s e => orderly 3 s e = true)
      (Sessions.idle queuedJob) workedOff).bind fun s =>
        (replay (Ops.next smallPlatform) (fun s e => orderly 3 s e = true) s startedNext).map
          fun t => (statusOf s.world.jobs ⟨1⟩, statusOf t.world.jobs ⟨2⟩)) =
      some (some .succeeded, some .running) := by
    decide +kernel
  obtain ⟨s, hs, hrest⟩ := Option.bind_eq_some_iff.mp hfinal
  obtain ⟨t, ht, hstatuses⟩ := Option.map_eq_some_iff.mp hrest
  obtain ⟨hsucceeded, hrunning⟩ := Prod.mk.injEq _ _ _ _ ▸ hstatuses
  have hidle : Unretried 3 (Sessions.idle queuedJob) := by
    intro i x hx
    cases hx
  obtain ⟨hunretried, hreach⟩ := hidle.exclusive (Reaches.of_replay _ hs)
  obtain ⟨-, hafter⟩ := hunretried.exclusive (Reaches.of_replay _ ht)
  exact ⟨s, t, hreach, hafter, hsucceeded,
    terminal_job_final smallPlatform hreach hafter hsucceeded rfl, hrunning⟩

/-- A worker saves RUNNING and pauses; a retry finds its job stale and cancels it. -/
def overridden : List OpsEvent :=
  [.start 0 .work, .step 0 (.message 0), .step 0 (.clock 0), .step 0 (.clock 0),
    .step 0 (.clock 0), .start 1 (.retry ⟨1⟩), .step 1 (.clock 1000), .step 1 (.clock 1000),
    .step 1 (.clock 1000), .step 1 (.clock 1000)]

def workerEnds : List OpsEvent :=
  [.step 0 (.raw (.tenant (.ok ⟨9⟩))), .step 0 (.raw (.done ⟨0⟩)), .step 0 (.clock 1001),
    .step 0 (.clock 1001), .step 0 (.clock 1001), .step 0 (.clock 1001), .step 0 (.clock 1001)]

theorem cancelled_job_succeeds : ¬ ∀ (platform : Platform) (w : OpsWorld) (s t : Ops)
    (id : Uuid) (status : JobStatus),
    Reaches (Ops.next platform) (fun _ _ => True) (Sessions.idle w) s →
    Reaches (Ops.next platform) (fun _ _ => True) s t →
    statusOf s.world.jobs id = some status → status.terminal = true →
    statusOf t.world.jobs id = some status := by
  intro hclaim
  have hfinal : ((replay (Ops.next smallPlatform) (fun _ _ => True) (Sessions.idle queuedJob)
      overridden).bind fun s =>
        (replay (Ops.next smallPlatform) (fun _ _ => True) s workerEnds).map
          fun t => (statusOf s.world.jobs ⟨1⟩, statusOf t.world.jobs ⟨1⟩)) =
      some (some .cancelled, some .succeeded) := by
    decide +kernel
  obtain ⟨s, hs, hrest⟩ := Option.bind_eq_some_iff.mp hfinal
  obtain ⟨t, ht, hstatuses⟩ := Option.map_eq_some_iff.mp hrest
  obtain ⟨hcancelled, hsucceeded⟩ := Prod.mk.injEq _ _ _ _ ▸ hstatuses
  have hstill := hclaim smallPlatform _ s t ⟨1⟩ .cancelled (Reaches.of_replay _ hs)
    (Reaches.of_replay _ ht) hcancelled rfl
  rw [hsucceeded] at hstill
  cases hstill

end DataLake
