import DataLake.AuditTrail

/-! What the stored rows of migration jobs say, whatever is requested, delivered twice or
superseded: a row is as it was created, or it tells when its announced job was started and how it
ended. -/

namespace DataLake

open Foundation

variable (platform : Platform)

/-- The messages that end up in a row. -/
def Worded (message : Option String) : Prop :=
  ∀ text ∈ message, text = supersededMessage ∨ ∃ raw, text = sanitizeErrorMessage platform raw

structure JobCoherent (w : OpsWorld) (row : RawPayloadMigrationJob) : Prop where
  pending : row.status = .pending → row.startedAt = none ∧ row.celeryTaskId = none ∧
    row.finishedAt = none ∧ row.errorMessage = none ∧ row.result = {}
  started : row.status ≠ .pending →
    row.startedAt.isSome = true ∧ row.celeryTaskId.isSome = true ∧ Announced w row.id
  finished : row.status.terminal = true → row.finishedAt.isSome = true
  failed : row.status = .failed → row.errorMessage.isSome = true
  worded : Worded platform row.errorMessage

/-- A save writes a group of fields that agree: of a job that is known to be announced, or to
have been started. -/
def Orderly (started announced : Uuid → Prop) : JobOp → Prop
  | .saveStatus .started copy => copy.status = .running ∧ copy.startedAt.isSome = true ∧
    copy.celeryTaskId.isSome = true ∧ announced copy.id
  | .saveStatus .failure copy => copy.status.terminal = true ∧ copy.finishedAt.isSome = true ∧
    copy.errorMessage.isSome = true ∧ Worded platform copy.errorMessage ∧ started copy.id
  | .saveStatus .finished copy => copy.status.terminal = true ∧ copy.status ≠ .failed ∧
    copy.finishedAt.isSome = true ∧ started copy.id
  | .saveResult id _ => started id
  | _ => True

/-- A session was told that the job is not pending, or has started it. -/
def Seen (l : JobLog) (id : Uuid) : Prop :=
  (∃ row, Told l row ∧ row.id = id ∧ row.status ≠ .pending) ∨
  ∃ copy, copy.id = id ∧ (⟨.saveStatus .started copy, .ok ()⟩ : Call JobSig) ∈ l

def HasMessage (l : JobLog) (id : Uuid) : Prop :=
  ∃ m, (⟨.receive, m⟩ : Call JobSig) ∈ l ∧ m.job = id

abbrev OrderlyCalls (l : JobLog) : JobOp → Prop := Orderly platform (Seen l) (HasMessage l)

variable {platform} {l : JobLog} {job row : RawPayloadMigrationJob} {id : Uuid}

theorem Orderly.mono {started announced started' announced' : Uuid → Prop} {op : JobOp}
    (h : Orderly platform started announced op) (hstarted : ∀ id, started id → started' id)
    (hannounced : ∀ id, announced id → announced' id) : Orderly platform started' announced' op := by
  cases op with
  | saveStatus fields copy =>
    cases fields with
    | started => exact ⟨h.1, h.2.1, h.2.2.1, hannounced _ h.2.2.2⟩
    | failure => exact ⟨h.1, h.2.1, h.2.2.1, h.2.2.2.1, hstarted _ h.2.2.2.2⟩
    | finished => exact ⟨h.1, h.2.1, h.2.2.1, hstarted _ h.2.2.2⟩
  | saveResult id result => exact hstarted _ h
  | _ => trivial

theorem Seen.append (h : Seen l id) (l' : JobLog) : Seen (l ++ l') id := by
  rcases h with ⟨row, htold, hid, hstatus⟩ | ⟨copy, hid, hmem⟩
  · exact .inl ⟨row, htold.append _, hid, hstatus⟩
  · exact .inr ⟨copy, hid, List.mem_append_left _ hmem⟩

/-! The views. -/

def JobOp.isUnsaving : JobOp → Bool
  | .saveStatus _ _ | .saveResult _ _ => false
  | _ => true

theorem orderly_unsaving {started announced : Uuid → Prop} {op : JobOp} (hop : op.isUnsaving = true) :
    Orderly platform started announced op := by
  cases op with
  | saveStatus fields copy => cases hop
  | saveResult id result => cases hop
  | _ => trivial

theorem unsaving_along {α : Type} {p : JobProg α}
    (hp : p.Issues fun op : JobOp => op.isUnsaving = true) :
    p.Along JobAnswered (OrderlyCalls platform) (fun _ _ => True) l :=
  hp.along (K := fun _ => True) trivial fun _ _ _ hop =>
    ⟨orderly_unsaving hop, fun _ _ => trivial⟩

theorem startOp_unsaving {op : JobOp} (h : startOp op) : op.isUnsaving = true := by
  cases op with
  | saveStatus fields copy => exact h.elim
  | saveResult id result => exact h.elim
  | _ => rfl

theorem cancelOp_unsaving {op : JobOp} (h : cancelOp op) : op.isUnsaving = true := by
  cases op with
  | saveStatus fields copy => exact h.elim
  | saveResult id result => exact h.elim
  | _ => rfl

theorem retryMigrationJob_orderly (htold : Told l job) :
    (retryMigrationJob job).Along JobAnswered (OrderlyCalls platform) (fun _ _ => True) l := by
  have hstart : ∀ l, (startMigrationJob job.organization job.dryRun).Along JobAnswered
      (OrderlyCalls platform) (fun _ _ => True) l := fun l =>
    unsaving_along ((startMigrationJob_startOp _ _).mono fun _ => startOp_unsaving)
  unfold retryMigrationJob
  split_ifs with hrunning
  · refine ⟨trivial, fun now _ => ?_⟩
    show (if !job.isStale now then _ else _ : JobProg _).Along JobAnswered _ _ _
    split_ifs
    · trivial
    · have hseen : Seen (l ++ [⟨.now, now⟩]) (superseded job).id :=
        .inl ⟨job, htold.append _, rfl, by simp [hrunning]⟩
      have hworded : Worded platform (superseded job).errorMessage := by
        intro text htext
        exact .inl (Option.some.inj htext).symm
      refine ⟨⟨rfl, rfl, rfl, hworded, hseen⟩, fun saved _ => ?_⟩
      cases saved with
      | error e => trivial
      | ok _ => exact hstart _
  · exact hstart _

theorem migrationJobRetry_orderly (id : Uuid) :
    (migrationJobRetry id).Along JobAnswered (OrderlyCalls platform) (fun _ _ => True) l := by
  refine ⟨trivial, fun found _ => ?_⟩
  cases found with
  | none => trivial
  | some job =>
    have htold : Told (l ++ [⟨.getJob id, some job⟩]) job := .inl ⟨id, by simp⟩
    refine ⟨trivial, fun role _ => ?_⟩
    cases role with
    | error e => trivial
    | ok _ =>
      refine (retryMigrationJob_orderly (htold.append _)).handle (fun l result _ => ?_)
        fun l e _ => unsaving_along ?_
      · refine unsaving_along ⟨rfl, fun _ => ⟨rfl, fun sent => ?_⟩⟩
        exact (Prog.issues_ofExcept _ sent).bind fun _ => trivial
      · cases e with
        | dataLake e =>
          dsimp only
          split_ifs <;> trivial
        | other message => trivial

/-! The task. -/

theorem migrationPass_orderly (job : RawPayloadMigrationJob) (h : Seen l job.id) :
    (migrationPass platform job).Along JobAnswered (OrderlyCalls platform)
      (fun l _ => Seen l job.id) l := by
  have hissues : (migrationPass platform job).Issues fun op : JobOp =>
      op.isUnsaving = true ∨ ∃ result, op = .saveResult job.id result := by
    refine Prog.Issues.embed ((Prog.issues_true _).mono fun op _ => ?_)
    cases op with
    | progressCallback result => exact .inr ⟨result, rfl⟩
    | _ => exact .inl rfl
  refine hissues.along h fun l op hl hop => ⟨?_, fun r _ => hl.append _⟩
  rcases hop with hop | ⟨result, rfl⟩
  · exact orderly_unsaving hop
  · exact hl

theorem failJob_orderly (job : RawPayloadMigrationJob) (h : Seen l job.id) (e : Exc) :
    (failJob platform job e).Along JobAnswered (OrderlyCalls platform) (fun _ _ => True) l := by
  refine ⟨trivial, fun now _ => ⟨⟨rfl, rfl, rfl, ?_, h.append _⟩, fun saved _ => ?_⟩⟩
  · intro text htext
    exact .inr ⟨e.text, (Option.some.inj htext).symm⟩
  · cases saved <;> trivial

theorem finalStatus_ended (cancelRequested dryRun : Bool) (result : MigrationInspectionResult) :
    (finalStatus cancelRequested dryRun result).terminal = true ∧
      finalStatus cancelRequested dryRun result ≠ .failed := by
  unfold finalStatus
  split_ifs <;> simp [JobStatus.terminal]

theorem finishJob_orderly (job : RawPayloadMigrationJob) (h : Seen l job.id)
    (result : MigrationInspectionResult) :
    (finishJob job result).Along JobAnswered (OrderlyCalls platform) (fun _ _ => True) l := by
  refine ⟨h, fun _ _ => ⟨trivial, fun cancelRequested _ => ⟨trivial, fun now _ => ?_⟩⟩⟩
  obtain ⟨hterminal, hfailed⟩ := finalStatus_ended cancelRequested job.dryRun result
  refine ⟨⟨hterminal, hfailed, rfl, ((h.append _).append _).append _⟩, fun saved _ => ?_⟩
  cases saved <;> trivial

theorem task_orderly {m : JobMessage} (hreceived : (⟨.receive, m⟩ : Call JobSig) ∈ l) :
    (runRawPayloadMigrationTask platform m.job m.task).Along JobAnswered (OrderlyCalls platform)
      (fun _ _ => True) l := by
  refine ⟨trivial, fun found hfound => ?_⟩
  cases found with
  | none => trivial
  | some job =>
    have hid : job.id = m.job := hfound job rfl
    refine ⟨trivial, fun now _ => ?_⟩
    have hmessage : HasMessage (l ++ [⟨.getJob m.job, some job⟩] ++ [⟨.now, now⟩])
        (startedJob job m.task now).id :=
      ⟨m, List.mem_append_left _ (List.mem_append_left _ hreceived), hid.symm⟩
    refine ⟨⟨rfl, rfl, rfl, hmessage⟩, fun saved _ => ?_⟩
    cases saved with
    | error e => trivial
    | ok _ =>
      refine (migrationPass_orderly (startedJob job m.task now) (.inr ⟨_, rfl, ?_⟩)).handle
        (fun l result hseen => finishJob_orderly _ hseen result) fun l e hseen =>
          failJob_orderly _ hseen e
      exact List.mem_concat_self

theorem program_orderly (platform : Platform) (request : JobRequest) :
    (request.program platform).Along JobAnswered (OrderlyCalls platform) (fun _ _ => True) [] := by
  cases request with
  | start orgId dryRun =>
    exact unsaving_along ((migrationStart_startOp orgId dryRun).mono fun _ => startOp_unsaving)
  | retry id => exact migrationJobRetry_orderly id
  | cancel id =>
    exact unsaving_along ((issues_migrationJobCancel id).mono fun _ => cancelOp_unsaving)
  | work =>
    refine ⟨trivial, fun m _ => (task_orderly ?_).handle (fun _ _ _ => trivial) fun _ _ _ => trivial⟩
    exact List.mem_concat_self

/-! The table. -/

variable {v w : OpsWorld} {c : OpsAnswer}

/-- The job has been started: its row is not pending. -/
def HasStarted (w : OpsWorld) (id : Uuid) : Prop :=
  ∃ row ∈ w.jobs, row.id = id ∧ row.status ≠ .pending

theorem TableOk.hasStarted (h : TableOk w.jobs) (hrow : row ∈ w.jobs)
    (hstarted : HasStarted w row.id) : row.status ≠ .pending := by
  obtain ⟨row', hrow', hid, hstatus⟩ := hstarted
  obtain rfl := List.inj_on_of_nodup_map h.ids hrow' hrow hid
  exact hstatus

theorem JobCoherent.later (h : JobCoherent platform v row) (hlater : Later v w) :
    JobCoherent platform w row where
  pending := h.pending
  started hstatus := by
    obtain ⟨hat, htask, hannounced⟩ := h.started hstatus
    exact ⟨hat, htask, hlater.announced hannounced⟩
  finished := h.finished
  failed := h.failed
  worded := h.worded

theorem terminal_ne_pending {status : JobStatus} (h : status.terminal = true) :
    status ≠ .pending := by
  rintro rfl
  cases h

/-- The save of the status of one job. -/
theorem JobCoherent.saveStatus {fields : StatusFields} {copy : RawPayloadMigrationJob} {now : Nat}
    (h : JobCoherent platform v row) (hid : row.id = copy.id)
    (hsave : Orderly platform (fun id => row.id = id → row.status ≠ .pending) (Announced v)
      (.saveStatus fields copy)) :
    JobCoherent platform v { fields.write copy row with updatedAt := now } := by
  cases fields with
  | started =>
    obtain ⟨hrunning, hat, htask, hannounced⟩ := hsave
    refine ⟨fun hpending => ?_, fun _ => ⟨hat, htask, ?_⟩, fun hterminal => ?_, fun hfailed => ?_,
      h.worded⟩
    · cases hrunning.symm.trans hpending
    · change Announced v row.id
      rwa [hid]
    · change copy.status.terminal = true at hterminal
      rw [hrunning] at hterminal
      cases hterminal
    · cases hrunning.symm.trans hfailed
  | failure =>
    obtain ⟨hterminal, hfinished, hmessage, hworded, hstarted⟩ := hsave
    exact ⟨fun hpending => absurd hpending (terminal_ne_pending hterminal),
      fun _ => h.started (hstarted hid), fun _ => hfinished, fun _ => hmessage, hworded⟩
  | finished =>
    obtain ⟨hterminal, hfailed, hfinished, hstarted⟩ := hsave
    exact ⟨fun hpending => absurd hpending (terminal_ne_pending hterminal),
      fun _ => h.started (hstarted hid), fun _ => hfinished, fun hstatus => absurd hstatus hfailed,
      h.worded⟩

theorem updateJob_coherent {now : Nat} {f : RawPayloadMigrationJob → RawPayloadMigrationJob}
    (hrows : ∀ row ∈ v.jobs, JobCoherent platform v row)
    (hf : ∀ row ∈ v.jobs, row.id = id → JobCoherent platform v { f row with updatedAt := now }) :
    ∀ row ∈ updateJob id now f v.jobs, JobCoherent platform v row := by
  intro row hrow
  obtain ⟨old, hold, rfl⟩ := List.mem_map.mp hrow
  unfold savedRow
  split_ifs with hid
  · exact hf old hold hid
  · exact hrows old hold

/-- An orderly call keeps the rows coherent. -/
theorem execJobs_coherent {op : JobOp} {r : op.Resp} (h : execJobs op c v = some (r, w))
    (htable : TableOk v.jobs) (hrows : ∀ row ∈ v.jobs, JobCoherent platform v row)
    (hop : Orderly platform (HasStarted v) (Announced v) op) :
    ∀ row ∈ w.jobs, JobCoherent platform w row := by
  have hlater := execJobs_later h
  suffices hold : ∀ row ∈ w.jobs, JobCoherent platform v row from
    fun row hrow => (hold row hrow).later hlater
  have hstarted : ∀ row ∈ v.jobs, ∀ id, HasStarted v id → row.id = id → row.status ≠ .pending := by
    rintro row hrow _ hid rfl
    exact htable.hasStarted hrow hid
  cases op with
  | createJob organization dryRun =>
    cases c with
    | fresh id now =>
      simp only [execJobs] at h
      split_ifs at h
      · cases h
        exact hrows
      · cases h
        intro row hrow
        rcases List.mem_append.mp hrow with hrow | hrow
        · exact hrows row hrow
        · obtain rfl := List.mem_singleton.mp hrow
          refine ⟨fun _ => ⟨rfl, rfl, rfl, rfl, rfl⟩, fun hstatus => absurd rfl hstatus, ?_, ?_, ?_⟩
          · intro hterminal
            cases hterminal
          · intro hfailed
            cases hfailed
          · intro text htext
            cases htext
    | _ => cases h
  | saveStatus fields copy =>
    rcases execJobs_saveStatus h with ⟨-, rfl⟩ | ⟨row, now, -, -, -, rfl⟩
    · exact hrows
    · refine updateJob_coherent hrows fun row hrow hid => (hrows row hrow).saveStatus hid ?_
      exact hop.mono (fun id hid => hstarted row hrow id hid) fun _ hid => hid
  | saveResult id result =>
    cases c with
    | clock now =>
      cases h
      refine updateJob_coherent hrows fun row hrow hid => ?_
      have hrow' := hrows row hrow
      exact ⟨fun hpending => absurd hpending (hstarted row hrow id hop hid), hrow'.started,
        hrow'.finished, hrow'.failed, hrow'.worded⟩
    | _ => cases h
  | saveCancelRequested copy =>
    cases c with
    | clock now =>
      cases h
      refine updateJob_coherent hrows fun row hrow hid => ?_
      have hrow' := hrows row hrow
      exact ⟨hrow'.pending, hrow'.started, hrow'.finished, hrow'.failed, hrow'.worded⟩
    | _ => cases h
  | delay id => rcases execJobs_delay h with ⟨-, rfl⟩ | ⟨task, -, rfl⟩ <;> exact hrows
  | receive => rcases execJobs_receive h with ⟨n, -, -, rfl⟩ | ⟨n, -, -, rfl⟩ <;> exact hrows
  | refreshCancelRequested id =>
    obtain ⟨rfl, -⟩ := execJobs_refreshCancelRequested h
    exact hrows
  | store schemaName op =>
    obtain ⟨a, store, -, -, rfl⟩ := execJobs_store h
    exact hrows
  | _ => cases c <;> cases h <;> exact hrows

/-- A started job stays started. -/
theorem execJobs_hasStarted {op : JobOp} {r : op.Resp} (h : execJobs op c v = some (r, w))
    (hop : Orderly platform (HasStarted v) (Announced v) op) (hid : HasStarted v id) :
    HasStarted w id := by
  obtain ⟨row, hrow, rfl, hstatus⟩ := hid
  cases hkeeps : op.keeps with
  | true =>
    obtain ⟨-, -, hfixed⟩ := execJobs_keeps hkeeps h
    have hmem := List.mem_map_of_mem (f := RawPayloadMigrationJob.fixed) hrow
    rw [← hfixed] at hmem
    obtain ⟨row', hrow', heq⟩ := List.mem_map.mp hmem
    simp only [RawPayloadMigrationJob.fixed, Prod.mk.injEq] at heq
    obtain ⟨hid, -, -, hsame⟩ := heq
    exact ⟨row', hrow', hid, by rwa [hsame]⟩
  | false =>
    cases op with
    | createJob organization dryRun =>
      rcases execJobs_createJob h with ⟨-, rfl⟩ | ⟨job, -, -, -, -, -, rfl⟩
      · exact ⟨row, hrow, rfl, hstatus⟩
      · exact ⟨row, List.mem_append_left _ hrow, rfl, hstatus⟩
    | saveStatus fields copy =>
      rcases execJobs_saveStatus h with ⟨-, rfl⟩ | ⟨found, now, -, -, -, rfl⟩
      · exact ⟨row, hrow, rfl, hstatus⟩
      · refine ⟨_, List.mem_map_of_mem hrow, savedRow_id row, ?_⟩
        rw [savedRow_status]
        split_ifs
        · cases fields with
          | started => simp [hop.1]
          | failure => exact terminal_ne_pending hop.1
          | finished => exact terminal_ne_pending hop.1
        · exact hstatus
    | delay id =>
      rcases execJobs_delay h with ⟨-, rfl⟩ | ⟨task, -, rfl⟩ <;> exact ⟨row, hrow, rfl, hstatus⟩
    | receive =>
      rcases execJobs_receive h with ⟨n, -, -, rfl⟩ | ⟨n, -, -, rfl⟩ <;>
        exact ⟨row, hrow, rfl, hstatus⟩
    | _ => cases hkeeps

/-- What a call tells of a started job. -/
theorem execJobs_seen {op : JobOp} {r : op.Resp} (h : execJobs op c v = some (r, w))
    (hop : Orderly platform (HasStarted v) (Announced v) op) (hseen : Seen [⟨op, r⟩] id) :
    HasStarted w id := by
  rcases hseen with ⟨row, htold, rfl, hstatus⟩ | ⟨copy, rfl, hmem⟩
  · exact ⟨row, execJobs_told h htold, rfl, hstatus⟩
  · obtain ⟨rfl, hr⟩ := Sigma.mk.inj (List.mem_singleton.mp hmem)
    obtain rfl := eq_of_heq hr
    rcases execJobs_saveStatus h with ⟨⟨e, he⟩, -⟩ | ⟨row, now, -, hrow, -, rfl⟩
    · cases he
    · refine ⟨_, List.mem_map_of_mem (findJob_mem hrow), ?_, ?_⟩
      · rw [savedRow_id, findJob_id hrow]
      · rw [savedRow_status, if_pos (findJob_id hrow), hop.1]
        simp

/-- It is one call that tells of a started job. -/
theorem Seen.call (h : Seen l id) : ∃ call ∈ l, Seen [call] id := by
  rcases h with ⟨row, htold, hid, hstatus⟩ | ⟨copy, hid, hmem⟩
  · obtain ⟨call, hcall, htold, -⟩ := htold.call
    exact ⟨call, hcall, .inl ⟨row, htold, hid, hstatus⟩⟩
  · exact ⟨_, hmem, .inr ⟨copy, hid, List.mem_singleton.mpr rfl⟩⟩

/-! The runs. -/

variable {s t : Ops}

variable (platform) in
structure JobsRecorded (s : Ops) : Prop where
  accounted : s.Accounted
  trail : Trail s
  orderly : Sessions.Conform (fun _ => JobAnswered) (fun _ => OrderlyCalls platform)
    (fun _ _ _ => True) s
  rows : ∀ row ∈ s.world.jobs, JobCoherent platform s.world row
  seen : s.BorneOut fun _ w call => ∀ id, Seen [call] id → HasStarted w id

theorem JobsRecorded.op {i : Nat} {x : JobSession} {op : JobOp} {k : op.Resp → JobProg Reply}
    (h : JobsRecorded platform s) (hx : s.sessions i = some x) (hprog : x.prog = .call op k) :
    Orderly platform (HasStarted s.world) (Announced s.world) op := by
  have hrule : OrderlyCalls platform x.log op := h.orderly.rule hx hprog
  refine hrule.mono (fun id hid => ?_) ?_
  · obtain ⟨call, hcall, hseen⟩ := hid.call
    exact h.seen i x hx call hcall id hseen
  rintro id ⟨m, hreceived, rfl⟩
  exact h.trail.accounts.delivered m (h.trail.borne i x hx _ hreceived)

theorem JobsRecorded.next {e : OpsEvent} (h : JobsRecorded platform s)
    (he : s.next platform e = some t) : JobsRecorded platform t := by
  have haccounted : t.Accounted := h.accounted.next
    (fun _ request _ => program_accounted platform request)
    (fun _ _ _ _ _ _ _ _ _ _ hexec => execJobs_answered hexec) he
  have horderly := h.orderly.next (fun _ request _ => program_orderly platform request)
    (fun _ _ _ _ _ _ _ _ _ _ hexec => execJobs_answered hexec) he
  have hseen := h.seen.next (fun i c x op k r w _ hx hprog hexec request call hcall id hid =>
    execJobs_hasStarted hexec (h.op hx hprog) (hcall id hid))
    (fun i c x op k r w _ hx hprog hexec id hid => execJobs_seen hexec (h.op hx hprog) hid) he
  refine ⟨haccounted, h.trail.next h.accounted he, horderly, ?_, hseen⟩
  rcases Sessions.next_cases he with ⟨i, request, rfl, -, rfl⟩ |
    ⟨i, c, x, op, k, r, w, rfl, hx, -, hprog, hexec, rfl⟩ | ⟨i, x, rfl, hx, rfl⟩
  · exact h.rows
  · exact execJobs_coherent hexec h.trail.accounts.table h.rows (h.op hx hprog)
  · exact h.rows

/-- Whatever is requested, delivered twice or superseded, and whoever dies: the rows of the
migration jobs stay coherent. -/
theorem job_rows_coherent (platform : Platform) {w : OpsWorld} (hw : w.Accounts)
    (hrows : ∀ row ∈ w.jobs, JobCoherent platform w row) {s : Ops}
    (hs : Reaches (Ops.next platform) (fun _ _ => True) (Sessions.idle w) s) :
    ∀ row ∈ s.world.jobs, JobCoherent platform s.world row := by
  have hidle : JobsRecorded platform (Sessions.idle w) :=
    ⟨Sessions.conform_idle w, trail_idle hw, Sessions.conform_idle w, hrows,
      Sessions.borneOut_idle w⟩
  have hrecorded := hs.invariant (I := JobsRecorded platform) hidle fun u e v hu _ he => hu.next he
  exact hrecorded.rows

/-- A job whose tenant cannot be found. -/
theorem job_rows_coherent_failed : ∃ (s : Ops) (row : RawPayloadMigrationJob),
    Reaches (Ops.next smallPlatform) (fun _ _ => True) (Sessions.idle legacyTenant) s ∧
    row ∈ s.world.jobs ∧ row.status = .failed ∧ row.startedAt.isSome = true ∧
    Announced s.world row.id ∧ row.errorMessage.isSome = true := by
  have hfinal : (replay (Ops.next smallPlatform) (fun _ _ => True) (Sessions.idle legacyTenant)
      (firstWrite.take 12 ++ [.step 1 (.raw (.tenant (.error ⟨"no tenant", false, "Unknown"⟩))),
        .step 1 (.clock 9), .step 1 (.clock 9)])).bind (fun s =>
          (s.world.jobs.find? fun row => row.status = .failed).map fun row => row.id) =
      some ⟨6⟩ := by
    decide +kernel
  obtain ⟨s, hs, hend⟩ := Option.bind_eq_some_iff.mp hfinal
  obtain ⟨row, hrow, -⟩ := Option.map_eq_some_iff.mp hend
  have hstatus : row.status = .failed := by simpa using List.find?_some hrow
  have haccounts : legacyTenant.Accounts := .of_empty rfl rfl rfl
  have hnone : ∀ row ∈ legacyTenant.jobs, JobCoherent smallPlatform legacyTenant row := by
    intro row hrow
    cases hrow
  have hreach := Reaches.of_replay _ hs
  have hmem := List.mem_of_find?_eq_some hrow
  have hcoherent := job_rows_coherent smallPlatform haccounts hnone hreach row hmem
  obtain ⟨hat, -, hannounced⟩ := hcoherent.started (by simp [hstatus])
  exact ⟨s, row, hreach, hmem, hstatus, hat, hannounced, hcoherent.failed hstatus⟩

end DataLake
