import DataLake.JobCreation
import Mathlib.Data.List.Perm.Basic

/-! Each job is put into the broker once, by the session that created it, and one pass of an
organization executes at a time: as long as a retry finds no active job. -/

namespace DataLake

open Foundation

def OpsWorld.sent (w : OpsWorld) : List Uuid := (w.queue ++ w.delivered).map JobMessage.job

/-- The constraints of the table hold, and no job has two messages. -/
structure OpsWorld.Settled (w : OpsWorld) : Prop where
  table : TableOk w.jobs
  once : w.sent.Nodup
  known : ∀ id ∈ w.sent, id ∈ w.jobs.map RawPayloadMigrationJob.id

/-- A retry looks for an active job of the organization only when there is none. -/
def Unopposed (s : Ops) : OpsEvent → Prop
  | .step i _ => ∀ x id organization k, s.sessions i = some x → x.request = .retry id →
      x.prog = .call (.getActiveJob organization) k → activeJob s.world.jobs organization = none
  | _ => True

/-- No message comes again, and no retry marks a stale job. -/
def Steady (s : Ops) : OpsEvent → Prop
  | .step i c => (∀ k, c ≠ .again k) ∧ ∀ x id copy k, s.sessions i = some x →
      x.request = .retry id → x.prog ≠ .call (.saveStatus .failure copy) k
  | _ => True

/-- The worker executes the pass of the job. -/
def Executes (w : OpsWorld) (x : JobSession) (job : RawPayloadMigrationJob) : Prop :=
  x.request = .work ∧ x.active = true ∧ Started x.log ∧
    ∃ m, Received x.log m ∧ findJob w.jobs m.job = some job

structure DispatchedOnce (s : Ops) : Prop where
  byCreator : ∀ i x id, s.sessions i = some x → Enqueues x.log id →
    ∃ job, Creates x.log job ∧ job.id = id
  creatorSends : ∀ i x reply job, s.sessions i = some x → x.prog = .ret reply →
    Creates x.log job → Enqueues x.log job.id
  oneCreator : ∀ i j x y job job', s.sessions i = some x → s.sessions j = some y →
    Creates x.log job → Creates y.log job' → job.id = job'.id → i = j
  once : s.world.sent.Nodup
  sameMode : ∀ i x id job', s.sessions i = some x → x.request = .retry id →
    (x.prog = .ret (.redirect job' none) ∨ Creates x.log job') →
    ∃ job, (⟨.getJob id, some job⟩ : Call JobSig) ∈ x.log ∧ job'.dryRun = job.dryRun

structure Books (s : Ops) : Prop where
  settled : s.world.Settled
  created : ∀ i x job, s.sessions i = some x → Creates x.log job →
    job.id ∈ s.world.jobs.map RawPayloadMigrationJob.id
  apart : ∀ i j x y job job', s.sessions i = some x → s.sessions j = some y →
    Creates x.log job → Creates y.log job' → job.id = job'.id → i = j
  unsent : ∀ i x job, s.sessions i = some x → Creates x.log job → ¬ Enqueues x.log job.id →
    job.id ∉ s.world.sent
  conform : Sessions.Conform Unrivalled Dispatches Served s

variable {platform : Platform} {s t : Ops} {w : OpsWorld} {i j : Nat} {x y : JobSession}
  {id : Uuid} {op : JobOp} {k : op.Resp → JobProg Reply} {r : op.Resp} {c : OpsAnswer}
  {job : RawPayloadMigrationJob} {l : JobLog}

theorem books_idle (hw : w.Settled) : Books (Sessions.idle w) :=
  ⟨hw, fun _ _ _ h => (by cases h), fun _ _ _ _ _ _ h => (by cases h),
    fun _ _ _ h => (by cases h), Sessions.conform_idle w⟩

theorem unrivalled_of_unopposed (hok : Unopposed s (.step i c))
    (hx : s.sessions i = some x) (hprog : x.prog = .call op k)
    (he : execJobs op c s.world = some (r, w)) : Unrivalled x.request op r := by
  refine ⟨execJobs_answered he, ?_⟩
  cases op with
  | getActiveJob organization =>
    rintro ⟨id, hretry⟩
    cases c with
    | clock now =>
      cases he
      exact hok x id organization k hx hretry hprog
    | _ => cases he
  | _ => trivial

theorem Books.set (h : Books s)
    (hconform : Sessions.Conform Unrivalled Dispatches Served (s.set w i y))
    (hmine : ∀ job, Creates y.log job → ∃ x, s.sessions i = some x ∧ Creates x.log job ∧
      (Enqueues x.log job.id → Enqueues y.log job.id)) (hw : w.Settled)
    (hids : ∀ id ∈ s.world.jobs.map RawPayloadMigrationJob.id,
      id ∈ w.jobs.map RawPayloadMigrationJob.id)
    (hsent : ∀ id ∈ w.sent, id ∈ s.world.sent ∨ Enqueues y.log id ∧
      ∃ x job, s.sessions i = some x ∧ Creates x.log job ∧ job.id = id) : Books (s.set w i y) := by
  -- What a session has created, it had created before the step.
  have hback : ∀ j z job, (s.set w i y).sessions j = some z → Creates z.log job →
      ∃ z', s.sessions j = some z' ∧ Creates z'.log job ∧
        (Enqueues z'.log job.id → Enqueues z.log job.id) := by
    intro j z job hz hjob
    rcases Sessions.set_sessions hz with ⟨rfl, rfl⟩ | ⟨-, hz⟩
    · exact hmine job hjob
    · exact ⟨z, hz, hjob, fun h => h⟩
  refine ⟨hw, fun j z job hz hjob => ?_, fun j l z z' job job' hz hz' hjob hjob' heq => ?_,
    fun j z job hz hjob hunsent hmem => ?_, hconform⟩
  · obtain ⟨z', hz', hcreates, -⟩ := hback j z job hz hjob
    exact hids _ (h.created j z' job hz' hcreates)
  · obtain ⟨u, hu, hcreates, -⟩ := hback j z job hz hjob
    obtain ⟨u', hu', hcreates', -⟩ := hback l z' job' hz' hjob'
    exact h.apart j l u u' job job' hu hu' hcreates hcreates' heq
  · obtain ⟨z', hz', hcreates, hsends⟩ := hback j z job hz hjob
    rcases hsent _ hmem with hold | ⟨hnew, x, job', hx, hjob', heq⟩
    · exact h.unsent j z' job hz' hcreates (fun hsent => hunsent (hsends hsent)) hold
    · obtain rfl := h.apart j i z' x job job' hz' hx hcreates hjob' heq.symm
      rw [Sessions.set_self] at hz
      cases hz
      exact hunsent hnew

theorem Books.answered (h : Books s) (hx : s.sessions i = some x)
    (hconform : Sessions.Conform Unrivalled Dispatches Served (s.set w i (x.answered op k r)))
    (hcreates : ∀ job, Creates (x.log ++ [⟨op, r⟩]) job → Creates x.log job) (hw : w.Settled)
    (hids : ∀ id ∈ s.world.jobs.map RawPayloadMigrationJob.id,
      id ∈ w.jobs.map RawPayloadMigrationJob.id)
    (hsent : ∀ id ∈ w.sent, id ∈ s.world.sent ∨ Enqueues (x.log ++ [⟨op, r⟩]) id ∧
      ∃ job, Creates x.log job ∧ job.id = id) : Books (s.set w i (x.answered op k r)) := by
  refine h.set hconform (fun job hjob => ⟨x, hx, hcreates job hjob,
    fun hid => List.mem_append_left _ hid⟩) hw hids fun id hid => ?_
  refine (hsent id hid).imp_right ?_
  rintro ⟨hnew, job, hjob, hid⟩
  exact ⟨hnew, x, job, hx, hjob, hid⟩

theorem OpsWorld.Settled.keeps (h : w.Settled) {w' : OpsWorld} (hop : op.keeps = true)
    (he : execJobs op c w = some (r, w')) : w'.Settled ∧
      w'.jobs.map RawPayloadMigrationJob.id = w.jobs.map RawPayloadMigrationJob.id ∧
      w'.sent = w.sent := by
  obtain ⟨hqueue, hdelivered, hfixed⟩ := execJobs_keeps hop he
  have hsent : w'.sent = w.sent := by rw [OpsWorld.sent, OpsWorld.sent, hqueue, hdelivered]
  have hids : w'.jobs.map RawPayloadMigrationJob.id = w.jobs.map RawPayloadMigrationJob.id := by
    have := congrArg (List.map Prod.fst) hfixed
    rwa [List.map_map, List.map_map] at this
  exact ⟨⟨h.table.of_fixed hfixed, hsent ▸ h.once, hsent ▸ hids ▸ h.known⟩, hids, hsent⟩

theorem OpsWorld.Settled.saveStatus (h : w.Settled) {w' : OpsWorld} {fields : StatusFields}
    {copy : RawPayloadMigrationJob} {r : Except Exc Unit}
    (he : execJobs (.saveStatus fields copy) c w = some (r, w')) : w'.Settled ∧
      w'.jobs.map RawPayloadMigrationJob.id = w.jobs.map RawPayloadMigrationJob.id ∧
      w'.sent = w.sent := by
  have htable := execJobs_tableOk h.table he
  rcases execJobs_saveStatus he with ⟨-, rfl⟩ | ⟨row, now, -, -, -, rfl⟩
  · exact ⟨h, rfl, rfl⟩
  · have hids : (updateJob copy.id now (fields.write copy) w.jobs).map RawPayloadMigrationJob.id =
        w.jobs.map RawPayloadMigrationJob.id := by
      rw [updateJob, List.map_map]
      exact List.map_congr_left fun a _ => savedRow_id a
    exact ⟨⟨htable, h.once, fun id hid => hids ▸ h.known id hid⟩, hids, rfl⟩

theorem OpsWorld.Settled.receive (h : w.Settled) {w' : OpsWorld} {m : JobMessage}
    (he : execJobs .receive c w = some (m, w')) : w'.Settled ∧ w'.jobs = w.jobs ∧
      w'.sent.Perm w.sent := by
  rcases execJobs_receive he with ⟨n, -, hm, rfl⟩ | ⟨n, -, -, rfl⟩
  · have hperm : (w.queue.eraseIdx n ++ (w.delivered ++ [m])).Perm (w.queue ++ w.delivered) := by
      obtain ⟨hlt, rfl⟩ := List.getElem?_eq_some_iff.mp hm
      rw [← List.append_assoc]
      exact (List.perm_append_singleton _ _).trans
        ((List.getElem_cons_eraseIdx_perm hlt).append_right w.delivered)
    have hperm := hperm.map JobMessage.job
    exact ⟨⟨h.table, hperm.nodup_iff.mpr h.once, fun id hid => h.known id (hperm.mem_iff.mp hid)⟩,
      rfl, hperm⟩
  · exact ⟨h, rfl, .rfl⟩

theorem OpsWorld.Settled.send (h : w.Settled) (task : Uuid) (hfresh : id ∉ w.sent)
    (hknown : id ∈ w.jobs.map RawPayloadMigrationJob.id) :
    OpsWorld.Settled { w with queue := w.queue ++ [⟨id, task⟩] } ∧
      ∀ id' ∈ OpsWorld.sent { w with queue := w.queue ++ [⟨id, task⟩] },
        id' ∈ w.sent ∨ id' = id := by
  have hperm : (OpsWorld.sent { w with queue := w.queue ++ [⟨id, task⟩] }).Perm (id :: w.sent) := by
    have : (w.queue ++ [(⟨id, task⟩ : JobMessage)] ++ w.delivered).Perm
        (⟨id, task⟩ :: (w.queue ++ w.delivered)) := by
      rw [List.append_assoc, List.singleton_append]
      exact List.perm_middle
    exact this.map JobMessage.job
  have hmem : ∀ id' ∈ OpsWorld.sent { w with queue := w.queue ++ [⟨id, task⟩] },
      id' ∈ w.sent ∨ id' = id := fun id' hid' =>
    (List.mem_cons.mp (hperm.mem_iff.mp hid')).symm
  refine ⟨⟨h.table, hperm.nodup_iff.mpr (List.nodup_cons.mpr ⟨hfresh, h.once⟩), fun id' hid' => ?_⟩,
    hmem⟩
  rcases hmem id' hid' with hid' | rfl
  · exact h.known id' hid'
  · exact hknown

theorem OpsWorld.Settled.create (h : w.Settled)
    (hfresh : job.id ∉ w.jobs.map RawPayloadMigrationJob.id)
    (hother : hasOtherActive w.jobs job.id job.organization.id = false) :
    OpsWorld.Settled { w with jobs := w.jobs ++ [job] } :=
  ⟨h.table.append hfresh hother, h.once, fun id hid => by
    rw [List.map_append]
    exact List.mem_append_left _ (h.known id hid)⟩

theorem Books.create (h : Books s) {organization : OrganizationRow} {dryRun : Bool}
    {k : Option RawPayloadMigrationJob → JobProg Reply} (hx : s.sessions i = some x)
    (hrule : Dispatches x.request x.log (.createJob organization dryRun))
    (hfresh : job.id ∉ s.world.jobs.map RawPayloadMigrationJob.id)
    (hother : hasOtherActive s.world.jobs job.id job.organization.id = false)
    (hconform : Sessions.Conform Unrivalled Dispatches Served
      (s.set { s.world with jobs := s.world.jobs ++ [job] } i
        (x.answered (.createJob organization dryRun) k (some job)))) :
    Books (s.set { s.world with jobs := s.world.jobs ++ [job] } i
      (x.answered (.createJob organization dryRun) k (some job))) := by
  have hmine : ∀ job', Creates (x.log ++ [⟨.createJob organization dryRun, some job⟩]) job' →
      job' = job := by
    rintro job' ⟨organization', dryRun', hmem⟩
    rcases List.mem_append.mp hmem with hmem | hmem
    · exact absurd ⟨organization', dryRun', hmem⟩ (not_creates hrule.1)
    · cases List.mem_singleton.mp hmem
      rfl
  refine ⟨h.settled.create hfresh hother, fun j z job' hz hjob => ?_,
    fun j l z z' job₁ job₂ hz hz' hjob hjob' heq => ?_, fun j z job' hz hjob hunsent hmem => ?_,
    hconform⟩
  · rw [Sessions.set_world, List.map_append]
    rcases Sessions.set_sessions hz with ⟨rfl, rfl⟩ | ⟨-, hz⟩
    · rw [hmine job' hjob]
      exact List.mem_append_right _ (List.mem_singleton.mpr rfl)
    · exact List.mem_append_left _ (h.created j z job' hz hjob)
  · rcases Sessions.set_sessions hz with ⟨rfl, rfl⟩ | ⟨-, hsz⟩ <;>
      rcases Sessions.set_sessions hz' with ⟨rfl, rfl⟩ | ⟨-, hsz'⟩
    · rfl
    · rw [hmine job₁ hjob] at heq
      exact absurd (heq ▸ h.created l z' job₂ hsz' hjob') hfresh
    · rw [hmine job₂ hjob'] at heq
      exact absurd (heq ▸ h.created j z job₁ hsz hjob) hfresh
    · exact h.apart j l z z' job₁ job₂ hsz hsz' hjob hjob' heq
  · rcases Sessions.set_sessions hz with ⟨rfl, rfl⟩ | ⟨-, hz⟩
    · rw [hmine job' hjob] at hmem
      exact hfresh (h.settled.known _ hmem)
    · exact h.unsent j z job' hz hjob hunsent hmem

theorem Books.next {e : OpsEvent} (h : Books s) (hok : Unopposed s e)
    (he : s.next platform e = some t) : Books t := by
  have hconform : Sessions.Conform Unrivalled Dispatches Served t :=
    h.conform.next (fun _ request _ => program_dispatches platform request) (fun i x op k c r w hstep hx hprog hexec => by
      subst hstep
      exact unrivalled_of_unopposed hok hx hprog hexec) he
  rcases Sessions.next_cases he with ⟨i, request, rfl, hi, rfl⟩ |
    ⟨i, c, x, op, k, r, w, rfl, hx, halive, hprog, hexec, rfl⟩ | ⟨i, x, rfl, hx, rfl⟩
  · refine h.set hconform (fun job hjob => ?_) h.settled (fun _ hid => hid) fun _ hid => .inl hid
    obtain ⟨organization, dryRun, hmem⟩ := hjob
    cases hmem
  · have hrule : Dispatches x.request x.log op := by
      have halong := (h.conform i x hx).1
      rw [hprog] at halong
      exact halong.1
    cases op with
    | createJob organization dryRun =>
      rcases execJobs_createJob hexec with ⟨rfl, rfl⟩ | ⟨job, rfl, -, -, hfresh, hother, rfl⟩
      · refine h.answered hx hconform (fun job hjob => ?_) h.settled (fun _ hid => hid)
          fun _ hid => .inl hid
        obtain ⟨organization', dryRun', hmem⟩ := hjob
        rcases List.mem_append.mp hmem with hmem | hmem
        · exact ⟨organization', dryRun', hmem⟩
        · cases List.mem_singleton.mp hmem
      · exact h.create hx hrule hfresh hother hconform
    | delay id =>
      obtain ⟨⟨job, hcreates, rfl⟩, hunsent⟩ := hrule
      rcases execJobs_delay hexec with ⟨-, rfl⟩ | ⟨task, rfl, rfl⟩
      · exact h.answered hx hconform (fun job hjob => creates_append rfl hjob) h.settled
          (fun _ hid => hid) fun _ hid => .inl hid
      · have hfresh : job.id ∉ s.world.sent := h.unsent i x job hx hcreates fun hsent => by
          cases hunsent _ hsent
        obtain ⟨hsettled, hsent⟩ := h.settled.send task hfresh
          (h.created i x job hx hcreates)
        refine h.answered hx hconform (fun job hjob => creates_append rfl hjob) hsettled
          (fun _ hid => hid) fun id hid => ?_
        refine (hsent id hid).imp_right ?_
        rintro rfl
        exact ⟨List.mem_append_right _ (List.mem_singleton.mpr rfl), job, hcreates, rfl⟩
    | saveStatus fields copy =>
      obtain ⟨hsettled, hids, hsent⟩ := h.settled.saveStatus hexec
      exact h.answered hx hconform (fun job hjob => creates_append rfl hjob) hsettled
        (fun _ hid => hids ▸ hid) fun _ hid => .inl (hsent ▸ hid)
    | receive =>
      obtain ⟨hsettled, hjobs, hperm⟩ := h.settled.receive hexec
      exact h.answered hx hconform (fun job hjob => creates_append rfl hjob) hsettled
        (fun _ hid => hjobs ▸ hid) fun _ hid => .inl (hperm.mem_iff.mp hid)
    | _ =>
      obtain ⟨hsettled, hids, hsent⟩ := h.settled.keeps rfl hexec
      exact h.answered hx hconform (fun job hjob => creates_append rfl hjob) hsettled
        (fun _ hid => hids ▸ hid) fun _ hid => .inl (hsent ▸ hid)
  · exact h.set hconform (fun job hjob => ⟨x, hx, hjob, fun hid => hid⟩) h.settled
      (fun _ hid => hid) fun _ hid => .inl hid

theorem Books.dispatchedOnce (h : Books s) : DispatchedOnce s where
  byCreator := fun i x id hx hid => by
    obtain ⟨l, l', hl⟩ := List.append_of_mem hid
    obtain ⟨⟨⟨job, ⟨organization, dryRun, hmem⟩, heq⟩, -⟩, -⟩ := (h.conform i x hx).2 _ _ _ _ hl
    exact ⟨job, ⟨organization, dryRun, by rw [hl]; exact List.mem_append_left _ hmem⟩, heq⟩
  creatorSends := fun i x reply job hx hret hjob => by
    have halong := (h.conform i x hx).1
    rw [hret] at halong
    exact halong.1 job hjob
  oneCreator := h.apart
  once := h.settled.once
  sameMode := fun i x id job' hx hrequest hyields => by
    rcases hyields with hret | ⟨organization, dryRun, hmem⟩
    · have halong := (h.conform i x hx).1
      rw [hret] at halong
      obtain ⟨job, ⟨id', hretry, hmem⟩, hmode⟩ := halong.2 job' rfl ⟨id, hrequest⟩
      rw [hrequest] at hretry
      cases hretry
      exact ⟨job, hmem, hmode⟩
    · obtain ⟨l, l', hl⟩ := List.append_of_mem hmem
      obtain ⟨⟨-, hbound⟩, hanswer⟩ := (h.conform i x hx).2 _ _ _ _ hl
      obtain ⟨job, ⟨id', hretry, hmem⟩, hmode⟩ := hbound ⟨id, hrequest⟩
      rw [hrequest] at hretry
      cases hretry
      refine ⟨job, by rw [hl]; exact List.mem_append_left _ hmem, ?_⟩
      rw [← hmode]
      exact hanswer.1 job' rfl

/-! Who executes which pass. -/

/-- Each worker has a job of its own, which is RUNNING while it executes. -/
structure Passes (s : Ops) : Prop where
  received : ∀ i x m, s.sessions i = some x → Received x.log m → m.job ∈ s.world.delivered.map
    JobMessage.job
  distinct : ∀ i j x y m m', s.sessions i = some x → s.sessions j = some y → Received x.log m →
    Received y.log m' → m.job = m'.job → i = j
  running : ∀ i x m, s.sessions i = some x → x.request = .work → x.active = true →
    Received x.log m → Started x.log → statusOf s.world.jobs m.job = some .running

theorem passes_idle (w : OpsWorld) : Passes (Sessions.idle w) :=
  ⟨fun _ _ _ h => (by cases h), fun _ _ _ _ _ _ h => (by cases h), fun _ _ _ h => (by cases h)⟩

theorem not_received_nil (m : JobMessage) : ¬ Received [] m := by
  rintro ⟨rest, h⟩
  cases h

theorem Passes.set (h : Passes s)
    (hreceived : ∀ m, Received y.log m → ∃ x, s.sessions i = some x ∧ Received x.log m)
    (hdelivered : w.delivered = s.world.delivered)
    (hmine : ∀ m, y.request = .work → y.active = true → Received y.log m → Started y.log →
      statusOf w.jobs m.job = some .running)
    (hothers : ∀ j z m, j ≠ i → s.sessions j = some z → Received z.log m →
      statusOf s.world.jobs m.job = some .running → statusOf w.jobs m.job = some .running) :
    Passes (s.set w i y) := by
  have hback : ∀ j z m, (s.set w i y).sessions j = some z → Received z.log m →
      ∃ z', s.sessions j = some z' ∧ Received z'.log m := by
    intro j z m hz hm
    rcases Sessions.set_sessions hz with ⟨rfl, rfl⟩ | ⟨-, hz⟩
    · exact hreceived m hm
    · exact ⟨z, hz, hm⟩
  refine ⟨fun j z m hz hm => ?_, fun j l z z' m m' hz hz' hm hm' heq => ?_,
    fun j z m hz hwork hactive hm hstarted => ?_⟩
  · obtain ⟨z', hz', hm'⟩ := hback j z m hz hm
    rw [Sessions.set_world, hdelivered]
    exact h.received j z' m hz' hm'
  · obtain ⟨u, hu, hum⟩ := hback j z m hz hm
    obtain ⟨u', hu', hum'⟩ := hback l z' m' hz' hm'
    exact h.distinct j l u u' m m' hu hu' hum hum' heq
  · rcases Sessions.set_sessions hz with ⟨rfl, rfl⟩ | ⟨hj, hz⟩
    · exact hmine m hwork hactive hm hstarted
    · exact hothers j z m hj hz hm (h.running j z m hz hwork hactive hm hstarted)

theorem received_answered (hop : ∀ m, (⟨op, r⟩ : Call JobSig) ≠ ⟨.receive, m⟩) {m : JobMessage}
    (h : Received (l ++ [⟨op, r⟩]) m) : Received l m := by
  obtain ⟨rest, hlog⟩ := h
  cases l with
  | nil => exact absurd (List.cons_eq_cons.mp hlog).1 (hop m)
  | cons call calls =>
    obtain ⟨rfl, -⟩ := List.cons_eq_cons.mp hlog
    exact ⟨calls, rfl⟩

theorem Passes.answered (h : Passes s) (hx : s.sessions i = some x) (halive : x.alive = true)
    (hprog : x.prog = .call op k) (hop : ∀ m, (⟨op, r⟩ : Call JobSig) ≠ ⟨.receive, m⟩)
    (hstart : ∀ copy, (⟨op, r⟩ : Call JobSig) ≠ ⟨.saveStatus .started copy, .ok ()⟩)
    (hgrows : Grows s.world.jobs w.jobs) (hdelivered : w.delivered = s.world.delivered) :
    Passes (s.set w i (x.answered op k r)) := by
  refine h.set (fun m hm => ⟨x, hx, received_answered hop hm⟩) hdelivered
    (fun m hwork _ hm hstarted => ?_) fun j z m _ hz _ hrunning => hgrows.stays _ _ hrunning
  have hactive : x.active = true := by
    rw [Session.active, halive, hprog]
    rfl
  refine hgrows.stays _ _ (h.running i x m hx hwork hactive (received_answered hop hm) ?_)
  obtain ⟨copy, hmem⟩ := hstarted
  rcases List.mem_append.mp hmem with hmem | hmem
  · exact ⟨copy, hmem⟩
  · exact absurd (List.mem_singleton.mp hmem).symm (hstart copy)

theorem Passes.saveStatus (h : Passes s) {fields : StatusFields} {copy : RawPayloadMigrationJob}
    {k : Except Exc Unit → JobProg Reply} {r : Except Exc Unit} {m : JobMessage}
    (hx : s.sessions i = some x) (halive : x.alive = true)
    (hprog : x.prog = .call (.saveStatus fields copy) k)
    (hexec : execJobs (.saveStatus fields copy) c s.world = some (r, w)) (hm : Received x.log m)
    (hid : copy.id = m.job) (hwork : x.request = .work)
    (hcopy : (fields = .started ∧ copy.status = .running) ∨ fields ≠ .started)
    (hafter : Ops.Conform (s.set w i (x.answered (.saveStatus fields copy) k r))) :
    Passes (s.set w i (x.answered (.saveStatus fields copy) k r)) := by
  have hop : ∀ m, (⟨.saveStatus fields copy, r⟩ : Call JobSig) ≠ ⟨.receive, m⟩ := by
    intro m heq
    cases heq
  rcases execJobs_saveStatus hexec with ⟨⟨e, rfl⟩, rfl⟩ | ⟨row, now, -, hrow, -, hw⟩
  · refine h.answered hx halive hprog hop (fun copy' heq => ?_) (Grows.refl _) rfl
    cases heq
  · have hjobs : w.jobs = updateJob copy.id now (fields.write copy) s.world.jobs := by rw [hw]
    refine h.set (fun m' hm' => ⟨x, hx, received_answered hop hm'⟩) (by rw [hw])
      (fun m' _ hactive hm' _ => ?_) fun j z m' hj hz hm' hrunning => ?_
    · obtain rfl := hm.inj (received_answered hop hm')
      rcases hcopy with ⟨-, hrunning⟩ | hfields
      · rw [hjobs, statusOf_saveStatus hrow, if_pos hid.symm, hrunning]
      · rw [hafter.ended Sessions.set_self hwork (List.mem_append_right _
          (List.mem_singleton.mpr rfl)) hfields] at hactive
        cases hactive
    · have hne : m'.job ≠ copy.id := fun heq =>
        hj (h.distinct j i z x m' m hz hx hm' hm (heq.trans hid))
      rw [hjobs, statusOf_saveStatus hrow, if_neg hne]
      exact hrunning

theorem Passes.receive (h : Passes s) {k : JobMessage → JobProg Reply} {m : JobMessage} {n : Nat}
    (hx : s.sessions i = some x) (hlog : x.log = []) (hm : s.world.queue[n]? = some m)
    (honce : s.world.sent.Nodup) :
    Passes (s.set { s.world with
      queue := s.world.queue.eraseIdx n
      delivered := s.world.delivered ++ [m] } i (x.answered .receive k m)) := by
  have hfresh : m.job ∉ s.world.delivered.map JobMessage.job := by
    rw [OpsWorld.sent, List.map_append] at honce
    exact fun hmem => List.disjoint_of_nodup_append honce
      (List.mem_map_of_mem (List.mem_of_getElem? hm)) hmem
  have hmine : ∀ m', Received (x.answered .receive k m).log m' → m' = m := by
    rintro m' ⟨rest, hm'⟩
    have hm' : x.log ++ [⟨.receive, m⟩] = ⟨.receive, m'⟩ :: rest := hm'
    rw [hlog] at hm'
    cases hm'
    rfl
  refine ⟨fun j z m' hz hm' => ?_, fun j l z z' m₁ m₂ hz hz' hm₁ hm₂ heq => ?_,
    fun j z m' hz hwork hactive hm' hstarted => ?_⟩
  · rw [Sessions.set_world, List.map_append]
    rcases Sessions.set_sessions hz with ⟨rfl, rfl⟩ | ⟨-, hz⟩
    · rw [hmine m' hm']
      exact List.mem_append_right _ (List.mem_singleton.mpr rfl)
    · exact List.mem_append_left _ (h.received j z m' hz hm')
  · rcases Sessions.set_sessions hz with ⟨rfl, rfl⟩ | ⟨-, hsz⟩ <;>
      rcases Sessions.set_sessions hz' with ⟨rfl, rfl⟩ | ⟨-, hsz'⟩
    · rfl
    · rw [hmine m₁ hm₁] at heq
      exact absurd (heq ▸ h.received l z' m₂ hsz' hm₂) hfresh
    · rw [hmine m₂ hm₂] at heq
      exact absurd (heq ▸ h.received j z m₁ hsz hm₁) hfresh
    · exact h.distinct j l z z' m₁ m₂ hsz hsz' hm₁ hm₂ heq
  · rcases Sessions.set_sessions hz with ⟨rfl, rfl⟩ | ⟨-, hz⟩
    · obtain ⟨copy, hmem⟩ := hstarted
      have hmem : (⟨.saveStatus .started copy, .ok ()⟩ : Call JobSig) ∈
        x.log ++ [⟨.receive, m⟩] := hmem
      rw [hlog] at hmem
      cases List.mem_singleton.mp hmem
    · exact h.running j z m' hz hwork hactive hm' hstarted

theorem Passes.next {e : OpsEvent} (h : Passes s) (hbooks : Books s) (hconform : s.Conform)
    (hok : Steady s e) (he : s.next platform e = some t) : Passes t := by
  have hafter : t.Conform := hconform.next he
  rcases Sessions.next_cases he with ⟨i, request, rfl, hi, rfl⟩ |
    ⟨i, c, x, op, k, r, w, rfl, hx, halive, hprog, hexec, rfl⟩ | ⟨i, x, rfl, hx, rfl⟩
  · exact h.set (fun m hm => absurd hm (not_received_nil m)) rfl
      (fun m _ _ hm _ => absurd hm (not_received_nil m)) fun j z m _ _ _ hrunning => hrunning
  · have hrule : Rule x.request x.log op := hconform.rule hx hprog
    cases op with
    | createJob organization dryRun =>
      rcases execJobs_createJob hexec with ⟨-, rfl⟩ | ⟨job, -, -, hpending, hfresh, -, rfl⟩
      · exact h.answered hx halive hprog (fun m heq => by cases heq) (fun copy heq => by cases heq)
          (Grows.refl _) rfl
      · exact h.answered hx halive hprog (fun m heq => by cases heq) (fun copy heq => by cases heq)
          (Grows.append hfresh hpending) rfl
    | delay id =>
      rcases execJobs_delay hexec with ⟨-, rfl⟩ | ⟨task, -, rfl⟩ <;>
        exact h.answered hx halive hprog (fun m heq => by cases heq)
          (fun copy heq => by cases heq) (Grows.refl _) rfl
    | saveStatus fields copy =>
      rcases hrule.2 with ⟨hwork, m, hm, hid, hcopy⟩ | ⟨job, hretry, rfl, -⟩
      · exact h.saveStatus hx halive hprog hexec hm hid hwork (hcopy.imp id And.left) hafter
      · exact absurd hprog (hok.2 x job copy k hx hretry)
    | receive =>
      obtain ⟨-, -, hlog⟩ := hrule
      rcases execJobs_receive hexec with ⟨n, rfl, hm, rfl⟩ | ⟨n, rfl, -, -⟩
      · exact h.receive hx hlog hm hbooks.settled.once
      · exact absurd rfl (hok.1 n)
    | _ =>
      obtain ⟨-, hdelivered, hfixed⟩ := execJobs_keeps rfl hexec
      exact h.answered hx halive hprog (fun m heq => by cases heq) (fun copy heq => by cases heq)
        (Grows.of_fixed hfixed) hdelivered
  · refine h.set (fun m hm => ⟨x, hx, hm⟩) rfl (fun m _ hactive _ _ => ?_)
      fun j z m _ _ _ hrunning => hrunning
    cases hactive

theorem Passes.sole (h : Passes s) (htable : TableOk s.world.jobs)
    {job' : RawPayloadMigrationJob} (hx : s.sessions i = some x) (hy : s.sessions j = some y)
    (hjob : Executes s.world x job) (hjob' : Executes s.world y job')
    (horg : job.organization.id = job'.organization.id) : i = j := by
  obtain ⟨hwork, hactive, hstarted, m, hm, hrow⟩ := hjob
  obtain ⟨hwork', hactive', hstarted', m', hm', hrow'⟩ := hjob'
  have hrunning : ∀ {job : RawPayloadMigrationJob} {id : Uuid}, findJob s.world.jobs id = some job →
      statusOf s.world.jobs id = some .running → job.status.active = true := by
    intro job id hfound hstatus
    rw [statusOf, hfound] at hstatus
    cases job
    cases hstatus
    rfl
  have hids := htable.unique job (findJob_mem hrow) job' (findJob_mem hrow')
    (hrunning hrow (h.running i x m hx hwork hactive hm hstarted))
    (hrunning hrow' (h.running j y m' hy hwork' hactive' hm' hstarted')) horg
  rw [findJob_id hrow, findJob_id hrow'] at hids
  exact h.distinct i j x y m m' hx hy hm hm' hids

/-- Where a retry looks for an active job only when there is none, each job is enqueued by
the session that created it, and only once, and a retry goes on in the mode of the retried
job; and, but for messages that come again and stale jobs, one pass of an organization
executes at a time. -/
theorem dispatched_once (platform : Platform) {w : OpsWorld} (hw : w.Settled) :
    (∀ s, Reaches (Ops.next platform) Unopposed (Sessions.idle w) s → DispatchedOnce s) ∧
    ∀ s, Reaches (Ops.next platform) (fun u e => Unopposed u e ∧ Steady u e)
      (Sessions.idle w) s → ∀ i j x y job job', s.sessions i = some x → s.sessions j = some y →
      Executes s.world x job → Executes s.world y job' →
      job.organization.id = job'.organization.id → i = j := by
  refine ⟨fun s hs => ?_, fun s hs i j x y job job' hx hy hjob hjob' horg => ?_⟩
  · exact (hs.invariant (books_idle hw) fun u e v hu hok he => hu.next hok he).dispatchedOnce
  · obtain ⟨hbooks, -, hpasses⟩ := hs.invariant
      (I := fun u : Ops => Books u ∧ u.Conform ∧ Passes u)
      ⟨books_idle hw, Sessions.conform_idle w, passes_idle w⟩
      fun u e v ⟨hbooks, hconform, hpasses⟩ hok he =>
        ⟨hbooks.next hok.1 he, hconform.next he, hpasses.next hbooks hconform hok.2 he⟩
    exact hpasses.sole hbooks.settled.table hx hy hjob hjob' horg

def failedInspection : RawPayloadMigrationJob := { id := ⟨1⟩, organization := acme, status := .failed }

theorem failedInspection_settled : (smallOps [failedInspection] []).Settled where
  table := {
    ids := List.nodup_singleton _
    unique := fun a ha b hb _ _ _ => by
      rw [List.mem_singleton.mp ha, List.mem_singleton.mp hb] }
  once := List.nodup_nil
  known := fun id hid => by cases hid

/-- No message comes again, and a session that looks for an active job, or marks one as
failed, finds none. -/
def findsNone (s : Ops) : OpsEvent → Bool
  | .step _ (.again _) => false
  | .step i _ =>
    match s.sessions i with
    | some ⟨_, .call (.getActiveJob organization) _, _, _⟩ =>
      (activeJob s.world.jobs organization).isNone
    | some ⟨.retry _, .call (.saveStatus .failure _) _, _, _⟩ => false
    | _ => true
  | _ => true

theorem unopposed_of_findsNone {e : OpsEvent} (h : findsNone s e = true) :
    Unopposed s e ∧ Steady s e := by
  cases e with
  | step i c =>
    have hagain : ∀ k, c ≠ .again k := by
      rintro k rfl
      cases h
    refine ⟨?_, hagain, ?_⟩
    · rintro ⟨request, prog, log, alive⟩ id organization k hx - rfl
      cases c <;> simp_all [findsNone]
    · rintro ⟨request, prog, log, alive⟩ id copy k hx rfl rfl
      cases c <;> simp_all [findsNone]
  | _ => exact ⟨trivial, trivial⟩

def savesStart : Call JobSig → Bool
  | ⟨.saveStatus .started _, .ok _⟩ => true
  | _ => false

/-- The job that a worker has started. -/
def jobUnderWay : JobLog → Option Uuid
  | ⟨.receive, m⟩ :: calls => if calls.any savesStart then some m.job else none
  | _ => none

theorem jobUnderWay_spec {l : JobLog} {id : Uuid} (h : jobUnderWay l = some id) :
    Started l ∧ ∃ m, Received l m ∧ m.job = id := by
  unfold jobUnderWay at h
  split at h
  · rename_i m calls
    split at h
    · rename_i hany
      obtain ⟨call, hcall, hsaves⟩ := List.any_eq_true.mp hany
      refine ⟨?_, m, ⟨calls, rfl⟩, Option.some.inj h⟩
      unfold savesStart at hsaves
      split at hsaves
      · exact ⟨_, .tail _ hcall⟩
      · cases hsaves
    · cases h
  · cases h

/-- A retry creates a job and enqueues it, and one of two workers begins to execute it. -/
def retriedPass : List OpsEvent :=
  [.start 0 (.retry ⟨1⟩), .step 0 (.clock 0), .step 0 (.clock 0), .step 0 (.clock 0),
    .step 0 (.fresh ⟨2⟩ 0), .start 2 .work, .step 0 (.clock 0), .step 0 (.fresh ⟨5⟩ 0),
    .start 1 .work, .step 1 (.message 0), .step 1 (.clock 1), .step 1 (.clock 1),
    .step 1 (.clock 1)]

theorem dispatched_once_retry : ∃ s : Ops,
    Reaches (Ops.next smallPlatform) (fun u e => Unopposed u e ∧ Steady u e)
      (Sessions.idle (smallOps [failedInspection] [])) s ∧
    DispatchedOnce s ∧ s.world.sent = [⟨2⟩] ∧
    ∃ x job, s.sessions 1 = some x ∧ Executes s.world x job ∧ job.id = ⟨2⟩ ∧
      ∀ i y job', s.sessions i = some y → Executes s.world y job' →
        job'.organization.id = job.organization.id → i = 1 := by
  have hfinal : (replay (Ops.next smallPlatform) (fun s e => findsNone s e = true)
      (Sessions.idle (smallOps [failedInspection] [])) retriedPass).map (fun s =>
        (s.world.sent,
          (s.sessions 1).map fun x => (x.request = .work && x.active, jobUnderWay x.log),
          (findJob s.world.jobs ⟨2⟩).isSome)) =
      some ([⟨2⟩], some (true, some ⟨2⟩), true) := by
    decide +kernel
  obtain ⟨s, hs, hsummary⟩ := Option.map_eq_some_iff.mp hfinal
  simp only [Prod.mk.injEq] at hsummary
  obtain ⟨hsent, hworker, hfound⟩ := hsummary
  obtain ⟨x, hx, hstarted⟩ := Option.map_eq_some_iff.mp hworker
  simp only [Prod.mk.injEq, Bool.and_eq_true, decide_eq_true_eq] at hstarted
  obtain ⟨⟨hwork, hactive⟩, hstarted⟩ := hstarted
  obtain ⟨job, hjob⟩ := Option.isSome_iff_exists.mp hfound
  obtain ⟨hstart, m, hm, hid⟩ := jobUnderWay_spec hstarted
  have hexecutes : Executes s.world x job := ⟨hwork, hactive, hstart, m, hm, hid ▸ hjob⟩
  have hreach := (Reaches.of_replay _ hs).mono fun _ _ h => unopposed_of_findsNone h
  obtain ⟨honce, hsole⟩ := dispatched_once smallPlatform failedInspection_settled
  exact ⟨s, hreach, honce s (hreach.mono fun _ _ h => h.1), hsent, x, job, hx, hexecutes,
    findJob_id hjob, fun i y job' hy hjob' horg => hsole s hreach i 1 y x job' job hy hx hjob'
      hexecutes horg⟩

def pendingPass : RawPayloadMigrationJob := { id := ⟨2⟩, organization := acme, dryRun := false }

/-- The retry of a dry run puts the pending pass into the broker once more. -/
theorem pass_dispatched_twice : ¬ ∀ (platform : Platform) (w : OpsWorld) (s : Ops), w.Settled →
    Reaches (Ops.next platform) (fun _ _ => True) (Sessions.idle w) s → DispatchedOnce s := by
  intro hclaim
  have hsettled : (smallOps [failedInspection, pendingPass] [⟨⟨2⟩, ⟨5⟩⟩]).Settled := by
    refine ⟨⟨by decide, fun a ha b hb hactive hactive' _ => ?_⟩, by decide, by decide⟩
    have hpending : ∀ job ∈ [failedInspection, pendingPass], job.status.active = true →
        job.id = ⟨2⟩ := by
      decide
    rw [hpending a ha hactive, hpending b hb hactive']
  have hfinal : (replay (Ops.next smallPlatform) (fun _ _ => True)
      (Sessions.idle (smallOps [failedInspection, pendingPass] [⟨⟨2⟩, ⟨5⟩⟩]))
      [.start 0 (.retry ⟨1⟩), .step 0 (.clock 0), .step 0 (.clock 0), .step 0 (.clock 0),
        .step 0 (.clock 0), .step 0 (.fresh ⟨6⟩ 0)]).map (fun s => s.world.sent) =
      some [⟨2⟩, ⟨2⟩] := by
    decide +kernel
  obtain ⟨s, hs, hsent⟩ := Option.map_eq_some_iff.mp hfinal
  have honce := (hclaim smallPlatform _ s hsettled (Reaches.of_replay _ hs)).once
  rw [hsent] at honce
  exact absurd honce (by decide)

end DataLake
