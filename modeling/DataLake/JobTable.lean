import DataLake.MigrationJobs

/-! The table of migration jobs and the messages of the broker: what each call changes. -/

namespace DataLake

open Foundation

variable {c : OpsAnswer} {w w' : OpsWorld} {jobs : List RawPayloadMigrationJob}
  {job row : RawPayloadMigrationJob} {id : Uuid}

/-- What the answer to a call tells about itself. -/
def JobAnswered : ∀ op : JobOp, op.Resp → Prop
  | .getJob id, r => ∀ job, r = some job → job.id = id
  | .createJob _ dryRun, r => ∀ job, r = some job → job.dryRun = dryRun
  | _, _ => True

theorem findJob_id (h : findJob jobs id = some row) : row.id = id := by
  simpa using List.find?_some h

theorem findJob_mem (h : findJob jobs id = some row) : row ∈ jobs := List.mem_of_find?_eq_some h

theorem findJob_none : findJob jobs id = none ↔ id ∉ jobs.map RawPayloadMigrationJob.id := by
  simp [findJob]

theorem findJob_append (hfresh : job.id ∉ jobs.map RawPayloadMigrationJob.id) :
    findJob (jobs ++ [job]) id = if id = job.id then some job else findJob jobs id := by
  split_ifs with hid
  · subst hid
    have hnone := findJob_none.mpr hfresh
    simp only [findJob] at hnone
    simp [findJob, List.find?_append, hnone]
  · simp [findJob, List.find?_append, Ne.symm hid]

theorem findJob_updateJob {id' : Uuid} (now : Nat)
    {f : RawPayloadMigrationJob → RawPayloadMigrationJob} (hf : ∀ row, (f row).id = row.id) :
    findJob (updateJob id' now f jobs) id = (findJob jobs id).map (savedRow id' now f) := by
  have hid : ∀ row, (savedRow id' now f row).id = row.id := by
    intro row
    unfold savedRow
    split_ifs
    · exact hf row
    · rfl
  rw [findJob, updateJob, List.find?_map, findJob]
  congr 2
  funext row
  simp [hid]

theorem StatusFields.write_id (fields : StatusFields) (copy row : RawPayloadMigrationJob) :
    (fields.write copy row).id = row.id := by
  cases fields <;> rfl

theorem StatusFields.write_organization (fields : StatusFields) (copy row : RawPayloadMigrationJob) :
    (fields.write copy row).organization = row.organization := by
  cases fields <;> rfl

theorem StatusFields.write_status (fields : StatusFields) (copy row : RawPayloadMigrationJob) :
    (fields.write copy row).status = copy.status := by
  cases fields <;> rfl

theorem StatusFields.write_dryRun (fields : StatusFields) (copy row : RawPayloadMigrationJob) :
    (fields.write copy row).dryRun = row.dryRun := by
  cases fields <;> rfl

/-! One lemma for each call that writes. -/

theorem execJobs_createJob {organization : OrganizationRow} {dryRun : Bool}
    {r : Option RawPayloadMigrationJob}
    (h : execJobs (.createJob organization dryRun) c w = some (r, w')) :
    (r = none ∧ w' = w) ∨ ∃ job, r = some job ∧ job.dryRun = dryRun ∧ job.status = .pending ∧
      job.id ∉ w.jobs.map RawPayloadMigrationJob.id ∧
      hasOtherActive w.jobs job.id job.organization.id = false ∧
      w' = { w with jobs := w.jobs ++ [job] } := by
  cases c with
  | fresh id now =>
    simp only [execJobs] at h
    split_ifs at h with hid hother
    · cases h
      exact .inl ⟨rfl, rfl⟩
    · cases h
      exact .inr ⟨_, rfl, rfl, rfl, hid, by simpa using hother, rfl⟩
  | _ => cases h

theorem execJobs_saveStatus {fields : StatusFields} {copy : RawPayloadMigrationJob}
    {r : Except Exc Unit} (h : execJobs (.saveStatus fields copy) c w = some (r, w')) :
    ((∃ e, r = .error e) ∧ w' = w) ∨ ∃ row now, r = .ok () ∧ findJob w.jobs copy.id = some row ∧
      (copy.status.active = true →
        hasOtherActive w.jobs copy.id row.organization.id = false) ∧
      w' = { w with jobs := updateJob copy.id now (fields.write copy) w.jobs } := by
  cases c with
  | clock now =>
    simp only [execJobs] at h
    split at h
    · cases h
      exact .inl ⟨⟨_, rfl⟩, rfl⟩
    · rename_i row hrow
      split_ifs at h with hviolates
      · cases h
        exact .inl ⟨⟨_, rfl⟩, rfl⟩
      · cases h
        refine .inr ⟨row, now, rfl, hrow, fun hactive => ?_, rfl⟩
        simpa [hactive] using hviolates
  | _ => cases h

theorem execJobs_delay {r : Except Exc Unit} (h : execJobs (.delay id) c w = some (r, w')) :
    ((∃ e, r = .error e) ∧ w' = w) ∨
      ∃ task, r = .ok () ∧ w' = { w with queue := w.queue ++ [⟨id, task⟩] } := by
  cases c with
  | fresh task now =>
    cases h
    exact .inr ⟨task, rfl, rfl⟩
  | fail e =>
    cases h
    exact .inl ⟨⟨e, rfl⟩, rfl⟩
  | _ => cases h

theorem execJobs_receive {m : JobMessage} (h : execJobs .receive c w = some (m, w')) :
    (∃ k, c = .message k ∧ w.queue[k]? = some m ∧
      w' = { w with queue := w.queue.eraseIdx k, delivered := w.delivered ++ [m] }) ∨
    (∃ k, c = .again k ∧ w.delivered[k]? = some m ∧ w' = w) := by
  cases c with
  | message k =>
    simp only [execJobs, Option.map_eq_some_iff, Prod.mk.injEq] at h
    obtain ⟨m', hm, rfl, rfl⟩ := h
    exact .inl ⟨k, rfl, hm, rfl⟩
  | again k =>
    simp only [execJobs, Option.map_eq_some_iff, Prod.mk.injEq] at h
    obtain ⟨m', hm, rfl, rfl⟩ := h
    exact .inr ⟨k, rfl, hm, rfl⟩
  | _ => cases h

def JobOp.keeps : JobOp → Bool
  | .createJob _ _ | .saveStatus _ _ | .delay _ | .receive => false
  | _ => true

/-- What no call but a status save changes in a row. -/
def RawPayloadMigrationJob.fixed (job : RawPayloadMigrationJob) :
    Uuid × OrganizationRow × Bool × JobStatus :=
  (job.id, job.organization, job.dryRun, job.status)

theorem execJobs_keeps {op : JobOp} {r : op.Resp} (hop : op.keeps = true)
    (h : execJobs op c w = some (r, w')) :
    w'.queue = w.queue ∧ w'.delivered = w.delivered ∧
      w'.jobs.map RawPayloadMigrationJob.fixed = w.jobs.map RawPayloadMigrationJob.fixed := by
  have hupdate : ∀ (id : Uuid) (now : Nat) (f : RawPayloadMigrationJob → RawPayloadMigrationJob),
      (∀ row, (f row).fixed = row.fixed) →
      (updateJob id now f w.jobs).map RawPayloadMigrationJob.fixed =
        w.jobs.map RawPayloadMigrationJob.fixed := by
    intro id now f hf
    rw [updateJob, List.map_map]
    refine List.map_congr_left fun row _ => ?_
    rw [Function.comp_apply, savedRow]
    split_ifs
    · exact hf row
    · rfl
  cases op with
  | createJob organization dryRun => cases hop
  | saveStatus fields copy => cases hop
  | delay id => cases hop
  | receive => cases hop
  | saveCancelRequested copy =>
    cases c with
    | clock now =>
      cases h
      exact ⟨rfl, rfl, hupdate _ _ _ fun _ => rfl⟩
    | _ => cases h
  | saveResult id result =>
    cases c with
    | clock now =>
      cases h
      exact ⟨rfl, rfl, hupdate _ _ _ fun _ => rfl⟩
    | _ => cases h
  | refreshCancelRequested id =>
    cases c with
    | clock now =>
      simp only [execJobs, Option.map_eq_some_iff, Prod.mk.injEq] at h
      obtain ⟨-, -, -, rfl⟩ := h
      exact ⟨rfl, rfl, rfl⟩
    | _ => cases h
  | store schemaName op =>
    cases c with
    | raw a =>
      simp only [execJobs] at h
      split_ifs at h
      simp only [Option.map_eq_some_iff, Prod.mk.injEq] at h
      obtain ⟨x, -, -, rfl⟩ := h
      exact ⟨rfl, rfl, rfl⟩
    | _ => cases h
  | _ => cases c <;> cases h <;> exact ⟨rfl, rfl, rfl⟩

theorem execJobs_answered {op : JobOp} {r : op.Resp} (h : execJobs op c w = some (r, w')) :
    JobAnswered op r := by
  cases op with
  | getJob id =>
    cases c with
    | clock now =>
      cases h
      exact fun job hjob => findJob_id hjob
    | _ => cases h
  | createJob organization dryRun =>
    intro job hjob
    rcases execJobs_createJob h with ⟨rfl, -⟩ | ⟨job', rfl, hdry, -⟩
    · cases hjob
    · cases hjob
      exact hdry
  | _ => trivial

/-! Identifiers are unique, and an organization has at most one active job. -/

structure TableOk (jobs : List RawPayloadMigrationJob) : Prop where
  ids : (jobs.map RawPayloadMigrationJob.id).Nodup
  unique : ∀ a ∈ jobs, ∀ b ∈ jobs, a.status.active = true → b.status.active = true →
    a.organization.id = b.organization.id → a.id = b.id

theorem TableOk.of_fixed {jobs' : List RawPayloadMigrationJob} (h : TableOk jobs)
    (hfixed : jobs'.map RawPayloadMigrationJob.fixed = jobs.map RawPayloadMigrationJob.fixed) :
    TableOk jobs' := by
  have hmem : ∀ a ∈ jobs', ∃ b ∈ jobs, b.fixed = a.fixed := by
    intro a ha
    have := List.mem_map_of_mem (f := RawPayloadMigrationJob.fixed) ha
    rw [hfixed] at this
    exact List.mem_map.mp this
  refine ⟨?_, fun a ha b hb hactive hactive' horg => ?_⟩
  · have hids := congrArg (List.map Prod.fst) hfixed
    rw [List.map_map, List.map_map] at hids
    exact (show jobs'.map RawPayloadMigrationJob.id = jobs.map RawPayloadMigrationJob.id from
      hids) ▸ h.ids
  · obtain ⟨a', ha', hfa⟩ := hmem a ha
    obtain ⟨b', hb', hfb⟩ := hmem b hb
    simp only [RawPayloadMigrationJob.fixed, Prod.mk.injEq] at hfa hfb
    obtain ⟨hida, horga, -, hstatusa⟩ := hfa
    obtain ⟨hidb, horgb, -, hstatusb⟩ := hfb
    rw [← hida, ← hidb]
    exact h.unique a' ha' b' hb' (by rw [hstatusa]; exact hactive)
      (by rw [hstatusb]; exact hactive') (by rw [horga, horgb]; exact horg)

theorem hasOtherActive_false {organization : Nat}
    (h : hasOtherActive jobs id organization = false) (hrow : row ∈ jobs) (hid : row.id ≠ id)
    (horg : row.organization.id = organization) : row.status.active = false := by
  have := List.any_eq_false.mp h row hrow
  simpa [hid, horg] using this

theorem TableOk.append (h : TableOk jobs)
    (hfresh : job.id ∉ jobs.map RawPayloadMigrationJob.id)
    (hother : hasOtherActive jobs job.id job.organization.id = false) :
    TableOk (jobs ++ [job]) := by
  have hne : ∀ a ∈ jobs, a.id ≠ job.id := fun a ha heq =>
    hfresh (heq ▸ List.mem_map_of_mem ha)
  refine ⟨?_, fun a ha b hb hactive hactive' horg => ?_⟩
  · rw [List.map_append, List.nodup_append]
    refine ⟨h.ids, List.nodup_singleton _, fun x hx y hy => ?_⟩
    obtain rfl := List.mem_singleton.mp hy
    exact fun heq => hfresh (heq ▸ hx)
  · rcases List.mem_append.mp ha with ha' | ha' <;> rcases List.mem_append.mp hb with hb' | hb'
    · exact h.unique a ha' b hb' hactive hactive' horg
    · obtain rfl := List.mem_singleton.mp hb'
      rw [hasOtherActive_false hother ha' (hne a ha') horg] at hactive
      cases hactive
    · obtain rfl := List.mem_singleton.mp ha'
      rw [hasOtherActive_false hother hb' (hne b hb') horg.symm] at hactive'
      cases hactive'
    · rw [List.mem_singleton.mp ha', List.mem_singleton.mp hb']

theorem TableOk.findJob_eq (h : TableOk jobs) (hrow : row ∈ jobs) :
    findJob jobs row.id = some row := by
  cases hfind : findJob jobs row.id with
  | none => exact absurd (List.mem_map_of_mem hrow) (findJob_none.mp hfind)
  | some row' =>
    rw [List.inj_on_of_nodup_map h.ids (findJob_mem hfind) hrow (findJob_id hfind)]

section SaveStatus

variable {fields : StatusFields} {copy : RawPayloadMigrationJob} {now : Nat}

theorem savedRow_id (a : RawPayloadMigrationJob) :
    (savedRow copy.id now (fields.write copy) a).id = a.id := by
  unfold savedRow
  split_ifs
  · exact fields.write_id copy a
  · rfl

theorem savedRow_organization (a : RawPayloadMigrationJob) :
    (savedRow copy.id now (fields.write copy) a).organization = a.organization := by
  unfold savedRow
  split_ifs
  · exact fields.write_organization copy a
  · rfl

theorem savedRow_status (a : RawPayloadMigrationJob) :
    (savedRow copy.id now (fields.write copy) a).status =
      if a.id = copy.id then copy.status else a.status := by
  unfold savedRow
  split_ifs
  · exact fields.write_status copy a
  · rfl

theorem TableOk.saveStatus (h : TableOk jobs) (hrow : findJob jobs copy.id = some row)
    (hother : copy.status.active = true →
      hasOtherActive jobs copy.id row.organization.id = false) :
    TableOk (updateJob copy.id now (fields.write copy) jobs) := by
  -- A job that the save makes active, and another one of its organization.
  have hsaved : ∀ a ∈ jobs, ∀ b ∈ jobs, a.id = copy.id → b.id ≠ copy.id →
      copy.status.active = true → a.organization.id = b.organization.id →
      b.status.active = false := by
    intro a ha b hb hida hidb hactive horg
    have hrow' := h.findJob_eq ha
    rw [hida, hrow] at hrow'
    cases hrow'
    exact hasOtherActive_false (hother hactive) hb hidb horg.symm
  refine ⟨?_, fun a ha b hb hactive hactive' horg => ?_⟩
  · have hids : (updateJob copy.id now (fields.write copy) jobs).map RawPayloadMigrationJob.id =
        jobs.map RawPayloadMigrationJob.id := by
      rw [updateJob, List.map_map]
      exact List.map_congr_left fun a _ => savedRow_id a
    exact hids ▸ h.ids
  · obtain ⟨a, hmem, rfl⟩ := List.mem_map.mp ha
    obtain ⟨b, hmem', rfl⟩ := List.mem_map.mp hb
    rw [savedRow_organization, savedRow_organization] at horg
    rw [savedRow_status] at hactive hactive'
    rw [savedRow_id, savedRow_id]
    by_cases hida : a.id = copy.id <;> by_cases hidb : b.id = copy.id
    · rw [hida, hidb]
    · rw [if_pos hida] at hactive
      rw [if_neg hidb, hsaved a hmem b hmem' hida hidb hactive horg] at hactive'
      cases hactive'
    · rw [if_pos hidb] at hactive'
      rw [if_neg hida, hsaved b hmem' a hmem hidb hida hactive' horg.symm] at hactive
      cases hactive
    · rw [if_neg hida] at hactive
      rw [if_neg hidb] at hactive'
      exact h.unique a hmem b hmem' hactive hactive' horg

end SaveStatus

theorem execJobs_tableOk {op : JobOp} {r : op.Resp} (h : TableOk w.jobs)
    (he : execJobs op c w = some (r, w')) : TableOk w'.jobs := by
  cases hop : op.keeps with
  | true => exact h.of_fixed (execJobs_keeps hop he).2.2
  | false =>
    cases op with
    | createJob organization dryRun =>
      rcases execJobs_createJob he with ⟨-, rfl⟩ | ⟨job, -, -, -, hfresh, hother, rfl⟩
      · exact h
      · exact h.append hfresh hother
    | saveStatus fields copy =>
      rcases execJobs_saveStatus he with ⟨-, rfl⟩ | ⟨row, now, -, hrow, hother, rfl⟩
      · exact h
      · exact h.saveStatus hrow hother
    | delay id =>
      rcases execJobs_delay he with ⟨-, rfl⟩ | ⟨task, -, rfl⟩ <;> exact h
    | receive =>
      rcases execJobs_receive he with ⟨k, -, -, rfl⟩ | ⟨k, -, -, rfl⟩ <;> exact h
    | _ => cases hop

def statusOf (jobs : List RawPayloadMigrationJob) (id : Uuid) : Option JobStatus :=
  (findJob jobs id).map RawPayloadMigrationJob.status

theorem findJob_fixed {jobs' : List RawPayloadMigrationJob}
    (hfixed : jobs'.map RawPayloadMigrationJob.fixed = jobs.map RawPayloadMigrationJob.fixed)
    (id : Uuid) : (findJob jobs' id).map RawPayloadMigrationJob.fixed =
      (findJob jobs id).map RawPayloadMigrationJob.fixed := by
  have hfind : ∀ l : List RawPayloadMigrationJob,
      (findJob l id).map RawPayloadMigrationJob.fixed =
        (l.map RawPayloadMigrationJob.fixed).find? fun x => x.1 = id := by
    intro l
    rw [List.find?_map]
    rfl
  rw [hfind, hfind, hfixed]

theorem statusOf_fixed {jobs' : List RawPayloadMigrationJob}
    (hfixed : jobs'.map RawPayloadMigrationJob.fixed = jobs.map RawPayloadMigrationJob.fixed)
    (id : Uuid) : statusOf jobs' id = statusOf jobs id := by
  have h := congrArg (Option.map fun x => x.2.2.2) (findJob_fixed hfixed id)
  rw [Option.map_map, Option.map_map] at h
  exact h

theorem statusOf_append (hfresh : job.id ∉ jobs.map RawPayloadMigrationJob.id) :
    statusOf (jobs ++ [job]) id = if id = job.id then some job.status else statusOf jobs id := by
  rw [statusOf, findJob_append hfresh]
  split_ifs <;> rfl

theorem statusOf_saveStatus {fields : StatusFields} {copy : RawPayloadMigrationJob} {now : Nat}
    (hrow : findJob jobs copy.id = some row) :
    statusOf (updateJob copy.id now (fields.write copy) jobs) id =
      if id = copy.id then some copy.status else statusOf jobs id := by
  rw [statusOf, findJob_updateJob now (fields.write_id copy)]
  split_ifs with hid
  · subst hid
    rw [hrow, Option.map_some, Option.map_some, savedRow_status, if_pos (findJob_id hrow)]
  · rw [statusOf, Option.map_map]
    cases hfind : findJob jobs id with
    | none => rfl
    | some other =>
      have hne : other.id ≠ copy.id := by rwa [findJob_id hfind]
      simp [savedRow_status, hne]

end DataLake
