import DataLake.JobCancellation

/-! Whether a migration job appears stalled: the clock of staleness is the column that every
save writes, the save of a cancellation included. -/

namespace DataLake

open Foundation

def OpsEvent.time : OpsEvent → Option Nat
  | .step _ (.clock now) | .step _ (.fresh _ now) => some now
  | _ => none

/-- The call saves a cancellation of the job. -/
def JobOp.cancels (id : Uuid) : JobOp → Bool
  | .saveCancelRequested copy => copy.id = id
  | _ => false

def cancelsJob (id : Uuid) (x : JobSession) : Bool :=
  match x.prog with
  | .call op _ => op.cancels id
  | _ => false

/-- The operator's interface under a clock that never goes back, and when the cancellations
of one job were saved. -/
structure TimedOps where
  ops : Ops
  now : Nat
  cancels : List Nat := []

namespace TimedOps

def cancelled (id : Uuid) (s : TimedOps) : OpsEvent → Bool
  | .step i _ => (s.ops.sessions i).any (cancelsJob id)
  | _ => false

def next (platform : Platform) (id : Uuid) (s : TimedOps) (e : OpsEvent) : Option TimedOps :=
  let now := (OpsEvent.time e).getD s.now
  if s.now ≤ now then
    (s.ops.next platform e).map fun ops =>
      { ops, now, cancels := if s.cancelled id e then s.cancels ++ [now] else s.cancels }
  else none

theorem next_spec {platform : Platform} {id : Uuid} {s t : TimedOps} {e : OpsEvent}
    (h : s.next platform id e = some t) :
    s.ops.next platform e = some t.ops ∧ t.now = (OpsEvent.time e).getD s.now ∧ s.now ≤ t.now ∧
      t.cancels = if s.cancelled id e then s.cancels ++ [t.now] else s.cancels := by
  unfold next at h
  by_cases hnow : s.now ≤ (OpsEvent.time e).getD s.now
  · rw [if_pos hnow] at h
    obtain ⟨ops, hops, rfl⟩ := Option.map_eq_some_iff.mp h
    exact ⟨hops, rfl, hnow, rfl⟩
  · rw [if_neg hnow] at h
    cases h

end TimedOps

/-- The requests of an operator: cancellations and retries. -/
def operatorOnly : OpsEvent → Bool
  | .start _ (.cancel _) | .start _ (.retry _) | .step _ _ | .die _ => true
  | .start _ _ => false

/-- A retry goes on from the save that cancels the job. -/
def Supersedes (w : OpsWorld) (job : RawPayloadMigrationJob) (now : Nat) : Prop :=
  ∃ p v, (retryMigrationJob job).step execJobs (.clock now) w = some (p, w) ∧
    p.step execJobs (.clock now) w = some (startMigrationJob job.organization job.dryRun, v) ∧
    statusOf v.jobs job.id = some .cancelled

variable {platform : Platform} {id : Uuid} {job row : RawPayloadMigrationJob} {c : OpsAnswer}
  {v w : OpsWorld} {now : Nat}

theorem isStale_iff (hrunning : job.status = .running) :
    job.isStale now = true ↔ now - job.updatedAt > staleJobThreshold := by
  simp [RawPayloadMigrationJob.isStale, hrunning]

/-- What is left of a retry once it has read the clock. -/
theorem retryMigrationJob_step (hrunning : job.status = .running) (w : OpsWorld) (now : Nat) :
    (retryMigrationJob job).step execJobs (.clock now) w =
      some (if !job.isStale now then
        raiseError (configurationError (s!"migration job {String.ofList job.id.text} is still " ++
          "running; wait for it to finish or cancel it"))
      else jobCall (.saveStatus .failure (superseded job)) >>= fun saved =>
        Prog.ofExcept saved >>= fun _ => startMigrationJob job.organization job.dryRun, w) := by
  rw [retryMigrationJob, if_pos hrunning]
  rfl

theorem supersedes_of_stale (hrow : findJob w.jobs job.id = some job)
    (hrunning : job.status = .running) (hstale : job.isStale now = true) :
    Supersedes w job now := by
  have hrow' : findJob w.jobs (superseded job).id = some job := hrow
  have hsaved : execJobs (.saveStatus .failure (superseded job)) (.clock now) w =
      some (.ok (), { w with
        jobs := updateJob job.id now (StatusFields.failure.write (superseded job)) w.jobs }) := by
    simp only [execJobs, hrow']
    rfl
  refine ⟨jobCall (.saveStatus .failure (superseded job)) >>= fun saved =>
    Prog.ofExcept saved >>= fun _ => startMigrationJob job.organization job.dryRun,
    { w with jobs := updateJob job.id now (StatusFields.failure.write (superseded job)) w.jobs },
    ?_, ?_, ?_⟩
  · rw [retryMigrationJob_step hrunning, hstale]
    rfl
  · exact congrArg (Option.map _) hsaved
  · exact (statusOf_saveStatus hrow').trans (if_pos rfl)

/-! The calls of cancellations and retries. -/

/-- A call of one of the requests of an operator. -/
def operatorOp : JobOp → Prop
  | .saveStatus _ copy => copy.status = .cancelled
  | .receive | .saveResult _ _ | .refreshCancelRequested _ | .store _ _ => False
  | _ => True

theorem operatorOp_cancelOp {op : JobOp} (h : cancelOp op) : operatorOp op := by
  cases op with
  | getJob _ => trivial
  | requirePlatformOperator => trivial
  | saveCancelRequested _ => trivial
  | _ => exact h.elim

theorem issues_jobCall {α : Type} {P : JobOp → Prop} {op : JobOp} {f : op.Resp → JobProg α}
    (hop : P op) (hf : ∀ r, (f r).Issues P) : (jobCall op >>= f).Issues P := ⟨hop, hf⟩

theorem issues_migrationJobRetry (id : Uuid) : (migrationJobRetry id).Issues operatorOp := by
  have hstart : ∀ organization dryRun,
      (startMigrationJob organization dryRun).Issues operatorOp := by
    intro organization dryRun
    refine ⟨trivial, fun active => ?_⟩
    cases active with
    | some active => trivial
    | none =>
      refine ⟨trivial, fun job => ?_⟩
      cases job with
      | some job => trivial
      | none => exact ⟨trivial, fun existing => by cases existing <;> trivial⟩
  refine ⟨trivial, fun found => ?_⟩
  cases found with
  | none => trivial
  | some job =>
    refine ⟨trivial, fun role => (Prog.issues_ofExcept _ role).bind fun _ => ?_⟩
    refine Prog.Issues.handle ?_ (fun result => ?_) fun e => ?_
    · unfold retryMigrationJob
      split_ifs
      · refine issues_jobCall trivial fun now => ?_
        split_ifs
        · trivial
        · exact ⟨rfl, fun saved => (Prog.issues_ofExcept _ saved).bind fun _ => hstart _ _⟩
      · exact hstart _ _
    · exact ⟨trivial, fun _ => ⟨trivial, fun sent =>
        (Prog.issues_ofExcept _ sent).bind fun _ => trivial⟩⟩
    · cases e with
      | dataLake e =>
        dsimp only
        split_ifs <;> trivial
      | other message => trivial

/-- What a call of an operator's request does to a job: it saves a cancellation of it, or it
leaves the row as it is, or the job is cancelled. -/
inductive Touched (id : Uuid) (row : RawPayloadMigrationJob) (op : JobOp) (c : OpsAnswer)
    (w : OpsWorld) : Prop where
  | asked (cancelRequested : Bool) (now : Nat) (hop : op.cancels id = true) (hc : c = .clock now)
    (hrow : findJob w.jobs id = some { row with cancelRequested, updatedAt := now })
  | kept (hop : op.cancels id = false) (hrow : findJob w.jobs id = some row)
  | cancelled (hop : op.cancels id = false) (hstatus : statusOf w.jobs id = some .cancelled)

/-- A call that leaves the table of jobs as it is. -/
def JobOp.reads : JobOp → Bool
  | .getOrganization _ | .requirePlatformOperator | .getJob _ | .getActiveJob _ | .now
  | .recordAuditEvent _ _ => true
  | _ => false

theorem execJobs_reads {op : JobOp} {r : op.Resp} (hop : op.reads = true)
    (h : execJobs op c v = some (r, w)) : w.jobs = v.jobs := by
  cases op with
  | getOrganization _ => cases c <;> cases h; rfl
  | requirePlatformOperator => cases c <;> cases h <;> rfl
  | getJob _ => cases c <;> cases h; rfl
  | getActiveJob _ => cases c <;> cases h; rfl
  | now => cases c <;> cases h; rfl
  | recordAuditEvent _ _ => cases c <;> cases h; rfl
  | _ => cases hop

theorem touched_operatorOp {op : JobOp} {r : op.Resp} (hop : operatorOp op)
    (hrow : findJob v.jobs id = some row) (h : execJobs op c v = some (r, w)) :
    Touched id row op c w := by
  cases op with
  | saveCancelRequested copy =>
    cases c with
    | clock now =>
      cases h
      have hsaved : findJob (updateJob copy.id now (fun job =>
          { job with cancelRequested := copy.cancelRequested }) v.jobs) id = some (if id = copy.id
            then { row with cancelRequested := copy.cancelRequested, updatedAt := now } else row) :=
        findJob_saved (fun _ => rfl) hrow
      split_ifs at hsaved with hid
      · exact .asked copy.cancelRequested now (decide_eq_true hid.symm) rfl hsaved
      · exact .kept (decide_eq_false (Ne.symm hid)) hsaved
    | _ => cases h
  | saveStatus fields copy =>
    rcases execJobs_saveStatus h with ⟨-, rfl⟩ | ⟨row', now, -, hrow', -, rfl⟩
    · exact .kept rfl hrow
    · by_cases hid : id = copy.id
      · refine .cancelled rfl ((statusOf_saveStatus hrow').trans ?_)
        rw [if_pos hid, show copy.status = .cancelled from hop]
      · refine .kept rfl ((findJob_saved (fields.write_id copy) hrow).trans ?_)
        rw [if_neg hid]
  | createJob organization dryRun =>
    rcases execJobs_createJob h with ⟨-, rfl⟩ | ⟨job, -, -, -, hfresh, -, rfl⟩
    · exact .kept rfl hrow
    · refine .kept rfl ((findJob_append hfresh).trans ?_)
      rw [if_neg, hrow]
      rintro rfl
      exact hfresh (findJob_id hrow ▸ List.mem_map_of_mem (findJob_mem hrow))
  | delay _ =>
    rcases execJobs_delay h with ⟨-, rfl⟩ | ⟨task, -, rfl⟩ <;> exact .kept rfl hrow
  | receive => exact hop.elim
  | saveResult _ _ => exact hop.elim
  | refreshCancelRequested _ => exact hop.elim
  | store _ _ => exact hop.elim
  | _ => exact .kept rfl ((congrArg (findJob · id) (execJobs_reads rfl h)).trans hrow)

/-! Runs of an operator's requests, after the last save of the worker. -/

/-- The column is written at the worker's last save, and whenever a cancellation is saved. -/
structure Clocked (id : Uuid) (saved : Nat) (s : TimedOps) : Prop where
  issues : ∀ i x, s.ops.sessions i = some x → x.prog.Issues operatorOp
  past : ∀ τ ∈ saved :: s.cancels, τ ≤ s.now
  row : ∃ row, findJob s.ops.world.jobs id = some row ∧ (row.status = .running →
    row.updatedAt ∈ saved :: s.cancels ∧ ∀ τ ∈ saved :: s.cancels, τ ≤ row.updatedAt)

theorem clocked_idle (hrow : findJob w.jobs id = some row) :
    Clocked id row.updatedAt ⟨Sessions.idle w, row.updatedAt, []⟩ where
  issues _ _ hx := nomatch hx
  past _ h := (List.mem_singleton.mp h).le
  row := ⟨row, hrow, fun _ => ⟨List.mem_singleton.mpr rfl, fun _ h => (List.mem_singleton.mp h).le⟩⟩

theorem issues_operator {i : Nat} {request : JobRequest}
    (h : operatorOnly (.start i request) = true) : (request.program platform).Issues operatorOp := by
  cases request with
  | cancel id => exact (issues_migrationJobCancel id).mono fun _ => operatorOp_cancelOp
  | retry id => exact issues_migrationJobRetry id
  | _ => cases h

theorem issues_set {P : JobOp → Prop} {s : Ops} {i : Nat} {x : JobSession} {w : OpsWorld}
    (hs : ∀ i x, s.sessions i = some x → x.prog.Issues P) (hx : x.prog.Issues P) :
    ∀ j y, (s.set w i x).sessions j = some y → y.prog.Issues P := by
  intro j y hy
  rcases Sessions.set_sessions hy with ⟨-, rfl⟩ | ⟨-, hy⟩
  · exact hx
  · exact hs j y hy

theorem Clocked.next {saved : Nat} {s t : TimedOps} {e : OpsEvent} (hs : Clocked id saved s)
    (hok : operatorOnly e = true) (h : s.next platform id e = some t) : Clocked id saved t := by
  obtain ⟨hops, hnow, hlater, hcancels⟩ := TimedOps.next_spec h
  obtain ⟨row, hrow, hclock⟩ := hs.row
  have hpast : ∀ τ ∈ saved :: s.cancels, τ ≤ t.now := fun τ hτ => (hs.past τ hτ).trans hlater
  obtain ⟨ops, now, cancels⟩ := t
  dsimp only at hops hnow hlater hcancels hpast
  rcases Sessions.next_cases hops with ⟨i, request, rfl, hi, rfl⟩ |
    ⟨i, c, x, op, k, r, w, rfl, hx, halive, hprog, hexec, rfl⟩ | ⟨i, x, rfl, hx, rfl⟩
  · rw [show s.cancelled id _ = false from rfl, if_neg nofun] at hcancels
    subst hcancels
    exact ⟨issues_set hs.issues (issues_operator hok), hpast, row, hrow, hclock⟩
  · have hissues := hs.issues i x hx
    rw [hprog] at hissues
    have hcancelled : s.cancelled id (.step i c) = op.cancels id := by
      rw [TimedOps.cancelled, hx, Option.any_some, cancelsJob, hprog]
    rw [hcancelled] at hcancels
    cases touched_operatorOp hissues.1 hrow hexec with
    | asked cancelRequested now' hop hc hrow' =>
      subst hc
      obtain rfl : now = now' := hnow
      rw [hop, if_pos rfl] at hcancels
      subst hcancels
      have hmem : ∀ τ ∈ saved :: (s.cancels ++ [now]), τ ≤ now := by
        intro τ hτ
        rcases List.mem_append.mp (List.cons_append ▸ hτ) with hτ | hτ
        · exact hpast τ hτ
        · exact (List.mem_singleton.mp hτ).le
      refine ⟨issues_set hs.issues (hissues.2 r), hmem, _, hrow', fun _ => ⟨?_, hmem⟩⟩
      exact List.mem_cons_of_mem _ (List.mem_append_right _ (List.mem_singleton.mpr rfl))
    | kept hop hrow' =>
      rw [hop, if_neg nofun] at hcancels
      subst hcancels
      exact ⟨issues_set hs.issues (hissues.2 r), hpast, row, hrow', hclock⟩
    | cancelled hop hstatus =>
      rw [hop, if_neg nofun] at hcancels
      subst hcancels
      obtain ⟨row', hrow', hstatus'⟩ := Option.map_eq_some_iff.mp hstatus
      refine ⟨issues_set hs.issues (hissues.2 r), hpast, row', hrow', fun hrunning => ?_⟩
      rw [hstatus'] at hrunning
      cases hrunning
  · rw [show s.cancelled id _ = false from rfl, if_neg nofun] at hcancels
    subst hcancels
    exact ⟨issues_set hs.issues (hs.issues i x hx), hpast, row, hrow, hclock⟩

/-- A migration job that is still RUNNING, long after its worker saved it for the last time,
appears stalled and is superseded by a retry exactly where each cancellation of it that was
saved since is as long ago. -/
theorem stale_iff_cancels_long_ago (platform : Platform) {w : OpsWorld} {id : Uuid}
    {job : RawPayloadMigrationJob} (hjob : findJob w.jobs id = some job) {t : TimedOps}
    (ht : Reaches (TimedOps.next platform id) (fun _ e => operatorOnly e = true)
      ⟨Sessions.idle w, job.updatedAt, []⟩ t)
    {row : RawPayloadMigrationJob} (hrow : findJob t.ops.world.jobs id = some row)
    (hrunning : row.status = .running) {now : Nat}
    (hlong : now - job.updatedAt > staleJobThreshold) :
    (row.isStale now = true ∧ Supersedes t.ops.world row now) ↔
      ∀ τ ∈ t.cancels, now - τ > staleJobThreshold := by
  have hclocked : Clocked id job.updatedAt t :=
    ht.invariant (clocked_idle hjob) fun _ _ _ hi hok he => hi.next hok he
  obtain ⟨row', hrow', hclock⟩ := hclocked.row
  obtain rfl := Option.some.inj (hrow.symm.trans hrow')
  obtain ⟨hmem, hlast⟩ := hclock hrunning
  have hid : row.id = id := findJob_id hrow
  rw [← hid] at hrow
  constructor
  · rintro ⟨hstale, -⟩ τ hτ
    rw [isStale_iff hrunning] at hstale
    have := hlast τ (List.mem_cons_of_mem _ hτ)
    omega
  · intro hcancels
    have hstale : row.isStale now = true := by
      rw [isStale_iff hrunning]
      rcases List.mem_cons.mp hmem with h | h
      · rwa [h]
      · exact hcancels _ h
    exact ⟨hstale, supersedes_of_stale hrow hrunning hstale⟩

/-- A job whose worker saved it for the last time when the clock began. -/
def abandonedJob : RawPayloadMigrationJob :=
  { id := ⟨6⟩, organization := acme, status := .running }

def cancelAt (now : Nat) : List OpsEvent :=
  [.start 0 (.cancel ⟨6⟩), .step 0 (.clock now), .step 0 (.clock now), .step 0 (.clock now)]

def abandoned : TimedOps := ⟨Sessions.idle (smallOps [abandonedJob] []), 0, []⟩

def askedJob : RawPayloadMigrationJob :=
  { abandonedJob with cancelRequested := true, updatedAt := 800 }

theorem abandoned_cancelled : ∃ t,
    Reaches (TimedOps.next smallPlatform ⟨6⟩) (fun _ e => operatorOnly e = true) abandoned t ∧
      t.now = 800 ∧ t.cancels = [800] ∧ findJob t.ops.world.jobs ⟨6⟩ = some askedJob := by
  have hfinal : (replay (TimedOps.next smallPlatform ⟨6⟩) (fun _ e => operatorOnly e = true)
      abandoned (cancelAt 800)).map (fun t =>
        (t.now, t.cancels, findJob t.ops.world.jobs ⟨6⟩)) = some (800, [800], some askedJob) := by
    decide +kernel
  obtain ⟨t, ht, hend⟩ := Option.map_eq_some_iff.mp hfinal
  obtain ⟨hnow, hend⟩ := Prod.mk.injEq _ _ _ _ ▸ hend
  obtain ⟨hcancels, hrow⟩ := Prod.mk.injEq _ _ _ _ ▸ hend
  exact ⟨t, Reaches.of_replay _ ht, hnow, hcancels, hrow⟩

theorem stale_iff_cancels_long_ago_abandoned : ∃ t,
    Reaches (TimedOps.next smallPlatform ⟨6⟩) (fun _ e => operatorOnly e = true) abandoned t ∧
      t.cancels = [800] ∧ askedJob.isStale 1701 = true ∧ Supersedes t.ops.world askedJob 1701 := by
  obtain ⟨t, ht, -, hcancels, hrow⟩ := abandoned_cancelled
  have hjob : findJob (smallOps [abandonedJob] []).jobs ⟨6⟩ = some abandonedJob := rfl
  have hstale := stale_iff_cancels_long_ago smallPlatform hjob ht hrow rfl
    (show 1701 - 0 > staleJobThreshold by decide)
  refine ⟨t, ht, hcancels, hstale.mpr fun τ hτ => ?_⟩
  rw [hcancels] at hτ
  rw [List.mem_singleton.mp hτ]
  decide

/-- The worker stopped at 0; a cancellation was saved at 800. At 901 the job does not appear
stalled, and a retry of it is refused. -/
theorem cancelled_job_not_stale : ¬ ∀ (platform : Platform) (w : OpsWorld) (id : Uuid)
    (job : RawPayloadMigrationJob), findJob w.jobs id = some job → job.status = .running →
    ∀ t : TimedOps, Reaches (TimedOps.next platform id) (fun _ e => operatorOnly e = true)
      ⟨Sessions.idle w, job.updatedAt, []⟩ t →
    ∀ row, findJob t.ops.world.jobs id = some row → row.status = .running →
    ∀ now, t.now ≤ now → now - job.updatedAt > staleJobThreshold →
      row.isStale now = true ∧ Supersedes t.ops.world row now := by
  intro hclaim
  obtain ⟨t, ht, hnow, -, hrow⟩ := abandoned_cancelled
  have hstale := (hclaim smallPlatform (smallOps [abandonedJob] []) ⟨6⟩ abandonedJob rfl rfl t ht
    askedJob hrow rfl 901 (by rw [hnow]; decide) (by decide)).1
  exact absurd hstale (by decide)

end DataLake
