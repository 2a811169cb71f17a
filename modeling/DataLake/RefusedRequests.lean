import DataLake.Foundation.Unwinding
import DataLake.JobFinality

/-! Requests of users who are no platform operators: to jobs, messages, the audit trail and
the stores of the tenants they are as if they had never been made. -/

namespace DataLake

open Foundation

/-- The views that an operator posts to. -/
def JobRequest.mutating : JobRequest → Prop
  | start _ _ | retry _ | cancel _ => True
  | work => False

/-- Whoever asks is no platform operator. -/
def RoleRefused : ∀ op : JobOp, op.Resp → Prop
  | .requirePlatformOperator, r => ∃ e, r = .error e
  | _, _ => True

/-- The calls a view makes to find what it is about and who asks. -/
def lookupOp : JobOp → Prop
  | .getOrganization _ | .getJob _ | .requirePlatformOperator => True
  | _ => False

theorem execJobs_lookup {op : JobOp} (hop : lookupOp op) (c : OpsAnswer) (w : OpsWorld)
    (r : op.Resp) (v : OpsWorld) (h : execJobs op c w = some (r, v)) : v = w := by
  cases op with
  | getOrganization id =>
    cases c with
    | clock now =>
      cases h
      rfl
    | _ => cases h
  | getJob id =>
    cases c with
    | clock now =>
      cases h
      rfl
    | _ => cases h
  | requirePlatformOperator =>
    cases c with
    | clock now =>
      cases h
      rfl
    | fail e =>
      cases h
      rfl
    | _ => cases h
  | _ => exact hop.elim

theorem confined_refused {α : Type} {f : Unit → JobProg α} :
    (jobCall .requirePlatformOperator >>= fun role => Prog.ofExcept role >>= f).Confined
      RoleRefused lookupOp := by
  refine ⟨trivial, fun r hr => ?_⟩
  obtain ⟨e, rfl⟩ := hr
  trivial

/-- A view asks for the role before it does anything. -/
theorem program_confined (platform : Platform) (request : JobRequest) (h : request.mutating) :
    (request.program platform).Confined RoleRefused lookupOp := by
  cases request with
  | start orgId dryRun =>
    refine ⟨trivial, fun found _ => ?_⟩
    cases found with
    | none => trivial
    | some organization => exact confined_refused
  | retry id =>
    refine ⟨trivial, fun found _ => ?_⟩
    cases found with
    | none => trivial
    | some job => exact confined_refused
  | cancel id =>
    refine ⟨trivial, fun found _ => ?_⟩
    cases found with
    | none => trivial
    | some job => exact confined_refused
  | work => exact h.elim

/-- Take any run in which some of the sessions serve requests to start, retry or cancel a job
by users that the role check refuses. The steps of all others make a run of their own, which
comes to the same jobs, messages, audit trail, objects and records, and leaves every other
session where it was. -/
theorem refused_requests_purged (platform : Platform) (D : Nat → Bool) {s t : Ops}
    (events : List OpsEvent) (hs : ∀ i, D i = true → s.sessions i = none)
    (h : Plays (Ops.next platform)
      (Sessions.Answered execJobs D JobRequest.mutating RoleRefused) s events t) :
    ∃ t', Plays (Ops.next platform) (fun _ _ => True) s
        (events.filter fun e => !D e.session) t' ∧
      t'.world = t.world ∧ ∀ i, D i = false → t'.sessions i = t.sessions i := by
  have hconfined : Sessions.AllConfined D RoleRefused lookupOp s := by
    intro i x hi hx
    rw [hs i hi] at hx
    cases hx
  have hunwinding := Sessions.unwinding (D := D) (fun _ => execJobs_lookup)
    (program_confined platform)
  obtain ⟨t', hplays, hworld, hsessions⟩ :=
    hunwinding.purge hconfined ⟨rfl, fun _ _ => rfl⟩ h
  exact ⟨t', hplays, hworld.symm, fun i hi => (hsessions i hi).symm⟩

/-- The sessions of `D` post, and the role check refuses them. -/
def refusing (D : Nat → Bool) (s : Ops) : OpsEvent → Bool
  | .start i request => !D i || request ≠ .work
  | .step i c => !D i ||
    match s.sessions i, c with
    | some ⟨_, .call .requirePlatformOperator _, _, _⟩, .fail _ => true
    | some ⟨_, .call .requirePlatformOperator _, _, _⟩, _ => false
    | _, _ => true
  | .die _ => true

theorem answered_of_refusing {D : Nat → Bool} {s : Ops} {e : OpsEvent}
    (h : refusing D s e = true) :
    Sessions.Answered execJobs D JobRequest.mutating RoleRefused s e := by
  cases e with
  | start i request =>
    intro hi
    cases request with
    | work => simp [refusing, hi] at h
    | _ => trivial
  | step i c =>
    rintro hi ⟨request, prog, log, alive⟩ op k r w hx rfl hexec
    cases op with
    | requirePlatformOperator =>
      cases c with
      | fail e =>
        cases hexec
        exact ⟨e, rfl⟩
      | _ => simp [refusing, hi, hx] at h
    | _ => trivial
  | die i => trivial

def forbidden (x : JobSession) : Bool :=
  match x.prog with
  | .raise (.other text) => text = "Forbidden"
  | _ => false

theorem forbidden_raise {x : JobSession} (h : forbidden x = true) :
    x.prog = .raise (.other "Forbidden") := by
  unfold forbidden at h
  split at h
  · rename_i text hprog
    rw [hprog, of_decide_eq_true h]
  · cases h

/-- A user who is no operator asks to start a job while a worker begins to execute one. -/
theorem refused_requests_purged_start :
    ∃ t t' : Ops, (∃ x, t.sessions 0 = some x ∧ x.prog = .raise (.other "Forbidden")) ∧
      Plays (Ops.next smallPlatform) (fun _ _ => True) (Sessions.idle queuedJob)
        [.start 1 .work, .step 1 (.message 0), .step 1 (.clock 0), .step 1 (.clock 0),
          .step 1 (.clock 0)] t' ∧
      t'.world = t.world ∧ t'.sessions 1 = t.sessions 1 ∧
      statusOf t.world.jobs ⟨1⟩ = some .running := by
  let D : Nat → Bool := fun i => i = 0
  let events : List OpsEvent :=
    [.start 0 (.start 1 false), .start 1 .work, .step 0 (.clock 0), .step 1 (.message 0),
      .step 1 (.clock 0), .step 0 (.fail (.other "Forbidden")), .step 1 (.clock 0),
      .step 1 (.clock 0)]
  have hfinal : (replay (Ops.next smallPlatform) (fun s e => refusing D s e = true)
      (Sessions.idle queuedJob) events).map (fun t =>
        ((t.sessions 0).map forbidden, statusOf t.world.jobs ⟨1⟩)) =
      some (some true, some .running) := by
    decide +kernel
  obtain ⟨t, ht, hsummary⟩ := Option.map_eq_some_iff.mp hfinal
  obtain ⟨hforbidden, hrunning⟩ := Prod.mk.injEq _ _ _ _ ▸ hsummary
  obtain ⟨x, hx, hraise⟩ := Option.map_eq_some_iff.mp hforbidden
  have hplays := (Plays.of_replay ht).mono fun _ _ h => answered_of_refusing h
  obtain ⟨t', hpurged, hworld, hsessions⟩ :=
    refused_requests_purged smallPlatform D events (fun _ _ => rfl) hplays
  exact ⟨t, t', ⟨x, hx, forbidden_raise hraise⟩, hpurged, hworld, hsessions 1 rfl, hrunning⟩

end DataLake
