import DataLake.Ownership

/-! Terminal states in the stored row: when they stay as they are, and how a second
delivery of a message overwrites one. -/

namespace DataLake

open Foundation

namespace Cluster

/-- No claim is granted while a worker executes the run. -/
def Exclusive (s : Cluster) : ClusterEvent → Prop
  | .decide j now => ∀ m row pipeline claimed, s.workers j = some (.locked m row pipeline) →
    claimRun row m.task now = .ok claimed →
    ∀ i m' body, s.workers i = some (.executing m' body) → m'.run ≠ m.run
  | _ => True

def Ended (s : Cluster) (run : Uuid) : Prop :=
  ∃ row, s.row run = some row ∧ row.status.terminal = true

variable {platform : Platform} {s t : Cluster} {e : ClusterEvent} {i j : Nat} {run : Uuid}

/-- The body that executes a run is alone, and once the run has ended it saves nothing. -/
structure Settled (s : Cluster) : Prop where
  inv : s.Invariant
  alone : ∀ i j m m' body body', s.workers i = some (.executing m body) →
    s.workers j = some (.executing m' body') → m.run = m'.run → i = j
  shape : ∀ j m body, s.workers j = some (.executing m body) →
    body.Then (fun op _ => savesOutcome op) savesNothing
  quiet : ∀ j m body, s.workers j = some (.executing m body) → s.Ended m.run →
    body.Issues savesNothing

theorem Settled.empty : Settled {} where
  inv := .empty
  alone _ _ _ _ _ _ h := by cases h
  shape _ _ _ h := by cases h
  quiet _ _ _ h := by cases h

theorem next_executor {m : Message} {body : RunProg Unit} (h : s.next platform e = some t)
    (hi : t.workers i = some (.executing m body)) :
    (∃ body, s.workers i = some (.executing m body)) ∨
      ∃ now row pipeline claimed, e = .decide i now ∧
        s.workers i = some (.locked m row pipeline) ∧ claimRun row m.task now = .ok claimed := by
  cases next_worker h hi with
  | same hold => exact .inl ⟨body, hold⟩
  | claimed now m row claimed pipeline he hold hclaim =>
    exact .inr ⟨now, row, pipeline, claimed, he, hold, hclaim⟩
  | answered c m op k r he hold => exact .inl ⟨_, hold⟩

theorem Settled.next_alone {m m' : Message} {body body' : RunProg Unit} (hs : s.Settled)
    (hok : s.Exclusive e) (h : s.next platform e = some t)
    (hi : t.workers i = some (.executing m body)) (hj : t.workers j = some (.executing m' body'))
    (hrun : m.run = m'.run) : i = j := by
  rcases next_executor h hi with ⟨b, hi'⟩ | ⟨now, row, pipeline, claimed, rfl, hi', hclaim⟩
  · rcases next_executor h hj with ⟨b', hj'⟩ | ⟨now, row, pipeline, claimed, rfl, hj', hclaim⟩
    · exact hs.alone i j m m' b b' hi' hj' hrun
    · exact absurd hrun (hok m' row pipeline claimed hj' hclaim i m b hi')
  · rcases next_executor h hj with ⟨b', hj'⟩ | ⟨now', _, _, _, he, -, -⟩
    · exact absurd hrun.symm (hok m row pipeline claimed hi' hclaim j m' b' hj')
    · cases he
      rfl

theorem Settled.next_shape {m : Message} {body : RunProg Unit} (hs : s.Settled)
    (h : s.next platform e = some t) (hj : t.workers j = some (.executing m body)) :
    body.Then (fun op _ => savesOutcome op) savesNothing := by
  cases next_worker h hj with
  | same hold => exact hs.shape j m body hold
  | claimed now m row claimed pipeline he hold hclaim =>
    obtain ⟨-, rfl⟩ := claimRun_ok hclaim
    exact runBody_then rfl
  | answered c m op k r he hold => exact (hs.shape j m _ hold r).2

theorem RowStep.newly_ended (h : RowStep s e t run) (hended : t.Ended run) :
    s.Ended run ∨ ∃ j c m copy k, e = .answer j c ∧ m.run = run ∧
      s.workers j = some (.executing m (.call (.saveRun .outcome copy) k)) := by
  obtain ⟨row, hrow, hterminal⟩ := hended
  cases h with
  | same hsame => exact .inl ⟨row, hsame.symm.trans hrow, hterminal⟩
  | created new hnone hnew hstatus =>
    obtain rfl := Option.some.inj (hnew.symm.trans hrow)
    rw [hstatus] at hterminal
    cases hterminal
  | saved j c m fields copy old k he hj hrun hfree hsaves hold hnew =>
    obtain rfl := Option.some.inj (hnew.symm.trans hrow)
    cases fields with
    | claim => exact absurd rfl hsaves.2.1
    | progress => exact .inl ⟨old, hold, hterminal⟩
    | outcome => exact .inr ⟨j, c, m, copy, k, he, hrun, hj⟩
    | error => exact .inl ⟨old, hold, hterminal⟩
  | claimed j now m old pipeline he hj hrun hold hstatus hnew =>
    obtain rfl := Option.some.inj (hnew.symm.trans hrow)
    cases hterminal

theorem Settled.next_quiet {m : Message} {body : RunProg Unit} (hs : s.Settled)
    (h : s.next platform e = some t) (hj : t.workers j = some (.executing m body))
    (hended : t.Ended m.run) : body.Issues savesNothing := by
  cases next_worker h hj with
  | same hold hactor =>
    rcases (hs.inv.row_step _ h).newly_ended hended with hbefore | ⟨i, c, m', copy, k, rfl, hrun, hi⟩
    · exact hs.quiet j m body hold hbefore
    · exact absurd (by rw [hs.alone i j m' m _ _ hi hold hrun]; rfl) hactor
  | claimed now m row claimed pipeline he hold hclaim =>
    exfalso
    subst he
    rcases (hs.inv.row_step _ h).newly_ended hended with ⟨row', hrow, hterminal⟩ |
      ⟨i, c, m', copy, k, he, -⟩
    · obtain rfl := Option.some.inj ((hs.inv.current j m row pipeline hold).symm.trans hrow)
      obtain ⟨hstatus, -⟩ := claimRun_ok hclaim
      rcases hstatus with h | ⟨h, -⟩ <;> rw [h] at hterminal <;> cases hterminal
    · cases he
  | answered c m op k r he hold =>
    subst he
    rcases (hs.inv.row_step _ h).newly_ended hended with hbefore |
      ⟨i, c', m', copy, k', he, -, hi⟩
    · exact (hs.quiet j m _ hold hbefore).2 r
    · cases he
      cases hi.symm.trans hold
      exact (hs.shape j m _ hold r).1 rfl

theorem Settled.next (hs : s.Settled) (hok : s.Exclusive e) (h : s.next platform e = some t) :
    t.Settled where
  inv := hs.inv.next h
  alone _ _ _ _ _ _ hi hj hrun := hs.next_alone hok h hi hj hrun
  shape _ _ _ hj := hs.next_shape h hj
  quiet _ _ _ hj hended := hs.next_quiet h hj hended

theorem Settled.row_kept {row : PipelineRun} (hs : s.Settled) (h : s.next platform e = some t)
    (hrow : s.row run = some row) (hterminal : row.status.terminal = true) :
    t.row run = some row := by
  cases hs.inv.row_step run h with
  | same hsame => exact hsame.trans hrow
  | created new hnone => cases hnone.symm.trans hrow
  | saved j c m fields copy old k he hj hrun hfree hsaves hold hnew =>
    exact (hs.quiet j m _ hj ⟨row, hrun ▸ hrow, hterminal⟩).1.elim
  | claimed j now m old pipeline he hj hrun hold hstatus hnew =>
    obtain rfl := Option.some.inj (hold.symm.trans hrow)
    rcases hstatus with h | ⟨h, -⟩ <;> rw [h] at hterminal <;> cases hterminal

/-- Without a second delivery no claim is granted while the run is executed. -/
theorem Invariant.exclusive (hs : s.Invariant) (htokens : s.Tokens) (e : ClusterEvent) :
    s.Exclusive e := by
  cases e with
  | decide j now =>
    intro m row pipeline claimed hj hclaim i m' body hi hrun
    obtain ⟨-, row', hrow', hstatus, htask⟩ := hs.executing i m' body hi
    rw [hrun, hs.current j m row pipeline hj] at hrow'
    obtain rfl := Option.some.inj hrow'
    obtain ⟨hpending | ⟨-, howner⟩, -⟩ := claimRun_ok hclaim
    · exact hstatus hpending
    · have hsame : m'.task = m.task := Option.some.inj (htask.symm.trans howner)
      cases htokens.unique m.task (some i) (some j) ⟨_, hi, hsame⟩ ⟨_, hj, rfl⟩
      cases hi.symm.trans hj
  | _ => trivial

theorem exclusive_of_serial (hs : s.Invariant) (htokens : s.Tokens)
    (h : Reaches (next platform) (fun _ e => e.serial) s t) :
    Reaches (next platform) Exclusive s t :=
  h.restrict (I := fun s => s.Invariant ∧ s.Tokens) ⟨hs, htokens⟩
    (fun _ _ _ hi hok he => ⟨hi.1.next he, hi.2.next hok he⟩)
    fun _ e hi _ => hi.1.exclusive hi.2 e

end Cluster

/-- Where claims are exclusive, the row of a run that has ended stays as it is. -/
theorem terminal_row_final {platform : Platform} {s t : Cluster} {run : Uuid} {row : PipelineRun}
    (hs : Reaches (Cluster.next platform) Cluster.Exclusive {} s)
    (ht : Reaches (Cluster.next platform) Cluster.Exclusive s t) (hrow : s.row run = some row)
    (hterminal : row.status.terminal = true) : t.row run = some row := by
  have hsettled : s.Settled := hs.invariant .empty fun _ _ _ hi hok he => hi.next hok he
  have hkept : t.Settled ∧ t.row run = some row := by
    refine ht.invariant (I := fun t => t.Settled ∧ t.row run = some row) ⟨hsettled, hrow⟩
      fun u e v ⟨hu, hrow⟩ hok he => ?_
    exact ⟨hu.next hok he, hu.row_kept he hrow hterminal⟩
  exact hkept.2

/-- The events up to the end of the run by a failure, and the rejection of the second
message. -/
theorem terminal_row_final_failed : ∃ (s t : Cluster) (row : PipelineRun),
    Reaches (Cluster.next (smallSync none).platform) Cluster.Exclusive {} s ∧
    Reaches (Cluster.next (smallSync none).platform) Cluster.Exclusive s t ∧
    s.queue = [⟨⟨1⟩, ⟨6⟩, 0⟩] ∧ t.queue = [] ∧ row.status = .failed ∧ t.row ⟨1⟩ = some row := by
  have hfinal : ((replay (Cluster.next (smallSync none).platform) (fun _ e => e.serial) {}
      (twoMessages ++ takes 0 ⟨⟨1⟩, ⟨5⟩, 0⟩ ++ failsEarly 0 false ++ recordsFailure 0 ++
        [.finish 0])).bind fun s =>
      (replay (Cluster.next (smallSync none).platform) (fun _ e => e.serial) s
        (takes 0 ⟨⟨1⟩, ⟨6⟩, 0⟩)).map fun t =>
          ((s.row ⟨1⟩).map PipelineRun.status, s.queue, t.queue)) =
      some (some .failed, [⟨⟨1⟩, ⟨6⟩, 0⟩], []) := by
    decide +kernel
  obtain ⟨s, hs, hrest⟩ := Option.bind_eq_some_iff.mp hfinal
  obtain ⟨t, ht, hsummary⟩ := Option.map_eq_some_iff.mp hrest
  simp only [Prod.mk.injEq] at hsummary
  obtain ⟨hstatus, hqueue, hqueue'⟩ := hsummary
  obtain ⟨row, hrow, hfailed⟩ := Option.map_eq_some_iff.mp hstatus
  have hserial := Reaches.of_replay _ hs
  obtain ⟨⟨hinv, htokens⟩, -⟩ := Cluster.serial_run .empty .empty hserial
  have hreach := Cluster.exclusive_of_serial .empty .empty hserial
  have hreach' := Cluster.exclusive_of_serial hinv htokens (Reaches.of_replay _ ht)
  exact ⟨s, t, row, hreach, hreach', hqueue, hqueue', hfailed,
    terminal_row_final hreach hreach' hrow (by rw [hfailed]; rfl)⟩

/-- The message is delivered again while its first execution goes on, and the claim is
granted to the same task id. The first execution loads the only page. -/
def deliveredTwice : List ClusterEvent :=
  let outcome : List RunAnswer := [.clock 12, .clock 12, .done, .done]
  twoMessages.take 3 ++ takes 0 ⟨⟨1⟩, ⟨5⟩, 0⟩ ++ .redeliver 0 :: takes 1 ⟨⟨1⟩, ⟨5⟩, 0⟩ ++
    (loadAnswers ++ saveAnswers ++ outcome).map (ClusterEvent.answer 0)

/-- The second execution fails after the first one has succeeded, and overwrites its
outcome. -/
theorem succeeded_run_overwritten : ¬ ∀ (platform : Platform) (s t : Cluster) (run : Uuid)
    (row : PipelineRun), Reaches (Cluster.next platform) (fun _ _ => True) {} s →
    Reaches (Cluster.next platform) (fun _ _ => True) s t → s.row run = some row →
    row.status.terminal = true → ∃ row', t.row run = some row' ∧ row'.status = row.status ∧
      row'.finishedAt = row.finishedAt ∧ row'.errorCategory = row.errorCategory ∧
      row'.errorMessage = row.errorMessage ∧ row'.errorIsRetryable = row.errorIsRetryable := by
  intro hclaim
  have hfinal : ((replay (Cluster.next (smallSync none).platform) (fun _ _ => True) {}
      deliveredTwice).bind fun s =>
      (replay (Cluster.next (smallSync none).platform) (fun _ _ => True) s
        (failsEarly 1 false ++ recordsFailure 1)).map fun t =>
          ((s.row ⟨1⟩).map PipelineRun.status, (t.row ⟨1⟩).map PipelineRun.status)) =
      some (some .succeeded, some .failed) := by
    decide +kernel
  obtain ⟨s, hs, hrest⟩ := Option.bind_eq_some_iff.mp hfinal
  obtain ⟨t, ht, hsummary⟩ := Option.map_eq_some_iff.mp hrest
  simp only [Prod.mk.injEq] at hsummary
  obtain ⟨hstatus, hstatus'⟩ := hsummary
  obtain ⟨row, hrow, hsucceeded⟩ := Option.map_eq_some_iff.mp hstatus
  obtain ⟨row', hrow', hsame, -⟩ := hclaim _ s t ⟨1⟩ row (Reaches.of_replay _ hs)
    (Reaches.of_replay _ ht) hrow (by rw [hsucceeded]; rfl)
  rw [hrow', Option.map_some, hsame, hsucceeded] at hstatus'
  cases hstatus'

end DataLake
