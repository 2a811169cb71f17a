import DataLake.AttemptHistory
import DataLake.PageAttempts

/-! The versions of the pages over all attempts at a run and at the runs that continue it:
which of them was loaded, and how many. -/

namespace DataLake

open Foundation

variable {platform : Platform} {tenant run : Uuid} {chain : List Uuid} {pipeline : Pipeline}
  {copy copy' row : PipelineRun} {isFinal : Bool} {t : Watched} {s u : Attempts}

/-- The run has its pages, with some copy of its row. -/
def HasPages (platform : Platform) (tenant run : Uuid) (chain : List Uuid) (t : Watched) : Prop :=
  ∃ copy, copy.id = run ∧ Pages platform tenant chain copy t

def VersionsInv (platform : Platform) (tenant : Uuid) (s : Attempts) : Prop :=
  ∃ chain, match s.attempt with
  | none => HasPages platform tenant s.run chain s.watched
  | some (pipeline, _, p) => PageMoment platform tenant s.run chain s.watched ∧
      p.Safe (execWatched tenant pipeline s.run) Eq (PageGuards platform tenant s.run chain)
        (fun _ t => HasPages platform tenant s.run chain t) s.watched

theorem Pages.copied (h : Pages platform tenant chain copy t) (hid : copy'.id = copy.id)
    (hpages : copy'.pagesExtracted = copy.pagesExtracted)
    (hpayloads : copy'.rawPayloadCount = copy.rawPayloadCount)
    (hpipeline : copy'.pipeline = copy.pipeline) : Pages platform tenant chain copy' t where
  versions := hpages ▸ h.versions
  backed := h.backed
  addressed := h.addressed
  known := h.known
  chain := hid ▸ h.chain
  row := by rw [hid, hpages, hpipeline]; exact h.row
  counted := by rw [hpayloads, hpages]; exact h.counted
  bounded := by rw [hid, hpages]; exact h.bounded
  own := by rw [hid, hpipeline]; exact h.own
  settled := h.settled

theorem HasPages.of_row (h : HasPages platform tenant run chain t)
    (hrow : findRun t.world.runs run = some row) : Pages platform tenant chain row t := by
  obtain ⟨copy, hid, hpages⟩ := h
  obtain ⟨row', hrow', hextracted, hpayloads, hpipeline⟩ := hpages.row
  rw [hid, hrow] at hrow'
  cases hrow'
  exact hpages.copied ((findRun_id hrow).trans hid.symm) hextracted
    (hpayloads.trans hpages.counted.symm) hpipeline

theorem VersionsInv.deliver {task : Uuid} {now : Nat} (hs : VersionsInv platform tenant s)
    (h : s.next platform tenant (.deliver pipeline task isFinal now) = some u) :
    VersionsInv platform tenant u := by
  obtain ⟨hattempt, row, hrow, rfl | ⟨claimed, hclaim, rfl⟩⟩ := Attempts.next_deliver h
  · exact hs
  · obtain ⟨chain, hstate⟩ := hs
    rw [hattempt] at hstate
    obtain rfl := (claimRun_ok hclaim).2
    have hid : (claimedRow row task now).id = s.run := by
      change row.id = s.run
      exact findRun_id hrow
    have hclaim : RunFields.claim ≠ .progress := nofun
    have hpages : Pages platform tenant chain (claimedRow row task now)
        (s.claim platform pipeline (claimedRow row task now) isFinal).watched :=
      ((HasPages.of_row hstate hrow).saveFields hclaim (claimedRow row task now)).copied rfl rfl rfl
        rfl
    have hmoment := hpages.moment
    have hsafe := runBody_pages pipeline isFinal hpages
    rw [hid] at hmoment hsafe
    exact ⟨chain, hmoment, hsafe⟩

theorem VersionsInv.answer {c : RunAnswer} (hs : VersionsInv platform tenant s)
    (h : s.next platform tenant (.answer c) = some u) : VersionsInv platform tenant u := by
  obtain ⟨pipeline, isFinal, p, p', watched, hattempt, hp, rfl⟩ := Attempts.next_answer h
  obtain ⟨chain, hstate⟩ := hs
  rw [hattempt] at hstate
  exact ⟨chain, hstate.2.step (fun _ => rfl) hp⟩

theorem VersionsInv.finish (hs : VersionsInv platform tenant s)
    (h : s.next platform tenant .finish = some u) : VersionsInv platform tenant u := by
  obtain ⟨pipeline, isFinal, out, hattempt, rfl⟩ := Attempts.next_finish h
  obtain ⟨chain, hstate⟩ := hs
  rw [hattempt] at hstate
  exact ⟨chain, hstate.2.ended fun _ => rfl⟩

/-- The new run starts where the one that it continues stopped. -/
theorem Pages.continueRun (h : Pages platform tenant chain row t) (pipeline : Pipeline)
    (key : Text) {fresh : Uuid} (hfresh : fresh ∉ t.world.runs.map PipelineRun.id) :
    let new := { newRun pipeline key (some row) with id := fresh }
    Pages platform tenant (fresh :: chain) new
      { t with world := { t.world with runs := t.world.runs ++ [new] } } := by
  intro new
  have hnew : findRun (t.world.runs ++ [new]) fresh = some new := by
    rw [findRun_append hfresh, if_pos rfl]
  have hrecords : ∀ r ∈ t.records, r.run ≠ fresh := fun r hr heq =>
    hfresh (heq ▸ h.known r hr)
  refine {
    versions := h.versions.continued hrecords
    backed := h.backed
    addressed := h.addressed
    known := fun r hr => ?_
    chain := .next hnew rfl (h.chain.append [new])
    row := ⟨new, hnew, rfl, h.counted, rfl⟩
    counted := h.counted
    bounded := fun r hr hrun => absurd hrun (hrecords r hr)
    own := fun r hr hrun => absurd hrun (hrecords r hr)
    settled := h.settled }
  rw [List.map_append]
  exact List.mem_append_left _ (h.known r hr)

theorem VersionsInv.continueRun {key : Option Text} {policy : DispatchOp → DispatchAnswer}
    (hs : VersionsInv platform tenant s)
    (h : s.next platform tenant (.continueRun pipeline key policy) = some u) :
    VersionsInv platform tenant u := by
  obtain ⟨hattempt, row, hrow, rfl | ⟨key, fresh, -, hfresh, rfl⟩⟩ := Attempts.next_continueRun h
  · exact hs
  · obtain ⟨chain, hstate⟩ := hs
    rw [hattempt] at hstate
    have hpages := (HasPages.of_row hstate hrow).continueRun pipeline key hfresh
    refine ⟨fresh :: chain, ?_⟩
    show match s.attempt with
      | none => _
      | some (pipeline, _, p) => _
    rw [hattempt]
    exact ⟨_, rfl, hpages⟩

theorem VersionsInv.next {e : AttemptsEvent} (hs : VersionsInv platform tenant s)
    (h : s.next platform tenant e = some u) : VersionsInv platform tenant u := by
  cases e with
  | deliver pipeline task isFinal now => exact hs.deliver h
  | answer c => exact hs.answer h
  | finish => exact hs.finish h
  | continueRun pipeline key policy => exact hs.continueRun h

theorem versionsInv_start {w : World} {row : PipelineRun} (hrow : findRun w.runs row.id = some row)
    (hpages : row.pagesExtracted = 0) (hpayloads : row.rawPayloadCount = 0)
    (hfirst : row.continuedFrom = none) (hids : (w.store.records.map RawPayloadRecord.id).Nodup)
    (hversions : (w.store.records.map RawPayloadRecord.version).Nodup)
    (hknown : ∀ r ∈ w.store.records, r.run ∈ w.runs.map PipelineRun.id)
    (hnone : ∀ r ∈ w.store.records, r.run ≠ row.id)
    (haddressed : (tenantObjects {tenant}).Addressed w.store.bucket) :
    VersionsInv platform tenant (.start w row.id) := by
  have hflagged : ∀ r ∈ w.store.records, flaggedIn [row.id] r = false := by
    intro r hr
    simp [flaggedIn, hnone r hr]
  refine ⟨[row.id], row, rfl, {
    versions := ⟨hids, hversions, fun r hr h => ?_, fun r hr _ _ h => ?_,
      fun r hr hrun => absurd (List.mem_singleton.mp hrun) (hnone r hr),
      fun p hp => (by cases hp), ?_⟩
    backed := fun l hl => by cases hl
    addressed := haddressed
    known := hknown
    chain := .first hrow hfirst
    row := ⟨row, hrow, rfl, hpayloads.trans hpages.symm, rfl⟩
    counted := hpayloads.trans hpages.symm
    bounded := fun r hr hrun => absurd hrun (hnone r hr)
    own := fun r hr hrun => absurd hrun (hnone r hr)
    settled := rfl }⟩
  · rw [hflagged r hr] at h
    cases h
  · rw [hflagged r hr] at h
    cases h
  · rw [hpages, List.countP_eq_zero]
    intro r hr h
    rw [hflagged r hr] at h
    cases h

theorem VersionsInv.moment (h : VersionsInv platform tenant s) :
    ∃ chain, PageMoment platform tenant s.run chain s.watched ∧
      (s.attempt = none → s.watched.flagging = false) := by
  obtain ⟨chain, hstate⟩ := h
  cases hattempt : s.attempt with
  | none =>
    rw [hattempt] at hstate
    obtain ⟨copy, hid, hpages⟩ := hstate
    exact ⟨chain, hid ▸ hpages.moment, fun _ => hpages.settled⟩
  | some x =>
    obtain ⟨pipeline, isFinal, p⟩ := x
    rw [hattempt] at hstate
    exact ⟨chain, hstate.1, nofun⟩

/-- Over all attempts at a run and at the runs that continue it: what is loaded was stored
before, a flagged version was loaded, a page has one flagged version at most and no more
versions than bytes were stored for it, and unless a page is between its two saves, the run
counts the flagged versions of its chain. The versions are as many as the bytes stored, unless
the row of some of these was asked for in vain, or is still to be asked for. -/
theorem loaded_versions (platform : Platform) (tenant : Uuid) {w : World} {row : PipelineRun}
    (hrow : findRun w.runs row.id = some row) (hpages : row.pagesExtracted = 0)
    (hpayloads : row.rawPayloadCount = 0) (hfirst : row.continuedFrom = none)
    (hids : (w.store.records.map RawPayloadRecord.id).Nodup)
    (hversions : (w.store.records.map RawPayloadRecord.version).Nodup)
    (hknown : ∀ r ∈ w.store.records, r.run ∈ w.runs.map PipelineRun.id)
    (hnone : ∀ r ∈ w.store.records, r.run ≠ row.id)
    (haddressed : (tenantObjects {tenant}).Addressed w.store.bucket) {s : Attempts}
    (h : Reaches (Attempts.next platform tenant) (fun _ _ => True) (.start w row.id) s) :
    (∀ l ∈ s.watched.loads, Backed platform tenant l) ∧
    ∃ chain, ContinuedFrom s.runs s.run chain ∧
      (∀ r ∈ s.watched.records, r.run ∈ chain → r.loadedSuccessfully = true →
        ∃ l ∈ s.watched.loads, Completes l r) ∧
      (∀ run ∈ chain, ∀ sequence,
        (∀ r ∈ versionsOf s.watched.records run sequence,
          ∀ r' ∈ versionsOf s.watched.records run sequence,
          r.loadedSuccessfully = true → r'.loadedSuccessfully = true → r = r') ∧
        (versionsOf s.watched.records run sequence).length ≤
          (storedFor s.watched.stored run sequence).dedup.length ∧
        ((versionsOf s.watched.records run sequence).length =
            (storedFor s.watched.stored run sequence).dedup.length ∨
          (∃ p ∈ s.watched.unrecorded, p.run = run ∧ p.sequence = sequence ∧
            p.version ∉ s.watched.records.map RawPayloadRecord.version) ∨
          ∃ data ∈ storedFor s.watched.stored run sequence,
            ∃ data' ∈ storedFor s.watched.stored run sequence, Collide data data')) ∧
      (s.attempt = none ∨ s.watched.flagging = false →
        ∃ row, s.row = some row ∧
          s.watched.records.countP (flaggedIn chain) = row.pagesExtracted ∧
          s.watched.records.countP (flaggedIn chain) = row.rawPayloadCount) := by
  have hs : VersionsInv platform tenant s :=
    h.invariant (versionsInv_start hrow hpages hpayloads hfirst hids hversions hknown hnone
      haddressed) fun _ _ _ hs _ he => hs.next he
  obtain ⟨chain, ⟨hchain, hbacked, flagged, hversions, hcounts⟩, hidle⟩ := hs.moment
  refine ⟨hbacked, chain, hchain, fun r hr hrun hflag => ?_, fun run hrun sequence =>
    ⟨?_, hversions.length_le hrun, ?_⟩, fun hsettled => ?_⟩
  · exact hversions.completed r hr (by simp [flaggedIn, hrun, hflag])
  · exact fun r hr r' hr' => hversions.flagged_eq hrun hr hr'
  · by_cases hrecorded : ∀ p ∈ s.watched.unrecorded, p.run = run → p.sequence = sequence →
        p.version ∈ s.watched.records.map RawPayloadRecord.version
    swap
    · push Not at hrecorded
      exact .inr (.inl hrecorded)
    by_cases hinj : ∀ data ∈ storedFor s.watched.stored run sequence,
        ∀ data' ∈ storedFor s.watched.stored run sequence,
        sha256hex data = sha256hex data' → data = data'
    · exact .inl (hversions.length_eq hrun hinj hrecorded)
    · push Not at hinj
      obtain ⟨data, hdata, data', hdata', hsum, hne⟩ := hinj
      exact .inr (.inr ⟨data, hdata, data', hdata', hne, hsum⟩)
  · obtain ⟨row, hrow, hextracted, hcount⟩ := hcounts (hsettled.elim hidle id)
    exact ⟨row, hrow, hversions.count.trans hextracted.symm, hversions.count.trans hcount.symm⟩

/-- An attempt that stores a page: how its writes are answered, and the request for its row. -/
def pageAttempt (now : Nat) (stored : List RunAnswer) (record : StoreAnswer)
    (loaded : List RunAnswer) : List AttemptsEvent :=
  [.deliver (smallSync (some 2)).pipeline ⟨5⟩ false now] ++
    ([.clock now, .done, .done, .done, .response ⟨200, none, oneRecord⟩,
      RunAnswer.raw (.tenant (.ok ⟨3⟩))] ++ stored ++ [RunAnswer.raw record] ++ loaded).map
      AttemptsEvent.answer ++ [.finish]

/-- The page is stored and not loaded, and then it is found and loaded. -/
def retriedPage : List AttemptsEvent :=
  pageAttempt 1 [.raw (.done ⟨0⟩)] (.done ⟨40⟩)
    [.fail (.dataLake (fetchFailed "the warehouse does not answer" true)), .done, .done] ++
  pageAttempt 2 [.raw (.done ⟨0⟩), .raw (.done ⟨0⟩)] (.done ⟨41⟩)
    [.done, .raw (.done ⟨0⟩), .done, .clock 2, .clock 2, .done, .done]

theorem loaded_versions_retried : ∃ s : Attempts,
    Reaches (Attempts.next (smallSync (some 2)).platform ⟨3⟩) (fun _ _ => True)
      (.start smallWorld ⟨1⟩) s ∧
    s.watched.loads.map PageLoad.completed = [false, true] ∧
    (storedFor s.watched.stored ⟨1⟩ 1).length = 2 ∧
    ∃ chain, ContinuedFrom s.runs s.run chain ∧
      (versionsOf s.watched.records ⟨1⟩ 1).length ≤ 1 ∧
      s.watched.records.countP (flaggedIn chain) = 1 := by
  have hfinal : (replay (Attempts.next (smallSync (some 2)).platform ⟨3⟩) (fun _ _ => True)
      (.start smallWorld ⟨1⟩) retriedPage).map (fun s => (s.attempt.isNone && s.run == ⟨1⟩,
        s.watched.loads.map PageLoad.completed, storedFor s.watched.stored ⟨1⟩ 1,
        s.row.map PipelineRun.pagesExtracted)) =
      some (true, [false, true], [oneRecord, oneRecord], some 1) := by
    decide +kernel
  obtain ⟨s, hs, hsummary⟩ := Option.map_eq_some_iff.mp hfinal
  simp only [Prod.mk.injEq, Bool.and_eq_true, Option.isNone_iff_eq_none, beq_iff_eq] at hsummary
  obtain ⟨⟨hidle, hrun⟩, hloads, hstored, hpages⟩ := hsummary
  have hreach := Reaches.of_replay _ hs
  have hrow : findRun smallWorld.runs smallRun.id = some smallRun := rfl
  obtain ⟨-, chain, hchain, -, hversions, hcounts⟩ := loaded_versions (smallSync (some 2)).platform
    ⟨3⟩ hrow rfl rfl rfl List.nodup_nil List.nodup_nil (fun r hr => by cases hr)
    (fun r hr => by cases hr) (fun _ _ h => by cases h) hreach
  obtain ⟨row, hrow, hcount, -⟩ := hcounts (.inl hidle)
  rw [hrow] at hpages
  obtain ⟨-, hlength, -⟩ := hversions ⟨1⟩ (hrun ▸ hchain.mem) 1
  rw [hstored] at hlength
  exact ⟨s, hreach, hloads, by rw [hstored]; rfl, chain, hchain, hlength,
    hcount.trans (Option.some.inj hpages)⟩

def lostConnection : S3Error := ⟨none, none, "server closed the connection unexpectedly"⟩

/-- The object of a page is written and its row refused: bytes stored, and no version of them. -/
theorem stored_page_unrecorded : ∃ s : Attempts,
    Reaches (Attempts.next (smallSync (some 2)).platform ⟨3⟩) (fun _ _ => True)
      (.start smallWorld ⟨1⟩) s ∧ s.attempt = none ∧
    storedFor s.watched.stored ⟨1⟩ 1 = [oneRecord] ∧
    versionsOf s.watched.records ⟨1⟩ 1 = [] := by
  have hfinal : (replay (Attempts.next (smallSync (some 2)).platform ⟨3⟩) (fun _ _ => True)
      (.start smallWorld ⟨1⟩) (pageAttempt 1 [.raw (.done ⟨0⟩)] (.refused lostConnection)
        [.clock 1, .done, .clock 1, .done])).map (fun s => (s.attempt.isNone,
          storedFor s.watched.stored ⟨1⟩ 1, s.watched.records.length)) =
      some (true, [oneRecord], 0) := by
    decide +kernel
  obtain ⟨s, hs, hsummary⟩ := Option.map_eq_some_iff.mp hfinal
  simp only [Prod.mk.injEq, Option.isNone_iff_eq_none, List.length_eq_zero_iff] at hsummary
  obtain ⟨hidle, hstored, hrecords⟩ := hsummary
  exact ⟨s, Reaches.of_replay _ hs, hidle, hstored, by rw [hrecords]; rfl⟩

end DataLake
