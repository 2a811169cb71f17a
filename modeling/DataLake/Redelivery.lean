import DataLake.Chain

/-! A run whose worker may die at any moment and whose message is delivered again: which
pages can be loaded twice. -/

namespace DataLake

open Foundation

/-- No page is passed to the destination after its progress was saved. -/
def NoReload (events : List PageEvent) : Prop :=
  events.Pairwise fun e e' => ∀ page, e = .saved page → e' ≠ .passed page

def Sync.terminalPage (y : Sync) (page : Int) : Bool :=
  match y.read page with
  | .ok ⟨some _, stop⟩ => stop
  | _ => false

namespace Chain

/-- The last page of the source is saved, and the run does not say yet that it has
succeeded. -/
def finishing (y : Sync) (s : Chain) : Bool :=
  (match s.traced.events.getLast? with
    | some (.saved page) => y.terminalPage page
    | _ => false) && s.row.any fun row => !row.status.terminal

def ofRun (_ : Chain) : ChainEvent → Bool
  | .continueRun _ _ => false
  | _ => true

/-- The steps of one run whose worker does not die while it is finishing. -/
def survives (y : Sync) (s : Chain) : ChainEvent → Bool
  | .die => !s.finishing y
  | e => s.ofRun e

/-- The next attempt starts after the pages that are saved. -/
def Resumable (y : Sync) (s : Chain) : Prop :=
  ∀ row, s.row = some row → row.status.terminal = false →
    ∀ page, .saved page ∈ s.traced.events → page < y.pipeline.basePage row.lastSuccessfulCursor

end Chain

variable {y : Sync} {s t : Chain} {claimed : PipelineRun} {base : Int} {first : Traced} {n : Nat}
  {l : Loaded}

/-! The history of an attempt. -/

theorem mem_pageEvents {e : PageEvent} (h : e ∈ pageEvents base n) :
    ∃ page, base ≤ page ∧ page < base + n ∧ (e = .passed page ∨ e = .saved page) := by
  induction n with
  | zero => cases h
  | succ n ih =>
    simp only [pageEvents, List.mem_append, List.mem_cons, List.not_mem_nil, or_false] at h
    rcases h with h | h
    · obtain ⟨page, hle, hlt, he⟩ := ih h
      exact ⟨page, hle, by omega, he⟩
    · exact ⟨base + n, by omega, by omega, h⟩

theorem pageEvents_noReload (base : Int) (n : Nat) : NoReload (pageEvents base n) := by
  induction n with
  | zero => exact List.Pairwise.nil
  | succ n ih =>
    refine List.pairwise_append.mpr ⟨ih, by simp, fun e he e' he' page hsaved hpassed => ?_⟩
    obtain ⟨page', -, hlt, he⟩ := mem_pageEvents he
    have heq : page' = page := by simpa [hsaved, eq_comm] using he
    have hlast : page = base + n := by simpa [hpassed] using he'
    omega

theorem saved_lt {events extra : List PageEvent} {page : Int}
    (hbefore : ∀ page, .saved page ∈ events → page < base) (hextra : Unsaved base n l extra)
    (h : .saved page ∈ events ++ pageEvents base n ++ extra) : page < base + n := by
  rcases List.mem_append.mp h with h | h
  · rcases List.mem_append.mp h with h | h
    · have := hbefore page h
      omega
    · obtain ⟨page', -, hlt, he⟩ := mem_pageEvents h
      have heq : page = page' := by simpa using he
      omega
  · rcases hextra with rfl | ⟨rfl, -⟩ <;> simp at h

theorem NoReload.append {events extra : List PageEvent} (h : NoReload events)
    (hbefore : ∀ page, .saved page ∈ events → page < base) (hextra : Unsaved base n l extra) :
    NoReload (events ++ pageEvents base n ++ extra) := by
  have hpages : NoReload (events ++ pageEvents base n) := by
    refine List.pairwise_append.mpr ⟨h, pageEvents_noReload base n, fun e he e' he' page hs hp => ?_⟩
    subst hs hp
    have hlt := hbefore page he
    obtain ⟨page', hle, -, he'⟩ := mem_pageEvents he'
    have heq : page = page' := by simpa using he'
    omega
  rcases hextra with rfl | ⟨rfl, hopen⟩
  · simpa using hpages
  · refine List.pairwise_append.mpr ⟨hpages, by simp, fun e he e' he' page hs hp => ?_⟩
    subst hs hp
    have hlt := saved_lt hbefore (.inl rfl : Unsaved base n l []) (by simpa using he)
    have hpage : page = base + n := by simpa using he'
    omega

/-- The page that a run resumes at, once `n` pages are saved and none of them was the
last. -/
theorem Progress.resumes {row : PipelineRun} (h : Progress claimed base n l row)
    (hbase : base = y.pipeline.basePage claimed.lastSuccessfulCursor) (hopen : l.ended = false) :
    y.pipeline.basePage row.lastSuccessfulCursor = base + n := by
  rw [h.cursor, hopen]
  cases n with
  | zero => simp [cursorAfter, hbase]
  | succ n =>
    simp only [cursorAfter, Pipeline.basePage, firstPage_str]
    push_cast
    omega

/-! The invariant of the run. -/

/-- The state in which an attempt started, and what it does. -/
structure Executing (y : Sync) (s : Chain) (p : RunProg Unit) (claimed : PipelineRun) (base : Int)
    (first : Traced) : Prop where
  resumes : base = y.pipeline.basePage claimed.lastSuccessfulCursor
  id : claimed.id = s.run
  history : NoReload first.events
  before : ∀ page, .saved page ∈ first.events → page < base
  moments : Moments y claimed base first first s.traced
  safe : p.Safe (execSource y.source) Eq (Moments y claimed base first)
    (BodyEnd y claimed base first) s.traced

def RedeliveryInv (y : Sync) (s : Chain) : Prop :=
  match s.attempt with
  | none => NoReload s.traced.events ∧ s.Resumable y
  | some p => ∃ claimed base first, Executing y s p claimed base first

theorem Executing.noReload {p : RunProg Unit} (h : Executing y s p claimed base first) :
    NoReload s.traced.events := by
  obtain ⟨n, l, hmoment⟩ := h.moments
  obtain ⟨extra, hextra, hevents⟩ := hmoment.events
  rw [hevents]
  exact h.history.append h.before hextra

theorem Executing.resumable {p : RunProg Unit} (h : Executing y s p claimed base first)
    (hmoment : Moment y claimed base first n l s.traced)
    (hopen : ∀ row, s.row = some row → row.status.terminal = false → l.ended = false) :
    s.Resumable y := by
  intro row hrow hterminal page hpage
  obtain ⟨row', hrow', hprogress, -⟩ := hmoment.row
  rw [h.id] at hrow'
  obtain rfl : row = row' := Option.some.inj (hrow.symm.trans hrow')
  obtain ⟨extra, hextra, hevents⟩ := hmoment.events
  rw [hevents] at hpage
  rw [hprogress.resumes h.resumes (hopen row hrow hterminal)]
  exact saved_lt h.before hextra hpage

theorem terminalPage_of_ended (hloaded : y.pages base (n + 1) = some l) (hended : l.ended = true) :
    y.terminalPage (base + n) = true := by
  obtain ⟨l', -, hadd⟩ := Sync.pages_succ hloaded
  obtain ⟨-, result, rows, hread, -⟩ := Sync.add_eq_some hadd
  simp [Sync.terminalPage, hread, hended]

theorem Moment.unended (hmoment : Moment y claimed base first n l s.traced)
    (hfinishing : s.finishing y = false) (row : PipelineRun) (hrow : s.row = some row)
    (hterminal : row.status.terminal = false) : l.ended = false := by
  by_contra hended
  have hended : l.ended = true := by simpa using hended
  obtain ⟨extra, hextra, hevents⟩ := hmoment.events
  cases n with
  | zero =>
    obtain rfl : {} = l := Option.some.inj hmoment.loaded
    cases hended
  | succ n =>
    obtain rfl : extra = [] := by
      rcases hextra with h | ⟨-, h⟩
      · exact h
      · simp [hended] at h
    have hlast : s.traced.events.getLast? = some (.saved (base + n)) := by
      rw [hevents]
      simp [pageEvents]
    have hpage := terminalPage_of_ended hmoment.loaded hended
    simp [Chain.finishing, hlast, hpage, hrow, hterminal] at hfinishing

theorem RedeliveryInv.deliver {task : Uuid} {maxPages : Int} {isFinal : Bool} {now : Nat}
    (hs : RedeliveryInv y s) (h : s.next y (.deliver task maxPages isFinal now) = some t) :
    RedeliveryInv y t := by
  obtain ⟨hattempt, row, hrow, rfl | ⟨claimed, hclaim, rfl⟩⟩ := Chain.next_deliver h
  · exact hs
  · simp only [RedeliveryInv, hattempt] at hs
    obtain ⟨hhistory, hresumable⟩ := hs
    obtain ⟨hstatus, rfl⟩ := claimRun_ok hclaim
    have hterminal : row.status.terminal = false := by
      rcases hstatus with h | ⟨h, -⟩ <;> rw [h] <;> rfl
    have hfound := findRun_claim hrow task now
    have hid : row.id = s.run := findRun_id hrow
    exact ⟨claimedRow row task now, _,
      s.traced.withRuns (saveFields .claim (claimedRow row task now) s.runs), rfl, hid, hhistory,
      hresumable row hrow hterminal, moments_start rfl hfound,
      runBody_safe maxPages isFinal rfl rfl hfound⟩

theorem RedeliveryInv.answer {c : RunAnswer} (hs : RedeliveryInv y s)
    (h : s.next y (.answer c) = some t) : RedeliveryInv y t := by
  obtain ⟨p, p', traced, hattempt, hp, rfl⟩ := Chain.next_answer h
  simp only [RedeliveryInv, hattempt] at hs
  obtain ⟨claimed, base, first, hexec⟩ := hs
  obtain ⟨hmoment, hsafe⟩ := hexec.safe.step (fun _ => rfl) hp
  exact ⟨claimed, base, first, hexec.resumes, hexec.id, hexec.history, hexec.before, hmoment, hsafe⟩

theorem RedeliveryInv.finish (hs : RedeliveryInv y s) (h : s.next y .finish = some t) :
    RedeliveryInv y t := by
  obtain ⟨⟨out, hattempt⟩, rfl⟩ := Chain.next_finish h
  simp only [RedeliveryInv, hattempt] at hs
  obtain ⟨claimed, base, first, hexec⟩ := hs
  obtain ⟨n, l, row, hend, -⟩ := hexec.safe.ended fun _ => rfl
  refine ⟨hexec.noReload, hexec.resumable hend.moment fun row' hrow' hterminal => ?_⟩
  have hfound := hend.found
  rw [hexec.id] at hfound
  obtain rfl : row' = row := Option.some.inj (hrow'.symm.trans hfound)
  refine hend.unended fun hsucceeded => ?_
  simp [hsucceeded, Status.terminal] at hterminal

theorem RedeliveryInv.die (hs : RedeliveryInv y s) (hok : s.finishing y = false)
    (h : s.next y .die = some t) : RedeliveryInv y t := by
  obtain ⟨⟨p, hattempt⟩, rfl⟩ := Chain.next_die h
  simp only [RedeliveryInv, hattempt] at hs
  obtain ⟨claimed, base, first, hexec⟩ := hs
  obtain ⟨n, l, hmoment⟩ := hexec.moments
  exact ⟨hexec.noReload, hexec.resumable hmoment (hmoment.unended hok)⟩

/-- A run whose worker never dies between the save of the last page and the record of
the success loads no page again once its progress is saved. -/
theorem saved_page_not_reloaded (y : Sync) {w : World} {run : Uuid} {s : Chain}
    (h : Reaches (Chain.next y) (fun s e => s.survives y e = true) (Chain.start w run) s) :
    NoReload s.traced.events := by
  have hstart : RedeliveryInv y (Chain.start w run) :=
    ⟨List.Pairwise.nil, fun _ _ _ _ h => by cases h⟩
  have hinv : RedeliveryInv y s := by
    refine h.invariant hstart fun t e u ht hok he => ?_
    cases e with
    | deliver task maxPages isFinal now => exact ht.deliver he
    | answer c => exact ht.answer he
    | finish => exact ht.finish he
    | die => exact ht.die (by simpa [Chain.survives] using hok) he
    | continueRun key policy => simp [Chain.survives, Chain.ofRun] at hok
  unfold RedeliveryInv at hinv
  split at hinv
  · exact hinv.1
  · obtain ⟨claimed, base, first, hexec⟩ := hinv
    exact hexec.noReload

/-- The attempt that is delivered again loads a page a second time, where the first one
died before it saved the page. The payload is there already, and is verified. -/
def lostPage : List ChainEvent :=
  .deliver ⟨5⟩ 9 false 0 :: loadAnswers.map ChainEvent.answer ++
    .die :: .deliver ⟨5⟩ 9 false 0 ::
    (loadAnswers.take 7 ++ RunAnswer.raw (.done ⟨0⟩) :: loadAnswers.drop 7 ++ saveAnswers).map
      ChainEvent.answer

theorem saved_page_not_reloaded_lost : ∃ s : Chain,
    Reaches (Chain.next (smallSync none)) (fun s e => s.survives (smallSync none) e = true)
      (Chain.start smallWorld ⟨1⟩) s ∧
    s.traced.events = [.passed 1, .passed 1, .saved 1] ∧ NoReload s.traced.events := by
  have hfinal : (replay (Chain.next (smallSync none))
      (fun s e => s.survives (smallSync none) e = true) (Chain.start smallWorld ⟨1⟩)
      lostPage).map (fun s => s.traced.events) = some [.passed 1, .passed 1, .saved 1] := by
    decide +kernel
  obtain ⟨s, hs, hevents⟩ := Option.map_eq_some_iff.mp hfinal
  have hreach := Reaches.of_replay lostPage hs
  exact ⟨s, hreach, hevents, saved_page_not_reloaded (smallSync none) hreach⟩

/-- The only page is short, so it is the last one. The worker dies after its save. -/
def lostSuccess : List ChainEvent :=
  .deliver ⟨5⟩ 9 false 0 :: (loadAnswers ++ saveAnswers).map ChainEvent.answer ++
    .die :: .deliver ⟨5⟩ 9 false 0 :: (loadAnswers ++ saveAnswers).map ChainEvent.answer

theorem last_page_reloaded : ¬ ∀ (y : Sync) (w : World) (run : Uuid) (s : Chain),
    Reaches (Chain.next y) (fun s e => s.ofRun e = true) (Chain.start w run) s →
    NoReload s.traced.events := by
  intro hclaim
  have hfinal : (replay (Chain.next (smallSync (some 2))) (fun s e => s.ofRun e = true)
      (Chain.start smallWorld ⟨1⟩) lostSuccess).map (fun s => s.traced.events) =
        some [.passed 1, .saved 1, .passed 1, .saved 1] := by
    decide +kernel
  obtain ⟨s, hs, hevents⟩ := Option.map_eq_some_iff.mp hfinal
  have hnone := hclaim (smallSync (some 2)) smallWorld ⟨1⟩ s (Reaches.of_replay lostSuccess hs)
  rw [hevents] at hnone
  simp [NoReload] at hnone

end DataLake
