import DataLake.Foundation.Checkpoints
import DataLake.Redelivery
import DataLake.ResumeChain

/-! A run and its continuations, whose workers may die at any moment: no page of the source
is left out, pages are loaded in order, and each death repeats one page at most. -/

namespace DataLake

open Foundation

/-- The rows that a page of the source gives. -/
def Sync.rowsAt (y : Sync) (page : Int) : List Row :=
  match y.read page with
  | .ok ⟨some result, _⟩ => (y.mapped result).toOption.getD []
  | _ => []

/-- The rows of the pages so many pages after the first one. -/
def Sync.rowsOf (y : Sync) (pages : List Nat) : List Row :=
  pages.flatMap fun p => y.rowsAt (y.pipeline.start + p)

def ChainEvent.deaths : ChainEvent → Nat
  | .die => 1
  | _ => 0

/-- A chain of runs beside the number of times its worker has died. -/
def Chain.counted (y : Sync) (s : Chain × Nat) (e : ChainEvent) : Option (Chain × Nat) :=
  (s.1.next y e).map fun t => (t, s.2 + e.deaths)

variable {y : Sync} {w : World} {origin claimed row : PipelineRun} {base : Int} {n m deaths : Nat}
  {l l' : Loaded} {first : Traced} {visited : List Nat} {rows : List Row}

theorem Sync.add_rows {page : Int} (hadd : y.add l page = some l') :
    l'.rows = l.rows ++ y.rowsAt page := by
  obtain ⟨-, result, rows, hread, hmapped, hrows, -⟩ := Sync.add_eq_some hadd
  simp [Sync.rowsAt, hread, hmapped, hrows, Except.toOption]

/-- The pages in the destination, in order; each of them is a page of the source. -/
structure Visited (y : Sync) (w : World) (n deaths : Nat) (visited : List Nat) (rows : List Row) :
    Prop extends Visits n deaths visited where
  rows : rows = w.rows ++ y.rowsOf visited
  real : ∀ p ∈ visited, ∃ l, y.pages y.pipeline.start (p + 1) = some l

theorem Visited.page (h : Visited y w n deaths visited rows)
    (hloaded : y.pages y.pipeline.start n = some l) (hadd : y.add l (y.pipeline.start + n) = some l') :
    Visited y w (n + 1) deaths (visited ++ [n]) (rows ++ y.rowsAt (y.pipeline.start + n)) where
  toVisits := h.visit
  rows := by simp [h.rows, Sync.rowsOf]
  real p hp := by
    rcases List.mem_append.mp hp with hp | hp
    · exact h.real p hp
    · obtain rfl : p = n := by simpa using hp
      exact ⟨l', Sync.pages_of_add hloaded hadd⟩

/-- An attempt adds its pages one after another. -/
theorem Visited.pages (h : Visited y w n deaths visited rows)
    (hloaded : y.pages y.pipeline.start n = some l) (hopen : l.ended = false)
    (hmore : y.pages (y.pipeline.start + n) m = some l') :
    ∃ all, Visited y w (n + m) deaths all (rows ++ l'.rows) ∧
      ∀ k, m = k + 1 → all.getLast? = some (n + k) := by
  induction m generalizing l' with
  | zero =>
    obtain rfl : {} = l' := Option.some.inj hmore
    exact ⟨visited, by simpa using h, fun k hk => by omega⟩
  | succ m ih =>
    obtain ⟨l₁, hl₁, hadd⟩ := Sync.pages_succ hmore
    obtain ⟨all, hall, -⟩ := ih hl₁
    have hpage : y.pipeline.start + n + m = y.pipeline.start + ((n + m : Nat) : Int) := by
      push_cast
      omega
    rw [hpage] at hadd
    have hnext := hall.page (Sync.pages_append hloaded hopen hl₁) (Sync.add_append hadd)
    rw [List.append_assoc, ← Sync.add_rows hadd] at hnext
    refine ⟨all ++ [n + m], hnext, fun k hk => ?_⟩
    obtain rfl : m = k := by omega
    simp

theorem Visited.lose (h : Visited y w n deaths visited rows) :
    Visited y w n (deaths + 1) visited rows :=
  ⟨h.toVisits.lose, h.rows, h.real⟩

theorem Visited.stepBack (h : Visited y w (n + 1) deaths visited rows)
    (hlast : visited.getLast? = some n) : Visited y w n (deaths + 1) visited rows :=
  ⟨h.toVisits.stepBack hlast, h.rows, h.real⟩

theorem complete_lt {start : Int} {p : Nat} (h : y.Complete start n)
    (hloaded : y.pages start (p + 1) = some l) : p < n := by
  by_contra hle
  obtain ⟨l₀, hl₀, hend⟩ := h
  obtain ⟨l₁, l₂, hl₁, hadd⟩ := Sync.pages_lt hloaded (show n < p + 1 by omega)
  obtain rfl : l₀ = l₁ := Option.some.inj (hl₀.symm.trans hl₁)
  obtain ⟨hopen, result, rows, hread, -⟩ := Sync.add_eq_some hadd
  rcases hend with hended | hempty
  · simp [hopen] at hended
  · simp [hempty] at hread

theorem Visited.mem_iff (h : Visited y w n deaths visited rows)
    (hcomplete : y.Complete y.pipeline.start n) (p : Nat) : p ∈ visited ↔ p < n := by
  constructor
  · intro hp
    obtain ⟨l, hl⟩ := h.real p hp
    exact complete_lt hcomplete hl
  · exact h.mem

/-! The invariant: where a run stands when nobody executes it, and in an attempt. -/

/-- The next attempt at an unfinished run starts at the page `n`. -/
structure Unattended (y : Sync) (w : World) (run : Uuid) (deaths n : Nat) (l : Loaded)
    (visited : List Nat) (t : Traced) (row : PipelineRun) : Prop where
  loaded : y.pages y.pipeline.start n = some l
  found : findRun t.world.runs run = some row
  visited : Visited y w n deaths visited t.world.rows
  complete : row.status = .succeeded → y.Complete y.pipeline.start n
  resumes : row.status ≠ .succeeded → l.ended = false ∧
    y.pipeline.basePage row.lastSuccessfulCursor = y.pipeline.start + n

structure Attempting (y : Sync) (w : World) (run : Uuid) (deaths n : Nat) (l : Loaded)
    (visited : List Nat) (claimed : PipelineRun) (first t : Traced) (p : RunProg Unit) : Prop where
  loaded : y.pages y.pipeline.start n = some l
  unended : l.ended = false
  id : claimed.id = run
  resumes : y.pipeline.basePage claimed.lastSuccessfulCursor = y.pipeline.start + n
  visited : Visited y w n deaths visited first.world.rows
  moments : Moments y claimed (y.pipeline.start + n) first first t
  safe : p.Safe (execSource y.source) Eq (Moments y claimed (y.pipeline.start + n) first)
    (BodyEnd y claimed (y.pipeline.start + n) first) t

def RecoveryInv (y : Sync) (w : World) (s : Chain × Nat) : Prop :=
  match s.1.attempt with
  | none => ∃ n l visited row, Unattended y w s.1.run s.2 n l visited s.1.traced row
  | some p => ∃ n l visited claimed first,
    Attempting y w s.1.run s.2 n l visited claimed first s.1.traced p

theorem resumes_ended {row : PipelineRun} (h : Progress claimed base (m + 1) l row)
    (hended : l.ended = true) : y.pipeline.basePage row.lastSuccessfulCursor = base + m := by
  rw [h.cursor, hended]
  simp [cursorAfter, Pipeline.basePage, firstPage_str]

section
variable {run : Uuid} {t : Traced} {p : RunProg Unit}

theorem Attempting.complete (h : Attempting y w run deaths n l visited claimed first t p)
    (hmoment : Moment y claimed (y.pipeline.start + n) first m l' t)
    (hcomplete : y.Complete (y.pipeline.start + n) m) :
    y.Complete y.pipeline.start (n + m) ∧
      y.pages y.pipeline.start (n + m) = some (Sync.Loaded.append l l') :=
  ⟨hcomplete.append h.loaded h.unended, Sync.pages_append h.loaded h.unended hmoment.loaded⟩

/-- The worker dies: what is saved names the page to go on from, which is the last one again
where that page was not saved, or was the end of the source. -/
theorem Attempting.die (h : Attempting y w run deaths n l visited claimed first t p) :
    ∃ n' l' visited' row, Unattended y w run (deaths + 1) n' l' visited' t row := by
  obtain ⟨m, l', hmoment⟩ := h.moments
  obtain ⟨row, hrow, hprogress, hdone⟩ := hmoment.row
  rw [h.id] at hrow
  obtain ⟨all, hall, hend⟩ := h.visited.pages h.loaded h.unended hmoment.loaded
  have hpages := Sync.pages_append h.loaded h.unended hmoment.loaded
  by_cases hsucceeded : row.status = .succeeded
  · obtain ⟨-, hcomplete, hrows⟩ := hdone hsucceeded
    rw [← hrows] at hall
    exact ⟨n + m, _, all, row, hpages, hrow, hall.lose,
      fun _ => (h.complete hmoment hcomplete).1, fun hne => absurd hsucceeded hne⟩
  · cases hended : l'.ended with
    | true =>
      -- the cursor of the last page names that page
      cases m with
      | zero =>
        have hopen := pages_zero hmoment.loaded rfl
        simp [hopen] at hended
      | succ m =>
        obtain ⟨l₀, hl₀, hadd⟩ := Sync.pages_succ hmoment.loaded
        have hrows : t.world.rows = first.world.rows ++ l'.rows := by
          rcases hmoment.rows with hrows | ⟨l₂, hadd₂, -⟩
          · exact hrows
          · simp [Sync.add, hended] at hadd₂
        have hopen : l₀.ended = false := (Sync.add_eq_some hadd).1
        have hpage : y.pipeline.start + n + m = y.pipeline.start + ((n + m : Nat) : Int) := by
          push_cast
          omega
        rw [← hrows] at hall
        exact ⟨n + m, _, all, row, Sync.pages_append h.loaded h.unended hl₀, hrow,
          hall.stepBack (hend m rfl), fun hs => absurd hs hsucceeded,
          fun _ => ⟨hopen, by rw [resumes_ended hprogress hended, hpage]⟩⟩
    | false =>
      have hresumes : y.pipeline.basePage row.lastSuccessfulCursor =
          y.pipeline.start + ((n + m : Nat) : Int) := by
        rw [hprogress.resumes h.resumes.symm hended]
        push_cast
        omega
      rcases hmoment.rows with hrows | ⟨l₂, hadd, hrows⟩
      · rw [← hrows] at hall
        exact ⟨n + m, _, all, row, hpages, hrow, hall.lose, fun hs => absurd hs hsucceeded,
          fun _ => ⟨hended, hresumes⟩⟩
      · -- the page is in the destination, and is not saved
        have hpage : y.pipeline.start + n + m = y.pipeline.start + ((n + m : Nat) : Int) := by
          push_cast
          omega
        rw [hpage] at hadd
        have hnext := hall.page hpages (Sync.add_append hadd)
        rw [List.append_assoc, ← Sync.add_rows hadd, ← hrows] at hnext
        exact ⟨n + m, _, all ++ [n + m], row, hpages, hrow, hnext.stepBack (by simp),
          fun hs => absurd hs hsucceeded, fun _ => ⟨hended, hresumes⟩⟩

theorem Attempting.ended (h : Attempting y w run deaths n l visited claimed first t p)
    (hend : Ended y claimed (y.pipeline.start + n) first m l' t row) :
    ∃ visited', Unattended y w run deaths (n + m) (Sync.Loaded.append l l') visited' t row := by
  obtain ⟨all, hall, -⟩ := h.visited.pages h.loaded h.unended hend.loaded
  rw [← hend.rows] at hall
  refine ⟨all, Sync.pages_append h.loaded h.unended hend.loaded, ?_, hall, fun hs => ?_,
    fun hne => ⟨hend.unended hne, ?_⟩⟩
  · rw [← h.id, hend.found]
  · exact (hend.complete hs).2.append h.loaded h.unended
  · rw [hend.progress.resumes h.resumes.symm (hend.unended hne)]
    push_cast
    omega

end

variable {s t : Chain}

theorem RecoveryInv.deliver {task : Uuid} {maxPages : Int} {isFinal : Bool} {now : Nat}
    (hs : RecoveryInv y w (s, deaths))
    (h : s.next y (.deliver task maxPages isFinal now) = some t) :
    RecoveryInv y w (t, deaths) := by
  obtain ⟨hattempt, row, hrow, rfl | ⟨claimed, hclaim, rfl⟩⟩ := Chain.next_deliver h
  · exact hs
  · simp only [RecoveryInv, hattempt] at hs
    obtain ⟨n, l, visited, row', hrest⟩ := hs
    obtain rfl : row = row' := Option.some.inj (hrow.symm.trans hrest.found)
    obtain ⟨hstatus, rfl⟩ := claimRun_ok hclaim
    have hne : row.status ≠ .succeeded := by
      intro hsucceeded
      simp [hsucceeded] at hstatus
    obtain ⟨hopen, hresumes⟩ := hrest.resumes hne
    have hfound := findRun_claim hrow task now
    have hid : row.id = s.run := findRun_id hrow
    exact ⟨n, l, visited, claimedRow row task now,
      s.traced.withRuns (saveFields .claim (claimedRow row task now) s.runs), hrest.loaded,
      hopen, hid, hresumes, hrest.visited, moments_start rfl hfound,
      runBody_safe maxPages isFinal hresumes.symm rfl hfound⟩

theorem RecoveryInv.answer {c : RunAnswer} (hs : RecoveryInv y w (s, deaths))
    (h : s.next y (.answer c) = some t) : RecoveryInv y w (t, deaths) := by
  obtain ⟨p, p', traced, hattempt, hp, rfl⟩ := Chain.next_answer h
  simp only [RecoveryInv, hattempt] at hs
  obtain ⟨n, l, visited, claimed, first, ha⟩ := hs
  obtain ⟨hmoment, hsafe⟩ := ha.safe.step (fun _ => rfl) hp
  exact ⟨n, l, visited, claimed, first, ha.loaded, ha.unended, ha.id, ha.resumes, ha.visited,
    hmoment, hsafe⟩

theorem RecoveryInv.finish (hs : RecoveryInv y w (s, deaths)) (h : s.next y .finish = some t) :
    RecoveryInv y w (t, deaths) := by
  obtain ⟨⟨out, hattempt⟩, rfl⟩ := Chain.next_finish h
  simp only [RecoveryInv, hattempt] at hs
  obtain ⟨n, l, visited, claimed, first, ha⟩ := hs
  obtain ⟨m, l', row, hend, -⟩ := ha.safe.ended fun _ => rfl
  obtain ⟨visited', hrest⟩ := ha.ended hend
  exact ⟨n + m, _, visited', row, hrest⟩

theorem RecoveryInv.die (hs : RecoveryInv y w (s, deaths)) (h : s.next y .die = some t) :
    RecoveryInv y w (t, deaths + 1) := by
  obtain ⟨⟨p, hattempt⟩, rfl⟩ := Chain.next_die h
  simp only [RecoveryInv, hattempt] at hs
  obtain ⟨n, l, visited, claimed, first, ha⟩ := hs
  exact ha.die

theorem RecoveryInv.continueRun {key : Option Text} {policy : DispatchOp → DispatchAnswer}
    (hs : RecoveryInv y w (s, deaths)) (h : s.next y (.continueRun key policy) = some t) :
    RecoveryInv y w (t, deaths) := by
  obtain ⟨hattempt, row, hrow, rfl | ⟨key, fresh, hcontinuable, hfresh, rfl⟩⟩ :=
    Chain.next_continueRun h
  · exact hs
  · simp only [RecoveryInv, hattempt] at hs ⊢
    obtain ⟨n, l, visited, row', hrest⟩ := hs
    obtain rfl : row = row' := Option.some.inj (hrow.symm.trans hrest.found)
    have hfailed : row.status = .failed := by
      simp only [isContinuable, Bool.and_eq_true, decide_eq_true_eq] at hcontinuable
      exact hcontinuable.1
    have hne : row.status ≠ .succeeded := by simp [hfailed]
    exact ⟨n, l, visited, _, hrest.loaded, findRun_fresh hfresh, hrest.visited,
      fun hs => (by cases hs), fun _ => hrest.resumes hne⟩

theorem RecoveryInv.step {s t : Chain × Nat} {e : ChainEvent} (hs : RecoveryInv y w s)
    (h : Chain.counted y s e = some t) : RecoveryInv y w t := by
  obtain ⟨s, deaths⟩ := s
  obtain ⟨u, hu, rfl⟩ := Option.map_eq_some_iff.mp h
  cases e with
  | deliver task maxPages isFinal now => exact hs.deliver hu
  | answer c => exact hs.answer hu
  | finish => exact hs.finish hu
  | die => exact hs.die hu
  | continueRun key policy => exact hs.continueRun hu

theorem recoveryInv_start (hrow : findRun w.runs origin.id = some origin)
    (hpending : origin.status = .pending) (hcursor : origin.lastSuccessfulCursor = none) :
    RecoveryInv y w (Chain.start w origin.id, 0) := by
  refine ⟨0, {}, [], origin, rfl, hrow, ⟨.start, ?_, ?_⟩, fun hs => ?_, fun _ => ⟨rfl, ?_⟩⟩
  · simp [Chain.start, Sync.rowsOf]
  · simp
  · simp [hpending] at hs
  · simp [hcursor, Pipeline.basePage, firstPage]

/-- At every moment some list of pages is in the destination. -/
theorem RecoveryInv.loads {s : Chain × Nat} (hs : RecoveryInv y w s) :
    ∃ n visited, Visited y w n s.2 visited s.1.traced.world.rows ∧
      ∀ row, s.1.row = some row → row.status = .succeeded → y.Complete y.pipeline.start n := by
  obtain ⟨s, deaths⟩ := s
  unfold RecoveryInv at hs
  split at hs
  · obtain ⟨n, l, visited, row, hrest⟩ := hs
    refine ⟨n, visited, hrest.visited, fun row' hrow' hsucceeded => ?_⟩
    obtain rfl : row = row' := Option.some.inj (hrest.found.symm.trans hrow')
    exact hrest.complete hsucceeded
  · obtain ⟨n, l, visited, claimed, first, ha⟩ := hs
    obtain ⟨m, l', hmoment⟩ := ha.moments
    obtain ⟨all, hall, -⟩ := ha.visited.pages ha.loaded ha.unended hmoment.loaded
    obtain ⟨row, hrow, -, hdone⟩ := hmoment.row
    rw [ha.id] at hrow
    have hsucceeded : ∀ row', s.row = some row' → row'.status = .succeeded →
        y.Complete (y.pipeline.start + n) m ∧
          s.traced.world.rows = first.world.rows ++ l'.rows := by
      intro row' hrow' hs'
      obtain rfl : row = row' := Option.some.inj (hrow.symm.trans hrow')
      exact (hdone hs').2
    by_cases hrows : s.traced.world.rows = first.world.rows ++ l'.rows
    · rw [← hrows] at hall
      exact ⟨n + m, all, hall, fun row' hrow' hs' =>
        (ha.complete hmoment (hsucceeded row' hrow' hs').1).1⟩
    · rcases hmoment.rows with hrows' | ⟨l₂, hadd, hrows'⟩
      · exact absurd hrows' hrows
      · have hpage : y.pipeline.start + n + m = y.pipeline.start + ((n + m : Nat) : Int) := by
          push_cast
          omega
        rw [hpage] at hadd
        have hnext := hall.page (Sync.pages_append ha.loaded ha.unended hmoment.loaded)
          (Sync.add_append hadd)
        rw [List.append_assoc, ← Sync.add_rows hadd, ← hrows'] at hnext
        exact ⟨n + m + 1, _, hnext, fun row' hrow' hs' =>
          absurd (hsucceeded row' hrow' hs').2 hrows⟩

/-- Whenever the workers of a run and of its continuations die, the destination holds the
pages of the source in order from the first one on, each as often as it was tried in a row,
with one repetition at most for each death; where the last run succeeds, every page is
there. -/
theorem every_page_loaded (y : Sync) {w : World} {origin : PipelineRun} {s : Chain} {deaths : Nat}
    (hrow : findRun w.runs origin.id = some origin) (hpending : origin.status = .pending)
    (hcursor : origin.lastSuccessfulCursor = none)
    (h : Reaches (Chain.counted y) (fun _ _ => True) (Chain.start w origin.id, 0) (s, deaths)) :
    ∃ visited : List Nat, s.traced.world.rows = w.rows ++ y.rowsOf visited ∧
      (visited.IsChain fun p q => q = p ∨ q = p + 1) ∧ (∀ p ∈ visited.head?, p = 0) ∧
      visited.length ≤ visited.dedup.length + deaths ∧
      ∀ row, s.row = some row → row.status = .succeeded →
        ∃ n, y.Complete y.pipeline.start n ∧ ∀ p, p ∈ visited ↔ p < n := by
  have hinv : RecoveryInv y w (s, deaths) :=
    h.invariant (recoveryInv_start hrow hpending hcursor) fun _ _ _ ht _ he => ht.step he
  obtain ⟨n, visited, hvisited, hcomplete⟩ := hinv.loads
  refine ⟨visited, hvisited.rows, hvisited.steps, hvisited.first, hvisited.length_le,
    fun row hrow' hsucceeded => ⟨n, hcomplete row hrow' hsucceeded, ?_⟩⟩
  exact hvisited.mem_iff (hcomplete row hrow' hsucceeded)

/-- The worker dies before it saves the only page, and again after it; the third attempt
finds that no page is left. -/
def twoDeaths : List ChainEvent :=
  lostPage ++ .die :: .deliver ⟨5⟩ 9 false 0 :: secondAnswers.map ChainEvent.answer ++ [.finish]

theorem every_page_loaded_two_deaths : ∃ (s : Chain) (visited : List Nat),
    s.row.map PipelineRun.status = some .succeeded ∧ s.traced.world.rows.length = 2 ∧
    s.traced.world.rows = (smallSync none).rowsOf visited ∧
    visited.length ≤ visited.dedup.length + 2 ∧
    ∃ n, (smallSync none).Complete 1 n ∧ ∀ p, p ∈ visited ↔ p < n := by
  have hfinal : (replay (Chain.counted (smallSync none)) (fun _ _ => True)
      (Chain.start smallWorld ⟨1⟩, 0) twoDeaths).map (fun s => (s.2,
        s.1.row.map PipelineRun.status, s.1.traced.world.rows.length)) =
        some (2, some .succeeded, 2) := by
    decide +kernel
  obtain ⟨⟨s, deaths⟩, hs, hsummary⟩ := Option.map_eq_some_iff.mp hfinal
  simp only [Prod.mk.injEq, Option.map_eq_some_iff] at hsummary
  obtain ⟨rfl, ⟨row, hrow, hstatus⟩, hlength⟩ := hsummary
  have hstart : findRun smallWorld.runs smallRun.id = some smallRun := rfl
  obtain ⟨visited, hrows, -, -, hrepeated, hdone⟩ :=
    every_page_loaded (smallSync none) hstart rfl rfl (Reaches.of_replay twoDeaths hs)
  exact ⟨s, visited, by simp [hrow, hstatus], hlength, hrows, hrepeated, hdone row hrow hstatus⟩

end DataLake
