import DataLake.Orchestration

/-! What the pages of a source amount to when each page always gives the same
response: the rows of the first pages of a sync, and where a sync is complete. -/

namespace DataLake

open Foundation

def RestApiConfig.withMaxPages (config : RestApiConfig) (maxPages : Int) : RestApiConfig :=
  { config with maxPages := .int maxPages }

def Pipeline.withMaxPages (pipeline : Pipeline) (maxPages : Int) : Pipeline :=
  { pipeline with sourceConfig := pipeline.sourceConfig.withMaxPages maxPages }

def Pipeline.start (pipeline : Pipeline) : Int :=
  pipeline.sourceConfig.startPage.positiveInt.getD 1

structure Sync where
  platform : Platform
  pipeline : Pipeline
  source : Int → Response

structure Loaded where
  rows : List Row := []
  records : Nat := 0
  ended : Bool := false

namespace Sync

def read (y : Sync) (page : Int) : Except Exc PageStep := do
  let response ← checkStatus (y.source page)
  readPage y.pipeline.sourceConfig y.platform.loads page response

def mapped (y : Sync) (page : FetchResult) : Except Exc (List Row) :=
  (mapRecords page.records y.pipeline.destinationMapping y.pipeline.strictMapping).mapError
    Exc.dataLake

/-- One page more, when there is one and it maps. -/
def add (y : Sync) (l : Loaded) (page : Int) : Option Loaded :=
  if l.ended then none
  else
    match y.read page with
    | .ok ⟨some result, stop⟩ =>
      match y.mapped result with
      | .ok rows => some ⟨l.rows ++ rows, l.records + result.records.length, stop⟩
      | .error _ => none
    | _ => none

/-- The first pages from `start`, each once and in order. -/
def pages (y : Sync) (start : Int) : Nat → Option Loaded
  | 0 => some {}
  | n + 1 => (y.pages start n).bind fun l => y.add l (start + n)

def Complete (y : Sync) (start : Int) (n : Nat) : Prop :=
  ∃ l, y.pages start n = some l ∧ (l.ended = true ∨ y.read (start + n) = .ok ⟨none, true⟩)

structure Runnable (y : Sync) : Prop where
  mapping : y.pipeline.destinationMapping.isEmpty = false
  valid : ∀ maxPages, 1 ≤ maxPages →
    (y.pipeline.sourceConfig.withMaxPages maxPages).validate = .ok (maxPages, y.pipeline.start)
  provider : ∃ provider, resolveAuthProvider y.pipeline.sourceConfig = .ok provider

variable {y : Sync} {start : Int} {n m : Nat} {l l' : Loaded}

theorem read_ok {page : Int} {step : PageStep} (h : y.read page = .ok step) :
    checkStatus (y.source page) = .ok (y.source page) ∧
      readPage y.pipeline.sourceConfig y.platform.loads page (y.source page) = .ok step := by
  unfold read at h
  cases hstatus : checkStatus (y.source page) with
  | error e =>
    rw [hstatus] at h
    cases h
  | ok response =>
    rw [hstatus] at h
    obtain rfl := checkStatus_ok hstatus
    exact ⟨rfl, h⟩

theorem add_eq_some {page : Int} (h : y.add l page = some l') :
    l.ended = false ∧ ∃ result rows, y.read page = .ok ⟨some result, l'.ended⟩ ∧
      y.mapped result = .ok rows ∧ l'.rows = l.rows ++ rows ∧
      l'.records = l.records + result.records.length := by
  unfold add at h
  split_ifs at h with hended
  refine ⟨by simpa using hended, ?_⟩
  split at h
  · rename_i result stop hread
    split at h
    · rename_i rows hmapped
      cases h
      exact ⟨result, rows, hread, hmapped, rfl, rfl⟩
    · cases h
  · cases h

theorem pages_succ (h : y.pages start (n + 1) = some l') :
    ∃ l, y.pages start n = some l ∧ y.add l (start + n) = some l' :=
  Option.bind_eq_some_iff.mp h

theorem pages_of_add (h : y.pages start n = some l) (hadd : y.add l (start + n) = some l') :
    y.pages start (n + 1) = some l' := by
  simp only [pages, h, Option.bind_some, hadd]

theorem pages_lt (h : y.pages start m = some l') (hnm : n < m) :
    ∃ l l₁, y.pages start n = some l ∧ y.add l (start + n) = some l₁ := by
  induction m generalizing l' with
  | zero => omega
  | succ m ih =>
    obtain ⟨l, hl, hadd⟩ := pages_succ h
    by_cases hn : n = m
    · subst hn
      exact ⟨l, l', hl, hadd⟩
    · exact ih hl (by omega)

theorem Complete.not_lt (hn : y.Complete start n) (hm : y.Complete start m) : ¬ n < m := by
  intro hlt
  obtain ⟨l, hl, hend⟩ := hn
  obtain ⟨l', hl', -⟩ := hm
  obtain ⟨l₀, l₁, hl₀, hadd⟩ := pages_lt hl' hlt
  obtain rfl : l = l₀ := Option.some.inj (hl.symm.trans hl₀)
  obtain ⟨hopen, result, rows, hread, -⟩ := add_eq_some hadd
  rcases hend with hended | hempty
  · simp [hopen] at hended
  · simp [hempty] at hread

theorem Complete.unique (hn : y.Complete start n) (hm : y.Complete start m) : n = m :=
  Nat.le_antisymm (Nat.le_of_not_lt (hm.not_lt hn)) (Nat.le_of_not_lt (hn.not_lt hm))

def Loaded.append (l l' : Loaded) : Loaded :=
  ⟨l.rows ++ l'.rows, l.records + l'.records, l'.ended⟩

theorem add_append {page : Int} {l₁ : Loaded} (hadd : y.add l' page = some l₁) :
    y.add (Loaded.append l l') page = some (Loaded.append l l₁) := by
  obtain ⟨hopen, result, rows, hread, hmapped, hrows, hrecords⟩ := add_eq_some hadd
  simp [add, Loaded.append, hopen, hread, hmapped, hrows, hrecords, List.append_assoc,
    Nat.add_assoc]

theorem pages_append (h : y.pages start n = some l) (hopen : l.ended = false)
    (h' : y.pages (start + n) m = some l') :
    y.pages start (n + m) = some (Loaded.append l l') := by
  induction m generalizing l' with
  | zero =>
    obtain rfl : {} = l' := Option.some.inj h'
    simp [Loaded.append, h, ← hopen]
  | succ m ih =>
    obtain ⟨l₁, hl₁, hadd⟩ := pages_succ h'
    have hpage : start + n + m = start + ((n + m : Nat) : Int) := by push_cast; omega
    rw [hpage] at hadd
    exact pages_of_add (ih hl₁) (add_append hadd)

theorem Complete.append (h : y.pages start n = some l) (hopen : l.ended = false)
    (h' : y.Complete (start + n) m) : y.Complete start (n + m) := by
  obtain ⟨l', hl', hend⟩ := h'
  refine ⟨_, pages_append h hopen hl', hend.imp_right fun hempty => ?_⟩
  have hpage : start + n + m = start + ((n + m : Nat) : Int) := by push_cast; omega
  rw [← hpage]
  exact hempty

end Sync

end DataLake
