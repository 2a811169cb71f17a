import Mathlib.Data.List.Chain
import Mathlib.Data.List.Dedup
import Mathlib.Data.List.Perm.Subperm
import Mathlib.Data.List.Range

/-! Numbered work, done in order by a worker that saves where it stands and may lose the
last thing it saved or did. Resuming from what is saved skips nothing, and repeats at most
one item for each loss. -/

namespace Foundation

/-- What was worked on, in order, when the next item is `next` and the worker has been
lost so many times. -/
structure Visits (next losses : Nat) (visited : List Nat) : Prop where
  steps : visited.IsChain fun p q => q = p ∨ q = p + 1
  first : ∀ p ∈ visited.head?, p = 0
  last : ∀ p ∈ visited.getLast?, next = p ∨ next = p + 1
  empty : visited = [] → next = 0
  length : visited.length ≤ next + losses

namespace Visits

variable {next losses : Nat} {visited : List Nat}

theorem start : Visits 0 0 [] where
  steps := .nil
  first p h := by simp at h
  last p h := by simp at h
  empty _ := rfl
  length := by simp

theorem visit (h : Visits next losses visited) : Visits (next + 1) losses (visited ++ [next]) where
  steps := by
    apply h.steps.append (.singleton next)
    intro p hp q hq
    obtain rfl : next = q := by simpa using hq
    exact h.last p hp
  first p hp := by
    cases visited with
    | nil =>
      have hnext := h.empty rfl
      simp at hp
      omega
    | cons q qs => exact h.first p (by simpa using hp)
  last p hp := by
    simp at hp
    omega
  empty hnil := by simp at hnil
  length := by
    have := h.length
    simp
    omega

/-- The worker is lost, and nothing it did is. -/
theorem lose (h : Visits next losses visited) : Visits next (losses + 1) visited where
  steps := h.steps
  first := h.first
  last := h.last
  empty := h.empty
  length := by
    have := h.length
    omega

/-- The worker is lost, and the last item is to be worked on again. -/
theorem stepBack (h : Visits (next + 1) losses visited) (hlast : visited.getLast? = some next) :
    Visits next (losses + 1) visited where
  steps := h.steps
  first := h.first
  last p hp := by
    obtain rfl : next = p := by simpa [hlast] using hp
    exact .inl rfl
  empty hnil := by simp [hnil] at hlast
  length := by
    have := h.length
    omega

/-- A list that starts at zero and rises by at most one at a time leaves nothing out. -/
theorem mem_of_steps {last p : Nat} (hsteps : visited.IsChain fun p q => q = p ∨ q = p + 1)
    (hfirst : ∀ p ∈ visited.head?, p = 0) (hlast : visited.getLast? = some last) (hp : p ≤ last) :
    p ∈ visited := by
  induction visited using List.reverseRecOn generalizing last with
  | nil => simp at hlast
  | append_singleton init q ih =>
    obtain rfl : q = last := by simpa using hlast
    by_cases hq : p = q
    · simp [hq]
    · obtain ⟨hinit, -, hjoin⟩ := List.isChain_append.mp hsteps
      cases hend : init.getLast? with
      | none =>
        have hnil : init = [] := by simpa using hend
        have hzero : q = 0 := by simpa [hnil] using hfirst
        omega
      | some r =>
        have hstep := hjoin r hend q (by simp)
        have hhead : ∀ p ∈ init.head?, p = 0 := by
          intro p hp
          cases init with
          | nil => simp at hend
          | cons a as => exact hfirst p (by simpa using hp)
        have hmem := ih hinit hhead hend (by omega)
        simp [hmem]

theorem mem (h : Visits next losses visited) {p : Nat} (hp : p < next) : p ∈ visited := by
  cases hend : visited.getLast? with
  | none =>
    have hnil : visited = [] := by simpa using hend
    have hnext := h.empty hnil
    omega
  | some q =>
    have hlast := h.last q hend
    exact mem_of_steps h.steps h.first hend (by omega)

/-- Each item is worked on once, but for one repetition at most for each loss. -/
theorem length_le (h : Visits next losses visited) :
    visited.length ≤ visited.dedup.length + losses := by
  have hsub : List.range next ⊆ visited.dedup := by
    intro p hp
    have hlt : p < next := by simpa using hp
    simpa using h.mem hlt
  have hcount : (List.range next).length ≤ visited.dedup.length :=
    (List.subperm_of_subset List.nodup_range hsub).length_le
  have hlength := h.length
  simp at hcount
  omega

end Visits

end Foundation
