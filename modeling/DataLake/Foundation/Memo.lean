import Mathlib.Data.List.Basic

/-! Memoised lookups. A log of lookups, newest first, decides what a memo that
keeps the first answer for each key returns; it is right exactly when no key
changes its value once it has been looked up. -/

namespace Foundation

/-- A lookup: the value the key has at that moment, and the answer given. -/
structure Lookup (K V : Type*) where
  key : K
  actual : Option V
  answer : Option V

namespace Lookup

variable {K V : Type*} [DecidableEq K]

def remembered (key : K) : List (Lookup K V) → Option V
  | [] => none
  | l :: older => (remembered key older).or (if l.key = key then l.actual else none)

/-- Each answer is the remembered value, or else the actual one. -/
def Memoised : List (Lookup K V) → Prop
  | [] => True
  | l :: older => l.answer = (remembered l.key older).or l.actual ∧ Memoised older

/-- A key that had a value at a lookup has the same value at each later one. -/
def Settled (log : List (Lookup K V)) : Prop :=
  log.Pairwise fun later earlier =>
    later.key = earlier.key → ∀ v, earlier.actual = some v → later.actual = some v

theorem mem_of_remembered {key : K} {log : List (Lookup K V)} {v : V}
    (h : remembered key log = some v) : ∃ l ∈ log, l.key = key ∧ l.actual = some v := by
  induction log with
  | nil => cases h
  | cons l older ih =>
    cases hr : remembered key older with
    | some u =>
      obtain ⟨l', hl', hkey⟩ := ih (by simpa [remembered, hr] using h)
      exact ⟨l', List.mem_cons_of_mem _ hl', hkey⟩
    | none =>
      by_cases hkey : l.key = key
      · exact ⟨l, List.mem_cons_self, hkey, by simpa [remembered, hr, hkey] using h⟩
      · simp [remembered, hr, hkey] at h

theorem Settled.remembered {log : List (Lookup K V)} (hs : Settled log) {l : Lookup K V} {v : V}
    (hl : l ∈ log) (hv : l.actual = some v) : remembered l.key log = some v := by
  induction log with
  | nil => cases hl
  | cons l' older ih =>
    obtain ⟨hhead, hold⟩ := List.pairwise_cons.mp hs
    rcases List.mem_cons.mp hl with rfl | hl
    · cases hr : Lookup.remembered l.key older with
      | none => simp [Lookup.remembered, hr, hv]
      | some u =>
        obtain ⟨l₀, hl₀, hkey, hu⟩ := mem_of_remembered hr
        have heq := hhead l₀ hl₀ hkey.symm u hu
        rw [hv] at heq
        simp [Lookup.remembered, hr, heq]
    · have hr := ih hold hl
      simp [Lookup.remembered, hr]

theorem answers_iff_settled {log : List (Lookup K V)} (hm : Memoised log) :
    (∀ l ∈ log, l.answer = l.actual) ↔ Settled log := by
  induction log with
  | nil => simp [Settled]
  | cons l older ih =>
    obtain ⟨hanswer, hold⟩ := hm
    constructor
    · intro h
      have hs := (ih hold).mp fun l' hl' => h l' (List.mem_cons_of_mem _ hl')
      refine List.pairwise_cons.mpr ⟨fun earlier he hkey v hv => ?_, hs⟩
      have hr := hs.remembered he hv
      have hl := h l List.mem_cons_self
      rw [hanswer, hkey, hr] at hl
      simpa using hl.symm
    · intro hs
      obtain ⟨hhead, hs⟩ := List.pairwise_cons.mp hs
      intro l' hl'
      rcases List.mem_cons.mp hl' with rfl | hl'
      · rw [hanswer]
        cases hr : remembered l'.key older with
        | none => rfl
        | some v =>
          obtain ⟨l₀, hl₀, hkey, hv⟩ := mem_of_remembered hr
          rw [hhead l₀ hl₀ hkey.symm v hv]
          rfl
      · exact (ih hold).mpr hs l' hl'

end Lookup

end Foundation
