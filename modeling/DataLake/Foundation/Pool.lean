import DataLake.Foundation.Program
import DataLake.Foundation.Transition
import Mathlib.Logic.Function.Basic

/-! Programs that share a world, one call at a time. A thread that is never
scheduled again stands for a process that died. -/

namespace Foundation

variable {S S' : Signature} {ε α C C' W : Type}

structure Pool (S : Signature) (ε α W : Type) where
  world : W
  threads : Nat → Option (Prog S ε α)

inductive PoolEvent (S : Signature) (ε α C : Type) where
  | start (i : Nat) (p : Prog S ε α)
  | step (i : Nat) (c : C)

namespace Pool

def next (exec : Exec S C W) (s : Pool S ε α W) : PoolEvent S ε α C → Option (Pool S ε α W)
  | .start i p =>
    match s.threads i with
    | none => some ⟨s.world, Function.update s.threads i (some p)⟩
    | some _ => none
  | .step i c =>
    match s.threads i with
    | none => none
    | some p => (p.step exec c s.world).map fun x =>
        ⟨x.2, Function.update s.threads i (some x.1)⟩

theorem next_cases {exec : Exec S C W} {s t : Pool S ε α W} {e : PoolEvent S ε α C}
    (h : next exec s e = some t) :
    (∃ i p, e = .start i p ∧ s.threads i = none ∧
      t = ⟨s.world, Function.update s.threads i (some p)⟩) ∨
    (∃ i c p p' w', e = .step i c ∧ s.threads i = some p ∧
      p.step exec c s.world = some (p', w') ∧
      t = ⟨w', Function.update s.threads i (some p')⟩) := by
  cases e with
  | start i p =>
    left
    cases hi : s.threads i with
    | none => exact ⟨i, p, rfl, hi, by simpa [next, hi] using h.symm⟩
    | some q => simp [next, hi] at h
  | step i c =>
    right
    cases hi : s.threads i with
    | none => simp [next, hi] at h
    | some p =>
      simp only [next, hi, Option.map_eq_some_iff, Prod.exists] at h
      obtain ⟨p', w', he, rfl⟩ := h
      exact ⟨i, c, p, p', w', rfl, hi, he, rfl⟩

/-- Threads that take their steps in a given order. -/
def play (exec : Exec S C W) : Pool S ε α W → List (Nat × C) → Option (Pool S ε α W)
  | s, [] => some s
  | s, (i, c) :: rest => (next exec s (.step i c)).bind (play exec · rest)

theorem reaches_play {exec : Exec S C W} {steps : List (Nat × C)} {s t : Pool S ε α W}
    (h : play exec s steps = some t) :
    Reaches (next exec) (fun _ e => ∃ x ∈ steps, e = .step x.1 x.2) s t := by
  induction steps generalizing s with
  | nil =>
    simp only [play, Option.some.injEq] at h
    exact h ▸ .refl
  | cons x rest ih =>
    obtain ⟨u, hu, hrest⟩ := Option.bind_eq_some_iff.mp h
    have hfirst : Reaches (next exec) (fun _ e => ∃ y ∈ x :: rest, e = .step y.1 y.2) s u :=
      Reaches.refl.tail ⟨x, List.mem_cons_self, rfl⟩ hu
    exact hfirst.trans ((ih hrest).mono fun _ _ ⟨y, hy, he⟩ => ⟨y, List.mem_cons_of_mem _ hy, he⟩)

/-- Every thread is safe, given what the others do. -/
def Safe (exec : Exec S C W) (R : W → W → Prop) (Q : Except ε α → W → Prop)
    (s : Pool S ε α W) : Prop :=
  ∀ i p, s.threads i = some p → p.Safe exec R R Q s.world

def idle (w : W) : Pool S ε α W := ⟨w, fun _ => none⟩

theorem safe_idle {exec : Exec S C W} {R : W → W → Prop} {Q : Except ε α → W → Prop} (w : W) :
    (idle w : Pool S ε α W).Safe exec R Q := by
  intro i p hi
  cases hi

/-- The parallel rule: threads that each keep `R` under `R` keep it together. -/
theorem Safe.reaches {exec : Exec S C W} {R : W → W → Prop} {Q : Except ε α → W → Prop}
    {ok : Pool S ε α W → PoolEvent S ε α C → Prop} {s t : Pool S ε α W}
    (hrefl : ∀ w, R w w) (htrans : ∀ u v w, R u v → R v w → R u w)
    (hstart : ∀ u i p, R s.world u.world → ok u (.start i p) → p.Safe exec R R Q u.world)
    (hs : s.Safe exec R Q) (h : Reaches (next exec) ok s t) :
    R s.world t.world ∧ t.Safe exec R Q := by
  induction h with
  | refl => exact ⟨hrefl _, hs⟩
  | @tail u v e hr hok he ih =>
    obtain ⟨hR, hu⟩ := ih
    rcases next_cases he with ⟨i, p, rfl, hi, rfl⟩ | ⟨i, c, p, p', w', rfl, hi, hp, rfl⟩
    · refine ⟨hR, fun j q hj => ?_⟩
      by_cases hij : j = i
      · subst hij
        obtain rfl : p = q := by simpa using hj
        exact hstart u j p hR hok
      · exact hu j q (by simpa [hij] using hj)
    · obtain ⟨hG, hp'⟩ := (hu i p hi).step hrefl hp
      refine ⟨htrans _ _ _ hR hG, fun j q hj => ?_⟩
      by_cases hij : j = i
      · subst hij
        obtain rfl : p' = q := by simpa using hj
        exact hp'
      · exact (hu j q (by simpa [hij] using hj)).interfere htrans hG

end Pool

end Foundation
