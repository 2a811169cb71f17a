import Mathlib.Logic.Relation

/-! Runs of a labelled machine whose step is a partial function of the event.
Each run is restricted by a condition on the state before a step and the event
taken, so that one machine serves several assumptions about its environment. -/

namespace Foundation

variable {σ ε : Type*}

inductive Reaches (next : σ → ε → Option σ) (ok : σ → ε → Prop) (s : σ) : σ → Prop where
  | refl : Reaches next ok s s
  | tail {t u : σ} {e : ε} :
    Reaches next ok s t → ok t e → next t e = some u → Reaches next ok s u

variable {next : σ → ε → Option σ} {ok ok' : σ → ε → Prop} {s t u : σ}

theorem Reaches.trans (h : Reaches next ok s t) (h' : Reaches next ok t u) :
    Reaches next ok s u := by
  induction h' with
  | refl => exact h
  | tail _ hok he ih => exact ih.tail hok he

theorem Reaches.mono (himp : ∀ s e, ok s e → ok' s e) (h : Reaches next ok s t) :
    Reaches next ok' s t := by
  induction h with
  | refl => exact .refl
  | tail _ hok he ih => exact ih.tail (himp _ _ hok) he

/-- The induction rule: what every allowed step preserves holds along a run. -/
theorem Reaches.invariant {I : σ → Prop} (hs : I s)
    (hstep : ∀ t e u, I t → ok t e → next t e = some u → I u)
    (h : Reaches next ok s t) : I t := by
  induction h with
  | refl => exact hs
  | tail _ hok he ih => exact hstep _ _ _ ih hok he

/-- Where an invariant lets only certain steps be taken, a run is one of those steps. -/
theorem Reaches.restrict {I : σ → Prop} (hs : I s)
    (hstep : ∀ t e u, I t → ok t e → next t e = some u → I u)
    (himp : ∀ t e, I t → ok t e → ok' t e) (h : Reaches next ok s t) : Reaches next ok' s t := by
  have hboth : I t ∧ Reaches next ok' s t := by
    induction h with
    | refl => exact ⟨hs, .refl⟩
    | tail _ hok he ih => exact ⟨hstep _ _ _ ih.1 hok he, ih.2.tail (himp _ _ ih.1 hok) he⟩
  exact hboth.2

/-- A reflexive and transitive relation that every allowed step respects relates
the two ends of a run. The invariant supplies the facts a step needs. -/
theorem Reaches.relates {I : σ → Prop} {R : σ → σ → Prop} (hrefl : ∀ s, R s s)
    (htrans : ∀ s t u, R s t → R t u → R s u) (hs : I s)
    (hstep : ∀ t e u, I t → ok t e → next t e = some u → I u ∧ R t u)
    (h : Reaches next ok s t) : I t ∧ R s t := by
  induction h with
  | refl => exact ⟨hs, hrefl _⟩
  | tail _ hok he ih =>
    obtain ⟨hi, hr⟩ := ih
    obtain ⟨hi', hr'⟩ := hstep _ _ _ hi hok he
    exact ⟨hi', htrans _ _ _ hr hr'⟩

/-- Play a list of events, checking the condition before each one. -/
def replay (next : σ → ε → Option σ) (ok : σ → ε → Prop) [∀ s e, Decidable (ok s e)] :
    σ → List ε → Option σ
  | s, [] => some s
  | s, e :: es => if ok s e then (next s e).bind (replay next ok · es) else none

theorem Reaches.of_replay [∀ s e, Decidable (ok s e)] (es : List ε)
    (h : replay next ok s es = some t) : Reaches next ok s t := by
  induction es generalizing s with
  | nil =>
    simp only [replay, Option.some.injEq] at h
    exact h ▸ .refl
  | cons e es ih =>
    by_cases hok : ok s e
    · cases he : next s e with
      | none => simp [replay, hok, he] at h
      | some u =>
        have hh : replay next ok u es = some t := by simpa [replay, hok, he] using h
        exact (Reaches.refl.tail hok he).trans (ih hh)
    · simp [replay, hok] at h

end Foundation
