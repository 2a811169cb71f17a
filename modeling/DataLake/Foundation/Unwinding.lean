import DataLake.Foundation.Answers
import DataLake.Foundation.Sessions

/-! Events that leave no trace. A run without them comes to the same state, but for what
concerns only them. -/

namespace Foundation

section Machine

variable {σ ε : Type*}

/-- The events are taken one after the other, each where it is allowed. -/
inductive Plays (next : σ → ε → Option σ) (ok : σ → ε → Prop) : σ → List ε → σ → Prop where
  | nil (s : σ) : Plays next ok s [] s
  | cons {s t u : σ} {e : ε} {es : List ε} :
    ok s e → next s e = some t → Plays next ok t es u → Plays next ok s (e :: es) u

theorem Plays.of_replay {next : σ → ε → Option σ} {ok : σ → ε → Prop} {s t : σ}
    [∀ s e, Decidable (ok s e)] {es : List ε} (h : replay next ok s es = some t) :
    Plays next ok s es t := by
  induction es generalizing s with
  | nil =>
    obtain rfl := Option.some.inj h
    exact .nil s
  | cons e es ih =>
    by_cases hok : ok s e
    · rw [replay, if_pos hok] at h
      obtain ⟨u, he, hrest⟩ := Option.bind_eq_some_iff.mp h
      exact .cons hok he (ih hrest)
    · rw [replay, if_neg hok] at h
      cases h

theorem Plays.mono {next : σ → ε → Option σ} {ok ok' : σ → ε → Prop} {s t : σ} {es : List ε}
    (himp : ∀ s e, ok s e → ok' s e) (h : Plays next ok s es t) : Plays next ok' s es t := by
  induction h with
  | nil s => exact .nil s
  | cons hok he _ ih => exact .cons (himp _ _ hok) he ih

/-- A hidden event is not seen in what `R` relates, and any other is taken on both sides. -/
structure Unwinding (next : σ → ε → Option σ) (ok : σ → ε → Prop) (hidden : ε → Bool)
    (I : σ → Prop) (R : σ → σ → Prop) : Prop where
  inv : ∀ s e t, I s → ok s e → next s e = some t → I t
  silent : ∀ s e t s', hidden e = true → I s → ok s e → next s e = some t → R s s' → R t s'
  visible : ∀ s e t s', hidden e = false → next s e = some t → R s s' →
    ∃ t', next s' e = some t' ∧ R t t'

theorem Unwinding.purge {next : σ → ε → Option σ} {ok : σ → ε → Prop} {hidden : ε → Bool}
    {I : σ → Prop} {R : σ → σ → Prop} (h : Unwinding next ok hidden I R) {s t s' : σ} {es : List ε}
    (hs : I s) (hR : R s s') (hplays : Plays next ok s es t) :
    ∃ t', Plays next (fun _ _ => True) s' (es.filter fun e => !hidden e) t' ∧ R t t' := by
  induction hplays generalizing s' with
  | nil s => exact ⟨s', .nil s', hR⟩
  | @cons s u t e es hok he _ ih =>
    have hu := h.inv s e u hs hok he
    by_cases hhidden : hidden e = true
    · obtain ⟨t', hplays, hRt⟩ := ih hu (h.silent s e u s' hhidden hs hok he hR)
      refine ⟨t', ?_, hRt⟩
      simpa [List.filter_cons, hhidden] using hplays
    · have hshown : hidden e = false := by simpa using hhidden
      obtain ⟨u', he', hRu⟩ := h.visible s e u s' hshown he hR
      obtain ⟨t', hplays, hRt⟩ := ih hu hRu
      refine ⟨t', ?_, hRt⟩
      simpa [List.filter_cons, hshown] using Plays.cons trivial he' hplays

end Machine

variable {S : Signature} {ε α ρ C W : Type} {A : ∀ op, S.Resp op → Prop} {P : S.Op → Prop}

/-! Sessions. -/

def SessionEvent.session : SessionEvent C ρ → Nat
  | start i _ => i
  | step i _ => i
  | die i => i

namespace Sessions

variable {program : ρ → Prog S ε α} {exec : Exec S C W} {D : Nat → Bool}

/-- The same world, and the same sessions but for those of `D`. -/
structure Agree (D : Nat → Bool) (s t : Sessions S ε α ρ W) : Prop where
  world : s.world = t.world
  sessions : ∀ i, D i = false → s.sessions i = t.sessions i

/-- The requests of `D` are of `B`, and its sessions are answered by `A`. -/
def Answered (exec : Exec S C W) (D : Nat → Bool) (B : ρ → Prop) (A : ∀ op, S.Resp op → Prop)
    (s : Sessions S ε α ρ W) : SessionEvent C ρ → Prop
  | .start i request => D i = true → B request
  | .step i c => D i = true → ∀ x op k r w, s.sessions i = some x → x.prog = .call op k →
      exec op c s.world = some (r, w) → A op r
  | .die _ => True

def AllConfined (D : Nat → Bool) (A : ∀ op, S.Resp op → Prop) (P : S.Op → Prop)
    (s : Sessions S ε α ρ W) : Prop :=
  ∀ i x, D i = true → s.sessions i = some x → x.prog.Confined A P

theorem AllConfined.next {B : ρ → Prop} {s t : Sessions S ε α ρ W} {e : SessionEvent C ρ}
    (hs : AllConfined D A P s) (hprogram : ∀ request, B request → (program request).Confined A P)
    (hok : Answered exec D B A s e) (he : Sessions.next program exec s e = some t) :
    AllConfined D A P t := by
  rcases next_cases he with ⟨i, request, rfl, -, rfl⟩ |
    ⟨i, c, x, op, k, r, w, rfl, hx, -, hprog, hexec, rfl⟩ | ⟨i, x, rfl, hx, rfl⟩
  · intro j y hj hy
    rcases set_sessions hy with ⟨rfl, rfl⟩ | ⟨-, hy⟩
    · exact hprogram request (hok hj)
    · exact hs j y hj hy
  · intro j y hj hy
    rcases set_sessions hy with ⟨rfl, rfl⟩ | ⟨-, hy⟩
    · have hconfined := hs j x hj hx
      rw [hprog] at hconfined
      exact hconfined.2 r (hok hj x op k r w hx hprog hexec)
    · exact hs j y hj hy
  · intro j y hj hy
    rcases set_sessions hy with ⟨rfl, rfl⟩ | ⟨-, hy⟩
    · exact hs j x hj hx
    · exact hs j y hj hy

theorem Agree.set {s t : Sessions S ε α ρ W} (h : Agree D s t) (w : W) (i : Nat)
    (x : Session S ε α ρ) : Agree D (s.set w i x) (t.set w i x) := by
  refine ⟨rfl, fun j hj => ?_⟩
  by_cases hij : j = i
  · subst hij
    rw [set_self, set_self]
  · simpa [Sessions.set, hij] using h.sessions j hj

theorem Agree.set_hidden {s t : Sessions S ε α ρ W} (h : Agree D s t) {i : Nat}
    (hi : D i = true) (x : Session S ε α ρ) : Agree D (s.set s.world i x) t := by
  refine ⟨h.world, fun j hj => ?_⟩
  have hij : j ≠ i := by
    rintro rfl
    rw [hi] at hj
    cases hj
  simpa [Sessions.set, hij] using h.sessions j hj

theorem Agree.next {s t s' : Sessions S ε α ρ W} {e : SessionEvent C ρ} (h : Agree D s t)
    (he : D e.session = false) (hs : Sessions.next program exec s e = some s') :
    ∃ t', Sessions.next program exec t e = some t' ∧ Agree D s' t' := by
  have hsession := h.sessions _ he
  cases e with
  | start i request =>
    cases hi : s.sessions i with
    | some x => simp [Sessions.next, hi] at hs
    | none =>
      have hi' : t.sessions i = none := hsession.symm.trans hi
      simp only [Sessions.next, hi, Option.some.injEq] at hs
      subst hs
      refine ⟨t.set t.world i { request, prog := program request },
        by simp only [Sessions.next, hi'], ?_⟩
      rw [h.world]
      exact h.set _ i _
  | step i c =>
    obtain ⟨x, hx, hstep⟩ := Option.bind_eq_some_iff.mp hs
    obtain ⟨y, hanswer, rfl⟩ := Option.map_eq_some_iff.mp hstep
    have hx' : t.sessions i = some x := hsession.symm.trans hx
    rw [h.world] at hanswer
    refine ⟨t.set y.2 i y.1,
      by simp only [Sessions.next, hx', Option.bind_some, hanswer, Option.map_some], ?_⟩
    exact h.set _ i _
  | die i =>
    obtain ⟨x, hx, rfl⟩ := Option.map_eq_some_iff.mp hs
    have hx' : t.sessions i = some x := hsession.symm.trans hx
    refine ⟨t.set t.world i { x with alive := false },
      by simp only [Sessions.next, hx', Option.map_some], ?_⟩
    rw [h.world]
    exact h.set _ i _

/-- Sessions that make only calls without effect, as long as they are answered by `A`. -/
theorem unwinding {B : ρ → Prop}
    (hsilent : ∀ op, P op → ∀ c w r v, exec op c w = some (r, v) → v = w)
    (hprogram : ∀ request, B request → (program request).Confined A P) :
    Unwinding (Sessions.next program exec) (Answered exec D B A) (fun e => D e.session)
      (AllConfined D A P) (Agree D) where
  inv s e t hs hok he := hs.next hprogram hok he
  silent s e t s' hhidden hs hok he hR := by
    rcases next_cases he with ⟨i, request, rfl, -, rfl⟩ |
      ⟨i, c, x, op, k, r, w, rfl, hx, -, hprog, hexec, rfl⟩ | ⟨i, x, rfl, hx, rfl⟩
    · exact hR.set_hidden hhidden _
    · have hconfined := hs i x hhidden hx
      rw [hprog] at hconfined
      rw [hsilent op hconfined.1 c _ r w hexec]
      exact hR.set_hidden hhidden _
    · exact hR.set_hidden hhidden _
  visible s e t s' hhidden he hR := hR.next hhidden he

end Sessions

end Foundation
