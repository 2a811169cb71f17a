import DataLake.Foundation.Program

/-! Runs of a program alone in the world, and its evaluation when the
environment answers each call by a fixed policy. -/

namespace Foundation

variable {S : Signature} {ε ε' α β C W : Type}

/-- Answers limited to those that satisfy `P`. -/
def Exec.only (exec : Exec S C W) (P : S.Op → C → Prop) [∀ op c, Decidable (P op c)] :
    Exec S C W :=
  fun op c w => if P op c then exec op c w else none

theorem Exec.of_only {exec : Exec S C W} {P : S.Op → C → Prop} [∀ op c, Decidable (P op c)]
    {op : S.Op} {c : C} {w w' : W} {r : S.Resp op} (h : exec.only P op c w = some (r, w')) :
    P op c ∧ exec op c w = some (r, w') := by
  by_cases hc : P op c
  · exact ⟨hc, by simpa [Exec.only, hc] using h⟩
  · simp [Exec.only, hc] at h

/-- The same answers, in a world that also keeps what is noted of the calls. -/
def Exec.noting {T : Type} (exec : Exec S C W) (note : S.Op → Option T) :
    Exec S C (W × List T) :=
  fun op c w => (exec op c w.1).map fun x => (x.1, (x.2, w.2 ++ (note op).toList))

theorem Exec.of_noting {T : Type} {exec : Exec S C W} {note : S.Op → Option T} {op : S.Op} {c : C}
    {w w' : W × List T} {r : S.Resp op} (h : exec.noting note op c w = some (r, w')) :
    exec op c w.1 = some (r, w'.1) ∧ w'.2 = w.2 ++ (note op).toList := by
  obtain ⟨⟨r', v⟩, hx, heq⟩ := Option.map_eq_some_iff.mp h
  obtain ⟨rfl, rfl⟩ : r' = r ∧ (v, w.2 ++ (note op).toList) = w' := by simpa using heq
  exact ⟨hx, rfl⟩

namespace Prog

/-- A run of a program to its outcome. -/
inductive Runs (exec : Exec S C W) : Prog S ε α → W → Except ε α → W → Prop where
  | ret (a : α) (w : W) : Runs exec (.ret a) w (.ok a) w
  | raise (e : ε) (w : W) : Runs exec (.raise e) w (.error e) w
  | call {op : S.Op} {k : S.Resp op → Prog S ε α} {c : C} {r : S.Resp op} {w v w' : W}
      {out : Except ε α} : exec op c w = some (r, v) → Runs exec (k r) v out w' →
      Runs exec (.call op k) w out w'

variable {exec : Exec S C W}

/-- A program that is safe with no interference meets its postcondition. -/
theorem Safe.runs {R G : W → W → Prop} {Q : Except ε α → W → Prop} (hrefl : ∀ w, R w w)
    {p : Prog S ε α} {w w' : W} {out : Except ε α} (hp : p.Safe exec R G Q w)
    (h : p.Runs exec w out w') : Q out w' := by
  induction h with
  | ret a w => exact hp w (hrefl w)
  | raise e w => exact hp w (hrefl w)
  | call he _ ih => exact ih (hp _ (hrefl _) _ _ _ he).2

theorem Within.runs {P : S.Op → Prop} {Q : Except ε α → Prop} {K : W → Prop}
    (hcall : ∀ op, P op → ∀ c v r v', K v → exec op c v = some (r, v') → K v')
    {p : Prog S ε α} {w w' : W} {out : Except ε α} (hp : p.Within P Q)
    (h : p.Runs exec w out w') (hw : K w) : K w' ∧ Q out := by
  induction h with
  | ret a w => exact ⟨hw, hp⟩
  | raise e w => exact ⟨hw, hp⟩
  | call he _ ih => exact ih (hp.2 _) (hcall _ hp.1 _ _ _ _ hw he)

theorem runs_handle {p : Prog S ε α} {f : α → Prog S ε' β} {g : ε → Prog S ε' β} {w w' : W}
    {out : Except ε' β} :
    (p.handle f g).Runs exec w out w' ↔
      (∃ a v, p.Runs exec w (.ok a) v ∧ (f a).Runs exec v out w') ∨
      ∃ e v, p.Runs exec w (.error e) v ∧ (g e).Runs exec v out w' := by
  constructor
  · intro h
    induction p generalizing w with
    | ret a => exact .inl ⟨a, w, .ret a w, h⟩
    | raise e => exact .inr ⟨e, w, .raise e w, h⟩
    | call op k ih =>
      cases h with
      | call he hrest =>
        rcases ih _ hrest with ⟨a, v, hp, hf⟩ | ⟨e, v, hp, hg⟩
        · exact .inl ⟨a, v, .call he hp, hf⟩
        · exact .inr ⟨e, v, .call he hp, hg⟩
  · rintro (⟨a, v, hp, hf⟩ | ⟨e, v, hp, hg⟩)
    · induction p generalizing w with
      | ret b =>
        cases hp
        exact hf
      | raise e => cases hp
      | call op k ih =>
        cases hp with
        | call he hrest => exact .call he (ih _ hrest)
    · induction p generalizing w with
      | ret b => cases hp
      | raise e' =>
        cases hp
        exact hg
      | call op k ih =>
        cases hp with
        | call he hrest => exact .call he (ih _ hrest)

theorem Runs.of_only {P : S.Op → C → Prop} [∀ op c, Decidable (P op c)] {p : Prog S ε α}
    {w w' : W} {out : Except ε α} (h : p.Runs (exec.only P) w out w') : p.Runs exec w out w' := by
  induction h with
  | ret a w => exact .ret a w
  | raise e w => exact .raise e w
  | call he _ ih => exact .call (Exec.of_only he).2 ih

theorem Runs.noting {T : Type} {note : S.Op → Option T} {p : Prog S ε α} {w w' : W}
    {out : Except ε α} (h : p.Runs exec w out w') (noted : List T) :
    ∃ noted', p.Runs (exec.noting note) (w, noted) out (w', noted') := by
  induction h generalizing noted with
  | ret a w => exact ⟨noted, .ret a _⟩
  | raise e w => exact ⟨noted, .raise e _⟩
  | @call op k c r v u w out he _ ih =>
    obtain ⟨noted', hrest⟩ := ih (noted ++ (note op).toList)
    exact ⟨noted', .call (by rw [Exec.noting, he]; rfl) hrest⟩

theorem Must.runs {Q : Except ε α → Prop} {p : Prog S ε α} {w w' : W} {out : Except ε α}
    (hp : p.Must (fun _ => False) Q) (h : p.Runs exec w out w') : Q out := by
  induction h with
  | ret a w => exact hp
  | raise e w => exact hp
  | call _ _ ih =>
    rcases hp with hm | hk
    · exact hm.elim
    · exact ih (hk _)

/-- Where every call it issues has an answer, the program has a run. -/
theorem exists_runs {P : S.Op → Prop} {p : Prog S ε α} (hp : p.Issues P)
    (htotal : ∀ op, P op → ∀ w, ∃ c x, exec op c w = some x) (w : W) :
    ∃ out w', p.Runs exec w out w' := by
  induction p generalizing w with
  | ret a => exact ⟨_, _, .ret a w⟩
  | raise e => exact ⟨_, _, .raise e w⟩
  | call op k ih =>
    obtain ⟨c, ⟨r, v⟩, he⟩ := htotal op hp.1 w
    obtain ⟨out, w', h⟩ := ih r (hp.2 r) v
    exact ⟨out, w', .call he h⟩

/-- The outcome under a policy that fixes the environment's choice for a call. -/
def eval (exec : Exec S C W) (policy : S.Op → C) : Prog S ε α → W → Option (Except ε α × W)
  | ret a, w => some (.ok a, w)
  | raise e, w => some (.error e, w)
  | call op k, w => (exec op (policy op) w).bind fun x => (k x.1).eval exec policy x.2

theorem Runs.of_eval (policy : S.Op → C) {p : Prog S ε α} {w w' : W} {out : Except ε α}
    (h : p.eval exec policy w = some (out, w')) : p.Runs exec w out w' := by
  induction p generalizing w with
  | ret a =>
    obtain ⟨rfl, rfl⟩ : .ok a = out ∧ w = w' := by simpa [eval] using h
    exact .ret a w
  | raise e =>
    obtain ⟨rfl, rfl⟩ : .error e = out ∧ w = w' := by simpa [eval] using h
    exact .raise e w
  | call op k ih =>
    obtain ⟨x, hx, hk⟩ := Option.bind_eq_some_iff.mp h
    exact .call hx (ih x.1 hk)

/-- The calls made under a policy, in order. -/
def calls (exec : Exec S C W) (policy : S.Op → C) : Prog S ε α → W → List S.Op
  | ret _, _ => []
  | raise _, _ => []
  | call op k, w =>
    op :: match exec op (policy op) w with
      | none => []
      | some x => (k x.1).calls exec policy x.2

end Prog

end Foundation
