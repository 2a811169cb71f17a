import DataLake.Foundation.Program

/-! Programs whose calls and results are known as long as the answers are what they should be. -/

namespace Foundation

namespace Prog

variable {S : Signature} {ε ε' α β : Type} {A : ∀ op, S.Resp op → Prop} {P : S.Op → Prop}

/-- As long as `A` describes the answers, the program makes `P` calls only and ends as `Q`. -/
def Obeys (A : ∀ op, S.Resp op → Prop) (P : S.Op → Prop) (Q : Except ε α → Prop) :
    Prog S ε α → Prop
  | ret a => Q (.ok a)
  | raise e => Q (.error e)
  | call op k => P op ∧ ∀ r, A op r → (k r).Obeys A P Q

theorem Obeys.handle {Q : Except ε α → Prop} {Q' : Except ε' β → Prop} {p : Prog S ε α}
    {f : α → Prog S ε' β} {g : ε → Prog S ε' β} (hp : p.Obeys A P Q)
    (hf : ∀ a, Q (.ok a) → (f a).Obeys A P Q') (hg : ∀ e, Q (.error e) → (g e).Obeys A P Q') :
    (p.handle f g).Obeys A P Q' := by
  induction p with
  | ret a => exact hf a hp
  | raise e => exact hg e hp
  | call op k ih => exact ⟨hp.1, fun r hr => ih r (hp.2 r hr)⟩

/-- Nothing is asked of the result. -/
abbrev Confined (A : ∀ op, S.Resp op → Prop) (P : S.Op → Prop) (p : Prog S ε α) : Prop :=
  p.Obeys A P fun _ => True

theorem Issues.confined {p : Prog S ε α} (hp : p.Issues P) : p.Confined A P := by
  induction p with
  | ret a => trivial
  | raise e => trivial
  | call op k ih => exact ⟨hp.1, fun r _ => ih r (hp.2 r)⟩

theorem Confined.handle {p : Prog S ε α} {f : α → Prog S ε' β} {g : ε → Prog S ε' β}
    (hp : p.Confined A P) (hf : ∀ a, (f a).Confined A P) (hg : ∀ e, (g e).Confined A P) :
    (p.handle f g).Confined A P :=
  Obeys.handle hp (fun a _ => hf a) fun e _ => hg e

theorem Confined.bind {p : Prog S ε α} {f : α → Prog S ε β} (hp : p.Confined A P)
    (hf : ∀ a, (f a).Confined A P) : (p >>= f).Confined A P :=
  Confined.handle hp hf fun _ => trivial

/-- A program of another signature, whose calls are carried over by `f`. -/
theorem Confined.embed {T : Signature} {f : T.Op → S.Op} {g : ∀ op, S.Resp (f op) → T.Resp op}
    {A' : ∀ op, T.Resp op → Prop} {P' : T.Op → Prop} {p : Prog T ε α} (hp : p.Confined A' P')
    (hA : ∀ op r, A (f op) r → A' op (g op r)) (hP : ∀ op, P' op → P (f op)) :
    (p.embed f g).Confined A P := by
  induction p with
  | ret a => trivial
  | raise e => trivial
  | call op k ih => exact ⟨hP op hp.1, fun r hr => ih _ (hp.2 _ (hA op r hr))⟩

end Prog

end Foundation
