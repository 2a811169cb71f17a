import DataLake.Foundation.Runs
import DataLake.Foundation.Sessions

/-! Programs that hand values over on their way, and the loop that consumes them; loops
that go on as long as their body says so. -/

namespace Foundation

/-- The calls of `S`, and one that hands a value over to the consumer. -/
@[reducible] def Signature.yielding (S : Signature) (Y : Type) : Signature :=
  ⟨S.Op ⊕ Y, Sum.rec S.Resp fun _ => Unit⟩

abbrev Generator (S : Signature) (Y ε α : Type) := Prog (S.yielding Y) ε α

variable {S : Signature} {Y ε α β σ C W : Type}

namespace Prog

theorem bind_assoc {γ : Type} (p : Prog S ε α) (f : α → Prog S ε β) (g : β → Prog S ε γ) :
    (p >>= f) >>= g = p >>= fun a => f a >>= g := by
  induction p with
  | ret a => rfl
  | raise e => rfl
  | call op k ih => exact congrArg (call op) (funext ih)

theorem ret_bind (a : α) (f : α → Prog S ε β) : (ret a : Prog S ε α) >>= f = f a := rfl

theorem raise_bind (e : ε) (f : α → Prog S ε β) : (raise e : Prog S ε α) >>= f = raise e := rfl

theorem handle_handle {ε' ε'' γ : Type} (p : Prog S ε α) (f : α → Prog S ε' β) (g : ε → Prog S ε' β)
    (f' : β → Prog S ε'' γ) (g' : ε' → Prog S ε'' γ) : (p.handle f g).handle f' g' =
      p.handle (fun a => (f a).handle f' g') fun e => (g e).handle f' g' := by
  induction p with
  | ret a => rfl
  | raise e => rfl
  | call op k ih => exact congrArg (call op) (funext ih)

theorem interpret_bind {T : Signature} (carry : ∀ op, Prog T ε (S.Resp op)) (p : Prog S ε α)
    (f : α → Prog S ε β) :
    (p >>= f).interpret carry = p.interpret carry >>= fun a => (f a).interpret carry := by
  induction p with
  | ret a => rfl
  | raise e => rfl
  | call op k ih =>
    refine Eq.trans ?_ (handle_handle (carry op) _ _ _ _).symm
    exact congrArg ((carry op).handle · raise) (funext ih)

/-- Repeat the body from the state that it answers. What comes back tells an end of the
loop from a lack of fuel. -/
def loop (body : σ → Prog S ε (Option σ)) : Nat → σ → Prog S ε Bool
  | 0, _ => ret false
  | fuel + 1, s => body s >>= fun next =>
    match next with
    | some s => loop body fuel s
    | none => ret true

/-- The rule of the loop: what each turn keeps, the whole keeps. -/
theorem Along.loop {A : ∀ op, S.Resp op → Prop} {P : List (Call S) → S.Op → Prop}
    {Q : List (Call S) → Except ε Bool → Prop} {K : σ → List (Call S) → Prop}
    {body : σ → Prog S ε (Option σ)}
    (hbody : ∀ s l, K s l → (body s).Along A P (fun l out => match out with
      | .ok (some s') => K s' l
      | .ok none => Q l (.ok true)
      | .error e => Q l (.error e)) l)
    (hfuel : ∀ s l, K s l → Q l (.ok false)) (fuel : Nat) {s : σ} {l : List (Call S)} (h : K s l) :
    (loop body fuel s).Along A P Q l := by
  induction fuel generalizing s l with
  | zero => exact hfuel s l h
  | succ fuel ih =>
    refine (hbody s l h).handle (fun l' next hnext => ?_) fun _ _ he => he
    cases next with
    | none => exact hnext
    | some s' => exact ih hnext

theorem eval_bind {exec : Exec S C W} {policy : S.Op → C} (p : Prog S ε α) (f : α → Prog S ε β)
    (w : W) : (p >>= f).eval exec policy w = (p.eval exec policy w).bind fun x =>
      match x.1 with
      | .ok a => (f a).eval exec policy x.2
      | .error e => some (.error e, x.2) := by
  induction p generalizing w with
  | ret a => rfl
  | raise e => rfl
  | call op k ih =>
    change ((exec op (policy op) w).bind fun x => (k x.1 >>= f).eval exec policy x.2) =
      ((exec op (policy op) w).bind fun x => (k x.1).eval exec policy x.2).bind _
    rw [Option.bind_assoc]
    exact congrArg _ (funext fun x => ih x.1 x.2)

end Prog

namespace Generator

def lift (p : Prog S ε α) : Generator S Y ε α := p.embed (T := S.yielding Y) Sum.inl fun _ r => r

def yield (y : Y) : Generator S Y ε Unit := .call (.inr y) .ret

/-- Run the body on every value that is handed over. -/
def forEach (body : σ → Y → Prog S ε σ) : Generator S Y ε α → σ → Prog S ε (α × σ)
  | .ret a, s => .ret (a, s)
  | .raise e, _ => .raise e
  | .call (.inl op) k, s => .call op fun r => forEach body (k r) s
  | .call (.inr y) k, s => body s y >>= fun s => forEach body (k ()) s

variable {body : σ → Y → Prog S ε σ}

theorem forEach_bind (p : Generator S Y ε α) (f : α → Generator S Y ε β) (s : σ) :
    forEach body (p >>= f) s = forEach body p s >>= fun x => forEach body (f x.1) x.2 := by
  induction p generalizing s with
  | ret a => rfl
  | raise e => rfl
  | call op k ih =>
    cases op with
    | inl op => exact congrArg (Prog.call op) (funext fun r => ih r s)
    | inr y =>
      refine Eq.trans ?_ (Prog.bind_assoc (body s y) _ _).symm
      exact congrArg (body s y >>= ·) (funext fun s => ih () s)

theorem forEach_lift (p : Prog S ε α) (s : σ) :
    forEach body (lift p) s = p >>= fun a => .ret (a, s) := by
  induction p with
  | ret a => rfl
  | raise e => rfl
  | call op k ih => exact congrArg (Prog.call op) (funext ih)

theorem lift_bind (p : Prog S ε α) (f : α → Prog S ε β) :
    (lift (p >>= f) : Generator S Y ε β) = lift p >>= fun a => lift (f a) := by
  induction p with
  | ret a => rfl
  | raise e => rfl
  | call op k ih => exact congrArg (Prog.call _) (funext ih)

theorem forEach_yield (y : Y) (s : σ) :
    forEach body (yield y) s = body s y >>= fun s => .ret ((), s) := rfl

/-- The world of a lone program, in which values that are handed over change nothing. -/
def exec (answers : Exec S C W) : Exec (S.yielding Y) C W
  | .inl op, c, w => answers op c w
  | .inr _, _, w => some ((), w)

end Generator

end Foundation
