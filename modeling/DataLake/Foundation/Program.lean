import Mathlib.Logic.Relation

/-! Programs that call the operations of a signature and may raise, with a
rely-guarantee logic for them. The environment answers one call at a time, so
every state between two calls is a state of the run. -/

namespace Foundation

structure Signature where
  Op : Type
  Resp : Op → Type

inductive Prog (S : Signature) (ε α : Type) : Type where
  | ret (a : α)
  | raise (e : ε)
  | call (op : S.Op) (k : S.Resp op → Prog S ε α)

variable {S : Signature} {ε ε' α β C W : Type}

namespace Prog

/-- Run `f` on the result, or `g` on the exception. -/
def handle : Prog S ε α → (α → Prog S ε' β) → (ε → Prog S ε' β) → Prog S ε' β
  | ret a, f, _ => f a
  | raise e, _, g => g e
  | call op k, f, g => call op fun r => (k r).handle f g

instance : Monad (Prog S ε) where
  pure := ret
  bind p f := p.handle f raise

def perform (op : S.Op) : Prog S ε (S.Resp op) := call op ret

def ofExcept : Except ε α → Prog S ε α
  | .ok a => ret a
  | .error e => raise e

@[simp] theorem handle_ret (a : α) (f : α → Prog S ε' β) (g : ε → Prog S ε' β) :
    (ret a).handle f g = f a := rfl

@[simp] theorem handle_raise (e : ε) (f : α → Prog S ε' β) (g : ε → Prog S ε' β) :
    (raise e).handle f g = g e := rfl

@[simp] theorem handle_call (op : S.Op) (k : S.Resp op → Prog S ε α) (f : α → Prog S ε' β)
    (g : ε → Prog S ε' β) :
    (call op k).handle f g = call op fun r => (k r).handle f g := rfl

theorem bind_eq (p : Prog S ε α) (f : α → Prog S ε β) : p >>= f = p.handle f raise := rfl

theorem pure_eq (a : α) : (pure a : Prog S ε α) = ret a := rfl

/-- Run the program for what it does to the world only. -/
def discard (p : Prog S ε α) : Prog S ε Unit := p.handle (fun _ => ret ()) raise

/-- The program as one of a larger signature. -/
def embed {T : Signature} (f : S.Op → T.Op) (g : ∀ op, T.Resp (f op) → S.Resp op) :
    Prog S ε α → Prog T ε α
  | ret a => ret a
  | raise e => raise e
  | call op k => call (f op) fun r => (k (g op r)).embed f g

/-- The program with each of its calls carried out by a program of another signature. -/
def interpret {T : Signature} (carry : ∀ op, Prog T ε (S.Resp op)) : Prog S ε α → Prog T ε α
  | ret a => ret a
  | raise e => raise e
  | call op k => (carry op).handle (fun r => (k r).interpret carry) raise

/-! Syntactic facts: which calls a program may make, whatever it is answered. -/

/-- Every call the program can make satisfies `P`. -/
def Issues (P : S.Op → Prop) : Prog S ε α → Prop
  | ret _ => True
  | raise _ => True
  | call op k => P op ∧ ∀ r, (k r).Issues P

theorem Issues.handle {P : S.Op → Prop} {p : Prog S ε α} {f : α → Prog S ε' β}
    {g : ε → Prog S ε' β} (hp : p.Issues P) (hf : ∀ a, (f a).Issues P)
    (hg : ∀ e, (g e).Issues P) : (p.handle f g).Issues P := by
  induction p with
  | ret a => exact hf a
  | raise e => exact hg e
  | call op k ih => exact ⟨hp.1, fun r => ih r (hp.2 r)⟩

theorem Issues.bind {P : S.Op → Prop} {p : Prog S ε α} {f : α → Prog S ε β}
    (hp : p.Issues P) (hf : ∀ a, (f a).Issues P) : (p >>= f).Issues P :=
  hp.handle hf fun _ => trivial

theorem Issues.discard {P : S.Op → Prop} {p : Prog S ε α} (hp : p.Issues P) :
    p.discard.Issues P := hp.handle (fun _ => trivial) fun _ => trivial

theorem Issues.mono {P P' : S.Op → Prop} (himp : ∀ op, P op → P' op) {p : Prog S ε α}
    (hp : p.Issues P) : p.Issues P' := by
  induction p with
  | ret _ => trivial
  | raise _ => trivial
  | call op k ih => exact ⟨himp op hp.1, fun r => ih r (hp.2 r)⟩

theorem Issues.embed {T : Signature} {f : S.Op → T.Op} {g : ∀ op, T.Resp (f op) → S.Resp op}
    {P : T.Op → Prop} {p : Prog S ε α} (hp : p.Issues fun op => P (f op)) :
    (p.embed f g).Issues P := by
  induction p with
  | ret _ => trivial
  | raise _ => trivial
  | call op k ih => exact ⟨hp.1, fun r => ih (g op r) (hp.2 (g op r))⟩

theorem issues_true (p : Prog S ε α) : p.Issues fun _ => True := by
  induction p with
  | ret _ => trivial
  | raise _ => trivial
  | call op k ih => exact ⟨trivial, ih⟩

theorem issues_ofExcept (P : S.Op → Prop) (x : Except ε α) :
    (ofExcept x : Prog S ε α).Issues P := by
  cases x <;> trivial

/-- Every call satisfies `P`, and every outcome `Q`. -/
def Within (P : S.Op → Prop) (Q : Except ε α → Prop) : Prog S ε α → Prop
  | ret a => Q (.ok a)
  | raise e => Q (.error e)
  | call op k => P op ∧ ∀ r, (k r).Within P Q

/-- On every path the program makes an `M` call, or it ends in an outcome of `Q`. -/
def Must (M : S.Op → Prop) (Q : Except ε α → Prop) : Prog S ε α → Prop
  | ret a => Q (.ok a)
  | raise e => Q (.error e)
  | call op k => M op ∨ ∀ r, (k r).Must M Q

/-- Once a call has got an answer of `M`, every later call satisfies `P`. -/
def Then (M : ∀ op, S.Resp op → Prop) (P : S.Op → Prop) : Prog S ε α → Prop
  | ret _ => True
  | raise _ => True
  | call op k => ∀ r, (M op r → (k r).Issues P) ∧ (k r).Then M P

/-- On some path the program makes the call. -/
def CanIssue : Prog S ε α → S.Op → Prop
  | ret _, _ => False
  | raise _, _ => False
  | call op k, op' => op' = op ∨ ∃ r, (k r).CanIssue op'

/-- On some path of answers of `A` the program makes a `P` call before any `G` call. -/
def Uncovered (A : ∀ op, S.Resp op → Prop) (G P : S.Op → Prop) : Prog S ε α → Prop
  | ret _ => False
  | raise _ => False
  | call op k => P op ∨ (¬ G op ∧ ∃ r, A op r ∧ (k r).Uncovered A G P)

theorem Within.handle {P : S.Op → Prop} {Q : Except ε α → Prop} {Q' : Except ε' β → Prop}
    {p : Prog S ε α} {f : α → Prog S ε' β} {g : ε → Prog S ε' β} (hp : p.Within P Q)
    (hf : ∀ a, Q (.ok a) → (f a).Within P Q') (hg : ∀ e, Q (.error e) → (g e).Within P Q') :
    (p.handle f g).Within P Q' := by
  induction p with
  | ret a => exact hf a hp
  | raise e => exact hg e hp
  | call op k ih => exact ⟨hp.1, fun r => ih r (hp.2 r)⟩

theorem Issues.within {P : S.Op → Prop} {p : Prog S ε α} (hp : p.Issues P) :
    p.Within P fun _ => True := by
  induction p with
  | ret _ => trivial
  | raise _ => trivial
  | call op k ih => exact ⟨hp.1, fun r => ih r (hp.2 r)⟩

theorem Within.issues {P : S.Op → Prop} {Q : Except ε α → Prop} {p : Prog S ε α}
    (hp : p.Within P Q) : p.Issues P := by
  induction p with
  | ret _ => trivial
  | raise _ => trivial
  | call op k ih => exact ⟨hp.1, fun r => ih r (hp.2 r)⟩

theorem issues_canIssue (p : Prog S ε α) : p.Issues p.CanIssue := by
  induction p with
  | ret _ => trivial
  | raise _ => trivial
  | call op k ih => exact ⟨.inl rfl, fun r => (ih r).mono fun _ h => .inr ⟨r, h⟩⟩

theorem Issues.canIssue {P : S.Op → Prop} {p : Prog S ε α} {op : S.Op} (hp : p.Issues P)
    (h : p.CanIssue op) : P op := by
  induction p with
  | ret _ => exact h.elim
  | raise _ => exact h.elim
  | call op' k ih =>
    rcases h with rfl | ⟨r, hr⟩
    · exact hp.1
    · exact ih r (hp.2 r) hr

theorem Within.mono {P P' : S.Op → Prop} (himp : ∀ op, P op → P' op) {Q : Except ε α → Prop}
    {p : Prog S ε α} (hp : p.Within P Q) : p.Within P' Q := by
  induction p with
  | ret _ => exact hp
  | raise _ => exact hp
  | call op k ih => exact ⟨himp op hp.1, fun r => ih r (hp.2 r)⟩

theorem Within.and {P P' : S.Op → Prop} {Q : Except ε α → Prop} {p : Prog S ε α}
    (hp : p.Within P Q) (hp' : p.Issues P') : p.Within (fun op => P op ∧ P' op) Q := by
  induction p with
  | ret _ => exact hp
  | raise _ => exact hp
  | call op k ih => exact ⟨⟨hp.1, hp'.1⟩, fun r => ih r (hp.2 r) (hp'.2 r)⟩

theorem Within.embed {T : Signature} {f : S.Op → T.Op} {g : ∀ op, T.Resp (f op) → S.Resp op}
    {P : T.Op → Prop} {Q : Except ε α → Prop} {p : Prog S ε α}
    (hp : p.Within (fun op => P (f op)) Q) : (p.embed f g).Within P Q := by
  induction p with
  | ret _ => exact hp
  | raise _ => exact hp
  | call op k ih => exact ⟨hp.1, fun r => ih (g op r) (hp.2 (g op r))⟩

theorem embed_bind {T : Signature} {f : S.Op → T.Op} {g : ∀ op, T.Resp (f op) → S.Resp op}
    (p : Prog S ε α) (h : α → Prog S ε β) :
    (p >>= h).embed f g = p.embed f g >>= fun a => (h a).embed f g := by
  induction p with
  | ret _ => rfl
  | raise _ => rfl
  | call op k ih => exact congrArg (call (f op)) (funext fun r => ih (g op r))

theorem Within.must {M P : S.Op → Prop} {Q : Except ε α → Prop} {R : Except ε' β → Prop}
    {p : Prog S ε α} {f : α → Prog S ε' β} {g : ε → Prog S ε' β} (hp : p.Within P Q)
    (hf : ∀ a, Q (.ok a) → (f a).Must M R) (hg : ∀ e, Q (.error e) → (g e).Must M R) :
    (p.handle f g).Must M R := by
  induction p with
  | ret a => exact hf a hp
  | raise e => exact hg e hp
  | call op k ih => exact .inr fun r => ih r (hp.2 r)

theorem Must.handle {M : S.Op → Prop} {Q : Except ε' β → Prop} {p : Prog S ε α}
    {f : α → Prog S ε' β} {g : ε → Prog S ε' β} (hf : ∀ a, (f a).Must M Q)
    (hg : ∀ e, (g e).Must M Q) : (p.handle f g).Must M Q := by
  induction p with
  | ret a => exact hf a
  | raise e => exact hg e
  | call op k ih => exact Or.inr ih

variable {M : ∀ op, S.Resp op → Prop} {A : ∀ op, S.Resp op → Prop} {G P P' : S.Op → Prop}

theorem Then.of_issues {p : Prog S ε α} (hp : p.Issues fun op => ∀ r, ¬ M op r) :
    p.Then M P := by
  induction p with
  | ret _ => trivial
  | raise _ => trivial
  | call op k ih => exact fun r => ⟨fun hm => absurd hm (hp.1 r), ih r (hp.2 r)⟩

theorem Then.handle {p : Prog S ε α} {f : α → Prog S ε' β} {g : ε → Prog S ε' β}
    (hp : p.Issues fun op => ∀ r, ¬ M op r) (hf : ∀ a, (f a).Then M P)
    (hg : ∀ e, (g e).Then M P) : (p.handle f g).Then M P := by
  induction p with
  | ret a => exact hf a
  | raise e => exact hg e
  | call op k ih => exact fun r => ⟨fun hm => absurd hm (hp.1 r), ih r (hp.2 r)⟩

/-- The rest of a program may follow when it satisfies `P` whatever came before. -/
theorem Then.handle_issues {p : Prog S ε α} {f : α → Prog S ε' β} {g : ε → Prog S ε' β}
    (hp : p.Then M P) (hf : ∀ a, (f a).Issues fun op => P op ∧ ∀ r, ¬ M op r)
    (hg : ∀ e, (g e).Issues fun op => P op ∧ ∀ r, ¬ M op r) : (p.handle f g).Then M P := by
  induction p with
  | ret a => exact .of_issues ((hf a).mono fun _ h => h.2)
  | raise e => exact .of_issues ((hg e).mono fun _ h => h.2)
  | call op k ih =>
    exact fun r => ⟨fun hm => ((hp r).1 hm).handle (fun a => (hf a).mono fun _ h => h.1)
      fun e => (hg e).mono fun _ h => h.1, ih r (hp r).2⟩

theorem Uncovered.mono (himp : ∀ op, P op → P' op) {p : Prog S ε α}
    (hp : p.Uncovered A G P) : p.Uncovered A G P' := by
  induction p with
  | ret _ => exact hp
  | raise _ => exact hp
  | call op k ih =>
    rcases hp with hp | ⟨hg, r, ha, hr⟩
    · exact .inl (himp op hp)
    · exact .inr ⟨hg, r, ha, ih r hr⟩

theorem not_uncovered_call {op : S.Op} {k : S.Resp op → Prog S ε α} (hop : ¬ P op)
    (hk : ¬ G op → ∀ r, A op r → ¬ (k r).Uncovered A G P) :
    ¬ (call op k : Prog S ε α).Uncovered A G P := by
  rintro (h | ⟨hg, r, ha, h⟩)
  · exact hop h
  · exact hk hg r ha h

theorem not_uncovered_of_issues {p : Prog S ε α} (hp : p.Issues fun op => ¬ P op) :
    ¬ p.Uncovered A G P := by
  induction p with
  | ret _ => exact id
  | raise _ => exact id
  | call op k ih =>
    rintro (h | ⟨-, r, -, hr⟩)
    · exact hp.1 h
    · exact ih r (hp.2 r) hr

/-- What follows a program makes no `P` call. -/
theorem Uncovered.of_handle {p : Prog S ε α} {f : α → Prog S ε' β} {g : ε → Prog S ε' β}
    (hf : ∀ a, (f a).Issues fun op => ¬ P op) (hg : ∀ e, (g e).Issues fun op => ¬ P op)
    (h : (p.handle f g).Uncovered A G P) : p.Uncovered A G P := by
  induction p with
  | ret a => exact absurd h (not_uncovered_of_issues (hf a))
  | raise e => exact absurd h (not_uncovered_of_issues (hg e))
  | call op k ih =>
    rcases h with h | ⟨hop, r, ha, h⟩
    · exact .inl h
    · exact .inr ⟨hop, r, ha, ih r h⟩

end Prog

/-- How the world answers a call: the choice resolves what the environment
decides, `none` means that this answer is not possible. -/
abbrev Exec (S : Signature) (C W : Type) := (op : S.Op) → C → W → Option (S.Resp op × W)

namespace Prog

variable (exec : Exec S C W)

def step (c : C) : Prog S ε α → W → Option (Prog S ε α × W)
  | call op k, w => (exec op c w).map fun x => (k x.1, x.2)
  | ret _, _ => none
  | raise _, _ => none

/-- From `w`, under interference `R`, every call takes a `G` step and the outcome
satisfies `Q`. -/
def Safe (R G : W → W → Prop) (Q : Except ε α → W → Prop) : Prog S ε α → W → Prop
  | ret a, w => ∀ v, R w v → Q (.ok a) v
  | raise e, w => ∀ v, R w v → Q (.error e) v
  | call op k, w => ∀ v, R w v → ∀ c r v', exec op c v = some (r, v') →
      G v v' ∧ (k r).Safe R G Q v'

variable {exec} {R G : W → W → Prop} {Q : Except ε α → W → Prop}

theorem Safe.interfere (htrans : ∀ u v w, R u v → R v w → R u w) {p : Prog S ε α} {w v : W}
    (hp : p.Safe exec R G Q w) (hv : R w v) : p.Safe exec R G Q v := by
  cases p with
  | ret a => exact fun u hu => hp u (htrans _ _ _ hv hu)
  | raise e => exact fun u hu => hp u (htrans _ _ _ hv hu)
  | call op k => exact fun u hu => hp u (htrans _ _ _ hv hu)

theorem Safe.handle (hrefl : ∀ w, R w w) {Q' : Except ε' β → W → Prop} {p : Prog S ε α}
    {f : α → Prog S ε' β} {g : ε → Prog S ε' β} {w : W} (hp : p.Safe exec R G Q w)
    (hf : ∀ a v, Q (.ok a) v → (f a).Safe exec R G Q' v)
    (hg : ∀ e v, Q (.error e) v → (g e).Safe exec R G Q' v) :
    (p.handle f g).Safe exec R G Q' w := by
  induction p generalizing w with
  | ret a => exact hf a w (hp w (hrefl w))
  | raise e => exact hg e w (hp w (hrefl w))
  | call op k ih =>
    intro v hv c r v' he
    obtain ⟨hG, hk⟩ := hp v hv c r v' he
    exact ⟨hG, ih r hk⟩

/-- The frame of a program: what each call it issues preserves, and the others
preserve, holds at its end. -/
theorem Safe.frame {P : S.Op → Prop} {K : W → Prop} (hR : ∀ v v', K v → R v v' → K v')
    (hcall : ∀ op, P op → ∀ v c r v', K v → exec op c v = some (r, v') → G v v' ∧ K v')
    {p : Prog S ε α} {w : W} (hp : p.Issues P) (hw : K w) :
    p.Safe exec R G (fun _ v => K v) w := by
  induction p generalizing w with
  | ret _ => exact fun v hv => hR w v hw hv
  | raise _ => exact fun v hv => hR w v hw hv
  | call op k ih =>
    intro v hv c r v' he
    obtain ⟨hG, hK⟩ := hcall op hp.1 v c r v' (hR w v hw hv) he
    exact ⟨hG, ih r (hp.2 r) hK⟩

theorem Within.safe {P : S.Op → Prop} {Q : Except ε α → Prop} {K : W → Prop}
    (hR : ∀ v v', K v → R v v' → K v')
    (hcall : ∀ op, P op → ∀ v c r v', K v → exec op c v = some (r, v') → G v v' ∧ K v')
    {p : Prog S ε α} {w : W} (hp : p.Within P Q) (hw : K w) :
    p.Safe exec R G (fun out v => K v ∧ Q out) w := by
  induction p generalizing w with
  | ret _ => exact fun v hv => ⟨hR w v hw hv, hp⟩
  | raise _ => exact fun v hv => ⟨hR w v hw hv, hp⟩
  | call op k ih =>
    intro v hv c r v' he
    obtain ⟨hG, hK⟩ := hcall op hp.1 v c r v' (hR w v hw hv) he
    exact ⟨hG, ih r (hp.2 r) hK⟩

theorem Safe.of_issues {P : S.Op → Prop} (himp : ∀ op, P op → ∀ v c r v',
    exec op c v = some (r, v') → G v v') {p : Prog S ε α} (hp : p.Issues P) (w : W) :
    p.Safe exec R G (fun _ _ => True) w :=
  Safe.frame (K := fun _ => True) (fun _ _ _ _ => trivial)
    (fun op hop v c r v' _ he => ⟨himp op hop v c r v' he, trivial⟩) hp trivial

theorem Safe.weaken {Q' : Except ε α → W → Prop} (himp : ∀ x w, Q x w → Q' x w)
    {p : Prog S ε α} {w : W} (hp : p.Safe exec R G Q w) : p.Safe exec R G Q' w := by
  induction p generalizing w with
  | ret a => exact fun v hv => himp _ _ (hp v hv)
  | raise e => exact fun v hv => himp _ _ (hp v hv)
  | call op k ih =>
    intro v hv c r v' he
    obtain ⟨hG, hk⟩ := hp v hv c r v' he
    exact ⟨hG, ih r hk⟩

theorem Safe.guarantee {G' : W → W → Prop} (himp : ∀ v w, G v w → G' v w) {p : Prog S ε α}
    {w : W} (hp : p.Safe exec R G Q w) : p.Safe exec R G' Q w := by
  induction p generalizing w with
  | ret a => exact hp
  | raise e => exact hp
  | call op k ih =>
    intro v hv c r v' he
    obtain ⟨hG, hk⟩ := hp v hv c r v' he
    exact ⟨himp _ _ hG, ih r hk⟩

theorem Safe.relies {R' : W → W → Prop} (himp : ∀ v w, R' v w → R v w) {p : Prog S ε α} {w : W}
    (hp : p.Safe exec R G Q w) : p.Safe exec R' G Q w := by
  induction p generalizing w with
  | ret a => exact fun v hv => hp v (himp _ _ hv)
  | raise e => exact fun v hv => hp v (himp _ _ hv)
  | call op k ih =>
    intro v hv c r v' he
    obtain ⟨hG, hk⟩ := hp v (himp _ _ hv) c r v' he
    exact ⟨hG, ih r hk⟩

theorem Safe.and {G' : W → W → Prop} {Q' : Except ε α → W → Prop} {p : Prog S ε α} {w : W}
    (hp : p.Safe exec R G Q w) (hp' : p.Safe exec R G' Q' w) :
    p.Safe exec R (fun v v' => G v v' ∧ G' v v') (fun out v => Q out v ∧ Q' out v) w := by
  induction p generalizing w with
  | ret a => exact fun v hv => ⟨hp v hv, hp' v hv⟩
  | raise e => exact fun v hv => ⟨hp v hv, hp' v hv⟩
  | call op k ih =>
    intro v hv c r v' he
    obtain ⟨hG, hk⟩ := hp v hv c r v' he
    obtain ⟨hG', hk'⟩ := hp' v hv c r v' he
    exact ⟨⟨hG, hG'⟩, ih r hk hk'⟩

/-- A program that is safe in a part of the world is safe in the whole of it, where the
calls it issues act on that part. -/
theorem Safe.project {C' W' : Type} {exec' : Exec S C' W'} (f : W' → W) {R' : W' → W' → Prop}
    {P : S.Op → Prop} (hR : ∀ v w, R' v w → R (f v) (f w))
    (hexec : ∀ op, P op → ∀ c w r v, exec' op c w = some (r, v) →
      ∃ c₀, exec op c₀ (f w) = some (r, f v))
    {p : Prog S ε α} {w : W'} (hissues : p.Issues P) (hp : p.Safe exec R G Q (f w)) :
    p.Safe exec' R' (fun _ _ => True) (fun out v => Q out (f v)) w := by
  induction p generalizing w with
  | ret a => exact fun v hv => hp (f v) (hR w v hv)
  | raise e => exact fun v hv => hp (f v) (hR w v hv)
  | call op k ih =>
    intro v hv c r v' he
    obtain ⟨c₀, he₀⟩ := hexec op hissues.1 c v r v' he
    exact ⟨trivial, ih r (hissues.2 r) (hp _ (hR w v hv) c₀ r _ he₀).2⟩

/-- A program that is safe is safe as one of a larger signature, where the larger world
answers its calls in the same way as long as `K` holds. -/
theorem Safe.embed {T : Signature} {f : S.Op → T.Op} {g : ∀ op, T.Resp (f op) → S.Resp op}
    {exec' : Exec T C W} {K : W → Prop} (hR : ∀ v w, K v → R v w → K w)
    (hexec : ∀ op c w r v, K w → exec' (f op) c w = some (r, v) →
      exec op c w = some (g op r, v) ∧ K v)
    {p : Prog S ε α} {w : W} (hw : K w) (hp : p.Safe exec R G Q w) :
    (p.embed f g).Safe exec' R G (fun out v => K v ∧ Q out v) w := by
  induction p generalizing w with
  | ret a => exact fun v hv => ⟨hR w v hw hv, hp v hv⟩
  | raise e => exact fun v hv => ⟨hR w v hw hv, hp v hv⟩
  | call op k ih =>
    intro v hv c r v' he
    obtain ⟨he₀, hv'⟩ := hexec op c v r v' (hR w v hw hv) he
    obtain ⟨hG, hk⟩ := hp v hv c _ v' he₀
    exact ⟨hG, ih _ hv' hk⟩

/-- Where the program guarantees what it relies on, its end is related to its start. -/
theorem Safe.reached (htrans : ∀ u v w, R u v → R v w → R u w) {p : Prog S ε α} {u w : W}
    (hu : R u w) (hp : p.Safe exec R R Q w) :
    p.Safe exec R R (fun out v => R u v ∧ Q out v) w := by
  induction p generalizing w with
  | ret a => exact fun v hv => ⟨htrans _ _ _ hu hv, hp v hv⟩
  | raise e => exact fun v hv => ⟨htrans _ _ _ hu hv, hp v hv⟩
  | call op k ih =>
    intro v hv c r v' he
    obtain ⟨hG, hk⟩ := hp v hv c r v' he
    exact ⟨hG, ih r (htrans _ _ _ (htrans _ _ _ hu hv) hG) hk⟩

theorem Safe.step (hrefl : ∀ w, R w w) {p p' : Prog S ε α} {c : C} {w w' : W}
    (hp : p.Safe exec R G Q w) (he : p.step exec c w = some (p', w')) :
    G w w' ∧ p'.Safe exec R G Q w' := by
  cases p with
  | ret a => simp [Prog.step] at he
  | raise e => simp [Prog.step] at he
  | call op k =>
    simp only [Prog.step, Option.map_eq_some_iff, Prod.exists, Prod.mk.injEq] at he
    obtain ⟨r, v', he, rfl, rfl⟩ := he
    exact hp w (hrefl w) c r v' he

theorem Safe.ended (hrefl : ∀ w, R w w) {out : Except ε α} {w : W}
    (h : (ofExcept out).Safe exec R G Q w) : Q out w := by
  cases out with
  | ok a => exact h w (hrefl w)
  | error e => exact h w (hrefl w)

end Prog

end Foundation
