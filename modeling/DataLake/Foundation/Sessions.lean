import DataLake.Foundation.Program
import DataLake.Foundation.Transition
import Mathlib.Logic.Function.Basic

/-! Sessions that share a world: each serves one request by the program of that request,
one call at a time, and remembers the calls it has made. A session can die between two
calls. -/

namespace Foundation

variable {S : Signature} {ε α ρ C W : Type}

/-- A call with its answer. -/
abbrev Call (S : Signature) := (op : S.Op) × S.Resp op

namespace Prog

/-- Along every path of answers of `A`, each call satisfies `P` of the calls before it, and
the outcome `Q` of them all. -/
def Along (A : ∀ op, S.Resp op → Prop) (P : List (Call S) → S.Op → Prop)
    (Q : List (Call S) → Except ε α → Prop) : List (Call S) → Prog S ε α → Prop
  | l, ret a => Q l (.ok a)
  | l, raise e => Q l (.error e)
  | l, call op k => P l op ∧ ∀ r, A op r → (k r).Along A P Q (l ++ [⟨op, r⟩])

variable {A : ∀ op, S.Resp op → Prop} {P : List (Call S) → S.Op → Prop} {β ε' : Type}

theorem Along.handle {Q : List (Call S) → Except ε α → Prop}
    {Q' : List (Call S) → Except ε' β → Prop} {p : Prog S ε α} {f : α → Prog S ε' β}
    {g : ε → Prog S ε' β} {l : List (Call S)} (hp : p.Along A P Q l)
    (hf : ∀ l a, Q l (.ok a) → (f a).Along A P Q' l)
    (hg : ∀ l e, Q l (.error e) → (g e).Along A P Q' l) : (p.handle f g).Along A P Q' l := by
  induction p generalizing l with
  | ret a => exact hf l a hp
  | raise e => exact hg l e hp
  | call op k ih => exact ⟨hp.1, fun r hr => ih r (hp.2 r hr)⟩

theorem Along.imp {Q Q' : List (Call S) → Except ε α → Prop} {p : Prog S ε α}
    {l : List (Call S)} (hp : p.Along A P Q l) (himp : ∀ l out, Q l out → Q' l out) :
    p.Along A P Q' l := by
  induction p generalizing l with
  | ret a => exact himp l _ hp
  | raise e => exact himp l _ hp
  | call op k ih => exact ⟨hp.1, fun r hr => ih r (hp.2 r hr)⟩

theorem Along.mono {P' : List (Call S) → S.Op → Prop} {Q : List (Call S) → Except ε α → Prop}
    {p : Prog S ε α} {l : List (Call S)} (hp : p.Along A P Q l)
    (himp : ∀ l op, P l op → P' l op) : p.Along A P' Q l := by
  induction p generalizing l with
  | ret a => exact hp
  | raise e => exact hp
  | call op k ih => exact ⟨himp _ _ hp.1, fun r hr => ih r (hp.2 r hr)⟩

theorem Along.embed_bind {T : Signature} {f : T.Op → S.Op} {g : ∀ op, S.Resp (f op) → T.Resp op}
    {Q : List (Call S) → Except ε α → Prop} {Q' : List (Call S) → Except ε β → Prop}
    {p : Prog T ε α} {h : α → Prog T ε β} {l : List (Call S)} (hp : (p.embed f g).Along A P Q l)
    (hh : ∀ l a, Q l (.ok a) → ((h a).embed f g).Along A P Q' l)
    (he : ∀ l e, Q l (.error e) → Q' l (.error e)) : ((p >>= h).embed f g).Along A P Q' l := by
  rw [Prog.embed_bind]
  exact hp.handle hh he

/-- What the calls of a program keep true of the calls made so far. -/
theorem Within.along {K : List (Call S) → Prop} {P₀ : S.Op → Prop} {Q₀ : Except ε α → Prop}
    {p : Prog S ε α} {l : List (Call S)} (hp : p.Within P₀ Q₀) (hl : K l)
    (hstep : ∀ l op, K l → P₀ op → P l op ∧ ∀ r, A op r → K (l ++ [⟨op, r⟩])) :
    p.Along A P (fun l out => K l ∧ Q₀ out) l := by
  induction p generalizing l with
  | ret _ => exact ⟨hl, hp⟩
  | raise _ => exact ⟨hl, hp⟩
  | call op k ih =>
    obtain ⟨hP, hK⟩ := hstep l op hl hp.1
    exact ⟨hP, fun r hr => ih r (hp.2 r) (hK r hr)⟩

theorem Issues.along {K : List (Call S) → Prop} {P₀ : S.Op → Prop} {p : Prog S ε α}
    {l : List (Call S)} (hp : p.Issues P₀) (hl : K l)
    (hstep : ∀ l op, K l → P₀ op → P l op ∧ ∀ r, A op r → K (l ++ [⟨op, r⟩])) :
    p.Along A P (fun l _ => K l) l :=
  (hp.within.along hl hstep).imp fun _ _ h => h.1

theorem along_ofExcept {Q : List (Call S) → Except ε α → Prop} {x : Except ε β}
    {f : β → Prog S ε α} {l : List (Call S)} (herror : ∀ e, x = .error e → Q l (.error e))
    (h : ∀ a, x = .ok a → (f a).Along A P Q l) : (ofExcept x >>= f).Along A P Q l := by
  cases x with
  | error e => exact herror e rfl
  | ok a => exact h a rfl

/-- Answered in this way, the program ends so. -/
inductive Ends : Prog S ε α → List (Call S) → Except ε α → Prop where
  | ret (a : α) : Ends (ret a) [] (.ok a)
  | raise (e : ε) : Ends (raise e) [] (.error e)
  | call {op : S.Op} {k : S.Resp op → Prog S ε α} {r : S.Resp op} {l : List (Call S)}
      {out : Except ε α} : Ends (k r) l out → Ends (call op k) (⟨op, r⟩ :: l) out

theorem Along.ends {Q : List (Call S) → Except ε α → Prop} {p : Prog S ε α} {l l' : List (Call S)}
    {out : Except ε α} (hp : p.Along A P Q l) (h : p.Ends l' out)
    (hA : ∀ call ∈ l', A call.1 call.2) : Q (l ++ l') out := by
  induction h generalizing l with
  | ret a => rwa [List.append_nil]
  | raise e => rwa [List.append_nil]
  | @call op k r l' out _ ih =>
    have hrest := ih (hp.2 r (hA _ (.head _))) fun call hcall => hA call (.tail _ hcall)
    rwa [List.append_assoc] at hrest

/-- A program that still has a call to make. -/
def pending : Prog S ε α → Bool
  | call _ _ => true
  | _ => false

end Prog

structure Session (S : Signature) (ε α ρ : Type) where
  request : ρ
  prog : Prog S ε α
  log : List (Call S) := []
  alive : Bool := true

/-- At work: neither dead nor at its end. -/
def Session.active (x : Session S ε α ρ) : Bool := x.alive && x.prog.pending

/-- The session after the answer to its call. -/
def Session.answered (x : Session S ε α ρ) (op : S.Op) (k : S.Resp op → Prog S ε α)
    (r : S.Resp op) : Session S ε α ρ :=
  { x with prog := k r, log := x.log ++ [⟨op, r⟩] }

structure Sessions (S : Signature) (ε α ρ W : Type) where
  world : W
  sessions : Nat → Option (Session S ε α ρ)

inductive SessionEvent (C ρ : Type) where
  | start (i : Nat) (request : ρ)
  | step (i : Nat) (c : C)
  | die (i : Nat)

namespace Sessions

def set (s : Sessions S ε α ρ W) (w : W) (i : Nat) (x : Session S ε α ρ) :
    Sessions S ε α ρ W :=
  ⟨w, Function.update s.sessions i (some x)⟩

@[simp] theorem set_world (s : Sessions S ε α ρ W) (w : W) (i : Nat) (x : Session S ε α ρ) :
    (s.set w i x).world = w := rfl

@[simp] theorem set_self {s : Sessions S ε α ρ W} {w : W} {i : Nat} {x : Session S ε α ρ} :
    (s.set w i x).sessions i = some x := by
  simp [set]

theorem set_sessions {s : Sessions S ε α ρ W} {w : W} {i j : Nat} {x y : Session S ε α ρ}
    (h : (s.set w i x).sessions j = some y) : (j = i ∧ y = x) ∨ (j ≠ i ∧ s.sessions j = some y) := by
  by_cases hij : j = i
  · subst hij
    exact .inl ⟨rfl, by simpa [set] using h.symm⟩
  · exact .inr ⟨hij, by simpa [set, hij] using h⟩

/-- The answer of the world to a session, and where that leaves it. -/
def answer (exec : Exec S C W) (c : C) (w : W) (x : Session S ε α ρ) :
    Option (Session S ε α ρ × W) :=
  match x.alive, x.prog with
  | true, .call op k => (exec op c w).map fun y => (x.answered op k y.1, y.2)
  | _, _ => none

def next (program : ρ → Prog S ε α) (exec : Exec S C W) (s : Sessions S ε α ρ W) :
    SessionEvent C ρ → Option (Sessions S ε α ρ W)
  | .start i request =>
    match s.sessions i with
    | none => some (s.set s.world i { request, prog := program request })
    | some _ => none
  | .step i c =>
    (s.sessions i).bind fun x => (answer exec c s.world x).map fun y => s.set y.2 i y.1
  | .die i => (s.sessions i).map fun x => s.set s.world i { x with alive := false }

variable {program : ρ → Prog S ε α} {exec : Exec S C W} {s t : Sessions S ε α ρ W}

theorem next_cases {e : SessionEvent C ρ} (h : next program exec s e = some t) :
    (∃ i request, e = .start i request ∧ s.sessions i = none ∧
      t = s.set s.world i { request, prog := program request }) ∨
    (∃ i c x op k r w, e = .step i c ∧ s.sessions i = some x ∧ x.alive = true ∧
      x.prog = .call op k ∧ exec op c s.world = some (r, w) ∧
      t = s.set w i (x.answered op k r)) ∨
    (∃ i x, e = .die i ∧ s.sessions i = some x ∧ t = s.set s.world i { x with alive := false }) := by
  cases e with
  | start i request =>
    cases hi : s.sessions i with
    | none => exact .inl ⟨i, request, rfl, hi, by simpa [next, hi] using h.symm⟩
    | some x => simp [next, hi] at h
  | step i c =>
    obtain ⟨x, hx, hstep⟩ := Option.bind_eq_some_iff.mp h
    obtain ⟨⟨y, w⟩, hanswer, rfl⟩ := Option.map_eq_some_iff.mp hstep
    obtain ⟨request, prog, log, alive⟩ := x
    cases alive with
    | false => cases hanswer
    | true =>
      cases prog with
      | ret a => cases hanswer
      | raise e => cases hanswer
      | call op k =>
        obtain ⟨⟨r, w'⟩, he, hpair⟩ := Option.map_eq_some_iff.mp hanswer
        cases hpair
        exact .inr (.inl ⟨i, c, _, op, k, r, w', rfl, hx, rfl, rfl, he, rfl⟩)
  | die i =>
    obtain ⟨x, hx, rfl⟩ := Option.map_eq_some_iff.mp h
    exact .inr (.inr ⟨i, x, rfl, hx, rfl⟩)

def idle (w : W) : Sessions S ε α ρ W := ⟨w, fun _ => none⟩

section Along

variable {A : ρ → ∀ op, S.Resp op → Prop} {P : ρ → List (Call S) → S.Op → Prop}
  {Q : ρ → List (Call S) → Except ε α → Prop}

/-- The rest of each session goes on as its request requires, and so did the calls it has
made. -/
def Conform (A : ρ → ∀ op, S.Resp op → Prop) (P : ρ → List (Call S) → S.Op → Prop)
    (Q : ρ → List (Call S) → Except ε α → Prop) (s : Sessions S ε α ρ W) : Prop :=
  ∀ i x, s.sessions i = some x → x.prog.Along (A x.request) (P x.request) (Q x.request) x.log ∧
    ∀ l op r l', x.log = l ++ ⟨op, r⟩ :: l' → P x.request l op ∧ A x.request op r

theorem conform_idle (w : W) : (idle w : Sessions S ε α ρ W).Conform A P Q := by
  intro i x h
  cases h

theorem Conform.rule {i : Nat} {x : Session S ε α ρ} {op : S.Op} {k : S.Resp op → Prog S ε α}
    (hs : s.Conform A P Q) (hx : s.sessions i = some x) (hprog : x.prog = .call op k) :
    P x.request x.log op := by
  have halong := (hs i x hx).1
  rw [hprog] at halong
  exact halong.1

theorem Conform.ended {i : Nat} {x : Session S ε α ρ} (hs : s.Conform A P Q)
    (hx : s.sessions i = some x) (hend : x.prog.pending = false) :
    ∃ out, Q x.request x.log out := by
  have halong := (hs i x hx).1
  cases hprog : x.prog with
  | ret a =>
    rw [hprog] at halong
    exact ⟨_, halong⟩
  | raise e =>
    rw [hprog] at halong
    exact ⟨_, halong⟩
  | call op k =>
    rw [hprog] at hend
    cases hend

theorem Conform.next {e : SessionEvent C ρ} (hs : s.Conform A P Q)
    (hprogram : ∀ i request, e = .start i request →
      (program request).Along (A request) (P request) (Q request) [])
    (hA : ∀ i x op k c r w, e = .step i c → s.sessions i = some x → x.prog = .call op k →
      exec op c s.world = some (r, w) → A x.request op r)
    (h : next program exec s e = some t) : t.Conform A P Q := by
  rcases next_cases h with ⟨i, request, rfl, hi, rfl⟩ |
    ⟨i, c, x, op, k, r, w, rfl, hx, halive, hprog, he, rfl⟩ | ⟨i, x, rfl, hx, rfl⟩
  · intro j y hy
    rcases set_sessions hy with ⟨rfl, rfl⟩ | ⟨-, hy⟩
    · refine ⟨hprogram j request rfl, fun l op r l' hl => ?_⟩
      simp at hl
    · exact hs j y hy
  · intro j y hy
    rcases set_sessions hy with ⟨rfl, rfl⟩ | ⟨-, hy⟩
    · obtain ⟨halong, hlog⟩ := hs j x hx
      rw [hprog] at halong
      have hr := hA j x op k c r w rfl hx hprog he
      refine ⟨halong.2 r hr, fun l op' r' l' hl => ?_⟩
      rcases List.append_eq_append_iff.mp hl with ⟨m, rfl, hm⟩ | ⟨m, hm, hl'⟩
      · cases m with
        | nil =>
          obtain ⟨hcall, -⟩ := List.cons_eq_cons.mp hm
          cases hcall
          rw [List.append_nil]
          exact ⟨halong.1, hr⟩
        | cons z m => simp at hm
      · cases m with
        | nil =>
          obtain ⟨hcall, -⟩ := List.cons_eq_cons.mp hl'
          cases hcall
          rw [List.append_nil] at hm
          exact hm ▸ ⟨halong.1, hr⟩
        | cons z m =>
          obtain ⟨rfl, -⟩ := List.cons_eq_cons.mp hl'
          exact hlog l op' r' m hm
    · exact hs j y hy
  · intro j y hy
    rcases set_sessions hy with ⟨rfl, rfl⟩ | ⟨-, hy⟩
    · exact hs j x hx
    · exact hs j y hy

theorem Conform.reaches {ok : Sessions S ε α ρ W → SessionEvent C ρ → Prop}
    (hs : s.Conform A P Q)
    (hprogram : ∀ u i request, ok u (.start i request) →
      (program request).Along (A request) (P request) (Q request) [])
    (hA : ∀ u i x op k c r w, ok u (.step i c) → u.sessions i = some x → x.prog = .call op k →
      exec op c u.world = some (r, w) → A x.request op r)
    (h : Reaches (Sessions.next program exec) ok s t) : t.Conform A P Q := by
  refine h.invariant hs fun u e v hu hok he => hu.next ?_ ?_ he
  · rintro i request rfl
    exact hprogram u i request hok
  · rintro i x op k c r w rfl hx hprog hexec
    exact hA u i x op k c r w hok hx hprog hexec

end Along

/-- What a session adds to its calls, where the world keeps `K` and `K` decides what the
answers are. -/
theorem later {ok : Sessions S ε α ρ W → SessionEvent C ρ → Prop} {K : W → Prop}
    {B : ∀ op, S.Resp op → Prop} {i : Nat} {x : Session S ε α ρ} (hx : s.sessions i = some x)
    (hs : K s.world)
    (hkeep : ∀ u e v, K u.world → ok u e → next program exec u e = some v → K v.world)
    (hanswer : ∀ op c w r v, K w → exec op c w = some (r, v) → B op r)
    (h : Reaches (next program exec) ok s t) :
    K t.world ∧ ∃ y l, t.sessions i = some y ∧ y.request = x.request ∧ y.log = x.log ++ l ∧
      ∀ z ∈ l, B z.1 z.2 := by
  refine h.invariant (I := fun u : Sessions S ε α ρ W => K u.world ∧ ∃ y l, u.sessions i = some y ∧
    y.request = x.request ∧ y.log = x.log ++ l ∧ ∀ z ∈ l, B z.1 z.2)
    ⟨hs, x, [], hx, rfl, (List.append_nil _).symm, nofun⟩ fun u e v hu hok he => ?_
  obtain ⟨hK, y, l, hy, hrequest, hlog, hanswered⟩ := hu
  refine ⟨hkeep u e v hK hok he, ?_⟩
  have hother : ∀ j w (z : Session S ε α ρ), j ≠ i → (u.set w j z).sessions i = some y :=
    fun j w z hj => by simpa [set, Ne.symm hj] using hy
  rcases next_cases he with ⟨j, request, rfl, hj, rfl⟩ |
    ⟨j, c, z, op, k, r, w, rfl, hz, -, -, hexec, rfl⟩ | ⟨j, z, rfl, hz, rfl⟩
  · refine ⟨y, l, hother j _ _ ?_, hrequest, hlog, hanswered⟩
    rintro rfl
    rw [hy] at hj
    cases hj
  · by_cases hij : j = i
    · subst hij
      obtain rfl := Option.some.inj (hy.symm.trans hz)
      refine ⟨_, l ++ [⟨op, r⟩], set_self, hrequest, ?_, fun a ha => ?_⟩
      · rw [Session.answered, hlog, List.append_assoc]
      · rcases List.mem_append.mp ha with ha | ha
        · exact hanswered a ha
        · obtain rfl := List.mem_singleton.mp ha
          exact hanswer op c _ r w hK hexec
    · exact ⟨y, l, hother j _ _ hij, hrequest, hlog, hanswered⟩
  · by_cases hij : j = i
    · subst hij
      obtain rfl := Option.some.inj (hy.symm.trans hz)
      exact ⟨_, l, set_self, hrequest, hlog, hanswered⟩
    · exact ⟨y, l, hother j _ _ hij, hrequest, hlog, hanswered⟩

section Guarded

variable {R : W → W → Prop} {Q : Except ε α → W → Prop} {P : S.Op → Prop} {i : Nat}

/-- Session `i` is safe under what the calls of the others may do. -/
structure Guarded (exec : Exec S C W) (R : W → W → Prop) (Q : Except ε α → W → Prop)
    (P : S.Op → Prop) (i : Nat) (s : Sessions S ε α ρ W) : Prop where
  safe : ∃ x, s.sessions i = some x ∧ x.prog.Safe exec R (fun _ _ => True) Q s.world
  others : ∀ j y, j ≠ i → s.sessions j = some y → y.prog.Issues P

theorem Guarded.next {e : SessionEvent C ρ} (hrefl : ∀ w, R w w)
    (htrans : ∀ u v w, R u v → R v w → R u w)
    (hP : ∀ op, P op → ∀ c v r w, exec op c v = some (r, w) → R v w)
    (hstart : ∀ j request, e = .start j request → (program request).Issues P)
    (hs : s.Guarded exec R Q P i) (h : next program exec s e = some t) :
    t.Guarded exec R Q P i := by
  obtain ⟨⟨x, hx, hsafe⟩, hothers⟩ := hs
  rcases next_cases h with ⟨j, request, rfl, hj, rfl⟩ |
    ⟨j, c, y, op, k, r, w, rfl, hy, -, hprog, he, rfl⟩ | ⟨j, y, rfl, hy, rfl⟩
  · refine ⟨⟨x, ?_, hsafe⟩, fun l z hl hz => ?_⟩
    · have hij : i ≠ j := by
        rintro rfl
        rw [hj] at hx
        cases hx
      simpa [set, hij] using hx
    · rcases set_sessions hz with ⟨rfl, rfl⟩ | ⟨-, hz⟩
      · exact hstart l request rfl
      · exact hothers l z hl hz
  · by_cases hij : j = i
    · subst hij
      rw [hx] at hy
      cases hy
      rw [hprog] at hsafe
      refine ⟨⟨_, set_self, (hsafe _ (hrefl _) c r w he).2⟩, fun l z hl hz => ?_⟩
      rcases set_sessions hz with ⟨rfl, -⟩ | ⟨-, hz⟩
      · exact absurd rfl hl
      · exact hothers l z hl hz
    · have hissues := hothers j y hij hy
      rw [hprog] at hissues
      have hR := hP op hissues.1 c s.world r w he
      refine ⟨⟨x, by simpa [set, Ne.symm hij] using hx, hsafe.interfere htrans hR⟩,
        fun l z hl hz => ?_⟩
      rcases set_sessions hz with ⟨rfl, rfl⟩ | ⟨-, hz⟩
      · exact hissues.2 r
      · exact hothers l z hl hz
  · by_cases hij : j = i
    · subst hij
      rw [hx] at hy
      cases hy
      refine ⟨⟨_, set_self, hsafe⟩, fun l z hl hz => ?_⟩
      rcases set_sessions hz with ⟨rfl, -⟩ | ⟨-, hz⟩
      · exact absurd rfl hl
      · exact hothers l z hl hz
    · refine ⟨⟨x, by simpa [set, Ne.symm hij] using hx, hsafe⟩, fun l z hl hz => ?_⟩
      rcases set_sessions hz with ⟨rfl, rfl⟩ | ⟨-, hz⟩
      · exact hothers l y hl hy
      · exact hothers l z hl hz

theorem Guarded.ended {x : Session S ε α ρ} (hrefl : ∀ w, R w w)
    (hs : s.Guarded exec R Q P i) (hx : s.sessions i = some x) (out : Except ε α)
    (hout : x.prog = Prog.ofExcept out) : Q out s.world := by
  obtain ⟨⟨y, hy, hsafe⟩, -⟩ := hs
  rw [hx] at hy
  cases hy
  rw [hout] at hsafe
  exact hsafe.ended hrefl

end Guarded

end Sessions

end Foundation
