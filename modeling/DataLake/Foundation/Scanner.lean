import Mathlib.Data.List.Forall2
import Mathlib.Data.List.TakeWhile
import Mathlib.Tactic.Common

/-! Scanning a list from the left for what a matcher reads, and rewriting what is found. The
list falls apart into the elements that were passed over and the matches. -/

namespace Foundation

variable {α β M N : Type}

/-- What a pattern reads at the head of a list, and what it leaves. A match is not empty. -/
structure Scanner (α M : Type) where
  find : List α → Option (M × List α)
  reads : ∀ {s m rest}, find s = some (m, rest) → ∃ c cs, s = c :: cs ++ rest

namespace Scanner

/-- The first elements, as many as a match has left of them, are passed over. -/
def tokens (p : Scanner α M) : Nat → List α → List (α ⊕ M)
  | _, [] => []
  | k + 1, _ :: cs => tokens p k cs
  | 0, c :: cs =>
    match p.find (c :: cs) with
    | none => .inl c :: tokens p 0 cs
    | some (m, rest) => .inr m :: tokens p (cs.length - rest.length) cs

def scan (p : Scanner α M) (s : List α) : List (α ⊕ M) := p.tokens 0 s

variable {p : Scanner α M} {q : Scanner α N}

theorem tokens_eq (k : Nat) (s : List α) : p.tokens k s = p.scan (s.drop k) := by
  induction s generalizing k with
  | nil => cases k <;> rfl
  | cons c cs ih =>
    cases k with
    | zero => rfl
    | succ k => exact ih k

theorem find_nil : p.find [] = none := by
  cases h : p.find [] with
  | none => rfl
  | some x =>
    obtain ⟨c, cs, hs⟩ := p.reads h
    simp at hs

@[simp] theorem scan_nil : p.scan [] = [] := rfl

theorem scan_none {c : α} {cs : List α} (h : p.find (c :: cs) = none) :
    p.scan (c :: cs) = .inl c :: p.scan cs := by
  simp only [scan, tokens, h]

theorem scan_some {s rest : List α} {m : M} (h : p.find s = some (m, rest)) :
    p.scan s = .inr m :: p.scan rest := by
  obtain ⟨c, cs, rfl⟩ := p.reads h
  rw [List.cons_append] at h ⊢
  have hdrop : (cs ++ rest).drop ((cs ++ rest).length - rest.length) = rest := by
    rw [List.length_append, Nat.add_sub_cancel, List.drop_left]
  simp only [scan, tokens, h]
  rw [tokens_eq, hdrop]
  rfl

/-- The induction that follows a scan. -/
theorem scan_induct {P : List α → Prop} (p : Scanner α M) (nil : P [])
    (skip : ∀ c cs, p.find (c :: cs) = none → P cs → P (c :: cs))
    (found : ∀ s m rest, p.find s = some (m, rest) → P rest → P s) (s : List α) : P s := by
  induction hn : s.length using Nat.strong_induction_on generalizing s with
  | _ n ih =>
    cases h : p.find s with
    | none =>
      cases s with
      | nil => exact nil
      | cons c cs => exact skip c cs h (ih cs.length (by simp [← hn]) cs rfl)
    | some x =>
      obtain ⟨c, cs, hs⟩ := p.reads h
      have hlt : x.2.length < n := by
        rw [← hn, hs, List.length_append, List.length_cons]
        omega
      exact found s x.1 x.2 h (ih _ hlt x.2 rfl)

theorem scan_found {s : List α} {m : M} (h : .inr m ∈ p.scan s) :
    ∃ s' rest, s' <:+ s ∧ p.find s' = some (m, rest) := by
  induction s using scan_induct p with
  | nil => cases h
  | skip c cs hnone ih =>
    rw [scan_none hnone] at h
    obtain ⟨s', rest, hs', hfind⟩ := ih (by simpa using h)
    exact ⟨s', rest, hs'.trans (List.suffix_cons c cs), hfind⟩
  | found s m' rest hsome ih =>
    rw [scan_some hsome] at h
    rcases List.mem_cons.mp h with heq | h
    · cases heq
      exact ⟨s, rest, List.suffix_refl s, hsome⟩
    · obtain ⟨s', rest', hs', hfind⟩ := ih h
      obtain ⟨c, cs, rfl⟩ := p.reads hsome
      exact ⟨s', rest', hs'.trans (List.suffix_append (c :: cs) rest), hfind⟩

theorem scan_plain {s : List α} (h : ∀ m, .inr m ∉ p.scan s) : p.scan s = s.map .inl := by
  induction s using scan_induct p with
  | nil => rfl
  | skip c cs hnone ih =>
    rw [scan_none hnone] at h ⊢
    rw [ih fun m hm => h m (.tail _ hm)]
    rfl
  | found s m rest hsome ih =>
    rw [scan_some hsome] at h
    exact absurd (.head _) (h m)

/-- A boundary that no match crosses cuts a scan in two. -/
theorem scan_append {s t : List α}
    (h : ∀ s', s' ≠ [] → s' <:+ s → p.find (s' ++ t) = (p.find s').map fun y => (y.1, y.2 ++ t)) :
    p.scan (s ++ t) = p.scan s ++ p.scan t := by
  induction s using scan_induct p with
  | nil => rfl
  | skip c cs hnone ih =>
    have hnone' : p.find (c :: (cs ++ t)) = none := by
      have hc := h (c :: cs) nofun (List.suffix_refl _)
      rw [hnone] at hc
      exact hc
    rw [scan_none hnone, List.cons_append, scan_none hnone', List.cons_append,
      ih fun s' hne hs' => h s' hne (hs'.trans (List.suffix_cons c cs))]
  | found s m rest hsome ih =>
    obtain ⟨c, cs, rfl⟩ := p.reads hsome
    have hsome' : p.find (c :: cs ++ rest ++ t) = some (m, rest ++ t) := by
      rw [h (c :: cs ++ rest) nofun (List.suffix_refl _), hsome]
      rfl
    rw [scan_some hsome, scan_some hsome', List.cons_append,
      ih fun s' hne hs' => h s' hne (hs'.trans (List.suffix_append (c :: cs) rest))]

/-- Where `q` matches nothing but what `p` does, and reads the same of every match of `p`
that the scan has, the two scans go together. -/
theorem scan_refine {R : M → N → Prop} (hq : ∀ s, q.find s ≠ none → p.find s ≠ none)
    (hp : ∀ s m rest, p.find s = some (m, rest) → (∃ n, R m n) →
      ∃ n, R m n ∧ q.find s = some (n, rest)) {s : List α}
    (hall : ∀ m, .inr m ∈ p.scan s → ∃ n, R m n) :
    List.Forall₂ (Sum.LiftRel (· = ·) R) (p.scan s) (q.scan s) := by
  induction s using scan_induct p with
  | nil => exact .nil
  | skip c cs hnone ih =>
    rw [scan_none hnone] at hall ⊢
    rw [scan_none (not_not.mp fun h => hq _ h hnone)]
    exact .cons (.inl rfl) (ih fun m hm => hall m (.tail _ hm))
  | found s m rest hsome ih =>
    rw [scan_some hsome] at hall ⊢
    obtain ⟨n, hR, hfind⟩ := hp s m rest hsome (hall m (.head _))
    rw [scan_some hfind]
    exact .cons (.inr hR) (ih fun m hm => hall m (.tail _ hm))

end Scanner

/-! What an effect on every element of a list comes to. -/

theorem exists_of_forall₂ {R : α → β → Prop} {xs : List α} {ys : List β}
    (h : List.Forall₂ R xs ys) {x : α} (hx : x ∈ xs) : ∃ y ∈ ys, R x y := by
  induction h with
  | nil => cases hx
  | cons hR _ ih =>
    rcases List.mem_cons.mp hx with rfl | hx
    · exact ⟨_, .head _, hR⟩
    · obtain ⟨y, hy, hR⟩ := ih hx
      exact ⟨y, .tail _ hy, hR⟩

theorem forall₂_of_mem {R S : α → β → Prop} {xs : List α} {ys : List β}
    (h : List.Forall₂ R xs ys) (himp : ∀ x ∈ xs, ∀ y, R x y → S x y) : List.Forall₂ S xs ys := by
  induction h with
  | nil => exact .nil
  | cons hR _ ih =>
    exact .cons (himp _ (.head _) _ hR) (ih fun x hx => himp x (.tail _ hx))

theorem forall₂_comp {γ : Type} {R : α → β → Prop} {S : β → γ → Prop} {T : α → γ → Prop}
    (himp : ∀ x y z, R x y → S y z → T x z) {xs : List α} {ys : List β} {zs : List γ}
    (hR : List.Forall₂ R xs ys) (hS : List.Forall₂ S ys zs) : List.Forall₂ T xs zs := by
  induction hR generalizing zs with
  | nil =>
    cases hS
    exact .nil
  | cons hxy _ ih =>
    cases hS with
    | cons hyz hS => exact .cons (himp _ _ _ hxy hyz) (ih hS)

variable {ε : Type} {f : α → Except ε β}

theorem mapM_eq_ok {xs : List α} {ys : List β} :
    xs.mapM f = .ok ys ↔ List.Forall₂ (fun x y => f x = .ok y) xs ys := by
  induction xs generalizing ys with
  | nil => cases ys <;> simp [pure, Except.pure]
  | cons x xs ih =>
    rw [List.mapM_cons, List.forall₂_cons_left_iff]
    cases hx : f x with
    | error e => exact iff_of_false (by rintro ⟨⟩) (by rintro ⟨y, _, ⟨⟩, _⟩)
    | ok y =>
      cases hxs : xs.mapM f with
      | error e =>
        refine iff_of_false (by rintro ⟨⟩) ?_
        rintro ⟨_, zs, -, hzs, -⟩
        rw [ih.mpr hzs] at hxs
        cases hxs
      | ok zs =>
        constructor
        · rintro ⟨⟩
          exact ⟨y, zs, rfl, ih.mp hxs, rfl⟩
        · rintro ⟨_, zs', ⟨⟩, hzs, rfl⟩
          rw [ih.mpr hzs] at hxs
          cases hxs
          rfl

theorem bind_eq_ok {x : Except ε α} {g : α → Except ε β} {b : β} :
    x >>= g = .ok b ↔ ∃ a, x = .ok a ∧ g a = .ok b := by
  cases x with
  | error e => exact iff_of_false nofun (by rintro ⟨_, ⟨⟩, _⟩)
  | ok a => exact ⟨fun h => ⟨a, rfl, h⟩, by rintro ⟨_, ⟨⟩, h⟩; exact h⟩

theorem map_eq_ok {g : α → β} {x : Except ε α} {b : β} :
    x.map g = .ok b ↔ ∃ a, x = .ok a ∧ g a = b := by
  cases x with
  | error e => exact iff_of_false nofun nofun
  | ok a => simp [Except.map]

theorem map_eq_error {g : α → β} {x : Except ε α} {e : ε} :
    x.map g = .error e ↔ x = .error e := by
  cases x with
  | error e' => simp [Except.map]
  | ok a => exact iff_of_false nofun nofun

theorem mapM_congr {f f' : α → Except ε β} {xs : List α} (h : ∀ x ∈ xs, f x = f' x) :
    xs.mapM f = xs.mapM f' := by
  induction xs with
  | nil => rfl
  | cons x xs ih =>
    rw [List.mapM_cons, List.mapM_cons, h x (.head _), ih fun y hy => h y (.tail _ hy)]

theorem mapM_eq_error {xs : List α} {e : ε} (h : xs.mapM f = .error e) :
    ∃ x ∈ xs, f x = .error e := by
  induction xs with
  | nil => cases h
  | cons x xs ih =>
    rw [List.mapM_cons] at h
    cases hx : f x with
    | error e' =>
      rw [hx] at h
      cases h
      exact ⟨x, .head _, hx⟩
    | ok y =>
      rw [hx] at h
      cases hxs : xs.mapM f with
      | error e' =>
        rw [hxs] at h
        cases h
        obtain ⟨x', hmem, hx'⟩ := ih hxs
        exact ⟨x', .tail _ hmem, hx'⟩
      | ok ys =>
        rw [hxs] at h
        cases h

theorem mapM_ne_ok {xs : List α} {x : α} {e : ε} (hmem : x ∈ xs) (hx : f x = .error e)
    (ys : List β) : xs.mapM f ≠ .ok ys := by
  intro h
  obtain ⟨y, -, hy⟩ := exists_of_forall₂ (mapM_eq_ok.mp h) hmem
  rw [hx] at hy
  cases hy

/-- An effect on every element fails where it fails on one of them. -/
theorem exists_mapM_error {xs : List α} :
    (∃ e, xs.mapM f = .error e) ↔ ∃ x ∈ xs, ∃ e, f x = .error e := by
  constructor
  · rintro ⟨e, h⟩
    obtain ⟨x, hmem, hx⟩ := mapM_eq_error h
    exact ⟨x, hmem, e, hx⟩
  · rintro ⟨x, hmem, e, hx⟩
    cases h : xs.mapM f with
    | error e' => exact ⟨e', rfl⟩
    | ok ys => exact absurd h (mapM_ne_ok hmem hx ys)

namespace Scanner

/-- `re.sub` by a function that may raise: the matches in turn. -/
def rewrite (p : Scanner α M) (f : M → Except ε (List α)) (s : List α) : Except ε (List α) :=
  ((p.scan s).mapM (Sum.elim (fun c => .ok [c]) f)).map List.flatten

end Scanner

/-! Reading a word at the head of a list. -/

/-- The list without the word at its head, up to `fits`. -/
def readWord (fits : α → β → Bool) : List β → List α → Option (List α)
  | [], s => some s
  | _ :: _, [] => none
  | d :: ds, c :: cs => if fits c d then readWord fits ds cs else none

theorem readWord_eq_some {fits : α → β → Bool} {word : List β} {s rest : List α} :
    readWord fits word s = some rest ↔
      ∃ w, List.Forall₂ (fun c d => fits c d = true) w word ∧ s = w ++ rest := by
  induction word generalizing s with
  | nil => simp [readWord]
  | cons d ds ih =>
    cases s with
    | nil => simp [readWord]
    | cons c cs =>
      by_cases hc : fits c d = true
      · simp [readWord, List.forall₂_cons_right_iff, hc, ih]
      · simp [readWord, List.forall₂_cons_right_iff, hc]

theorem readWord_self [DecidableEq α] {word s rest : List α} :
    readWord (fun c d => decide (c = d)) word s = some rest ↔ s = word ++ rest := by
  rw [readWord_eq_some]
  simp only [decide_eq_true_eq, List.forall₂_eq_eq_eq, exists_eq_left]

/-- A run of elements that satisfy `f`, and what follows it. -/
theorem span_append {f : α → Bool} {w s : List α} (hw : ∀ c ∈ w, f c = true)
    (hs : ∀ c, s.head? = some c → f c = false) :
    (w ++ s).takeWhile f = w ∧ (w ++ s).dropWhile f = s := by
  induction w with
  | nil =>
    cases s with
    | nil => exact ⟨rfl, rfl⟩
    | cons c cs => simp [hs c rfl]
  | cons c cs ih =>
    obtain ⟨htake, hdrop⟩ := ih fun c' hc' => hw c' (.tail _ hc')
    simp [hw c (.head _), htake, hdrop]

theorem exists_span (f : α → Bool) (s : List α) :
    ∃ w rest, s = w ++ rest ∧ (∀ c ∈ w, f c = true) ∧ (∀ c, rest.head? = some c → f c = false) ∧
      s.takeWhile f = w ∧ s.dropWhile f = rest := by
  induction s with
  | nil => exact ⟨[], [], rfl, nofun, nofun, rfl, rfl⟩
  | cons c cs ih =>
    by_cases hc : f c = true
    · obtain ⟨w, rest, rfl, hw, hrest, htake, hdrop⟩ := ih
      refine ⟨c :: w, rest, rfl, ?_, hrest, by simp [hc, htake], by simp [hc, hdrop]⟩
      rintro c' (_ | ⟨_, hc'⟩)
      · exact hc
      · exact hw c' hc'
    · refine ⟨[], c :: cs, rfl, nofun, ?_, by simp [hc], by simp [hc]⟩
      rintro c' ⟨⟩
      simpa using hc

end Foundation
