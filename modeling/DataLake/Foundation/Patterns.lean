import DataLake.Foundation.Scanner
import Mathlib.Data.List.Infix

/-! Patterns that read a marker, a separator and the word that follows, and put a mask in the
place of that word. What such a pattern makes of a text can be cut where no match goes on. -/

namespace Foundation

/-- How letters are compared, and which of them are space. -/
structure Alphabet (α : Type) where
  fold : α → α
  space : α → Bool

inductive Piece (α : Type) where
  | word (letters : List α)
  | spaces
  | someSpaces
  | oneOf (choices : List α)
  | optional (choices : List α)

/-- `((?:marker|...)separator)(?:extra)?word`; where the extra part is kept, it is inside the
group that stays. -/
structure Pattern (α : Type) where
  markers : List (List α)
  separator : List (Piece α)
  extra : List (Piece α)
  keepsExtra : Bool

variable {α : Type} (l : Alphabet α)

namespace Alphabet

def dropSpaces (s : List α) : List α := s.dropWhile l.space

def dropWord (s : List α) : List α := s.dropWhile fun c => !l.space c

/-- A word stands at the head. -/
def starts : List α → Bool
  | [] => false
  | c :: _ => !l.space c

/-- A word that ends here is not continued. -/
def Breaks (s : List α) : Prop := ∀ c, s.head? = some c → l.space c = true

def Blank (s : List α) : Prop := ∀ c ∈ s, l.space c = true

/-- No space is compared equal to one of these letters. -/
def Letters (w : List α) : Prop := ∀ c, l.space c = true → l.fold c ∉ w

variable {l} {s t : List α}

theorem dropSpaces_suffix (s : List α) : l.dropSpaces s <:+ s := List.dropWhile_suffix _

theorem dropWord_suffix (s : List α) : l.dropWord s <:+ s := List.dropWhile_suffix _

theorem dropWord_breaks (s : List α) : l.Breaks (l.dropWord s) := by
  intro c hc
  have hhead := List.head?_dropWhile_not (fun c => !l.space c) s
  rw [dropWord] at hc
  rw [hc] at hhead
  simpa using hhead

theorem starts_eq_true : l.starts s = true ↔ ∃ c cs, s = c :: cs ∧ l.space c = false := by
  cases s with
  | nil => simp [starts]
  | cons c cs => simp [starts]

theorem Blank.suffix (h : l.Blank t) (hs : s <:+ t) : l.Blank s := fun c hc => h c (hs.subset hc)

theorem Blank.append (hs : l.Blank s) (ht : l.Blank t) : l.Blank (s ++ t) := by
  intro c hc
  exact (List.mem_append.mp hc).elim (hs c) (ht c)

theorem Blank.starts (h : l.Blank s) : l.starts s = false := by
  cases s with
  | nil => rfl
  | cons c cs => simp [Alphabet.starts, h c (.head _)]

theorem Blank.breaks (h : l.Blank s) : l.Breaks s := by
  cases s with
  | nil => simp [Breaks]
  | cons c cs => simpa [Breaks] using h c (.head _)

variable [DecidableEq α] (l)

def read (w s : List α) : Option (List α) := readWord (fun c d => decide (l.fold c = d)) w s

end Alphabet

variable [DecidableEq α]

def Piece.read : Piece α → List α → Option (List α)
  | word w, s => l.read w s
  | spaces, s => some (l.dropSpaces s)
  | someSpaces, [] => none
  | someSpaces, c :: s => if l.space c then some (l.dropSpaces s) else none
  | oneOf _, [] => none
  | oneOf choices, c :: s => if c ∈ choices then some s else none
  | optional _, [] => some []
  | optional choices, c :: s => some (if c ∈ choices then s else c :: s)

def readAll : List (Piece α) → List α → Option (List α)
  | [], s => some s
  | p :: ps, s => (p.read l s).bind (readAll ps)

namespace Pattern

variable (p : Pattern α)

/-- From where the word is read: after the extra part, if it is there and a word follows it. -/
def body (s : List α) : List α :=
  match readAll l p.extra s with
  | some rest => if l.starts rest then rest else s
  | none => s

/-- What is left of the match of `s` when the marker has been read. -/
def finish (s afterMarker : List α) : Option (List α × List α) :=
  (readAll l p.separator afterMarker).bind fun s₁ =>
    if l.starts (p.body l s₁) then
      some (s.take (s.length - (if p.keepsExtra then p.body l s₁ else s₁).length),
        l.dropWord (p.body l s₁))
    else none

/-- The group that stays, and what follows the match. -/
def find (s : List α) : Option (List α × List α) :=
  p.markers.findSome? fun m => (l.read m s).bind (p.finish l s)

end Pattern

/-! Everything that is read leaves the end of the text. -/

variable {l} {p : Pattern α} {s t r w : List α}

theorem Alphabet.read_eq_some :
    l.read w s = some r ↔ ∃ w', w'.map l.fold = w ∧ s = w' ++ r := by
  rw [Alphabet.read, readWord_eq_some]
  simp only [decide_eq_true_eq, ← List.forall₂_map_left_iff (f := l.fold), List.forall₂_eq_eq_eq]

theorem Piece.read_suffix {p : Piece α} (h : p.read l s = some r) : r <:+ s := by
  cases p with
  | word w =>
    obtain ⟨w', -, rfl⟩ := Alphabet.read_eq_some.mp h
    exact List.suffix_append _ _
  | spaces =>
    cases h
    exact l.dropSpaces_suffix s
  | someSpaces =>
    cases s with
    | nil => cases h
    | cons c s =>
      simp only [read, Option.ite_none_right_eq_some, Option.some.injEq] at h
      exact h.2 ▸ (l.dropSpaces_suffix s).trans (List.suffix_cons c s)
  | oneOf choices =>
    cases s with
    | nil => cases h
    | cons c s =>
      simp only [read, Option.ite_none_right_eq_some, Option.some.injEq] at h
      exact h.2 ▸ List.suffix_cons c s
  | optional choices =>
    cases s with
    | nil =>
      cases h
      exact List.suffix_refl []
    | cons c cs =>
      simp only [read, Option.some.injEq] at h
      rw [← h]
      split_ifs
      · exact List.suffix_cons c cs
      · exact List.suffix_refl _

theorem readAll_suffix {ps : List (Piece α)} (h : readAll l ps s = some r) : r <:+ s := by
  induction ps generalizing s with
  | nil =>
    cases h
    exact List.suffix_refl _
  | cons p ps ih =>
    obtain ⟨s', hs', hr⟩ := Option.bind_eq_some_iff.mp h
    exact (ih hr).trans (p.read_suffix hs')

theorem Pattern.body_suffix (s : List α) : p.body l s <:+ s := by
  unfold body
  split
  · rename_i rest hrest
    split_ifs
    · exact readAll_suffix hrest
    · exact List.suffix_refl s
  · exact List.suffix_refl s

theorem Pattern.finish_eq_some {g : List α} (h : p.finish l s w = some (g, r)) :
    ∃ s₁, readAll l p.separator w = some s₁ ∧ l.starts (p.body l s₁) = true ∧
      g = s.take (s.length - (if p.keepsExtra then p.body l s₁ else s₁).length) ∧
      r = l.dropWord (p.body l s₁) := by
  obtain ⟨s₁, hs₁, h⟩ := Option.bind_eq_some_iff.mp h
  simp only [Option.ite_none_right_eq_some, Option.some.injEq, Prod.mk.injEq] at h
  exact ⟨s₁, hs₁, h.1, h.2.1.symm, h.2.2.symm⟩

theorem Pattern.find_eq_some {g : List α} (h : p.find l s = some (g, r)) :
    ∃ m ∈ p.markers, ∃ s', l.read m s = some s' ∧ p.finish l s s' = some (g, r) := by
  obtain ⟨m, hm, h⟩ := List.exists_of_findSome?_eq_some h
  obtain ⟨s', hs', h⟩ := Option.bind_eq_some_iff.mp h
  exact ⟨m, hm, s', hs', h⟩

/-- At least the first letter of the word is read. -/
theorem Pattern.find_reads {g : List α} (h : p.find l s = some (g, r)) :
    ∃ c cs, s = c :: cs ++ r := by
  obtain ⟨m, -, s', hs', h⟩ := find_eq_some h
  obtain ⟨s₁, hs₁, hstarts, -, rfl⟩ := finish_eq_some h
  obtain ⟨c, cs, hbody, hc⟩ := Alphabet.starts_eq_true.mp hstarts
  obtain ⟨_, -, rfl⟩ := Alphabet.read_eq_some.mp hs'
  obtain ⟨before, hbefore⟩ := ((p.body_suffix s₁).trans (readAll_suffix hs₁)).trans
    (List.suffix_append _ s')
  obtain ⟨letters, hletters⟩ := l.dropWord_suffix cs
  have hdrop : l.dropWord (c :: cs) = l.dropWord cs := by simp [Alphabet.dropWord, hc]
  rw [← hbefore, hbody, hdrop]
  cases before with
  | nil => exact ⟨c, letters, by rw [List.nil_append, List.cons_append, hletters]⟩
  | cons d before => exact ⟨d, before ++ c :: letters, by simp [hletters]⟩

namespace Pattern

def scanner (l : Alphabet α) (p : Pattern α) : Scanner α (List α) := ⟨p.find l, find_reads⟩

/-- `pattern.sub(group + mask, s)` -/
def sub (l : Alphabet α) (p : Pattern α) (mask s : List α) : List α :=
  ((p.scanner l).scan s).flatMap (Sum.elim (fun c => [c]) fun g => g ++ mask)

variable {mask : List α}

@[simp] theorem sub_nil : p.sub l mask [] = [] := rfl

theorem sub_none {c : α} {cs : List α} (h : p.find l (c :: cs) = none) :
    p.sub l mask (c :: cs) = c :: p.sub l mask cs := by
  rw [sub, Scanner.scan_none (p := p.scanner l) h]
  rfl

theorem sub_found {g : List α} (h : p.find l s = some (g, r)) :
    p.sub l mask s = g ++ (mask ++ p.sub l mask r) := by
  rw [sub, Scanner.scan_some (p := p.scanner l) h, List.flatMap_cons, Sum.elim_inr,
    List.append_assoc]
  rfl

theorem sub_append (h : ∀ s', s' ≠ [] → s' <:+ s →
    p.find l (s' ++ t) = (p.find l s').map fun y => (y.1, y.2 ++ t)) :
    p.sub l mask (s ++ t) = p.sub l mask s ++ p.sub l mask t := by
  rw [sub, Scanner.scan_append (p := p.scanner l) h, List.flatMap_append]
  rfl

end Pattern

end Foundation
