import Mathlib.Algebra.Group.Int.Defs
import Mathlib.Algebra.Group.Nat.Defs
import Mathlib.Data.List.TakeWhile
import Mathlib.Tactic.Common

/-! Text as a list of characters: cutting at a separator, decimal numerals and
fixed-width hexadecimal numerals, each with what it takes to read it back. -/

namespace Foundation

abbrev Text := List Char

instance : LawfulBEq Text := inferInstance

/-! Cutting at a separator. -/

/-- The text before the first `sep`, whether there is one, and the text after it. -/
def partition (sep : Char) : Text → Text × Bool × Text
  | [] => ([], false, [])
  | c :: cs =>
    if c = sep then ([], true, cs)
    else
      let rest := partition sep cs
      (c :: rest.1, rest.2.1, rest.2.2)

theorem partition_append {sep : Char} {a : Text} (ha : sep ∉ a) (b : Text) :
    partition sep (a ++ sep :: b) = (a, true, b) := by
  induction a with
  | nil => simp [partition]
  | cons c a ih =>
    obtain ⟨hc, ha⟩ := not_or.mp (List.mem_cons.not.mp ha)
    simp [partition, ih ha, Ne.symm hc]

theorem partition_spec (sep : Char) (s : Text) :
    sep ∉ (partition sep s).1 ∧
      (((partition sep s).2.1 = true ∧ s = (partition sep s).1 ++ sep :: (partition sep s).2.2) ∨
        ((partition sep s).2.1 = false ∧ s = (partition sep s).1 ∧ (partition sep s).2.2 = [])) := by
  induction s with
  | nil => simp [partition]
  | cons c cs ih =>
    by_cases hc : c = sep
    · simp [partition, hc]
    · obtain ⟨hn, h⟩ := ih
      simp only [partition, hc, if_false]
      refine ⟨List.mem_cons.not.mpr (not_or.mpr ⟨fun h => hc h.symm, hn⟩), ?_⟩
      rcases h with ⟨hf, hs⟩ | ⟨hf, hs, hr⟩
      · left
        exact ⟨hf, by rw [List.cons_append, ← hs]⟩
      · right
        exact ⟨hf, by rw [← hs], hr⟩

/-- The text after the last `sep`, or all of it. -/
def lastSegment (sep : Char) (s : Text) : Text := (s.reverse.takeWhile (· ≠ sep)).reverse

theorem lastSegment_append {sep : Char} (a : Text) {b : Text} (hb : sep ∉ b) :
    lastSegment sep (a ++ sep :: b) = b := by
  have hrev : (a ++ sep :: b).reverse = b.reverse ++ sep :: a.reverse := by simp
  have hall : ∀ c ∈ b.reverse, decide (c ≠ sep) = true := by
    intro c hc
    have hne : c ≠ sep := fun he => hb (he ▸ List.mem_reverse.mp hc)
    simpa using hne
  rw [lastSegment, hrev, List.takeWhile_append_of_pos hall]
  simp

def dropEnd (n : Nat) (s : Text) : Text := s.take (s.length - n)

theorem dropEnd_append (a b : Text) : dropEnd b.length (a ++ b) = a := by
  simp [dropEnd]

theorem suffix_eq {a a' b b' : Text} (h : a ++ b = a' ++ b') (hlen : b.length = b'.length) :
    b = b' := (List.append_inj' h hlen).2

theorem cut_inj {sep : Char} {a a' b b' : Text} (ha : sep ∉ a) (ha' : sep ∉ a')
    (h : a ++ sep :: b = a' ++ sep :: b') : a = a' ∧ b = b' := by
  have hh := congrArg (partition sep) h
  rw [partition_append ha, partition_append ha'] at hh
  simpa using hh

theorem cut_last_inj {sep : Char} {a a' b b' : Text} (hb : sep ∉ b) (hb' : sep ∉ b')
    (h : a ++ sep :: b = a' ++ sep :: b') : a = a' ∧ b = b' := by
  have hrev : b.reverse ++ sep :: a.reverse = b'.reverse ++ sep :: a'.reverse := by
    simpa using congrArg List.reverse h
  obtain ⟨hb, ha⟩ := cut_inj (by simpa using hb) (by simpa using hb') hrev
  exact ⟨List.reverse_inj.mp ha, List.reverse_inj.mp hb⟩

/-! Decimal numerals. -/

theorem not_mem_toDigits {c : Char} (hc : c.isDigit = false) (n : Nat) :
    c ∉ Nat.toDigits 10 n := by
  intro h
  have hd := Nat.isDigit_of_mem_toDigits (by decide) (by decide) h
  simp [hc] at hd

/-- The numeral of `n`, filled up with zeros on the left to `width` characters. -/
def zeroPad (width n : Nat) : Text :=
  List.replicate (width - (Nat.toDigits 10 n).length) '0' ++ Nat.toDigits 10 n

theorem not_mem_zeroPad {c : Char} (hc : c.isDigit = false) (width n : Nat) :
    c ∉ zeroPad width n := by
  intro h
  rcases List.mem_append.mp h with h | h
  · obtain ⟨-, rfl⟩ := List.mem_replicate.mp h
    simp at hc
  · exact not_mem_toDigits hc n h

theorem zeroPad_inj {width n n' : Nat} (h : zeroPad width n = zeroPad width n') : n = n' := by
  have value : ∀ m, Nat.ofDigitChars 10 (zeroPad width m) 0 = m := by
    intro m
    simp [zeroPad, Nat.ofDigitChars_append]
  rw [← value n, ← value n', h]

/-- Python's `str` of an integer. -/
def str : Int → Text
  | .ofNat n => Nat.toDigits 10 n
  | .negSucc n => '-' :: Nat.toDigits 10 (n + 1)

/-- The characters that `int` strips. The four separators from U+001C on are not among them. -/
def isSpace (c : Char) : Bool :=
  c = ' ' || (9 ≤ c.toNat && c.toNat ≤ 13) || (0x2000 ≤ c.toNat && c.toNat ≤ 0x200a) ||
    c.toNat ∈ [0x85, 0xa0, 0x1680, 0x2028, 0x2029, 0x202f, 0x205f, 0x3000]

/-- The decimal zeros of Unicode; the other nine digits follow each of them. -/
def digitZeros : List Nat :=
  [0x30, 0x660, 0x6f0, 0x7c0, 0x966, 0x9e6, 0xa66, 0xae6, 0xb66, 0xbe6, 0xc66, 0xce6, 0xd66, 0xde6,
    0xe50, 0xed0, 0xf20, 0x1040, 0x1090, 0x17e0, 0x1810, 0x1946, 0x19d0, 0x1a80, 0x1a90, 0x1b50,
    0x1bb0, 0x1c40, 0x1c50, 0xa620, 0xa8d0, 0xa900, 0xa9d0, 0xa9f0, 0xaa50, 0xabf0, 0xff10, 0x104a0,
    0x10d30, 0x11066, 0x110f0, 0x11136, 0x111d0, 0x112f0, 0x11450, 0x114d0, 0x11650, 0x116c0,
    0x11730, 0x118e0, 0x11950, 0x11c50, 0x11d50, 0x11da0, 0x11f50, 0x16a60, 0x16ac0, 0x16b50,
    0x1d7ce, 0x1d7d8, 0x1d7e2, 0x1d7ec, 0x1d7f6, 0x1e140, 0x1e2f0, 0x1e4f0, 0x1e950, 0x1fbf0]

def digit (c : Char) : Option Nat :=
  (digitZeros.find? fun z => z ≤ c.toNat && c.toNat < z + 10).map fun z => c.toNat - z

/-- Digits with single underscores between them. -/
def digitsValue (acc : Nat) (afterDigit : Bool) : Text → Option Nat
  | [] => if afterDigit then some acc else none
  | c :: cs =>
    match digit c with
    | some d => digitsValue (10 * acc + d) true cs
    | none => if c = '_' && afterDigit then digitsValue acc false cs else none

/-- Python's `int` of a text; `none` is its `ValueError`. -/
def int (s : Text) : Option Int :=
  match ((s.dropWhile isSpace).reverse.dropWhile isSpace).reverse with
  | '-' :: cs => (digitsValue 0 false cs).map fun n => -(n : Int)
  | '+' :: cs => (digitsValue 0 false cs).map fun n => (n : Int)
  | cs => (digitsValue 0 false cs).map fun n => (n : Int)

theorem toNat_of_isDigit {c : Char} (hc : c.isDigit = true) : 48 ≤ c.toNat ∧ c.toNat ≤ 57 := by
  simp only [Char.isDigit, ge_iff_le, Bool.and_eq_true, decide_eq_true_eq] at hc
  obtain ⟨hl, hu⟩ := hc
  have hl' : 48 ≤ c.toNat := by simpa using UInt32.le_iff_toNat_le.mp hl
  have hu' : c.toNat ≤ 57 := by simpa using UInt32.le_iff_toNat_le.mp hu
  exact ⟨hl', hu'⟩

theorem digit_of_isDigit {c : Char} (hc : c.isDigit = true) :
    digit c = some (c.toNat - '0'.toNat) := by
  obtain ⟨hl, hu⟩ := toNat_of_isDigit hc
  have hu : c.toNat < 48 + 10 := by omega
  simp [digit, digitZeros, hl, hu]

theorem digitsValue_digits {ds : Text} (hd : ∀ c ∈ ds, c.isDigit = true) (acc : Nat)
    (afterDigit : Bool) (hne : ds ≠ [] ∨ afterDigit = true) :
    digitsValue acc afterDigit ds = some (Nat.ofDigitChars 10 ds acc) := by
  induction ds generalizing acc afterDigit with
  | nil =>
    have ha : afterDigit = true := hne.resolve_left fun h => h rfl
    simp [digitsValue, ha]
  | cons c cs ih =>
    have hc := hd c (by simp)
    simp only [digitsValue, digit_of_isDigit hc, Nat.ofDigitChars_cons]
    exact ih (fun c' hc' => hd c' (by simp [hc'])) _ true (Or.inr rfl)

theorem digitsValue_toDigits (n : Nat) : digitsValue 0 false (Nat.toDigits 10 n) = some n := by
  rw [digitsValue_digits (fun c hc => Nat.isDigit_of_mem_toDigits (by decide) (by decide) hc) 0
    false (Or.inl Nat.toDigits_ne_nil)]
  simp

theorem isSpace_of_isDigit {c : Char} (hc : c.isDigit = true) : isSpace c = false := by
  obtain ⟨hl, hu⟩ := toNat_of_isDigit hc
  have hne : c ≠ ' ' := by rintro rfl; simp at hl
  simp only [isSpace, hne, decide_false, Bool.false_or, Bool.or_eq_false_iff, Bool.and_eq_false_iff,
    decide_eq_false_iff_not, List.mem_cons, List.not_mem_nil, or_false]
  omega

theorem strip_eq {s : Text} (hs : ∀ c ∈ s, isSpace c = false) :
    ((s.dropWhile isSpace).reverse.dropWhile isSpace).reverse = s := by
  have keep : ∀ l : Text, (∀ c ∈ l, isSpace c = false) → l.dropWhile isSpace = l := by
    intro l hl
    cases l with
    | nil => rfl
    | cons c l => simp [hl c (by simp)]
  rw [keep s hs, keep s.reverse fun c hc => hs c (List.mem_reverse.mp hc), List.reverse_reverse]

theorem int_str (n : Int) : int (str n) = some n := by
  have digits : ∀ m, ∀ c ∈ Nat.toDigits 10 m, c.isDigit = true := fun m c hc =>
    Nat.isDigit_of_mem_toDigits (by decide) (by decide) hc
  cases n with
  | ofNat m =>
    have hstrip := strip_eq fun c hc => isSpace_of_isDigit (digits m c hc)
    have hval := digitsValue_toDigits m
    have hfirst := digits m
    simp only [int, str, hstrip]
    cases hm : Nat.toDigits 10 m with
    | nil => simp [hm, digitsValue] at hval
    | cons c cs =>
      rw [hm] at hval hfirst
      have hc := hfirst c (by simp)
      have hminus : c ≠ '-' := by rintro rfl; simp at hc
      have hplus : c ≠ '+' := by rintro rfl; simp at hc
      split
      · rename_i heq; exact absurd (List.cons.inj heq).1 hminus
      · rename_i heq; exact absurd (List.cons.inj heq).1 hplus
      · simp [hval]
  | negSucc m =>
    have hspace : ∀ c ∈ str (Int.negSucc m), isSpace c = false := by
      intro c hc
      rcases List.mem_cons.mp hc with rfl | hc
      · decide
      · exact isSpace_of_isDigit (digits _ c hc)
    simp only [int, strip_eq hspace]
    simp [str, digitsValue_toDigits, Int.negSucc_eq]

/-- The minus sign takes the place of a digit. -/
theorem length_str_le_iff {n : Int} {k : Nat} (hk : 0 < k) :
    (str n).length ≤ k + 1 ↔ -10 ^ k < n ∧ n < 10 ^ (k + 1) := by
  have hcast : ∀ m : Nat, ((10 ^ m : Nat) : Int) = 10 ^ m := fun m => Int.natCast_pow 10 m
  have hpos : ∀ m : Nat, 0 < 10 ^ m := fun m => Nat.pow_pos (by decide)
  have hk₁ := hpos k
  have hk₂ := hpos (k + 1)
  rw [← hcast k, ← hcast (k + 1)]
  cases n with
  | ofNat n =>
    have hdigits : (Nat.toDigits 10 n).length ≤ k + 1 ↔ n < 10 ^ (k + 1) :=
      Nat.length_toDigits_le_iff (by decide) (Nat.succ_pos k)
    simp only [str, hdigits, Int.ofNat_eq_natCast]
    omega
  | negSucc n =>
    have hdigits : (Nat.toDigits 10 (n + 1)).length ≤ k ↔ n + 1 < 10 ^ k :=
      Nat.length_toDigits_le_iff (by decide) hk
    simp only [str, List.length_cons, Nat.add_le_add_iff_right, hdigits, Int.negSucc_eq]
    omega

theorem str_ne_nil (n : Int) : str n ≠ [] := by
  cases n <;> simp [str]

/-! Hexadecimal numerals of a fixed width. -/

def hexDigit (n : Nat) : Char := "0123456789abcdef".toList.getD n '0'

def hexDigits : Nat → Nat → Text
  | 0, _ => []
  | w + 1, n => hexDigits w (n / 16) ++ [hexDigit (n % 16)]

@[simp] theorem length_hexDigits (w n : Nat) : (hexDigits w n).length = w := by
  induction w generalizing n with
  | zero => rfl
  | succ w ih => simp [hexDigits, ih]

theorem mem_hexDigits {w n : Nat} {c : Char} (h : c ∈ hexDigits w n) :
    c ∈ "0123456789abcdef".toList := by
  induction w generalizing n with
  | zero => simp [hexDigits] at h
  | succ w ih =>
    rcases List.mem_append.mp h with h | h
    · exact ih h
    · obtain rfl := List.mem_singleton.mp h
      have hlt : n % 16 < "0123456789abcdef".toList.length := Nat.mod_lt _ (by decide)
      rw [hexDigit, List.getD, List.getElem?_eq_getElem hlt, Option.getD_some]
      exact List.getElem_mem hlt

theorem hexDigit_inj {m n : Nat} (hm : m < 16) (hn : n < 16) (h : hexDigit m = hexDigit n) :
    m = n := by
  have key : ∀ i < 16, ∀ j < 16, hexDigit i = hexDigit j → i = j := by decide
  exact key m hm n hn h

theorem hexDigits_inj {w m n : Nat} (hm : m < 16 ^ w) (hn : n < 16 ^ w)
    (h : hexDigits w m = hexDigits w n) : m = n := by
  induction w generalizing m n with
  | zero => simp only [Nat.pow_zero, Nat.lt_one_iff] at hm hn; rw [hm, hn]
  | succ w ih =>
    obtain ⟨hd, hl⟩ := List.append_inj' h (by simp)
    have hlast := hexDigit_inj (Nat.mod_lt m (by decide)) (Nat.mod_lt n (by decide))
      (List.cons.inj hl).1
    have hdiv := ih (by rw [Nat.pow_succ] at hm; omega) (by rw [Nat.pow_succ] at hn; omega) hd
    omega

end Foundation
