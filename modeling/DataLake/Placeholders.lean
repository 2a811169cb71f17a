import DataLake.Foundation.Scanner
import DataLake.Mapping

/-! The placeholders in the steps of an authentication: what is recognized as one, and what
stands in its place. -/

namespace DataLake

open Foundation

/-! Texts of values. -/

/-- What the standard library answers for texts and floats. -/
structure TextLibrary where
  upper : Text → Text
  floatRepr : Rat → Text

mutual

def Json.repr (lib : TextLibrary) : Json → Text
  | .null => "None".toList
  | .bool b => (if b then "True" else "False").toList
  | .int n => Foundation.str n
  | .float q => lib.floatRepr q
  | .str s => (pyRepr s).toList
  | .arr items => '[' :: reprItems lib items ++ [']']
  | .obj fields => '{' :: reprFields lib fields ++ ['}']
termination_by structural value => value

def reprItems (lib : TextLibrary) : List Json → Text
  | [] => []
  | [value] => value.repr lib
  | value :: items => value.repr lib ++ ", ".toList ++ reprItems lib items
termination_by structural items => items

def reprFields (lib : TextLibrary) : List (Text × Json) → Text
  | [] => []
  | [(key, value)] => (pyRepr key).toList ++ ": ".toList ++ value.repr lib
  | (key, value) :: fields =>
    (pyRepr key).toList ++ ": ".toList ++ value.repr lib ++ ", ".toList ++ reprFields lib fields
termination_by structural fields => fields

end

/-- Python's `str` of the decoded value. -/
def Json.toText (lib : TextLibrary) : Json → Text
  | .str s => s
  | value => value.repr lib

/-! The pattern. -/

/-- `\s`, and what `str.isspace` takes. -/
def isWhitespace (c : Char) : Bool :=
  let n := c.toNat
  (9 ≤ n && n ≤ 13) || (28 ≤ n && n ≤ 32) || n = 0x85 || n = 0xA0 || n = 0x1680 ||
    (0x2000 ≤ n && n ≤ 0x200A) || n = 0x2028 || n = 0x2029 || n = 0x202F || n = 0x205F ||
    n = 0x3000

def isPathChar (c : Char) : Bool := c.isAlphanum || c = '_' || c = '.'

def opening : Text := ['{', '{']

def closing : Text := ['}', '}']

def credentialSpace : Text := "credential".toList

def stepsSpace : Text := "steps".toList

def dropWord (word : Text) (s : Text) : Option Text := readWord (fun c d => decide (c = d)) word s

def findNamespace (s : Text) : Option (Text × Text) :=
  match dropWord credentialSpace s with
  | some rest => some (credentialSpace, rest)
  | none => (dropWord stepsSpace s).map fun rest => (stepsSpace, rest)

/-- `_PLACEHOLDER_RE`, at the head of a text: the namespace and the path. What follows each
repetition is none of what it repeats, so that none of them gives anything back. -/
def findPlaceholder (s : Text) : Option ((Text × Text) × Text) := do
  let s ← dropWord opening s
  let (space, s) ← findNamespace (s.dropWhile isWhitespace)
  let s ← dropWord ['.'] s
  let path := s.takeWhile isPathChar
  if path = [] then none
  else
    let s ← dropWord closing ((s.dropWhile isPathChar).dropWhile isWhitespace)
    return ((space, path), s)

/-- What stands between the braces of a placeholder, and what it names. -/
def IsPlaceholder (body : Text) (name : Text × Text) : Prop :=
  ∃ before after, (∀ c ∈ before, isWhitespace c = true) ∧ (∀ c ∈ after, isWhitespace c = true) ∧
    (name.1 = credentialSpace ∨ name.1 = stepsSpace) ∧ name.2 ≠ [] ∧
    (∀ c ∈ name.2, isPathChar c = true) ∧ body = before ++ (name.1 ++ ('.' :: (name.2 ++ after)))

theorem dropWord_eq_some {word s rest : Text} :
    dropWord word s = some rest ↔ s = word ++ rest := readWord_self

theorem findNamespace_eq_some {s rest name : Text} :
    findNamespace s = some (name, rest) ↔
      (name = credentialSpace ∨ name = stepsSpace) ∧ s = name ++ rest := by
  have hsteps : ∀ rest, dropWord credentialSpace (stepsSpace ++ rest) = none := fun _ => rfl
  unfold findNamespace
  constructor
  · intro h
    cases hcredential : dropWord credentialSpace s with
    | some r =>
      obtain ⟨rfl, rfl⟩ : credentialSpace = name ∧ r = rest := by simpa [hcredential] using h
      exact ⟨.inl rfl, dropWord_eq_some.mp hcredential⟩
    | none =>
      obtain ⟨r, hr, heq⟩ := Option.map_eq_some_iff.mp (by simpa only [hcredential] using h)
      obtain ⟨rfl, rfl⟩ : stepsSpace = name ∧ r = rest := by simpa using heq
      exact ⟨.inr rfl, dropWord_eq_some.mp hr⟩
  · rintro ⟨rfl | rfl, rfl⟩
    · rw [dropWord_eq_some.mpr rfl]
    · rw [hsteps, dropWord_eq_some.mpr rfl]
      rfl

theorem isWhitespace_of_isPathChar {c : Char} (hc : isPathChar c = true) :
    isWhitespace c = false := by
  have hrange : (48 ≤ c.toNat ∧ c.toNat ≤ 57) ∨ (65 ≤ c.toNat ∧ c.toNat ≤ 90) ∨
      (97 ≤ c.toNat ∧ c.toNat ≤ 122) ∨ c.toNat = 95 ∨ c.toNat = 46 := by
    delta isPathChar Char.isAlphanum Char.isAlpha Char.isUpper Char.isLower Char.isDigit at hc
    simp only [Bool.or_eq_true, Bool.and_eq_true, decide_eq_true_eq, ge_iff_le,
      UInt32.le_iff_toNat_le] at hc
    rcases hc with (((hc | hc) | hc) | rfl) | rfl
    · exact .inr (.inl hc)
    · exact .inr (.inr (.inl hc))
    · exact .inl hc
    · exact .inr (.inr (.inr (.inl rfl)))
    · exact .inr (.inr (.inr (.inr rfl)))
  simp only [isWhitespace, Bool.or_eq_false_iff, Bool.and_eq_false_iff, decide_eq_false_iff_not]
  omega

theorem findPlaceholder_eq_some {s rest : Text} {name : Text × Text} :
    findPlaceholder s = some (name, rest) ↔
      ∃ body, IsPlaceholder body name ∧ s = opening ++ (body ++ (closing ++ rest)) := by
  unfold findPlaceholder
  simp only [Option.bind_eq_bind, Option.bind_eq_some_iff, dropWord_eq_some, Prod.exists,
    findNamespace_eq_some]
  constructor
  · rintro ⟨s₁, rfl, space, s₂, ⟨hmem, h₁⟩, s₃, rfl, h⟩
    split_ifs at h with hpath
    obtain ⟨s₄, h₄, hrest⟩ := Option.bind_eq_some_iff.mp h
    obtain ⟨rfl, rfl⟩ : (space, s₃.takeWhile isPathChar) = name ∧ s₄ = rest := by simpa using hrest
    obtain ⟨before, _, rfl, hbefore, -, -, hdrop₁⟩ := exists_span isWhitespace s₁
    obtain ⟨path, s₅, rfl, hpathChars, -, htake, hdrop₃⟩ := exists_span isPathChar s₃
    obtain ⟨after, _, rfl, hafter, -, -, hdrop₅⟩ := exists_span isWhitespace s₅
    rw [dropWord_eq_some, hdrop₃, hdrop₅] at h₄
    rw [hdrop₁] at h₁
    subst h₁ h₄
    rw [htake] at hpath ⊢
    exact ⟨_, ⟨before, after, hbefore, hafter, hmem, hpath, hpathChars, rfl⟩, by simp⟩
  · rintro ⟨_, ⟨before, after, hbefore, hafter, hmem, hne, hpath, rfl⟩, rfl⟩
    -- none of the three runs can be longer than it is
    have hspace := span_append (s := name.1 ++ ('.' :: (name.2 ++ (after ++ (closing ++ rest)))))
      hbefore fun c hc => by
        rcases hmem with h | h <;> rw [h] at hc <;> cases hc <;> rfl
    have hclosing := span_append (s := closing ++ rest) hafter fun c hc => by cases hc; rfl
    have hname := span_append (s := after ++ (closing ++ rest)) hpath fun c hc => by
      cases hpathChar : isPathChar c with
      | false => rfl
      | true =>
        cases after with
        | nil =>
          cases hc
          cases hpathChar
        | cons c' cs =>
          cases hc
          exact absurd (hafter c (.head _))
            (by rw [isWhitespace_of_isPathChar hpathChar]; exact Bool.false_ne_true)
    refine ⟨_, rfl, name.1, ['.'] ++ (name.2 ++ (after ++ (closing ++ rest))),
      ⟨hmem, ?_⟩, _, rfl, ?_⟩
    · simpa using hspace.2
    · rw [hname.1, hname.2, hclosing.2, if_neg hne, dropWord_eq_some.mpr rfl]
      rfl

theorem IsPlaceholder.no_brace {body : Text} {name : Text × Text} (h : IsPlaceholder body name) :
    '}' ∉ body := by
  obtain ⟨before, after, hbefore, hafter, hmem, -, hpath, rfl⟩ := h
  have hspace : '}' ∉ name.1 := by rcases hmem with h | h <;> rw [h] <;> decide
  have hother : '}' ∉ before ∧ '}' ∉ after ∧ '}' ∉ name.2 :=
    ⟨fun h => absurd (hbefore _ h) (by decide), fun h => absurd (hafter _ h) (by decide),
      fun h => absurd (hpath _ h) (by decide)⟩
  simp [hspace, hother]

def placeholders : Scanner Char (Text × Text) where
  find := findPlaceholder
  reads h := by
    obtain ⟨body, -, rfl⟩ := findPlaceholder_eq_some.mp h
    exact ⟨'{', '{' :: (body ++ closing), by simp [opening]⟩

theorem mem_placeholders {s : Text} {name : Text × Text} (h : .inr name ∈ placeholders.scan s) :
    '{' ∈ s ∧ ∃ body, IsPlaceholder body name := by
  obtain ⟨s', rest, hs', h⟩ := Scanner.scan_found h
  obtain ⟨body, hbody, rfl⟩ := findPlaceholder_eq_some.mp h
  exact ⟨hs'.mem (.head _), body, hbody⟩

theorem placeholder_space {s : Text} {name : Text × Text} (h : .inr name ∈ placeholders.scan s) :
    name.1 = credentialSpace ∨ name.1 = stepsSpace := by
  obtain ⟨-, body, before, after, -, -, hspace, -⟩ := mem_placeholders h
  exact hspace

/-! Substitution. -/

abbrev Context := List (Text × Json)

def Context.get (context : Context) (space : Text) : Json :=
  (context.lookup space).getD (.obj [])

def unresolvedPlaceholder (name : Text × Text) : DataLakeError :=
  configurationError ("unresolved placeholder " ++
    String.ofList (opening ++ name.1 ++ '.' :: name.2 ++ closing))

section Substitution

variable (lib : TextLibrary) (context : Context)

def resolvePlaceholder (name : Text × Text) : Except DataLakeError Text :=
  match getByPath (context.get name.1) name.2 with
  | (resolved, true) => .ok (resolved.toText lib)
  | (_, false) => .error (unresolvedPlaceholder name)

def substituteText (s : Text) : Except DataLakeError Text :=
  placeholders.rewrite (resolvePlaceholder lib context) s

mutual

/-- `substitute_placeholders`. The keys of a dictionary stay as they are. -/
def substitutePlaceholders : Json → Except DataLakeError Json
  | .str s => (substituteText lib context s).map .str
  | .obj fields => (substituteFields fields).map .obj
  | .arr items => (substituteItems items).map .arr
  | value => .ok value
termination_by structural value => value

def substituteItems : List Json → Except DataLakeError (List Json)
  | [] => .ok []
  | item :: items => do
    let item ← substitutePlaceholders item
    let items ← substituteItems items
    return item :: items
termination_by structural items => items

def substituteFields : List (Text × Json) → Except DataLakeError (List (Text × Json))
  | [] => .ok []
  | (key, value) :: fields => do
    let value ← substitutePlaceholders value
    let fields ← substituteFields fields
    return (key, value) :: fields
termination_by structural fields => fields

end

end Substitution

/-! What is meant: an occurrence runs from an opening pair of braces to the first closing pair
after it, and the occurrences of a text follow each other. -/

def untilClosing : Text → Option (Text × Text)
  | [] => none
  | c :: cs =>
    match dropWord closing (c :: cs) with
    | some rest => some ([], rest)
    | none => (untilClosing cs).map fun x => (c :: x.1, x.2)

def findOccurrence (s : Text) : Option (Text × Text) := (dropWord opening s).bind untilClosing

theorem untilClosing_eq_some {s body rest : Text} (h : untilClosing s = some (body, rest)) :
    s = body ++ (closing ++ rest) := by
  induction s generalizing body with
  | nil => cases h
  | cons c cs ih =>
    unfold untilClosing at h
    cases hclosing : dropWord closing (c :: cs) with
    | some r =>
      obtain ⟨rfl, rfl⟩ : [] = body ∧ r = rest := by simpa [hclosing] using h
      exact (@dropWord_eq_some closing _ _).mp hclosing
    | none =>
      obtain ⟨x, hx, heq⟩ := Option.map_eq_some_iff.mp (by simpa only [hclosing] using h)
      obtain ⟨rfl, rfl⟩ : c :: x.1 = body ∧ x.2 = rest := by simpa using heq
      rw [ih hx, List.cons_append]

theorem untilClosing_append {body : Text} (hbody : '}' ∉ body) (rest : Text) :
    untilClosing (body ++ (closing ++ rest)) = some (body, rest) := by
  induction body with
  | nil => rfl
  | cons c cs ih =>
    obtain ⟨hc, hcs⟩ := not_or.mp (List.mem_cons.not.mp hbody)
    have hclosing : dropWord closing (c :: cs ++ (closing ++ rest)) = none := by
      simp [dropWord, closing, readWord, Ne.symm hc]
    rw [List.cons_append] at hclosing ⊢
    rw [untilClosing, hclosing, ih hcs]
    rfl

def occurrences : Scanner Char Text where
  find := findOccurrence
  reads := by
    intro s body rest h
    obtain ⟨r, hr, h⟩ := Option.bind_eq_some_iff.mp h
    rw [dropWord_eq_some.mp hr, untilClosing_eq_some h]
    exact ⟨'{', '{' :: (body ++ closing), by simp [opening]⟩

theorem findOccurrence_append {body : Text} (hbody : '}' ∉ body) (rest : Text) :
    findOccurrence (opening ++ (body ++ (closing ++ rest))) = some (body, rest) := by
  rw [findOccurrence, dropWord_eq_some.mpr rfl]
  exact untilClosing_append hbody rest

/-- Where every occurrence of a text is one of the pattern, the pattern matches these. -/
theorem placeholders_scan {s : Text}
    (hall : ∀ body, .inr body ∈ occurrences.scan s → ∃ name, IsPlaceholder body name) :
    List.Forall₂ (Sum.LiftRel (· = ·) IsPlaceholder) (occurrences.scan s) (placeholders.scan s) := by
  refine Scanner.scan_refine (fun s hs => ?_) (fun s body rest h => ?_) hall
  · obtain ⟨⟨name, rest⟩, h⟩ := Option.ne_none_iff_exists'.mp hs
    obtain ⟨body, hbody, rfl⟩ := findPlaceholder_eq_some.mp h
    show findOccurrence (opening ++ (body ++ (closing ++ rest))) ≠ none
    rw [findOccurrence_append hbody.no_brace]
    exact Option.some_ne_none _
  · rintro ⟨name, hname⟩
    obtain ⟨r, hr, h⟩ := Option.bind_eq_some_iff.mp h
    refine ⟨name, hname, findPlaceholder_eq_some.mpr ⟨body, hname, ?_⟩⟩
    rw [dropWord_eq_some.mp hr, untilClosing_eq_some h]

/-! What it is to have replaced the occurrences of a template. -/

theorem Json.induct {P : Json → Prop} (null : P .null) (bool : ∀ b, P (.bool b))
    (int : ∀ n, P (.int n)) (float : ∀ q, P (.float q)) (str : ∀ s, P (.str s))
    (arr : ∀ items, (∀ item ∈ items, P item) → P (.arr items))
    (obj : ∀ fields, (∀ field ∈ fields, P field.2) → P (.obj fields)) (value : Json) : P value := by
  induction hn : sizeOf value using Nat.strong_induction_on generalizing value with
  | _ n ih =>
    cases value with
    | null => exact null
    | bool b => exact bool b
    | int n => exact int n
    | float q => exact float q
    | str s => exact str s
    | arr items =>
      refine arr items fun item hitem => ih (sizeOf item) ?_ item rfl
      have hlt := List.sizeOf_lt_of_mem hitem
      simp only [← hn, Json.arr.sizeOf_spec]
      omega
    | obj fields =>
      refine obj fields fun field hfield => ih (sizeOf field.2) ?_ field.2 rfl
      have hlt := List.sizeOf_lt_of_mem hfield
      have hfst : sizeOf field = 1 + sizeOf field.1 + sizeOf field.2 := by cases field; rfl
      simp only [← hn, Json.obj.sizeOf_spec]
      omega

inductive Json.HasText : Json → Text → Prop where
  | str (s : Text) : HasText (.str s) s
  | arr {items : List Json} {item : Json} {s : Text} :
      item ∈ items → item.HasText s → HasText (.arr items) s
  | obj {fields : List (Text × Json)} {field : Text × Json} {s : Text} :
      field ∈ fields → field.2.HasText s → HasText (.obj fields) s

inductive Json.HasKey : Json → Text → Prop where
  | key {fields : List (Text × Json)} {field : Text × Json} :
      field ∈ fields → HasKey (.obj fields) field.1
  | arr {items : List Json} {item : Json} {key : Text} :
      item ∈ items → item.HasKey key → HasKey (.arr items) key
  | obj {fields : List (Text × Json)} {field : Text × Json} {key : Text} :
      field ∈ fields → field.2.HasKey key → HasKey (.obj fields) key

def Json.isScalar : Json → Bool
  | .null | .bool _ | .int _ | .float _ => true
  | _ => false

/-- The texts of a value and the keys in it are rewritten, everything else stays. -/
inductive Json.Rewritten (onKey onText : Text → Text → Prop) : Json → Json → Prop where
  | str {s r : Text} : onText s r → Rewritten onKey onText (.str s) (.str r)
  | arr {items results : List Json} : List.Forall₂ (Rewritten onKey onText) items results →
      Rewritten onKey onText (.arr items) (.arr results)
  | obj {fields results : List (Text × Json)} :
      List.Forall₂ onKey (fields.map Prod.fst) (results.map Prod.fst) →
      List.Forall₂ (Rewritten onKey onText) (fields.map Prod.snd) (results.map Prod.snd) →
      Rewritten onKey onText (.obj fields) (.obj results)
  | scalar {value : Json} : value.isScalar = true → Rewritten onKey onText value value

namespace Json.Rewritten

variable {onKey onKey' onText onText' : Text → Text → Prop} {value result : Json}

theorem and (h : value.Rewritten onKey onText result) (h' : value.Rewritten onKey' onText' result) :
    value.Rewritten (fun s r => onKey s r ∧ onKey' s r) (fun s r => onText s r ∧ onText' s r)
      result := by
  induction value using Json.induct generalizing result with
  | null => cases h; exact .scalar rfl
  | bool b => cases h; exact .scalar rfl
  | int n => cases h; exact .scalar rfl
  | float q => cases h; exact .scalar rfl
  | str s =>
    cases h with
    | scalar hscalar => cases hscalar
    | str htext =>
      cases h' with
      | scalar hscalar => cases hscalar
      | str htext' => exact .str ⟨htext, htext'⟩
  | arr items ih =>
    cases h with
    | scalar hscalar => cases hscalar
    | arr hitems =>
      cases h' with
      | scalar hscalar => cases hscalar
      | arr hitems' =>
        refine .arr (forall₂_of_mem (List.Forall₂.mp (fun _ _ => And.intro) hitems hitems') ?_)
        rintro item hitem r ⟨hr, hr'⟩
        exact ih item hitem hr hr'
  | obj fields ih =>
    cases h with
    | scalar hscalar => cases hscalar
    | obj hkeys hvalues =>
      cases h' with
      | scalar hscalar => cases hscalar
      | obj hkeys' hvalues' =>
        refine .obj (List.Forall₂.mp (fun _ _ => And.intro) hkeys hkeys')
          (forall₂_of_mem (List.Forall₂.mp (fun _ _ => And.intro) hvalues hvalues') ?_)
        rintro value hvalue r ⟨hr, hr'⟩
        obtain ⟨field, hfield, rfl⟩ := List.mem_map.mp hvalue
        exact ih field hfield hr hr'

theorem mono (h : value.Rewritten onKey onText result)
    (hkey : ∀ key, value.HasKey key → ∀ r, onKey key r → onKey' key r)
    (htext : ∀ s, value.HasText s → ∀ r, onText s r → onText' s r) :
    value.Rewritten onKey' onText' result := by
  induction value using Json.induct generalizing result with
  | null => cases h; exact .scalar rfl
  | bool b => cases h; exact .scalar rfl
  | int n => cases h; exact .scalar rfl
  | float q => cases h; exact .scalar rfl
  | str s =>
    cases h with
    | scalar hscalar => cases hscalar
    | str h => exact .str (htext s (.str s) _ h)
  | arr items ih =>
    cases h with
    | scalar hscalar => cases hscalar
    | arr hitems =>
      refine .arr (forall₂_of_mem hitems fun item hitem r hr => ih item hitem hr ?_ ?_)
      · exact fun key hin => hkey key (.arr hitem hin)
      · exact fun s hin => htext s (.arr hitem hin)
  | obj fields ih =>
    cases h with
    | scalar hscalar => cases hscalar
    | obj hkeys hvalues =>
      refine .obj (forall₂_of_mem hkeys fun key hin => ?_)
        (forall₂_of_mem hvalues fun value hvalue r hr => ?_)
      · obtain ⟨field, hfield, rfl⟩ := List.mem_map.mp hin
        exact hkey _ (.key hfield)
      · obtain ⟨field, hfield, rfl⟩ := List.mem_map.mp hvalue
        exact ih field hfield hr (fun key hin => hkey key (.obj hfield hin))
          fun s hin => htext s (.obj hfield hin)

theorem text (h : value.Rewritten onKey onText result) {s : Text} (hs : value.HasText s) :
    ∃ r, onText s r := by
  induction hs generalizing result with
  | str s =>
    cases h with
    | scalar hscalar => cases hscalar
    | str h => exact ⟨_, h⟩
  | arr hitem _ ih =>
    cases h with
    | scalar hscalar => cases hscalar
    | arr hitems =>
      obtain ⟨r, -, hr⟩ := exists_of_forall₂ hitems hitem
      exact ih hr
  | obj hfield _ ih =>
    cases h with
    | scalar hscalar => cases hscalar
    | obj _ hvalues =>
      obtain ⟨r, -, hr⟩ := exists_of_forall₂ hvalues (List.mem_map_of_mem (f := Prod.snd) hfield)
      exact ih hr

theorem key (h : value.Rewritten onKey onText result) {s : Text} (hs : value.HasKey s) :
    ∃ r, onKey s r := by
  induction hs generalizing result with
  | key hfield =>
    cases h with
    | scalar hscalar => cases hscalar
    | obj hkeys _ =>
      obtain ⟨r, -, hr⟩ := exists_of_forall₂ hkeys (List.mem_map_of_mem (f := Prod.fst) hfield)
      exact ⟨r, hr⟩
  | arr hitem _ ih =>
    cases h with
    | scalar hscalar => cases hscalar
    | arr hitems =>
      obtain ⟨r, -, hr⟩ := exists_of_forall₂ hitems hitem
      exact ih hr
  | obj hfield _ ih =>
    cases h with
    | scalar hscalar => cases hscalar
    | obj _ hvalues =>
      obtain ⟨r, -, hr⟩ := exists_of_forall₂ hvalues (List.mem_map_of_mem (f := Prod.snd) hfield)
      exact ih hr

end Json.Rewritten

section Replaced

variable (lib : TextLibrary) (context : Context)

/-- What stands in the place of a character, or of an occurrence that names a value. -/
def Stands : Char ⊕ Text → Text → Prop
  | .inl c, part => part = [c]
  | .inr body, part => ∃ name value, IsPlaceholder body name ∧
      getByPath (context.get name.1) name.2 = (value, true) ∧ part = value.toText lib

/-- Every occurrence of the text has been replaced by the value that it names, and nothing
else has changed. -/
def Expanded (s r : Text) : Prop :=
  ∃ parts, List.Forall₂ (Stands lib context) (occurrences.scan s) parts ∧ r = parts.flatten

/-- A configuration error, or the template with every occurrence replaced. -/
def Resolved (template : Json) : Except DataLakeError Json → Prop
  | .ok result => template.Rewritten (Expanded lib context) (Expanded lib context) result
  | .error e => e.category = "ConfigurationError"

end Replaced

variable {lib : TextLibrary} {context : Context} {template result : Json}

theorem substituteItems_eq (items : List Json) : substituteItems lib context items =
    items.mapM (substitutePlaceholders lib context) := by
  induction items with
  | nil => rfl
  | cons item items ih => rw [substituteItems, List.mapM_cons, ih]

theorem substituteFields_eq (fields : List (Text × Json)) : substituteFields lib context fields =
    fields.mapM fun field => (substitutePlaceholders lib context field.2).map (field.1, ·) := by
  induction fields with
  | nil => rfl
  | cons field fields ih =>
    rw [substituteFields, List.mapM_cons, ih]
    cases substitutePlaceholders lib context field.2 <;> rfl

/-- A placeholder of the template that names nothing in the context. -/
def Unresolved (context : Context) (template : Json) : Prop :=
  ∃ s name, template.HasText s ∧ .inr name ∈ placeholders.scan s ∧
    (getByPath (context.get name.1) name.2).2 = false

theorem resolvePlaceholder_eq_ok {name : Text × Text} {part : Text} :
    resolvePlaceholder lib context name = .ok part ↔
      ∃ value, getByPath (context.get name.1) name.2 = (value, true) ∧
        part = value.toText lib := by
  unfold resolvePlaceholder
  obtain ⟨value, found⟩ := getByPath (context.get name.1) name.2
  cases found with
  | true => simp [eq_comm]
  | false => simp

theorem resolvePlaceholder_eq_error {name : Text × Text} {e : DataLakeError} :
    resolvePlaceholder lib context name = .error e ↔
      (getByPath (context.get name.1) name.2).2 = false ∧ e = unresolvedPlaceholder name := by
  unfold resolvePlaceholder
  obtain ⟨value, found⟩ := getByPath (context.get name.1) name.2
  cases found with
  | true => simp
  | false => simp [eq_comm]

theorem substituteText_eq_error {s : Text} {e : DataLakeError}
    (h : substituteText lib context s = .error e) :
    ∃ name, .inr name ∈ placeholders.scan s ∧
      (getByPath (context.get name.1) name.2).2 = false ∧ e = unresolvedPlaceholder name := by
  obtain ⟨x, hmem, hx⟩ := mapM_eq_error (map_eq_error.mp h)
  cases x with
  | inl c => cases hx
  | inr name => exact ⟨name, hmem, resolvePlaceholder_eq_error.mp hx⟩

theorem substituteText_ne_ok {s r : Text} {name : Text × Text}
    (hmem : .inr name ∈ placeholders.scan s)
    (hname : (getByPath (context.get name.1) name.2).2 = false) :
    substituteText lib context s ≠ .ok r := by
  intro h
  obtain ⟨parts, hparts, -⟩ := map_eq_ok.mp h
  exact mapM_ne_ok hmem (resolvePlaceholder_eq_error.mpr ⟨hname, rfl⟩) parts hparts

/-- Where the pattern matches every occurrence of a text, these are replaced. -/
theorem substituteText_expanded {s r : Text}
    (hall : ∀ body, .inr body ∈ occurrences.scan s → ∃ name, IsPlaceholder body name)
    (h : substituteText lib context s = .ok r) : Expanded lib context s r := by
  obtain ⟨parts, hparts, rfl⟩ := map_eq_ok.mp h
  refine ⟨parts, forall₂_comp ?_ (placeholders_scan hall) (mapM_eq_ok.mp hparts), rfl⟩
  rintro (c | body) (c' | name) part hlift hpart
  · cases hlift
    cases hpart
    subst_vars
    rfl
  · cases hlift
  · cases hlift
  · cases hlift with
    | inr hbody =>
      obtain ⟨value, hvalue, rfl⟩ := resolvePlaceholder_eq_ok.mp hpart
      exact ⟨name, value, hbody, hvalue, rfl⟩

theorem substitutePlaceholders_error {e : DataLakeError}
    (h : substitutePlaceholders lib context template = .error e) :
    Unresolved context template ∧ e.category = "ConfigurationError" := by
  induction template using Json.induct generalizing e with
  | null => cases h
  | bool b => cases h
  | int n => cases h
  | float q => cases h
  | str s =>
    obtain ⟨name, hmem, hname, rfl⟩ := substituteText_eq_error (map_eq_error.mp h)
    exact ⟨⟨s, name, .str s, hmem, hname⟩, rfl⟩
  | arr items ih =>
    have h := map_eq_error.mp h
    rw [substituteItems_eq] at h
    obtain ⟨item, hitem, hx⟩ := mapM_eq_error h
    obtain ⟨⟨s, name, htext, hname⟩, he⟩ := ih item hitem hx
    exact ⟨⟨s, name, .arr hitem htext, hname⟩, he⟩
  | obj fields ih =>
    have h := map_eq_error.mp h
    rw [substituteFields_eq] at h
    obtain ⟨field, hfield, hx⟩ := mapM_eq_error h
    obtain ⟨⟨s, name, htext, hname⟩, he⟩ := ih field hfield (map_eq_error.mp hx)
    exact ⟨⟨s, name, .obj hfield htext, hname⟩, he⟩

theorem Unresolved.not_ok (h : Unresolved context template) (result : Json) :
    substitutePlaceholders lib context template ≠ .ok result := by
  obtain ⟨s, name, htext, hmem, hname⟩ := h
  intro h
  induction htext generalizing result with
  | str s =>
    obtain ⟨r, hr, -⟩ := map_eq_ok.mp h
    exact substituteText_ne_ok hmem hname hr
  | arr hitem _ ih =>
    obtain ⟨results, hr, -⟩ := map_eq_ok.mp h
    rw [substituteItems_eq] at hr
    obtain ⟨r, -, hr⟩ := exists_of_forall₂ (mapM_eq_ok.mp hr) hitem
    exact ih r hmem hr
  | obj hfield _ ih =>
    obtain ⟨results, hr, -⟩ := map_eq_ok.mp h
    rw [substituteFields_eq] at hr
    obtain ⟨r, -, hr⟩ := exists_of_forall₂ (mapM_eq_ok.mp hr) hfield
    obtain ⟨value, hvalue, -⟩ := map_eq_ok.mp hr
    exact ih value hmem hvalue

/-- The call rewrites the texts of the template one by one. -/
theorem substitutePlaceholders_ok (h : substitutePlaceholders lib context template = .ok result) :
    template.Rewritten (· = ·) (fun s r => substituteText lib context s = .ok r) result := by
  induction template using Json.induct generalizing result with
  | null => cases h; exact .scalar rfl
  | bool b => cases h; exact .scalar rfl
  | int n => cases h; exact .scalar rfl
  | float q => cases h; exact .scalar rfl
  | str s =>
    obtain ⟨r, hr, rfl⟩ := map_eq_ok.mp h
    exact .str hr
  | arr items ih =>
    obtain ⟨results, hr, rfl⟩ := map_eq_ok.mp h
    rw [substituteItems_eq, mapM_eq_ok] at hr
    exact .arr (forall₂_of_mem hr fun item hitem r hr => ih item hitem hr)
  | obj fields ih =>
    obtain ⟨results, hr, rfl⟩ := map_eq_ok.mp h
    rw [substituteFields_eq, mapM_eq_ok] at hr
    have hfields : List.Forall₂ (fun field r => field.1 = r.1 ∧ field.2.Rewritten (· = ·)
        (fun s r => substituteText lib context s = .ok r) r.2) fields results := by
      refine forall₂_of_mem hr fun field hfield r hr => ?_
      obtain ⟨value, hvalue, rfl⟩ := map_eq_ok.mp hr
      exact ⟨rfl, ih field hfield hvalue⟩
    refine .obj ?_ ?_
    · rw [List.forall₂_map_left_iff, List.forall₂_map_right_iff]
      exact hfields.imp fun _ _ => And.left
    · rw [List.forall₂_map_left_iff, List.forall₂_map_right_iff]
      exact hfields.imp fun _ _ => And.right

/-- Every occurrence in a text of the template is one that the pattern matches. -/
def Recognized (template : Json) : Prop :=
  ∀ s, template.HasText s → ∀ body, .inr body ∈ occurrences.scan s →
    ∃ name, IsPlaceholder body name

/-- Every key is what replacing its occurrences would make of it. One without any is. -/
def KeysStay (lib : TextLibrary) (context : Context) (template : Json) : Prop :=
  ∀ key, template.HasKey key → Expanded lib context key key

theorem Expanded.recognized {s r : Text} (h : Expanded lib context s r) {body : Text}
    (hbody : .inr body ∈ occurrences.scan s) : ∃ name, IsPlaceholder body name := by
  obtain ⟨parts, hparts, -⟩ := h
  obtain ⟨part, -, name, value, hname, -⟩ := exists_of_forall₂ hparts hbody
  exact ⟨name, hname⟩

/-- The placeholders of a template are all resolved, or the call raises, exactly where the
pattern matches every occurrence in its texts and its keys have none to replace, or where a
placeholder that the pattern does match names nothing. -/
theorem resolved_iff (lib : TextLibrary) (context : Context) (template : Json) :
    Resolved lib context template (substitutePlaceholders lib context template) ↔
      (Recognized template ∧ KeysStay lib context template) ∨ Unresolved context template := by
  cases h : substitutePlaceholders lib context template with
  | error e =>
    obtain ⟨hunresolved, hcategory⟩ := substitutePlaceholders_error h
    exact iff_of_true hcategory (.inr hunresolved)
  | ok result =>
    have hok := substitutePlaceholders_ok h
    constructor
    · intro hresolved
      refine .inl ⟨fun s hs body hbody => ?_, fun key hkey => ?_⟩
      · obtain ⟨r, hr⟩ := Json.Rewritten.text hresolved hs
        exact hr.recognized hbody
      · obtain ⟨r, rfl, hr⟩ := (hok.and hresolved).key hkey
        exact hr
    · rintro (⟨hrecognized, hkeys⟩ | hunresolved)
      · refine hok.mono (fun key hkey r hr => ?_) fun s hs r hr => ?_
        · obtain rfl := hr
          exact hkeys key hkey
        · exact substituteText_expanded (hrecognized s hs) hr
      · exact absurd h (hunresolved.not_ok result)

/-- Substitution reads the context at the placeholders of the template and nowhere else. -/
theorem substitutePlaceholders_congr {context' : Context}
    (h : ∀ s name, template.HasText s → .inr name ∈ placeholders.scan s →
      getByPath (context'.get name.1) name.2 = getByPath (context.get name.1) name.2) :
    substitutePlaceholders lib context' template = substitutePlaceholders lib context template := by
  induction template using Json.induct with
  | null => rfl
  | bool b => rfl
  | int n => rfl
  | float q => rfl
  | str s =>
    refine congrArg (Except.map Json.str) (congrArg (Except.map List.flatten)
      (mapM_congr fun x hx => ?_))
    cases x with
    | inl c => rfl
    | inr name =>
      show resolvePlaceholder lib context' name = resolvePlaceholder lib context name
      rw [resolvePlaceholder, resolvePlaceholder, h s name (.str s) hx]
  | arr items ih =>
    refine congrArg (Except.map Json.arr) ?_
    rw [substituteItems_eq, substituteItems_eq]
    exact mapM_congr fun item hitem => ih item hitem fun s name hs => h s name (.arr hitem hs)
  | obj fields ih =>
    refine congrArg (Except.map Json.obj) ?_
    rw [substituteFields_eq, substituteFields_eq]
    exact mapM_congr fun field hfield => congrArg (Except.map _)
      (ih field hfield fun s name hs => h s name (.obj hfield hs))

/-- A text without an occurrence stays as it is. -/
theorem Expanded.of_plain {s : Text} (h : ∀ body, .inr body ∉ occurrences.scan s) :
    Expanded lib context s s := by
  refine ⟨s.map ([·]), ?_, by rw [← List.flatMap_def, List.flatMap_singleton']⟩
  rw [Scanner.scan_plain h, List.forall₂_map_left_iff, List.forall₂_map_right_iff]
  exact List.forall₂_same.mpr fun c _ => rfl

theorem IsPlaceholder.find {body : Text} {name : Text × Text} (h : IsPlaceholder body name) :
    findPlaceholder (opening ++ (body ++ closing)) = some (name, []) :=
  findPlaceholder_eq_some.mpr ⟨body, h, by rw [List.append_nil]⟩

def asciiTexts : TextLibrary where
  upper s := s.map Char.toUpper
  floatRepr q := Foundation.str q.num ++ ".0".toList

def dashedContext : Context :=
  [(credentialSpace, .obj [("client-secret".toList, .str "hunter2".toList)]), (stepsSpace, .obj [])]

/-- A dash is none of the characters of a path. -/
def dashedTemplate : Text := opening ++ "credential.client-secret".toList ++ closing

/-- The placeholder is sent as it is. -/
theorem dashed_not_resolved :
    ¬ Resolved asciiTexts dashedContext (.str dashedTemplate)
      (substitutePlaceholders asciiTexts dashedContext (.str dashedTemplate)) := by
  have hsent : substitutePlaceholders asciiTexts dashedContext (.str dashedTemplate) =
      .ok (.str dashedTemplate) := rfl
  have hbody : .inr "credential.client-secret".toList ∈ occurrences.scan dashedTemplate := .head _
  rw [hsent]
  rintro (hexpanded | _ | _ | hscalar)
  · obtain ⟨name, hname⟩ := hexpanded.recognized hbody
    exact absurd hname.find nofun
  · cases hscalar

end DataLake
