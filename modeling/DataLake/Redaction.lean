import DataLake.Foundation.PatternCuts
import DataLake.Orchestration
import DataLake.Placeholders

/-! What is taken out of a text before it is recorded as an error message. -/

namespace DataLake

open Foundation

/-- The letter of a marker that `(?i)` takes it for: the two dotted and dotless letters of
Turkish, the long s and the sign of the kelvin go with the plain ones. -/
def foldCase (c : Char) : Char :=
  if c = '\u0130' || c = '\u0131' then 'i'
  else if c = '\u017f' then 's'
  else if c = '\u212a' then 'k'
  else c.toLower

def messageAlphabet : Alphabet Char := ⟨foldCase, isWhitespace⟩

def mask : Text := "[redacted]".toList

/-- What holds of every letter of a text is tried on those letters, not on the whole alphabet. -/
instance (priority := high) decidableLetters (t : Text) (p : Char → Prop) [DecidablePred p] :
    Decidable (∀ c ∈ t, p c) :=
  List.decidableBAll p t

instance (priority := high) decidableLetter (o : Option Char) (p : Char → Prop)
    [DecidablePred p] : Decidable (∀ c ∈ o, p c) :=
  Option.decidableForallMem o

/-- `(authorization\s*[:=]\s*)(?:bearer\s+)?\S+` -/
def authorizationPattern : Pattern Char where
  markers := ["authorization".toList]
  separator := [.spaces, .oneOf [':', '='], .spaces]
  extra := [.word "bearer".toList, .someSpaces]
  keepsExtra := false

/-- `(bearer\s+)\S+` -/
def bearerPattern : Pattern Char where
  markers := ["bearer".toList]
  separator := [.someSpaces]
  extra := []
  keepsExtra := false

/-- `((?:api[_-]?key|password|secret|token)\s*["']?\s*[:=]\s*["']?)\S+` -/
def assignmentPattern : Pattern Char where
  markers := ["api_key".toList, "api-key".toList, "apikey".toList, "password".toList,
    "secret".toList, "token".toList]
  separator := [.spaces, .optional ['"', '\''], .spaces, .oneOf [':', '='], .spaces]
  extra := [.oneOf ['"', '\'']]
  keepsExtra := true

theorem mask_cons (t : Text) : mask ++ t = '[' :: ("redacted]".toList ++ t) := rfl

theorem mask_append (t : Text) : mask ++ t = "[redacted".toList ++ ']' :: t := rfl

def redactPatterns : List (Pattern Char) :=
  [authorizationPattern, bearerPattern, assignmentPattern]

def redact (message : Text) : Text :=
  redactPatterns.foldl (fun redacted pattern => pattern.sub messageAlphabet mask redacted) message

/-- `s[:n]`, where a negative `n` counts from the end. -/
def pySlice (s : Text) (n : Int) : Text :=
  s.take (if 0 ≤ n then n.toNat else (s.length + n).toNat)

def sanitizeMessage (message : Text) (maxLength : Int) : Text :=
  let redacted := redact message
  if (redacted.length : Int) > maxLength then
    pySlice redacted maxLength ++ "... [truncated]".toList
  else redacted

theorem pySlice_natCast (s : Text) (n : Nat) : pySlice s n = s.take n := by
  rw [pySlice, if_pos (by omega), Int.toNat_natCast]

/-- The orchestrator's messages are cut at the default length. -/
theorem sanitizeErrorMessage_eq (platform : Platform)
    (h : ∀ message, platform.redact message = String.ofList (redact message.toList))
    (message : String) : sanitizeErrorMessage platform message =
      String.ofList (sanitizeMessage message.toList maxErrorMessageLength) := by
  simp only [sanitizeErrorMessage, sanitizeMessage, h, String.length_ofList, pySlice_natCast]
  by_cases hlong : (redact message.toList).length > maxErrorMessageLength
  · have hlong' : ((redact message.toList).length : Int) > maxErrorMessageLength := by omega
    rw [if_pos hlong, if_pos hlong', String.toList_ofList, String.ofList_append, String.ofList_toList]
  · have hlong' : ¬((redact message.toList).length : Int) > maxErrorMessageLength := by omega
    rw [if_neg hlong, if_neg hlong']

/-- Two messages that are cut to the same at every length were the same before the cut. -/
theorem sanitizeMessage_inj {s t : Text} :
    (∀ n : Int, sanitizeMessage s n = sanitizeMessage t n) ↔ redact s = redact t := by
  constructor
  · intro h
    have hlong := h (max (redact s).length (redact t).length : Nat)
    have hs : ¬((redact s).length : Int) > (max (redact s).length (redact t).length : Nat) := by
      omega
    have ht : ¬((redact t).length : Int) > (max (redact s).length (redact t).length : Nat) := by
      omega
    simpa only [sanitizeMessage, if_neg hs, if_neg ht] using hlong
  · intro h n
    simp only [sanitizeMessage, h]

/-! Words of a message. -/

def Solid (w : Text) : Prop := ∀ c ∈ w, isWhitespace c = false

theorem foldCase_of_whitespace {c : Char} (h : isWhitespace c = true) : foldCase c = c := by
  have hlower : c.toLower = c := by
    have hupper : ¬(65 ≤ c.toNat ∧ c.toNat ≤ 90) := by
      intro hc
      simp [isWhitespace] at h
      omega
    delta Char.toLower
    simp only [dite_eq_right_iff]
    intro hc
    exact absurd ⟨hc.1, hc.2⟩ hupper
  have hne : ∀ d, isWhitespace d = false → c ≠ d := by
    rintro d hd rfl
    rw [h] at hd
    cases hd
  simp only [foldCase, Bool.or_eq_true, decide_eq_true_eq, hne '\u0130' (by decide),
    hne '\u0131' (by decide), hne '\u017f' (by decide), hne '\u212a' (by decide), or_self, if_false,
    hlower]

theorem letters_of_solid {key : Text} (h : Solid key) : messageAlphabet.Letters key := by
  intro c hc hmem
  have hfold : messageAlphabet.fold c = c := foldCase_of_whitespace hc
  have hspace : isWhitespace c = true := hc
  rw [hfold] at hmem
  rw [h c hmem] at hspace
  cases hspace

theorem dropWord_solid {w t : Text} (hw : Solid w) (ht : messageAlphabet.Breaks t) :
    messageAlphabet.dropWord (w ++ t) = t := by
  have hdrop : messageAlphabet.dropWord w = [] := by
    apply List.dropWhile_eq_nil_iff.mpr
    intro c hc
    simp [messageAlphabet, hw c hc]
  rw [dropWord_blank ht, hdrop, List.nil_append]

theorem starts_solid {w : Text} (hw : Solid w) (hne : w ≠ []) (t : Text) :
    messageAlphabet.starts (w ++ t) = true := by
  obtain ⟨c, cs, rfl⟩ := List.exists_cons_of_ne_nil hne
  simp [Alphabet.starts, messageAlphabet, hw c (.head _)]

theorem dropSpaces_before {w r : Text} (hw : messageAlphabet.Blank w)
    (hr : messageAlphabet.starts r = true) : messageAlphabet.dropSpaces (w ++ r) = r := by
  have hdrop : messageAlphabet.dropSpaces w = [] := List.dropWhile_eq_nil_iff.mpr hw
  rw [dropSpaces_word hr, hdrop, List.nil_append]

/-! What each pass does. -/

def pass (p : Pattern Char) (s : Text) : Text := p.sub messageAlphabet mask s

theorem redact_eq (message : Text) :
    redact message =
      pass assignmentPattern (pass bearerPattern (pass authorizationPattern message)) := rfl

/-- The words that begin a marked value, and the letters that end what is before. -/
def openings : List Text :=
  "x".toList :: "]".toList :: "authorization".toList :: assignmentPattern.markers

theorem clear_openings :
    ∀ p ∈ redactPatterns, ∀ key ∈ openings, p.Clear messageAlphabet key := by decide

theorem solid_openings : ∀ key ∈ openings, key ≠ [] ∧ ∀ c ∈ key, isWhitespace c = false := by
  decide

theorem fresh_opening {p : Pattern Char} (hp : p ∈ redactPatterns) {k : Text}
    (hk : k.map foldCase ∈ openings) (t : Text) : p.Fresh messageAlphabet (k ++ t) :=
  (clear_openings p hp _ hk).fresh (letters_of_solid (solid_openings _ hk).2)
    (solid_openings _ hk).1 rfl t

theorem find_letter {p : Pattern Char} (hp : p ∈ redactPatterns) {c : Char}
    (hc : c ∈ ['x', 'y', ']']) (t : Text) : p.find messageAlphabet (c :: t) = none := by
  have hclash : ∀ p ∈ redactPatterns, ∀ c ∈ ['x', 'y', ']'], ∀ m ∈ p.markers,
      clash m ([c].map foldCase) = true := by decide
  exact find_clash (l := messageAlphabet) (k := [c]) (hclash p hp c hc)

theorem probe {p : Pattern Char} (hp : p ∈ redactPatterns) : Probe messageAlphabet p mask 'x' where
  fresh := by
    have hmem : ['x'].map foldCase ∈ openings := by decide
    exact fresh_opening hp hmem []
  alone := find_letter hp (by decide) []
  last := ⟨"[redacted".toList, ']', rfl, by decide⟩

theorem pass_letter {p : Pattern Char} (hp : p ∈ redactPatterns) {c : Char}
    (hc : c ∈ ['x', 'y', ']']) (t : Text) : pass p (c :: t) = c :: pass p t :=
  Pattern.sub_none (find_letter hp hc t)

/-- A mask cuts a message off from the space behind it. -/
theorem pass_closed {p : Pattern Char} (hp : p ∈ redactPatterns) (u : Text) :
    ∃ v, ∀ t, messageAlphabet.Breaks t → pass p (u ++ ']' :: t) = v ++ ']' :: pass p t := by
  have hmem : [']'].map foldCase ∈ openings := by decide
  exact sub_closed (m := "[redacted".toList) rfl (fun t => fresh_opening hp hmem t)
    (fun t => find_letter hp (by decide) t) u

theorem pass_head {p : Pattern Char} (hp : p ∈ redactPatterns) (c : Char) (cs : Text) :
    ∃ ds, pass p (c :: cs) = c :: ds := by
  have hmarkers : ∀ p ∈ redactPatterns, [] ∉ p.markers := by decide
  exact sub_head (hmarkers p hp) c cs

theorem pass_breaks {p : Pattern Char} (hp : p ∈ redactPatterns) {t : Text}
    (ht : messageAlphabet.Breaks t) : messageAlphabet.Breaks (pass p t) := by
  cases t with
  | nil => exact ht
  | cons c cs =>
    obtain ⟨ds, hds⟩ := pass_head hp c cs
    rw [hds]
    intro d hd
    cases hd
    exact ht c rfl

theorem pass_solid {p : Pattern Char} {w : Text} (hw : Solid w) : Solid (pass p w) := by
  have hmask : Solid mask := by
    have hdecide : ∀ c ∈ mask, isWhitespace c = false := by decide
    exact hdecide
  intro c hc
  exact (sub_mem hc).elim (hw c) (hmask c)

theorem pass_blank {p : Pattern Char} (u : Text) {t : Text} (ht : messageAlphabet.Blank t) :
    pass p (u ++ t) = pass p u ++ t := sub_blank u ht

theorem read_marker {k key t : Text} (hk : k.map foldCase = key) :
    messageAlphabet.read key (k ++ t) = some t := Alphabet.read_eq_some.mpr ⟨k, hk, rfl⟩

theorem starts_body {p : Pattern Char} {r : Text} (hr : messageAlphabet.starts r = true) :
    messageAlphabet.starts (p.body messageAlphabet r) = true := by
  unfold Pattern.body
  split
  · split_ifs with h
    · exact h
    · exact hr
  · exact hr

/-- The authorization pass keeps the marker and masks the word that is read behind it. -/
theorem pass_authorization {k gap r : Text} (hk : k.map foldCase = "authorization".toList)
    (hgap : messageAlphabet.Blank gap) (hr : messageAlphabet.starts r = true) :
    pass authorizationPattern (k ++ ':' :: (gap ++ r)) =
      k ++ ':' :: gap ++ (mask ++ pass authorizationPattern
        (messageAlphabet.dropWord (authorizationPattern.body messageAlphabet r))) := by
  have hseparator : readAll messageAlphabet authorizationPattern.separator (':' :: (gap ++ r)) =
      some r := by
    have hcolon : messageAlphabet.dropSpaces (':' :: (gap ++ r)) = ':' :: (gap ++ r) := rfl
    simp [authorizationPattern, readAll, Piece.read, hcolon, dropSpaces_before hgap hr]
  have hfind : authorizationPattern.find messageAlphabet (k ++ ':' :: (gap ++ r)) =
      some (k ++ ':' :: gap,
        messageAlphabet.dropWord (authorizationPattern.body messageAlphabet r)) := by
    rw [find_marker (m := "authorization".toList) (by decide) (read_marker hk) (by decide)]
    exact finish_group hseparator rfl (starts_body hr) (by simp [authorizationPattern])
  exact Pattern.sub_found hfind

theorem pass_bearer {k gap r : Text} (hk : k.map foldCase = "bearer".toList)
    (hgap : messageAlphabet.Blank gap) (hne : gap ≠ []) (hr : messageAlphabet.starts r = true) :
    pass bearerPattern (k ++ (gap ++ r)) =
      k ++ gap ++ (mask ++ pass bearerPattern (messageAlphabet.dropWord r)) := by
  have hseparator : readAll messageAlphabet bearerPattern.separator (gap ++ r) = some r := by
    obtain ⟨c, cs, rfl⟩ := List.exists_cons_of_ne_nil hne
    have hc : messageAlphabet.space c = true := hgap c (.head _)
    have hcs : messageAlphabet.Blank cs := fun d hd => hgap d (.tail _ hd)
    simp [bearerPattern, readAll, Piece.read, hc, dropSpaces_before hcs hr]
  have hbody : bearerPattern.body messageAlphabet r = r := by
    simp [Pattern.body, bearerPattern, readAll]
  have hfind : bearerPattern.find messageAlphabet (k ++ (gap ++ r)) =
      some (k ++ gap, messageAlphabet.dropWord r) := by
    rw [find_marker (m := "bearer".toList) (by decide) (read_marker hk) (by decide)]
    exact finish_group hseparator hbody hr (by simp [bearerPattern])
  exact Pattern.sub_found hfind

/-- `password = `: a key, a quote that may close it, and the sign. -/
structure Assignment where
  key : Text
  before : Text
  quote : Option Char
  between : Text
  sign : Char
  after : Text
  key_marks : key.map foldCase ∈ assignmentPattern.markers
  before_blank : messageAlphabet.Blank before
  quote_quotes : ∀ c, quote = some c → c ∈ ['"', '\'']
  between_blank : messageAlphabet.Blank between
  sign_assigns : sign ∈ [':', '=']
  after_blank : messageAlphabet.Blank after

def Assignment.gap (a : Assignment) : Text :=
  a.before ++ (a.quote.toList ++ (a.between ++ a.sign :: a.after))

def Assignment.text (a : Assignment) : Text := a.key ++ a.gap

theorem Assignment.sign_plain (a : Assignment) :
    messageAlphabet.space a.sign = false ∧ a.sign ∉ ['"', '\''] := by
  have hsigns : ∀ c ∈ [':', '='], messageAlphabet.space c = false ∧ c ∉ ['"', '\''] := by decide
  exact hsigns a.sign a.sign_assigns

theorem Assignment.separator (a : Assignment) {r : Text} (hr : messageAlphabet.starts r = true) :
    readAll messageAlphabet assignmentPattern.separator (a.gap ++ r) = some r := by
  obtain ⟨hsign, hplain⟩ := a.sign_plain
  have hstarts : messageAlphabet.starts (a.sign :: (a.after ++ r)) = true := by
    simp [Alphabet.starts, hsign]
  have hbetween := dropSpaces_before a.between_blank hstarts
  have hend : readAll messageAlphabet [.spaces, .oneOf [':', '='], .spaces]
      (a.between ++ a.sign :: (a.after ++ r)) = some r := by
    simp [readAll, Piece.read, hbetween, a.sign_assigns, dropSpaces_before a.after_blank hr]
  have hgap : a.gap ++ r =
      a.before ++ (a.quote.toList ++ (a.between ++ a.sign :: (a.after ++ r))) := by
    simp [Assignment.gap]
  rw [hgap, assignmentPattern, readAll, Piece.read, Option.bind_some, readAll]
  cases hquote : a.quote with
  | none =>
    have hbefore : messageAlphabet.dropSpaces
        (a.before ++ (a.between ++ a.sign :: (a.after ++ r))) = a.sign :: (a.after ++ r) := by
      rw [← List.append_assoc]
      exact dropSpaces_before (a.before_blank.append a.between_blank) hstarts
    have hself : messageAlphabet.dropSpaces (a.sign :: (a.after ++ r)) = a.sign :: (a.after ++ r) :=
      dropSpaces_before (w := []) (by simp [Alphabet.Blank]) hstarts
    simp only [Option.toList_none, List.nil_append, hbefore]
    rw [Piece.read, if_neg hplain, Option.bind_some]
    simp [readAll, Piece.read, hself, a.sign_assigns, dropSpaces_before a.after_blank hr]
  | some q =>
    have hq : q ∈ ['"', '\''] := a.quote_quotes q hquote
    have hqStarts : messageAlphabet.starts (q :: (a.between ++ a.sign :: (a.after ++ r))) = true := by
      have hquotes : ∀ c ∈ ['"', '\''], messageAlphabet.space c = false := by decide
      simp [Alphabet.starts, hquotes q hq]
    simp only [Option.toList_some, List.singleton_append, dropSpaces_before a.before_blank hqStarts]
    rw [Piece.read, if_pos hq, Option.bind_some]
    exact hend

/-- The assignment pass masks the word behind the sign; a quote that opens it is kept. -/
theorem pass_assignment (a : Assignment) {r : Text} (hr : messageAlphabet.starts r = true)
    (hquote : ∀ c, r.head? = some c → c ∉ ['"', '\'']) :
    pass assignmentPattern (a.text ++ r) =
      a.text ++ (mask ++ pass assignmentPattern (messageAlphabet.dropWord r)) := by
  have hbody : assignmentPattern.body messageAlphabet r = r := by
    obtain ⟨c, cs, rfl, -⟩ := Alphabet.starts_eq_true.mp hr
    have hc := hquote c rfl
    simp [Pattern.body, assignmentPattern, readAll, Piece.read, hc]
  have honly : ∀ m ∈ assignmentPattern.markers, ∀ m' ∈ assignmentPattern.markers,
      m' = m ∨ clash m' m = true := by decide
  have hfind : assignmentPattern.find messageAlphabet (a.text ++ r) =
      some (a.text, messageAlphabet.dropWord r) := by
    rw [Assignment.text, List.append_assoc,
      find_marker a.key_marks (read_marker rfl) (honly _ a.key_marks)]
    refine finish_group (a.separator hr) hbody hr ?_
    split_ifs <;> rw [← List.append_assoc]
  exact Pattern.sub_found hfind

theorem pass_quoted (a : Assignment) {r : Text} (hr : messageAlphabet.starts r = true) :
    pass assignmentPattern (a.text ++ '"' :: r) =
      a.text ++ '"' :: (mask ++ pass assignmentPattern (messageAlphabet.dropWord r)) := by
  have hspace : isWhitespace '"' = false := by decide
  have hquoted : messageAlphabet.starts ('"' :: r) = true := by
    simp [Alphabet.starts, messageAlphabet, hspace]
  have hbody : assignmentPattern.body messageAlphabet ('"' :: r) = r := by
    simp [Pattern.body, assignmentPattern, readAll, Piece.read, hr]
  have honly : ∀ m ∈ assignmentPattern.markers, ∀ m' ∈ assignmentPattern.markers,
      m' = m ∨ clash m' m = true := by decide
  have hfind : assignmentPattern.find messageAlphabet (a.text ++ '"' :: r) =
      some (a.text ++ ['"'], messageAlphabet.dropWord r) := by
    rw [Assignment.text, List.append_assoc,
      find_marker a.key_marks (read_marker rfl) (honly _ a.key_marks)]
    refine finish_group (a.separator hquoted) hbody hr ?_
    simp [assignmentPattern]
  rw [pass, Pattern.sub_found hfind]
  simp [pass]

end DataLake
