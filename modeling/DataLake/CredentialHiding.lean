import DataLake.Redaction

/-! When an error message tells one credential from another: what stands before a credential,
what the three passes make of it, and the exact condition under which nothing of it is left. -/

namespace DataLake

open Foundation

/-- What stands before a credential: a header of the platform's own, or an assignment. -/
inductive Slot where
  | basic
  | bearer
  | bare (a : Assignment)
  | quoted (a : Assignment)

def Slot.marker : Slot → Text
  | basic => "Authorization: Basic ".toList
  | bearer => "Authorization: Bearer ".toList
  | bare a => a.text
  | quoted a => a.text

def Word (c : Text) : Prop := Solid c ∧ c ≠ []

def Unquoted (c : Text) : Prop := ∀ q, c.head? = some q → q ∉ ['"', '\'']

def Slot.Credential : Slot → Text → Prop
  | basic, c => Word c
  | bearer, c => Word c
  | bare _, c => Word c ∧ Unquoted c
  | quoted _, c => ∃ v, '"' ∉ v ∧ c = '"' :: (v ++ ['"'])

/-- A word ends where the text behind it begins. -/
def Slot.Ends : Slot → Text → Prop
  | quoted _, _ => True
  | _, post => messageAlphabet.Breaks post

def Slot.message (slot : Slot) (pre c post : Text) : Text := pre ++ (slot.marker ++ (c ++ post))

/-- Any two credentials of the form leave the same message, however it is cut. -/
def Slot.Hides (slot : Slot) (pre post : Text) : Prop :=
  ∀ c c' : Text, ∀ maxLength : Int, slot.Credential c → slot.Credential c' →
    sanitizeMessage (slot.message pre c post) maxLength =
      sanitizeMessage (slot.message pre c' post) maxLength

/-- Any other credential of the form leaves the message that this one leaves. -/
def Slot.Replaceable (slot : Slot) (pre c post : Text) : Prop :=
  ∀ c' : Text, ∀ maxLength : Int, slot.Credential c' →
    sanitizeMessage (slot.message pre c post) maxLength =
      sanitizeMessage (slot.message pre c' post) maxLength

theorem Slot.replaceable_iff {slot : Slot} {pre c post : Text} (hc : slot.Credential c) :
    slot.Replaceable pre c post ↔ slot.Hides pre post := by
  constructor
  · intro h c' c'' maxLength hc' hc''
    exact (h c' maxLength hc').symm.trans (h c'' maxLength hc'')
  · exact fun h c' maxLength hc' => h c c' maxLength hc hc'

/-- The text ends in a marker that takes the word behind it. -/
def opened (p : Pattern Char) (s : Text) : Bool := p.opened messageAlphabet mask 'x' s

def kept (p : Pattern Char) (s : Text) : Text := p.kept messageAlphabet mask 'x' s

def taken (p : Pattern Char) (s : Text) : Text := p.taken messageAlphabet mask 'x' s

/-- A later pass comes upon an earlier marker that takes this one for its word. -/
def openedLater (pre : Text) : Prop :=
  opened bearerPattern (kept authorizationPattern pre) = true ∨
    opened assignmentPattern (kept bearerPattern (kept authorizationPattern pre)) = true

/-- Where no credential shows. -/
def Slot.Safe : Slot → Text → Text → Prop
  | basic, _, _ => False
  | quoted _, _, _ => False
  | bearer, pre, post => opened authorizationPattern pre = false ∨ messageAlphabet.Blank post
  | bare a, pre, post =>
    (opened authorizationPattern pre = true ∧ Solid a.text) ∨
    (opened authorizationPattern pre = false ∧ messageAlphabet.Blank post ∧
      (Solid a.text ∨ ¬openedLater pre))

theorem Slot.hides_iff {slot : Slot} {pre post : Text} :
    slot.Hides pre post ↔ ∀ c c', slot.Credential c → slot.Credential c' →
      redact (slot.message pre c post) = redact (slot.message pre c' post) := by
  constructor
  · intro h c c' hc hc'
    exact sanitizeMessage_inj.mp fun n => h c c' n hc hc'
  · intro h c c' n hc hc'
    exact sanitizeMessage_inj.mpr (h c c' hc hc') n

theorem authorization_mem : authorizationPattern ∈ redactPatterns := .head _

theorem bearer_mem : bearerPattern ∈ redactPatterns := .tail _ (.head _)

theorem assignment_mem : assignmentPattern ∈ redactPatterns := .tail _ (.tail _ (.head _))

/-- What a pass makes of a text before a word that begins a marker. -/
theorem pass_opening {p : Pattern Char} (hp : p ∈ redactPatterns) (u : Text) :
    (opened p u = false ∧ ∀ k t, k.map foldCase ∈ openings →
      pass p (u ++ (k ++ t)) = kept p u ++ pass p (k ++ t)) ∨
    (opened p u = true ∧ ∃ v, ∀ k t, k.map foldCase ∈ openings →
      pass p (u ++ (k ++ t)) = v ++ ']' :: pass p (messageAlphabet.dropWord (k ++ t))) := by
  unfold pass opened kept
  rcases (probe hp).sub_cases u with ⟨hshut, hcut⟩ | ⟨hopen, ⟨v, hv⟩, hcut⟩
  · refine .inl ⟨hshut, fun k t hk => ?_⟩
    exact hcut (k ++ t) (fresh_opening hp hk t)
  · refine .inr ⟨hopen, v ++ "[redacted".toList, fun k t hk => ?_⟩
    rw [hcut (k ++ t) (fresh_opening hp hk t), hv, List.append_assoc, mask_append,
      List.append_assoc]

/-! A letter that shows. -/

theorem letter_mem {c : Char} (hc : c ∈ ['x', 'y']) : c ∈ ['x', 'y', ']'] := by
  have hall : ∀ c ∈ ['x', 'y'], c ∈ ['x', 'y', ']'] := by decide
  exact hall c hc

/-- Space, signs and quotes, where no marker begins. -/
def Gap (w : Text) : Prop :=
  ∀ c ∈ w, isWhitespace c = true ∨ c ∈ [':', '=', '"', '\'', 'x']

theorem gap_inert {p : Pattern Char} (hp : p ∈ redactPatterns) {w : Text} (hw : Gap w) :
    p.Inert (w.map messageAlphabet.fold) := by
  have hheads : ∀ p ∈ redactPatterns, ∀ m ∈ p.markers, m ≠ [] ∧ ∀ d ∈ m.head?,
      isWhitespace d = false ∧ ∀ c ∈ [':', '=', '"', '\'', 'x'], d ≠ foldCase c := by
    decide
  apply Pattern.inert_of_heads
  intro c hc m hm
  obtain ⟨a, ha, rfl⟩ := List.mem_map.mp hc
  obtain ⟨hne, hhead⟩ := hheads p hp m hm
  obtain ⟨d, ds, rfl⟩ := List.exists_cons_of_ne_nil hne
  obtain ⟨hd, hdiff⟩ := hhead d rfl
  refine ⟨d, ds, rfl, ?_⟩
  rcases hw a ha with hspace | hsign
  · rintro rfl
    have hfold : messageAlphabet.fold a = a := foldCase_of_whitespace hspace
    rw [hfold, hspace] at hd
    cases hd
  · exact hdiff a hsign

theorem pass_gap {p : Pattern Char} (hp : p ∈ redactPatterns) {w : Text} (hw : Gap w) (t : Text) :
    pass p (w ++ t) = w ++ pass p t := sub_inert (gap_inert hp hw) t

/-- Text that begins with space, in which no match begins. -/
structure Spacing (F : Text) : Prop where
  nonempty : F ≠ []
  breaks : messageAlphabet.Breaks F
  inert : ∀ p ∈ redactPatterns, p.Inert (F.map messageAlphabet.fold)

/-- Two messages that differ in one letter, behind a mask and the same text. -/
def Exposed (F : Text) (f : Char → Text) : Prop :=
  ∃ u r, ∀ c ∈ ['x', 'y'], f c = u ++ ']' :: (F ++ c :: r)

theorem Exposed.ne {F : Text} {f : Char → Text} (h : Exposed F f) : f 'x' ≠ f 'y' := by
  obtain ⟨u, r, h⟩ := h
  rw [h 'x' (by decide), h 'y' (by decide)]
  intro heq
  simp at heq

theorem Exposed.next {F : Text} {f : Char → Text} (hF : Spacing F) (h : Exposed F f)
    {p : Pattern Char} (hp : p ∈ redactPatterns) : Exposed F fun c => pass p (f c) := by
  obtain ⟨u, r, h⟩ := h
  obtain ⟨v, hv⟩ := pass_closed hp u
  refine ⟨v, pass p r, fun c hc => ?_⟩
  have hbreaks : messageAlphabet.Breaks (F ++ c :: r) := by
    obtain ⟨d, ds, hd⟩ := List.exists_cons_of_ne_nil hF.nonempty
    intro e he
    rw [hd] at he
    exact hF.breaks e (by rw [hd]; exact he)
  have hinert : pass p (F ++ c :: r) = F ++ pass p (c :: r) :=
    sub_inert (hF.inert p hp) _
  show pass p (f c) = _
  rw [h c hc, hv _ hbreaks, hinert, pass_letter hp (letter_mem hc)]

/-- A marker with a word under way: it begins with a word of the list, no match of the first two
passes begins in it, and the space that ends its first word is there. -/
structure Carrier (k : Text) : Prop where
  opening : ∃ key gap, k = key ++ gap ∧ key.map foldCase ∈ openings
  authorization : authorizationPattern.Inert (k.map messageAlphabet.fold)
  bearer : bearerPattern.Inert (k.map messageAlphabet.fold)
  spacing : Spacing (messageAlphabet.dropWord k)

/-- Two messages that differ in one letter, behind the marker. -/
def Behind (k u : Text) (f : Char → Text) : Prop :=
  ∃ r, ∀ c ∈ ['x', 'y'], f c = u ++ (k ++ c :: r)

theorem Carrier.passes {k : Text} (hk : Carrier k) {p : Pattern Char} (hp : p ∈ redactPatterns)
    (u : Text) :
    (opened p u = false ∧ ∀ t, pass p (u ++ (k ++ t)) = kept p u ++ pass p (k ++ t)) ∨
    (opened p u = true ∧ ∃ v, ∀ t,
      pass p (u ++ (k ++ t)) = v ++ ']' :: pass p (messageAlphabet.dropWord k ++ t)) := by
  have hdrop : ∀ t, messageAlphabet.dropWord (k ++ t) = messageAlphabet.dropWord k ++ t := by
    intro t
    have hspaced : (k.dropWhile fun c => !messageAlphabet.space c).isEmpty = false :=
      List.isEmpty_eq_false_iff.mpr hk.spacing.nonempty
    rw [Alphabet.dropWord, List.dropWhile_append, hspaced]
    rfl
  obtain ⟨key, gap, hkey, hopening⟩ := hk.opening
  have hassoc : ∀ t, k ++ t = key ++ (gap ++ t) := by
    intro t
    rw [hkey, List.append_assoc]
  rcases pass_opening hp u with ⟨hshut, hcut⟩ | ⟨hopen, v, hcut⟩
  · refine .inl ⟨hshut, fun t => ?_⟩
    rw [hassoc]
    exact hcut key (gap ++ t) hopening
  · refine .inr ⟨hopen, v, fun t => ?_⟩
    rw [← hdrop, hassoc]
    exact hcut key (gap ++ t) hopening

theorem Behind.exposed {k u : Text} {f : Char → Text} (hk : Carrier k) (h : Behind k u f)
    {p : Pattern Char} (hp : p ∈ redactPatterns) (hopen : opened p u = true) :
    Exposed (messageAlphabet.dropWord k) fun c => pass p (f c) := by
  obtain ⟨r, h⟩ := h
  rcases hk.passes hp u with ⟨hshut, -⟩ | ⟨-, v, hcut⟩
  · rw [hshut] at hopen
    cases hopen
  · refine ⟨v, pass p r, fun c hc => ?_⟩
    have hinert : pass p (messageAlphabet.dropWord k ++ c :: r) =
        messageAlphabet.dropWord k ++ pass p (c :: r) := sub_inert (hk.spacing.inert p hp) _
    show pass p (f c) = _
    rw [h c hc, hcut, hinert, pass_letter hp (letter_mem hc)]

theorem Behind.next {k u : Text} {f : Char → Text} (hk : Carrier k) (h : Behind k u f)
    {p : Pattern Char} (hp : p ∈ redactPatterns) (hinert : p.Inert (k.map messageAlphabet.fold))
    (hshut : opened p u = false) : Behind k (kept p u) fun c => pass p (f c) := by
  obtain ⟨r, h⟩ := h
  rcases hk.passes hp u with ⟨-, hcut⟩ | ⟨hopen, -⟩
  · refine ⟨pass p r, fun c hc => ?_⟩
    have hword : pass p (k ++ c :: r) = k ++ pass p (c :: r) := sub_inert hinert _
    show pass p (f c) = _
    rw [h c hc, hcut, hword, pass_letter hp (letter_mem hc)]
  · rw [hshut] at hopen
    cases hopen

/-- Where a pass takes the marker for another's word, the letter behind it shows. -/
theorem Carrier.shows {k : Text} (hk : Carrier k) {pre : Text} (post : Text)
    (h : opened authorizationPattern pre = true ∨ openedLater pre) :
    redact (pre ++ (k ++ 'x' :: post)) ≠ redact (pre ++ (k ++ 'y' :: post)) := by
  have hstart : Behind k pre fun c => pre ++ (k ++ c :: post) := ⟨post, fun _ _ => rfl⟩
  by_cases hfirst : opened authorizationPattern pre = true
  · have hexposed := hstart.exposed hk authorization_mem hfirst
    exact ((hexposed.next hk.spacing bearer_mem).next hk.spacing assignment_mem).ne
  · have hlater := h.resolve_left hfirst
    have hsecond := hstart.next hk authorization_mem hk.authorization (by simpa using hfirst)
    by_cases hopen : opened bearerPattern (kept authorizationPattern pre) = true
    · have hexposed := hsecond.exposed hk bearer_mem hopen
      exact (hexposed.next hk.spacing assignment_mem).ne
    · have hthird := hsecond.next hk bearer_mem hk.bearer (by simpa using hopen)
      exact (hthird.exposed hk assignment_mem (hlater.resolve_left hopen)).ne

/-! Assignments as markers under way. -/

theorem solid_of_fold {k : Text} (h : Solid (k.map foldCase)) : Solid k := by
  intro c hc
  by_contra hspace
  have hwhite : isWhitespace c = true := by simpa using hspace
  have hmem := h (foldCase c) (List.mem_map_of_mem hc)
  rw [foldCase_of_whitespace hwhite, hwhite] at hmem
  cases hmem

theorem Assignment.opening (a : Assignment) : a.key.map foldCase ∈ openings :=
  .tail _ (.tail _ (.tail _ a.key_marks))

theorem Assignment.key_solid (a : Assignment) : Solid a.key :=
  solid_of_fold (solid_openings _ a.opening).2

theorem Assignment.gap_gap (a : Assignment) : Gap a.gap := by
  intro c hc
  simp only [Assignment.gap, List.mem_append, List.mem_cons, Option.mem_toList] at hc
  rcases hc with hbefore | hquote | hbetween | rfl | hafter
  · exact .inl (a.before_blank c hbefore)
  · have hq := a.quote_quotes c hquote
    have hall : ∀ c ∈ ['"', '\''], c ∈ [':', '=', '"', '\'', 'x'] := by decide
    exact .inr (hall c hq)
  · exact .inl (a.between_blank c hbetween)
  · have hall : ∀ c ∈ [':', '='], c ∈ [':', '=', '"', '\'', 'x'] := by decide
    exact .inr (hall _ a.sign_assigns)
  · exact .inl (a.after_blank c hafter)

theorem key_inert : ∀ p ∈ [authorizationPattern, bearerPattern],
    ∀ key ∈ assignmentPattern.markers, p.Inert key := by
  unfold Pattern.Inert
  decide

theorem Gap.append {v w : Text} (hv : Gap v) (hw : Gap w) : Gap (v ++ w) := by
  intro c hc
  exact (List.mem_append.mp hc).elim (hv c) (hw c)

theorem Assignment.inert (a : Assignment) {w : Text} (hw : Gap w) {p : Pattern Char}
    (hp : p ∈ [authorizationPattern, bearerPattern]) (hmem : p ∈ redactPatterns) :
    p.Inert ((a.text ++ w).map messageAlphabet.fold) := by
  rw [Assignment.text, List.append_assoc, List.map_append]
  exact (key_inert p hp _ a.key_marks).append (gap_inert hmem (a.gap_gap.append hw))

/-- An assignment with a space in it or behind it. -/
theorem Assignment.carrier (a : Assignment) {w : Text} (hw : Gap w) (hspace : ¬Solid (a.text ++ w)) :
    Carrier (a.text ++ w) := by
  have hdrop : messageAlphabet.dropWord (a.text ++ w) = messageAlphabet.dropWord (a.gap ++ w) := by
    rw [Assignment.text, List.append_assoc, Alphabet.dropWord]
    apply List.dropWhile_append_of_pos
    intro c hc
    simp [messageAlphabet, a.key_solid c hc]
  refine ⟨⟨a.key, a.gap ++ w, by rw [Assignment.text, List.append_assoc], a.opening⟩,
    a.inert hw (.head _) authorization_mem, a.inert hw (.tail _ (.head _)) bearer_mem, ?_⟩
  constructor
  · intro hnil
    apply hspace
    intro c hc
    simpa [messageAlphabet] using List.dropWhile_eq_nil_iff.mp hnil c hc
  · exact Alphabet.dropWord_breaks _
  · intro p hp
    rw [hdrop]
    apply gap_inert hp
    intro c hc
    exact (a.gap_gap.append hw) c ((Alphabet.dropWord_suffix _).subset hc)

theorem gap_space : Gap " ".toList := by
  have hall : ∀ c ∈ " ".toList, isWhitespace c = true ∨ c ∈ [':', '=', '"', '\'', 'x'] := by decide
  exact hall

theorem spacing_space : Spacing " ".toList where
  nonempty := by decide
  breaks := by
    intro c hc
    cases hc
    rfl
  inert p hp := gap_inert hp gap_space

theorem dropWord_word_space {w t : Text} (hw : Solid w) :
    messageAlphabet.dropWord (w ++ ' ' :: t) = ' ' :: t := by
  apply dropWord_solid hw
  intro c hc
  cases hc
  rfl

theorem pass_space {p : Pattern Char} (hp : p ∈ redactPatterns) {c : Char} (hc : c ∈ ['x', 'y'])
    (t : Text) : pass p (' ' :: c :: t) = ' ' :: c :: pass p t := by
  have hspace : pass p (" ".toList ++ c :: t) = " ".toList ++ pass p (c :: t) := pass_gap hp gap_space _
  rw [pass_letter hp (letter_mem hc)] at hspace
  exact hspace

/-- Of a value in quotes, what is behind its first space shows. -/
theorem quoted_shows (a : Assignment) (pre post : Text) :
    redact (pre ++ (a.text ++ ("\"x x\"".toList ++ post))) ≠
      redact (pre ++ (a.text ++ ("\"x y\"".toList ++ post))) := by
  have hw : Gap "\"x ".toList := by
    have hall : ∀ c ∈ "\"x ".toList, isWhitespace c = true ∨ c ∈ [':', '=', '"', '\'', 'x'] := by
      decide
    exact hall
  have hspace : ¬Solid (a.text ++ "\"x ".toList) := by
    intro h
    have hlast := h ' ' (List.mem_append_right _ (by decide))
    cases hlast
  have hk := a.carrier hw hspace
  have hmessage : ∀ c, pre ++ (a.text ++ ("\"x ".toList ++ c :: '"' :: post)) =
      pre ++ (a.text ++ "\"x ".toList ++ c :: '"' :: post) := by
    intro c
    rw [List.append_assoc]
  show redact (pre ++ (a.text ++ ("\"x ".toList ++ 'x' :: '"' :: post))) ≠
    redact (pre ++ (a.text ++ ("\"x ".toList ++ 'y' :: '"' :: post)))
  rw [hmessage, hmessage]
  by_cases htaken : opened authorizationPattern pre = true ∨ openedLater pre
  · exact hk.shows _ htaken
  · rw [not_or, openedLater, not_or] at htaken
    obtain ⟨hfirst, hsecond, hthird⟩ := htaken
    have hstart : Behind (a.text ++ "\"x ".toList) pre
        fun c => pre ++ (a.text ++ "\"x ".toList ++ c :: '"' :: post) := ⟨_, fun _ _ => rfl⟩
    obtain ⟨r, hr⟩ := (hstart.next hk authorization_mem hk.authorization (by simpa using hfirst)).next
      hk bearer_mem hk.bearer (by simpa using hsecond)
    have hexposed : Exposed " ".toList
        fun c => redact (pre ++ (a.text ++ "\"x ".toList ++ c :: '"' :: post)) := by
      rcases hk.passes assignment_mem (kept bearerPattern (kept authorizationPattern pre)) with
        ⟨-, hcut⟩ | ⟨hopen, -⟩
      · refine ⟨kept assignmentPattern (kept bearerPattern (kept authorizationPattern pre)) ++
          (a.text ++ '"' :: "[redacted".toList), pass assignmentPattern r, fun c hc => ?_⟩
        have hx : Solid "x".toList := by
          intro c hc
          cases hc with
          | head => rfl
          | tail _ h => cases h
        have hstarts : messageAlphabet.starts ("x".toList ++ ' ' :: c :: r) = true :=
          starts_solid hx (by decide) _
        have hquoted := pass_quoted a hstarts
        rw [dropWord_word_space hx, pass_space assignment_mem hc] at hquoted
        have hsplit : a.text ++ "\"x ".toList ++ c :: r =
            a.text ++ '"' :: ("x".toList ++ ' ' :: c :: r) := by
          rw [List.append_assoc]
          rfl
        have hpassed := hr c hc
        beta_reduce at hpassed ⊢
        rw [redact_eq, hpassed, hcut, hsplit, hquoted, mask_append]
        simp only [List.append_assoc, List.cons_append]
        rfl
      · exact absurd hopen hthird
    exact hexposed.ne

theorem body_plain {r : Text} (h : messageAlphabet.read "bearer".toList r = none) :
    authorizationPattern.body messageAlphabet r = r := by
  have hextra : readAll messageAlphabet authorizationPattern.extra r = none := by
    rw [authorizationPattern, readAll, Piece.read, h]
    rfl
  simp [Pattern.body, hextra]

theorem body_bearer {b gap r : Text} (hb : b.map foldCase = "bearer".toList)
    (hgap : messageAlphabet.Blank gap) (hne : gap ≠ []) (hr : messageAlphabet.starts r = true) :
    authorizationPattern.body messageAlphabet (b ++ (gap ++ r)) = r := by
  obtain ⟨c, cs, rfl⟩ := List.exists_cons_of_ne_nil hne
  have hc : messageAlphabet.space c = true := hgap c (.head _)
  have hcs : messageAlphabet.Blank cs := fun d hd => hgap d (.tail _ hd)
  have hextra : readAll messageAlphabet authorizationPattern.extra (b ++ (c :: cs ++ r)) = some r := by
    rw [authorizationPattern, readAll, Piece.read, read_marker hb, Option.bind_some, List.cons_append]
    simp [readAll, Piece.read, hc, dropSpaces_before hcs hr]
  rw [Pattern.body, hextra]
  exact if_pos hr

theorem blank_space : messageAlphabet.Blank " ".toList := by
  intro c hc
  cases hc with
  | head => rfl
  | tail _ h => cases h

/-- The word behind `Basic` shows. -/
theorem basic_shows (pre post : Text) :
    redact (pre ++ ("Authorization: Basic ".toList ++ 'x' :: post)) ≠
      redact (pre ++ ("Authorization: Basic ".toList ++ 'y' :: post)) := by
  have hkey : "Authorization".toList.map foldCase ∈ openings := by decide
  rcases pass_opening authorization_mem pre with ⟨-, hcut⟩ | ⟨-, v, hcut⟩
  · have hexposed : Exposed " ".toList fun c => pass authorizationPattern
        (pre ++ ("Authorization: Basic ".toList ++ c :: post)) := by
      refine ⟨kept authorizationPattern pre ++ "Authorization: [redacted".toList,
        pass authorizationPattern post, fun c hc => ?_⟩
      have hsolid : Solid "Basic".toList := by
        have hall : ∀ c ∈ "Basic".toList, isWhitespace c = false := by decide
        exact hall
      have hbasic : messageAlphabet.read "bearer".toList ("Basic".toList ++ ' ' :: c :: post) = none :=
        read_clash (by decide)
      have hheader := pass_authorization (k := "Authorization".toList)
        (r := "Basic".toList ++ ' ' :: c :: post) (by decide) blank_space
        (starts_solid hsolid (by decide) _)
      rw [body_plain hbasic, dropWord_word_space hsolid, pass_space authorization_mem hc,
        mask_append] at hheader
      have happ : pass authorizationPattern (pre ++ ("Authorization: Basic ".toList ++ c :: post)) =
          kept authorizationPattern pre ++
            pass authorizationPattern ("Authorization: Basic ".toList ++ c :: post) :=
        hcut "Authorization".toList (": Basic ".toList ++ c :: post) hkey
      have hmarker : pass authorizationPattern ("Authorization: Basic ".toList ++ c :: post) =
          "Authorization: [redacted".toList ++ ']' :: (" ".toList ++
            c :: pass authorizationPattern post) := hheader
      beta_reduce
      rw [happ, hmarker, List.append_assoc]
    exact ((hexposed.next spacing_space bearer_mem).next spacing_space assignment_mem).ne
  · have hspacing : Spacing " Basic ".toList := by
      have hinert : ∀ p ∈ redactPatterns, p.Inert (" Basic ".toList.map foldCase) := by
        unfold Pattern.Inert
        decide
      refine ⟨by decide, ?_, hinert⟩
      intro c hc
      cases hc
      rfl
    have hexposed : Exposed " Basic ".toList fun c => pass authorizationPattern
        (pre ++ ("Authorization: Basic ".toList ++ c :: post)) := by
      refine ⟨v, pass authorizationPattern post, fun c hc => ?_⟩
      have hinert : pass authorizationPattern (" Basic ".toList ++ c :: post) =
          " Basic ".toList ++ pass authorizationPattern (c :: post) :=
        sub_inert (hspacing.inert _ authorization_mem) _
      have happ : pass authorizationPattern (pre ++ ("Authorization: Basic ".toList ++ c :: post)) =
          v ++ ']' :: pass authorizationPattern (" Basic ".toList ++ c :: post) :=
        hcut "Authorization".toList (": Basic ".toList ++ c :: post) hkey
      beta_reduce
      rw [happ, hinert, pass_letter authorization_mem (letter_mem hc)]
    exact ((hexposed.next hspacing bearer_mem).next hspacing assignment_mem).ne

/-! What is left when the credential is read as a word: the text behind it. -/

/-- The passes that follow the first. -/
def later (t : Text) : Text := pass assignmentPattern (pass bearerPattern t)

theorem redact_later (message : Text) :
    redact message = later (pass authorizationPattern message) := rfl

/-- The first two passes leave a word in the credential's place, and cut it off from the rest. -/
structure Residue (c post d S : Text) : Prop where
  authorization : pass authorizationPattern (c ++ post) = d ++ S
  bearer : ∃ d', Word d' ∧ d'.head? = c.head? ∧
    pass bearerPattern (d ++ S) = d' ++ pass bearerPattern S
  word : Word d
  breaks : messageAlphabet.Breaks S

theorem Word.starts {c : Text} (hc : Word c) (t : Text) : messageAlphabet.starts (c ++ t) = true :=
  starts_solid hc.1 hc.2 t

theorem Word.dropWord {c t : Text} (hc : Word c) (ht : messageAlphabet.Breaks t) :
    messageAlphabet.dropWord (c ++ t) = t := dropWord_solid hc.1 ht

theorem Unquoted.append {c t : Text} (hc : Unquoted c) (hne : c ≠ []) : Unquoted (c ++ t) := by
  obtain ⟨d, ds, rfl⟩ := List.exists_cons_of_ne_nil hne
  exact hc

theorem Word.pass {c : Text} (hc : Word c) {p : Pattern Char} (hp : p ∈ redactPatterns) :
    Word (pass p c) := by
  obtain ⟨d, ds, rfl⟩ := List.exists_cons_of_ne_nil hc.2
  obtain ⟨es, hes⟩ := pass_head hp d ds
  refine ⟨pass_solid hc.1, ?_⟩
  rw [hes]
  exact List.cons_ne_nil d es

theorem head_pass {p : Pattern Char} (hp : p ∈ redactPatterns) {c : Text} (hne : c ≠ []) :
    (pass p c).head? = c.head? := by
  obtain ⟨d, ds, rfl⟩ := List.exists_cons_of_ne_nil hne
  obtain ⟨es, hes⟩ := pass_head hp d ds
  rw [hes]
  rfl

theorem pass_nothing {p : Pattern Char} {t : Text} (ht : messageAlphabet.Blank t) :
    pass p t = t := pass_blank (p := p) [] ht

/-- With nothing but space behind it, any credential leaves the same. -/
theorem residue_blank {c post : Text} (hc : Word c) (hpost : messageAlphabet.Blank post) :
    Residue c post (pass authorizationPattern c) post where
  authorization := pass_blank c hpost
  bearer := by
    have hfirst := hc.pass authorization_mem
    refine ⟨pass bearerPattern (pass authorizationPattern c), hfirst.pass bearer_mem, ?_, ?_⟩
    · rw [head_pass bearer_mem hfirst.2, head_pass authorization_mem hc.2]
    · rw [pass_blank _ hpost, pass_nothing hpost]
  word := hc.pass authorization_mem
  breaks := hpost.breaks

/-- A bare value that no earlier marker takes away leaves the text behind it. -/
theorem residue_bare (a : Assignment) {pre : Text} (hshut : opened authorizationPattern pre = false)
    (hlater : Solid a.text ∨ ¬openedLater pre) :
    ∃ Z, ∀ c post d S, Unquoted c → Residue c post d S →
      redact (pre ++ (a.text ++ (c ++ post))) = Z ++ later S := by
  have hassoc : ∀ t, a.text ++ t = a.key ++ (a.gap ++ t) := by
    intro t
    rw [Assignment.text, List.append_assoc]
  have hinert : ∀ p ∈ [authorizationPattern, bearerPattern], p ∈ redactPatterns →
      ∀ t, pass p (a.text ++ t) = a.text ++ pass p t := by
    intro p hp hmem t
    have hw : Gap [] := fun c hc => by cases hc
    have hkey := a.inert hw hp hmem
    rw [List.append_nil] at hkey
    exact sub_inert hkey t
  have hdrop : ∀ {e t}, Solid a.text → Word e → messageAlphabet.Breaks t →
      messageAlphabet.dropWord (a.key ++ (a.gap ++ (e ++ t))) = t := by
    intro e t hsolid he ht
    rw [← hassoc, ← List.append_assoc]
    apply dropWord_solid _ ht
    intro c hc
    exact (List.mem_append.mp hc).elim (hsolid c) (he.1 c)
  -- The authorization pass leaves the marker and a word behind it.
  have hfirst : ∀ c post d S, Residue c post d S →
      pass authorizationPattern (pre ++ (a.text ++ (c ++ post))) =
        kept authorizationPattern pre ++ (a.text ++ (d ++ S)) := by
    intro c post d S h
    rcases pass_opening authorization_mem pre with ⟨-, hcut⟩ | ⟨hopen, -⟩
    · rw [hassoc, hcut a.key _ a.opening, ← hassoc, hinert _ (.head _) authorization_mem,
        h.authorization]
    · rw [hshut] at hopen
      cases hopen
  rcases pass_opening bearer_mem (kept authorizationPattern pre) with ⟨hshut', hcut⟩ | ⟨hopen, v, hcut⟩
  · rcases pass_opening assignment_mem (kept bearerPattern (kept authorizationPattern pre)) with
      ⟨-, hcut'⟩ | ⟨hopen', v, hcut'⟩
    · refine ⟨kept assignmentPattern (kept bearerPattern (kept authorizationPattern pre)) ++
        (a.text ++ mask), fun c post d S hc h => ?_⟩
      obtain ⟨d', hd', hhead, hbearer⟩ := h.bearer
      have hunquoted : Unquoted d' := by
        intro q hq
        exact hc q (hhead ▸ hq)
      have hword := pass_assignment a (hd'.starts (pass bearerPattern S))
        (hunquoted.append hd'.2)
      rw [hd'.dropWord (pass_breaks bearer_mem h.breaks)] at hword
      rw [redact_eq, hfirst c post d S h, hassoc, hcut a.key _ a.opening, ← hassoc,
        hinert _ (.tail _ (.head _)) bearer_mem, hbearer, hassoc, hcut' a.key _ a.opening, ← hassoc,
        hword]
      simp only [List.append_assoc, later]
    · have hsolid : Solid a.text := hlater.resolve_right fun hnot => hnot (.inr hopen')
      refine ⟨v ++ [']'], fun c post d S _ h => ?_⟩
      obtain ⟨d', hd', -, hbearer⟩ := h.bearer
      rw [redact_eq, hfirst c post d S h, hassoc, hcut a.key _ a.opening, ← hassoc,
        hinert _ (.tail _ (.head _)) bearer_mem, hbearer, hassoc, hcut' a.key _ a.opening,
        hdrop hsolid hd' (pass_breaks bearer_mem h.breaks)]
      simp only [List.append_assoc, List.singleton_append, later]
  · have hsolid : Solid a.text := hlater.resolve_right fun hnot => hnot (.inl hopen)
    obtain ⟨w, hw⟩ := pass_closed assignment_mem v
    refine ⟨w ++ [']'], fun c post d S _ h => ?_⟩
    rw [redact_eq, hfirst c post d S h, hassoc, hcut a.key _ a.opening, hdrop hsolid h.word h.breaks,
      hw _ (pass_breaks bearer_mem h.breaks)]
    simp only [List.append_assoc, List.singleton_append, later]

theorem bearer_solid : Word "Bearer".toList := by
  have hall : ∀ c ∈ "Bearer".toList, isWhitespace c = false := by decide
  exact ⟨hall, by decide⟩

/-- A bearer header that an earlier marker has taken the name of still masks its token. -/
theorem residue_bearer {pre : Text} (hopen : opened authorizationPattern pre = true) :
    ∃ Z, ∀ c post d S, Residue c post d S →
      redact (pre ++ ("Authorization: Bearer ".toList ++ (c ++ post))) = Z ++ later S := by
  have hkey : "Authorization".toList.map foldCase ∈ openings := by decide
  rcases pass_opening authorization_mem pre with ⟨hshut, -⟩ | ⟨-, v, hcut⟩
  · rw [hshut] at hopen
    cases hopen
  obtain ⟨w, hw⟩ := pass_closed bearer_mem v
  obtain ⟨y, hy⟩ := pass_closed assignment_mem (w ++ ']' :: " Bearer [redacted".toList)
  refine ⟨y ++ [']'], fun c post d S h => ?_⟩
  have hgap : authorizationPattern.Inert (" Bearer ".toList.map messageAlphabet.fold) := by
    unfold Pattern.Inert
    decide
  have hfirst : pass authorizationPattern
      (pre ++ ("Authorization: Bearer ".toList ++ (c ++ post))) =
        v ++ ']' :: (" Bearer ".toList ++ (d ++ S)) := by
    have happ : pass authorizationPattern
        (pre ++ ("Authorization: Bearer ".toList ++ (c ++ post))) =
          v ++ ']' :: pass authorizationPattern (" Bearer ".toList ++ (c ++ post)) :=
      hcut "Authorization".toList (": Bearer ".toList ++ (c ++ post)) hkey
    have hinert : pass authorizationPattern (" Bearer ".toList ++ (c ++ post)) =
        " Bearer ".toList ++ pass authorizationPattern (c ++ post) := sub_inert hgap _
    rw [happ, hinert, h.authorization]
  have hbreaks : messageAlphabet.Breaks (" Bearer ".toList ++ (d ++ S)) := by
    intro e he
    cases he
    rfl
  have hsecond : pass bearerPattern (" Bearer ".toList ++ (d ++ S)) =
      " Bearer [redacted".toList ++ ']' :: pass bearerPattern S := by
    have hspace : pass bearerPattern (" ".toList ++ ("Bearer".toList ++ (" ".toList ++ (d ++ S)))) =
        " ".toList ++ pass bearerPattern ("Bearer".toList ++ (" ".toList ++ (d ++ S))) :=
      pass_gap bearer_mem gap_space _
    have hword := pass_bearer (k := "Bearer".toList) (by decide) blank_space (by decide)
      (h.word.starts S)
    rw [hword, h.word.dropWord h.breaks, mask_append] at hspace
    exact hspace
  rw [redact_eq, hfirst, hw _ hbreaks, hsecond]
  have hsplit : w ++ ']' :: (" Bearer [redacted".toList ++ ']' :: pass bearerPattern S) =
      w ++ ']' :: " Bearer [redacted".toList ++ ']' :: pass bearerPattern S := by
    rw [List.append_assoc, List.cons_append]
  rw [hsplit, hy _ (pass_breaks bearer_mem h.breaks), List.append_assoc, List.singleton_append, later]

/-! Credentials that are markers themselves. -/

theorem later_gap {w : Text} (hw : Gap w) (t : Text) : later (w ++ t) = w ++ later t := by
  rw [later, pass_gap bearer_mem hw, pass_gap assignment_mem hw, later]

theorem later_head (c : Char) (cs : Text) : ∃ ds, later (c :: cs) = c :: ds := by
  obtain ⟨ds, hds⟩ := pass_head bearer_mem c cs
  obtain ⟨es, hes⟩ := pass_head assignment_mem c ds
  exact ⟨es, by rw [later, hds, hes]⟩

theorem later_mask (t : Text) : later (mask ++ t) = mask ++ later t := by
  have hinert : ∀ p ∈ redactPatterns, p.Inert (mask.map foldCase) := by
    unfold Pattern.Inert
    decide
  have hmask : ∀ p ∈ redactPatterns, ∀ t, pass p (mask ++ t) = mask ++ pass p t :=
    fun p hp t => sub_inert (hinert p hp) t
  rw [later, hmask _ bearer_mem, hmask _ assignment_mem, later]

theorem word_of_decide {c : Text} (h : c ≠ [] ∧ ∀ e ∈ c, isWhitespace e = false) : Word c := ⟨h.2, h.1⟩

theorem unquoted_of_decide {c : Text} (h : ∀ q ∈ c.head?, q ∉ ['"', '\'']) : Unquoted c := h

theorem residue_letter {post : Text} (hpost : messageAlphabet.Breaks post) :
    Residue "x".toList post "x".toList (pass authorizationPattern post) where
  authorization := pass_letter authorization_mem (by decide) post
  bearer := ⟨"x".toList, word_of_decide (by decide), rfl,
    pass_letter bearer_mem (by decide) _⟩
  word := word_of_decide (by decide)
  breaks := pass_breaks authorization_mem hpost

theorem breaks_space {sp : Text} (hsp : messageAlphabet.Blank sp) (hne : sp ≠ []) (t : Text) :
    messageAlphabet.Breaks (sp ++ t) := by
  obtain ⟨c, cs, rfl⟩ := List.exists_cons_of_ne_nil hne
  intro d hd
  cases hd
  exact hsp c (.head _)

/-- A credential that is a marker takes the next word of the message with it. -/
theorem residue_marker {sp r : Text} (hsp : messageAlphabet.Blank sp) (hne : sp ≠ [])
    (hr : messageAlphabet.starts r = true) :
    Residue "authorization:".toList (sp ++ r) "authorization:".toList
      (sp ++ (mask ++ pass authorizationPattern
        (messageAlphabet.dropWord (authorizationPattern.body messageAlphabet r)))) where
  authorization := by
    have hmarker := pass_authorization (k := "authorization".toList) (by decide) hsp hr
    rw [List.append_assoc, List.cons_append] at hmarker
    exact hmarker
  bearer := by
    have hinert : bearerPattern.Inert ("authorization:".toList.map messageAlphabet.fold) := by
      unfold Pattern.Inert
      decide
    exact ⟨"authorization:".toList, word_of_decide (by decide), rfl, sub_inert hinert _⟩
  word := word_of_decide (by decide)
  breaks := breaks_space hsp hne _

/-- With the scheme behind it, the marker takes no more than the next word. -/
theorem residue_scheme {sp r : Text} (hsp : messageAlphabet.Blank sp) (hne : sp ≠ [])
    (hr : messageAlphabet.starts r = true) :
    Residue "authorization:bearer".toList (sp ++ r) "authorization:[redacted]".toList
      (pass authorizationPattern (messageAlphabet.dropWord r)) where
  authorization := by
    have hstarts : messageAlphabet.starts ("bearer".toList ++ (sp ++ r)) = true :=
      (word_of_decide (by decide)).starts _
    have hbody : authorizationPattern.body messageAlphabet ("bearer".toList ++ (sp ++ r)) = r :=
      body_bearer (by decide) hsp hne hr
    have hnil : messageAlphabet.Blank [] := fun c hc => by cases hc
    have hmarker := pass_authorization (k := "authorization".toList) (by decide) hnil hstarts
    rw [hbody] at hmarker
    exact hmarker
  bearer := by
    have hinert : bearerPattern.Inert ("authorization:[redacted]".toList.map messageAlphabet.fold) := by
      unfold Pattern.Inert
      decide
    exact ⟨"authorization:[redacted]".toList, word_of_decide (by decide), by decide,
      sub_inert hinert _⟩
  word := word_of_decide (by decide)
  breaks := pass_breaks authorization_mem (Alphabet.dropWord_breaks r)

/-- With a word behind the credential, two credentials leave different texts. -/
theorem residues_differ {post : Text} (hbreaks : messageAlphabet.Breaks post)
    (hblank : ¬messageAlphabet.Blank post) :
    ∃ c c' d d' S S', Word c ∧ Unquoted c ∧ Word c' ∧ Unquoted c' ∧ Residue c post d S ∧
      Residue c' post d' S' ∧ later S ≠ later S' := by
  obtain ⟨sp, r, hpost, hsp, hrest, -, hdrop⟩ := exists_span isWhitespace post
  have hgap : Gap sp := fun c hc => .inl (hsp c hc)
  cases r with
  | nil =>
    rw [List.append_nil] at hpost
    exact absurd (hpost ▸ hsp) hblank
  | cons w ws =>
    have hw : isWhitespace w = false := hrest w rfl
    have hne : sp ≠ [] := by
      rintro rfl
      have hspace := hbreaks w (by rw [hpost]; rfl)
      rw [show messageAlphabet.space w = isWhitespace w from rfl, hw] at hspace
      cases hspace
    have hstarts : messageAlphabet.starts (w :: ws) = true := by
      simp [Alphabet.starts, messageAlphabet, hw]
    have hmarker := residue_marker hsp hne hstarts
    have hmarked : Word "authorization:".toList := word_of_decide (by decide)
    have hmarkedPlain : Unquoted "authorization:".toList := unquoted_of_decide (by decide)
    subst hpost
    by_cases hbracket : w = '['
    · -- The two texts differ by the mask that stands for the next word, and the space before it.
      subst hbracket
      refine ⟨_, _, _, _, _, _, hmarked, hmarkedPlain, word_of_decide (by decide),
        unquoted_of_decide (by decide), hmarker, residue_scheme hsp hne hstarts, ?_⟩
      have hbracket : messageAlphabet.read "bearer".toList ('[' :: ws) = none :=
        read_clash (k := ['[']) (by decide)
      rw [later_gap hgap, later_mask, body_plain hbracket]
      intro heq
      have hlen := congrArg List.length heq
      have hmask : mask.length = 10 := by decide
      simp only [List.length_append, hmask] at hlen
      omega
    · -- The next word begins with the bracket of the mask or with its own letter.
      refine ⟨_, _, _, _, _, _, word_of_decide (by decide), unquoted_of_decide (by decide), hmarked,
        hmarkedPlain, residue_letter (breaks_space hsp hne _), hmarker, ?_⟩
      obtain ⟨ds, hds⟩ := pass_head authorization_mem w ws
      obtain ⟨es, hes⟩ := later_head w ds
      rw [pass_gap authorization_mem hgap, hds, later_gap hgap, later_gap hgap, hes, later_mask,
        mask_cons]
      intro heq
      have hhead := List.append_cancel_left heq
      rw [List.cons.injEq] at hhead
      exact hbracket hhead.1

/-! The exact condition. -/

theorem quoted_credential {v : Text} (hv : '"' ∉ v) (a : Assignment) :
    (Slot.quoted a).Credential ('"' :: (v ++ ['"'])) := ⟨v, hv, rfl⟩

theorem blank_of_hides {slot : Slot} {pre post Z : Text}
    (hslot : ∀ c, Word c → Unquoted c → slot.Credential c)
    (hZ : ∀ c d S, Unquoted c → Residue c post d S → redact (slot.message pre c post) = Z ++ later S)
    (hbreaks : messageAlphabet.Breaks post) (hides : slot.Hides pre post) :
    messageAlphabet.Blank post := by
  by_contra hblank
  obtain ⟨c, c', d, d', S, S', hc, hcq, hc', hcq', hres, hres', hne⟩ :=
    residues_differ hbreaks hblank
  have heq := Slot.hides_iff.mp hides c c' (hslot c hc hcq) (hslot c' hc' hcq')
  rw [hZ c d S hcq hres, hZ c' d' S' hcq' hres'] at heq
  exact hne (List.append_cancel_left heq)

theorem bearer_message (pre c post : Text) : Slot.bearer.message pre c post =
    pre ++ ("Authorization: Bearer ".toList ++ (c ++ post)) := rfl

theorem bare_message (a : Assignment) (pre c post : Text) :
    (Slot.bare a).message pre c post = pre ++ (a.text ++ (c ++ post)) := rfl

/-- A bearer header that stands for itself. -/
theorem bearer_masked {pre c post : Text} (hshut : opened authorizationPattern pre = false)
    (hc : Word c) (hpost : messageAlphabet.Breaks post) :
    redact (pre ++ ("Authorization: Bearer ".toList ++ (c ++ post))) =
      later (kept authorizationPattern pre ++ ("Authorization: ".toList ++
        (mask ++ pass authorizationPattern post))) := by
  have hkey : "Authorization".toList.map foldCase ∈ openings := by decide
  rcases pass_opening authorization_mem pre with ⟨-, hcut⟩ | ⟨hopen, -⟩
  · have happ : pass authorizationPattern
        (pre ++ ("Authorization: Bearer ".toList ++ (c ++ post))) =
          kept authorizationPattern pre ++
            pass authorizationPattern ("Authorization: Bearer ".toList ++ (c ++ post)) :=
      hcut "Authorization".toList (": Bearer ".toList ++ (c ++ post)) hkey
    have hstarts := bearer_solid.starts (" ".toList ++ (c ++ post))
    have hmarker := pass_authorization (k := "Authorization".toList) (by decide) blank_space hstarts
    have hbody : authorizationPattern.body messageAlphabet
        ("Bearer".toList ++ (" ".toList ++ (c ++ post))) = c ++ post :=
      body_bearer (by decide) blank_space (by decide) (hc.starts post)
    rw [hbody, hc.dropWord hpost] at hmarker
    have hheader : pass authorizationPattern ("Authorization: Bearer ".toList ++ (c ++ post)) =
        "Authorization: ".toList ++ (mask ++ pass authorizationPattern post) := hmarker
    rw [redact_later, happ, hheader]
  · rw [hshut] at hopen
    cases hopen

theorem bearer_hidden_iff {pre post : Text} (hends : messageAlphabet.Breaks post) :
    Slot.bearer.Hides pre post ↔ Slot.bearer.Safe pre post := by
  by_cases hopen : opened authorizationPattern pre = true
  · obtain ⟨Z, hZ⟩ := residue_bearer hopen
    constructor
    · intro h
      right
      have hshown : ∀ c d S, Unquoted c → Residue c post d S →
          redact (Slot.bearer.message pre c post) = Z ++ later S := by
        intro c d S _ hres
        rw [bearer_message]
        exact hZ c post d S hres
      have hcredential : ∀ c, Word c → Unquoted c → Slot.bearer.Credential c := fun c hc _ => hc
      exact blank_of_hides hcredential hshown hends h
    · intro h
      have hblank : messageAlphabet.Blank post := h.resolve_left (by simp [hopen])
      apply Slot.hides_iff.mpr
      intro c c' hc hc'
      rw [bearer_message, bearer_message, hZ c post _ _ (residue_blank hc hblank),
        hZ c' post _ _ (residue_blank hc' hblank)]
  · have hshut : opened authorizationPattern pre = false := by simpa using hopen
    refine iff_of_true ?_ (.inl hshut)
    apply Slot.hides_iff.mpr
    intro c c' hc hc'
    rw [bearer_message, bearer_message, bearer_masked hshut hc hends, bearer_masked hshut hc' hends]

theorem bare_hidden_iff (a : Assignment) {pre post : Text} (hends : messageAlphabet.Breaks post) :
    (Slot.bare a).Hides pre post ↔ (Slot.bare a).Safe pre post := by
  have hcredential : ∀ c, Word c → Unquoted c → (Slot.bare a).Credential c :=
    fun c hc hcq => ⟨hc, hcq⟩
  -- An assignment with a space in it is not taken whole, and the value behind it shows.
  have hsolid : (Slot.bare a).Hides pre post →
      opened authorizationPattern pre = true ∨ openedLater pre → Solid a.text := by
    intro h htaken
    by_contra hspace
    have hw : Gap [] := fun c hc => by cases hc
    have hk : Carrier a.text := by
      have hcarrier := a.carrier hw (by rwa [List.append_nil])
      rwa [List.append_nil] at hcarrier
    exact hk.shows post htaken (Slot.hides_iff.mp h "x".toList "y".toList
      (hcredential _ (word_of_decide (by decide)) (unquoted_of_decide (by decide)))
      (hcredential _ (word_of_decide (by decide)) (unquoted_of_decide (by decide))))
  by_cases hopen : opened authorizationPattern pre = true
  · constructor
    · intro h
      exact .inl ⟨hopen, hsolid h (.inl hopen)⟩
    · rintro (⟨-, htext⟩ | ⟨hshut, -⟩)
      · rcases pass_opening authorization_mem pre with ⟨hshut, -⟩ | ⟨-, v, hcut⟩
        · rw [hshut] at hopen
          cases hopen
        · have htaken : ∀ c, Word c → pass authorizationPattern (pre ++ (a.text ++ (c ++ post))) =
              v ++ ']' :: pass authorizationPattern post := by
            intro c hc
            have hword : Solid (a.text ++ c) := fun e he =>
              (List.mem_append.mp he).elim (htext e) (hc.1 e)
            have hdrop := dropWord_solid hword hends
            have happ := hcut a.key (a.gap ++ (c ++ post)) a.opening
            simp only [Assignment.text, List.append_assoc] at hdrop ⊢
            rw [happ, hdrop]
          apply Slot.hides_iff.mpr
          intro c c' hc hc'
          rw [bare_message, bare_message, redact_later, redact_later, htaken c hc.1, htaken c' hc'.1]
      · rw [hopen] at hshut
        cases hshut
  · have hshut : opened authorizationPattern pre = false := by simpa using hopen
    constructor
    · intro h
      have hlater : Solid a.text ∨ ¬openedLater pre := by
        by_cases htaken : openedLater pre
        · exact .inl (hsolid h (.inr htaken))
        · exact .inr htaken
      obtain ⟨Z, hZ⟩ := residue_bare a hshut hlater
      refine .inr ⟨hshut, ?_, hlater⟩
      refine blank_of_hides (Z := Z) hcredential (fun c d S hc hres => ?_) hends h
      rw [bare_message]
      exact hZ c post d S hc hres
    · rintro (⟨htrue, -⟩ | ⟨-, hblank, hlater⟩)
      · rw [hshut] at htrue
        cases htrue
      · obtain ⟨Z, hZ⟩ := residue_bare a hshut hlater
        apply Slot.hides_iff.mpr
        intro c c' hc hc'
        rw [bare_message, bare_message, hZ c post _ _ hc.2 (residue_blank hc.1 hblank),
          hZ c' post _ _ hc'.2 (residue_blank hc'.1 hblank)]

theorem basic_tells (pre post : Text) : ¬Slot.basic.Hides pre post := by
  intro h
  exact basic_shows pre post (Slot.hides_iff.mp h "x".toList "y".toList
    (word_of_decide (by decide)) (word_of_decide (by decide)))

theorem quoted_tells (a : Assignment) (pre post : Text) : ¬(Slot.quoted a).Hides pre post := by
  intro h
  exact quoted_shows a pre post (Slot.hides_iff.mp h _ _
    (quoted_credential (v := "x x".toList) (by decide) a)
    (quoted_credential (v := "x y".toList) (by decide) a))

theorem Slot.hides_iff_safe (slot : Slot) (pre post : Text) (hends : slot.Ends post) :
    slot.Hides pre post ↔ slot.Safe pre post := by
  cases slot with
  | basic => exact iff_of_false (basic_tells pre post) id
  | quoted a => exact iff_of_false (quoted_tells a pre post) id
  | bearer => exact bearer_hidden_iff hends
  | bare a => exact bare_hidden_iff a hends

/-- Which messages tell credentials apart: a `Basic` header and a value in double quotes always
do, a `Bearer` header and a bare value only where a later word or an earlier marker interferes. -/
theorem credential_hidden_iff (slot : Slot) (pre post : Text) (hends : slot.Ends post) :
    slot.Hides pre post ↔ slot.Safe pre post :=
  slot.hides_iff_safe pre post hends

def failedHeaders : Text := "request failed, headers: ".toList

theorem credential_hidden_iff_header : Slot.bearer.Ends [] ∧
    (Slot.bearer.Hides failedHeaders [] ↔ Slot.bearer.Safe failedHeaders []) :=
  ⟨(fun _ h => by cases h), credential_hidden_iff .bearer failedHeaders [] (fun _ h => by cases h)⟩

/-- Whether a message shows which credential it has depends on what stands around it only, not
on the credential. -/
theorem credential_replaceable_iff (slot : Slot) (pre c post : Text) (hc : slot.Credential c)
    (hends : slot.Ends post) : slot.Replaceable pre c post ↔ slot.Safe pre post :=
  (Slot.replaceable_iff hc).trans (slot.hides_iff_safe pre post hends)

theorem credential_replaceable_iff_header :
    Slot.bearer.Credential "abc123.def456".toList ∧ Slot.bearer.Ends [] ∧
      (Slot.bearer.Replaceable failedHeaders "abc123.def456".toList [] ↔
        Slot.bearer.Safe failedHeaders []) := by
  have hc : Slot.bearer.Credential "abc123.def456".toList := word_of_decide (by decide)
  have hends : Slot.bearer.Ends [] := fun _ h => by cases h
  exact ⟨hc, hends, credential_replaceable_iff .bearer failedHeaders _ [] hc hends⟩

/-- Two users' `Basic` credentials, and the messages that they leave. -/
theorem basic_credential_shown :
    Slot.basic.Credential "dXNlcjpvbmU=".toList ∧ Slot.basic.Credential "dXNlcjp0d28=".toList ∧
    sanitizeMessage (Slot.basic.message failedHeaders "dXNlcjpvbmU=".toList [])
      maxErrorMessageLength =
        "request failed, headers: Authorization: [redacted] dXNlcjpvbmU=".toList ∧
    sanitizeMessage (Slot.basic.message failedHeaders "dXNlcjp0d28=".toList [])
      maxErrorMessageLength =
        "request failed, headers: Authorization: [redacted] dXNlcjp0d28=".toList :=
  ⟨word_of_decide (by decide), word_of_decide (by decide), by decide +kernel, by decide +kernel⟩

end DataLake
