import DataLake.Foundation.Patterns

/-! Where a text can be cut: before a word that no part of the pattern under way goes on in,
and before the space at its end. -/

namespace Foundation

variable {α : Type} {l : Alphabet α}

theorem dropSpaces_word {u z : List α} (hz : l.starts z = true) :
    l.dropSpaces (u ++ z) = l.dropSpaces u ++ z := by
  obtain ⟨c, cs, rfl, hc⟩ := Alphabet.starts_eq_true.mp hz
  have hstay : (c :: cs).dropWhile l.space = c :: cs := by simp [hc]
  rw [Alphabet.dropSpaces, Alphabet.dropSpaces, List.dropWhile_append, hstay]
  split_ifs with hu
  · rw [List.isEmpty_iff.mp hu, List.nil_append]
  · rfl

theorem starts_word {u z : List α} (hz : l.starts z = true) :
    l.starts (u ++ z) = (u.isEmpty || l.starts u) := by
  cases u with
  | nil => simpa using hz
  | cons c cs => rfl

theorem starts_blank {u t : List α} (ht : l.Blank t) : l.starts (u ++ t) = l.starts u := by
  cases u with
  | nil => exact ht.starts
  | cons c cs => rfl

theorem dropWord_blank {u t : List α} (ht : l.Breaks t) :
    l.dropWord (u ++ t) = l.dropWord u ++ t := by
  have hstay : t.dropWhile (fun c => !l.space c) = t := by
    cases t with
    | nil => rfl
    | cons c cs => simp [ht c rfl]
  rw [Alphabet.dropWord, Alphabet.dropWord, List.dropWhile_append, hstay]
  split_ifs with hu
  · rw [List.isEmpty_iff.mp hu, List.nil_append]
  · rfl

theorem dropWord_word {u : List α} :
    (∀ z, l.starts z = true → l.dropWord (u ++ z) = l.dropWord z) ∨
      ∀ z, l.starts z = true → l.dropWord (u ++ z) = l.dropWord u ++ z := by
  by_cases hu : (u.dropWhile fun c => !l.space c).isEmpty = true
  · left
    intro z _
    rw [Alphabet.dropWord, List.dropWhile_append, if_pos hu]
    rfl
  · right
    intro z _
    rw [Alphabet.dropWord, List.dropWhile_append, if_neg hu]
    rfl

/-- What stands before a common end is the same, whatever that end is. -/
theorem take_shared {s v : List α} (h : v <:+ s) (z : List α) :
    (s ++ z).take ((s ++ z).length - (v ++ z).length) = s.take (s.length - v.length) := by
  have hle : v.length ≤ s.length := h.length_le
  have hlen : (s ++ z).length - (v ++ z).length = s.length - v.length := by
    simp only [List.length_append]
    omega
  rw [hlen, List.take_append_of_le_length (by omega)]

/-! Letters that differ. -/

/-- The two words differ before either of them ends. -/
def clash [DecidableEq α] : List α → List α → Bool
  | d :: ds, c :: cs => decide (d ≠ c) || clash ds cs
  | _, _ => false

variable [DecidableEq α] {p : Pattern α} {mask : List α}

theorem read_clash {w k t : List α} (h : clash w (k.map l.fold) = true) :
    l.read w (k ++ t) = none := by
  induction w generalizing k with
  | nil => cases h
  | cons d ds ih =>
    cases k with
    | nil => cases h
    | cons c cs =>
      by_cases hc : l.fold c = d
      · have htail : clash ds (cs.map l.fold) = true := by simpa [clash, hc] using h
        simpa [Alphabet.read, readWord, hc] using ih htail
      · simp [Alphabet.read, readWord, hc]

theorem find_clash {k t : List α} (h : ∀ m ∈ p.markers, clash m (k.map l.fold) = true) :
    p.find l (k ++ t) = none := by
  have hnone : ∀ m ∈ p.markers, (l.read m (k ++ t)).bind (p.finish l (k ++ t)) = none := by
    intro m hm
    rw [read_clash (h m hm)]
    rfl
  exact List.findSome?_eq_none_iff.mpr hnone

/-- The marker that is read is the only one, where no marker begins another. -/
theorem find_marker {m s s' : List α} (hm : m ∈ p.markers) (hread : l.read m s = some s')
    (honly : ∀ m' ∈ p.markers, m' = m ∨ clash m' m = true) : p.find l s = p.finish l s s' := by
  obtain ⟨k, hk, rfl⟩ := Alphabet.read_eq_some.mp hread
  have hother : ∀ m' ∈ p.markers, m' ≠ m → l.read m' (k ++ s') = none := by
    intro m' hm' hne
    apply read_clash
    rw [hk]
    exact (honly m' hm').resolve_left hne
  cases hfinish : p.finish l (k ++ s') s' with
  | none =>
    apply List.findSome?_eq_none_iff.mpr
    intro m' hm'
    by_cases heq : m' = m
    · rw [heq, hread, Option.bind_some, hfinish]
    · rw [hother m' hm' heq, Option.bind_none]
  | some y =>
    cases hfind : p.find l (k ++ s') with
    | none =>
      have hnone := List.findSome?_eq_none_iff.mp hfind m hm
      rw [hread, Option.bind_some, hfinish] at hnone
      cases hnone
    | some y' =>
      obtain ⟨m', hm', s'', hs'', hy'⟩ := Pattern.find_eq_some (g := y'.1) (r := y'.2) hfind
      by_cases heq : m' = m
      · rw [heq, hread] at hs''
        cases hs''
        rw [← hfinish, hy']
      · rw [hother m' hm' heq] at hs''
        cases hs''

/-- A match that is read through keeps what stands before the word, or the extra part. -/
theorem finish_group {s g w s₁ v : List α} (hseparator : readAll l p.separator w = some s₁)
    (hbody : p.body l s₁ = v) (hv : l.starts v = true)
    (hs : s = g ++ if p.keepsExtra then v else s₁) :
    p.finish l s w = some (g, l.dropWord v) := by
  have htake : s.take (s.length - (if p.keepsExtra then v else s₁).length) = g := by
    rw [hs, List.length_append, Nat.add_sub_cancel, List.take_left]
  rw [Pattern.finish, hseparator, Option.bind_some, hbody, if_pos hv, htake]

/-- No match begins in a text whose letters are these. -/
def Pattern.Inert (p : Pattern α) (w : List α) : Prop :=
  ∀ w' ∈ w.tails, w' ≠ [] → ∀ m ∈ p.markers, clash m w' = true

theorem Pattern.inert_of_heads {w : List α}
    (h : ∀ c ∈ w, ∀ m ∈ p.markers, ∃ d ds, m = d :: ds ∧ d ≠ c) : p.Inert w := by
  intro w' hw' hne m hm
  obtain ⟨c, cs, rfl⟩ := List.exists_cons_of_ne_nil hne
  have hc : c ∈ w := ((List.mem_tails _ _).mp hw').subset (.head _)
  obtain ⟨d, ds, rfl, hd⟩ := h c hc m hm
  simp [clash, hd]

theorem clash_append {w k : List α} (h : clash w k = true) (k' : List α) :
    clash w (k ++ k') = true := by
  induction w generalizing k with
  | nil => cases h
  | cons d ds ih =>
    cases k with
    | nil => cases h
    | cons c cs =>
      rw [clash, Bool.or_eq_true] at h
      rw [List.cons_append, clash, Bool.or_eq_true]
      exact h.imp_right ih

theorem Pattern.Inert.append {v w : List α} (hv : p.Inert v) (hw : p.Inert w) :
    p.Inert (v ++ w) := by
  intro w' hw' hne m hm
  have hwhole := (List.mem_tails _ _).mp hw'
  rcases List.suffix_or_suffix_of_suffix hwhole (List.suffix_append v w) with hsuffix | ⟨v', rfl⟩
  · exact hw w' ((List.mem_tails _ _).mpr hsuffix) hne m hm
  · have hsuffix : v' <:+ v := List.suffix_append_self_iff.mp hwhole
    by_cases hv' : v' = []
    · rw [hv', List.nil_append] at hne ⊢
      exact hw w ((List.mem_tails _ _).mpr (List.suffix_refl w)) hne m hm
    · exact clash_append (hv v' ((List.mem_tails _ _).mpr hsuffix) hv' m hm) w

theorem sub_inert {k : List α} (h : p.Inert (k.map l.fold)) (t : List α) :
    p.sub l mask (k ++ t) = k ++ p.sub l mask t := by
  induction k with
  | nil => rfl
  | cons c cs ih =>
    have hself : (c :: cs).map l.fold ∈ ((c :: cs).map l.fold).tails :=
      (List.mem_tails _ _).mpr (List.suffix_refl _)
    have hnone : p.find l (c :: (cs ++ t)) = none :=
      find_clash (k := c :: cs) (h _ hself (by simp))
    have hrest : p.Inert (cs.map l.fold) := by
      intro w' hw'
      have hsuffix := (List.mem_tails _ _).mp hw'
      exact h w' ((List.mem_tails _ _).mpr (hsuffix.trans (List.suffix_cons _ _)))
    rw [List.cons_append, Pattern.sub_none hnone, ih hrest]
    rfl

/-! What becomes of a text's letters. -/

theorem Pattern.group_prefix {s g r : List α} (h : p.find l s = some (g, r)) : g <+: s := by
  obtain ⟨m, -, s', -, hfinish⟩ := find_eq_some h
  obtain ⟨s₁, -, -, rfl, -⟩ := finish_eq_some hfinish
  exact List.take_prefix _ s

theorem sub_mem {s : List α} {a : α} (h : a ∈ p.sub l mask s) : a ∈ s ∨ a ∈ mask := by
  induction s using Scanner.scan_induct (p.scanner l) with
  | nil => exact .inl h
  | skip c cs hnone ih =>
    rw [Pattern.sub_none hnone] at h
    rcases List.mem_cons.mp h with rfl | h
    · exact .inl (.head _)
    · exact (ih h).imp_left fun hmem => .tail _ hmem
  | found s g rest hfind ih =>
    obtain ⟨c, cs, hs⟩ := Pattern.find_reads hfind
    rw [Pattern.sub_found hfind] at h
    simp only [List.mem_append] at h
    rcases h with hg | hmask | hrest
    · exact .inl ((Pattern.group_prefix hfind).subset hg)
    · exact .inr hmask
    · apply (ih hrest).imp_left
      intro hmem
      rw [hs]
      exact List.mem_append_right _ hmem

/-- The first letter stays: it is passed over, or it is a marker's. -/
theorem sub_head (hmarkers : [] ∉ p.markers) (c : α) (cs : List α) :
    ∃ ds, p.sub l mask (c :: cs) = c :: ds := by
  cases h : p.find l (c :: cs) with
  | none => exact ⟨_, Pattern.sub_none h⟩
  | some y =>
    obtain ⟨g, r⟩ := y
    obtain ⟨m, hm, s', hread, hfinish⟩ := Pattern.find_eq_some h
    obtain ⟨s₁, hs₁, -, hg, -⟩ := Pattern.finish_eq_some hfinish
    obtain ⟨w, hw, hs⟩ := Alphabet.read_eq_some.mp hread
    have hwne : w ≠ [] := by
      rintro rfl
      rw [List.map_nil] at hw
      exact hmarkers (hw.symm ▸ hm)
    have hwlen : 0 < w.length := List.length_pos_iff.mpr hwne
    have hbody : (p.body l s₁).length ≤ s'.length :=
      ((p.body_suffix s₁).trans (readAll_suffix hs₁)).length_le
    have hs₁len : s₁.length ≤ s'.length := (readAll_suffix hs₁).length_le
    have hlen : (c :: cs).length = w.length + s'.length := by rw [hs, List.length_append]
    have hpos : (c :: cs).length - (if p.keepsExtra then p.body l s₁ else s₁).length ≠ 0 := by
      split_ifs <;> omega
    obtain ⟨n, hn⟩ := Nat.exists_eq_succ_of_ne_zero hpos
    rw [hn, List.take_succ_cons] at hg
    rw [Pattern.sub_found h, hg]
    exact ⟨_, rfl⟩

/-! Space at the end. -/

/-- Nothing that is more than space is left. -/
def spent (l : Alphabet α) (o : Option (List α)) : Prop := ∀ r, o = some r → l.Blank r

/-- The two readings, without and with `t` behind, go on together or not at all. -/
def Alongside (l : Alphabet α) (t : List α) (o o' : Option (List α)) : Prop :=
  (∃ r, o = some r ∧ o' = some (r ++ t)) ∨ (spent l o ∧ spent l o')

theorem spent_read {q : Piece α} {s : List α} (hs : l.Blank s) : spent l (q.read l s) := by
  intro r hr
  exact hs.suffix (q.read_suffix hr)

theorem spent_readAll {ps : List (Piece α)} {o : Option (List α)} (h : spent l o) :
    spent l (o.bind (readAll l ps)) := by
  intro r hr
  obtain ⟨s, hs, hread⟩ := Option.bind_eq_some_iff.mp hr
  exact (h s hs).suffix (readAll_suffix hread)

theorem read_blank (w u : List α) {t : List α} (ht : l.Blank t) :
    Alongside l t (l.read w u) (l.read w (u ++ t)) := by
  induction w generalizing u with
  | nil => exact .inl ⟨u, rfl, rfl⟩
  | cons d ds ih =>
    cases u with
    | nil =>
      apply Or.inr
      constructor
      · intro r hr
        cases hr
      · exact spent_read (q := .word (d :: ds)) ht
    | cons c cs =>
      by_cases hc : l.fold c = d
      · simpa [Alphabet.read, readWord, hc] using ih cs
      · apply Or.inr
        constructor <;>
          · intro r hr
            simp [Alphabet.read, readWord, hc] at hr

theorem piece_blank (q : Piece α) (u : List α) {t : List α} (ht : l.Blank t) :
    Alongside l t (q.read l u) (q.read l (u ++ t)) := by
  by_cases hu : l.Blank u
  · exact .inr ⟨spent_read hu, spent_read (hu.append ht)⟩
  have hdrop : l.dropSpaces (u ++ t) = l.dropSpaces u ++ t := by
    have hne : (u.dropWhile l.space).isEmpty = false := by
      rw [List.isEmpty_eq_false_iff]
      intro hnil
      exact hu (List.dropWhile_eq_nil_iff.mp hnil)
    rw [Alphabet.dropSpaces, Alphabet.dropSpaces, List.dropWhile_append, hne]
    rfl
  obtain ⟨c, cs, rfl⟩ : ∃ c cs, u = c :: cs := by
    cases u with
    | nil => exact absurd (by simp [Alphabet.Blank]) hu
    | cons c cs => exact ⟨c, cs, rfl⟩
  cases q with
  | word w => exact read_blank w _ ht
  | spaces => exact .inl ⟨_, rfl, congrArg some hdrop⟩
  | someSpaces =>
    by_cases hc : l.space c = true
    · have hdrop' : l.dropSpaces (cs ++ t) = l.dropSpaces cs ++ t := by
        simpa [Alphabet.dropSpaces, hc] using hdrop
      exact .inl ⟨l.dropSpaces cs, by simp [Piece.read, hc], by simp [Piece.read, hc, hdrop']⟩
    · apply Or.inr
      constructor <;>
        · intro r hr
          simp [Piece.read, hc] at hr
  | oneOf choices =>
    by_cases hc : c ∈ choices
    · exact .inl ⟨cs, by simp [Piece.read, hc], by simp [Piece.read, hc]⟩
    · apply Or.inr
      constructor <;>
        · intro r hr
          simp [Piece.read, hc] at hr
  | optional choices =>
    by_cases hc : c ∈ choices
    · exact .inl ⟨cs, by simp [Piece.read, hc], by simp [Piece.read, hc]⟩
    · exact .inl ⟨c :: cs, by simp [Piece.read, hc], by simp [Piece.read, hc]⟩

theorem readAll_blank (ps : List (Piece α)) (u : List α) {t : List α} (ht : l.Blank t) :
    Alongside l t (readAll l ps u) (readAll l ps (u ++ t)) := by
  induction ps generalizing u with
  | nil => exact .inl ⟨u, rfl, rfl⟩
  | cons q ps ih =>
    rcases piece_blank q u ht with ⟨r, hr, hr'⟩ | ⟨hspent, hspent'⟩
    · simp only [readAll, hr, hr', Option.bind_some]
      exact ih r
    · exact .inr ⟨spent_readAll hspent, spent_readAll hspent'⟩

theorem body_blank (u : List α) {t : List α} (ht : l.Blank t) :
    p.body l (u ++ t) = p.body l u ++ t := by
  have hspent : ∀ s, spent l (readAll l p.extra s) → p.body l s = s := by
    intro s hs
    cases h : readAll l p.extra s with
    | none => simp [Pattern.body, h]
    | some r => simp [Pattern.body, h, (hs r h).starts]
  rcases readAll_blank p.extra u ht with ⟨r, hr, hr'⟩ | ⟨hu, hut⟩
  · simp only [Pattern.body, hr, hr', starts_blank ht]
    split_ifs <;> rfl
  · rw [hspent u hu, hspent (u ++ t) hut]

theorem finish_blank {s v : List α} (hv : v <:+ s) {t : List α} (ht : l.Blank t) :
    p.finish l (s ++ t) (v ++ t) = (p.finish l s v).map fun y => (y.1, y.2 ++ t) := by
  have hspent : ∀ s v, spent l (readAll l p.separator v) → p.finish l s v = none := by
    intro s v hv
    cases h : readAll l p.separator v with
    | none => simp [Pattern.finish, h]
    | some r => simp [Pattern.finish, h, ((hv r h).suffix (p.body_suffix r)).starts]
  rcases readAll_blank p.separator v ht with ⟨r, hr, hr'⟩ | ⟨hu, hut⟩
  · have hrs : r <:+ s := (readAll_suffix hr).trans hv
    have hbs : p.body l r <:+ s := (p.body_suffix r).trans hrs
    simp only [Pattern.finish, hr, hr', Option.bind_some, body_blank r ht, starts_blank ht]
    by_cases hstarts : l.starts (p.body l r) = true
    · have htake : (if p.keepsExtra then p.body l r ++ t else r ++ t) =
          (if p.keepsExtra then p.body l r else r) ++ t := by split_ifs <;> rfl
      have hsuffix : (if p.keepsExtra then p.body l r else r) <:+ s := by
        split_ifs
        · exact hbs
        · exact hrs
      rw [if_pos hstarts, if_pos hstarts, htake, take_shared hsuffix, dropWord_blank ht.breaks]
      rfl
    · rw [if_neg hstarts, if_neg hstarts]
      rfl
  · rw [hspent _ _ hu, hspent _ _ hut]
    rfl

theorem find_blank (u : List α) {t : List α} (ht : l.Blank t) :
    p.find l (u ++ t) = (p.find l u).map fun y => (y.1, y.2 ++ t) := by
  have hmarker : ∀ m, (l.read m (u ++ t)).bind (p.finish l (u ++ t)) =
      ((l.read m u).bind (p.finish l u)).map fun y => (y.1, y.2 ++ t) := by
    intro m
    rcases read_blank m u ht with ⟨r, hr, hr'⟩ | ⟨hu, hut⟩
    · rw [hr, hr', Option.bind_some, Option.bind_some]
      exact finish_blank (Piece.read_suffix (p := .word m) hr) ht
    · have hnone : ∀ s s', (∀ r, s' = some r → l.Blank r) → s'.bind (p.finish l s) = none := by
        intro s s' hs'
        cases h : s' with
        | none => rfl
        | some r =>
          cases hfinish : p.finish l s r with
          | none => simp [hfinish]
          | some y =>
            obtain ⟨s₁, hs₁, hstarts, -, -⟩ := Pattern.finish_eq_some (g := y.1) (r := y.2) hfinish
            have hsuffix : p.body l s₁ <:+ r := (p.body_suffix s₁).trans (readAll_suffix hs₁)
            rw [((hs' r h).suffix hsuffix).starts] at hstarts
            cases hstarts
      rw [hnone _ _ hu, hnone _ _ hut]
      rfl
  unfold Pattern.find
  induction p.markers with
  | nil => rfl
  | cons m ms ih =>
    rw [List.findSome?_cons, List.findSome?_cons, hmarker m]
    cases (l.read m u).bind (p.finish l u) with
    | none => exact ih
    | some y => rfl

theorem sub_blank (u : List α) {t : List α} (ht : l.Blank t) :
    p.sub l mask (u ++ t) = p.sub l mask u ++ t := by
  have hself : p.sub l mask t = t := by
    induction t with
    | nil => rfl
    | cons c cs ih =>
      have hnone : p.find l ([] ++ c :: cs) = none := by
        rw [find_blank [] ht]
        cases h : p.find l ([] : List α) with
        | none => rfl
        | some y =>
          obtain ⟨d, ds, hd⟩ := Pattern.find_reads (g := y.1) (r := y.2) h
          cases hd
      rw [Pattern.sub_none hnone, ih (ht.suffix (List.suffix_cons c cs))]
  rw [Pattern.sub_append fun s' _ _ => find_blank s' ht, hself]

/-! A word that no part of the pattern under way goes on in. -/

def Piece.choices : Piece α → List α
  | oneOf choices => choices
  | optional choices => choices
  | _ => []

/-- The piece is not found at the head of `z`, nor the rest of it. -/
def Piece.Misses (l : Alphabet α) (z : List α) : Piece α → Prop
  | word w => ∀ w', w' <:+ w → w' ≠ [] → l.read w' z = none
  | q => ∀ c, z.head? = some c → c ∉ q.choices

structure Pattern.Fresh (l : Alphabet α) (p : Pattern α) (z : List α) : Prop where
  starts : l.starts z = true
  misses : ∀ q ∈ p.separator ++ p.extra, q.Misses l z
  unmarked : ∀ m ∈ p.markers, ∀ w, w <:+ m → w ≠ [] → w ≠ m →
    (l.read w z).bind (readAll l p.separator) = none

theorem read_fresh {w u z : List α} (hz : ∀ w', w' <:+ w → w' ≠ [] → l.read w' z = none) :
    l.read w (u ++ z) = (l.read w u).map (· ++ z) := by
  induction w generalizing u with
  | nil => rfl
  | cons d ds ih =>
    cases u with
    | nil => exact hz (d :: ds) (List.suffix_refl _) (List.cons_ne_nil _ _)
    | cons c cs =>
      by_cases hc : l.fold c = d
      · have htail := ih (u := cs) fun w' hw' => hz w' (hw'.trans (List.suffix_cons d ds))
        simpa [Alphabet.read, readWord, hc] using htail
      · simp [Alphabet.read, readWord, hc]

theorem piece_fresh {q : Piece α} {u z : List α} (hstarts : l.starts z = true)
    (hz : q.Misses l z) : q.read l (u ++ z) = (q.read l u).map (· ++ z) := by
  obtain ⟨c, cs, rfl, hc⟩ := Alphabet.starts_eq_true.mp hstarts
  cases q with
  | word w => exact read_fresh hz
  | spaces => exact congrArg some (dropSpaces_word hstarts)
  | someSpaces =>
    cases u with
    | nil => simp [Piece.read, hc]
    | cons d ds =>
      by_cases hd : l.space d = true
      · simp [Piece.read, hd, dropSpaces_word hstarts]
      · simp [Piece.read, hd]
  | oneOf choices =>
    have hmiss : c ∉ choices := hz c rfl
    cases u with
    | nil => simp [Piece.read, hmiss]
    | cons d ds =>
      by_cases hd : d ∈ choices
      · simp [Piece.read, hd]
      · simp [Piece.read, hd]
  | optional choices =>
    have hmiss : c ∉ choices := hz c rfl
    cases u with
    | nil => simp [Piece.read, hmiss]
    | cons d ds =>
      by_cases hd : d ∈ choices
      · simp [Piece.read, hd]
      · simp [Piece.read, hd]

theorem readAll_fresh {ps : List (Piece α)} {u z : List α} (hstarts : l.starts z = true)
    (hz : ∀ q ∈ ps, q.Misses l z) : readAll l ps (u ++ z) = (readAll l ps u).map (· ++ z) := by
  induction ps generalizing u with
  | nil => rfl
  | cons q ps ih =>
    rw [readAll, readAll, piece_fresh hstarts (hz q (.head _))]
    cases q.read l u with
    | none => rfl
    | some r => exact ih fun q hq => hz q (.tail _ hq)

/-- What a text reads up to a word behind it: a match that ends before the word, with what
is left in between, or one that takes the word. -/
inductive Reach (α : Type) where
  | before (group rest : List α)
  | past (group : List α)

def Reach.at (l : Alphabet α) (z : List α) : Reach α → List α × List α
  | before group rest => (group, rest ++ z)
  | past group => (group, l.dropWord z)

theorem body_fresh (p : Pattern α) (u : List α) :
    ∃ v, v <:+ u ∧ ∀ z, p.Fresh l z → p.body l (u ++ z) = v ++ z := by
  have hextra : ∀ z, p.Fresh l z → readAll l p.extra (u ++ z) = (readAll l p.extra u).map (· ++ z) :=
    fun z hz => readAll_fresh hz.starts fun q hq => hz.misses q (List.mem_append_right _ hq)
  cases h : readAll l p.extra u with
  | none =>
    refine ⟨u, List.suffix_refl u, fun z hz => ?_⟩
    simp [Pattern.body, hextra z hz, h]
  | some r =>
    by_cases hr : (r.isEmpty || l.starts r) = true
    · refine ⟨r, readAll_suffix h, fun z hz => ?_⟩
      simp [Pattern.body, hextra z hz, h, starts_word hz.starts, hr]
    · refine ⟨u, List.suffix_refl u, fun z hz => ?_⟩
      simp [Pattern.body, hextra z hz, h, starts_word hz.starts, hr]

theorem finish_fresh (p : Pattern α) {s u : List α} (hu : u <:+ s) :
    ∃ o : Option (Reach α), ∀ z, p.Fresh l z → p.finish l (s ++ z) (u ++ z) = o.map (Reach.at l z) := by
  have hseparator : ∀ z, p.Fresh l z →
      readAll l p.separator (u ++ z) = (readAll l p.separator u).map (· ++ z) :=
    fun z hz => readAll_fresh hz.starts fun q hq => hz.misses q (List.mem_append_left _ hq)
  cases h : readAll l p.separator u with
  | none =>
    refine ⟨none, fun z hz => ?_⟩
    simp [Pattern.finish, hseparator z hz, h]
  | some r =>
    obtain ⟨v, hv, hbody⟩ := body_fresh (l := l) p r
    have hrs : r <:+ s := (readAll_suffix h).trans hu
    by_cases hstarts : (v.isEmpty || l.starts v) = true
    · have hgroup : ∀ z, (s ++ z).take ((s ++ z).length -
          (if p.keepsExtra then v ++ z else r ++ z).length) =
          s.take (s.length - (if p.keepsExtra then v else r).length) := by
        intro z
        split_ifs
        · exact take_shared (hv.trans hrs) z
        · exact take_shared hrs z
      rcases dropWord_word (l := l) (u := v) with hdrop | hdrop
      · refine ⟨some (.past (s.take (s.length - (if p.keepsExtra then v else r).length))), ?_⟩
        intro z hz
        simp only [Pattern.finish, hseparator z hz, h, Option.map_some, Option.bind_some,
          hbody z hz, starts_word hz.starts, hstarts, if_true, hgroup, hdrop z hz.starts, Reach.at]
      · refine ⟨some (.before (s.take (s.length - (if p.keepsExtra then v else r).length))
          (l.dropWord v)), ?_⟩
        intro z hz
        simp only [Pattern.finish, hseparator z hz, h, Option.map_some, Option.bind_some,
          hbody z hz, starts_word hz.starts, hstarts, if_true, hgroup, hdrop z hz.starts, Reach.at]
    · refine ⟨none, fun z hz => ?_⟩
      simp [Pattern.finish, hseparator z hz, h, hbody z hz, starts_word hz.starts, hstarts]

/-- A marker is read before the word, or not at all, or the word has to begin with its end. -/
theorem read_over (w u : List α) :
    (∃ v, v <:+ u ∧ ∀ z, l.read w (u ++ z) = some (v ++ z)) ∨ (∀ z, l.read w (u ++ z) = none) ∨
      ∃ w', w' ≠ [] ∧ w' <:+ w ∧ (u ≠ [] → w' ≠ w) ∧ ∀ z, l.read w (u ++ z) = l.read w' z := by
  induction w generalizing u with
  | nil => exact .inl ⟨u, List.suffix_refl u, fun z => rfl⟩
  | cons d ds ih =>
    cases u with
    | nil =>
      exact .inr (.inr ⟨d :: ds, List.cons_ne_nil d ds, List.suffix_refl _, fun h => absurd rfl h,
        fun z => rfl⟩)
    | cons c cs =>
      by_cases hc : l.fold c = d
      · have hread : ∀ z, l.read (d :: ds) (c :: cs ++ z) = l.read ds (cs ++ z) := by
          intro z
          simp [Alphabet.read, readWord, hc]
        simp only [hread]
        rcases ih cs with ⟨v, hv, hsome⟩ | hnone | ⟨w', hne, hsuffix, -, heq⟩
        · exact .inl ⟨v, hv.trans (List.suffix_cons c cs), hsome⟩
        · exact .inr (.inl hnone)
        · refine .inr (.inr ⟨w', hne, hsuffix.trans (List.suffix_cons d ds), fun _ hself => ?_, heq⟩)
          have hlen := hsuffix.length_le
          rw [hself, List.length_cons] at hlen
          omega
      · right
        left
        intro z
        simp [Alphabet.read, readWord, hc]

theorem find_fresh (p : Pattern α) {u : List α} (hu : u ≠ []) :
    ∃ o : Option (Reach α), ∀ z, p.Fresh l z → p.find l (u ++ z) = o.map (Reach.at l z) := by
  have hmarker : ∀ m ∈ p.markers, ∃ o : Option (Reach α), ∀ z, p.Fresh l z →
      (l.read m (u ++ z)).bind (p.finish l (u ++ z)) = o.map (Reach.at l z) := by
    intro m hm
    rcases read_over (l := l) m u with ⟨v, hv, hread⟩ | hread | ⟨w', hne, hsuffix, hw', hread⟩
    · obtain ⟨o, ho⟩ := finish_fresh (l := l) p hv
      refine ⟨o, fun z hz => ?_⟩
      rw [hread, Option.bind_some, ho z hz]
    · refine ⟨none, fun z hz => ?_⟩
      rw [hread]
      rfl
    · refine ⟨none, fun z hz => ?_⟩
      have hnone := hz.unmarked m hm w' hsuffix hne (hw' hu)
      rw [hread]
      cases hr : l.read w' z with
      | none => rfl
      | some r =>
        rw [hr, Option.bind_some] at hnone
        rw [Option.bind_some, Pattern.finish, hnone]
        rfl
  have hlist : ∀ ms : List (List α), (∀ m ∈ ms, m ∈ p.markers) → ∃ o : Option (Reach α), ∀ z, p.Fresh l z →
      (ms.findSome? fun m => (l.read m (u ++ z)).bind (p.finish l (u ++ z))) =
        o.map (Reach.at l z) := by
    intro ms hms
    induction ms with
    | nil => exact ⟨none, fun z hz => rfl⟩
    | cons m ms ih =>
      obtain ⟨o, ho⟩ := hmarker m (hms m (.head _))
      obtain ⟨o', ho'⟩ := ih fun m' hm' => hms m' (.tail _ hm')
      cases o with
      | none =>
        refine ⟨o', fun z hz => ?_⟩
        rw [List.findSome?_cons, ho z hz]
        exact ho' z hz
      | some y =>
        refine ⟨some y, fun z hz => ?_⟩
        rw [List.findSome?_cons, ho z hz]
        rfl
  exact hlist p.markers fun m hm => hm

/-- A text before a word comes to the same whatever the word is: either it leaves the word
to be read by itself, or it ends in a match that takes it. -/
theorem sub_fresh (p : Pattern α) (mask u : List α) :
    ∃ v, (∀ z, p.Fresh l z → p.sub l mask (u ++ z) = v ++ p.sub l mask z) ∨
      ∀ z, p.Fresh l z → p.sub l mask (u ++ z) = v ++ (mask ++ p.sub l mask (l.dropWord z)) := by
  by_cases hfresh : ∃ z, p.Fresh l z
  · obtain ⟨z₀, hz₀⟩ := hfresh
    induction hn : u.length using Nat.strong_induction_on generalizing u with
    | _ n ih =>
      cases u with
      | nil => exact ⟨[], .inl fun z _ => rfl⟩
      | cons c cs =>
        obtain ⟨o, ho⟩ := find_fresh (l := l) p (List.cons_ne_nil c cs)
        cases o with
        | none =>
          obtain ⟨v, hv⟩ := ih cs.length (by simp [← hn]) cs rfl
          have hskip : ∀ z, p.Fresh l z →
              p.sub l mask (c :: cs ++ z) = c :: p.sub l mask (cs ++ z) :=
            fun z hz => Pattern.sub_none (ho z hz)
          refine ⟨c :: v, hv.imp (fun h z hz => ?_) fun h z hz => ?_⟩
          · rw [hskip z hz, h z hz]
            rfl
          · rw [hskip z hz, h z hz]
            rfl
        | some y =>
          cases y with
          | before g r =>
            have hlt : r.length < n := by
              obtain ⟨d, ds, hd⟩ := Pattern.find_reads (ho z₀ hz₀)
              have hlen := congrArg List.length hd
              simp only [List.length_append, List.length_cons] at hlen hn
              omega
            obtain ⟨v, hv⟩ := ih r.length hlt r rfl
            refine ⟨g ++ (mask ++ v), hv.imp (fun h z hz => ?_) fun h z hz => ?_⟩
            · rw [Pattern.sub_found (ho z hz), h z hz]
              simp only [List.append_assoc]
            · rw [Pattern.sub_found (ho z hz), h z hz]
              simp only [List.append_assoc]
          | past g => exact ⟨g, .inr fun z hz => Pattern.sub_found (ho z hz)⟩
  · exact ⟨[], .inl fun z hz => absurd ⟨z, hz⟩ hfresh⟩

/-! Words that can be seen to be such. -/

def Piece.words : Piece α → List (List α)
  | word w => [w]
  | _ => []

/-- A letter that is in no choice and no space ends the separator. -/
def separates : List (Piece α) → Bool
  | .spaces :: ps => separates ps
  | .optional _ :: ps => separates ps
  | .someSpaces :: _ => true
  | .oneOf _ :: _ => true
  | _ => false

/-- A word with these letters, folded, finishes no word of the pattern. -/
def Pattern.Clear (l : Alphabet α) (p : Pattern α) (key : List α) : Prop :=
  (∀ q ∈ p.separator ++ p.extra, ∀ c ∈ q.choices, l.fold c ∉ key) ∧
  (∀ q ∈ p.separator ++ p.extra, ∀ w ∈ q.words, ∀ w' ∈ w.tails, w' ≠ [] → clash w' key = true) ∧
  ∀ m ∈ p.markers, ∀ w ∈ m.tails, w ≠ [] → w ≠ m →
    clash w key = true ∨ (separates p.separator = true ∧ w.length < key.length ∧ w <+: key)

instance (p : Pattern α) (key : List α) : Decidable (p.Clear l key) :=
  inferInstanceAs (Decidable (_ ∧ _ ∧ _))

theorem readAll_separates {ps : List (Piece α)} (h : separates ps = true) {c : α} {cs : List α}
    (hspace : l.space c = false) (hchoices : ∀ q ∈ ps, c ∉ q.choices) :
    readAll l ps (c :: cs) = none := by
  induction ps with
  | nil => cases h
  | cons q ps ih =>
    have hrest : ∀ q ∈ ps, c ∉ q.choices := fun q hq => hchoices q (.tail _ hq)
    have hq : c ∉ q.choices := hchoices q (.head _)
    cases q with
    | word w => cases h
    | spaces =>
      have hstay : l.dropSpaces (c :: cs) = c :: cs := by simp [Alphabet.dropSpaces, hspace]
      rw [readAll, Piece.read, hstay]
      exact ih h hrest
    | someSpaces => simp [readAll, Piece.read, hspace]
    | oneOf choices =>
      have hmem : c ∉ choices := hq
      simp [readAll, Piece.read, hmem]
    | optional choices =>
      have hmem : c ∉ choices := hq
      rw [readAll, Piece.read, if_neg hmem]
      exact ih h hrest

theorem Pattern.Clear.fresh {key k : List α} (h : p.Clear l key) (hletters : l.Letters key)
    (hne : key ≠ []) (hk : k.map l.fold = key) (t : List α) : p.Fresh l (k ++ t) := by
  obtain ⟨hchoices, hwords, hmarkers⟩ := h
  have hsolid : ∀ c ∈ k, l.space c = false ∧ ∀ q ∈ p.separator ++ p.extra, c ∉ q.choices := by
    intro c hc
    have hmem : l.fold c ∈ key := hk ▸ List.mem_map_of_mem hc
    constructor
    · by_contra hspace
      exact hletters c (by simpa using hspace) hmem
    · intro q hq hchoice
      exact hchoices q hq c hchoice hmem
  have hclash : ∀ w, clash w key = true → l.read w (k ++ t) = none := by
    intro w hw
    exact read_clash (hk.symm ▸ hw)
  obtain ⟨c, cs, rfl⟩ : ∃ c cs, k = c :: cs := by
    cases k with
    | nil => exact absurd hk.symm hne
    | cons c cs => exact ⟨c, cs, rfl⟩
  constructor
  · simp [Alphabet.starts, (hsolid c (.head _)).1]
  · intro q hq
    cases q with
    | word w =>
      intro w' hw' hne'
      exact hclash w' (hwords _ hq w (.head _) w' ((List.mem_tails _ _).mpr hw') hne')
    | _ =>
      intro c' hc'
      cases hc'
      exact (hsolid c (.head _)).2 _ hq
  · intro m hm w hw hne' hm'
    rcases hmarkers m hm w ((List.mem_tails _ _).mpr hw) hne' hm' with hdiff | ⟨hsep, hlen, hkey⟩
    · rw [hclash w hdiff]
      rfl
    · -- The word has begun with the end of a marker, and goes on as no separator does.
      obtain ⟨more, hmore⟩ := hkey
      rw [← hmore] at hk
      obtain ⟨k₁, k₂, hk₁₂, hw₁, hk₂⟩ := List.map_eq_append_iff.mp hk
      have hread : l.read w (c :: cs ++ t) = some (k₂ ++ t) :=
        Alphabet.read_eq_some.mpr ⟨k₁, hw₁, by rw [hk₁₂, List.append_assoc]⟩
      obtain ⟨e, es, rfl⟩ : ∃ e es, k₂ = e :: es := by
        cases k₂ with
        | nil =>
          rw [← hmore, ← hk₂, List.length_append] at hlen
          simp at hlen
        | cons e es => exact ⟨e, es, rfl⟩
      have hmem : e ∈ c :: cs := hk₁₂ ▸ List.mem_append_right k₁ (.head es)
      rw [hread, Option.bind_some]
      exact readAll_separates hsep (hsolid e hmem).1
        fun q hq => (hsolid e hmem).2 q (List.mem_append_left _ hq)

/-! A letter that tells whether a word would be taken. -/

/-- The letter begins and ends nothing, and the mask does not end in it. -/
structure Probe (l : Alphabet α) (p : Pattern α) (mask : List α) (x : α) : Prop where
  fresh : p.Fresh l [x]
  alone : p.find l [x] = none
  last : ∃ m b, mask = m ++ [b] ∧ b ≠ x

/-- The text ends in a match that takes the word behind it. -/
def Pattern.opened (l : Alphabet α) (p : Pattern α) (mask : List α) (x : α) (u : List α) : Bool :=
  decide ((p.sub l mask (u ++ [x])).getLast? ≠ some x)

/-- What becomes of a text whose last match does not take the word behind it. -/
def Pattern.kept (l : Alphabet α) (p : Pattern α) (mask : List α) (x : α) (u : List α) : List α :=
  (p.sub l mask (u ++ [x])).dropLast

/-- What becomes of a text whose last match takes the word behind it. -/
def Pattern.taken (l : Alphabet α) (p : Pattern α) (mask : List α) (x : α) (u : List α) : List α :=
  p.sub l mask (u ++ [x])

theorem Probe.sub_cases {x : α} (hx : Probe l p mask x) (u : List α) :
    (p.opened l mask x u = false ∧
      ∀ z, p.Fresh l z → p.sub l mask (u ++ z) = p.kept l mask x u ++ p.sub l mask z) ∨
    (p.opened l mask x u = true ∧ (∃ v, p.taken l mask x u = v ++ mask) ∧
      ∀ z, p.Fresh l z →
        p.sub l mask (u ++ z) = p.taken l mask x u ++ p.sub l mask (l.dropWord z)) := by
  have halone : p.sub l mask [x] = [x] := Pattern.sub_none hx.alone
  have hdrop : l.dropWord [x] = [] := by
    obtain ⟨c, cs, hc, hspace⟩ := Alphabet.starts_eq_true.mp hx.fresh.starts
    cases hc
    simp [Alphabet.dropWord, hspace]
  obtain ⟨m, b, hmask, hb⟩ := hx.last
  obtain ⟨v, h | h⟩ := sub_fresh (l := l) p mask u
  · have hprobe := h [x] hx.fresh
    rw [halone] at hprobe
    have hkept : p.kept l mask x u = v := by rw [Pattern.kept, hprobe, List.dropLast_concat]
    refine .inl ⟨?_, fun z hz => by rw [hkept, h z hz]⟩
    simp [Pattern.opened, hprobe]
  · have hprobe := h [x] hx.fresh
    rw [hdrop, Pattern.sub_nil, List.append_nil] at hprobe
    refine .inr ⟨?_, ⟨v, hprobe⟩, fun z hz => ?_⟩
    · rw [Pattern.opened, hprobe, hmask, ← List.append_assoc]
      simp [hb]
    · rw [Pattern.taken, hprobe, h z hz, List.append_assoc]

/-- Behind a letter that finishes nothing, where a word ends, a text is cut. -/
theorem sub_closed {b : α} {m : List α} (hmask : mask = m ++ [b])
    (hfresh : ∀ t, p.Fresh l (b :: t)) (hnone : ∀ t, p.find l (b :: t) = none) (u : List α) :
    ∃ v, ∀ t, l.Breaks t → p.sub l mask (u ++ b :: t) = v ++ b :: p.sub l mask t := by
  obtain ⟨v, h | h⟩ := sub_fresh (l := l) p mask u
  · refine ⟨v, fun t _ => ?_⟩
    rw [h _ (hfresh t), Pattern.sub_none (hnone t)]
  · refine ⟨v ++ m, fun t ht => ?_⟩
    have hspace : l.space b = false := by
      obtain ⟨c, cs, hc, hspace⟩ := Alphabet.starts_eq_true.mp (hfresh t).starts
      cases hc
      exact hspace
    have hdrop : l.dropWord (b :: t) = t := by
      have hblank := dropWord_blank (l := l) (u := [b]) ht
      simpa [Alphabet.dropWord, hspace] using hblank
    rw [h _ (hfresh t), hdrop, hmask]
    simp only [List.append_assoc, List.singleton_append]

end Foundation
