import DataLake.Foundation.Scanner
import DataLake.Mapping

/-! What stands at a dotted path, and the two modes of the mapping. -/

namespace DataLake

open Foundation

/-- The walk along the keys ends at the value. -/
inductive Json.At : List Text → Json → Json → Prop where
  | here (value : Json) : At [] value value
  | there {part : Text} {parts : List Text} {fields : List (Text × Json)} {value value' : Json} :
      fields.lookup part = some value → At parts value value' → At (part :: parts) (.obj fields) value'

/-- The value is present at the path, where a present `null` is a value. -/
def Present (record : Json) (path : Text) (value : Json) : Prop :=
  Json.At (path.splitOn '.') record value

def Missing (record : Json) (path : Text) : Prop := ∀ value, ¬ Present record path value

theorem walkPath_found {parts : List Text} {value value' : Json} :
    walkPath parts value = (value', true) ↔ Json.At parts value value' := by
  induction parts generalizing value with
  | nil =>
    constructor
    · rintro ⟨⟩
      exact .here _
    · rintro ⟨⟩
      rfl
  | cons part parts ih =>
    constructor
    · intro h
      cases value with
      | obj fields =>
        rw [walkPath] at h
        cases hlookup : fields.lookup part with
        | none => simp [hlookup] at h
        | some next =>
          rw [hlookup] at h
          exact .there hlookup (ih.mp h)
      | _ => simp [walkPath] at h
    · intro h
      cases h with
      | there hlookup h =>
        rw [walkPath, hlookup]
        exact ih.mpr h

theorem getByPath_found {record value : Json} {path : Text} :
    getByPath record path = (value, true) ↔ Present record path value := walkPath_found

theorem getByPath_missing {record : Json} {path : Text} :
    (getByPath record path).2 = false ↔ Missing record path := by
  constructor
  · intro h value hvalue
    rw [getByPath_found.mpr hvalue] at h
    cases h
  · intro h
    cases hfound : (getByPath record path).2 with
    | false => rfl
    | true => exact absurd (getByPath_found.mp (Prod.ext rfl hfound)) (h _)

theorem Present.unique {record value value' : Json} {path : Text} (h : Present record path value)
    (h' : Present record path value') : value = value' := by
  have heq := (getByPath_found.mpr h).symm.trans (getByPath_found.mpr h')
  cases heq
  rfl

/-- What a column of the mapping makes of a record. -/
def CellOf (strict : Bool) (record : Json) (column : Text × Text) (cell : Text × Json) : Prop :=
  cell.1 = column.1 ∧ (Present record column.2 cell.2 ∨
    (strict = false ∧ Missing record column.2 ∧ cell.2 = .null))

/-- A row has one cell for each column, in the order of the mapping. -/
def RowOf (mapping : DestinationMapping) (strict : Bool) (record : Json) (row : Row) : Prop :=
  (∃ fields, record = .obj fields) ∧ List.Forall₂ (CellOf strict record) mapping row

variable {mapping : DestinationMapping} {strict : Bool} {record : Json} {row : Row}

theorem mapColumn_ok {column : Text × Text} {cell : Text × Json} :
    mapColumn record strict column = .ok cell ↔ CellOf strict record column cell := by
  obtain ⟨name, value⟩ := cell
  unfold mapColumn CellOf
  cases hpath : getByPath record column.2 with
  | mk value' found =>
    cases found with
    | true =>
      have hpresent := getByPath_found.mp hpath
      constructor
      · rintro ⟨⟩
        exact ⟨rfl, .inl hpresent⟩
      · rintro ⟨rfl, hvalue | ⟨-, hmissing, -⟩⟩
        · rw [hpresent.unique hvalue]
        · exact absurd hpresent (hmissing _)
    | false =>
      have hmissing := getByPath_missing.mp (congrArg Prod.snd hpath)
      cases strict with
      | true => exact iff_of_false nofun (by rintro ⟨-, hvalue | ⟨⟨⟩, -⟩⟩; exact hmissing _ hvalue)
      | false =>
        constructor
        · rintro ⟨⟩
          exact ⟨rfl, .inr ⟨rfl, hmissing, rfl⟩⟩
        · rintro ⟨rfl, hvalue | ⟨-, -, rfl⟩⟩
          · exact absurd hvalue (hmissing _)
          · rfl

theorem mapRecord_ok : mapRecord mapping strict record = .ok row ↔ RowOf mapping strict record row := by
  unfold mapRecord RowOf
  cases record with
  | obj fields =>
    simp only [mapM_eq_ok, mapColumn_ok]
    exact ⟨fun h => ⟨⟨fields, rfl⟩, h⟩, fun h => h.2⟩
  | _ => exact iff_of_false nofun (by rintro ⟨⟨_, ⟨⟩⟩, -⟩)

theorem mapRecords_ok {records : List Json} {rows : List Row} :
    mapRecords records mapping strict = .ok rows ↔
      List.Forall₂ (RowOf mapping strict) records rows := by
  simp only [mapRecords, mapM_eq_ok, mapRecord_ok]

theorem RowOf.columns (h : RowOf mapping strict record row) :
    row.map Prod.fst = mapping.map Prod.fst := by
  obtain ⟨-, h⟩ := h
  induction h with
  | nil => rfl
  | cons hcell _ ih => rw [List.map_cons, List.map_cons, hcell.1, ih]

theorem RowOf.permissive (h : RowOf mapping true record row) : RowOf mapping false record row :=
  ⟨h.1, h.2.imp fun _ _ hcell =>
    ⟨hcell.1, .inl (hcell.2.resolve_right fun hmissing => nomatch hmissing.1)⟩⟩

/-- In strict mode a value of a row is one of the record. -/
theorem RowOf.present (h : RowOf mapping true record row) {cell : Text × Json} (hmem : cell ∈ row) :
    ∃ path, (cell.1, path) ∈ mapping ∧ Present record path cell.2 := by
  obtain ⟨column, hcolumn, hname, hvalue⟩ := exists_of_forall₂ h.2.flip hmem
  refine ⟨column.2, ?_, hvalue.resolve_right fun hmissing => nomatch hmissing.1⟩
  rwa [hname]

theorem mapColumn_error {column : Text × Text} :
    (∃ e, mapColumn record strict column = .error e) ↔ strict = true ∧ Missing record column.2 := by
  rw [← getByPath_missing]
  unfold mapColumn
  cases getByPath record column.2 with
  | mk value found => cases found <;> cases strict <;> simp

theorem mapRecord_error : (∃ e, mapRecord mapping strict record = .error e) ↔
    (¬ ∃ fields, record = .obj fields) ∨
      (strict = true ∧ ∃ column ∈ mapping, Missing record column.2) := by
  unfold mapRecord
  cases record with
  | obj fields =>
    rw [exists_mapM_error]
    simp only [mapColumn_error]
    constructor
    · rintro ⟨column, hmem, hstrict, hmissing⟩
      exact .inr ⟨hstrict, column, hmem, hmissing⟩
    · rintro (hobject | ⟨hstrict, column, hmem, hmissing⟩)
      · exact absurd ⟨fields, rfl⟩ hobject
      · exact ⟨column, hmem, hstrict, hmissing⟩
  | _ => exact iff_of_true ⟨_, rfl⟩ (.inl (by rintro ⟨_, ⟨⟩⟩))

theorem mapRecords_error {records : List Json} :
    (∃ e, mapRecords records mapping strict = .error e) ↔
      ∃ record ∈ records, (¬ ∃ fields, record = .obj fields) ∨
        (strict = true ∧ ∃ column ∈ mapping, Missing record column.2) := by
  rw [mapRecords, exists_mapM_error]
  simp only [mapRecord_error]

/-- The two modes differ in what is missing only: the strict one refuses it, and what it
accepts it maps as the permissive one does. -/
theorem strict_refines_permissive (records : List Json) (mapping : DestinationMapping) :
    (∀ strict rows, mapRecords records mapping strict = .ok rows →
      rows.length = records.length ∧ List.Forall₂ (RowOf mapping strict) records rows ∧
        ∀ row ∈ rows, row.map Prod.fst = mapping.map Prod.fst) ∧
    ((∃ e, mapRecords records mapping false = .error e) ↔
      ∃ record ∈ records, ¬ ∃ fields, record = .obj fields) ∧
    ((∃ e, mapRecords records mapping true = .error e) ↔
      (∃ e, mapRecords records mapping false = .error e) ∨
        ∃ record ∈ records, ∃ column ∈ mapping, Missing record column.2) ∧
    ∀ rows, mapRecords records mapping true = .ok rows →
      mapRecords records mapping false = .ok rows ∧
      List.Forall₂ (fun record row => ∀ name, (name, .null) ∈ row →
        ∃ path, (name, path) ∈ mapping ∧ Present record path .null) records rows := by
  refine ⟨fun strict rows h => ?_, ?_, ?_, fun rows h => ?_⟩
  · have hrows := mapRecords_ok.mp h
    refine ⟨hrows.length_eq.symm, hrows, fun row hrow => ?_⟩
    obtain ⟨_, -, hrow⟩ := exists_of_forall₂ hrows.flip hrow
    exact RowOf.columns hrow
  · simp [mapRecords_error]
  · simp only [mapRecords_error, true_and, false_and, Bool.false_eq_true, or_false]
    constructor
    · rintro ⟨record, hmem, hobject | hmissing⟩
      · exact .inl ⟨record, hmem, hobject⟩
      · exact .inr ⟨record, hmem, hmissing⟩
    · rintro (⟨record, hmem, hobject⟩ | ⟨record, hmem, hmissing⟩)
      · exact ⟨record, hmem, .inl hobject⟩
      · exact ⟨record, hmem, .inr hmissing⟩
  · have hrows := mapRecords_ok.mp h
    exact ⟨mapRecords_ok.mpr (hrows.imp fun _ _ hrow => hrow.permissive),
      hrows.imp fun _ _ hrow _ hmem => @RowOf.present _ _ _ hrow (_, .null) hmem⟩

end DataLake
