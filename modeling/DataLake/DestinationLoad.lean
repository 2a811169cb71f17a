import DataLake.Foundation.Sessions
import DataLake.SqlServerDestination
import DataLake.StrictMapping

/-! A load takes all of its records into the table, in their order, or none of them. -/

namespace DataLake

open Foundation

/-! The table. -/

/-- The records name the same columns. -/
def EqualKeys (records : List Row) : Prop :=
  ∀ record ∈ records, ∀ record' ∈ records, ∀ key,
    key ∈ record.map Prod.fst → key ∈ record'.map Prod.fst

/-- What an insert of several records stores: the columns of the first one, of each. -/
def insertedRows : List Row → List Row
  | [] => []
  | first :: rest => (first :: rest).map fun record =>
      record.filter fun cell => cell.1 ∈ first.map Prod.fst

structure TableState where
  rows : List Row
  /-- The rows that the open transaction has inserted. -/
  uncommitted : List Row := []

/-- A commit that raises has stored nothing, a rollback drops what is not committed. -/
def TableState.after (s : TableState) (call : Call LoadSig) : TableState :=
  match call with
  | ⟨.insert batch, .ok ()⟩ => { s with uncommitted := s.uncommitted ++ insertedRows batch }
  | ⟨.insert batch, .error (_, n)⟩ =>
    { s with uncommitted := s.uncommitted ++ (insertedRows batch).take n }
  | ⟨.commit, .ok ()⟩ => { rows := s.rows ++ s.uncommitted }
  | ⟨.commit, .error _⟩ => { s with uncommitted := [] }
  | ⟨.rollback, _⟩ => { s with uncommitted := [] }
  | _ => s

/-- The table that the calls leave. -/
def tableAfter (table : List Row) (calls : List (Call LoadSig)) : TableState :=
  calls.foldl TableState.after { rows := table }

theorem tableAfter_snoc (table : List Row) (calls : List (Call LoadSig)) (call : Call LoadSig) :
    tableAfter table (calls ++ [call]) = (tableAfter table calls).after call := by
  rw [tableAfter, List.foldl_append]
  rfl

theorem insertedRows_eq {records : List Row} (h : EqualKeys records) :
    insertedRows records = records := by
  cases records with
  | nil => rfl
  | cons first rest =>
    unfold insertedRows
    conv_rhs => rw [← List.map_id (first :: rest)]
    refine List.map_congr_left fun record hrecord => List.filter_eq_self.mpr fun cell hcell => ?_
    exact decide_eq_true (h record hrecord first (.head _) _ (List.mem_map_of_mem hcell))

theorem EqualKeys.subset {records records' : List Row} (h : EqualKeys records)
    (hsub : records' ⊆ records) : EqualKeys records' :=
  fun _ hrecord _ hrecord' => h _ (hsub hrecord) _ (hsub hrecord')

/-- The records that the mapping makes have equal keys. -/
theorem mapRecords_equalKeys {records : List Json} {mapping : DestinationMapping} {strict : Bool}
    {rows : List Row} (h : mapRecords records mapping strict = .ok rows) : EqualKeys rows := by
  have hcolumns : ∀ row ∈ rows, row.map Prod.fst = mapping.map Prod.fst := by
    intro row hrow
    obtain ⟨_, -, hrow⟩ := exists_of_forall₂ (mapRecords_ok.mp h).flip hrow
    exact RowOf.columns hrow
  intro row hrow row' hrow' key hkey
  rwa [hcolumns row' hrow', ← hcolumns row hrow]

/-! The batches. -/

def batchesOf (records : List Row) (batchSize : Nat) (starts : List Nat) : List (List Row) :=
  starts.map fun start => (records.drop start).take batchSize

theorem batchesOf_range (records : List Row) (batchSize k : Nat) :
    (batchesOf records batchSize ((List.range k).map (· * batchSize))).flatten =
      records.take (k * batchSize) := by
  induction k with
  | zero => simp [batchesOf]
  | succ k ih =>
    unfold batchesOf at ih ⊢
    rw [List.range_succ, List.map_append, List.map_append, List.flatten_append, ih, Nat.succ_mul,
      List.take_add]
    simp

/-- The batches are the records, none left out and none twice. -/
theorem batchesOf_flatten (records : List Row) {batchSize : Nat} (h : 0 < batchSize) :
    (batchesOf records batchSize (batchStarts records.length batchSize)).flatten = records := by
  rw [batchStarts, batchesOf_range]
  refine List.take_of_length_le ?_
  have hdiv := Nat.div_add_mod (records.length + batchSize - 1) batchSize
  have hmod := Nat.mod_lt (records.length + batchSize - 1) h
  rw [Nat.mul_comm] at hdiv
  omega

/-! One load. -/

/-- The table that a load writes into. -/
structure Destination where
  columns : List Text
  rows : List Row

/-- A reflection that does not raise gives the columns that there are. -/
def Destination.Answers (destination : Destination) : (op : LoadOp) → LoadSig.Resp op → Prop
  | .reflectTable _ _, .ok columns => columns = destination.columns
  | _, _ => True

/-- Every column of the records is one of the table. -/
def Covers (columns : List Text) (records : List Row) : Prop :=
  ∀ record ∈ records, ∀ cell ∈ record, cell.1 ∈ columns

/-- A call that raises. -/
def CallFailed : Call LoadSig → Prop
  | ⟨.createEngine _, .error _⟩ | ⟨.reflectTable _ _, .error _⟩ | ⟨.beginTransaction, .error _⟩
  | ⟨.insert _, .error _⟩ | ⟨.commit, .error _⟩ => True
  | _ => False

def Failed (calls : List (Call LoadSig)) : Prop := ∃ call ∈ calls, CallFailed call

def Uninserted (calls : List (Call LoadSig)) : Prop :=
  ∀ batch answer, ⟨.insert batch, answer⟩ ∉ calls

/-- No batch is longer than the setting allows. -/
def Bounded (batchSize : Nat) (op : LoadOp) : Prop :=
  ∀ batch, op = .insert batch → batch.length ≤ batchSize

theorem Failed.append {calls : List (Call LoadSig)} (h : Failed calls) (calls' : List (Call LoadSig)) :
    Failed (calls ++ calls') := by
  obtain ⟨call, hmem, hfailed⟩ := h
  exact ⟨call, List.mem_append_left _ hmem, hfailed⟩

theorem failed_snoc {call : Call LoadSig} (h : CallFailed call) (calls : List (Call LoadSig)) :
    Failed (calls ++ [call]) := ⟨call, List.mem_append_right _ (.head _), h⟩

theorem Uninserted.dispose {calls : List (Call LoadSig)} (h : Uninserted calls) :
    Uninserted (calls ++ [⟨.dispose, ()⟩]) := by
  intro batch answer hmem
  rcases List.mem_append.mp hmem with hmem | hmem
  · exact h batch answer hmem
  · cases List.mem_singleton.mp hmem

section Load

variable {records : List Row} {destination : Destination} {batchSize : Nat} {α : Type}

abbrev LoadAlong (destination : Destination) (batchSize : Nat) (p : LoadProg α)
    (Q : List (Call LoadSig) → Except LoadExc α → Prop) (calls : List (Call LoadSig)) : Prop :=
  p.Along destination.Answers (fun _ => Bounded batchSize) Q calls

theorem insertBatches_along (hkeys : EqualKeys records) {starts : List Nat} {totalLoaded : Nat}
    {calls : List (Call LoadSig)} {table uncommitted : List Row}
    (htable : tableAfter table calls = ⟨table, uncommitted⟩) :
    LoadAlong destination batchSize (insertBatches records batchSize starts totalLoaded)
      (fun calls out => (tableAfter table calls).rows = table ∧
        match out with
        | .ok n => n = totalLoaded + (batchesOf records batchSize starts).flatten.length ∧
            (tableAfter table calls).uncommitted =
              uncommitted ++ (batchesOf records batchSize starts).flatten
        | .error e => Failed calls ∧ ∃ x, e = .db x) calls := by
  induction starts generalizing totalLoaded calls uncommitted with
  | nil => exact ⟨by rw [htable], by simp [batchesOf], by simp [batchesOf, htable]⟩
  | cons start starts ih =>
    have hbatch : EqualKeys ((records.drop start).take batchSize) :=
      hkeys.subset (List.Subset.trans (List.take_subset _ _) (List.drop_subset _ _))
    refine ⟨?_, fun answer _ => ?_⟩
    · rintro _ ⟨⟩
      exact List.length_take_le _ _
    · cases answer with
      | error x => exact ⟨by rw [tableAfter_snoc, htable]; rfl, failed_snoc (by trivial) _, _, rfl⟩
      | ok =>
        have htable' : tableAfter table (calls ++
            [⟨.insert ((records.drop start).take batchSize), .ok ()⟩]) =
              ⟨table, uncommitted ++ (records.drop start).take batchSize⟩ := by
          rw [tableAfter_snoc, htable]
          show (⟨table, _⟩ : TableState) = _
          rw [insertedRows_eq hbatch]
        refine (ih htable').imp fun calls' out h => ⟨h.1, ?_⟩
        cases out with
        | error e => exact h.2
        | ok n =>
          obtain ⟨hn, hrows⟩ := h.2
          rw [hn, hrows]
          simp [batchesOf, Nat.add_assoc]

/-- The records are in the table after what was there, or the table is as it was. -/
def LoadStored (destination : Destination) (records : List Row) (calls : List (Call LoadSig)) :
    Except LoadExc Nat → Prop
  | .ok n => n = records.length ∧
      (tableAfter destination.rows calls).rows = destination.rows ++ records
  | .error _ => (tableAfter destination.rows calls).rows = destination.rows

/-- The error tells that the table lacks a column, or a call has raised. -/
def MismatchTold (calls : List (Call LoadSig)) (out : Except LoadExc Nat) : Prop :=
  (∃ message, out = .error (.dataLake (schemaMismatchError message) none)) ∨ Failed calls

/-- What the body of a load leaves, before the exceptions are classified. -/
structure BodyLaw (destination : Destination) (records : List Row) (calls : List (Call LoadSig))
    (out : Except LoadExc Nat) : Prop where
  stored : LoadStored destination records calls out
  mismatch : ¬ Covers destination.columns records → Uninserted calls ∧ MismatchTold calls out
  raised : ∀ e, out = .error e → Covers destination.columns records → Failed calls
  cause : ∀ e cause, out = .error (.dataLake e cause) →
    e.retryable = false ∧ ∀ message, cause ≠ some (.sql .operational message)

theorem checked_along {β : Type} {answer : Except DbExc β} {f : β → LoadProg α}
    {Q : List (Call LoadSig) → Except LoadExc α → Prop} {calls : List (Call LoadSig)}
    (herror : ∀ e, answer = .error e → Q calls (.error (.db e)))
    (hok : ∀ a, answer = .ok a → LoadAlong destination batchSize (f a) Q calls) :
    LoadAlong destination batchSize (checked answer >>= f) Q calls := by
  cases answer with
  | error e => exact herror e rfl
  | ok a => exact hok a rfl

/-- A body that a call has ended. -/
theorem bodyLaw_failed {calls : List (Call LoadSig)} {e : LoadExc}
    (hcovers : Covers destination.columns records)
    (hrows : (tableAfter destination.rows calls).rows = destination.rows) (hfailed : Failed calls)
    (he : ∃ x, e = .db x) : BodyLaw destination records calls (.error e) := by
  obtain ⟨x, rfl⟩ := he
  exact ⟨hrows, fun h => absurd hcovers h, fun _ _ _ => hfailed, nofun⟩

/-- The transaction is committed as a whole, or what it has inserted is dropped. -/
theorem inTransaction_along (hkeys : EqualKeys records) (hbatch : 0 < batchSize)
    (hcovers : Covers destination.columns records) {calls : List (Call LoadSig)}
    (htable : tableAfter destination.rows calls = ⟨destination.rows, []⟩) :
    LoadAlong destination batchSize (inTransaction (insertBatches records batchSize
      (batchStarts records.length batchSize) 0)) (BodyLaw destination records) calls := by
  refine ⟨nofun, fun answer _ => ?_⟩
  have htable₁ : tableAfter destination.rows (calls ++ [⟨.beginTransaction, answer⟩]) =
      ⟨destination.rows, []⟩ := by
    rw [tableAfter_snoc, htable]
    rfl
  refine checked_along (fun e he => ?_) fun _ _ => ?_
  · subst he
    exact bodyLaw_failed hcovers (by rw [htable₁]) (failed_snoc (by trivial) _) ⟨e, rfl⟩
  refine (insertBatches_along hkeys htable₁).handle ?_ ?_
  · rintro calls n ⟨hrows, hn, hinserted⟩
    rw [batchesOf_flatten records hbatch] at hn hinserted
    refine ⟨nofun, fun answer _ => ?_⟩
    cases answer with
    | ok =>
      refine ⟨⟨by simpa using hn, ?_⟩, fun h => absurd hcovers h, nofun, nofun⟩
      rw [tableAfter_snoc]
      show (tableAfter destination.rows calls).rows ++
        (tableAfter destination.rows calls).uncommitted = _
      rw [hrows, hinserted, List.nil_append]
    | error e =>
      refine ⟨nofun, fun _ _ => bodyLaw_failed hcovers ?_ ((failed_snoc (by trivial) _).append _) ⟨e, rfl⟩⟩
      rw [tableAfter_snoc, tableAfter_snoc]
      exact hrows
  · rintro calls e ⟨hrows, hfailed, hdb⟩
    refine ⟨nofun, fun _ _ => bodyLaw_failed hcovers ?_ (hfailed.append _) hdb⟩
    rw [tableAfter_snoc]
    exact hrows

theorem validateColumns_cases {columns : List Text} {schemaName tableName : Text} :
    (validateColumns columns records schemaName tableName = .ok () ∧ Covers columns records) ∨
    (∃ message, validateColumns columns records schemaName tableName =
      .error (schemaMismatchError message) ∧ ¬ Covers columns records) := by
  have hcolumns : (recordColumns records).filter (· ∉ columns) = [] ↔ Covers columns records := by
    simp only [List.filter_eq_nil_iff, recordColumns, List.mem_flatMap, List.mem_map,
      decide_eq_true_eq, not_not]
    exact ⟨fun h record hrecord cell hcell => h _ ⟨record, hrecord, cell, hcell, rfl⟩,
      fun h _ ⟨record, hrecord, cell, hcell, heq⟩ => heq ▸ h record hrecord cell hcell⟩
  unfold validateColumns
  by_cases h : (recordColumns records).filter (· ∉ columns) = []
  · exact .inl ⟨if_pos h, hcolumns.mp h⟩
  · exact .inr ⟨_, if_neg h, fun hall => h (hcolumns.mpr hall)⟩

/-- What is done with an engine, up to its disposal. -/
theorem body_along (hkeys : EqualKeys records) (hbatch : 0 < batchSize) (url : EngineUrl)
    (schemaName tableName : Text) :
    LoadAlong destination batchSize
      (do
        let columns ← reflectTable schemaName tableName
        refuse (validateColumns columns records schemaName tableName)
        inTransaction (insertBatches records batchSize
          (batchStarts records.length batchSize) 0))
      (BodyLaw destination records) [⟨.createEngine url, .ok ()⟩] := by
  refine ⟨nofun, fun answer hanswer => ?_⟩
  have huninserted : Uninserted ([⟨.createEngine url, .ok ()⟩] ++
      [⟨.reflectTable schemaName tableName, answer⟩]) := by
    intro batch answer'
    simp
  cases answer with
  | error e =>
    have hfailed : Failed ([⟨.createEngine url, .ok ()⟩] ++
        [⟨.reflectTable schemaName tableName, .error e⟩]) := failed_snoc (by trivial) _
    have hlaw : ∀ e', (∀ e'' cause, (.error e' : Except LoadExc Nat) = .error (.dataLake e'' cause) →
        e''.retryable = false ∧ ∀ message, cause ≠ some (.sql .operational message)) →
        BodyLaw destination records ([⟨.createEngine url, .ok ()⟩] ++
          [⟨.reflectTable schemaName tableName, .error e⟩]) (.error e') :=
      fun e' hcause => ⟨rfl, fun _ => ⟨huninserted, .inr hfailed⟩, fun _ _ _ => hfailed, hcause⟩
    cases e with
    | other message => exact hlaw _ nofun
    | sql kind message =>
      cases kind with
      | noSuchTable =>
        refine hlaw _ ?_
        rintro _ _ ⟨⟩
        exact ⟨rfl, nofun⟩
      | _ => exact hlaw _ nofun
  | ok columns =>
    obtain rfl : columns = destination.columns := hanswer
    show LoadAlong destination batchSize
      (refuse (validateColumns destination.columns records schemaName tableName) >>= _) _ _
    rcases @validateColumns_cases records destination.columns schemaName tableName with
      ⟨hvalid, hcovers⟩ | ⟨message, hvalid, hcovers⟩
    · rw [hvalid]
      exact inTransaction_along hkeys hbatch hcovers rfl
    · rw [hvalid]
      refine ⟨rfl, fun _ => ⟨huninserted, .inl ⟨message, rfl⟩⟩, fun _ _ h => absurd h hcovers, ?_⟩
      rintro _ _ ⟨⟩
      exact ⟨rfl, nofun⟩

/-- What is true of a load at its end, whatever has raised. The settings may be refused before
there is an engine. -/
structure LoadLaw (destination : Destination) (records : List Row) (accepted : Prop)
    (calls : List (Call LoadSig)) (out : Except LoadExc Nat) : Prop where
  stored : LoadStored destination records calls out
  mismatch : ¬ Covers destination.columns records → Uninserted calls ∧
    (accepted → MismatchTold calls out)
  raised : ∀ e, out = .error e → accepted → Covers destination.columns records → Failed calls
  retryable : ∀ e cause, out = .error (.dataLake e cause) →
    (e.retryable = true ↔ ∃ message, cause = some (.sql .operational message))
  disposed : ∀ url, ⟨.createEngine url, .ok ()⟩ ∈ calls → calls.getLast? = some ⟨.dispose, ()⟩

theorem loadFailure_retryable {e : LoadExc}
    (h : ∀ e' cause, e = .dataLake e' cause →
      e'.retryable = false ∧ ∀ message, cause ≠ some (.sql .operational message))
    (e' : DataLakeError) (cause : Option DbExc) (heq : loadFailure e = .dataLake e' cause) :
    e'.retryable = true ↔ ∃ message, cause = some (.sql .operational message) := by
  cases e with
  | dataLake e cause =>
    cases heq
    obtain ⟨hretryable, hcause⟩ := h _ _ rfl
    rw [hretryable]
    exact iff_of_false nofun fun ⟨message, hmessage⟩ => hcause message hmessage
  | db e =>
    cases e with
    | other message => cases heq
    | sql kind message => cases kind <;> cases heq <;> simp [loadFailed]

theorem disposing_along {body : LoadProg Nat} {calls : List (Call LoadSig)} (accepted : Prop)
    (hbody : LoadAlong destination batchSize body (BodyLaw destination records) calls) :
    LoadAlong destination batchSize (disposing body) (LoadLaw destination records accepted) calls := by
  refine hbody.handle ?_ ?_
  · intro calls n hlaw
    refine ⟨nofun, fun _ _ => ⟨?_, fun h => ?_, nofun, nofun, fun _ _ => List.getLast?_append⟩⟩
    · unfold LoadStored
      rw [tableAfter_snoc]
      exact hlaw.stored
    · obtain ⟨huninserted, ⟨message, ⟨⟩⟩ | hfailed⟩ := hlaw.mismatch h
      exact ⟨huninserted.dispose, fun _ => .inr (hfailed.append _)⟩
  · intro calls e hlaw
    refine ⟨nofun, fun _ _ => ⟨?_, fun h => ?_, fun _ _ _ h => (hlaw.raised e rfl h).append _,
      fun e' cause heq => ?_, fun _ _ => List.getLast?_append⟩⟩
    · unfold LoadStored
      rw [tableAfter_snoc]
      exact hlaw.stored
    · obtain ⟨huninserted, htold⟩ := hlaw.mismatch h
      refine ⟨huninserted.dispose, fun _ => htold.imp ?_ fun hfailed => hfailed.append _⟩
      rintro ⟨message, ⟨⟩⟩
      exact ⟨message, rfl⟩
    · refine loadFailure_retryable (fun e'' cause' h => hlaw.cause e'' cause' (congrArg _ h)) e' cause ?_
      injection heq

theorem loadInto_along (hkeys : EqualKeys records) (hbatch : 0 < batchSize) (url : EngineUrl)
    (schemaName tableName : Text) (accepted : Prop) :
    LoadAlong destination batchSize (loadInto url schemaName tableName batchSize records)
      (LoadLaw destination records accepted) [] := by
  refine ⟨nofun, fun answer _ => checked_along (fun e he => ?_) fun _ hok => ?_⟩
  · subst he
    have hfailed : Failed ([] ++ [⟨.createEngine url, .error e⟩]) := failed_snoc (by trivial) _
    refine ⟨rfl, fun _ => ⟨?_, fun _ => .inr hfailed⟩, fun _ _ _ _ => hfailed, nofun, ?_⟩
    · intro batch answer'
      simp
    · intro url' hmem
      simp at hmem
  · subst hok
    exact disposing_along accepted (body_along hkeys hbatch url schemaName tableName)

end Load

/-- The mode and the settings are those of a load that goes on to its engine. -/
structure LoadAccepted (lib : TextLibrary) (config : SqlServerConfig) (mode : Text) : Prop where
  mode : mode = appendMode
  schema : ∃ schemaName, validateSqlIdentifier lib config.schemaName "schema_name" = .ok schemaName
  table : ∃ name tableName, config.tableName = some name ∧
    validateSqlIdentifier lib name "table_name" = .ok tableName
  batchSize : ∃ batchSize, config.batchSize.positiveInt = some batchSize
  host : config.host ≠ none
  database : config.database ≠ none

theorem LoadAccepted.not_raise {lib : TextLibrary} {config : SqlServerConfig} {credential : Fields}
    {records : List Row} {mode : Text} (h : LoadAccepted lib config mode) (e : LoadExc) :
    load lib config credential records mode ≠ .raise e := by
  obtain ⟨schemaName, hschema⟩ := h.schema
  obtain ⟨name, tableName, hname, htable⟩ := h.table
  obtain ⟨batchSize, hbatch⟩ := h.batchSize
  obtain ⟨host, hhost⟩ := Option.ne_none_iff_exists'.mp h.host
  obtain ⟨database, hdatabase⟩ := Option.ne_none_iff_exists'.mp h.database
  unfold load buildUrl
  rw [if_neg (not_not_intro h.mode)]
  split_ifs with hrecords
  · nofun
  · rw [hschema, hname, hbatch, hhost, hdatabase]
    dsimp only
    rw [htable]
    nofun

/-- A load returns the number of its records, all of them now in the table after what was
there, in their order and by batches of the size set, or it raises and the table is as it was.
It raises where a call does and where the table lacks a column, of which it then tells. -/
theorem load_all_or_nothing (lib : TextLibrary) (config : SqlServerConfig) (credential : Fields)
    {records : List Row} (hkeys : EqualKeys records) (mode : Text) (destination : Destination) :
    (load lib config credential records mode).Along destination.Answers
      (fun _ op => ∀ batch, op = LoadOp.insert batch →
        ∃ batchSize, config.batchSize.positiveInt = some batchSize ∧
          (batch.length : Int) ≤ batchSize)
      (LoadLaw destination records (LoadAccepted lib config mode)) [] := by
  have hnone : ∀ e, load lib config credential records mode = .raise e →
      (∀ e' cause, e = LoadExc.dataLake e' cause → e'.retryable = false ∧ cause = none) →
      LoadLaw destination records (LoadAccepted lib config mode) [] (.error e) := by
    intro e hraise hcause
    have hrefused : ¬ LoadAccepted lib config mode := fun haccepted => haccepted.not_raise e hraise
    refine ⟨rfl, fun _ => ⟨nofun, fun h => absurd h hrefused⟩, fun _ _ h => absurd h hrefused, ?_,
      nofun⟩
    rintro e' cause ⟨⟩
    obtain ⟨hretryable, rfl⟩ := hcause _ _ rfl
    rw [hretryable]
    exact iff_of_false nofun nofun
  rcases @load_cases lib config credential records mode with ⟨hrecords, h⟩ | ⟨e, h, hretryable⟩ |
    ⟨message, h⟩ | ⟨schemaName, tableName, batchSize, url, name, -, -, -, hbatch, h⟩
  · rw [h, hrecords]
    exact ⟨⟨rfl, (List.append_nil _).symm⟩, fun hcovers => absurd nofun hcovers, nofun, nofun, nofun⟩
  · rw [h]
    refine hnone _ h ?_
    rintro _ _ ⟨⟩
    exact ⟨hretryable, rfl⟩
  · rw [h]
    exact hnone _ h nofun
  · rw [h]
    obtain ⟨hsetting, hpos⟩ : config.batchSize = .int batchSize ∧ 1 ≤ batchSize := by
      cases hjson : config.batchSize <;> simp [hjson, Json.positiveInt] at hbatch ⊢
      omega
    refine (loadInto_along hkeys (by omega) url schemaName tableName _).mono
      fun _ op hop batch heq => ?_
    have hlength := hop batch heq
    exact ⟨batchSize, hbatch, by omega⟩

def policyConfig : SqlServerConfig where
  host := some (.str "sql.example-insurer.test".toList)
  database := some (.str "policies".toList)
  tableName := some (.str "policies".toList)
  batchSize := .int 2

def policyRows : List Row :=
  [1, 2, 3].map fun n => [("policy_id".toList, .int n), ("holder".toList, .null)]

theorem policyRows_keys : EqualKeys policyRows := by
  intro row hrow row' hrow' key hkey
  simp only [policyRows, List.map_cons, List.map_nil, List.mem_cons, List.not_mem_nil,
    or_false] at hrow hrow'
  rcases hrow with rfl | rfl | rfl <;> rcases hrow' with rfl | rfl | rfl <;> exact hkey

theorem policyConfig_accepted : LoadAccepted asciiTexts policyConfig appendMode where
  mode := rfl
  schema := ⟨"dbo".toList, by decide⟩
  table := ⟨.str "policies".toList, "policies".toList, rfl, by decide⟩
  batchSize := ⟨2, rfl⟩
  host := nofun
  database := nofun

/-- A table of policies, in which one of them is. -/
def policyTable : Destination where
  columns := ["policy_id".toList, "holder".toList]
  rows := [[("policy_id".toList, .int 0), ("holder".toList, .null)]]

/-- The rows are in the table after the one there, and a table that has no column for the holder
gets none of them. -/
theorem policyRows_loaded :
    (load asciiTexts policyConfig [] policyRows appendMode).Along policyTable.Answers
      (fun _ _ => True) (fun calls out => ¬ Failed calls → out = .ok 3 ∧
        (tableAfter policyTable.rows calls).rows = policyTable.rows ++ policyRows) [] ∧
    (load asciiTexts policyConfig [] policyRows appendMode).Along
      (Destination.Answers ⟨["policy_id".toList], []⟩) (fun _ _ => True)
      (fun calls out => Uninserted calls ∧ MismatchTold calls out) [] := by
  have hcovers : Covers policyTable.columns policyRows := by
    unfold Covers
    decide
  have hlacks : ¬ Covers ["policy_id".toList] policyRows := by
    unfold Covers
    decide
  constructor
  · refine ((load_all_or_nothing asciiTexts policyConfig [] policyRows_keys appendMode
      policyTable).mono fun _ _ _ => trivial).imp fun calls out hlaw hunfailed => ?_
    cases out with
    | ok n =>
      obtain ⟨hn, hrows⟩ := hlaw.stored
      exact ⟨congrArg Except.ok hn, hrows⟩
    | error e => exact absurd (hlaw.raised e rfl policyConfig_accepted hcovers) hunfailed
  · refine ((load_all_or_nothing asciiTexts policyConfig [] policyRows_keys appendMode
      ⟨["policy_id".toList], []⟩).mono fun _ _ _ => trivial).imp fun calls out hlaw => ?_
    obtain ⟨huninserted, htold⟩ := hlaw.mismatch hlacks
    exact ⟨huninserted, htold policyConfig_accepted⟩

end DataLake
