import DataLake.Foundation.Program
import DataLake.TokenSupport
import Mathlib.Data.Char
import Mathlib.Data.List.Lex

/-! The SQL Server destination: its settings, the names it takes into SQL, and one load. -/

namespace DataLake

open Foundation

def unsupportedCapability (message : String) : DataLakeError :=
  ⟨message, false, "UnsupportedCapability"⟩

def schemaMismatchError (message : String) : DataLakeError :=
  ⟨message, false, "SchemaMismatchError"⟩

def loadFailed (message : String) (retryable : Bool) : DataLakeError :=
  ⟨message, retryable, "LoadFailed"⟩

/-! `_validate_sql_identifier`. -/

/-- `[A-Za-z_]` -/
def isIdentifierStart (c : Char) : Bool :=
  ('A' ≤ c && c ≤ 'Z') || ('a' ≤ c && c ≤ 'z') || c = '_'

/-- `[A-Za-z0-9_]` -/
def isIdentifierChar (c : Char) : Bool := isIdentifierStart c || ('0' ≤ c && c ≤ '9')

/-- `$`: at the end, or before a newline that ends the text. -/
def atEnd : Text → Bool
  | [] => true
  | [c] => c = '\n'
  | _ => false

/-- `_IDENTIFIER_RE.match`: one of the lengths that the repetition allows takes it to an end. -/
def matchIdentifier : Text → Bool
  | [] => false
  | c :: cs => isIdentifierStart c && (List.range 128).any fun k =>
      k ≤ cs.length && (cs.take k).all isIdentifierChar && atEnd (cs.drop k)

def invalidIdentifier (lib : TextLibrary) (name : Json) (label : String) : DataLakeError :=
  configurationError (label ++ " " ++ String.ofList (name.repr lib) ++
    " is not a valid SQL identifier (letters, digits, underscore; must not start with a digit; " ++
    "max 128 chars)")

def validateSqlIdentifier (lib : TextLibrary) (name : Json) (label : String) :
    Except DataLakeError Text :=
  match name with
  | .str s => if matchIdentifier s then .ok s else .error (invalidIdentifier lib name label)
  | _ => .error (invalidIdentifier lib name label)

/-! The engine. -/

structure SqlServerConfig where
  host : Option Json
  port : Json := .int 1433
  database : Option Json
  schemaName : Json := .str "dbo".toList
  tableName : Option Json
  driver : Json := .str "ODBC Driver 18 for SQL Server".toList
  extraOdbcParams : Fields := []
  batchSize : Json := .int 500

structure EngineUrl where
  username : Json
  password : Json
  host : Json
  port : Json
  database : Json
  query : Fields

/-- The exceptions of SQLAlchemy, by the classes that a load tells apart. -/
inductive SqlClass where
  | operational
  | integrity
  | noSuchTable
  | sqlAlchemy
deriving DecidableEq

inductive DbExc where
  | sql (kind : SqlClass) (message : String)
  | other (message : String)
deriving DecidableEq

/-- What a load raises: a domain error with the exception it was raised from, or an
exception of another class. -/
inductive LoadExc where
  | dataLake (e : DataLakeError) (cause : Option DbExc)
  | db (e : DbExc)
deriving DecidableEq

def keyError (key : String) : LoadExc := .db (.other s!"'{key}'")

def buildUrl (config : SqlServerConfig) (credential : Fields) : Except LoadExc EngineUrl := do
  let query := dictUpdate [("driver".toList, config.driver)] config.extraOdbcParams
  let some host := config.host | throw (keyError "host")
  let some database := config.database | throw (keyError "database")
  return {
    username := getField credential "username"
    password := getField credential "password"
    host, port := config.port, database, query }

/-! One load. -/

/-- The calls of a load. An insert that raises may have put some of its rows into the open
transaction before it did. -/
inductive LoadOp where
  | createEngine (url : EngineUrl)
  | reflectTable (schemaName tableName : Text)
  | beginTransaction
  | insert (batch : List Row)
  | commit
  | rollback
  | dispose

@[reducible] def LoadOp.Resp : LoadOp → Type
  | createEngine _ => Except DbExc Unit
  | reflectTable _ _ => Except DbExc (List Text)
  | beginTransaction => Except DbExc Unit
  | insert _ => Except (DbExc × Nat) Unit
  | commit => Except DbExc Unit
  | rollback => Unit
  | dispose => Unit

abbrev LoadSig : Signature := ⟨LoadOp, LoadOp.Resp⟩

abbrev LoadProg (α : Type) := Prog LoadSig LoadExc α

variable {α : Type}

def loadCall (op : LoadOp) : LoadProg op.Resp := Prog.perform (S := LoadSig) op

def checked (answer : Except DbExc α) : LoadProg α := Prog.ofExcept (answer.mapError .db)

def refuse (x : Except DataLakeError α) : LoadProg α :=
  Prog.ofExcept (x.mapError fun e => .dataLake e none)

/-- `_reflect_table`: the columns of the table. -/
def reflectTable (schemaName tableName : Text) : LoadProg (List Text) := do
  match ← loadCall (.reflectTable schemaName tableName) with
  | .ok columns => .ret columns
  | .error (.sql .noSuchTable message) =>
    .raise (.dataLake (schemaMismatchError ("destination table " ++
      String.ofList (schemaName ++ '.' :: tableName) ++ " does not exist"))
      (some (.sql .noSuchTable message)))
  | .error e => .raise (.db e)

def recordColumns (records : List Row) : List Text := records.flatMap fun record => record.map Prod.fst

/-- `sorted(set(names))` as it prints. -/
def reprSorted (names : List Text) : String :=
  "[" ++ ", ".intercalate ((names.dedup.mergeSort fun a b => decide (a ≤ b)).map pyRepr) ++ "]"

def validateColumns (columns : List Text) (records : List Row) (schemaName tableName : Text) :
    Except DataLakeError Unit :=
  let unknownColumns := (recordColumns records).filter (· ∉ columns)
  if unknownColumns = [] then .ok ()
  else .error (schemaMismatchError ("destination table " ++
    String.ofList (schemaName ++ '.' :: tableName) ++ " has no column(s) " ++
    reprSorted unknownColumns ++ "; known columns: " ++ reprSorted columns))

/-- `range(0, total, batch_size)` -/
def batchStarts (total batchSize : Nat) : List Nat :=
  (List.range ((total + batchSize - 1) / batchSize)).map (· * batchSize)

def insertBatches (records : List Row) (batchSize : Nat) : List Nat → Nat → LoadProg Nat
  | [], totalLoaded => .ret totalLoaded
  | start :: starts, totalLoaded => do
    let batch := (records.drop start).take batchSize
    let answer ← loadCall (.insert batch)
    checked (answer.mapError Prod.fst)
    insertBatches records batchSize starts (totalLoaded + batch.length)

/-- `with engine.begin()` -/
def inTransaction (body : LoadProg α) : LoadProg α := do
  let answer ← loadCall .beginTransaction
  checked answer
  body.handle
    (fun a => do
      match ← loadCall .commit with
      | .ok () => .ret a
      | .error e => do
        loadCall .rollback
        .raise (.db e))
    fun e => do
      loadCall .rollback
      .raise e

/-- The `except` clauses, the first that fits. -/
def loadFailure : LoadExc → LoadExc
  | .db (.sql .operational message) =>
    .dataLake (loadFailed s!"database connectivity error during load: {message}" true)
      (some (.sql .operational message))
  | .db (.sql .integrity message) =>
    .dataLake (loadFailed s!"integrity constraint violated during load: {message}" false)
      (some (.sql .integrity message))
  | .db (.sql kind message) => .dataLake (loadFailed message false) (some (.sql kind message))
  | e => e

/-- `try: ... finally: engine.dispose()` -/
def disposing (body : LoadProg α) : LoadProg α :=
  body.handle
    (fun a => do
      loadCall .dispose
      .ret a)
    fun e => do
      loadCall .dispose
      .raise (loadFailure e)

def appendMode : Text := "append".toList

/-- A load from the creation of its engine on. -/
def loadInto (url : EngineUrl) (schemaName tableName : Text) (batchSize : Nat)
    (records : List Row) : LoadProg Nat := do
  let engine ← loadCall (.createEngine url)
  checked engine
  disposing do
    let columns ← reflectTable schemaName tableName
    refuse (validateColumns columns records schemaName tableName)
    inTransaction (insertBatches records batchSize (batchStarts records.length batchSize) 0)

def load (lib : TextLibrary) (config : SqlServerConfig) (credential : Fields) (records : List Row)
    (mode : Text) : LoadProg Nat := do
  if mode ≠ appendMode then
    .raise (.dataLake (unsupportedCapability ("sqlserver destination connector only supports " ++
      s!"mode='append' (got {pyRepr mode}); upsert/CDC are deliberately deferred, see the roadmap"))
      none)
  else if records = [] then return 0
  else
    let schemaName ← refuse (validateSqlIdentifier lib config.schemaName "schema_name")
    let tableName ← match config.tableName with
      | none => .raise (keyError "table_name")
      | some name => refuse (validateSqlIdentifier lib name "table_name")
    let some batchSize := config.batchSize.positiveInt |
      .raise (.dataLake (configurationError
        "sqlserver destination: 'batch_size' must be a positive integer") none)
    let url ← Prog.ofExcept (buildUrl config credential)
    loadInto url schemaName tableName batchSize.toNat records

/-! What the validator accepts. -/

/-- The names that the validator is meant to accept. -/
def IsIdentifier (s : Text) : Prop :=
  ∃ c cs, s = c :: cs ∧ isIdentifierStart c = true ∧ (∀ d ∈ cs, isIdentifierChar d = true) ∧
    s.length ≤ 128

/-- An identifier with one newline after it. -/
def Trailing (name : Json) : Prop := ∃ s, IsIdentifier s ∧ name = .str (s ++ ['\n'])

theorem isIdentifierChar_newline : isIdentifierChar '\n' = false := rfl

theorem atEnd_eq_true {s : Text} : atEnd s = true ↔ s = [] ∨ s = ['\n'] := by
  unfold atEnd
  split <;> simp_all

theorem matchIdentifier_iff {s : Text} :
    matchIdentifier s = true ↔ IsIdentifier s ∨ ∃ s', IsIdentifier s' ∧ s = s' ++ ['\n'] := by
  cases s with
  | nil => simp [matchIdentifier, IsIdentifier]
  | cons c cs =>
    simp only [matchIdentifier, Bool.and_eq_true, List.any_eq_true, List.mem_range,
      decide_eq_true_eq, List.all_eq_true, atEnd_eq_true]
    constructor
    · rintro ⟨hc, k, hk, ⟨hlength, hall⟩, hend⟩
      have hcs := List.take_append_drop k cs
      have htake : (c :: cs.take k).length ≤ 128 := by simp; omega
      rcases hend with hend | hend
      · rw [hend, List.append_nil] at hcs
        rw [hcs] at hall htake
        exact .inl ⟨c, cs, rfl, hc, hall, htake⟩
      · rw [hend] at hcs
        exact .inr ⟨c :: cs.take k, ⟨c, _, rfl, hc, hall, htake⟩, by rw [List.cons_append, hcs]⟩
    · rintro (⟨_, _, ⟨⟩, hc, hall, hlength⟩ | ⟨_, ⟨c', cs', rfl, hc, hall, hlength⟩, heq⟩)
      · refine ⟨hc, cs.length, by simp at hlength; omega, ⟨le_rfl, ?_⟩, by simp⟩
        simpa using hall
      · obtain ⟨rfl, rfl⟩ : c = c' ∧ cs = cs' ++ ['\n'] := by simpa using heq
        exact ⟨hc, cs'.length, by simp at hlength; omega, ⟨by simp, by simpa using hall⟩, by simp⟩

theorem IsIdentifier.chars {s : Text} (h : IsIdentifier s) : ∀ c ∈ s, isIdentifierChar c = true := by
  obtain ⟨c, cs, rfl, hc, hcs, -⟩ := h
  rintro d (_ | ⟨_, hd⟩)
  · rw [isIdentifierChar, hc, Bool.true_or]
  · exact hcs d hd

/-- No identifier ends in a newline. -/
theorem not_trailing_of_isIdentifier {s : Text} (h : IsIdentifier s) : ¬ Trailing (.str s) := by
  rintro ⟨s', -, ⟨⟩⟩
  have hnewline := h.chars '\n' (by simp)
  rw [isIdentifierChar_newline] at hnewline
  cases hnewline

section Validation

variable {lib : TextLibrary} {name : Json} {label : String}

theorem validateSqlIdentifier_ok {s : Text} :
    validateSqlIdentifier lib name label = .ok s ↔
      name = .str s ∧ (IsIdentifier s ∨ Trailing name) := by
  unfold validateSqlIdentifier Trailing
  cases name with
  | str s' =>
    dsimp only
    by_cases hmatch : matchIdentifier s' = true
    · rw [if_pos hmatch]
      constructor
      · rintro ⟨⟩
        refine ⟨rfl, (matchIdentifier_iff.mp hmatch).imp_right ?_⟩
        rintro ⟨s'', h, rfl⟩
        exact ⟨s'', h, rfl⟩
      · rintro ⟨⟨⟩, -⟩
        rfl
    · rw [if_neg hmatch]
      refine iff_of_false nofun ?_
      rintro ⟨⟨⟩, h | ⟨s'', h, ⟨⟩⟩⟩
      · exact hmatch (matchIdentifier_iff.mpr (.inl h))
      · exact hmatch (matchIdentifier_iff.mpr (.inr ⟨s'', h, rfl⟩))
  | _ => exact iff_of_false nofun (by rintro ⟨⟨⟩, -⟩)

theorem validateSqlIdentifier_error {e : DataLakeError}
    (h : validateSqlIdentifier lib name label = .error e) : e = invalidIdentifier lib name label := by
  unfold validateSqlIdentifier at h
  split at h
  · split_ifs at h
    cases h
    rfl
  · cases h
    rfl

/-- The validator returns the identifiers, and raises on everything else. -/
def ExactAt (lib : TextLibrary) (name : Json) (label : String) : Prop :=
  (∀ s, validateSqlIdentifier lib name label = .ok s ↔ name = .str s ∧ IsIdentifier s) ∧
  ((¬ ∃ s, name = .str s ∧ IsIdentifier s) →
    validateSqlIdentifier lib name label = .error (invalidIdentifier lib name label))

theorem exactAt_iff : ExactAt lib name label ↔ ¬ Trailing name := by
  constructor
  · rintro ⟨hexact, -⟩ htrailing
    obtain ⟨s, hs, rfl⟩ := htrailing
    have hok := (hexact _).mp (validateSqlIdentifier_ok.mpr ⟨rfl, .inr ⟨s, hs, rfl⟩⟩)
    exact not_trailing_of_isIdentifier hok.2 ⟨s, hs, rfl⟩
  · intro htrailing
    have hok : ∀ s, validateSqlIdentifier lib name label = .ok s ↔ name = .str s ∧ IsIdentifier s := by
      intro s
      rw [validateSqlIdentifier_ok, or_iff_left htrailing]
    refine ⟨hok, fun hnone => ?_⟩
    cases h : validateSqlIdentifier lib name label with
    | error e => rw [validateSqlIdentifier_error h]
    | ok s => exact absurd ⟨s, (hok s).mp h⟩ hnone

end Validation

/-! The names that go into SQL. -/

section Reflection

variable {lib : TextLibrary} {config : SqlServerConfig} {credential : Fields} {records : List Row}
  {mode : Text}

/-- A name in a reflection is one that the validator has returned for its setting. -/
def Validated (lib : TextLibrary) (config : SqlServerConfig) (op : LoadOp) : Prop :=
  ∀ schemaName tableName, op = .reflectTable schemaName tableName →
    validateSqlIdentifier lib config.schemaName "schema_name" = .ok schemaName ∧
    ∃ name, config.tableName = some name ∧
      validateSqlIdentifier lib name "table_name" = .ok tableName

theorem issues_checked {P : LoadOp → Prop} {α : Type} (answer : Except DbExc α) :
    (checked answer).Issues P := by
  cases answer <;> trivial

theorem issues_refuse {P : LoadOp → Prop} {α : Type} (x : Except DataLakeError α) :
    (refuse x).Issues P := by
  cases x <;> trivial

theorem insertBatches_issues {P : LoadOp → Prop} (hP : ∀ batch, P (.insert batch))
    (batchSize : Nat) (starts : List Nat) (totalLoaded : Nat) :
    (insertBatches records batchSize starts totalLoaded).Issues P := by
  induction starts generalizing totalLoaded with
  | nil => trivial
  | cons start starts ih =>
    exact ⟨hP _, fun _ => (issues_checked _).bind fun _ => ih _⟩

theorem inTransaction_issues {P : LoadOp → Prop} {α : Type} {body : LoadProg α}
    (hP : ∀ op ∈ [LoadOp.beginTransaction, .commit, .rollback], P op) (hbody : body.Issues P) :
    (inTransaction body).Issues P := by
  refine ⟨hP _ (by simp), fun _ => (issues_checked _).bind fun _ => hbody.handle (fun _ => ?_) ?_⟩
  · refine ⟨hP _ (by simp), fun answer => ?_⟩
    cases answer with
    | ok => trivial
    | error e => exact ⟨hP _ (by simp), fun _ => trivial⟩
  · exact fun _ => ⟨hP _ (by simp), fun _ => trivial⟩

theorem reflectTable_issues {P : LoadOp → Prop} {schemaName tableName : Text}
    (hP : P (.reflectTable schemaName tableName)) : (reflectTable schemaName tableName).Issues P := by
  refine ⟨hP, fun answer => ?_⟩
  rcases answer with (⟨_ | _ | _ | _, _⟩ | _) | _ <;> trivial

theorem loadInto_issues {P : LoadOp → Prop} {url : EngineUrl} {schemaName tableName : Text}
    (hP : ∀ op, (∀ schemaName tableName, op ≠ .reflectTable schemaName tableName) → P op)
    (hreflect : P (.reflectTable schemaName tableName)) (batchSize : Nat) :
    (loadInto url schemaName tableName batchSize records).Issues P := by
  refine ⟨hP _ nofun, fun _ => (issues_checked _).bind fun _ => Prog.Issues.handle ?_ ?_ ?_⟩
  · refine (reflectTable_issues hreflect).bind fun columns =>
      (issues_refuse _).bind fun _ => inTransaction_issues ?_ ?_
    · rintro op hop
      refine hP op fun _ _ heq => ?_
      simp [heq] at hop
    · exact insertBatches_issues (fun _ => hP _ nofun) _ _ _
  · exact fun _ => ⟨hP _ nofun, fun _ => trivial⟩
  · exact fun _ => ⟨hP _ nofun, fun _ => trivial⟩

theorem buildUrl_error {e : LoadExc} (h : buildUrl config credential = .error e) :
    ∃ message, e = .db (.other message) := by
  unfold buildUrl at h
  cases hhost : config.host with
  | none =>
    rw [hhost] at h
    cases h
    exact ⟨_, rfl⟩
  | some host =>
    cases hdatabase : config.database with
    | none =>
      rw [hhost, hdatabase] at h
      cases h
      exact ⟨_, rfl⟩
    | some database =>
      rw [hhost, hdatabase] at h
      cases h

/-- What a load comes to before it makes a call. -/
theorem load_cases : (records = [] ∧ load lib config credential records mode = .ret 0) ∨
    (∃ e, load lib config credential records mode = .raise (.dataLake e none) ∧
      e.retryable = false) ∨
    (∃ message, load lib config credential records mode = .raise (.db (.other message))) ∨
    ∃ schemaName tableName batchSize url name,
      validateSqlIdentifier lib config.schemaName "schema_name" = .ok schemaName ∧
      config.tableName = some name ∧ validateSqlIdentifier lib name "table_name" = .ok tableName ∧
      config.batchSize.positiveInt = some batchSize ∧
      load lib config credential records mode =
        loadInto url schemaName tableName batchSize.toNat records := by
  unfold load
  split_ifs with hmode hrecords
  · exact .inr (.inl ⟨_, rfl, rfl⟩)
  · exact .inl ⟨hrecords, rfl⟩
  · right
    cases hschema : validateSqlIdentifier lib config.schemaName "schema_name" with
    | error e => exact .inl ⟨e, rfl, by rw [validateSqlIdentifier_error hschema]; rfl⟩
    | ok schemaName =>
      cases hname : config.tableName with
      | none => exact .inr (.inl ⟨_, rfl⟩)
      | some name =>
        dsimp only
        cases htable : validateSqlIdentifier lib name "table_name" with
        | error e => exact .inl ⟨e, rfl, by rw [validateSqlIdentifier_error htable]; rfl⟩
        | ok tableName =>
          cases hbatch : config.batchSize.positiveInt with
          | none => exact .inl ⟨_, rfl, rfl⟩
          | some batchSize =>
            cases hurl : buildUrl config credential with
            | error e =>
              obtain ⟨message, rfl⟩ := buildUrl_error hurl
              exact .inr (.inl ⟨message, rfl⟩)
            | ok url =>
              exact .inr (.inr ⟨schemaName, tableName, batchSize, url, name, rfl, rfl, htable, rfl,
                rfl⟩)

theorem load_issues : (load lib config credential records mode).Issues (Validated lib config) := by
  rcases load_cases with ⟨-, h⟩ | ⟨e, h, -⟩ | ⟨message, h⟩ |
    ⟨schemaName, tableName, batchSize, url, name, hschema, hname, htable, -, h⟩
  · rw [h]
    trivial
  · rw [h]
    trivial
  · rw [h]
    trivial
  · rw [h]
    refine loadInto_issues (fun op hop _ _ heq => absurd heq (hop _ _)) ?_ _
    rintro _ _ ⟨⟩
    exact ⟨hschema, name, hname, htable⟩

end Reflection

/-- The validator is exact on every value but an identifier with a newline after it, and so
are the names that a load takes into SQL. -/
theorem identifier_exact_iff (lib : TextLibrary) :
    (∀ name label, ExactAt lib name label ↔ ¬ Trailing name) ∧
    ∀ config credential records mode schemaName tableName,
      (load lib config credential records mode).CanIssue (.reflectTable schemaName tableName) →
      (((∀ c ∈ schemaName, isIdentifierChar c = true) ∧ ∀ c ∈ tableName, isIdentifierChar c = true) ↔
        ¬ Trailing config.schemaName ∧ ∀ name, config.tableName = some name → ¬ Trailing name) := by
  have hchars : ∀ {name : Json} {s : Text}, name = .str s → (IsIdentifier s ∨ Trailing name) →
      ((∀ c ∈ s, isIdentifierChar c = true) ↔ ¬ Trailing name) := by
    rintro _ s rfl (hs | htrailing)
    · exact iff_of_true hs.chars (not_trailing_of_isIdentifier hs)
    · refine iff_of_false (fun h => ?_) (not_not_intro htrailing)
      obtain ⟨s', -, ⟨⟩⟩ := htrailing
      have hnewline := h '\n' (by simp)
      rw [isIdentifierChar_newline] at hnewline
      cases hnewline
  refine ⟨fun name label => exactAt_iff, fun config credential records mode schemaName tableName h => ?_⟩
  obtain ⟨hschema, name, hname, htable⟩ := load_issues.canIssue h _ _ rfl
  rw [validateSqlIdentifier_ok] at hschema htable
  rw [hchars hschema.1 hschema.2, hchars htable.1 htable.2, hname]
  simp

/-- A table name that the validator returns, with a newline in it. -/
def newlineName : Json := .str "policies\n".toList

theorem newline_not_exact : ¬ ExactAt asciiTexts newlineName "table_name" :=
  fun h => absurd ((h.1 "policies\n".toList).mp (by decide)).2 fun hs => absurd (hs.chars '\n' (by decide)) (by decide)

end DataLake
