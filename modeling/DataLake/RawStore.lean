import DataLake.Foundation.Program
import DataLake.ObjectKeys
import Mathlib.Tactic.SplitIfs

/-! The raw payload store: its calls to the object service and the record table,
and the programs of the S3 backend. -/

namespace DataLake

open Foundation

structure S3Object where
  body : Bytes
  contentType : Option Text
deriving DecidableEq

/-- What a `ClientError` carries: the error code, the HTTP status, its text. -/
structure S3Error where
  code : Option String
  status : Option Nat
  message : String
deriving DecidableEq

/-- A row of the record table. `pipeline` is the pipeline of its run. -/
structure RawPayloadRecord where
  id : Uuid
  run : Uuid
  pipeline : Uuid
  storageUri : Text
  contentType : Text
  sizeBytes : Nat
  checksumSha256 : Text
  sequence : Nat
  loadedSuccessfully : Bool := false
  cursorUsed : Option Text := none
  nextCursor : Option Text := none
  itemCount : Nat := 0
  sourcePath : Text := []
  httpStatus : Option Nat := none
deriving DecidableEq

/-- The unique constraint of the table: one row for each version of a page. -/
def RawPayloadRecord.version (r : RawPayloadRecord) : Uuid × Nat × Text :=
  (r.run, r.sequence, r.checksumSha256)

structure ProblemEntry where
  recordId : Text
  runId : Text
  sequence : Nat
  checksumPrefix : Text
  category : String
  reason : String
deriving DecidableEq

structure MigrationInspectionResult where
  recordsInspected : Nat := 0
  alreadyMigrated : Nat := 0
  legacyUnprefixed : Nat := 0
  schemaPrefixed : Nat := 0
  missingObjects : Nat := 0
  checksumConflicts : Nat := 0
  readyForMigration : Nat := 0
  recordsMigrated : Nat := 0
  recordsSkipped : Nat := 0
  problemRecords : List ProblemEntry := []
deriving DecidableEq

inductive StoreOp where
  | tenantUuid
  | putIfAbsent (key : Text) (object : S3Object)
  | putObject (key : Text) (object : S3Object)
  | headObject (key : Text)
  | getObject (key : Text)
  | getOrCreateRecord (defaults : RawPayloadRecord)
  | saveLoaded (record : RawPayloadRecord)
  | selectRecords
  | saveStorageUri (record : Uuid) (uri : Text)
  | progressCallback (result : MigrationInspectionResult)
  | cancelCheck

@[reducible] def StoreOp.Resp : StoreOp → Type
  | tenantUuid => Except DataLakeError Uuid
  | putIfAbsent _ _ => Except S3Error Unit
  | putObject _ _ => Except S3Error Unit
  | headObject _ => Except S3Error (Option Nat)
  | getObject _ => Except S3Error S3Object
  | getOrCreateRecord _ => Except Exc RawPayloadRecord
  | saveLoaded _ => Unit
  | selectRecords => List RawPayloadRecord
  | saveStorageUri _ _ => Unit
  | progressCallback _ => Unit
  | cancelCheck => Bool

abbrev StoreSig : Signature := ⟨StoreOp, StoreOp.Resp⟩

abbrev StoreProg (α : Type) := Prog StoreSig Exc α

def storeCall (op : StoreOp) : StoreProg op.Resp := Prog.perform (S := StoreSig) op

def raiseError {S : Signature} {α : Type} (e : DataLakeError) : Prog S Exc α :=
  .raise (.dataLake e)

def S3Error.raised {S : Signature} {α : Type} (err : S3Error) : Prog S Exc α :=
  .raise (.other err.message)

/-! The S3 backend. -/

def noSuchBucket (bucket : BucketName) : DataLakeError :=
  configurationError (s!"raw payload bucket {pyRepr bucket.name} does not exist; " ++
    "run `manage.py provision_raw_store` before running pipelines")

def conditionalWriteUnsupportedCodes : List String :=
  ["NotImplemented", "XNotImplemented", "InvalidArgument"]

def conditionalWriteUnsupportedStatuses : List Nat := [400, 501]

def S3Error.codeIn (err : S3Error) (codes : List String) : Bool := err.code.any codes.contains

def S3Error.statusIn (err : S3Error) (statuses : List Nat) : Bool :=
  err.status.any statuses.contains

def notFoundCodes : List String := ["404", "NoSuchKey", "NotFound"]

def currentTenantKey (key : Text) : StoreProg Text := do
  match ← storeCall .tenantUuid with
  | .ok tenant => return tenantKey tenant key
  | .error e => raiseError e

/-- `_exists`. -/
def keyExists (bucket : BucketName) (key : Text) : StoreProg Bool := do
  match ← storeCall (.headObject key) with
  | .ok _ => return true
  | .error err =>
    if err.codeIn notFoundCodes then return false
    else if err.codeIn ["NoSuchBucket"] then raiseError (noSuchBucket bucket)
    else err.raised

def putCheckThenWrite (bucket : BucketName) (key : Text) (object : S3Object) :
    StoreProg Bool := do
  if ← keyExists bucket key then return false
  match ← storeCall (.putObject key object) with
  | .ok _ => return true
  | .error err =>
    if err.codeIn ["NoSuchBucket"] then raiseError (noSuchBucket bucket) else err.raised

def putCreateOnly (bucket : BucketName) (key : Text) (object : S3Object) : StoreProg Bool := do
  match ← storeCall (.putIfAbsent key object) with
  | .ok _ => return true
  | .error err =>
    if err.codeIn ["PreconditionFailed"] || err.statusIn [412] then return false
    else if err.codeIn ["NoSuchBucket"] then raiseError (noSuchBucket bucket)
    else if err.codeIn conditionalWriteUnsupportedCodes ||
        err.statusIn conditionalWriteUnsupportedStatuses then
      putCheckThenWrite bucket key object
    else err.raised

def verifyExistingObject (key : Text) (data : Bytes) : StoreProg Unit := do
  match ← storeCall (.headObject key) with
  | .error err =>
    if err.codeIn notFoundCodes then
      raiseError (rawPayloadIntegrityError (s!"raw payload object at {pyRepr key} vanished " ++
        "between the create-only write and post-write verification"))
    else err.raised
  | .ok existingSize =>
    match existingSize with
    | none => return ()
    | some size =>
      if size ≠ data.length then
        raiseError (rawPayloadIntegrityError (s!"raw payload object at {pyRepr key} already " ++
          s!"exists with a different size ({size} bytes stored vs {data.length} bytes being " ++
          "written) despite an identical content-addressed key -- refusing to treat this as a " ++
          "safe reuse"))
      else return ()

def put (bucket : BucketName) (key : Text) (data : Bytes) (contentType : Text) :
    StoreProg Text := do
  let tenantKey ← currentTenantKey key
  let written ← putCreateOnly bucket tenantKey ⟨data, some contentType⟩
  if !written then verifyExistingObject tenantKey data
  return storageUri bucket tenantKey

/-- `_parse_and_authorize`. -/
def parseAndAuthorize (bucket : BucketName) (uri : Text) : StoreProg Text := do
  let (_, key) ← Prog.ofExcept ((parseUri bucket uri).mapError Exc.dataLake)
  let tenantPrefix := (partition '/' key).1
  match ← storeCall .tenantUuid with
  | .error e => raiseError e
  | .ok tenant =>
    if tenantPrefix ≠ tenant.text then
      raiseError (rawPayloadAccessDenied
        "refusing to read a raw payload belonging to a different tenant")
    else return key

def get (bucket : BucketName) (uri : Text) : StoreProg Bytes := do
  let key ← parseAndAuthorize bucket uri
  match ← storeCall (.getObject key) with
  | .error err => err.raised
  | .ok object =>
    match checksumFromKey key with
    | none => return object.body
    | some expected =>
      if sha256hex object.body ≠ expected then
        raiseError (rawPayloadIntegrityError (s!"raw payload at {pyRepr uri} failed checksum " ++
          s!"verification on read (expected {String.ofList expected}, got " ++
          s!"{String.ofList (sha256hex object.body)}) -- this indicates storage-layer " ++
          "corruption or an object modified outside this platform, not an application-level " ++
          "mutation (see docs/decisions/0007-raw-payload-immutability.md for the " ++
          "application-level vs. storage-level boundary)"))
      else return object.body

structure RawPage where
  run : Uuid
  pipeline : Uuid
  sequence : Nat
  data : Bytes
  contentType : Text
  cursorUsed : Option Text := none
  nextCursor : Option Text := none
  itemCount : Nat := 0
  sourcePath : Text := []
  httpStatus : Option Nat := none

def RawPage.checksum (page : RawPage) : Text := sha256hex page.data

def RawPage.key (page : RawPage) : Text :=
  logicalKey page.pipeline page.run page.sequence page.checksum

def storeRawPayload (bucket : BucketName) (page : RawPage) : StoreProg RawPayloadRecord := do
  let uri ← put bucket page.key page.data page.contentType
  let record ← storeCall (.getOrCreateRecord
    { id := ⟨0⟩, run := page.run, pipeline := page.pipeline, storageUri := uri,
      contentType := page.contentType, sizeBytes := page.data.length,
      checksumSha256 := page.checksum, sequence := page.sequence, cursorUsed := page.cursorUsed,
      nextCursor := page.nextCursor, itemCount := page.itemCount, sourcePath := page.sourcePath,
      httpStatus := page.httpStatus })
  Prog.ofExcept record

/-! Which calls the backend makes: one tenant lookup, and calls on the key it
builds from the answer. -/

theorem issues_storeCall {α : Type} {P : StoreOp → Prop} {op : StoreOp}
    {f : op.Resp → StoreProg α} (hop : P op) (hf : ∀ r, (f r).Issues P) :
    (storeCall op >>= f).Issues P := ⟨hop, hf⟩

theorem issues_keyExists {P : StoreOp → Prop} {bucket : BucketName} {key : Text}
    (hhead : P (.headObject key)) : (keyExists bucket key).Issues P := by
  refine issues_storeCall hhead fun r => ?_
  rcases r with err | _
  · dsimp only
    split_ifs <;> trivial
  · trivial

theorem issues_verifyExistingObject {P : StoreOp → Prop} {key : Text} {data : Bytes}
    (hhead : P (.headObject key)) : (verifyExistingObject key data).Issues P := by
  refine issues_storeCall hhead fun r => ?_
  rcases r with err | size
  · dsimp only
    split_ifs <;> trivial
  · cases size with
    | none => trivial
    | some size =>
      dsimp only
      split_ifs <;> trivial

theorem issues_putCreateOnly {P : StoreOp → Prop} {bucket : BucketName} {key : Text}
    {object : S3Object} (hcond : P (.putIfAbsent key object)) (hput : P (.putObject key object))
    (hhead : P (.headObject key)) : (putCreateOnly bucket key object).Issues P := by
  have hfallback : (putCheckThenWrite bucket key object).Issues P := by
    refine (issues_keyExists hhead).bind fun found => ?_
    cases found with
    | true => trivial
    | false =>
      refine issues_storeCall hput fun r => ?_
      rcases r with err | _
      · dsimp only
        split_ifs <;> trivial
      · trivial
  refine issues_storeCall hcond fun r => ?_
  rcases r with err | _
  · dsimp only
    split_ifs
    · trivial
    · trivial
    · exact hfallback
    · trivial
  · trivial

/-- `put` looks the tenant up first; its other calls may depend on the answer. -/
theorem put_tenant_first {P : Except DataLakeError Uuid → StoreOp → Prop} (bucket : BucketName)
    (key : Text) (data : Bytes) (contentType : Text)
    (hkey : ∀ u, P (.ok u) (.putIfAbsent (tenantKey u key) ⟨data, some contentType⟩) ∧
      P (.ok u) (.putObject (tenantKey u key) ⟨data, some contentType⟩) ∧
      P (.ok u) (.headObject (tenantKey u key))) :
    ∃ k, put bucket key data contentType = .call .tenantUuid k ∧ ∀ r, (k r).Issues (P r) := by
  refine ⟨_, rfl, fun r => ?_⟩
  rcases r with e | u
  · trivial
  · obtain ⟨hcond, hput, hhead⟩ := hkey u
    refine (issues_putCreateOnly hcond hput hhead).bind fun written => ?_
    cases written with
    | true => trivial
    | false => exact (issues_verifyExistingObject hhead).bind fun _ => trivial

theorem issues_put {P : StoreOp → Prop} {bucket : BucketName} {key : Text} {data : Bytes}
    {contentType : Text} (htenant : P .tenantUuid)
    (hkey : ∀ u, P (.putIfAbsent (tenantKey u key) ⟨data, some contentType⟩) ∧
      P (.putObject (tenantKey u key) ⟨data, some contentType⟩) ∧
      P (.headObject (tenantKey u key))) :
    (put bucket key data contentType).Issues P := by
  obtain ⟨k, hk, hissues⟩ := put_tenant_first (P := fun _ => P) bucket key data contentType hkey
  rw [hk]
  exact ⟨htenant, hissues⟩

end DataLake
