import DataLake.RawStore

/-! The migration of raw payload objects from a legacy key to the tenant key:
classification of a record, copy of its object, and a whole pass. -/

namespace DataLake

open Foundation

def maxSampleProblemRecords : Nat := 200

inductive Category where
  | alreadyMigrated
  | legacyUnprefixed
  | schemaPrefixed
  | missing
  | checksumConflict
deriving DecidableEq

def Category.text : Category → String
  | alreadyMigrated => "already_migrated"
  | legacyUnprefixed => "legacy_unprefixed"
  | schemaPrefixed => "schema_prefixed"
  | missing => "missing"
  | checksumConflict => "checksum_conflict"

/-- `_expected_logical_key`: rebuilt from the columns, not read from the URI. -/
def expectedLogicalKey (record : RawPayloadRecord) : Text :=
  logicalKey record.pipeline record.run record.sequence record.checksumSha256

def safeProblemEntry (record : RawPayloadRecord) (category : Category) (reason : String) :
    ProblemEntry :=
  { recordId := record.id.text, runId := record.run.text, sequence := record.sequence,
    checksumPrefix := record.checksumSha256.take 12, category := category.text, reason }

/-- `_classify`. There is no key when the URI has none of the shapes known for
the record. -/
def classify (bucket : BucketName) (record : RawPayloadRecord) (tenant schemaName : Text) :
    Category × Option Text :=
  match parseUri bucket record.storageUri with
  | .error _ => (.checksumConflict, none)
  | .ok (name, key) =>
    if name ≠ bucket.name then (.checksumConflict, none)
    else if key = prefixedKey tenant (expectedLogicalKey record) then (.alreadyMigrated, some key)
    else if key = prefixedKey schemaName (expectedLogicalKey record) then
      (.schemaPrefixed, some key)
    else if key = expectedLogicalKey record then (.legacyUnprefixed, some key)
    else (.checksumConflict, none)

/-- Python's `content_type or "application/json"`. -/
def orJson : Option Text → Text
  | some (c :: cs) => c :: cs
  | _ => "application/json".toList

def getRawByKey (key : Text) : StoreProg S3Object := do
  match ← storeCall (.getObject key) with
  | .error err => err.raised
  | .ok object => return object

/-- What follows the download: whether the checksum matched, and the new URI. -/
def migrateObject (bucket : BucketName) (record : RawPayloadRecord) (dryRun : Bool)
    (object : S3Object) : StoreProg (Bool × Option Text) := do
  if sha256hex object.body ≠ record.checksumSha256 then return (false, none)
  else if dryRun then return (true, none)
  else
    let uri ← put bucket (expectedLogicalKey record) object.body (orJson object.contentType)
    return (true, some uri)

/-- `_verify_and_maybe_migrate`. -/
def verifyAndMaybeMigrate (bucket : BucketName) (key : Text) (record : RawPayloadRecord)
    (dryRun : Bool) : StoreProg (Bool × Option Text) := do
  let object ← getRawByKey key
  migrateObject bucket record dryRun object

namespace MigrationInspectionResult

def addProblem (result : MigrationInspectionResult) (entry : ProblemEntry) :
    MigrationInspectionResult :=
  if result.problemRecords.length < maxSampleProblemRecords then
    { result with problemRecords := result.problemRecords ++ [entry] }
  else result

def conflict (result : MigrationInspectionResult) (record : RawPayloadRecord)
    (reason : String) : MigrationInspectionResult :=
  { result with checksumConflicts := result.checksumConflicts + 1 }.addProblem
    (safeProblemEntry record .checksumConflict reason)

def missing (result : MigrationInspectionResult) (record : RawPayloadRecord) :
    MigrationInspectionResult :=
  { result with missingObjects := result.missingObjects + 1 }.addProblem
    (safeProblemEntry record .missing "object not found in storage at the legacy key")

end MigrationInspectionResult

/-- A record whose URI has a legacy key. -/
def inspectLegacy (bucket : BucketName) (category : Category) (key : Text) (dryRun : Bool)
    (record : RawPayloadRecord) (result : MigrationInspectionResult) :
    StoreProg MigrationInspectionResult := do
  if !(← keyExists bucket key) then return result.missing record
  let result := if category = .legacyUnprefixed then
      { result with legacyUnprefixed := result.legacyUnprefixed + 1 }
    else { result with schemaPrefixed := result.schemaPrefixed + 1 }
  match ← verifyAndMaybeMigrate bucket key record dryRun with
  | (false, _) =>
    return result.conflict record
      "downloaded object checksum does not match the recorded checksum"
  | (true, newUri) =>
    let result := { result with readyForMigration := result.readyForMigration + 1 }
    match dryRun, newUri with
    | false, some uri =>
      storeCall (.saveStorageUri record.id uri)
      return { result with recordsMigrated := result.recordsMigrated + 1 }
    | _, _ => return result

/-- The body of the loop for one record. -/
def inspectRecord (bucket : BucketName) (tenant schemaName : Text) (dryRun : Bool)
    (record : RawPayloadRecord) (result : MigrationInspectionResult) :
    StoreProg MigrationInspectionResult :=
  let result := { result with recordsInspected := result.recordsInspected + 1 }
  match classify bucket record tenant schemaName with
  | (.alreadyMigrated, _) => return { result with alreadyMigrated := result.alreadyMigrated + 1 }
  | (_, none) =>
    return result.conflict record
      "storage_uri does not match any recognized key shape for this record"
  | (category, some key) => inspectLegacy bucket category key dryRun record result

theorem inspectRecord_legacy {bucket : BucketName} {tenant schemaName key : Text} {dryRun : Bool}
    {record : RawPayloadRecord} {category : Category}
    (hclass : classify bucket record tenant schemaName = (category, some key))
    (hne : category ≠ .alreadyMigrated) (result : MigrationInspectionResult) :
    inspectRecord bucket tenant schemaName dryRun record result =
      inspectLegacy bucket category key dryRun record
        { result with recordsInspected := result.recordsInspected + 1 } := by
  cases category with
  | alreadyMigrated => exact absurd rfl hne
  | _ => simp only [inspectRecord, hclass]

/-- What a pass is asked to do; a callback that is absent is never called. -/
structure MigrationOptions where
  dryRun : Bool := true
  batchSize : Nat := 100
  progressCallback : Bool := false
  cancelCheck : Bool := false

def reportProgress (options : MigrationOptions) (result : MigrationInspectionResult) :
    StoreProg Unit :=
  if options.progressCallback then storeCall (.progressCallback result) else return ()

def pollCancel (options : MigrationOptions) : StoreProg Bool :=
  if options.cancelCheck then storeCall .cancelCheck else return false

/-- The loop over the records; `since` counts those since the last callback. -/
def migrateRecords (bucket : BucketName) (tenant schemaName : Text) (options : MigrationOptions) :
    List RawPayloadRecord → Nat → MigrationInspectionResult → StoreProg MigrationInspectionResult
  | [], _, result => return result
  | record :: records, since, result => do
    let result ← inspectRecord bucket tenant schemaName options.dryRun record result
    if since + 1 ≥ options.batchSize then
      reportProgress options result
      let cancelled ← pollCancel options
      if cancelled then return result
      else migrateRecords bucket tenant schemaName options records 0 result
    else migrateRecords bucket tenant schemaName options records (since + 1) result

def MigrationInspectionResult.skipped (result : MigrationInspectionResult) :
    MigrationInspectionResult :=
  { result with recordsSkipped :=
      result.alreadyMigrated + result.missingObjects + result.checksumConflicts }

/-- A pass over the records of the active tenant. The records are read by one
query, ordered by id. -/
def runRawPayloadMigration (bucket : BucketName) (schemaName : Text)
    (options : MigrationOptions) : StoreProg MigrationInspectionResult := do
  match ← storeCall .tenantUuid with
  | .error e => raiseError e
  | .ok tenant =>
    let records ← storeCall .selectRecords
    let result ← migrateRecords bucket tenant.text schemaName options records 0 {}
    reportProgress options result.skipped
    return result.skipped

end DataLake
