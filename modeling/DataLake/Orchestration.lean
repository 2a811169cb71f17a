import DataLake.RestApiSource

/-! The body of a pipeline run: extract a page, keep its payload, map it, load it,
save the progress; then record how the attempt ended. -/

namespace DataLake

open Foundation

/-- A pipeline and its connections, as the claim of a run reads them. -/
structure Pipeline where
  id : Uuid
  isActive : Bool
  sourceConnection : Uuid
  destinationConnection : Uuid
  sourceConfig : RestApiConfig
  destinationMapping : DestinationMapping
  strictMapping : Bool

/-- The bucket, and the library functions a run applies to texts. -/
structure Platform where
  bucket : BucketName
  loads : Bytes → Except String Json
  redact : String → String

def maxErrorMessageLength : Nat := 1000

def sanitizeErrorMessage (platform : Platform) (message : String) : String :=
  let redacted := platform.redact message
  if redacted.length > maxErrorMessageLength then
    String.ofList (redacted.toList.take maxErrorMessageLength) ++ "... [truncated]"
  else redacted

def rawCall {α : Type} (p : StoreProg α) : RunProg α :=
  p.embed (T := RunSig) RunOp.raw fun _ r => r

/-- `a or b` of two texts that may be `None`. -/
def pyOr : Option Text → Option Text → Option Text
  | some (c :: cs), _ => some (c :: cs)
  | _, b => b

def rawPage (run : PipelineRun) (page : FetchResult) : RawPage where
  run := run.id
  pipeline := run.pipeline
  sequence := run.pagesExtracted + 1
  data := page.rawPayload
  contentType := page.rawContentType
  cursorUsed := page.cursorUsed
  nextCursor := page.nextCursor
  itemCount := page.records.length
  sourcePath := page.sourcePath.getD []
  httpStatus := page.httpStatus

def withPage (run : PipelineRun) (page : FetchResult) (loaded : Nat) : PipelineRun :=
  { run with
    pagesExtracted := run.pagesExtracted + 1
    recordsExtracted := run.recordsExtracted + page.records.length
    recordsLoaded := run.recordsLoaded + loaded
    rawPayloadCount := run.rawPayloadCount + 1
    lastSuccessfulCursor := pyOr page.nextCursor page.cursorUsed }

def processPage (platform : Platform) (pipeline : Pipeline) (run : PipelineRun)
    (page : FetchResult) : RunProg PipelineRun := do
  let record ← rawCall (storeRawPayload platform.bucket (rawPage run page))
  let rows ← orRaise ((mapRecords page.records pipeline.destinationMapping
    pipeline.strictMapping).mapError Exc.dataLake)
  let answer ← runCall (.load rows)
  let loaded ← orRaise answer
  runCall (.raw (.saveLoaded { record with loadedSuccessfully := true }))
  runCall (.saveRun .progress (withPage run page loaded))
  return withPage run page loaded

def extractAndLoad (platform : Platform) (pipeline : Pipeline) (run : PipelineRun) :
    RunProg PipelineRun :=
  fetch pipeline.sourceConfig platform.loads run.lastSuccessfulCursor
    (processPage platform pipeline) run

def execute (platform : Platform) (pipeline : Pipeline) (run : PipelineRun) :
    RunProg PipelineRun := do
  if pipeline.destinationMapping.isEmpty then
    raiseError (mappingError (s!"pipeline {String.ofList pipeline.id.text} has no " ++
      "destination_mapping configured"))
  else
    let source ← runCall (.resolveCredential .source)
    let _ ← orRaise source
    let destination ← runCall (.resolveCredential .destination)
    let _ ← orRaise destination
    extractAndLoad platform pipeline run

def recordSuccess (run : PipelineRun) (task : TaskExecution) : RunProg Unit := do
  let now ← runCall .now
  let finishedAt ← runCall .now
  let run ← orRaise ((markRunSucceeded run finishedAt).mapError Exc.dataLake)
  runCall (.saveRun .outcome run)
  runCall (.saveTaskExecution { task with status := .succeeded, finishedAt := some now })

/-- Of the copy of the run, only the status and the error are saved: the pages that
this attempt has counted since the claim play no part. -/
def recordFailure (platform : Platform) (run : PipelineRun) (task : TaskExecution)
    (e : DataLakeError) (isFinal : Bool) : RunProg Unit := do
  let sanitized := { e with message := sanitizeErrorMessage platform e.message }
  if isFinal || !e.retryable then
    let finishedAt ← runCall .now
    let run ← orRaise ((markRunFailed run sanitized finishedAt).mapError Exc.dataLake)
    runCall (.saveRun .outcome run)
    let now ← runCall .now
    runCall (.saveTaskExecution { task with
      status := .failed
      errorMessage := some sanitized.message
      finishedAt := some now })
  else
    runCall (.saveRun .error (withError run sanitized))
    runCall (.saveTaskExecution { task with errorMessage := some sanitized.message })

/-- `run_pipeline` after the claim. An exception that is no domain error is recorded
and raised wrapped. -/
def runBody (platform : Platform) (pipeline : Pipeline) (run : PipelineRun) (isFinal : Bool) :
    RunProg Unit := do
  let startedAt ← runCall .now
  let task : TaskExecution := { run := run.id, attempt := run.attempt, startedAt }
  runCall (.createTaskExecution task)
  (execute platform pipeline run).handle (fun run => recordSuccess run task) fun e => do
    recordFailure platform run task e.wrapped isFinal
    raiseError e.wrapped

def maxRunAttempts : Nat := 5

/-- `self.request.retries >= self.max_retries`. -/
def isFinalAttempt (retries : Nat) : Bool := retries ≥ maxRunAttempts - 1

/-- `run_pipeline_task`: whether it asks for another attempt. -/
def asksRetry (isFinal : Bool) : Except Exc Unit → Bool
  | .error (.dataLake e) => e.retryable && !isFinal
  | _ => false

end DataLake
