import DataLake.Foundation.Mirrors
import DataLake.JobOutcome

/-! The management command for the migration, which runs the pass in a console instead of a
worker, and its agreement with the task. -/

namespace DataLake

open Foundation

/-! The command. -/

inductive ConsoleOp where
  | store (op : StoreOp)
  | write (text : String)

@[reducible] def ConsoleOp.Resp : ConsoleOp → Type
  | store op => op.Resp
  | write _ => Unit

abbrev ConsoleSig : Signature := ⟨ConsoleOp, ConsoleOp.Resp⟩

abbrev ConsoleProg (α : Type) := Prog ConsoleSig Exc α

def consoleCall (op : ConsoleOp) : ConsoleProg op.Resp := Prog.perform (S := ConsoleSig) op

/-- What `_progress` writes. -/
def progressLine (result : MigrationInspectionResult) : String :=
  s!"  ...{result.recordsInspected} records inspected so far"

def summary (schemaName : Text) (dryRun : Bool) (result : MigrationInspectionResult) : String :=
  let verb := if dryRun then "Dry-run inspection" else "Migration"
  s!"{verb} complete for schema {pyRepr schemaName}:\n" ++
    s!"  records inspected:     {result.recordsInspected}\n" ++
    s!"  already migrated:      {result.alreadyMigrated}\n" ++
    s!"  legacy unprefixed:     {result.legacyUnprefixed}\n" ++
    s!"  schema-prefixed:       {result.schemaPrefixed}\n" ++
    s!"  missing objects:       {result.missingObjects}\n" ++
    s!"  checksum conflicts:    {result.checksumConflicts}\n" ++
    s!"  ready for migration:   {result.readyForMigration}\n" ++
    s!"  records migrated:      {result.recordsMigrated}\n" ++
    s!"  records skipped:       {result.recordsSkipped}"

def reviewWarning : String :=
  "Some records need manual review (missing objects and/or checksum " ++
    "conflicts) -- see the operator UI's job detail page for a sample of " ++
    "affected record identifiers, or re-run with the operator UI for a " ++
    "full review before a real migration."

/-- The callback of the pass is the command's own. -/
def commandOp : StoreOp → ConsoleOp
  | .progressCallback result => .write (progressLine result)
  | op => .store op

def commandAnswer : ∀ op, (commandOp op).Resp → op.Resp
  | .tenantUuid => id
  | .putIfAbsent _ _ => id
  | .putObject _ _ => id
  | .headObject _ => id
  | .getObject _ => id
  | .getOrCreateRecord _ => id
  | .saveLoaded _ => id
  | .selectRecords => id
  | .saveStorageUri _ _ => id
  | .progressCallback _ => id
  | .cancelCheck => id

def commandPass (bucket : BucketName) (schemaName : Text) (dryRun : Bool) :
    ConsoleProg MigrationInspectionResult :=
  (runRawPayloadMigration bucket schemaName { dryRun, progressCallback := true }).embed
    (T := ConsoleSig) commandOp commandAnswer

/-- What the command writes after the pass. -/
def writeSummary (schemaName : Text) (dryRun : Bool) (result : MigrationInspectionResult) :
    ConsoleProg Unit := do
  consoleCall (.write (summary schemaName dryRun result))
  if result.missingObjects ≠ 0 || result.checksumConflicts ≠ 0 then
    consoleCall (.write reviewWarning)
  else return ()

/-- A `ConfigurationError` becomes a `CommandError` of the same text. -/
def asCommandError : Exc → Exc
  | .dataLake e => if e.category = "ConfigurationError" then .other e.message else .dataLake e
  | .other message => .other message

/-- `Command.handle`. -/
def migrateRawPayloadStorage (bucket : BucketName) (schemaName : Text) (dryRun : Bool) :
    ConsoleProg Unit :=
  (commandPass bucket schemaName dryRun).handle (writeSummary schemaName dryRun)
    fun e => .raise (asCommandError e)

/-- The store as it is seen from the schema, and what is on the screen. -/
structure Console where
  store : StoreWorld
  screen : List String := []

def execConsole (tenant : Uuid) : Exec ConsoleSig StoreAnswer Console
  | .store op, a, v =>
    if underTenant tenant a then
      (execStore op a v.store).map fun x => (x.1, { v with store := x.2 })
    else none
  | .write text, .done _, v => some ((), { v with screen := v.screen ++ [text] })
  | .write _, _, _ => none

@[simp] theorem asCommandError_text (e : Exc) : (asCommandError e).text = e.text := by
  cases e with
  | dataLake e =>
    by_cases hcategory : e.category = "ConfigurationError"
    · simp [asCommandError, hcategory, Exc.text]
    · simp [asCommandError, hcategory]
  | other message => rfl

/-! What an operator is told by either. -/

/-- The counters are those of the last line of progress, or the first ones. -/
def Reported (first : MigrationInspectionResult) (screen : List String)
    (result : MigrationInspectionResult) : Prop :=
  (screen = [] ∧ result = first) ∨ ∃ before, screen = before ++ [progressLine result]

/-- What the command writes last. -/
def closingLines (schemaName : Text) (dryRun : Bool) (result : MigrationInspectionResult) :
    List String :=
  summary schemaName dryRun result ::
    if result.missingObjects ≠ 0 || result.checksumConflicts ≠ 0 then [reviewWarning] else []

/-- The row of the task says what the command told: the counters and how it ended. -/
def Concur (platform : Platform) (job row : RawPayloadMigrationJob) (screen : List String) :
    Except Exc Unit → Prop
  | .ok _ => row.status = finalStatus false job.dryRun row.result ∧
      ∃ before, screen = before ++ closingLines job.organization.schemaName job.dryRun row.result
  | .error e => row.status = .failed ∧
      row.errorMessage = some (sanitizeErrorMessage platform e.text) ∧
      Reported job.result screen row.result

/-! The pass, run by either. -/

/-- The task of the job has saved RUNNING, and both have come to the same point. -/
structure Beside (tenant : Uuid) (job : RawPayloadMigrationJob) (w : OpsWorld) (v : Console) :
    Prop where
  tenants : w.tenantUuids job.organization.schemaName = tenant
  store : w.storeIn job.organization.schemaName = v.store
  row : ∃ row, findJob w.jobs job.id = some row ∧ row.cancelRequested = false ∧
    Reported job.result v.screen row.result

variable {tenant : Uuid} {job row : RawPayloadMigrationJob} {w : OpsWorld} {v : Console}
  {platform : Platform}

theorem execConsole_store {op : StoreOp} {a : StoreAnswer} {r : op.Resp} {v' : Console}
    (h : execConsole tenant (.store op) a v = some (r, v')) :
    ∃ s, underTenant tenant a = true ∧ execStore op a v.store = some (r, s) ∧
      v' = { v with store := s } := by
  simp only [execConsole] at h
  split_ifs at h with htenant
  simp only [Option.map_eq_some_iff, Prod.exists, Prod.mk.injEq] at h
  obtain ⟨r', s, he, rfl, rfl⟩ := h
  exact ⟨s, htenant, he, rfl⟩

theorem execConsole_write {text : String} {a : StoreAnswer} {r : Unit} {v' : Console}
    (h : execConsole tenant (.write text) a v = some (r, v')) :
    v' = { v with screen := v.screen ++ [text] } := by
  cases a with
  | done fresh =>
    cases h
    rfl
  | _ => cases h

/-- The same answer of the object service or the database does for both. -/
theorem Beside.answered_store (h : Beside tenant job w v) (op : StoreOp) :
    Prog.Answered execJobs (execConsole tenant) (.store job.organization.schemaName op) (.store op)
      (fun r r' w v => r = r' ∧ Beside tenant job w v) w v where
  there c r w' he := by
    obtain ⟨a, s, htenant, hstore, rfl⟩ := execJobs_store he
    rw [h.tenants] at htenant
    rw [h.store] at hstore
    refine ⟨a, r, { v with store := s }, ?_, rfl, h.tenants, withStore_storeIn _ _ _, h.row⟩
    simp [execConsole, htenant, hstore]
  back a r v' he := by
    obtain ⟨s, htenant, hstore, rfl⟩ := execConsole_store he
    refine ⟨.raw a, r, w.withStore job.organization.schemaName s, ?_, rfl, h.tenants,
      withStore_storeIn _ _ _, h.row⟩
    simp [execJobs, h.tenants, h.store, htenant, hstore]

theorem Beside.reported (h : Beside tenant job w v) (result : MigrationInspectionResult)
    (now : Nat) :
    Beside tenant job
      { w with jobs := updateJob job.id now (fun job => { job with result }) w.jobs }
      { v with screen := v.screen ++ [progressLine result] } := by
  obtain ⟨row, hrow, hasked, -⟩ := h.row
  exact ⟨h.tenants, h.store, _, findJob_savedResult hrow, hasked, .inr ⟨v.screen, rfl⟩⟩

theorem Beside.answered (h : Beside tenant job w v) {op : StoreOp} (hop : op ≠ .cancelCheck) :
    Prog.Answered execJobs (execConsole tenant) (taskOp job op) (commandOp op)
      (fun r r' w v => taskAnswer job op r = commandAnswer op r' ∧ Beside tenant job w v) w v := by
  cases op with
  | progressCallback result =>
    constructor
    · intro c r w' he
      obtain ⟨now, rfl⟩ := execJobs_saveResult he
      exact ⟨.done ⟨0⟩, (), _, rfl, rfl, h.reported result now⟩
    · intro a r v' he
      obtain rfl := execConsole_write he
      exact ⟨.clock 0, (), _, rfl, rfl, h.reported result 0⟩
  | cancelCheck => exact absurd rfl hop
  | _ => exact h.answered_store _

theorem Beside.embed (h : Beside tenant job w v) {α : Type} {p : StoreProg α}
    (hp : p.Issues (· ≠ StoreOp.cancelCheck)) :
    Prog.Mirrors execJobs (execConsole tenant) (Prog.Alike (Beside tenant job))
      (p.embed (T := JobSig) (taskOp job) (taskAnswer job))
      (p.embed (T := ConsoleSig) commandOp commandAnswer) w v :=
  Prog.Mirrors.embed (fun _ _ _ hop h => h.answered hop) hp h

/-- The task asks whether to stop, and it is told to go on. -/
theorem Beside.pollCancel (h : Beside tenant job w v) (dryRun : Bool) :
    Prog.Mirrors execJobs (execConsole tenant) (fun out out' w v =>
      out = .ok false ∧ out' = .ok false ∧ Beside tenant job w v)
      ((pollCancel { dryRun, progressCallback := true, cancelCheck := true }).embed (T := JobSig)
        (taskOp job) (taskAnswer job))
      ((pollCancel { dryRun, progressCallback := true }).embed (T := ConsoleSig) commandOp
        commandAnswer) w v := by
  obtain ⟨row, hrow, hasked, hreported⟩ := h.row
  apply Prog.Mirrors.call_left
  · exact ⟨.clock 0, (row.cancelRequested, w), by simp [taskOp, execJobs, hrow]⟩
  · intro c r w' he
    obtain ⟨rfl, row', hrow', rfl⟩ := execJobs_refreshCancelRequested he
    rw [hrow] at hrow'
    obtain rfl := Option.some.inj hrow'
    exact .ret ⟨congrArg _ hasked, rfl, h⟩

theorem Beside.migrateRecords (h : Beside tenant job w v) (bucket : BucketName)
    (tenantText : Text) (dryRun : Bool) (records : List RawPayloadRecord) (since : Nat)
    (result : MigrationInspectionResult) :
    Prog.Mirrors execJobs (execConsole tenant) (Prog.Alike (Beside tenant job))
      ((DataLake.migrateRecords bucket tenantText job.organization.schemaName
        { dryRun, progressCallback := true, cancelCheck := true } records since result).embed
          (T := JobSig) (taskOp job) (taskAnswer job))
      ((DataLake.migrateRecords bucket tenantText job.organization.schemaName
        { dryRun, progressCallback := true } records since result).embed
          (T := ConsoleSig) commandOp commandAnswer) w v := by
  induction records generalizing since result w v with
  | nil => exact .ret ⟨rfl, h⟩
  | cons record records ih =>
    simp only [DataLake.migrateRecords, Prog.embed_bind]
    have hrecord : (inspectRecord bucket tenantText job.organization.schemaName dryRun record
        result).Issues (· ≠ StoreOp.cancelCheck) := by
      refine (issues_inspectRecord _ _ _ _ _ _).mono fun op hop heq => ?_
      subst heq
      exact hop
    refine (h.embed hrecord).bind fun result w v h => ?_
    by_cases hbatch : since + 1 ≥ 100
    · simp only [if_pos hbatch, Prog.embed_bind]
      have hreport := issues_reportProgress (P := (· ≠ StoreOp.cancelCheck)) (fun _ => nofun)
        { dryRun, progressCallback := true } result
      refine (h.embed hreport).bind fun _ w v h => ?_
      apply (h.pollCancel dryRun).handle
      intro out out' w v hout
      obtain ⟨rfl, rfl, h⟩ := hout
      exact ih h 0 result
    · simp only [if_neg hbatch]
      exact ih h (since + 1) result

theorem Beside.pass (h : Beside tenant job w v) :
    Prog.Mirrors execJobs (execConsole tenant) (Prog.Alike (Beside tenant job))
      (migrationPass platform job)
      (commandPass platform.bucket job.organization.schemaName job.dryRun) w v := by
  simp only [migrationPass, commandPass, runRawPayloadMigration, Prog.embed_bind]
  have hask : ∀ op : StoreOp, op ≠ .cancelCheck → (storeCall op).Issues (· ≠ StoreOp.cancelCheck) :=
    fun op hop => ⟨hop, fun _ => trivial⟩
  refine (h.embed (hask .tenantUuid (by simp))).bind fun r w v h => ?_
  cases r with
  | error e => exact .raise ⟨rfl, h⟩
  | ok uuid =>
    simp only [Prog.embed_bind]
    refine (h.embed (hask .selectRecords (by simp))).bind fun records w v h => ?_
    refine (h.migrateRecords platform.bucket uuid.text job.dryRun records 0 {}).bind
      fun result w v h => ?_
    have hreport := issues_reportProgress (P := (· ≠ StoreOp.cancelCheck)) (fun _ => by simp)
      { dryRun := job.dryRun, progressCallback := true } result.skipped
    exact (h.embed hreport).bind fun _ w v h => .ret ⟨rfl, h⟩

/-! What either does after the pass. -/

/-- The job is done, and so is the command. -/
def Finished (platform : Platform) (job : RawPayloadMigrationJob) (out told : Except Exc Unit)
    (w : OpsWorld) (v : Console) : Prop :=
  out = .ok () ∧ w.storeIn job.organization.schemaName = v.store ∧
    ∃ row, findJob w.jobs job.id = some row ∧ Concur platform job row v.screen told

section Calls

variable {α β : Type} {Q : Except Exc α → Except Exc β → OpsWorld → Console → Prop}
  {q : ConsoleProg β}

/-- Only the task makes the call. -/
theorem mirrors_jobCall {op : JobOp} {f : op.Resp → JobProg α}
    (hanswer : ∃ c x, execJobs op c w = some x)
    (h : ∀ c r w', execJobs op c w = some (r, w') →
      Prog.Mirrors execJobs (execConsole tenant) Q (f r) q w' v) :
    Prog.Mirrors execJobs (execConsole tenant) Q (jobCall op >>= f) q w v :=
  Prog.Mirrors.call_left hanswer h

theorem mirrors_now {f : Nat → JobProg α}
    (h : ∀ now, Prog.Mirrors execJobs (execConsole tenant) Q (f now) q w v) :
    Prog.Mirrors execJobs (execConsole tenant) Q (jobCall .now >>= f) q w v := by
  apply mirrors_jobCall ⟨.clock 0, (0, w), rfl⟩
  intro c now w' he
  obtain rfl := execJobs_now he
  exact h now

/-- A save that the constraint on active jobs lets through. -/
theorem mirrors_saveStatus {fields : StatusFields} {copy : RawPayloadMigrationJob}
    {id : Uuid} {f : Except Exc Unit → JobProg α} (hid : copy.id = id)
    (hrow : findJob w.jobs id = some row)
    (hfree : copy.status.active = true → hasOtherActive w.jobs id row.organization.id = false)
    (h : ∀ now w', w' = { w with jobs := updateJob id now (fields.write copy) w.jobs } →
      findJob w'.jobs id = some { fields.write copy row with updatedAt := now } →
      Prog.Mirrors execJobs (execConsole tenant) Q (f (.ok ())) q w' v) :
    Prog.Mirrors execJobs (execConsole tenant) Q (jobCall (.saveStatus fields copy) >>= f) q w
      v := by
  subst hid
  have hallowed : (copy.status.active && hasOtherActive w.jobs copy.id row.organization.id) =
      false := by
    cases hactive : copy.status.active with
    | true => simp [hfree hactive]
    | false => rfl
  have hanswer : ∀ now, execJobs (.saveStatus fields copy) (.clock now) w =
      some (.ok (), { w with jobs := updateJob copy.id now (fields.write copy) w.jobs }) := by
    intro now
    simp [execJobs, hrow, hallowed]
  apply mirrors_jobCall ⟨.clock 0, _, hanswer 0⟩
  intro c r w' he
  cases c with
  | clock now =>
    rw [hanswer now] at he
    cases he
    have hsaved : findJob (updateJob copy.id now (fields.write copy) w.jobs) copy.id =
        some (if copy.id = copy.id then { fields.write copy row with updatedAt := now } else row) :=
      findJob_saved (fields.write_id copy) hrow
    rw [if_pos rfl] at hsaved
    exact h now _ rfl hsaved
  | _ => cases he

/-- Only the command writes a text. -/
theorem mirrors_write {p : JobProg α} {text : String} {f : Unit → ConsoleProg β}
    (h : Prog.Mirrors execJobs (execConsole tenant) Q p (f ()) w
      { v with screen := v.screen ++ [text] }) :
    Prog.Mirrors execJobs (execConsole tenant) Q p (consoleCall (.write text) >>= f) w v := by
  apply Prog.Mirrors.call_right ⟨.done ⟨0⟩, _, rfl⟩
  intro a r v' he
  obtain rfl := execConsole_write he
  exact h

end Calls

/-- What the command writes after the pass does to the screen. -/
theorem mirrors_writeSummary {α : Type}
    {Q : Except Exc α → Except Exc Unit → OpsWorld → Console → Prop} {p : JobProg α}
    {schemaName : Text} {dryRun : Bool} {result : MigrationInspectionResult}
    (h : Prog.Mirrors execJobs (execConsole tenant) Q p (.ret ()) w
      { v with screen := v.screen ++ closingLines schemaName dryRun result }) :
    Prog.Mirrors execJobs (execConsole tenant) Q p (writeSummary schemaName dryRun result) w v := by
  apply mirrors_write
  unfold closingLines at h
  by_cases hreview : (result.missingObjects ≠ 0 || result.checksumConflicts ≠ 0) = true
  · rw [if_pos hreview] at h ⊢
    apply mirrors_write (f := fun _ => .ret ())
    simpa using h
  · rw [if_neg hreview] at h ⊢
    exact h

theorem finalStatus_active (cancelRequested dryRun : Bool) (result : MigrationInspectionResult) :
    (finalStatus cancelRequested dryRun result).active = false := by
  unfold finalStatus
  split_ifs <;> rfl

theorem Beside.finishJob (h : Beside tenant job w v) (result : MigrationInspectionResult) :
    Prog.Mirrors execJobs (execConsole tenant) (Finished platform job)
      (DataLake.finishJob job result)
      (writeSummary job.organization.schemaName job.dryRun result) w v := by
  obtain ⟨row, hrow, hasked, -⟩ := h.row
  apply mirrors_writeSummary
  apply mirrors_jobCall ⟨.clock 0, _, rfl⟩
  intro c _ w' he
  obtain ⟨now, rfl⟩ := execJobs_saveResult he
  have hsaved : findJob (updateJob job.id now (fun job => { job with result }) w.jobs) job.id =
      some { row with result, updatedAt := now } := findJob_savedResult hrow
  apply mirrors_jobCall ⟨.clock 0, _, by simp [execJobs, hsaved]; rfl⟩
  intro c asked w' he
  obtain ⟨rfl, row', hrow', rfl⟩ := execJobs_refreshCancelRequested he
  obtain rfl := Option.some.inj (hsaved.symm.trans hrow')
  apply mirrors_now
  intro finishedAt
  apply mirrors_saveStatus ?_ hsaved
  · intro hactive
    cases hactive.symm.trans (finalStatus_active _ _ _)
  · intro now' w' hw' hfound
    subst hw'
    refine .ret ⟨rfl, h.store, _, hfound, ?_, v.screen, rfl⟩
    show finalStatus row.cancelRequested job.dryRun result = finalStatus false job.dryRun result
    rw [hasked]
  · rfl

/-- The row of a failed job has the text that the command ends with. -/
theorem Beside.failJob (h : Beside tenant job w v) (e : Exc) :
    Prog.Mirrors execJobs (execConsole tenant) (Finished platform job)
      (DataLake.failJob platform job e) (.raise (asCommandError e)) w v := by
  obtain ⟨row, hrow, -, hreported⟩ := h.row
  apply mirrors_now
  intro now
  apply mirrors_saveStatus ?_ hrow
  · intro hactive
    cases hactive
  · intro now' w' hw' hfound
    subst hw'
    refine .ret_raise ⟨rfl, h.store, _, hfound, rfl, ?_, hreported⟩
    rw [asCommandError_text]
    rfl
  · rfl

/-- The task is the command's mirror from its start. -/
theorem mirrors_task (platform : Platform) (hrow : findJob w.jobs job.id = some job)
    (hasked : job.cancelRequested = false)
    (hfree : hasOtherActive w.jobs job.id job.organization.id = false) (task : Uuid) :
    Prog.Mirrors execJobs (execConsole (w.tenantUuids job.organization.schemaName))
      (Finished platform job) (runRawPayloadMigrationTask platform job.id task)
      (migrateRawPayloadStorage platform.bucket job.organization.schemaName job.dryRun) w
      ⟨w.storeIn job.organization.schemaName, []⟩ := by
  apply mirrors_jobCall ⟨.clock 0, _, rfl⟩
  intro c found w he
  obtain ⟨rfl, rfl⟩ := execJobs_getJob he
  rw [hrow]
  apply mirrors_now
  intro now
  apply mirrors_saveStatus ?_ hrow fun _ => hfree
  · intro now' w₁ hw₁ hfound
    have hbeside : Beside (w.tenantUuids job.organization.schemaName) (startedJob job task now) w₁
        ⟨w.storeIn job.organization.schemaName, []⟩ := by
      subst hw₁
      exact ⟨rfl, rfl, _, hfound, hasked, .inl ⟨rfl, rfl⟩⟩
    apply hbeside.pass.handle
    intro out out' w v hout
    obtain ⟨rfl, h⟩ := hout
    cases out with
    | ok result => exact h.finishJob result
    | error e => exact h.failJob e
  · rfl

/-- The command and the task of an uncancelled job that may start do the same: for every run of
the task there is one of the command that leaves the same objects and records, and the other
way round, and the job's row tells what the command does. The task itself never raises. -/
theorem command_does_the_task (platform : Platform) {job : RawPayloadMigrationJob} {w : OpsWorld}
    (hrow : findJob w.jobs job.id = some job) (hasked : job.cancelRequested = false)
    (hfree : hasOtherActive w.jobs job.id job.organization.id = false) (task : Uuid) :
    let schemaName := job.organization.schemaName
    let command := migrateRawPayloadStorage platform.bucket schemaName job.dryRun
    let exec := execConsole (w.tenantUuids schemaName)
    (∀ out w', (runRawPayloadMigrationTask platform job.id task).Runs execJobs w out w' →
      out = .ok () ∧ ∃ told screen row,
        command.Runs exec ⟨w.storeIn schemaName, []⟩ told ⟨w'.storeIn schemaName, screen⟩ ∧
        findJob w'.jobs job.id = some row ∧ Concur platform job row screen told) ∧
    ∀ told v, command.Runs exec ⟨w.storeIn schemaName, []⟩ told v → ∃ w' row,
      (runRawPayloadMigrationTask platform job.id task).Runs execJobs w (.ok ()) w' ∧
      w'.storeIn schemaName = v.store ∧
      findJob w'.jobs job.id = some row ∧ Concur platform job row v.screen told := by
  intro schemaName command exec
  have hmirror := mirrors_task platform hrow hasked hfree task
  constructor
  · intro out w' hrun
    obtain ⟨told, v, hcommand, hout, hstore, row, hfound, htold⟩ := hmirror.there out w' hrun
    refine ⟨hout, told, v.screen, row, ?_, hfound, htold⟩
    rw [hstore]
    exact hcommand
  · intro told v hrun
    obtain ⟨out, w', htask, rfl, hstore, row, hfound, htold⟩ := hmirror.back told v hrun
    exact ⟨w', row, htask, hstore, hfound, htold⟩

def undisturbedConsole : ConsoleOp → StoreAnswer
  | .store .tenantUuid => .tenant (.ok ⟨1⟩)
  | _ => .done ⟨0⟩

theorem command_does_the_task_legacy : ∃ v w' row,
    (migrateRawPayloadStorage smallPlatform.bucket acme.schemaName false).Runs (execConsole ⟨1⟩)
      ⟨legacyMigration.initial, []⟩ (.ok ()) v ∧
    (runRawPayloadMigrationTask smallPlatform ⟨6⟩ ⟨5⟩).Runs execJobs legacyOps (.ok ()) w' ∧
    w'.storeIn acme.schemaName = v.store ∧ findJob w'.jobs ⟨6⟩ = some row ∧
    Concur smallPlatform legacyJob row v.screen (.ok ()) := by
  have hends : ((migrateRawPayloadStorage smallPlatform.bucket acme.schemaName false).eval
      (execConsole ⟨1⟩) undisturbedConsole ⟨legacyMigration.initial, []⟩).map
        (fun x => x.1.toBool) = some true := by
    decide +kernel
  obtain ⟨⟨told, v⟩, heval, htold⟩ := Option.map_eq_some_iff.mp hends
  cases told with
  | error e => cases htold
  | ok _ =>
    have hcommand : (migrateRawPayloadStorage smallPlatform.bucket acme.schemaName false).Runs
        (execConsole ⟨1⟩) ⟨legacyMigration.initial, []⟩ (.ok ()) v := Prog.Runs.of_eval _ heval
    have hjob : findJob legacyOps.jobs legacyJob.id = some legacyJob := rfl
    have hmirror := command_does_the_task smallPlatform hjob rfl (by decide) ⟨5⟩
    obtain ⟨w', row, htask, hstore, hfound, hconcur⟩ := hmirror.2 (.ok ()) v hcommand
    exact ⟨v, w', row, hcommand, htask, hstore, hfound, hconcur⟩

end DataLake
