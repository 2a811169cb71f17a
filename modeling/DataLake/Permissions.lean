import DataLake.Dispatch
import DataLake.MigrationJobs
import Mathlib.Data.List.Sort

/-! Who may open which page of the operator's interface: the checks on a user, and the
views that only read. -/

namespace DataLake

open Foundation

inductive Role where
  | owner
  | admin
  | engineer
  | analyst
deriving DecidableEq

/-- An anonymous visitor is a user who is not authenticated. -/
structure User where
  id : Nat
  isAuthenticated : Bool := true
  isStaff : Bool := false
deriving DecidableEq

structure Membership where
  user : Nat
  organization : Nat
  role : Role := .engineer
deriving DecidableEq

def continuationRoles : List Role := [.owner, .admin, .engineer]

def viewRoles : List Role := [.owner, .admin, .engineer, .analyst]

/-- The set that the pages of the migration tool name. -/
def migrationRoles : List Role := [.owner, .admin]

/-- The tables of organizations and of memberships, with the constraint
`unique_membership_per_org`. -/
structure Directory where
  organizations : List OrganizationRow
  memberships : List Membership
  ids : (organizations.map OrganizationRow.id).Nodup
  unique : memberships.Pairwise fun a b => a.user = b.user → a.organization ≠ b.organization

def isPlatformOperator (user : User) : Bool := user.isAuthenticated && user.isStaff

def permissionDenied (message : String) : Exc := .other message

def requirePlatformOperator (user : User) : Except Exc Unit :=
  if isPlatformOperator user then .ok ()
  else .error (permissionDenied "this action requires platform-operator access")

namespace Directory

variable (d : Directory)

def getMembership (user : User) (organization : Nat) : Option Membership :=
  if user.isAuthenticated then
    d.memberships.find? fun m => m.user = user.id && m.organization = organization
  else none

/-- The membership of a platform operator may be absent. -/
def requireOrgRole (user : User) (organization : Nat) (allowed : List Role) :
    Except Exc (Option Membership) :=
  if isPlatformOperator user then .ok (d.getMembership user organization)
  else
    match d.getMembership user organization with
    | some m =>
      if m.role ∈ allowed then .ok (some m)
      else .error (permissionDenied "you do not have access to this organization")
    | none => .error (permissionDenied "you do not have access to this organization")

def requireOrgMember (user : User) (organization : Nat) : Except Exc (Option Membership) :=
  d.requireOrgRole user organization viewRoles

end Directory

/-! The views. -/

inductive Page (α : Type) where
  | login
  | notFound
  | forbidden
  | shown (content : α)

def Page.isShown {α : Type} : Page α → Bool
  | shown _ => true
  | _ => false

def loginRequired {α : Type} (user : User) (page : Page α) : Page α :=
  if user.isAuthenticated then page else .login

def getOr404 {α β : Type} (row : Option α) (page : α → Page β) : Page β :=
  match row with
  | some a => page a
  | none => .notFound

def permitted {α β : Type} (role : Except Exc α) (page : α → Page β) : Page β :=
  match role with
  | .ok a => page a
  | .error _ => .forbidden

structure JobPage where
  organization : OrganizationRow
  job : Option RawPayloadMigrationJob
  canOperate : Bool

/-- The table is ordered by `-created_at`. -/
def latestJob (jobs : List RawPayloadMigrationJob) (organization : Nat) :
    Option RawPayloadMigrationJob :=
  jobs.reverse.find? fun job => job.organization.id = organization

namespace Directory

variable (d : Directory) (jobs : List RawPayloadMigrationJob)

/-- The join of the organizations with the memberships of the user that have one of the
roles: one row for each pair. -/
def managed (user : User) : List OrganizationRow :=
  d.organizations.flatMap fun org =>
    (d.memberships.filter fun m =>
      m.organization = org.id && (m.user = user.id && m.role ∈ migrationRoles)).map fun _ => org

/-- `le` is the database's order on names. -/
def orgList (le : String → String → Bool) (user : User) : Page (List OrganizationRow) :=
  loginRequired user <|
    let organizations := if isPlatformOperator user then d.organizations else d.managed user
    .shown (organizations.mergeSort fun a b => le a.name b.name)

def migrationOrgDetail (user : User) (orgId : Nat) : Page JobPage :=
  loginRequired user <|
    getOr404 (d.organizations.find? fun org => org.id = orgId) fun organization =>
      permitted (d.requireOrgRole user organization.id migrationRoles) fun _ =>
        .shown
          { organization
            job := (activeJob jobs organization.id).or (latestJob jobs organization.id)
            canOperate := isPlatformOperator user }

/-- The pages of one job, which differ in what they show of it. -/
def jobPage {α : Type} (user : User) (jobId : Uuid) (content : RawPayloadMigrationJob → α) :
    Page α :=
  loginRequired user <|
    getOr404 (findJob jobs jobId) fun job =>
      permitted (d.requireOrgRole user job.organization.id migrationRoles) fun _ =>
        .shown (content job)

def migrationJobDetail (user : User) (jobId : Uuid) : Page JobPage :=
  d.jobPage jobs user jobId fun job =>
    { organization := job.organization, job := some job, canOperate := isPlatformOperator user }

def migrationJobProgress (user : User) (jobId : Uuid) : Page RawPayloadMigrationJob :=
  d.jobPage jobs user jobId id

end Directory

def JobStatus.display : JobStatus → String
  | pending => "Pending"
  | running => "Running"
  | succeeded => "Succeeded"
  | partiallyFailed => "Partially failed"
  | failed => "Failed"
  | cancelled => "Cancelled"

/-- The lines of the exported text; `showTime` is how a time is printed. -/
def exportLines (showTime : Nat → String) (job : RawPayloadMigrationJob) : List String :=
  [s!"Raw payload migration job {String.ofList job.id.text}",
    s!"Organization: {job.organization.name} ({String.ofList job.organization.schemaName})",
    "Mode: " ++ (if job.dryRun then "dry-run" else "migration"),
    s!"Status: {job.status.display}",
    "Started: " ++ job.startedAt.elim "-" showTime,
    "Finished: " ++ job.finishedAt.elim "-" showTime,
    "",
    s!"Records inspected:   {job.result.recordsInspected}",
    s!"Already migrated:    {job.result.alreadyMigrated}",
    s!"Legacy unprefixed:   {job.result.legacyUnprefixed}",
    s!"Schema-prefixed:     {job.result.schemaPrefixed}",
    s!"Missing objects:     {job.result.missingObjects}",
    s!"Checksum conflicts:  {job.result.checksumConflicts}",
    s!"Ready for migration: {job.result.readyForMigration}",
    s!"Records migrated:    {job.result.recordsMigrated}",
    s!"Records skipped:     {job.result.recordsSkipped}"] ++
  match job.errorMessage with
  | none | some "" => []
  | some message => ["", s!"Error: {message}"]

def Directory.migrationJobExport (d : Directory) (jobs : List RawPayloadMigrationJob)
    (showTime : Nat → String) (user : User) (jobId : Uuid) : Page String :=
  d.jobPage jobs user jobId fun job => "\n".intercalate (exportLines showTime job) ++ "\n"

/-! The pages of an organization's own pipelines. -/

structure RunPage where
  pipeline : Pipeline
  run : PipelineRun
  existingContinuation : Option PipelineRun
  canContinue : Bool
  isContinuable : Bool

/-- What the page of a run shows to a user with the membership, if any. -/
def runPage (user : User) (membership : Option Membership) (runs : List PipelineRun)
    (pipeline : Pipeline) (run : PipelineRun) : RunPage :=
  let existing := runs.reverse.find? fun row => row.continuedFrom = some run.id
  { pipeline, run
    existingContinuation := existing
    canContinue := isContinuable run && existing.isNone &&
      (isPlatformOperator user || membership.any fun m => m.role ∈ continuationRoles)
    isContinuable := isContinuable run }

namespace Directory

variable (d : Directory) (user : User) (organization : Nat) (pipelines : List Pipeline)
  (runs : List PipelineRun)

/-- The pipelines are given in the order of their names. -/
def tenantHome : Page (List Pipeline) :=
  loginRequired user <| permitted (d.requireOrgMember user organization) fun _ => .shown pipelines

def runList (pipelineId : Uuid) : Page (Pipeline × List PipelineRun) :=
  loginRequired user <| permitted (d.requireOrgMember user organization) fun _ =>
    getOr404 (pipelines.find? fun pipeline => pipeline.id = pipelineId) fun pipeline =>
      .shown (pipeline, (runs.reverse.filter fun run => run.pipeline = pipeline.id).take 50)

def runDetail (pipelineId runId : Uuid) : Page RunPage :=
  loginRequired user <| permitted (d.requireOrgMember user organization) fun membership =>
    getOr404 (pipelines.find? fun pipeline => pipeline.id = pipelineId) fun pipeline =>
      getOr404 ((findRun runs runId).filter fun run => run.pipeline = pipeline.id) fun run =>
        .shown (runPage user membership runs pipeline run)

end Directory

end DataLake
