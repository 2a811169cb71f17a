import DataLake.Permissions

/-! What the list of organizations and the button of a failed run promise: the pages
listed are the pages that open, and a continuation that is offered is one that is made. -/

namespace DataLake

open Foundation

/-! The pages of the migration tool. -/

def Directory.manages (d : Directory) (user : User) (organization : Nat) : Bool :=
  (d.requireOrgRole user organization migrationRoles).isOk

variable {d : Directory} {user : User} {jobs : List RawPayloadMigrationJob}

/-- A user has one membership at most in an organization, so that the row found first
decides what the join finds. -/
theorem filter_memberships {memberships : List Membership} {roles : List Role} {id organization : Nat}
    (h : memberships.Pairwise fun a b => a.user = b.user → a.organization ≠ b.organization) :
    (memberships.filter fun m => m.organization = organization && (m.user = id && m.role ∈ roles)) =
      ((memberships.find? fun m => m.user = id && m.organization = organization).filter
        fun m => m.role ∈ roles).toList := by
  induction memberships with
  | nil => rfl
  | cons m ms ih =>
    obtain ⟨hm, hms⟩ := List.pairwise_cons.mp h
    by_cases hmatch : m.user = id ∧ m.organization = organization
    · obtain ⟨huser, horg⟩ := hmatch
      have hrest : (ms.filter fun m =>
          m.organization = organization && (m.user = id && m.role ∈ roles)) = [] := by
        apply List.filter_eq_nil_iff.mpr
        intro a ha hmatch
        simp only [Bool.and_eq_true, decide_eq_true_eq] at hmatch
        exact hm a ha (huser.trans hmatch.2.1.symm) (horg.trans hmatch.1.symm)
      by_cases hrole : m.role ∈ roles <;> simp [huser, horg, hrole, hrest, Option.filter]
    · have hfind : (m.user = id && m.organization = organization) = false := by simpa using hmatch
      have hskip : (m.organization = organization && (m.user = id && m.role ∈ roles)) = false := by
        simp only [Bool.and_eq_false_imp, decide_eq_true_eq]
        intro horg huser
        exact absurd ⟨huser, horg⟩ hmatch
      rw [List.filter_cons, hskip, List.find?_cons, hfind]
      simpa using ih hms

theorem isOk_requireOrgRole {organization : Nat} {roles : List Role}
    (hoperator : isPlatformOperator user = false) :
    (d.requireOrgRole user organization roles).isOk =
      ((d.getMembership user organization).any fun m => m.role ∈ roles) := by
  unfold Directory.requireOrgRole
  rw [hoperator]
  cases d.getMembership user organization with
  | none => rfl
  | some m => by_cases hrole : m.role ∈ roles <;> simp [hrole, Except.isOk, Except.toBool]

theorem manages_operator (hoperator : isPlatformOperator user = true) (organization : Nat) :
    d.manages user organization = true := by
  simp [Directory.manages, Directory.requireOrgRole, hoperator, Except.isOk, Except.toBool]

theorem flatMap_filter {α : Type} (p : α → Bool) (xs : List α) :
    (xs.flatMap fun x => if p x then [x] else []) = xs.filter p := by
  induction xs with
  | nil => rfl
  | cons x xs ih => by_cases hp : p x <;> simp [hp, ih]

theorem managed_eq (hauth : user.isAuthenticated = true)
    (hoperator : isPlatformOperator user = false) :
    d.managed user = d.organizations.filter fun org => d.manages user org.id := by
  rw [← flatMap_filter]
  unfold Directory.managed
  congr 1
  funext org
  rw [filter_memberships d.unique, Directory.manages, isOk_requireOrgRole hoperator,
    Directory.getMembership, if_pos hauth]
  cases d.memberships.find? fun m => m.user = user.id && m.organization = org.id with
  | none => rfl
  | some m => by_cases hrole : m.role ∈ migrationRoles <;> simp [hrole, Option.filter]

theorem isShown_permitted {α β : Type} {role : Except Exc α} {content : α → β} :
    (permitted role fun a => Page.shown (content a)).isShown = role.isOk := by
  cases role <;> rfl

theorem isShown_orgDetail (hauth : user.isAuthenticated = true) {org : OrganizationRow}
    (horg : org ∈ d.organizations) :
    (d.migrationOrgDetail jobs user org.id).isShown = d.manages user org.id := by
  have hfind : (d.organizations.find? fun row => row.id = org.id) = some org := by
    cases hrow : d.organizations.find? fun row => row.id = org.id with
    | none =>
      have hnone := List.find?_eq_none.mp hrow org horg
      simp at hnone
    | some row =>
      have hid : row.id = org.id := by simpa using List.find?_some hrow
      rw [List.inj_on_of_nodup_map d.ids (List.mem_of_find?_eq_some hrow) horg hid]
  simp only [Directory.migrationOrgDetail, loginRequired, hauth, if_true, hfind, getOr404]
  exact isShown_permitted

theorem isShown_jobPage {α : Type} {content : RawPayloadMigrationJob → α} {id : Uuid}
    {job : RawPayloadMigrationJob} (hauth : user.isAuthenticated = true)
    (hjob : findJob jobs id = some job) :
    (d.jobPage jobs user id content).isShown = d.manages user job.organization.id := by
  simp only [Directory.jobPage, loginRequired, hauth, if_true, hjob, getOr404]
  exact isShown_permitted

/-- The organizations listed for a user, each once, are those whose page opens for that
user; and a page of a job opens where the organization of the job is listed. -/
theorem listed_pages_open (d : Directory) (jobs : List RawPayloadMigrationJob)
    (le : String → String → Bool) (showTime : Nat → String) (user : User)
    (hauth : user.isAuthenticated = true) :
    ∃ listed, d.orgList le user = .shown listed ∧
      (listed.Perm (d.organizations.filter fun org =>
        (d.migrationOrgDetail jobs user org.id).isShown)) ∧
      ∀ id job, findJob jobs id = some job → job.organization ∈ d.organizations →
        ((d.migrationJobDetail jobs user id).isShown = true ↔ job.organization ∈ listed) ∧
        ((d.migrationJobProgress jobs user id).isShown = true ↔ job.organization ∈ listed) ∧
        ((d.migrationJobExport jobs showTime user id).isShown = true ↔
          job.organization ∈ listed) := by
  let organizations := if isPlatformOperator user then d.organizations else d.managed user
  have hlist : d.orgList le user = .shown (organizations.mergeSort fun a b => le a.name b.name) := by
    simp [Directory.orgList, loginRequired, hauth, organizations]
  have hmanaged : organizations = d.organizations.filter fun org => d.manages user org.id := by
    by_cases hoperator : isPlatformOperator user = true
    · have hall : d.organizations.filter (fun org => d.manages user org.id) = d.organizations :=
        List.filter_eq_self.mpr fun org _ => manages_operator hoperator org.id
      simp [organizations, hoperator, hall]
    · have hfalse : isPlatformOperator user = false := by simpa using hoperator
      simp [organizations, hfalse, managed_eq hauth hfalse]
  have hperm := List.mergeSort_perm organizations fun a b => le a.name b.name
  have hopens : d.organizations.filter (fun org => d.manages user org.id) =
      d.organizations.filter fun org => (d.migrationOrgDetail jobs user org.id).isShown :=
    List.filter_congr fun org horg => (isShown_orgDetail hauth horg).symm
  refine ⟨_, hlist, ?_, fun id job hjob horg => ?_⟩
  · rw [← hopens, ← hmanaged]
    exact hperm
  · have hmem : job.organization ∈ (organizations.mergeSort fun a b => le a.name b.name) ↔
        d.manages user job.organization.id = true := by
      rw [hperm.mem_iff, hmanaged, List.mem_filter]
      simp [horg]
    refine ⟨?_, ?_, ?_⟩
    · rw [hmem, Directory.migrationJobDetail, isShown_jobPage hauth hjob]
    · rw [hmem, Directory.migrationJobProgress, isShown_jobPage hauth hjob]
    · rw [hmem, Directory.migrationJobExport, isShown_jobPage hauth hjob]

/-- An administrator of the second of two organizations, who is an analyst in the first. -/
def twoOrganizations : Directory where
  organizations := [⟨1, "Acme", "acme".toList⟩, ⟨2, "Bolt", "bolt".toList⟩]
  memberships := [⟨4, 1, .analyst⟩, ⟨4, 2, .admin⟩]
  ids := by simp
  unique := by simp

theorem listed_pages_open_admin : ∃ listed : List OrganizationRow,
    listed.Perm [⟨2, "Bolt", "bolt".toList⟩] ∧
    twoOrganizations.orgList (fun _ _ => true) { id := 4 } = .shown listed := by
  obtain ⟨listed, hlisted, hperm, -⟩ := listed_pages_open twoOrganizations []
    (fun _ _ => true) (fun _ => "") { id := 4 } rfl
  exact ⟨listed, hperm, hlisted⟩

end DataLake
