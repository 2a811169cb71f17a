import DataLake.Foundation.Memo
import DataLake.StoreService

/-! The tenant a long-lived process acts for. The store memoises the UUID of the
organization behind a schema name, and organizations come, go and change names
while the process lives. -/

namespace DataLake

open Foundation

structure Organization where
  schemaName : Text
  tenantUuid : Uuid
deriving DecidableEq

structure Registry where
  organizations : List Organization
  schemaNames : (organizations.map Organization.schemaName).Nodup
  tenantUuids : (organizations.map Organization.tenantUuid).Nodup

/-- The table after a change, unless a unique constraint rejects it. -/
def Registry.ofList? (organizations : List Organization) : Option Registry :=
  if h : (organizations.map Organization.schemaName).Nodup ∧
      (organizations.map Organization.tenantUuid).Nodup then
    some ⟨organizations, h.1, h.2⟩
  else none

def Registry.holder (r : Registry) (schemaName : Text) : Option Uuid :=
  (r.organizations.find? fun org => org.schemaName = schemaName).map Organization.tenantUuid

theorem Registry.holder_eq_some {r : Registry} {org : Organization}
    (h : org ∈ r.organizations) : r.holder org.schemaName = some org.tenantUuid := by
  have hfind : r.organizations.find? (fun o => o.schemaName = org.schemaName) = some org := by
    cases hf : r.organizations.find? (fun o => o.schemaName = org.schemaName) with
    | none => simpa using List.find?_eq_none.mp hf org h
    | some o =>
      have hname : o.schemaName = org.schemaName := by simpa using List.find?_some hf
      rw [List.inj_on_of_nodup_map r.schemaNames (List.mem_of_find?_eq_some hf) h hname]
  rw [Registry.holder, hfind]
  rfl

/-- `S3RawPayloadStore._tenant_uuid`, with the cache it leaves behind. -/
def tenantUuid (registry : Registry) (cache : Text → Option Uuid) (schemaName : Text) :
    Except DataLakeError Uuid × (Text → Option Uuid) :=
  match cache schemaName with
  | some cached => (.ok cached, cache)
  | none =>
    match registry.holder schemaName with
    | none =>
      (.error (configurationError (s!"no Organization found for schema {pyRepr schemaName}; " ++
        "raw payload storage requires an active tenant schema")), cache)
    | some uuid => (.ok uuid, Function.update cache schemaName (some uuid))

inductive StoreRequest where
  | put (key : Text) (data : Bytes) (contentType : Text)
  | get (uri : Text)

def StoreRequest.program (bucket : BucketName) : StoreRequest → StoreProg Unit
  | put key data contentType => (DataLake.put bucket key data contentType).discard
  | get uri => (DataLake.get bucket uri).discard

def StoreOp.key : StoreOp → Option Text
  | putIfAbsent key _ => some key
  | putObject key _ => some key
  | headObject key => some key
  | getObject key => some key
  | _ => none

/-- A call that looked its tenant up, and the keys it went on to write or read. -/
structure ScopedCall where
  lookup : Lookup Text Uuid
  keys : List Text := []

def addKey : Option Text → List ScopedCall → List ScopedCall
  | some key, call :: older => { call with keys := key :: call.keys } :: older
  | _, log => log

structure StoreProcess where
  registry : Registry
  cache : Text → Option Uuid
  store : StoreWorld
  schemaName : Text
  call : StoreProg Unit
  log : List ScopedCall

inductive ProcessEvent where
  | create (org : Organization)
  | rename (tenant : Uuid) (schemaName : Text)
  | delete (tenant : Uuid)
  | request (schemaName : Text) (request : StoreRequest)
  | answer (c : StoreAnswer)

namespace StoreProcess

def setRegistry (s : StoreProcess) (organizations : List Organization) : Option StoreProcess :=
  (Registry.ofList? organizations).map fun registry => { s with registry }

/-- The process starts a call, answers its next operation, or the registry changes
under it. A tenant lookup is answered by the store itself. -/
def next (bucket : BucketName) (s : StoreProcess) : ProcessEvent → Option StoreProcess
  | .create org => s.setRegistry (s.registry.organizations ++ [org])
  | .rename tenant schemaName =>
    s.setRegistry (s.registry.organizations.map fun org =>
      if org.tenantUuid = tenant then { org with schemaName } else org)
  | .delete tenant =>
    s.setRegistry (s.registry.organizations.filter fun org => org.tenantUuid ≠ tenant)
  | .request schemaName request =>
    match s.call with
    | .call _ _ => none
    | _ => some { s with schemaName, call := request.program bucket }
  | .answer c =>
    match s.call with
    | .call .tenantUuid k =>
      let (r, cache) := tenantUuid s.registry s.cache s.schemaName
      let lookup := ⟨s.schemaName, s.registry.holder s.schemaName, r.toOption⟩
      some { s with cache, call := k r, log := { lookup } :: s.log }
    | .call op k =>
      (execStore op c s.store).map fun x =>
        { s with store := x.2, call := k x.1, log := addKey op.key s.log }
    | _ => none

def start (registry : Registry) (store : StoreWorld) : StoreProcess :=
  { registry, cache := fun _ => none, store, schemaName := [], call := .ret (), log := [] }

end StoreProcess

def Owns (tenant : Uuid) (key : Text) : Prop := (partition '/' key).1 = tenant.text

/-- The call looked up the organization that had the name, and stayed in its prefix. -/
def ScopedCall.InScope (c : ScopedCall) : Prop :=
  c.lookup.answer = c.lookup.actual ∧
  ∀ key ∈ c.keys, ∃ tenant, c.lookup.actual = some tenant ∧ Owns tenant key

def StaysIn (scope : Option Uuid) (op : StoreOp) : Prop :=
  op ≠ .tenantUuid ∧ ∀ key, op.key = some key → ∃ tenant, scope = some tenant ∧ Owns tenant key

theorem owns_tenantKey (tenant : Uuid) (key : Text) : Owns tenant (tenantKey tenant key) := by
  rw [Owns, partition_tenantKey]

theorem staysIn_put (key : Text) (data : Bytes) (contentType : Text) (u : Uuid) :
    StaysIn (some u) (.putIfAbsent (tenantKey u key) ⟨data, some contentType⟩) ∧
    StaysIn (some u) (.putObject (tenantKey u key) ⟨data, some contentType⟩) ∧
    StaysIn (some u) (.headObject (tenantKey u key)) := by
  have howns : ∀ key', some (tenantKey u key) = some key' →
      ∃ tenant, some u = some tenant ∧ Owns tenant key' := by
    intro key' h
    obtain rfl := Option.some.inj h
    exact ⟨u, rfl, owns_tenantKey u key⟩
  exact ⟨⟨nofun, howns⟩, ⟨nofun, howns⟩, ⟨nofun, howns⟩⟩

theorem get_tenant_first (bucket : BucketName) (uri : Text) :
    (∃ k, get bucket uri = .call .tenantUuid k ∧ ∀ r, (k r).Issues (StaysIn r.toOption)) ∨
    ∃ e, get bucket uri = .raise e := by
  cases hparse : parseUri bucket uri with
  | error e =>
    refine .inr ⟨.dataLake e, ?_⟩
    simp [get, parseAndAuthorize, hparse, Except.mapError, Prog.ofExcept, Prog.bind_eq]
  | ok parsed =>
    obtain ⟨name, key⟩ := parsed
    left
    simp only [get, parseAndAuthorize, hparse, Except.mapError, Prog.ofExcept, Prog.bind_eq,
      Prog.handle_ret, storeCall, Prog.perform, Prog.handle_call]
    refine ⟨_, rfl, fun r => ?_⟩
    rcases r with e | u
    · trivial
    · dsimp only
      split_ifs with hne
      · trivial
      · refine ⟨⟨nofun, ?_⟩, fun r => ?_⟩
        · intro key' h
          obtain rfl := Option.some.inj h
          exact ⟨u, rfl, not_not.mp hne⟩
        · rcases r with err | object
          · trivial
          · dsimp only
            split
            · trivial
            · split_ifs <;> trivial

/-- A call looks its tenant up once, first of all, and then stays in its prefix. -/
theorem program_scope (bucket : BucketName) (request : StoreRequest) :
    (∃ k, request.program bucket = .call .tenantUuid k ∧
      ∀ r, (k r).Issues (StaysIn r.toOption)) ∨
    ∃ e, request.program bucket = .raise e := by
  cases request with
  | put key data contentType =>
    obtain ⟨k, hk, h⟩ := put_tenant_first (P := fun r => StaysIn r.toOption) bucket key data
      contentType (staysIn_put key data contentType)
    exact .inl ⟨_, by rw [StoreRequest.program, hk]; rfl, fun r => (h r).discard⟩
  | get uri =>
    rcases get_tenant_first bucket uri with ⟨k, hk, h⟩ | ⟨e, he⟩
    · exact .inl ⟨_, by rw [StoreRequest.program, hk]; rfl, fun r => (h r).discard⟩
    · exact .inr ⟨e, by rw [StoreRequest.program, he]; rfl⟩

def StoreProcess.lookups (s : StoreProcess) : List (Lookup Text Uuid) := s.log.map (·.lookup)

/-- The cache is what the lookups leave behind, and each call has stayed in the
prefix it was given; the call under way is new, or keeps to the latest one. -/
structure ScopeInvariant (bucket : BucketName) (s : StoreProcess) : Prop where
  cache : ∀ name, s.cache name = Lookup.remembered name s.lookups
  memoised : Lookup.Memoised s.lookups
  keys : ∀ c ∈ s.log, ∀ key ∈ c.keys, ∃ tenant, c.lookup.answer = some tenant ∧ Owns tenant key
  call : (∃ request : StoreRequest, s.call = request.program bucket) ∨
    (∀ op k, s.call ≠ .call op k) ∨
    ∃ c older, s.log = c :: older ∧ s.call.Issues (StaysIn c.lookup.answer)

theorem lookups_addKey (key : Option Text) (log : List ScopedCall) :
    (addKey key log).map (·.lookup) = log.map (·.lookup) := by
  cases key <;> cases log <;> rfl

theorem tenantUuid_spec (registry : Registry) (cache : Text → Option Uuid) (schemaName : Text) :
    (tenantUuid registry cache schemaName).1.toOption =
      (cache schemaName).or (registry.holder schemaName) ∧
    ∀ name, (tenantUuid registry cache schemaName).2 name =
      (cache name).or (if schemaName = name then registry.holder schemaName else none) := by
  cases hc : cache schemaName with
  | some cached =>
    refine ⟨by simp [tenantUuid, hc, Except.toOption], fun name => ?_⟩
    by_cases hname : schemaName = name
    · subst hname
      simp [tenantUuid, hc]
    · simp [tenantUuid, hc, hname]
  | none =>
    cases hh : registry.holder schemaName with
    | none => simp [tenantUuid, hc, hh, Except.toOption]
    | some uuid =>
      refine ⟨by simp [tenantUuid, hc, hh, Except.toOption], fun name => ?_⟩
      by_cases hname : schemaName = name
      · subst hname
        simp [tenantUuid, hc, hh]
      · have hne : name ≠ schemaName := fun h => hname h.symm
        simp [tenantUuid, hc, hh, hname, hne]

theorem mem_addKey {op : StoreOp} {c : ScopedCall} {older : List ScopedCall}
    (hop : StaysIn c.lookup.answer op)
    (hkeys : ∀ c' ∈ c :: older, ∀ key ∈ c'.keys, ∃ tenant, c'.lookup.answer = some tenant ∧
      Owns tenant key) :
    ∀ c' ∈ addKey op.key (c :: older), ∀ key ∈ c'.keys, ∃ tenant,
      c'.lookup.answer = some tenant ∧ Owns tenant key := by
  cases hkey : op.key with
  | none => exact hkeys
  | some key =>
    intro c' hc' key' hkey'
    rcases List.mem_cons.mp hc' with rfl | hc'
    · rcases List.mem_cons.mp hkey' with rfl | hkey'
      · exact hop.2 key' hkey
      · exact hkeys c List.mem_cons_self key' hkey'
    · exact hkeys c' (List.mem_cons_of_mem _ hc') key' hkey'

theorem StoreProcess.next_cases {bucket : BucketName} {s t : StoreProcess} {e : ProcessEvent}
    (h : s.next bucket e = some t) :
    (∃ registry, t = { s with registry }) ∨
    (∃ schemaName request, t = { s with schemaName, call := StoreRequest.program bucket request }) ∨
    (∃ k, s.call = .call .tenantUuid k ∧ t = { s with
      cache := (tenantUuid s.registry s.cache s.schemaName).2
      call := k (tenantUuid s.registry s.cache s.schemaName).1
      log := { lookup := ⟨s.schemaName, s.registry.holder s.schemaName,
        (tenantUuid s.registry s.cache s.schemaName).1.toOption⟩ } :: s.log }) ∨
    (∃ op k c r store, s.call = .call op k ∧ op ≠ .tenantUuid ∧
      execStore op c s.store = some (r, store) ∧
      t = { s with store, call := k r, log := addKey op.key s.log }) := by
  have setRegistry : ∀ organizations, s.setRegistry organizations = some t →
      ∃ registry, t = { s with registry } := by
    intro organizations h
    obtain ⟨registry, -, rfl⟩ := Option.map_eq_some_iff.mp h
    exact ⟨registry, rfl⟩
  cases e with
  | create org => exact .inl (setRegistry _ h)
  | rename tenant schemaName => exact .inl (setRegistry _ h)
  | delete tenant => exact .inl (setRegistry _ h)
  | request schemaName request =>
    right; left
    cases hc : s.call <;> simp only [next, hc, reduceCtorEq, Option.some.injEq] at h
    · exact ⟨schemaName, request, h.symm⟩
    · exact ⟨schemaName, request, h.symm⟩
  | answer c =>
    right; right
    cases hc : s.call with
    | ret a => simp [next, hc] at h
    | raise e => simp [next, hc] at h
    | call op k =>
      by_cases hop : op = .tenantUuid
      · subst hop
        left
        refine ⟨k, rfl, ?_⟩
        simp only [next, hc, Option.some.injEq] at h
        exact h.symm
      · right
        have hstep : (execStore op c s.store).map (fun x =>
            { s with store := x.2, call := k x.1, log := addKey op.key s.log }) = some t := by
          cases op <;> first | exact absurd rfl hop | simpa [next, hc] using h
        obtain ⟨⟨r, store⟩, he, rfl⟩ := Option.map_eq_some_iff.mp hstep
        exact ⟨op, k, c, r, store, rfl, hop, he, rfl⟩

theorem ScopeInvariant.next {bucket : BucketName} {s t : StoreProcess} {e : ProcessEvent}
    (hs : ScopeInvariant bucket s) (h : s.next bucket e = some t) : ScopeInvariant bucket t := by
  rcases StoreProcess.next_cases h with ⟨registry, rfl⟩ | ⟨schemaName, request, rfl⟩ |
    ⟨k, hc, rfl⟩ | ⟨op, k, c, r, store, hc, hop, he, rfl⟩
  · exact ⟨hs.cache, hs.memoised, hs.keys, hs.call⟩
  · exact ⟨hs.cache, hs.memoised, hs.keys, .inl ⟨request, rfl⟩⟩
  · obtain ⟨hanswer, hcache⟩ := tenantUuid_spec s.registry s.cache s.schemaName
    refine ⟨fun name => ?_, ⟨?_, hs.memoised⟩, ?_, ?_⟩
    · have hname := hcache name
      rw [hs.cache] at hname
      exact hname
    · rw [hanswer, hs.cache]
      rfl
    · intro c' hc' key hkey
      rcases List.mem_cons.mp hc' with rfl | hc'
      · cases hkey
      · exact hs.keys c' hc' key hkey
    · rcases hs.call with ⟨request, hr⟩ | hno | ⟨c', older, -, hissues⟩
      · rw [hc] at hr
        rcases program_scope bucket request with ⟨k', hk', hissues⟩ | ⟨e, he⟩
        · rw [hk'] at hr
          obtain rfl : k = k' := by simpa using hr
          exact .inr (.inr ⟨_, _, rfl, hissues _⟩)
        · rw [he] at hr
          cases hr
      · exact absurd hc (hno _ _)
      · rw [hc] at hissues
        exact absurd rfl hissues.1.1
  · rcases hs.call with ⟨request, hr⟩ | hno | ⟨c', older, hlog, hissues⟩
    · rw [hc] at hr
      rcases program_scope bucket request with ⟨k', hk', -⟩ | ⟨e, he⟩
      · rw [hk'] at hr
        obtain ⟨rfl, -⟩ := Prog.call.inj hr
        exact absurd rfl hop
      · rw [he] at hr
        cases hr
    · exact absurd hc (hno _ _)
    · rw [hc] at hissues
      have hlookups : StoreProcess.lookups { s with store, call := k r, log := addKey op.key s.log } =
          s.lookups := lookups_addKey _ _
      refine ⟨?_, ?_, ?_, .inr (.inr ?_)⟩
      · rw [hlookups]
        exact hs.cache
      · rw [hlookups]
        exact hs.memoised
      · have hkeys := hs.keys
        rw [hlog] at hkeys
        simp only [hlog]
        exact mem_addKey hissues.1 hkeys
      · cases hkey : op.key with
        | none => exact ⟨c', older, by simp [hlog, addKey], hissues.2 r⟩
        | some key =>
          exact ⟨{ c' with keys := key :: c'.keys }, older, by simp [hlog, addKey], hissues.2 r⟩

/-- Over any history of the registry and of calls, every call acts for the
organization that has its schema name exactly when each name, once a call has
found an organization under it, still belongs to that one at each later call. -/
theorem calls_in_scope_iff (bucket : BucketName) (registry : Registry) (store : StoreWorld)
    {s : StoreProcess} (h : Reaches (StoreProcess.next bucket) (fun _ _ => True)
      (.start registry store) s) :
    (∀ c ∈ s.log, c.InScope) ↔ Lookup.Settled s.lookups := by
  have hstart : ScopeInvariant bucket (.start registry store) :=
    ⟨fun _ => rfl, trivial, nofun, .inr (.inl nofun)⟩
  have hs := h.invariant hstart fun _ _ _ ht _ he => ht.next he
  rw [← Lookup.answers_iff_settled hs.memoised]
  constructor
  · intro hscope l hl
    obtain ⟨c, hc, rfl⟩ := List.mem_map.mp hl
    exact (hscope c hc).1
  · intro hanswers c hc
    have hanswer := hanswers c.lookup (List.mem_map_of_mem hc)
    refine ⟨hanswer, fun key hkey => ?_⟩
    rw [← hanswer]
    exact hs.keys c hc key hkey

theorem calls_in_scope_iff_renamed :
    ∃ s, Reaches (StoreProcess.next ⟨"raw".toList, by decide, by decide⟩) (fun _ _ => True)
        (.start ⟨[], by decide, by decide⟩ ⟨fun _ => none, []⟩) s ∧
      s.lookups = [⟨"acme-two".toList, some ⟨1⟩, some ⟨1⟩⟩, ⟨"acme".toList, some ⟨1⟩, some ⟨1⟩⟩] ∧
      ∀ c ∈ s.log, c.InScope := by
  let page : StoreRequest := .put "key".toList [7] "text/plain".toList
  obtain ⟨s, hs, hlookups⟩ : ∃ s, replay (StoreProcess.next ⟨"raw".toList, by decide, by decide⟩)
      (fun _ _ => True) (.start ⟨[], by decide, by decide⟩ ⟨fun _ => none, []⟩)
      [.create ⟨"acme".toList, ⟨1⟩⟩, .request "acme".toList page, .answer (.done ⟨0⟩),
      .answer (.done ⟨0⟩), .rename ⟨1⟩ "acme-two".toList, .request "acme-two".toList page,
      .answer (.done ⟨0⟩)] = some s ∧
      s.lookups = [⟨"acme-two".toList, some ⟨1⟩, some ⟨1⟩⟩, ⟨"acme".toList, some ⟨1⟩, some ⟨1⟩⟩] :=
    ⟨_, rfl, rfl⟩
  have h := Reaches.of_replay _ hs
  refine ⟨s, h, hlookups, (calls_in_scope_iff _ _ _ h).mpr ?_⟩
  rw [hlookups]
  refine List.pairwise_cons.mpr ⟨fun l hl hkey => ?_, List.pairwise_singleton _ _⟩
  obtain rfl := List.mem_singleton.mp hl
  exact absurd hkey (by decide)

attribute [local semireducible] Uuid.text

/-- One schema name, two organizations: the second one's page goes under the first
one's prefix. -/
theorem schema_name_reused :
    ∃ s, Reaches (StoreProcess.next ⟨"raw".toList, by decide, by decide⟩) (fun _ _ => True)
        (.start ⟨[], by decide, by decide⟩ ⟨fun _ => none, []⟩) s ∧
      s.registry.holder "acme".toList = some ⟨2⟩ ∧
      s.log.map ScopedCall.keys = [[tenantKey ⟨1⟩ "b".toList], [tenantKey ⟨1⟩ "a".toList]] ∧
      ¬ ∀ c ∈ s.log, c.InScope := by
  let page (key : Text) : StoreRequest := .put key [7] "text/plain".toList
  refine ⟨_, .of_replay [.create ⟨"acme".toList, ⟨1⟩⟩, .request "acme".toList (page "a".toList),
    .answer (.done ⟨0⟩), .answer (.done ⟨0⟩), .delete ⟨1⟩, .create ⟨"acme".toList, ⟨2⟩⟩,
    .request "acme".toList (page "b".toList), .answer (.done ⟨0⟩), .answer (.done ⟨0⟩)] rfl,
    rfl, rfl, fun h => ?_⟩
  have hanswer : some (⟨1⟩ : Uuid) = some ⟨2⟩ := (h _ List.mem_cons_self).1
  exact absurd hanswer (by decide)

end DataLake
