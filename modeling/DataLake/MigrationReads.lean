import DataLake.MigrationConvergence
import DataLake.RoundTrip

/-! What a reader of the tenant sees while passes are going on: a payload that could be
read can be read at any later moment, and its bytes are the same. -/

namespace DataLake

open Foundation

namespace Migration

variable {m : Migration} {r : RawPayloadRecord} {uri : Text} {data : Bytes}

/-- The reader gets the bytes, with a service that answers. -/
def ReadsAs (m : Migration) (w : StoreWorld) (uri : Text) (data : Bytes) : Prop :=
  (get m.bucket uri).eval execStore (servedAs m.tenant) w = some (.ok data, w)

/-- Readable is what lies under the prefix of the tenant and hashes to the checksum that its
key may carry. -/
structure Readable (m : Migration) (uri key : Text) (object : S3Object) : Prop where
  uri : uri = storageUri m.bucket key
  nonempty : key ≠ []
  owned : (partition '/' key).1 = m.tenant.text
  intact : ∀ checksum, checksumFromKey key = some checksum → sha256hex object.body = checksum

theorem readsAs_parsed {w : StoreWorld} {name key : Text}
    (hparse : parseUri m.bucket uri = .ok (name, key)) :
    m.ReadsAs w uri data ↔ (partition '/' key).1 = m.tenant.text ∧ ∃ object,
      w.bucket key = some object ∧ object.body = data ∧
        ∀ checksum, checksumFromKey key = some checksum → sha256hex object.body = checksum := by
  by_cases howned : (partition '/' key).1 = m.tenant.text
  · rcases hobject : w.bucket key with _ | object
    · simp [ReadsAs, get, parseAndAuthorize, hparse, Prog.ofExcept, Except.mapError, Prog.bind_eq,
        storeCall, Prog.perform, Prog.eval, execStore, servedAs, howned, Prog.pure_eq, hobject,
        S3Error.raised]
    · rcases hkey : checksumFromKey key with _ | checksum
      · simp [ReadsAs, get, parseAndAuthorize, hparse, Prog.ofExcept, Except.mapError, Prog.bind_eq,
          storeCall, Prog.perform, Prog.eval, execStore, servedAs, howned, Prog.pure_eq, hobject,
          hkey]
      · by_cases hsum : sha256hex object.body = checksum <;>
          simp [ReadsAs, get, parseAndAuthorize, hparse, Prog.ofExcept, Except.mapError,
            Prog.bind_eq, storeCall, Prog.perform, Prog.eval, execStore, servedAs, howned,
            Prog.pure_eq, hobject, hkey, hsum, raiseError]
  · simp [ReadsAs, get, parseAndAuthorize, hparse, Prog.ofExcept, Except.mapError, Prog.bind_eq,
      storeCall, Prog.perform, Prog.eval, execStore, servedAs, howned, Prog.pure_eq, raiseError]

theorem Readable.readsAs {w : StoreWorld} {key : Text} {object : S3Object}
    (h : m.Readable uri key object) (hobject : w.bucket key = some object) :
    m.ReadsAs w uri object.body := by
  have hparse : parseUri m.bucket uri = .ok (m.bucket.name, key) := by
    rw [h.uri]
    exact parseUri_storageUri m.bucket h.nonempty
  exact (readsAs_parsed hparse).mpr ⟨h.owned, object, hobject, rfl, h.intact⟩

theorem ReadsAs.readable {w : StoreWorld} (h : m.ReadsAs w uri data) :
    ∃ key object, m.Readable uri key object ∧ w.bucket key = some object ∧ object.body = data := by
  cases hparse : parseUri m.bucket uri with
  | error e =>
    simp [ReadsAs, get, parseAndAuthorize, hparse, Prog.ofExcept, Except.mapError, Prog.bind_eq,
      Prog.eval] at h
  | ok parsed =>
    obtain ⟨name, key⟩ := parsed
    obtain ⟨-, huri, hne⟩ := parseUri_ok hparse
    obtain ⟨howned, object, hobject, hbody, hintact⟩ := (readsAs_parsed hparse).mp h
    exact ⟨key, object, ⟨huri, hne, howned, hintact⟩, hobject, hbody⟩

/-- What a bucket keeps, it keeps readable. -/
theorem ReadsAs.mono {v w : StoreWorld} (h : m.ReadsAs v uri data)
    (hkeys : ∀ key o, v.bucket key = some o → w.bucket key = some o) : m.ReadsAs w uri data := by
  obtain ⟨key, object, hreadable, hobject, rfl⟩ := h.readable
  exact hreadable.readsAs (hkeys key object hobject)

/-- The contents of the bucket before any pass. -/
def contents (m : Migration) : Set Bytes :=
  {data | ∃ key o, m.initial.bucket key = some o ∧ o.body = data}

theorem readable_target {o₀ o : S3Object} (hsource : m.source r = some o₀)
    (hsum : sha256hex o.body = r.checksumSha256) :
    m.Readable (m.moved r).storageUri (m.targetKey r) o where
  uri := rfl
  nonempty := tenantKey_ne_nil _ _
  owned := by rw [targetKey, partition_tenantKey]
  intact checksum hkey := by
    obtain ⟨-, -, -, hsum₀⟩ := source_spec hsource
    have hlen : r.checksumSha256.length = 64 := by
      rw [← hsum₀]
      exact length_sha256hex o₀.body
    have htarget := checksumFromKey_tenantKey m.tenant r.pipeline r.run r.sequence
      (slash_notMem_of_source hsource) hlen
    rw [targetKey, expectedLogicalKey, htarget] at hkey
    rw [hsum, Option.some.inj hkey]

/-- A record that has moved reads as the object it was copied from. -/
theorem Inv.reads_moved {w : StoreWorld} (hinj : Set.InjOn sha256hex m.contents) (hw : m.Inv w)
    (hr : r ∈ m.initial.records) (hcompleted : m.Completed w r) :
    ∃ o, m.source r = some o ∧ m.ReadsAs w (m.moved r).storageUri o.body := by
  obtain ⟨o₀, o, hsource, ho, hsum, -⟩ := hcompleted
  refine ⟨o₀, hsource, ?_⟩
  obtain ⟨key, -, ho₀, hsum₀⟩ := source_spec hsource
  have hbody : o.body = o₀.body := by
    have hcontents₀ : o₀.body ∈ m.contents := ⟨key, o₀, ho₀, rfl⟩
    rcases hw.target_cases hr hsource ho with hinitial | rfl
    · exact hinj ⟨_, o, hinitial, rfl⟩ hcontents₀ (hsum.trans hsum₀.symm)
    · rfl
  rw [← hbody]
  exact (readable_target hsource hsum).readsAs ho

/-- A row of the table is that of an initial record: as it was, or moved. -/
theorem Inv.row_cases {w : StoreWorld} (hw : m.Inv w) {x : RawPayloadRecord}
    (hx : x ∈ w.records) : ∃ r ∈ m.initial.records, x.id = r.id ∧
      (x = r ∨ (x = m.moved r ∧ m.Completed w r)) := by
  obtain ⟨done, hrecords, hdone⟩ := hw.records
  rw [hrecords] at hx
  obtain ⟨r, hr, rfl⟩ := List.mem_map.mp hx
  refine ⟨r, hr, m.move_id done r, ?_⟩
  by_cases hd : done r.id = true
  · exact .inr ⟨by simp [move, hd], hdone r hr hd⟩
  · exact .inl (by simp [move, hd])

end Migration

open Migration

/-- Whatever passes go on, a URI that could be read stays readable with the same bytes, also
for a reader that has looked it up long ago; so does a record, whichever URI it has by then;
and a record that a pass has changed reads as its legacy object. An object under a key of the
tenant is taken to have the hash in its key (`Migration.hashed`), and no two objects of the
bucket to have one hash. -/
theorem reads_survive (m : Migration) (hinj : Set.InjOn sha256hex m.contents)
    {s t : Pool StoreSig Exc Unit StoreWorld}
    (hs : Reaches (Pool.next (tenantExec m.tenant false)) m.passes (.idle m.initial) s)
    (ht : Reaches (Pool.next (tenantExec m.tenant false)) m.passes s t) :
    (∀ uri data, m.ReadsAs s.world uri data → m.ReadsAs t.world uri data) ∧
    (∀ x ∈ s.world.records, ∀ y ∈ t.world.records, y.id = x.id → ∀ data,
      m.ReadsAs s.world x.storageUri data → m.ReadsAs t.world y.storageUri data) ∧
    ∀ r ∈ m.initial.records, ∀ y ∈ t.world.records, y.id = r.id → y ≠ r →
      ∃ o, m.source r = some o ∧ m.ReadsAs t.world y.storageUri o.body := by
  obtain ⟨hws, hsafe⟩ := passes_keep (Pool.safe_idle _) m.inv_initial hs
  have hIs := (hws m.inv_initial).1
  obtain ⟨hst, -⟩ := passes_keep hsafe hIs ht
  obtain ⟨hIt, hkeys, hstay⟩ := hst hIs
  refine ⟨fun uri data h => h.mono hkeys, ?_, ?_⟩
  · intro x hx y hy hid data hread
    have hlater : m.ReadsAs t.world x.storageUri data := hread.mono hkeys
    obtain ⟨r, hr, hxid, hxrow⟩ := hIs.row_cases hx
    obtain ⟨r', hr', hyid, hyrow⟩ := hIt.row_cases hy
    obtain rfl : r' = r := id_inj hr' hr (hyid.symm.trans (hid.trans hxid))
    rcases hyrow with rfl | ⟨rfl, hcompleted⟩
    · rcases hxrow with rfl | ⟨rfl, hcompleted⟩
      · exact hlater
      · -- A record that has moved stays moved, so the two rows have the same identifier only
        -- where moving changes nothing.
        have hmoved := hstay y hr hx
        have hrows : (t.world.records.map RawPayloadRecord.id).Nodup := by
          obtain ⟨done, hrecords, -⟩ := hIt.records
          have hmap : t.world.records.map RawPayloadRecord.id =
              m.initial.records.map RawPayloadRecord.id := by
            rw [hrecords, List.map_map]
            exact List.map_congr_left fun r _ => m.move_id done r
          rw [hmap]
          exact m.ids
        have hsame : m.moved y = y := List.inj_on_of_nodup_map hrows hmoved hy rfl
        rwa [hsame] at hlater
    · rcases hxrow with rfl | ⟨rfl, -⟩
      · obtain ⟨o, hsource, hmoved⟩ := hIt.reads_moved hinj hr hcompleted
        obtain ⟨key, hkey, ho, -⟩ := source_spec hsource
        obtain ⟨key', o', hreadable, ho', rfl⟩ := hread.readable
        obtain rfl : key = key' := storageUri_inj ((legacyKey_spec hkey).1.symm.trans hreadable.uri)
        obtain rfl : o = o' := Option.some.inj ((hIs.retained key o ho).symm.trans ho')
        exact hmoved
      · exact hlater
  · intro r hr y hy hid hne
    obtain ⟨r', hr', hyid, hyrow⟩ := hIt.row_cases hy
    obtain rfl : r' = r := id_inj hr' hr (hyid.symm.trans hid)
    rcases hyrow with rfl | ⟨rfl, hcompleted⟩
    · exact absurd rfl hne
    · exact hIt.reads_moved hinj hr hcompleted

/-- Passes come upon a record whose object is under the key of the tenant. -/
theorem reads_survive_page :
    let key := tenantKey ⟨1⟩ (logicalKey ⟨2⟩ ⟨3⟩ 1 (sha256hex [7]))
    let r : RawPayloadRecord := { id := ⟨4⟩, run := ⟨3⟩, pipeline := ⟨2⟩, sequence := 1
                                  storageUri := storageUri smallBucket key, contentType := []
                                  sizeBytes := 1, checksumSha256 := sha256hex [7] }
    let w : StoreWorld := ⟨Function.update (fun _ => none) key (some ⟨[7], none⟩), [r]⟩
    ∃ m : Migration, m.initial = w ∧ m.bucket = smallBucket ∧ ∀ t,
      Reaches (Pool.next (tenantExec m.tenant false)) m.passes (.idle w) t →
      m.ReadsAs t.world r.storageUri [7] ∧
      ∃ y, t.world.records = [y] ∧ m.ReadsAs t.world y.storageUri [7] := by
  intro key r w
  let m : Migration :=
    { bucket := smallBucket
      tenant := ⟨1⟩
      schemaName := "acme".toList
      initial := w
      ids := List.nodup_singleton _
      versions := List.nodup_singleton _
      hashed := by
        intro pipeline run sequence checksum o _ h
        by_cases hkey : tenantKey ⟨1⟩ (logicalKey pipeline run sequence checksum) = key
        · obtain ⟨-, -, -, hsum⟩ := logicalKey_inj (tenantKey_inj hkey).2
          simp only [w, hkey, Function.update_self, Option.some.injEq] at h
          rw [← h, hsum]
        · simp only [w, Function.update_of_ne hkey] at h
          cases h }
  have hcontents : m.contents ⊆ {[7]} := by
    rintro _ ⟨key', o, ho, rfl⟩
    by_cases hkey : key' = key
    · simp only [m, w, hkey, Function.update_self, Option.some.injEq] at ho
      rw [← ho]
      rfl
    · simp only [m, w, Function.update_of_ne hkey] at ho
      cases ho
  have hread : m.ReadsAs w r.storageUri [7] := by
    have hkey : checksumFromKey key = some (sha256hex [7]) :=
      checksumFromKey_tenantKey _ _ _ _ (slash_notMem_sha256hex _) (length_sha256hex _)
    have hobject : w.bucket key = some ⟨[7], none⟩ := by simp [w]
    exact eval_get_own hobject hkey rfl
  have hinj := (Set.injOn_singleton sha256hex [7]).mono hcontents
  refine ⟨m, rfl, rfl, fun t ht => ?_⟩
  obtain ⟨hkept, hrecord, -⟩ := reads_survive m hinj .refl ht
  obtain ⟨hwt, -⟩ := passes_keep (Pool.safe_idle _) m.inv_initial ht
  obtain ⟨done, hrecords, -⟩ := (hwt m.inv_initial).1.records
  have hrow : t.world.records = [m.move done r] := hrecords
  have hmem : m.move done r ∈ t.world.records := hrow ▸ List.mem_singleton_self _
  exact ⟨hkept _ _ hread, _, hrow,
    hrecord r (List.mem_singleton_self _) _ hmem (m.move_id done r) _ hread⟩

end DataLake
