import DataLake.Foundation.ContentStore
import DataLake.RawMigration
import DataLake.StoreService

/-! The objects whose key ends in their checksum never change. The fallback of a
conditional write does overwrite; it is harmless because each writer derives or
verifies the checksum before it writes. -/

namespace DataLake

open Foundation

/-- The key ends in `{sequence}-{checksum}.raw`. -/
def EndsIn (key checksum : Text) : Prop :=
  checksum.length = 64 ∧ ∃ dir sequence, key = dir ++ keyFilename sequence checksum

theorem EndsIn.checksum_eq {dir checksum checksum' : Text} {sequence : Nat}
    (h : EndsIn (dir ++ keyFilename sequence checksum) checksum')
    (hlen : checksum.length = 64) : checksum' = checksum := by
  obtain ⟨hlen', dir', sequence', heq⟩ := h
  have hsplit : ∀ (d c : Text) (n : Nat), d ++ keyFilename n c =
      (d ++ zeroPad 6 n ++ ['-']) ++ (c ++ rawSuffix) := fun d c n => by simp [keyFilename]
  rw [hsplit, hsplit] at heq
  have htail := suffix_eq heq (by simp [hlen, hlen'])
  exact (List.append_cancel_right htail).symm

def tenantObjects (tenants : Set Uuid) : Addressing Text S3Object Bytes Text where
  body := S3Object.body
  digest := sha256hex
  named key checksum :=
    (∃ u ∈ tenants, ∃ rest, key = tenantKey u rest) ∧ EndsIn key checksum

variable {tenants : Set Uuid} {contents : Set Bytes} {bucket : BucketName}

/-- A key built from a checksum names the contents it was computed from. -/
theorem wellNamed_logicalKey (u pipeline run : Uuid) (sequence : Nat) (object : S3Object) :
    (tenantObjects tenants).WellNamed
      (tenantKey u (logicalKey pipeline run sequence (sha256hex object.body))) object := by
  rintro checksum ⟨-, hends⟩
  have hk : tenantKey u (logicalKey pipeline run sequence (sha256hex object.body)) =
      (u.text ++ '/' :: (pipeline.text ++ '/' :: (run.text ++ ['/']))) ++
        keyFilename sequence (sha256hex object.body) := by
    simp [tenantKey, prefixedKey, logicalKey]
  rw [hk] at hends
  exact (hends.checksum_eq (length_sha256hex _)).symm

/-- If the call writes, it writes contents of the set under a key that names them. -/
def NamesContents (tenants : Set Uuid) (contents : Set Bytes) : StoreOp → Prop
  | .putIfAbsent key object => object.body ∈ contents ∧ (tenantObjects tenants).WellNamed key object
  | .putObject key object => object.body ∈ contents ∧ (tenantObjects tenants).WellNamed key object
  | _ => True

def SoundBucket (tenants : Set Uuid) (contents : Set Bytes) (w : StoreWorld) : Prop :=
  (tenantObjects tenants).Addressed w.bucket ∧ (tenantObjects tenants).Within contents w.bucket

def Preserves (tenants : Set Uuid) (contents : Set Bytes) (w w' : StoreWorld) : Prop :=
  SoundBucket tenants contents w →
    SoundBucket tenants contents w' ∧ (tenantObjects tenants).Keeps w.bucket w'.bucket

theorem Preserves.refl (w : StoreWorld) : Preserves tenants contents w w :=
  fun hw => ⟨hw, Addressing.Keeps.refl _⟩

theorem Preserves.trans {u v w : StoreWorld} (huv : Preserves tenants contents u v)
    (hvw : Preserves tenants contents v w) : Preserves tenants contents u w := by
  intro hu
  obtain ⟨hv, hk⟩ := huv hu
  obtain ⟨hw, hk'⟩ := hvw hv
  exact ⟨hw, hk.trans hk'⟩

theorem preserves_of_bucket_eq {w w' : StoreWorld} (h : w'.bucket = w.bucket) :
    Preserves tenants contents w w' := by
  rintro hw
  rw [SoundBucket, h]
  exact ⟨hw, Addressing.Keeps.refl _⟩

theorem preserves_of_update (hinj : Set.InjOn sha256hex contents) {w w' : StoreWorld} {key : Text}
    {object : S3Object} (hbody : object.body ∈ contents)
    (hname : (tenantObjects tenants).WellNamed key object)
    (h : w'.bucket = Function.update w.bucket key (some object)) :
    Preserves tenants contents w w' := by
  rintro ⟨haddr, hin⟩
  rw [SoundBucket, h]
  exact ⟨⟨haddr.update hname, hin.update hbody⟩, .update hinj haddr hin hname hbody⟩

theorem NamesContents.preserves (hinj : Set.InjOn sha256hex contents) (op : StoreOp)
    (hop : NamesContents tenants contents op) (w : StoreWorld) (c : StoreAnswer) (r : op.Resp)
    (w' : StoreWorld) (h : execStore op c w = some (r, w')) : Preserves tenants contents w w' := by
  rcases execStore_bucket h with heq | ⟨key, object, rfl | rfl, heq⟩
  · exact preserves_of_bucket_eq heq
  · exact preserves_of_update hinj hop.1 hop.2 heq
  · exact preserves_of_update hinj hop.1 hop.2 heq

theorem put_namesContents {pipeline run : Uuid} {sequence : Nat} {data : Bytes}
    {contentType : Text} (hdata : data ∈ contents) :
    (put bucket (logicalKey pipeline run sequence (sha256hex data)) data contentType).Issues
      (NamesContents tenants contents) := by
  refine issues_put trivial fun u => ?_
  have hname : (tenantObjects tenants).WellNamed _ ⟨data, some contentType⟩ :=
    wellNamed_logicalKey u pipeline run sequence ⟨data, some contentType⟩
  exact ⟨⟨hdata, hname⟩, ⟨hdata, hname⟩, trivial⟩

theorem storeRawPayload_namesContents {page : RawPage} (hdata : page.data ∈ contents) :
    (storeRawPayload bucket page).Issues (NamesContents tenants contents) :=
  (put_namesContents hdata).bind fun _ => ⟨trivial, fun _ => Prog.issues_ofExcept _ _⟩

theorem migrateObject_namesContents {record : RawPayloadRecord} {dryRun : Bool}
    {object : S3Object} (hbody : object.body ∈ contents) :
    (migrateObject bucket record dryRun object).Issues (NamesContents tenants contents) := by
  unfold migrateObject
  split_ifs with hsum hdry
  · trivial
  · trivial
  · rw [expectedLogicalKey, ← not_not.mp hsum]
    exact (put_namesContents hbody).bind fun _ => trivial

/-- What the migration writes it has just read, so it is among the contents. -/
theorem verifyAndMaybeMigrate_safe (hinj : Set.InjOn sha256hex contents) {key : Text}
    {record : RawPayloadRecord} {dryRun : Bool} {w : StoreWorld}
    (hw : SoundBucket tenants contents w) :
    (verifyAndMaybeMigrate bucket key record dryRun).discard.Safe execStore
      (Preserves tenants contents) (Preserves tenants contents) (fun _ _ => True) w := by
  intro v hv c r v' he
  refine ⟨NamesContents.preserves hinj (.getObject key) trivial v c r v' he, ?_⟩
  have hin := (hv hw).1.2
  rcases r with err | object
  · exact fun _ _ => trivial
  · have hbody : object.body ∈ contents := by
      rcases (execStore_getObject he).2 with ⟨_, _, _, hr⟩ | ⟨_, o, _, hb, hr⟩ | ⟨_, _, hr⟩
      · cases hr
      · cases hr
        exact hin key _ hb
      · cases hr
    exact .of_issues (NamesContents.preserves hinj) (migrateObject_namesContents hbody).discard v'

/-- The callers of the store. A page comes with contents of the set; a migration
reads its contents from the bucket. -/
inductive StoreCaller (bucket : BucketName) (contents : Set Bytes) : StoreProg Unit → Prop
  | storeRawPayload (page : RawPage) (hdata : page.data ∈ contents) :
    StoreCaller bucket contents (storeRawPayload bucket page).discard
  | verifyAndMaybeMigrate (key : Text) (record : RawPayloadRecord) (dryRun : Bool) :
    StoreCaller bucket contents (verifyAndMaybeMigrate bucket key record dryRun).discard

def storeCallers (bucket : BucketName) (contents : Set Bytes) :
    Pool StoreSig Exc Unit StoreWorld → PoolEvent StoreSig Exc Unit StoreAnswer → Prop
  | _, .start _ p => StoreCaller bucket contents p
  | _, .step _ _ => True

theorem StoreCaller.safe (hinj : Set.InjOn sha256hex contents) {p : StoreProg Unit}
    (hp : StoreCaller bucket contents p) {w : StoreWorld} (hw : SoundBucket tenants contents w) :
    p.Safe execStore (Preserves tenants contents) (Preserves tenants contents)
      (fun _ _ => True) w := by
  cases hp with
  | storeRawPayload page hdata =>
    exact .of_issues (NamesContents.preserves hinj) (storeRawPayload_namesContents hdata).discard w
  | verifyAndMaybeMigrate key record dryRun => exact verifyAndMaybeMigrate_safe hinj hw

/-- From a bucket whose objects have the checksums their keys end in, any callers
in any interleaving keep it so, and keep each such object as it is. `contents`
holds the byte strings in play; no two of them have the same hash. -/
theorem named_objects_immutable (tenants : Set Uuid) (contents : Set Bytes) (bucket : BucketName)
    (w : StoreWorld) {s t : Pool StoreSig Exc Unit StoreWorld}
    (hinj : Set.InjOn sha256hex contents) (hin : (tenantObjects tenants).Within contents w.bucket)
    (hnamed : (tenantObjects tenants).Addressed w.bucket)
    (hs : Reaches (Pool.next execStore) (storeCallers bucket contents) (.idle w) s)
    (ht : Reaches (Pool.next execStore) (storeCallers bucket contents) s t) :
    (tenantObjects tenants).Addressed s.world.bucket ∧
    (tenantObjects tenants).Keeps s.world.bucket t.world.bucket := by
  have hw : SoundBucket tenants contents w := ⟨hnamed, hin⟩
  obtain ⟨hws, hsafe⟩ := Pool.Safe.reaches (Q := fun _ _ => True) Preserves.refl
    (fun _ _ _ => Preserves.trans) (fun u _ _ hu hp => StoreCaller.safe hinj hp (hu hw).1)
    (Pool.safe_idle w) hs
  have hsound := (hws hw).1
  obtain ⟨hst, -⟩ := Pool.Safe.reaches (Q := fun _ _ => True) Preserves.refl
    (fun _ _ _ => Preserves.trans) (fun u _ _ hu hp => StoreCaller.safe hinj hp (hu hsound).1)
    hsafe ht
  exact ⟨hsound.1, (hst hsound).2⟩

/-- Two writers of one page that both fall back to the plain write: the second
one overwrites. -/
theorem named_objects_immutable_fallback :
    let page : RawPage := ⟨⟨2⟩, ⟨3⟩, 0, [7], "text/plain".toList, none, none, 0, [], none⟩
    let key := tenantKey ⟨1⟩ page.key
    let once := Function.update (fun _ => none) key (some ⟨[7], some "text/plain".toList⟩)
    let twice := Function.update once key (some ⟨[7], some "text/html".toList⟩)
    (tenantObjects {⟨1⟩}).Addressed once ∧ (tenantObjects {⟨1⟩}).Keeps once twice := by
  intro page key once twice
  let page' : RawPage := { page with contentType := "text/html".toList }
  let bucket : BucketName := ⟨"raw".toList, by decide, by decide⟩
  let unsupported : StoreAnswer := .refused ⟨some "NotImplemented", some 501, ""⟩
  let next (s : Pool StoreSig Exc Unit StoreWorld) := Pool.next execStore s
  have hs : Reaches next (storeCallers bucket {[7]}) (.idle ⟨fun _ => none, []⟩) _ :=
    ((((((((Reaches.refl.tail (e := .start 0 (storeRawPayload bucket page).discard)
      (.storeRawPayload page rfl) rfl).tail
      (e := .start 1 (storeRawPayload bucket page').discard)
      (.storeRawPayload page' rfl) rfl).tail
      (e := .step 0 (.tenant (.ok ⟨1⟩))) trivial rfl).tail
      (e := .step 1 (.tenant (.ok ⟨1⟩))) trivial rfl).tail
      (e := .step 0 unsupported) trivial rfl).tail
      (e := .step 1 unsupported) trivial rfl).tail
      (e := .step 0 (.done ⟨0⟩)) trivial rfl).tail
      (e := .step 1 (.done ⟨0⟩)) trivial rfl).tail
      (e := .step 0 (.done ⟨0⟩)) trivial rfl
  exact named_objects_immutable {⟨1⟩} {[7]} bucket ⟨fun _ => none, []⟩
    (Set.injOn_singleton _ _) (by intro _ _ h; cases h) (by intro _ _ h; cases h) hs
    (Reaches.refl.tail (e := .step 1 (.done ⟨0⟩)) trivial rfl)

end DataLake
