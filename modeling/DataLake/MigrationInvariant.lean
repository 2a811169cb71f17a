import DataLake.PutRule
import DataLake.RawMigration

/-! What any number of migration passes of one tenant keep, whenever each of them
stops: where an object of the bucket comes from, and which records have moved. -/

namespace DataLake

open Foundation

/-- The tenant whose records are migrated, and the store before any pass. The
record table has its unique constraints, and an object under a key of the tenant
hashes to the checksum of the key. -/
structure Migration where
  bucket : BucketName
  tenant : Uuid
  schemaName : Text
  initial : StoreWorld
  ids : (initial.records.map RawPayloadRecord.id).Nodup
  versions : (initial.records.map RawPayloadRecord.version).Nodup
  hashed : ∀ pipeline run sequence checksum o, checksum.length = 64 →
    initial.bucket (tenantKey tenant (logicalKey pipeline run sequence checksum)) = some o →
    sha256hex o.body = checksum

namespace Migration

variable (m : Migration)

def targetKey (r : RawPayloadRecord) : Text := tenantKey m.tenant (expectedLogicalKey r)

def moved (r : RawPayloadRecord) : RawPayloadRecord :=
  { r with storageUri := storageUri m.bucket (m.targetKey r) }

/-- The legacy key a pass would copy the object of the record from. -/
def legacyKey (r : RawPayloadRecord) : Option Text :=
  match classify m.bucket r m.tenant.text m.schemaName with
  | (.alreadyMigrated, _) => none
  | (_, key) => key

/-- The object there, when its checksum is the one recorded. -/
def source (r : RawPayloadRecord) : Option S3Object :=
  (m.legacyKey r).bind fun key =>
    (m.initial.bucket key).filter fun o => sha256hex o.body = r.checksumSha256

def copied (o : S3Object) : S3Object := ⟨o.body, some (orJson o.contentType)⟩

variable {m} {r r' : RawPayloadRecord} {o o₀ : S3Object} {key : Text}

theorem classify_cases (m : Migration) (r : RawPayloadRecord) :
    (∃ k, classify m.bucket r m.tenant.text m.schemaName = (.alreadyMigrated, some k) ∧
      r = m.moved r) ∨
    (∃ c, classify m.bucket r m.tenant.text m.schemaName = (c, none) ∧ c ≠ .alreadyMigrated) ∨
    (∃ c k, classify m.bucket r m.tenant.text m.schemaName = (c, some k) ∧ c ≠ .alreadyMigrated ∧
      r.storageUri = storageUri m.bucket k ∧ k ≠ m.targetKey r ∧
      (k = prefixedKey m.schemaName (expectedLogicalKey r) ∨ k = expectedLogicalKey r)) := by
  cases hparse : parseUri m.bucket r.storageUri with
  | error e => exact .inr (.inl ⟨.checksumConflict, by simp [classify, hparse], by decide⟩)
  | ok parsed =>
    obtain ⟨name, k⟩ := parsed
    obtain ⟨rfl, huri, -⟩ := parseUri_ok hparse
    by_cases htarget : k = prefixedKey m.tenant.text (expectedLogicalKey r)
    · left
      refine ⟨k, by simp [classify, hparse, htarget], ?_⟩
      cases r
      simp only [moved, targetKey, tenantKey, RawPayloadRecord.mk.injEq, true_and, and_true]
      rw [← htarget]
      exact huri
    · have hne : k ≠ m.targetKey r := htarget
      by_cases hschema : k = prefixedKey m.schemaName (expectedLogicalKey r)
      · refine .inr (.inr ⟨.schemaPrefixed, k, ?_, by decide, huri, hne, .inl hschema⟩)
        simp only [classify, hparse, ne_eq, not_true_eq_false, if_false, if_neg htarget,
          if_pos hschema]
      · by_cases hlegacy : k = expectedLogicalKey r
        · refine .inr (.inr ⟨.legacyUnprefixed, k, ?_, by decide, huri, hne, .inr hlegacy⟩)
          simp only [classify, hparse, ne_eq, not_true_eq_false, if_false, if_neg htarget,
            if_neg hschema, if_pos hlegacy]
        · refine .inr (.inl ⟨.checksumConflict, ?_, by decide⟩)
          simp [classify, hparse, htarget, hschema, hlegacy]

theorem legacyKey_spec (h : m.legacyKey r = some key) :
    r.storageUri = storageUri m.bucket key ∧ key ≠ m.targetKey r ∧
      (key = prefixedKey m.schemaName (expectedLogicalKey r) ∨ key = expectedLogicalKey r) := by
  rcases m.classify_cases r with ⟨k, hk, -⟩ | ⟨c, hk, hc⟩ | ⟨c, k, hk, hc, hspec⟩
  · simp [legacyKey, hk] at h
  · cases c <;> simp_all [legacyKey]
  · obtain rfl : k = key := by cases c <;> simp_all [legacyKey]
    exact hspec

theorem source_spec (h : m.source r = some o) :
    ∃ key, m.legacyKey r = some key ∧ m.initial.bucket key = some o ∧
      sha256hex o.body = r.checksumSha256 := by
  obtain ⟨key, hkey, ho⟩ := Option.bind_eq_some_iff.mp h
  obtain ⟨ho, hsum⟩ := Option.filter_eq_some_iff.mp ho
  exact ⟨key, hkey, ho, by simpa using hsum⟩

theorem source_eq (hkey : m.legacyKey r = some key) (ho : m.initial.bucket key = some o)
    (hsum : sha256hex o.body = r.checksumSha256) : m.source r = some o := by
  simp [source, hkey, ho, hsum]

theorem slash_notMem_of_source (h : m.source r = some o) : '/' ∉ r.checksumSha256 := by
  obtain ⟨-, -, -, hsum⟩ := source_spec h
  rw [← hsum]
  exact slash_notMem_sha256hex o.body

theorem expectedLogicalKey_eq (r : RawPayloadRecord) :
    expectedLogicalKey r = (r.pipeline.text ++ '/' :: r.run.text) ++
      '/' :: keyFilename r.sequence r.checksumSha256 := by
  simp [expectedLogicalKey, logicalKey]

/-- A legacy key is never the target of another record: the UUID in front of a target
key is a path segment too many, or the schema name would be that UUID. -/
theorem legacyKey_ne_targetKey (hr : '/' ∉ r.checksumSha256) (hr' : '/' ∉ r'.checksumSha256)
    (h : m.legacyKey r = some key) : key ≠ m.targetKey r' := by
  intro heq
  have htarget : m.targetKey r' = (m.tenant.text ++ '/' :: (r'.pipeline.text ++ '/' ::
      r'.run.text)) ++ '/' :: keyFilename r'.sequence r'.checksumSha256 := by
    simp [targetKey, tenantKey, prefixedKey, expectedLogicalKey_eq]
  have hfile := slash_notMem_keyFilename r.sequence hr
  have hfile' := slash_notMem_keyFilename r'.sequence hr'
  obtain ⟨-, hne, hkey | hkey⟩ := legacyKey_spec h
  · have hprefixed : key = (m.schemaName ++ '/' :: (r.pipeline.text ++ '/' :: r.run.text)) ++
        '/' :: keyFilename r.sequence r.checksumSha256 := by
      rw [hkey, prefixedKey, expectedLogicalKey_eq]
      simp
    have hcut := (cut_last_inj hfile hfile' (hprefixed.symm.trans (heq.trans htarget))).1
    have hsplit : ∀ a b c : Text, a ++ '/' :: (b ++ '/' :: c) = (a ++ '/' :: b) ++ '/' :: c :=
      fun a b c => by simp
    rw [hsplit, hsplit] at hcut
    have hcut' := (cut_last_inj r.run.slash_notMem_text r'.run.slash_notMem_text hcut).1
    have hschema := (cut_last_inj r.pipeline.slash_notMem_text r'.pipeline.slash_notMem_text
      hcut').1
    exact hne (by rw [hkey, hschema]; rfl)
  · rw [hkey, expectedLogicalKey_eq, htarget] at heq
    have hcut := (cut_last_inj hfile hfile' heq).1
    have hsplit : m.tenant.text ++ '/' :: (r'.pipeline.text ++ '/' :: r'.run.text) =
        (m.tenant.text ++ '/' :: r'.pipeline.text) ++ '/' :: r'.run.text := by simp
    rw [hsplit] at hcut
    have hpipeline := (cut_last_inj r.run.slash_notMem_text r'.run.slash_notMem_text hcut).1
    have hslash := r.pipeline.slash_notMem_text
    rw [hpipeline] at hslash
    exact hslash (by simp)

theorem targetKey_inj (hr : r ∈ m.initial.records) (hr' : r' ∈ m.initial.records)
    (h : m.targetKey r = m.targetKey r') : r = r' := by
  obtain ⟨-, hrun, hseq, hsum⟩ := logicalKey_inj (tenantKey_inj h).2
  refine List.inj_on_of_nodup_map m.versions hr hr' ?_
  rw [RawPayloadRecord.version, RawPayloadRecord.version, hrun, hseq, hsum]

theorem id_inj (hr : r ∈ m.initial.records) (hr' : r' ∈ m.initial.records) (h : r.id = r'.id) :
    r = r' := List.inj_on_of_nodup_map m.ids hr hr' h

/-! The invariant of the store. -/

/-- The object of the record is under its target key, with its checksum. -/
def Completed (m : Migration) (w : StoreWorld) (r : RawPayloadRecord) : Prop :=
  ∃ o₀ o, m.source r = some o₀ ∧ w.bucket (m.targetKey r) = some o ∧
    sha256hex o.body = r.checksumSha256 ∧ o.body.length = o₀.body.length

def move (m : Migration) (done : Uuid → Bool) (r : RawPayloadRecord) : RawPayloadRecord :=
  if done r.id then m.moved r else r

structure Inv (m : Migration) (w : StoreWorld) : Prop where
  retained : ∀ key o, m.initial.bucket key = some o → w.bucket key = some o
  origin : ∀ key o, w.bucket key = some o → m.initial.bucket key = some o ∨
    ∃ r ∈ m.initial.records, ∃ o₀, m.source r = some o₀ ∧ key = m.targetKey r ∧ o = copied o₀
  records : ∃ done : Uuid → Bool, w.records = m.initial.records.map (m.move done) ∧
    ∀ r ∈ m.initial.records, done r.id = true → m.Completed w r

/-- What a pass relies on and guarantees: objects stay, and moved records stay moved. -/
def Keeps (m : Migration) (v w : StoreWorld) : Prop :=
  m.Inv v → m.Inv w ∧ (∀ key o, v.bucket key = some o → w.bucket key = some o) ∧
    ∀ r ∈ m.initial.records, m.moved r ∈ v.records → m.moved r ∈ w.records

theorem Keeps.refl (w : StoreWorld) : m.Keeps w w :=
  fun hw => ⟨hw, fun _ _ h => h, fun _ _ h => h⟩

theorem Keeps.trans {u v w : StoreWorld} (huv : m.Keeps u v) (hvw : m.Keeps v w) :
    m.Keeps u w := by
  intro hu
  obtain ⟨hv, hkeys, hrecords⟩ := huv hu
  obtain ⟨hw, hkeys', hrecords'⟩ := hvw hv
  exact ⟨hw, fun key o h => hkeys' key o (hkeys key o h), 
    fun r hr h => hrecords' r hr (hrecords r hr h)⟩

theorem inv_initial (m : Migration) : m.Inv m.initial := by
  refine ⟨fun _ _ h => h, fun _ _ h => .inl h, fun _ => false, ?_, nofun⟩
  exact (List.map_id _).symm

theorem Completed.mono {w w' : StoreWorld} (h : m.Completed w r)
    (hkeys : ∀ key o, w.bucket key = some o → w'.bucket key = some o) : m.Completed w' r := by
  obtain ⟨o₀, o, hsource, ho, hsum, hlen⟩ := h
  exact ⟨o₀, o, hsource, hkeys _ _ ho, hsum, hlen⟩

theorem Inv.target_cases {w : StoreWorld} (hw : m.Inv w) (hr : r ∈ m.initial.records)
    (hsource : m.source r = some o₀) (ho : w.bucket (m.targetKey r) = some o) :
    m.initial.bucket (m.targetKey r) = some o ∨ o = copied o₀ := by
  rcases hw.origin _ _ ho with h | ⟨r', hr', o₁, hsource', hkey, rfl⟩
  · exact .inl h
  · obtain rfl := targetKey_inj hr hr' hkey
    rw [hsource] at hsource'
    obtain rfl := Option.some.inj hsource'
    exact .inr rfl

theorem Inv.target_hashed {w : StoreWorld} (hw : m.Inv w) (hr : r ∈ m.initial.records)
    (hsource : m.source r = some o₀) (ho : w.bucket (m.targetKey r) = some o) :
    sha256hex o.body = r.checksumSha256 := by
  obtain ⟨-, -, -, hsum⟩ := source_spec hsource
  rcases hw.target_cases hr hsource ho with h | rfl
  · have hlen : r.checksumSha256.length = 64 := by
      rw [← hsum]
      exact length_sha256hex o₀.body
    exact m.hashed r.pipeline r.run r.sequence r.checksumSha256 o hlen h
  · exact hsum

theorem Inv.legacy_initial {w : StoreWorld} (hw : m.Inv w) (hkey : m.legacyKey r = some key)
    (ho : w.bucket key = some o) (hsum : sha256hex o.body = r.checksumSha256) :
    m.source r = some o := by
  refine source_eq hkey ?_ hsum
  rcases hw.origin _ _ ho with h | ⟨r', -, o₁, hsource', htarget, -⟩
  · exact h
  · have hslash : '/' ∉ r.checksumSha256 := by
      rw [← hsum]
      exact slash_notMem_sha256hex o.body
    exact absurd htarget (legacyKey_ne_targetKey hslash (slash_notMem_of_source hsource') hkey)

/-- To copy an object once its target was seen absent keeps the invariant: whatever
is there by now is the same copy. -/
theorem keeps_write {u v : StoreWorld} (hr : r ∈ m.initial.records)
    (hsource : m.source r = some o₀) (hu : m.Inv u) (habsent : u.bucket (m.targetKey r) = none) :
    m.Keeps v (v.write (m.targetKey r) (copied o₀)) := by
  intro hv
  have hinitial : m.initial.bucket (m.targetKey r) = none := by
    cases hi : m.initial.bucket (m.targetKey r) with
    | none => rfl
    | some o =>
      have h := hu.retained _ _ hi
      rw [habsent] at h
      cases h
  have hkeys : ∀ key o, v.bucket key = some o →
      (v.write (m.targetKey r) (copied o₀)).bucket key = some o := by
    intro key o ho
    rw [StoreWorld.write_bucket]
    by_cases hkey : key = m.targetKey r
    · subst hkey
      rcases hv.target_cases hr hsource ho with h | rfl
      · rw [hinitial] at h
        cases h
      · simp
    · simpa [hkey] using ho
  refine ⟨⟨fun key o h => hkeys key o (hv.retained key o h), fun key o ho => ?_, ?_⟩, hkeys,
    fun _ _ h => h⟩
  · rw [StoreWorld.write_bucket] at ho
    by_cases hkey : key = m.targetKey r
    · subst hkey
      exact .inr ⟨r, hr, o₀, hsource, rfl, by simpa using ho.symm⟩
    · exact hv.origin key o (by simpa [hkey] using ho)
  · obtain ⟨done, hrecords, hdone⟩ := hv.records
    exact ⟨done, hrecords, fun r' hr' h => (hdone r' hr' h).mono hkeys⟩

@[simp] theorem move_id (m : Migration) (done : Uuid → Bool) (r : RawPayloadRecord) :
    (m.move done r).id = r.id := by
  unfold move
  split_ifs <;> rfl

theorem keeps_saveStorageUri {v v' : StoreWorld} {c : StoreAnswer} {x : Unit}
    (hr : r ∈ m.initial.records) (hsource : m.source r = some o₀) (hv : m.Inv v)
    (hstored : Stored (m.targetKey r) o₀.body v)
    (h : execStore (.saveStorageUri r.id (storageUri m.bucket (m.targetKey r))) c v =
      some (x, v')) :
    m.Keeps v v' ∧ m.moved r ∈ v'.records := by
  obtain ⟨done, hrecords, hdone⟩ := hv.records
  obtain rfl : ⟨v.bucket, m.initial.records.map (m.move fun id => done id || id = r.id)⟩ = v' := by
    cases c with
    | done _ =>
      obtain ⟨-, rfl⟩ : () = x ∧ _ = v' := by simpa only [execStore, Option.some.injEq,
        Prod.mk.injEq] using h
      congr 1
      rw [hrecords, List.map_map]
      refine List.map_congr_left fun r' hr' => ?_
      by_cases hid : r'.id = r.id
      · obtain rfl := id_inj hr' hr hid
        simp only [Function.comp_apply, if_true, move, decide_true, Bool.or_true]
        split_ifs <;> rfl
      · have hmove : m.move (fun id => done id || id = r.id) r' = m.move done r' := by
          simp [move, hid]
        simp only [Function.comp_apply, move_id, if_neg hid, hmove]
    | _ => cases h
  have hcompleted : m.Completed v r := by
    obtain ⟨o, ho, hlen⟩ := hstored
    exact ⟨o₀, o, hsource, ho, hv.target_hashed hr hsource ho, hlen⟩
  refine ⟨fun _ => ⟨⟨hv.retained, hv.origin, _, rfl, fun r' hr' h => ?_⟩, fun _ _ h => h,
    fun r' hr' h => ?_⟩, ?_⟩
  · by_cases hid : r'.id = r.id
    · obtain rfl := id_inj hr' hr hid
      exact hcompleted
    · exact hdone r' hr' (by simpa [hid] using h)
  · rw [hrecords] at h
    obtain ⟨r₁, hr₁, heq⟩ := List.mem_map.mp h
    obtain rfl : r₁ = r' := id_inj hr₁ hr' (by simpa [moved] using congrArg RawPayloadRecord.id heq)
    refine List.mem_map.mpr ⟨r₁, hr₁, ?_⟩
    by_cases hd : done r₁.id = true
    · simp [move, hd]
    · have hsame : r₁ = m.moved r₁ := by simpa [move, hd] using heq
      unfold move
      split_ifs
      · rfl
      · exact hsame
  · exact List.mem_map.mpr ⟨r, hr, by simp [move]⟩

end Migration

end DataLake
