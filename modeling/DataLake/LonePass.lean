import DataLake.MigrationPrediction

/-! One pass at work on its own, over a bucket with any contents: what it leaves after
each record and where it stops. -/

namespace DataLake

open Foundation

/-! `put` on its own. -/

section Put

variable {bucket : BucketName} {tenant : Uuid} {calm : Bool} {key : Text} {object : S3Object}
  {w v : StoreWorld}

def Copies (key : Text) (object : S3Object) (v w : StoreWorld) : Prop :=
  w = v ∨ w = v.writeIfAbsent key object

theorem writeIfAbsent_none (h : w.bucket key = none) :
    w.writeIfAbsent key object = w.write key object := by
  rw [StoreWorld.writeIfAbsent, h]

theorem writeIfAbsent_some {o : S3Object} (h : w.bucket key = some o) :
    w.writeIfAbsent key object = w := by
  rw [StoreWorld.writeIfAbsent, h]

theorem write_write (w : StoreWorld) (key : Text) (object : S3Object) :
    (w.write key object).write key object = w.write key object := by
  simp [StoreWorld.write]

theorem writeIfAbsent_twice (w : StoreWorld) (key : Text) (object : S3Object) :
    (w.writeIfAbsent key object).writeIfAbsent key object = w.writeIfAbsent key object := by
  cases h : w.bucket key with
  | none => rw [writeIfAbsent_none h, writeIfAbsent_some (o := object) (by simp)]
  | some o => rw [writeIfAbsent_some h, writeIfAbsent_some h]

theorem copies_writerRely (key : Text) (object : S3Object) :
    WriterRely key object (Copies key object) fun _ => True where
  refl _ := .inl rfl
  trans u v w huv hvw := by
    rcases huv with rfl | rfl
    · exact hvw
    · rcases hvw with rfl | rfl
      · exact .inr rfl
      · exact .inr (writeIfAbsent_twice u key object)
  inv _ _ _ _ := trivial
  lasts v w o _ hvw ho := by
    refine ⟨o, ?_, rfl⟩
    rcases hvw with rfl | rfl
    · exact ho
    · rw [writeIfAbsent_some ho]
      exact ho
  write u v _ habsent huv := by
    rcases huv with rfl | rfl
    · exact .inr (writeIfAbsent_none habsent).symm
    · left
      rw [writeIfAbsent_none habsent, write_write]

/-- Alone, `put` leaves its copy where there was nothing, or it finds an object of the
same size; undisturbed it fails only when it finds one of another size. -/
theorem put_alone {data : Bytes} {contentType : Text} (w : StoreWorld) :
    (put bucket key data contentType).Safe (tenantExec tenant calm) Eq (fun _ _ => True)
      (fun out v => match out with
        | .ok uri => uri = storageUri bucket (tenantKey tenant key) ∧
          ¬ SizeDiffers (tenantKey tenant key) data w ∧
          v = w.writeIfAbsent (tenantKey tenant key) ⟨data, some contentType⟩
        | .error _ => Copies (tenantKey tenant key) ⟨data, some contentType⟩ w v ∧
          (calm = true → v = w ∧ SizeDiffers (tenantKey tenant key) data w)) w := by
  have hR := copies_writerRely (tenantKey tenant key) ⟨data, some contentType⟩
  have hput := @put_safe bucket _ calm _ _ _ _ _ hR w trivial
  have hreached := Prog.Safe.guarantee (fun _ _ _ => trivial)
    (Prog.Safe.reached hR.trans (hR.refl w) hput)
  refine Prog.Safe.weaken (fun out v hv => ?_)
    (Prog.Safe.relies (fun v u hvu => hvu ▸ hR.refl v) hreached)
  obtain ⟨hcopies, -, hout⟩ := hv
  cases hb : w.bucket (tenantKey tenant key) with
  | none =>
    have hnone : ¬ SizeDiffers (tenantKey tenant key) data w := by
      rintro ⟨o, ho, -⟩
      rw [hb] at ho
      cases ho
    cases out with
    | ok uri =>
      obtain ⟨rfl, o, ho, -⟩ := hout
      refine ⟨rfl, hnone, hcopies.resolve_left ?_⟩
      rintro rfl
      rw [hb] at ho
      cases ho
    | error e =>
      refine ⟨hcopies, fun hcalm => ?_⟩
      obtain ⟨o, ho, hlen⟩ := hout hcalm
      rcases hcopies with rfl | rfl
      · rw [hb] at ho
        cases ho
      · rw [writeIfAbsent_none hb] at ho
        obtain rfl : ⟨data, some contentType⟩ = o := by simpa using ho
        exact absurd rfl hlen
  | some o =>
    have hsame : w.writeIfAbsent (tenantKey tenant key) ⟨data, some contentType⟩ = w :=
      writeIfAbsent_some hb
    obtain rfl : v = w := hcopies.elim id fun h => h.trans hsame
    cases out with
    | ok uri =>
      obtain ⟨rfl, o', ho', hlen⟩ := hout
      refine ⟨rfl, ?_, hsame.symm⟩
      rintro ⟨o'', ho'', hne⟩
      rw [ho'] at ho''
      obtain rfl := Option.some.inj ho''
      exact hne hlen
    | error e => exact ⟨.inl rfl, fun hcalm => ⟨rfl, hout hcalm⟩⟩

end Put

/-- A tenant's table of records, with the constraints of its columns, and the names that
a pass over it is given. -/
structure RecordTable where
  bucket : BucketName
  tenant : Uuid
  schemaName : Text
  records : List RawPayloadRecord
  ids : (records.map RawPayloadRecord.id).Nodup
  versions : (records.map RawPayloadRecord.version).Nodup
  columns : ∀ r ∈ records, r.checksumSha256.length ≤ 64

namespace RecordTable

variable (t : RecordTable)

/-- The table over an empty bucket: the keys of a record do not depend on the contents. -/
def emptied : Migration where
  bucket := t.bucket
  tenant := t.tenant
  schemaName := t.schemaName
  initial := ⟨fun _ => none, t.records⟩
  ids := t.ids
  versions := t.versions
  hashed := by
    intro _ _ _ _ _ _ h
    cases h

def legacyKey (r : RawPayloadRecord) : Option Text := t.emptied.legacyKey r

def targetKey (r : RawPayloadRecord) : Text := t.emptied.targetKey r

def sorted : List RawPayloadRecord := t.emptied.sorted

/-- The object at the legacy key of the record, when it has the checksum of the record. -/
def source (contents : Bucket) (r : RawPayloadRecord) : Option S3Object :=
  (t.legacyKey r).bind fun key => (contents key).filter fun o => sha256hex o.body = r.checksumSha256

def finding (contents : Bucket) (r : RawPayloadRecord) : Finding :=
  match classify t.bucket r t.tenant.text t.schemaName with
  | (.alreadyMigrated, _) => .alreadyMigrated
  | (_, none) => .unrecognized
  | (category, some key) =>
    match contents key with
    | none => .missing
    | some o => if sha256hex o.body = r.checksumSha256 then .ready category else .mismatch category

/-- An object of another size is at the key that a verified one is to be copied to. -/
def clash (contents : Bucket) (r : RawPayloadRecord) : Bool :=
  match t.source contents r, contents (t.targetKey r) with
  | some o, some o' => o'.body.length != o.body.length
  | _, _ => false

def repoint (r : RawPayloadRecord) (w : StoreWorld) : StoreWorld :=
  { w with records := w.records.map fun x =>
      if x.id = r.id then { x with storageUri := storageUri t.bucket (t.targetKey r) } else x }

/-- The store after a record that a pass gets through. -/
def settle (dryRun : Bool) (contents : Bucket) (w : StoreWorld) (r : RawPayloadRecord) :
    StoreWorld :=
  match t.source contents r with
  | some o =>
    if dryRun then w
    else t.repoint r (w.writeIfAbsent (t.targetKey r) (Migration.copied o))
  | none => w

variable {t} {contents : Bucket} {dryRun calm : Bool} {x r : RawPayloadRecord} {key : Text}
  {w : StoreWorld} {o : S3Object}

theorem source_spec (h : t.source contents r = some o) :
    ∃ key, t.legacyKey r = some key ∧ contents key = some o ∧
      sha256hex o.body = r.checksumSha256 := by
  obtain ⟨key, hkey, ho⟩ := Option.bind_eq_some_iff.mp h
  obtain ⟨ho, hsum⟩ := Option.filter_eq_some_iff.mp ho
  exact ⟨key, hkey, ho, by simpa using hsum⟩

theorem finding_legacy {category : Category}
    (hclass : classify t.bucket x t.tenant.text t.schemaName = (category, some key))
    (hne : category ≠ .alreadyMigrated) :
    t.legacyKey x = some key ∧ t.finding contents x = match contents key with
      | none => .missing
      | some o =>
        if sha256hex o.body = x.checksumSha256 then .ready category else .mismatch category := by
  cases category with
  | alreadyMigrated => exact absurd rfl hne
  | _ =>
    refine ⟨?_, by rw [finding, hclass]⟩
    simp only [legacyKey, Migration.legacyKey, emptied, hclass]

theorem legacyKey_none {category : Category}
    (hclass : classify t.bucket x t.tenant.text t.schemaName = (category, none))
    (hne : category ≠ .alreadyMigrated) :
    t.legacyKey x = none ∧ t.finding contents x = .unrecognized := by
  cases category with
  | alreadyMigrated => exact absurd rfl hne
  | _ =>
    refine ⟨?_, by rw [finding, hclass]⟩
    simp only [legacyKey, Migration.legacyKey, emptied, hclass]

/-- A finding is `ready` exactly when there is a verified object to copy. -/
theorem isReady_iff : (t.finding contents r).isReady = true ↔
    (t.source contents r).isSome = true := by
  rcases t.emptied.classify_cases r with ⟨k, hk, -⟩ | ⟨c, hk, hc⟩ | ⟨c, k, hk, hc, -⟩
  · have hfinding : t.finding contents r = .alreadyMigrated := by
      simp only [finding, show classify t.bucket r t.tenant.text t.schemaName = _ from hk]
    have hkey : t.legacyKey r = none := by
      simp only [legacyKey, Migration.legacyKey, hk]
    simp [hfinding, source, hkey, Finding.isReady]
  · obtain ⟨hkey, hfinding⟩ := @legacyKey_none _ contents _ _ hk hc
    simp [hfinding, source, hkey, Finding.isReady]
  · obtain ⟨hkey, hfinding⟩ := @finding_legacy _ contents _ _ _ hk hc
    rw [hfinding, source, hkey]
    cases hb : contents k with
    | none => simp [Finding.isReady, hb]
    | some o => by_cases hsum : sha256hex o.body = r.checksumSha256 <;>
        simp [Finding.isReady, hb, hsum]

/-! One record. -/

/-- The keys of the record have what they had in `contents`. -/
def Agrees (t : RecordTable) (contents : Bucket) (x : RawPayloadRecord) (w : StoreWorld) : Prop :=
  (∀ key, t.legacyKey x = some key → w.bucket key = contents key) ∧
    w.bucket (t.targetKey x) = contents (t.targetKey x)

/-- A pass that fails at the record has left it in the table as it was; its copy may be
there already. Undisturbed it has met a clash. -/
def FailedAt (t : RecordTable) (calm dryRun : Bool) (contents : Bucket) (x : RawPayloadRecord)
    (w v : StoreWorld) : Prop :=
  v.records = w.records ∧
    (v.bucket = w.bucket ∨ ∃ o, t.source contents x = some o ∧
      v.bucket = (w.writeIfAbsent (t.targetKey x) (Migration.copied o)).bucket) ∧
    (calm = true → dryRun = false ∧ t.clash contents x = true)

/-- What a pass alone makes of one record. -/
def Inspected (t : RecordTable) (calm dryRun : Bool) (contents : Bucket) (x : RawPayloadRecord)
    (result : MigrationInspectionResult) (w : StoreWorld) :
    Except Exc MigrationInspectionResult → StoreWorld → Prop
  | .ok result', v => (dryRun = true ∨ t.clash contents x = false) ∧
      v = t.settle dryRun contents w x ∧
      result' = result.inspected dryRun x (t.finding contents x)
  | .error _, v => t.FailedAt calm dryRun contents x w v

theorem failedAt_disturbed (h : calm = false) : t.FailedAt calm dryRun contents x w w :=
  ⟨rfl, .inl rfl, fun hc => by rw [h] at hc; cases hc⟩

theorem getRawByKey_alone (ho : w.bucket key = some o) :
    (getRawByKey key).Safe (tenantExec t.tenant calm) Eq (fun _ _ => True)
      (fun out v => v = w ∧ match out with
        | .ok found => found = o
        | .error _ => calm = false) w := by
  refine safe_storeCall fun v hv c y v' he => ⟨trivial, ?_⟩
  subst hv
  obtain ⟨rfl, hy⟩ := Migration.tenantExec_getObject he
  rcases hy with ⟨hnone, -⟩ | ⟨o', ho', rfl⟩ | ⟨hcalm, err, rfl⟩
  · rw [ho] at hnone
    cases hnone
  · rw [ho] at ho'
    obtain rfl := Option.some.inj ho'
    exact fun u hu => ⟨hu.symm, rfl⟩
  · exact fun u hu => ⟨hu.symm, hcalm⟩

theorem clash_of_sizeDiffers (hsource : t.source contents x = some o)
    (h : SizeDiffers (t.targetKey x) o.body w) (hagree : t.Agrees contents x w) :
    t.clash contents x = true := by
  obtain ⟨o', ho', hne⟩ := h
  rw [hagree.2] at ho'
  simp [clash, hsource, ho', hne]

theorem not_clash_of_not_sizeDiffers (hsource : t.source contents x = some o)
    (h : ¬ SizeDiffers (t.targetKey x) o.body w) (hagree : t.Agrees contents x w) :
    t.clash contents x = false := by
  cases hb : contents (t.targetKey x) with
  | none => simp [clash, hsource, hb]
  | some o' =>
    have hlen : o'.body.length = o.body.length := by
      by_contra hne
      exact h ⟨o', hagree.2.trans hb, hne⟩
    simp [clash, hsource, hb, hlen]

theorem clash_of_source_none (h : t.source contents x = none) : t.clash contents x = false := by
  simp [clash, h]

/-- What is left of a record once its object is there and was downloaded. -/
def Copied (t : RecordTable) (calm dryRun : Bool) (contents : Bucket) (x : RawPayloadRecord)
    (o : S3Object) (w : StoreWorld) : Except Exc (Bool × Option Text) → StoreWorld → Prop
  | .ok (false, _), v => sha256hex o.body ≠ x.checksumSha256 ∧ v = w
  | .ok (true, uri), v => sha256hex o.body = x.checksumSha256 ∧
      if dryRun then uri = none ∧ v = w
      else uri = some (storageUri t.bucket (t.targetKey x)) ∧ t.clash contents x = false ∧
        v = w.writeIfAbsent (t.targetKey x) (Migration.copied o)
  | .error _, v => t.FailedAt calm dryRun contents x w v

theorem verifyAndMaybeMigrate_alone (hagree : t.Agrees contents x w)
    (hkey : t.legacyKey x = some key) (ho : contents key = some o) :
    (verifyAndMaybeMigrate t.bucket key x dryRun).Safe (tenantExec t.tenant calm) Eq
      (fun _ _ => True) (t.Copied calm dryRun contents x o w) w := by
  refine (getRawByKey_alone ((hagree.1 key hkey).trans ho)).handle (fun _ => rfl)
    (fun found v hv => ?_) fun e v hv => ?_
  · obtain ⟨rfl, rfl⟩ := hv
    unfold migrateObject
    split_ifs with hsum hdry
    · exact fun u hu => ⟨hsum, hu.symm⟩
    · refine fun u hu => ⟨not_not.mp hsum, ?_⟩
      rw [if_pos hdry]
      exact ⟨rfl, hu.symm⟩
    · have hsource : t.source contents x = some found := by
        simp [source, hkey, ho, not_not.mp hsum]
      refine (put_alone v).handle (fun _ => rfl) (fun uri u hu => ?_) fun e u hu => ?_
      · obtain ⟨rfl, hsize, rfl⟩ := hu
        refine fun s hs => ⟨not_not.mp hsum, ?_⟩
        rw [if_neg hdry]
        exact ⟨rfl, not_clash_of_not_sizeDiffers hsource hsize hagree, hs.symm⟩
      · obtain ⟨hcopies, hdiffers⟩ := hu
        rintro s rfl
        refine ⟨?_, ?_, fun hcalm => ⟨Bool.eq_false_iff.mpr hdry,
          clash_of_sizeDiffers hsource (hdiffers hcalm).2 hagree⟩⟩
        · rcases hcopies with rfl | rfl
          · rfl
          · rcases writeIfAbsent_cases v _ _ with h | ⟨-, h⟩ <;> rw [h]
            rfl
        · rcases hcopies with rfl | rfl
          · exact .inl rfl
          · exact .inr ⟨found, hsource, rfl⟩
  · obtain ⟨rfl, hcalm⟩ := hv
    exact fun u hu => hu ▸ failedAt_disturbed hcalm

theorem inspectLegacy_alone (hagree : t.Agrees contents x w) {category : Category}
    (hclass : classify t.bucket x t.tenant.text t.schemaName = (category, some key))
    (hne : category ≠ .alreadyMigrated) (result : MigrationInspectionResult) :
    (inspectLegacy t.bucket category key dryRun x
      { result with recordsInspected := result.recordsInspected + 1 }).Safe
      (tenantExec t.tenant calm) Eq (fun _ _ => True)
      (t.Inspected calm dryRun contents x result w) w := by
  obtain ⟨hkey, hfinding⟩ := @finding_legacy _ contents _ _ _ hclass hne
  have hsource : t.source contents x =
      (contents key).filter fun o => sha256hex o.body = x.checksumSha256 := by
    simp [source, hkey]
  refine (keyExists_safe (lone_reader key w) rfl).guarantee (fun _ _ _ => trivial) |>.handle
    (fun _ => rfl) (fun found v hv => ?_) fun e v hv => ?_
  · obtain ⟨rfl, hfound⟩ := hv
    cases found with
    | false =>
      obtain ⟨a, rfl, habsent, -⟩ := hfound
      rw [hagree.1 key hkey] at habsent
      rw [habsent] at hfinding hsource
      rintro u rfl
      refine ⟨.inr (clash_of_source_none hsource), ?_, by rw [hfinding]; rfl⟩
      rw [settle, hsource]
      rfl
    | true =>
      obtain ⟨o, ho⟩ := hfound
      rw [hagree.1 key hkey] at ho
      rw [ho] at hfinding hsource
      refine (verifyAndMaybeMigrate_alone hagree hkey ho).handle (fun _ => rfl)
        (fun answer u hu => ?_) fun e u hu => ?_
      · obtain ⟨_ | _, uri⟩ := answer
        · obtain ⟨hsum, rfl⟩ := hu
          have hnone : t.source contents x = none := by simp [hsource, hsum]
          simp only [if_neg hsum] at hfinding
          rintro s rfl
          refine ⟨.inr (clash_of_source_none hnone), ?_, by rw [hfinding]; rfl⟩
          rw [settle, hnone]
        · obtain ⟨hsum, huri⟩ := hu
          have hsome : t.source contents x = some o := by simp [hsource, hsum]
          simp only [if_pos hsum] at hfinding
          cases dryRun with
          | true =>
            obtain ⟨rfl, rfl⟩ := huri
            rintro s rfl
            refine ⟨.inl rfl, ?_, by rw [hfinding]; rfl⟩
            rw [settle, hsome]
            rfl
          | false =>
            obtain ⟨rfl, hclash, rfl⟩ := huri
            refine safe_storeCall fun s hs c y s' he => ⟨trivial, ?_⟩
            subst hs
            obtain ⟨-, -, he⟩ := tenantExec_spec he
            rintro a rfl
            refine ⟨.inr hclash, ?_, by rw [hfinding]; rfl⟩
            rw [settle, hsome]
            cases c with
            | done _ =>
              obtain ⟨-, rfl⟩ : () = y ∧ _ = s' := by simpa only [execStore, Option.some.injEq,
                Prod.mk.injEq] using he
              rfl
            | _ => cases he
      · rintro s rfl
        exact hu
  · obtain ⟨rfl, hcalm⟩ := hv
    exact fun u hu => hu ▸ failedAt_disturbed hcalm

theorem inspectRecord_alone (hagree : t.Agrees contents x w) (result : MigrationInspectionResult) :
    (inspectRecord t.bucket t.tenant.text t.schemaName dryRun x result).Safe
      (tenantExec t.tenant calm) Eq (fun _ _ => True)
      (t.Inspected calm dryRun contents x result w) w := by
  rcases t.emptied.classify_cases x with ⟨k, hk, -⟩ | ⟨c, hk, hc⟩ | ⟨c, k, hk, hc, -⟩
  · have hclass : classify t.bucket x t.tenant.text t.schemaName = (.alreadyMigrated, some k) := hk
    have hfinding : t.finding contents x = .alreadyMigrated := by rw [finding, hclass]
    have hnone : t.source contents x = none := by
      simp [source, legacyKey, Migration.legacyKey, hk]
    simp only [inspectRecord, hclass]
    rintro v rfl
    refine ⟨.inr (clash_of_source_none hnone), ?_, by rw [hfinding]; rfl⟩
    rw [settle, hnone]
  · obtain ⟨hkey, hfinding⟩ := @legacyKey_none _ contents _ _ hk hc
    have hclass : classify t.bucket x t.tenant.text t.schemaName = (c, none) := hk
    have hnone : t.source contents x = none := by simp [source, hkey]
    cases c with
    | alreadyMigrated => exact absurd rfl hc
    | _ =>
      simp only [inspectRecord, hclass]
      rintro v rfl
      refine ⟨.inr (clash_of_source_none hnone), ?_, by rw [hfinding]; rfl⟩
      rw [settle, hnone]
  · have hclass : classify t.bucket x t.tenant.text t.schemaName = (c, some k) := hk
    rw [inspectRecord_legacy hclass hc]
    exact inspectLegacy_alone hagree hclass hc result

end RecordTable

end DataLake
