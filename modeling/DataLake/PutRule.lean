import DataLake.StoreService

/-! The rule of `put` for a worker of one tenant, whatever the other workers do:
where the object ends up, and when an undisturbed call can fail. -/

namespace DataLake

open Foundation

def underTenant (tenant : Uuid) : StoreAnswer → Bool
  | .tenant (.ok u) => u = tenant
  | _ => true

def S3Error.unsupported (err : S3Error) : Bool :=
  !(err.codeIn ["PreconditionFailed"] || err.statusIn [412]) && !err.codeIn ["NoSuchBucket"] &&
    (err.codeIn conditionalWriteUnsupportedCodes ||
      err.statusIn conditionalWriteUnsupportedStatuses)

def undisturbed : StoreOp → StoreAnswer → Bool
  | .tenantUuid, .tenant (.ok _) => true
  | .putIfAbsent _ _, .refused err => err.unsupported
  | .cancelCheck, .cancel b => !b
  | _, .done _ => true
  | _, _ => false

/-- The service as a worker of the tenant sees it; when `calm`, no call fails. -/
abbrev tenantExec (tenant : Uuid) (calm : Bool) : Exec StoreSig StoreAnswer StoreWorld :=
  execStore.only fun op c => underTenant tenant c && (!calm || undisturbed op c)

theorem tenantExec_spec {tenant : Uuid} {calm : Bool} {op : StoreOp} {c : StoreAnswer}
    {w w' : StoreWorld} {r : op.Resp} (h : tenantExec tenant calm op c w = some (r, w')) :
    underTenant tenant c = true ∧ (calm = true → undisturbed op c = true) ∧
      execStore op c w = some (r, w') := by
  obtain ⟨hP, h⟩ := Exec.of_only h
  simp only [Bool.and_eq_true, Bool.or_eq_true, Bool.not_eq_true'] at hP
  refine ⟨hP.1, fun hcalm => ?_, h⟩
  rcases hP.2 with hn | hu
  · simp [hn] at hcalm
  · exact hu

theorem tenantExec_tenantUuid {tenant : Uuid} {calm : Bool} {c : StoreAnswer}
    {w w' : StoreWorld} {r : Except DataLakeError Uuid}
    (h : tenantExec tenant calm .tenantUuid c w = some (r, w')) :
    w' = w ∧ (r = .ok tenant ∨ (calm = false ∧ ∃ e, r = .error e)) := by
  obtain ⟨hu, hcalm, he⟩ := tenantExec_spec h
  obtain ⟨rfl, rfl⟩ := execStore_tenantUuid he
  refine ⟨rfl, ?_⟩
  rcases r with e | u
  · refine .inr ⟨?_, e, rfl⟩
    cases calm with
    | false => rfl
    | true => exact absurd (hcalm rfl) (by simp [undisturbed])
  · exact .inl (by simpa [underTenant] using hu)

theorem tenantExec_headObject {tenant : Uuid} {calm : Bool} {key : Text} {c : StoreAnswer}
    {w w' : StoreWorld} {r : Except S3Error (Option Nat)}
    (h : tenantExec tenant calm (.headObject key) c w = some (r, w')) :
    w' = w ∧
    ((w.bucket key = none ∧ r = .error notFound) ∨
    (∃ o, w.bucket key = some o ∧ r = .ok (some o.body.length)) ∨
    (calm = false ∧ ∃ err, err.codeIn notFoundCodes = false ∧ r = .error err)) := by
  obtain ⟨-, hcalm, he⟩ := tenantExec_spec h
  obtain ⟨rfl, hr⟩ := execStore_headObject he
  refine ⟨rfl, ?_⟩
  rcases hr with ⟨_, -, hb, hr⟩ | ⟨_, o, -, hb, hr⟩ | ⟨err, rfl, hc, hr⟩
  · exact .inl ⟨hb, hr⟩
  · exact .inr (.inl ⟨o, hb, hr⟩)
  · refine .inr (.inr ⟨?_, err, hc, hr⟩)
    cases calm with
    | false => rfl
    | true => exact absurd (hcalm rfl) (by simp [undisturbed])

variable {bucket : BucketName} {tenant : Uuid} {calm : Bool} {key : Text} {object : S3Object}
  {R : StoreWorld → StoreWorld → Prop} {I : StoreWorld → Prop}

/-- What a reader of `key` needs of its environment: the invariant and the stored
contents last. -/
structure ReaderRely (key : Text) (R : StoreWorld → StoreWorld → Prop)
    (I : StoreWorld → Prop) : Prop where
  refl : ∀ w, R w w
  trans : ∀ u v w, R u v → R v w → R u w
  inv : ∀ v w, I v → R v w → I w
  lasts : ∀ v w o, I v → R v w → v.bucket key = some o →
    ∃ o', w.bucket key = some o' ∧ o'.body = o.body

theorem lone_reader (key : Text) (w : StoreWorld) : ReaderRely key Eq (w = ·) where
  refl _ := rfl
  trans _ _ _ := Eq.trans
  inv _ _ hv hvw := hv.trans hvw
  lasts _ _ o _ hvw ho := ⟨o, by rw [← hvw]; exact ho, rfl⟩

/-- A writer of `object` may also write once the key was seen absent. -/
structure WriterRely (key : Text) (object : S3Object) (R : StoreWorld → StoreWorld → Prop)
    (I : StoreWorld → Prop) : Prop extends ReaderRely key R I where
  write : ∀ u v, I u → u.bucket key = none → R u v → R v (v.write key object)

def Stored (key : Text) (data : Bytes) (w : StoreWorld) : Prop :=
  ∃ o, w.bucket key = some o ∧ o.body.length = data.length

def SizeDiffers (key : Text) (data : Bytes) (w : StoreWorld) : Prop :=
  ∃ o, w.bucket key = some o ∧ o.body.length ≠ data.length

theorem ReaderRely.stored (hR : ReaderRely key R I) {data : Bytes} {v w : StoreWorld}
    (hv : I v) (hvw : R v w) (h : Stored key data v) : Stored key data w := by
  obtain ⟨o, ho, hlen⟩ := h
  obtain ⟨o', ho', hbody⟩ := hR.lasts v w o hv hvw ho
  exact ⟨o', ho', by rw [hbody, hlen]⟩

theorem ReaderRely.sizeDiffers (hR : ReaderRely key R I) {data : Bytes} {v w : StoreWorld}
    (hv : I v) (hvw : R v w) (h : SizeDiffers key data v) : SizeDiffers key data w := by
  obtain ⟨o, ho, hlen⟩ := h
  obtain ⟨o', ho', hbody⟩ := hR.lasts v w o hv hvw ho
  exact ⟨o', ho', by rw [hbody]; exact hlen⟩

theorem stored_write (key : Text) (object : S3Object) (w : StoreWorld) :
    Stored key object.body (w.write key object) :=
  ⟨object, by simp [StoreWorld.write], rfl⟩

def Absent (key : Text) (R : StoreWorld → StoreWorld → Prop) (I : StoreWorld → Prop)
    (w : StoreWorld) : Prop :=
  ∃ u, I u ∧ u.bucket key = none ∧ R u w

theorem keyExists_safe (hR : ReaderRely key R I) {w : StoreWorld} (hw : I w) :
    (keyExists bucket key).Safe (tenantExec tenant calm) R R
      (fun out v => I v ∧ match out with
        | .ok true => ∃ o, v.bucket key = some o
        | .ok false => Absent key R I v
        | .error _ => calm = false) w := by
  refine safe_storeCall fun v hv c r v' he => ?_
  obtain ⟨rfl, hr⟩ := tenantExec_headObject he
  have hIv := hR.inv w v' hw hv
  refine ⟨hR.refl _, ?_⟩
  rcases hr with ⟨hb, rfl⟩ | ⟨o, hb, rfl⟩ | ⟨hcalm, err, hc, rfl⟩
  · exact fun u hu => ⟨hR.inv _ u hIv hu, v', hIv, hb, hu⟩
  · intro u hu
    obtain ⟨o', ho', -⟩ := hR.lasts _ u o hIv hu hb
    exact ⟨hR.inv _ u hIv hu, o', ho'⟩
  · simp only [hc, Bool.false_eq_true, if_false]
    split_ifs
    · exact fun u hu => ⟨hR.inv _ u hIv hu, hcalm⟩
    · exact fun u hu => ⟨hR.inv _ u hIv hu, hcalm⟩

theorem putCheckThenWrite_safe (hR : WriterRely key object R I) {w : StoreWorld} (hw : I w) :
    (putCheckThenWrite bucket key object).Safe (tenantExec tenant calm) R R
      (fun out v => I v ∧ match out with
        | .ok true => Stored key object.body v
        | .ok false => calm = true → ∃ o, v.bucket key = some o
        | .error _ => calm = false) w := by
  refine (keyExists_safe hR.toReaderRely hw).handle hR.refl (fun found v hv => ?_) fun e v hv => ?_
  · obtain ⟨hIv, hfound⟩ := hv
    cases found with
    | true =>
      obtain ⟨o, ho⟩ := hfound
      intro u hu
      obtain ⟨o', ho', -⟩ := hR.lasts v u o hIv hu ho
      exact ⟨hR.inv v u hIv hu, fun _ => ⟨o', ho'⟩⟩
    | false =>
      obtain ⟨a, hIa, hnone, hav⟩ := hfound
      refine safe_storeCall fun v' hv' c r v'' he => ?_
      have hIv' := hR.inv v v' hIv hv'
      have hwrite := hR.write a v' hIa hnone (hR.trans _ _ _ hav hv')
      obtain ⟨-, hcalm, he⟩ := tenantExec_spec he
      rcases execStore_putObject he with ⟨_, -, rfl, rfl⟩ | ⟨err, rfl, rfl, rfl⟩ |
        ⟨err, rfl, rfl, rfl⟩
      · refine ⟨hwrite, fun u hu => ?_⟩
        have hI := hR.inv _ _ hIv' hwrite
        exact ⟨hR.inv _ u hI hu, hR.stored hI hu (stored_write key object v')⟩
      · have hc : calm = false := by simpa [undisturbed] using hcalm
        refine ⟨hR.refl _, ?_⟩
        dsimp only
        split_ifs
        · exact fun u hu => ⟨hR.inv _ u hIv' hu, hc⟩
        · exact fun u hu => ⟨hR.inv _ u hIv' hu, hc⟩
      · have hc : calm = false := by simpa [undisturbed] using hcalm
        have hI := hR.inv _ _ hIv' hwrite
        refine ⟨hwrite, ?_⟩
        dsimp only
        split_ifs
        · exact fun u hu => ⟨hR.inv _ u hI hu, hc⟩
        · exact fun u hu => ⟨hR.inv _ u hI hu, hc⟩
  · exact fun u hu => ⟨hR.inv v u hv.1 hu, hv.2⟩

theorem WriterRely.putIfAbsent (hR : WriterRely key object R I) {v v' : StoreWorld}
    {c : StoreAnswer} {r : Except S3Error Unit} (hv : I v)
    (h : tenantExec tenant calm (.putIfAbsent key object) c v = some (r, v')) :
    R v v' ∧ ((r = .ok () ∧ Stored key object.body v') ∨
      (r = .error preconditionFailed ∧ ∃ o, v'.bucket key = some o) ∨
      (∃ err, r = .error err ∧ (calm = true → err.unsupported = true))) := by
  obtain ⟨-, hcalm, he⟩ := tenantExec_spec h
  rcases execStore_putIfAbsent he with ⟨_, -, hb, rfl, rfl⟩ | ⟨_, o, -, hb, rfl, rfl⟩ |
    ⟨err, rfl, rfl, rfl⟩ | ⟨err, rfl, rfl, rfl⟩
  · exact ⟨hR.write v v hv hb (hR.refl v), .inl ⟨rfl, stored_write key object v⟩⟩
  · exact ⟨hR.refl _, .inr (.inl ⟨rfl, o, hb⟩)⟩
  · exact ⟨hR.refl _, .inr (.inr ⟨err, rfl, hcalm⟩)⟩
  · refine ⟨?_, .inr (.inr ⟨err, rfl, fun hc => absurd (hcalm hc) (by simp [undisturbed])⟩)⟩
    rcases writeIfAbsent_cases v key object with heq | ⟨hb, heq⟩
    · rw [heq]
      exact hR.refl v
    · rw [heq]
      exact hR.write v v hv hb (hR.refl v)

theorem putCreateOnly_safe (hR : WriterRely key object R I) {w : StoreWorld} (hw : I w) :
    (putCreateOnly bucket key object).Safe (tenantExec tenant calm) R R
      (fun out v => I v ∧ match out with
        | .ok true => Stored key object.body v
        | .ok false => calm = true → ∃ o, v.bucket key = some o
        | .error _ => calm = false) w := by
  refine safe_storeCall fun v hv c r v' he => ?_
  have hIv := hR.inv w v hw hv
  obtain ⟨hG, hr⟩ := hR.putIfAbsent hIv he
  have hIv' := hR.inv v v' hIv hG
  refine ⟨hG, ?_⟩
  rcases hr with ⟨rfl, hs⟩ | ⟨rfl, o, ho⟩ | ⟨err, rfl, hun⟩
  · exact fun u hu => ⟨hR.inv _ u hIv' hu, hR.stored hIv' hu hs⟩
  · intro u hu
    obtain ⟨o', ho', -⟩ := hR.lasts _ u o hIv' hu ho
    exact ⟨hR.inv _ u hIv' hu, fun _ => ⟨o', ho'⟩⟩
  · simp only [S3Error.unsupported, Bool.and_eq_true, Bool.not_eq_true'] at hun
    dsimp only
    split_ifs with hpre hmissing hunsupported
    · exact fun u hu => ⟨hR.inv _ u hIv' hu, fun hc => by simp [(hun hc).1.1] at hpre⟩
    · refine fun u hu => ⟨hR.inv _ u hIv' hu, ?_⟩
      cases calm with
      | false => rfl
      | true => simp [(hun rfl).1.2] at hmissing
    · exact putCheckThenWrite_safe hR hIv'
    · refine fun u hu => ⟨hR.inv _ u hIv' hu, ?_⟩
      cases calm with
      | false => rfl
      | true => exact absurd (hun rfl).2 hunsupported

theorem verifyExistingObject_safe (hR : ReaderRely key R I) {data : Bytes}
    {w : StoreWorld} (hw : I w) (hfound : calm = true → ∃ o, w.bucket key = some o) :
    (verifyExistingObject key data).Safe (tenantExec tenant calm) R R
      (fun out v => I v ∧ match out with
        | .ok _ => Stored key data v
        | .error _ => calm = true → SizeDiffers key data v) w := by
  refine safe_storeCall fun v hv c r v' he => ?_
  obtain ⟨rfl, hr⟩ := tenantExec_headObject he
  have hIv := hR.inv w v' hw hv
  refine ⟨hR.refl _, ?_⟩
  rcases hr with ⟨hb, rfl⟩ | ⟨o, hb, rfl⟩ | ⟨hcalm, err, hc, rfl⟩
  · have hno : calm = true → SizeDiffers key data v' := by
      intro hcalm
      obtain ⟨o, ho⟩ := hfound hcalm
      obtain ⟨o', ho', -⟩ := hR.lasts w v' o hw hv ho
      simp [hb] at ho'
    exact fun u hu => ⟨hR.inv _ u hIv hu, fun hcalm => hR.sizeDiffers hIv hu (hno hcalm)⟩
  · dsimp only
    split_ifs with hlen
    · exact fun u hu => ⟨hR.inv _ u hIv hu, fun _ => hR.sizeDiffers hIv hu ⟨o, hb, hlen⟩⟩
    · exact fun u hu => ⟨hR.inv _ u hIv hu, hR.stored hIv hu ⟨o, hb, not_not.mp hlen⟩⟩
  · simp only [hc, Bool.false_eq_true, if_false]
    exact fun u hu => ⟨hR.inv _ u hIv hu, fun h => by simp [hcalm] at h⟩

/-- An object of the size of the data under the tenant's key, or a failure; undisturbed, a
failure only when an object of another size is there. -/
def PutEnds (bucket : BucketName) (tenant : Uuid) (calm : Bool) (key : Text) (data : Bytes)
    (out : Except Exc Text) (v : StoreWorld) : Prop :=
  match out with
  | .ok uri => uri = storageUri bucket (tenantKey tenant key) ∧
    Stored (tenantKey tenant key) data v
  | .error _ => calm = true → SizeDiffers (tenantKey tenant key) data v

theorem put_safe {data : Bytes} {contentType : Text}
    (hR : WriterRely (tenantKey tenant key) ⟨data, some contentType⟩ R I)
    {w : StoreWorld} (hw : I w) :
    (put bucket key data contentType).Safe (tenantExec tenant calm) R R
      (fun out v => I v ∧ PutEnds bucket tenant calm key data out v) w := by
  refine safe_storeCall fun v hv c r v' he => ?_
  obtain ⟨rfl, hr⟩ := tenantExec_tenantUuid he
  have hIv := hR.inv w v' hw hv
  refine ⟨hR.refl _, ?_⟩
  rcases hr with rfl | ⟨hcalm, e, rfl⟩
  · refine (putCreateOnly_safe hR hIv).handle hR.refl (fun written u hu => ?_) fun e u hu => ?_
    · obtain ⟨hIu, hout⟩ := hu
      cases written with
      | true => exact fun t ht => ⟨hR.inv _ t hIu ht, rfl, hR.stored hIu ht hout⟩
      | false =>
        refine (verifyExistingObject_safe hR.toReaderRely hIu hout).handle hR.refl (fun _ t ht => ?_)
          fun e t ht => ?_
        · exact fun x hx => ⟨hR.inv _ x ht.1 hx, rfl, hR.stored ht.1 hx ht.2⟩
        · exact fun x hx => ⟨hR.inv _ x ht.1 hx, fun hc => hR.sizeDiffers ht.1 hx (ht.2 hc)⟩
    · exact fun t ht => ⟨hR.inv _ t hu.1 ht, fun hc => by simp [hu.2] at hc⟩
  · exact fun u hu => ⟨hR.inv _ u hIv hu, fun hc => by simp [hcalm] at hc⟩

end DataLake
