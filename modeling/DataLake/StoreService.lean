import DataLake.Foundation.Pool
import DataLake.Foundation.Runs
import DataLake.RawStore
import Mathlib.Data.List.Sort

/-! How the object service and the database answer the calls of the store, and
what each answer can be. -/

namespace DataLake

open Foundation

abbrev Bucket := Text → Option S3Object

structure StoreWorld where
  bucket : Bucket
  records : List RawPayloadRecord

def StoreWorld.write (w : StoreWorld) (key : Text) (object : S3Object) : StoreWorld :=
  { w with bucket := Function.update w.bucket key (some object) }

@[simp] theorem StoreWorld.write_bucket (w : StoreWorld) (key : Text) (object : S3Object) :
    (w.write key object).bucket = Function.update w.bucket key (some object) := rfl

@[simp] theorem StoreWorld.write_records (w : StoreWorld) (key : Text) (object : S3Object) :
    (w.write key object).records = w.records := rfl

def StoreWorld.writeIfAbsent (w : StoreWorld) (key : Text) (object : S3Object) : StoreWorld :=
  match w.bucket key with
  | none => w.write key object
  | some _ => w

def preconditionFailed : S3Error :=
  ⟨some "PreconditionFailed", some 412, "At least one of the pre-conditions you specified did not hold"⟩

def notFound : S3Error := ⟨some "404", some 404, "Not Found"⟩

def noSuchKey : S3Error := ⟨some "NoSuchKey", some 404, "The specified key does not exist."⟩

/-- The row of the version, which is created if there is none. -/
def StoreWorld.getOrCreate (w : StoreWorld) (defaults : RawPayloadRecord) (fresh : Uuid) :
    RawPayloadRecord × StoreWorld :=
  match w.records.find? fun r => r.version = defaults.version with
  | some r => (r, w)
  | none =>
    let r := { defaults with id := fresh }
    (r, { w with records := w.records ++ [r] })

/-- What the environment decides about a call. `done` carries the identifier of
a row that the call creates; `refused` stores nothing; `lost` stores the object
although the caller sees an error, and `unheard` the row. -/
inductive StoreAnswer where
  | done (fresh : Uuid)
  | refused (err : S3Error)
  | lost (err : S3Error)
  | unheard (fresh : Uuid) (err : S3Error)
  | tenant (r : Except DataLakeError Uuid)
  | cancel (requested : Bool)

def execStore : Exec StoreSig StoreAnswer StoreWorld
  | .tenantUuid, .tenant r, w => some (r, w)
  | .putIfAbsent key object, .done _, w =>
    match w.bucket key with
    | none => some (.ok (), w.write key object)
    | some _ => some (.error preconditionFailed, w)
  | .putIfAbsent _ _, .refused err, w => some (.error err, w)
  | .putIfAbsent key object, .lost err, w => some (.error err, w.writeIfAbsent key object)
  | .putObject key object, .done _, w => some (.ok (), w.write key object)
  | .putObject _ _, .refused err, w => some (.error err, w)
  | .putObject key object, .lost err, w => some (.error err, w.write key object)
  | .headObject key, .done _, w =>
    match w.bucket key with
    | none => some (.error notFound, w)
    | some object => some (.ok (some object.body.length), w)
  | .headObject _, .refused err, w =>
    -- An error that says the object is absent is an answer, not a failure.
    if err.codeIn notFoundCodes then none else some (.error err, w)
  | .getObject key, .done _, w =>
    match w.bucket key with
    | none => some (.error noSuchKey, w)
    | some object => some (.ok object, w)
  | .getObject _, .refused err, w => some (.error err, w)
  | .getOrCreateRecord defaults, .done fresh, w =>
    some (.ok (w.getOrCreate defaults fresh).1, (w.getOrCreate defaults fresh).2)
  -- Of an error of the database, only the text is used.
  | .getOrCreateRecord _, .refused err, w => some (.error (.other err.message), w)
  | .getOrCreateRecord defaults, .unheard fresh err, w =>
    some (.error (.other err.message), (w.getOrCreate defaults fresh).2)
  | .saveLoaded record, .done _, w =>
    some ((), { w with records := w.records.map fun r =>
      if r.id = record.id then { r with loadedSuccessfully := record.loadedSuccessfully } else r })
  | .selectRecords, .done _, w =>
    some (w.records.insertionSort fun a b => a.id.bits.toNat ≤ b.id.bits.toNat, w)
  | .saveStorageUri id uri, .done _, w =>
    some ((), { w with records := w.records.map fun r =>
      if r.id = id then { r with storageUri := uri } else r })
  | .progressCallback _, .done _, w => some ((), w)
  | .cancelCheck, .cancel b, w => some (b, w)
  | _, _, _ => none

theorem safe_storeCall {α C W : Type} {exec : Exec StoreSig C W} {R G : W → W → Prop}
    {Q : Except Exc α → W → Prop} {op : StoreOp} {f : op.Resp → StoreProg α} {w : W}
    (h : ∀ v, R w v → ∀ c r v', exec op c v = some (r, v') →
      G v v' ∧ (f r).Safe exec R G Q v') :
    (storeCall op >>= f).Safe exec R G Q w := h

theorem execStore_tenantUuid {c : StoreAnswer} {w w' : StoreWorld}
    {r : Except DataLakeError Uuid} (h : execStore .tenantUuid c w = some (r, w')) :
    c = .tenant r ∧ w' = w := by
  cases c <;> simp_all [execStore]

theorem getOrCreate_bucket (w : StoreWorld) (defaults : RawPayloadRecord) (fresh : Uuid) :
    (w.getOrCreate defaults fresh).2.bucket = w.bucket := by
  unfold StoreWorld.getOrCreate
  split <;> rfl

theorem execStore_putIfAbsent {key : Text} {object : S3Object} {c : StoreAnswer}
    {w w' : StoreWorld} {r : Except S3Error Unit}
    (h : execStore (.putIfAbsent key object) c w = some (r, w')) :
    (∃ fresh, c = .done fresh ∧ w.bucket key = none ∧ r = .ok () ∧ w' = w.write key object) ∨
    (∃ fresh o, c = .done fresh ∧ w.bucket key = some o ∧ r = .error preconditionFailed ∧ w' = w) ∨
    (∃ err, c = .refused err ∧ r = .error err ∧ w' = w) ∨
    (∃ err, c = .lost err ∧ r = .error err ∧ w' = w.writeIfAbsent key object) := by
  cases c with
  | done fresh =>
    cases hb : w.bucket key with
    | none =>
      obtain ⟨rfl, rfl⟩ : .ok () = r ∧ w.write key object = w' := by simpa [execStore, hb] using h
      exact .inl ⟨fresh, rfl, rfl, rfl, rfl⟩
    | some o =>
      obtain ⟨rfl, rfl⟩ : .error preconditionFailed = r ∧ w = w' := by
        simpa [execStore, hb] using h
      exact .inr (.inl ⟨fresh, o, rfl, rfl, rfl, rfl⟩)
  | refused err =>
    obtain ⟨rfl, rfl⟩ : .error err = r ∧ w = w' := by simpa [execStore] using h
    exact .inr (.inr (.inl ⟨err, rfl, rfl, rfl⟩))
  | lost err =>
    obtain ⟨rfl, rfl⟩ : .error err = r ∧ w.writeIfAbsent key object = w' := by
      simpa [execStore] using h
    exact .inr (.inr (.inr ⟨err, rfl, rfl, rfl⟩))
  | unheard _ _ => cases h
  | tenant _ => cases h
  | cancel _ => cases h

theorem execStore_putObject {key : Text} {object : S3Object} {c : StoreAnswer}
    {w w' : StoreWorld} {r : Except S3Error Unit}
    (h : execStore (.putObject key object) c w = some (r, w')) :
    (∃ fresh, c = .done fresh ∧ r = .ok () ∧ w' = w.write key object) ∨
    (∃ err, c = .refused err ∧ r = .error err ∧ w' = w) ∨
    (∃ err, c = .lost err ∧ r = .error err ∧ w' = w.write key object) := by
  cases c with
  | done fresh =>
    obtain ⟨rfl, rfl⟩ : .ok () = r ∧ w.write key object = w' := by simpa [execStore] using h
    exact .inl ⟨fresh, rfl, rfl, rfl⟩
  | refused err =>
    obtain ⟨rfl, rfl⟩ : .error err = r ∧ w = w' := by simpa [execStore] using h
    exact .inr (.inl ⟨err, rfl, rfl, rfl⟩)
  | lost err =>
    obtain ⟨rfl, rfl⟩ : .error err = r ∧ w.write key object = w' := by simpa [execStore] using h
    exact .inr (.inr ⟨err, rfl, rfl, rfl⟩)
  | unheard _ _ => cases h
  | tenant _ => cases h
  | cancel _ => cases h

theorem execStore_headObject {key : Text} {c : StoreAnswer} {w w' : StoreWorld}
    {r : Except S3Error (Option Nat)} (h : execStore (.headObject key) c w = some (r, w')) :
    w' = w ∧
    ((∃ fresh, c = .done fresh ∧ w.bucket key = none ∧ r = .error notFound) ∨
    (∃ fresh o, c = .done fresh ∧ w.bucket key = some o ∧ r = .ok (some o.body.length)) ∨
    (∃ err, c = .refused err ∧ err.codeIn notFoundCodes = false ∧ r = .error err)) := by
  cases c with
  | done fresh =>
    cases hb : w.bucket key with
    | none =>
      obtain ⟨rfl, rfl⟩ : .error notFound = r ∧ w = w' := by simpa [execStore, hb] using h
      exact ⟨rfl, .inl ⟨fresh, rfl, rfl, rfl⟩⟩
    | some o =>
      obtain ⟨rfl, rfl⟩ : .ok (some o.body.length) = r ∧ w = w' := by
        simpa [execStore, hb] using h
      exact ⟨rfl, .inr (.inl ⟨fresh, o, rfl, rfl, rfl⟩)⟩
  | refused err =>
    cases hc : err.codeIn notFoundCodes with
    | true => simp [execStore, hc] at h
    | false =>
      obtain ⟨rfl, rfl⟩ : .error err = r ∧ w = w' := by simpa [execStore, hc] using h
      exact ⟨rfl, .inr (.inr ⟨err, rfl, hc, rfl⟩)⟩
  | lost _ => cases h
  | unheard _ _ => cases h
  | tenant _ => cases h
  | cancel _ => cases h

theorem execStore_getObject {key : Text} {c : StoreAnswer} {w w' : StoreWorld}
    {r : Except S3Error S3Object} (h : execStore (.getObject key) c w = some (r, w')) :
    w' = w ∧
    ((∃ fresh, c = .done fresh ∧ w.bucket key = none ∧ r = .error noSuchKey) ∨
    (∃ fresh o, c = .done fresh ∧ w.bucket key = some o ∧ r = .ok o) ∨
    (∃ err, c = .refused err ∧ r = .error err)) := by
  cases c with
  | done fresh =>
    cases hb : w.bucket key with
    | none =>
      obtain ⟨rfl, rfl⟩ : .error noSuchKey = r ∧ w = w' := by simpa [execStore, hb] using h
      exact ⟨rfl, .inl ⟨fresh, rfl, rfl, rfl⟩⟩
    | some o =>
      obtain ⟨rfl, rfl⟩ : .ok o = r ∧ w = w' := by simpa [execStore, hb] using h
      exact ⟨rfl, .inr (.inl ⟨fresh, o, rfl, rfl, rfl⟩)⟩
  | refused err =>
    obtain ⟨rfl, rfl⟩ : .error err = r ∧ w = w' := by simpa [execStore] using h
    exact ⟨rfl, .inr (.inr ⟨err, rfl, rfl⟩)⟩
  | lost _ => cases h
  | unheard _ _ => cases h
  | tenant _ => cases h
  | cancel _ => cases h

theorem writeIfAbsent_cases (w : StoreWorld) (key : Text) (object : S3Object) :
    w.writeIfAbsent key object = w ∨
    (w.bucket key = none ∧ w.writeIfAbsent key object = w.write key object) := by
  unfold StoreWorld.writeIfAbsent
  cases hb : w.bucket key with
  | none => exact .inr ⟨rfl, rfl⟩
  | some o => exact .inl rfl

theorem execStore_bucket {op : StoreOp} {c : StoreAnswer} {w w' : StoreWorld} {r : op.Resp}
    (h : execStore op c w = some (r, w')) :
    w'.bucket = w.bucket ∨
    ∃ key object, (op = .putIfAbsent key object ∨ op = .putObject key object) ∧
      w'.bucket = Function.update w.bucket key (some object) := by
  cases op with
  | tenantUuid =>
    obtain ⟨-, rfl⟩ := execStore_tenantUuid h
    exact .inl rfl
  | putIfAbsent key object =>
    have hwrite := w.write_bucket key object
    rcases execStore_putIfAbsent h with ⟨_, _, _, _, rfl⟩ | ⟨_, _, _, _, _, rfl⟩ |
      ⟨_, _, _, rfl⟩ | ⟨_, _, _, rfl⟩
    · exact .inr ⟨key, object, .inl rfl, hwrite⟩
    · exact .inl rfl
    · exact .inl rfl
    · rcases writeIfAbsent_cases w key object with heq | ⟨-, heq⟩
      · exact .inl (by rw [heq])
      · exact .inr ⟨key, object, .inl rfl, by rw [heq, hwrite]⟩
  | putObject key object =>
    rcases execStore_putObject h with ⟨_, _, _, rfl⟩ | ⟨_, _, _, rfl⟩ | ⟨_, _, _, rfl⟩
    · exact .inr ⟨key, object, .inr rfl, rfl⟩
    · exact .inl rfl
    · exact .inr ⟨key, object, .inr rfl, rfl⟩
  | headObject key =>
    obtain ⟨rfl, -⟩ := execStore_headObject h
    exact .inl rfl
  | getObject key =>
    obtain ⟨rfl, -⟩ := execStore_getObject h
    exact .inl rfl
  | getOrCreateRecord defaults =>
    cases c with
    | done fresh =>
      cases h
      exact .inl (getOrCreate_bucket w defaults fresh)
    | refused err =>
      cases h
      exact .inl rfl
    | unheard fresh err =>
      cases h
      exact .inl (getOrCreate_bucket w defaults fresh)
    | _ => cases h
  | saveLoaded record =>
    cases c with
    | done _ => cases h; exact .inl rfl
    | _ => cases h
  | selectRecords =>
    cases c with
    | done _ => cases h; exact .inl rfl
    | _ => cases h
  | saveStorageUri id uri =>
    cases c with
    | done _ => cases h; exact .inl rfl
    | _ => cases h
  | progressCallback result =>
    cases c with
    | done _ => cases h; exact .inl rfl
    | _ => cases h
  | cancelCheck =>
    cases c with
    | cancel _ => cases h; exact .inl rfl
    | _ => cases h

end DataLake
