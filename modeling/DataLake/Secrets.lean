import DataLake.Foundation.Sessions
import DataLake.Mapping
import DataLake.ObjectKeys

/-! The secret store and the credentials that refer to it: what is kept of a credential in the
database of a tenant, and how it is read back. -/

namespace DataLake

open Foundation

def secretNotFound (message : String) : DataLakeError := ⟨message, false, "SecretNotFound"⟩

/-- What the store uses of Fernet, of the UUIDs and of the JSON format. An encryption also takes
the clock and random bytes. -/
structure SecretLibrary where
  Key : Type
  encrypt : Key → Nat → ByteArray → Bytes
  decrypt : Key → Bytes → Option ByteArray
  uuid : Text → Option Uuid
  dumps : Json → String
  loads : String → Except String Json

/-- A token is opened by the key that has made it and by no other, and the text of a UUID is read
back. -/
structure SecretLibrary.Lawful (lib : SecretLibrary) : Prop where
  opens : ∀ key nonce data, lib.decrypt key (lib.encrypt key nonce data) = some data
  refuses : ∀ key key' nonce data, key' ≠ key →
    lib.decrypt key' (lib.encrypt key nonce data) = none
  uuid_text : ∀ id : Uuid, lib.uuid id.text = some id

structure EncryptedSecret where
  id : Uuid
  ciphertext : Bytes
deriving DecidableEq

structure Credential where
  connection : Uuid
  authProviderType : Text
  secretRef : Text
deriving DecidableEq

inductive SecretOp where
  | urandom
  | createSecret (ciphertext : Bytes)
  | getSecret (secretRef : Text)
  | deleteSecret (secretRef : Text)
  | createCredential (row : Credential)
  | getCredential (connection : Uuid)

/-- A reference that is no UUID is refused before the table is read. -/
@[reducible] def SecretOp.Resp : SecretOp → Type
  | urandom => Nat
  | createSecret _ => EncryptedSecret
  | getSecret _ => Except Exc (Option EncryptedSecret)
  | deleteSecret _ => Except Exc Unit
  | createCredential _ => Except Exc Unit
  | getCredential _ => Option Credential

abbrev SecretSig : Signature := ⟨SecretOp, SecretOp.Resp⟩

abbrev SecretProg (α : Type) := Prog SecretSig Exc α

def secretCall (op : SecretOp) : SecretProg op.Resp := Prog.perform (S := SecretSig) op

/-! `EncryptedFieldSecretStore`. -/

namespace SecretLibrary

variable (lib : SecretLibrary)

def store (key : lib.Key) (plaintext : String) : SecretProg Text := do
  let nonce ← secretCall .urandom
  let record ← secretCall (.createSecret (lib.encrypt key nonce plaintext.toUTF8))
  return record.id.text

/-- The text of a record that was found. -/
def opened (key : lib.Key) (secretRef : Text) (record : EncryptedSecret) : Except Exc String :=
  match lib.decrypt key record.ciphertext with
  | none =>
    .error (.dataLake (secretNotFound
      s!"Secret {pyRepr secretRef} could not be decrypted (wrong key?)"))
  | some data =>
    match String.fromUTF8? data with
    | some plaintext => .ok plaintext
    | none => .error (.other "invalid utf-8")

def retrieve (key : lib.Key) (secretRef : Text) : SecretProg String := do
  let found ← secretCall (.getSecret secretRef)
  match ← Prog.ofExcept found with
  | none => .raise (.dataLake (secretNotFound s!"No secret found for ref {pyRepr secretRef}"))
  | some record => Prog.ofExcept (lib.opened key secretRef record)

def delete (secretRef : Text) : SecretProg Unit := do
  let deleted ← secretCall (.deleteSecret secretRef)
  Prog.ofExcept deleted

/-! `Credential`. -/

def createForConnection (key : lib.Key) (connection : Uuid) (authProviderType : Text)
    (payload : List (Text × Json)) : SecretProg Unit := do
  let secretRef ← lib.store key (lib.dumps (.obj payload))
  let created ← secretCall (.createCredential { connection, authProviderType, secretRef })
  Prog.ofExcept created

def resolve (key : lib.Key) (credential : Credential) : SecretProg Json := do
  let raw ← lib.retrieve key credential.secretRef
  match lib.loads raw with
  | .ok payload => return payload
  | .error e => .raise (.other e)

/-- `_resolve_credential`: a connection without a credential has an empty one. -/
def resolveCredential (key : lib.Key) (connection : Uuid) : SecretProg Json := do
  match ← secretCall (.getCredential connection) with
  | none => return .obj []
  | some credential => lib.resolve key credential

/-- What a process is asked for. Each has its own key. -/
inductive Request where
  | store (key : lib.Key) (plaintext : String)
  | retrieve (key : lib.Key) (secretRef : Text)
  | delete (secretRef : Text)
  | createForConnection (key : lib.Key) (connection : Uuid) (authProviderType : Text)
      (payload : List (Text × Json))
  | resolveCredential (key : lib.Key) (connection : Uuid)

inductive Reply where
  | secretRef (ref : Text)
  | plaintext (text : String)
  | payload (value : Json)
  | done

def Request.program {lib : SecretLibrary} : lib.Request → SecretProg Reply
  | store key plaintext => lib.store key plaintext >>= fun ref => .ret (.secretRef ref)
  | retrieve key ref => lib.retrieve key ref >>= fun text => .ret (.plaintext text)
  | delete ref => DataLake.SecretLibrary.delete ref >>= fun _ => .ret .done
  | createForConnection key connection authProviderType payload =>
    lib.createForConnection key connection authProviderType payload >>= fun _ => .ret .done
  | resolveCredential key connection =>
    lib.resolveCredential key connection >>= fun value => .ret (.payload value)

end SecretLibrary

/-! The tables of a tenant. -/

/-- `history` has every secret that was ever inserted, and `deleted` every identifier under
which one was to be deleted. No answer depends on them. -/
structure SecretWorld where
  secrets : List EncryptedSecret := []
  credentials : List Credential := []
  history : List EncryptedSecret := []
  deleted : List Uuid := []

inductive SecretAnswer where
  | done
  | random (nonce : Nat)
  | fresh (id : Uuid)

def invalidUuid (secretRef : Text) : Exc :=
  .other s!"{pyRepr secretRef} is not a valid UUID."

def uniqueViolation : Exc := .other "duplicate key value violates unique constraint"

def execSecrets (lib : SecretLibrary) : Exec SecretSig SecretAnswer SecretWorld
  | .urandom, .random nonce, w => some (nonce, w)
  | .createSecret ciphertext, .fresh id, w =>
    if id ∈ w.secrets.map EncryptedSecret.id then none
    else
      let record : EncryptedSecret := { id, ciphertext }
      some (record, { w with secrets := w.secrets ++ [record], history := w.history ++ [record] })
  | .getSecret secretRef, .done, w =>
    match lib.uuid secretRef with
    | none => some (.error (invalidUuid secretRef), w)
    | some id => some (.ok (w.secrets.find? fun record => record.id = id), w)
  | .deleteSecret secretRef, .done, w =>
    match lib.uuid secretRef with
    | none => some (.error (invalidUuid secretRef), w)
    | some id =>
      some (.ok (), { w with
        secrets := w.secrets.filter fun record => record.id ≠ id
        deleted := w.deleted ++ [id] })
  | .createCredential row, .done, w =>
    if row.connection ∈ w.credentials.map Credential.connection then
      some (.error uniqueViolation, w)
    else some (.ok (), { w with credentials := w.credentials ++ [row] })
  | .getCredential connection, .done, w =>
    some (w.credentials.find? fun row => row.connection = connection, w)
  | _, _, _ => none

abbrev Vault (lib : SecretLibrary) :=
  Sessions SecretSig Exc SecretLibrary.Reply lib.Request SecretWorld

/-- The processes that use the store, in any interleaving; each may stop anywhere. -/
def Vault.next (lib : SecretLibrary) :
    Vault lib → SessionEvent SecretAnswer lib.Request → Option (Vault lib) :=
  Sessions.next SecretLibrary.Request.program (execSecrets lib)

end DataLake
