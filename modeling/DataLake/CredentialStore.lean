import DataLake.Foundation.Testimony
import DataLake.Secrets
import Mathlib.Data.List.Nodup

/-! Credentials and their secrets: a credential never loses its secret but to a deletion, and it is
never read as anything but what was stored for it. -/

namespace DataLake

open Foundation

variable {lib : SecretLibrary}

abbrev SecretLog := List (Call SecretSig)

/-- What an answer tells about itself. -/
def SecretAnswered : ∀ op : SecretOp, op.Resp → Prop
  | .createSecret ciphertext, record => record.ciphertext = ciphertext
  | .getCredential connection, found => ∀ row, found = some row → row.connection = connection
  | _, _ => True

namespace SecretLibrary.Request

/-- The text that a request encrypts, and the key it does so with. -/
def seals : lib.Request → Option (lib.Key × String)
  | store key plaintext => some (key, plaintext)
  | createForConnection key _ _ payload => some (key, lib.dumps (.obj payload))
  | _ => none

/-- The connection whose credential a request reads, and the key it does so with. -/
def reads : lib.Request → Option (lib.Key × Uuid)
  | resolveCredential key connection => some (key, connection)
  | _ => none

end SecretLibrary.Request

/-- The calls that write: a secret is the token of the text of its request, a credential refers to
a secret that was inserted before, and what is deleted was to be deleted. -/
def Sanctioned (request : lib.Request) (l : SecretLog) : SecretOp → Prop
  | .createSecret ciphertext => ∃ key plaintext nonce, request.seals = some (key, plaintext) ∧
      ciphertext = lib.encrypt key nonce plaintext.toUTF8
  | .createCredential row => ∃ key payload ciphertext record,
      request = .createForConnection key row.connection row.authProviderType payload ∧
      (⟨.createSecret ciphertext, record⟩ : Call SecretSig) ∈ l ∧ row.secretRef = record.id.text
  | .deleteSecret secretRef => request = .delete secretRef
  | .getSecret secretRef => ∀ key connection, request.reads = some (key, connection) →
      ∃ row, (⟨.getCredential connection, some row⟩ : Call SecretSig) ∈ l ∧
        row.secretRef = secretRef
  | _ => True

/-- What `resolve` makes of the answer of the table. -/
def SecretLibrary.read (lib : SecretLibrary) (key : lib.Key) (secretRef : Text) :
    Except Exc (Option EncryptedSecret) → Except Exc Json
  | .error e => .error e
  | .ok none => .error (.dataLake (secretNotFound s!"No secret found for ref {pyRepr secretRef}"))
  | .ok (some record) =>
    match lib.opened key secretRef record with
    | .error e => .error e
    | .ok raw => (lib.loads raw).mapError Exc.other

/-- What the calls of a request that reads a credential make its result. -/
def ReadBack (request : lib.Request) (l : SecretLog)
    (out : Except Exc SecretLibrary.Reply) : Prop :=
  ∀ key connection, request.reads = some (key, connection) →
    ((⟨.getCredential connection, none⟩ : Call SecretSig) ∈ l ∧
      out = .ok (.payload (.obj []))) ∨
    ∃ row found, (⟨.getCredential connection, some row⟩ : Call SecretSig) ∈ l ∧
      (⟨.getSecret row.secretRef, found⟩ : Call SecretSig) ∈ l ∧
      out = (lib.read key row.secretRef found).map SecretLibrary.Reply.payload

variable {request : lib.Request} {l : SecretLog} {key : lib.Key} {plaintext : String}
  {secretRef authProviderType : Text} {connection : Uuid} {payload : List (Text × Json)}

theorem along_secretCall {α : Type} {A : ∀ op : SecretOp, op.Resp → Prop}
    {P : SecretLog → SecretOp → Prop} {Q : SecretLog → Except Exc α → Prop} {op : SecretOp}
    {f : op.Resp → SecretProg α} (hop : P l op)
    (hf : ∀ r, A op r → (f r).Along A P Q (l ++ [⟨op, r⟩])) :
    (secretCall op >>= f).Along A P Q l := ⟨hop, hf⟩

theorem store_along (hseals : request.seals = some (key, plaintext)) :
    (lib.store key plaintext).Along SecretAnswered (Sanctioned request)
      (fun l out => ∀ ref, out = .ok ref → ∃ ciphertext record,
        (⟨.createSecret ciphertext, record⟩ : Call SecretSig) ∈ l ∧ ref = record.id.text) l := by
  refine along_secretCall trivial fun nonce _ => ?_
  refine along_secretCall ⟨key, plaintext, nonce, hseals, rfl⟩ fun record _ => ?_
  intro ref hout
  cases hout
  exact ⟨_, record, List.mem_concat_self, rfl⟩

theorem createForConnection_along :
    (lib.createForConnection key connection authProviderType payload).Along SecretAnswered
      (Sanctioned (.createForConnection key connection authProviderType payload))
      (fun _ _ => True) l := by
  refine (store_along rfl).handle (fun l ref hstored => ?_) fun _ _ _ => trivial
  obtain ⟨ciphertext, record, hmem, rfl⟩ := hstored ref rfl
  refine along_secretCall ⟨key, payload, ciphertext, record, rfl, hmem, rfl⟩ fun created _ => ?_
  cases created <;> trivial

theorem retrieve_along (key : lib.Key) {Q : SecretLog → Except Exc String → Prop}
    (hrule : Sanctioned request l (.getSecret secretRef))
    (hQ : ∀ found, Q (l ++ [⟨.getSecret secretRef, found⟩]) (match found with
      | .error e => .error e
      | .ok none =>
        .error (.dataLake (secretNotFound s!"No secret found for ref {pyRepr secretRef}"))
      | .ok (some record) => lib.opened key secretRef record)) :
    (lib.retrieve key secretRef).Along SecretAnswered (Sanctioned request) Q l := by
  refine along_secretCall hrule fun found _ => ?_
  have hend := hQ found
  rcases found with e | _ | record
  · exact hend
  · exact hend
  · dsimp only at hend
    show (Prog.ofExcept (lib.opened key secretRef record)).Along _ _ _ _
    cases hopened : lib.opened key secretRef record with
    | error e =>
      rw [hopened] at hend
      exact hend
    | ok raw =>
      rw [hopened] at hend
      exact hend

theorem resolveCredential_along :
    (lib.resolveCredential key connection).Along SecretAnswered
      (Sanctioned (.resolveCredential key connection))
      (fun l out => ((⟨.getCredential connection, none⟩ : Call SecretSig) ∈ l ∧
          out = .ok (.obj [])) ∨
        ∃ row found, (⟨.getCredential connection, some row⟩ : Call SecretSig) ∈ l ∧
          (⟨.getSecret row.secretRef, found⟩ : Call SecretSig) ∈ l ∧
          out = lib.read key row.secretRef found) l := by
  refine along_secretCall trivial fun found _ => ?_
  cases found with
  | none => exact .inl ⟨List.mem_concat_self, rfl⟩
  | some row =>
    have hrow : (⟨.getCredential connection, some row⟩ : Call SecretSig) ∈
        l ++ [⟨.getCredential connection, some row⟩] := List.mem_concat_self
    have hrule : Sanctioned (.resolveCredential key connection)
        (l ++ [⟨.getCredential connection, some row⟩]) (.getSecret row.secretRef) := by
      intro key' connection' hreads
      cases hreads
      exact ⟨row, hrow, rfl⟩
    have hretrieve := retrieve_along key hrule (Q := fun l out => ∃ found,
      (⟨.getCredential connection, some row⟩ : Call SecretSig) ∈ l ∧
      (⟨.getSecret row.secretRef, found⟩ : Call SecretSig) ∈ l ∧
      lib.read key row.secretRef found = match out with
        | .error e => .error e
        | .ok raw => (lib.loads raw).mapError Exc.other) fun found => by
      refine ⟨found, List.mem_append_left _ hrow, List.mem_concat_self, ?_⟩
      rcases found with e | _ | record <;> rfl
    refine hretrieve.handle (fun l raw hraw => ?_) fun l e he => ?_
    · obtain ⟨found, hmem, hfound, hread⟩ := hraw
      dsimp only at hread ⊢
      cases hloads : lib.loads raw with
      | ok value =>
        rw [hloads] at hread
        exact .inr ⟨row, found, hmem, hfound, hread.symm⟩
      | error e =>
        rw [hloads] at hread
        exact .inr ⟨row, found, hmem, hfound, hread.symm⟩
    · obtain ⟨found, hmem, hfound, hread⟩ := he
      exact .inr ⟨row, found, hmem, hfound, hread.symm⟩

theorem ReadBack.other {out : Except Exc SecretLibrary.Reply} (h : request.reads = none) :
    ReadBack request l out := by
  intro key connection hreads
  cases h.symm.trans hreads

theorem request_along (request : lib.Request) :
    request.program.Along SecretAnswered (Sanctioned request) (ReadBack request) [] := by
  cases request with
  | store key plaintext =>
    exact (store_along rfl).handle (fun _ _ _ => .other rfl) fun _ _ _ => .other rfl
  | retrieve key secretRef =>
    have hrule : Sanctioned (.retrieve key secretRef) [] (.getSecret secretRef) := by
      intro key connection hreads
      cases hreads
    exact (retrieve_along key (Q := fun _ _ => True) hrule fun _ => trivial).handle
      (fun _ _ _ => .other rfl) fun _ _ _ => .other rfl
  | delete secretRef =>
    refine ⟨rfl, fun deleted _ => ?_⟩
    cases deleted <;> exact .other rfl
  | createForConnection key connection authProviderType payload =>
    exact createForConnection_along.handle (fun _ _ _ => .other rfl) fun _ _ _ => .other rfl
  | resolveCredential key connection =>
    refine resolveCredential_along.handle (fun l value hvalue => ?_) fun l e he => ?_
    · intro key' connection' hreads
      cases hreads
      rcases hvalue with ⟨hnone, hout⟩ | ⟨row, found, hrow, hfound, hout⟩
      · cases hout
        exact .inl ⟨hnone, rfl⟩
      · exact .inr ⟨row, found, hrow, hfound, by rw [← hout]; rfl⟩
    · intro key' connection' hreads
      cases hreads
      rcases he with ⟨-, hout⟩ | ⟨row, found, hrow, hfound, hout⟩
      · cases hout
      · exact .inr ⟨row, found, hrow, hfound, by rw [← hout]; rfl⟩

/-! The tables. -/

variable {v w : SecretWorld} {c : SecretAnswer} {record : EncryptedSecret} {row : Credential}

/-- What was inserted or deleted stays on record, and no credential is lost. -/
structure SecretWorld.Grows (v w : SecretWorld) : Prop where
  history : ∀ record ∈ v.history, record ∈ w.history
  deleted : ∀ id ∈ v.deleted, id ∈ w.deleted
  credentials : ∀ row ∈ v.credentials, row ∈ w.credentials

theorem SecretWorld.Grows.refl (w : SecretWorld) : w.Grows w :=
  ⟨fun _ h => h, fun _ h => h, fun _ h => h⟩

theorem SecretWorld.Grows.trans {u : SecretWorld} (huv : u.Grows v) (hvw : v.Grows w) : u.Grows w :=
  ⟨fun _ h => hvw.history _ (huv.history _ h), fun _ h => hvw.deleted _ (huv.deleted _ h),
    fun _ h => hvw.credentials _ (huv.credentials _ h)⟩

/-- What a call does to the tables. -/
theorem execSecrets_cases {op : SecretOp} {r : op.Resp}
    (h : execSecrets lib op c v = some (r, w)) : w = v ∨
      (∃ record, (∃ ciphertext, (⟨op, r⟩ : Call SecretSig) = ⟨.createSecret ciphertext, record⟩) ∧
        c = .fresh record.id ∧
        w = { v with secrets := v.secrets ++ [record], history := v.history ++ [record] }) ∨
      (∃ secretRef id, (⟨op, r⟩ : Call SecretSig) = ⟨.deleteSecret secretRef, .ok ()⟩ ∧
        lib.uuid secretRef = some id ∧ w = { v with
          secrets := v.secrets.filter fun record => record.id ≠ id
          deleted := v.deleted ++ [id] }) ∨
      ∃ row, (⟨op, r⟩ : Call SecretSig) = ⟨.createCredential row, .ok ()⟩ ∧
        row.connection ∉ v.credentials.map Credential.connection ∧
        w = { v with credentials := v.credentials ++ [row] } := by
  cases op with
  | createSecret ciphertext =>
    cases c with
    | fresh id =>
      simp only [execSecrets] at h
      split_ifs at h
      cases h
      exact .inr (.inl ⟨_, ⟨ciphertext, rfl⟩, rfl, rfl⟩)
    | _ => cases h
  | getSecret secretRef =>
    cases c with
    | done =>
      simp only [execSecrets] at h
      split at h
      · cases h
        exact .inl rfl
      · cases h
        exact .inl rfl
    | _ => cases h
  | deleteSecret secretRef =>
    cases c with
    | done =>
      simp only [execSecrets] at h
      split at h
      · cases h
        exact .inl rfl
      · rename_i id hid
        cases h
        exact .inr (.inr (.inl ⟨secretRef, id, rfl, hid, rfl⟩))
    | _ => cases h
  | createCredential row =>
    cases c with
    | done =>
      simp only [execSecrets] at h
      split_ifs at h with hrow
      · cases h
        exact .inl rfl
      · cases h
        exact .inr (.inr (.inr ⟨row, rfl, hrow, rfl⟩))
    | _ => cases h
  | _ =>
    cases c <;> cases h
    exact .inl rfl

theorem execSecrets_grows {op : SecretOp} {r : op.Resp}
    (h : execSecrets lib op c v = some (r, w)) : v.Grows w := by
  rcases execSecrets_cases h with rfl | ⟨_, -, -, rfl⟩ | ⟨_, _, -, -, rfl⟩ | ⟨_, -, -, rfl⟩
  · exact .refl _
  · exact ⟨fun _ h => List.mem_append_left _ h, fun _ h => h, fun _ h => h⟩
  · exact ⟨fun _ h => h, fun _ h => List.mem_append_left _ h, fun _ h => h⟩
  · exact ⟨fun _ h => h, fun _ h => h, fun _ h => List.mem_append_left _ h⟩

/-- The secrets are those that were inserted and not deleted. -/
structure SecretWorld.Coherent (w : SecretWorld) : Prop where
  ids : (w.history.map EncryptedSecret.id).Nodup
  secrets : ∀ record, record ∈ w.secrets ↔ record ∈ w.history ∧ record.id ∉ w.deleted
  connections : (w.credentials.map Credential.connection).Nodup

theorem SecretWorld.Coherent.same (h : w.Coherent) {record' : EncryptedSecret}
    (hrecord : record ∈ w.history) (hrecord' : record' ∈ w.history) (hid : record.id = record'.id) :
    record = record' :=
  List.inj_on_of_nodup_map h.ids hrecord hrecord' hid

/-- The identifier of a new secret has not occurred before. -/
def SecretWorld.unused (w : SecretWorld) : SecretAnswer → Prop
  | .fresh id => id ∉ w.history.map EncryptedSecret.id ∧ id ∉ w.deleted
  | _ => True

theorem SecretWorld.Coherent.exec (hv : v.Coherent) (hunused : v.unused c) {op : SecretOp}
    {r : op.Resp} (h : execSecrets lib op c v = some (r, w)) : w.Coherent := by
  rcases execSecrets_cases h with rfl | ⟨record, -, rfl, rfl⟩ | ⟨secretRef, id, -, -, rfl⟩ |
    ⟨row, -, hrow, rfl⟩
  · exact hv
  · obtain ⟨hfresh, hnot⟩ := hunused
    refine ⟨?_, fun other => ?_, hv.connections⟩
    · rw [List.map_append, List.nodup_append]
      refine ⟨hv.ids, List.nodup_singleton _, fun a ha b hb => ?_⟩
      obtain rfl := List.mem_singleton.mp hb
      rintro rfl
      exact hfresh ha
    · simp only [List.mem_append, List.mem_singleton, hv.secrets]
      constructor
      · intro hrecord
        rcases hrecord with ⟨hold, hkept⟩ | rfl
        · exact ⟨.inl hold, hkept⟩
        · exact ⟨.inr rfl, hnot⟩
      · intro hrecord
        obtain ⟨hold | hnew, hkept⟩ := hrecord
        · exact .inl ⟨hold, hkept⟩
        · exact .inr hnew
  · refine ⟨hv.ids, fun record => ?_, hv.connections⟩
    simp [hv.secrets, and_assoc]
  · refine ⟨hv.ids, hv.secrets, ?_⟩
    rw [List.map_append, List.nodup_append]
    refine ⟨hv.connections, List.nodup_singleton _, fun a ha b hb => ?_⟩
    obtain rfl := List.mem_singleton.mp hb
    rintro rfl
    exact hrow ha

/-- What the tables say of a call that was made. A credential that is read always has a
reference; that it has no secret says that it was deleted. -/
def Attested (request : lib.Request) (w : SecretWorld) : Call SecretSig → Prop
  | ⟨.createSecret _, record⟩ => record ∈ w.history
  | ⟨.getSecret secretRef, .ok (some record)⟩ =>
    record ∈ w.history ∧ lib.uuid secretRef = some record.id
  | ⟨.getSecret secretRef, .ok none⟩ =>
    request.reads.isSome = true → ∃ id ∈ w.deleted, lib.uuid secretRef = some id
  | ⟨.getSecret _, .error _⟩ => request.reads = none
  | ⟨.deleteSecret secretRef, .ok _⟩ => ∃ id ∈ w.deleted, lib.uuid secretRef = some id
  | ⟨.getCredential _, some row⟩ => row ∈ w.credentials
  | _ => True

theorem Attested.grow {call : Call SecretSig} (h : Attested request v call) (hgrows : v.Grows w) :
    Attested request w call := by
  obtain ⟨op, r⟩ := call
  cases op with
  | createSecret ciphertext => exact hgrows.history _ h
  | getSecret secretRef =>
    rcases r with e | _ | record
    · exact h
    · intro hreads
      obtain ⟨id, hid, href⟩ := h hreads
      exact ⟨id, hgrows.deleted id hid, href⟩
    · exact ⟨hgrows.history _ h.1, h.2⟩
  | deleteSecret secretRef =>
    cases r with
    | error e => trivial
    | ok _ =>
      obtain ⟨id, hid, href⟩ := h
      exact ⟨id, hgrows.deleted id hid, href⟩
  | getCredential connection =>
    cases r with
    | none => trivial
    | some row => exact hgrows.credentials _ h
  | _ => trivial

theorem execSecrets_answered {op : SecretOp} {r : op.Resp}
    (h : execSecrets lib op c v = some (r, w)) : SecretAnswered op r := by
  cases op with
  | createSecret ciphertext =>
    cases c with
    | fresh id =>
      simp only [execSecrets] at h
      split_ifs at h
      cases h
      rfl
    | _ => cases h
  | getCredential connection =>
    cases c with
    | done =>
      cases h
      intro row hrow
      simpa using List.find?_some hrow
    | _ => cases h
  | _ => trivial

/-- The reference of a credential is that of a secret that was inserted. -/
theorem execSecrets_attested (hv : v.Coherent) {op : SecretOp} {r : op.Resp}
    (href : ∀ secretRef, op = .getSecret secretRef → request.reads.isSome = true →
      ∃ record ∈ v.history, lib.uuid secretRef = some record.id)
    (h : execSecrets lib op c v = some (r, w)) : Attested request w ⟨op, r⟩ := by
  cases op with
  | createSecret ciphertext =>
    cases c with
    | fresh id =>
      simp only [execSecrets] at h
      split_ifs at h
      cases h
      exact List.mem_concat_self
    | _ => cases h
  | getSecret secretRef =>
    cases c with
    | done =>
      simp only [execSecrets] at h
      split at h
      · rename_i hnone
        cases h
        show request.reads = none
        by_contra hreads
        obtain ⟨record, -, hsome⟩ := href secretRef rfl (Option.isSome_iff_ne_none.mpr hreads)
        cases hnone.symm.trans hsome
      · rename_i id hid
        cases h
        cases hfound : v.secrets.find? fun record => record.id = id with
        | none =>
          intro hreads
          obtain ⟨record, hrecord, hsome⟩ := href secretRef rfl hreads
          obtain rfl := Option.some.inj (hid.symm.trans hsome)
          refine ⟨record.id, ?_, hid⟩
          by_contra hkept
          have hmem := (hv.secrets record).mpr ⟨hrecord, hkept⟩
          simpa using List.find?_eq_none.mp hfound record hmem
        | some record =>
          have hmem := (hv.secrets record).mp (List.mem_of_find?_eq_some hfound)
          have hsame : record.id = id := by simpa using List.find?_some hfound
          exact ⟨hmem.1, by rw [hid, hsame]⟩
    | _ => cases h
  | deleteSecret secretRef =>
    cases c with
    | done =>
      simp only [execSecrets] at h
      split at h
      · cases h
        trivial
      · rename_i id hid
        cases h
        exact ⟨id, List.mem_concat_self, hid⟩
    | _ => cases h
  | getCredential connection =>
    cases c with
    | done =>
      cases h
      cases hfound : v.credentials.find? fun row => row.connection = connection with
      | none => trivial
      | some row => exact List.mem_of_find?_eq_some hfound
    | _ => cases h
  | _ => trivial

/-! Whole runs. -/

variable {s t : Vault lib} {event : SessionEvent SecretAnswer lib.Request}

/-- The identifier that a new secret is given has not occurred before. -/
def Unrepeated (s : Vault lib) : SessionEvent SecretAnswer lib.Request → Prop
  | .step _ c => s.world.unused c
  | _ => True

structure Trusted (s : Vault lib) : Prop where
  conform : Sessions.Conform (fun _ => SecretAnswered) Sanctioned ReadBack s
  attested : s.BorneOut Attested
  coherent : s.world.Coherent
  created : s.Vouched (fun w row => row ∈ w.credentials) fun _ row call =>
    call = (⟨.createCredential row, .ok ()⟩ : Call SecretSig)
  deleted : s.Vouched (fun w id => id ∈ w.deleted) fun _ id call =>
    ∃ secretRef, call = (⟨.deleteSecret secretRef, .ok ()⟩ : Call SecretSig) ∧
      lib.uuid secretRef = some id

/-- Where a credential comes from: who has made it, of what, and the secret it refers to. -/
structure Origin (s : Vault lib) (row : Credential) (key : lib.Key)
    (payload : List (Text × Json)) (record : EncryptedSecret) : Prop where
  asked : ∃ i x, s.sessions i = some x ∧
    x.request = .createForConnection key row.connection row.authProviderType payload
  inserted : record ∈ s.world.history
  secretRef : row.secretRef = record.id.text
  sealed : ∃ nonce,
    record.ciphertext = lib.encrypt key nonce (lib.dumps (.obj payload)).toUTF8

theorem Trusted.origin (hs : Trusted s) (hrow : row ∈ s.world.credentials) :
    ∃ key payload record, Origin s row key payload record := by
  obtain ⟨i, x, call, hx, hcall, rfl⟩ := hs.created row hrow
  obtain ⟨l, hl, hrule, -⟩ := hs.conform.made hx hcall
  obtain ⟨key, payload, ciphertext, record, hrequest, hmem, href⟩ := hrule
  obtain ⟨l', -, ⟨key', plaintext, nonce, hseals, rfl⟩, hsealed⟩ := hs.conform.made hx (hl _ hmem)
  rw [hrequest] at hseals
  cases hseals
  exact ⟨key, payload, record, ⟨i, x, hx, hrequest⟩, hs.attested i x hx _ (hl _ hmem), href, nonce,
    hsealed⟩

theorem Trusted.next (hlib : lib.Lawful) (hs : Trusted s) (hok : Unrepeated s event)
    (he : Vault.next lib s event = some t) : Trusted t where
  conform := by
    apply hs.conform.next (fun _ request _ => request_along request) _ he
    intro i x op k c r w _ _ _ hexec
    exact execSecrets_answered hexec
  attested := by
    refine hs.attested.next ?_ ?_ he
    · intro i c x op k r w _ _ _ hexec request call hcall
      exact hcall.grow (execSecrets_grows hexec)
    · intro i c x op k r w _ hx hprog hexec
      apply execSecrets_attested hs.coherent _ hexec
      rintro secretRef rfl hreads
      obtain ⟨⟨key, connection⟩, hreads⟩ := Option.isSome_iff_exists.mp hreads
      obtain ⟨row, hmem, rfl⟩ := hs.conform.rule hx hprog key connection hreads
      obtain ⟨_, _, record, horigin⟩ := hs.origin (hs.attested i x hx _ hmem)
      exact ⟨record, horigin.inserted, by rw [horigin.secretRef, hlib.uuid_text]⟩
  coherent := by
    rcases Sessions.next_cases he with ⟨i, request, rfl, -, rfl⟩ |
      ⟨i, c, x, op, k, r, w, rfl, -, -, -, hexec, rfl⟩ | ⟨i, x, rfl, -, rfl⟩
    · exact hs.coherent
    · exact hs.coherent.exec hok hexec
    · exact hs.coherent
  created := by
    apply hs.created.next _ he
    intro i c x op k r w _ _ _ hexec row hrow
    rcases execSecrets_cases hexec with rfl | ⟨_, -, -, rfl⟩ | ⟨_, _, -, -, rfl⟩ |
      ⟨row', hcall, -, rfl⟩
    · exact .inl hrow
    · exact .inl hrow
    · exact .inl hrow
    · rcases List.mem_append.mp hrow with hrow | hrow
      · exact .inl hrow
      · obtain rfl := List.mem_singleton.mp hrow
        exact .inr hcall
  deleted := by
    apply hs.deleted.next _ he
    intro i c x op k r w _ _ _ hexec id hid
    rcases execSecrets_cases hexec with rfl | ⟨_, -, -, rfl⟩ | ⟨secretRef, id', hcall, href, rfl⟩ |
      ⟨_, -, -, rfl⟩
    · exact .inl hid
    · exact .inl hid
    · rcases List.mem_append.mp hid with hid | hid
      · exact .inl hid
      · obtain rfl := List.mem_singleton.mp hid
        exact .inr ⟨secretRef, hcall, href⟩
    · exact .inl hid

theorem Trusted.reaches (hlib : lib.Lawful)
    (ht : Reaches (Vault.next lib) Unrepeated (Sessions.idle {}) t) : Trusted t := by
  refine ht.invariant ?_ fun u event v hu hok he => hu.next hlib hok he
  refine ⟨Sessions.conform_idle _, Sessions.borneOut_idle _, ⟨?_, ?_, ?_⟩, ?_, ?_⟩
  · simp [Sessions.idle]
  · simp [Sessions.idle]
  · simp [Sessions.idle]
  · intro row hrow
    simp [Sessions.idle] at hrow
  · intro id hid
    simp [Sessions.idle] at hid

/-- A deletion of the secret was carried out, whichever way its request spells the reference. -/
def Removed (t : Vault lib) (secretRef : Text) : Prop :=
  ∃ j y name, t.sessions j = some y ∧ y.request = .delete name ∧
    (⟨.deleteSecret name, .ok ()⟩ : Call SecretSig) ∈ y.log ∧ lib.uuid name = lib.uuid secretRef

theorem Trusted.removed (ht : Trusted t) {id : Uuid} {secretRef : Text}
    (hid : id ∈ t.world.deleted) (href : lib.uuid secretRef = some id) : Removed t secretRef := by
  obtain ⟨j, y, call, hy, hcall, name, rfl, hname⟩ := ht.deleted id hid
  obtain ⟨l, -, hrequest, -⟩ := ht.conform.made hy hcall
  exact ⟨j, y, name, hy, hrequest, hcall, by rw [hname, href]⟩

theorem Removed.deleted {secretRef : Text} (h : Removed s secretRef) (hs : Trusted s) :
    ∃ id ∈ s.world.deleted, lib.uuid secretRef = some id := by
  obtain ⟨j, y, name, hy, -, hcall, hname⟩ := h
  obtain ⟨id, hdeleted, hid⟩ := hs.attested j y hy _ hcall
  exact ⟨id, hdeleted, hname.symm.trans hid⟩

/-- The session has looked the secret up. -/
def LookedUp (s : Vault lib) (i : Nat) (secretRef : Text) : Prop :=
  ∃ x found, s.sessions i = some x ∧ (⟨.getSecret secretRef, found⟩ : Call SecretSig) ∈ x.log

/-- The call has not found a secret that was deleted in `w`. -/
def FindsNone (w : SecretWorld) (call : Call SecretSig) : Prop :=
  ∀ secretRef record, call = ⟨.getSecret secretRef, .ok (some record)⟩ → record.id ∉ w.deleted

theorem execSecrets_findsNone (hv : v.Coherent) {u : SecretWorld} (hgrows : u.Grows v)
    {op : SecretOp} {r : op.Resp} (h : execSecrets lib op c v = some (r, w)) :
    FindsNone u ⟨op, r⟩ := by
  rintro secretRef record ⟨⟩ hdeleted
  cases c with
  | done =>
    simp only [execSecrets] at h
    split at h
    · cases h
    · simp only [Option.some.injEq, Prod.mk.injEq, Except.ok.injEq] at h
      have hmem := (hv.secrets record).mp (List.mem_of_find?_eq_some h.1)
      exact hmem.2 (hgrows.deleted _ hdeleted)
  | _ => cases h

/-- Who finds a secret that is deleted has looked it up before. -/
theorem Trusted.since (hlib : lib.Lawful) (hs : Trusted s)
    (hst : Reaches (Vault.next lib) Unrepeated s t) :
    Trusted t ∧ s.world.Grows t.world ∧ Sessions.Since s (FindsNone s.world) t := by
  refine hst.invariant (I := fun t => Trusted t ∧ s.world.Grows t.world ∧
    Sessions.Since s (FindsNone s.world) t) ⟨hs, .refl _, .refl _ _⟩
    fun u event v ⟨hu, hgrows, hsince⟩ hok he => ⟨hu.next hlib hok he, ?_, ?_⟩
  · rcases Sessions.next_cases he with ⟨i, request, rfl, -, rfl⟩ |
      ⟨i, c, x, op, k, r, w, rfl, -, -, -, hexec, rfl⟩ | ⟨i, x, rfl, -, rfl⟩
    · exact hgrows
    · exact hgrows.trans (execSecrets_grows hexec)
    · exact hgrows
  · exact hsince.next (fun c op r w hexec => execSecrets_findsNone hu.coherent hgrows hexec) he

theorem fromUTF8_toUTF8 (s : String) : String.fromUTF8? s.toUTF8 = some s := by
  have hvalid : s.toUTF8.IsValidUTF8 := s.isValidUTF8
  simp only [String.fromUTF8?, dif_pos hvalid]
  rfl

theorem SecretLibrary.Lawful.read (hlib : lib.Lawful) (key' : lib.Key) (secretRef : Text)
    {nonce : Nat} {value : Json}
    (hsealed : record.ciphertext = lib.encrypt key nonce (lib.dumps value).toUTF8) :
    (key' = key ∧ lib.read key' secretRef (.ok (some record)) =
      (lib.loads (lib.dumps value)).mapError Exc.other) ∨
    (key' ≠ key ∧ lib.read key' secretRef (.ok (some record)) = .error (.dataLake (secretNotFound
      s!"Secret {pyRepr secretRef} could not be decrypted (wrong key?)"))) := by
  by_cases hkey : key' = key
  · subst hkey
    refine .inl ⟨rfl, ?_⟩
    simp only [SecretLibrary.read, opened, hsealed, hlib.opens, fromUTF8_toUTF8]
  · refine .inr ⟨hkey, ?_⟩
    simp [SecretLibrary.read, opened, hsealed, hlib.refuses _ _ _ _ hkey]

/-- Every credential was made by some request, and its secret is in the table unless a deletion
of it was carried out. Whoever reads it gets what the JSON format makes of the text of the payload
of that request, and no other: with another key there is no secret to be found, and none for a
reader that looks the secret up after the deletion. -/
theorem credentials_kept (hlib : lib.Lawful)
    (hs : Reaches (Vault.next lib) Unrepeated (Sessions.idle {}) s)
    (hst : Reaches (Vault.next lib) Unrepeated s t)
    (hrow : row ∈ t.world.credentials) : ∃ key payload,
      (∃ i x, t.sessions i = some x ∧
        x.request = .createForConnection key row.connection row.authProviderType payload) ∧
      ((∃ record ∈ t.world.secrets, record.id.text = row.secretRef) ↔ ¬ Removed t row.secretRef) ∧
      ∀ j y key' out, t.sessions j = some y →
        y.request = .resolveCredential key' row.connection → y.prog = Prog.ofExcept out →
        ((Removed s row.secretRef → LookedUp s j row.secretRef) ∧
          ((key' = key ∧ out = ((lib.loads (lib.dumps (.obj payload))).mapError Exc.other).map
            SecretLibrary.Reply.payload) ∨
          (key' ≠ key ∧ out = .error (.dataLake (secretNotFound
            s!"Secret {pyRepr row.secretRef} could not be decrypted (wrong key?)"))))) ∨
        (Removed t row.secretRef ∧ out = .error (.dataLake (secretNotFound
          s!"No secret found for ref {pyRepr row.secretRef}"))) ∨
        ((⟨.getCredential row.connection, none⟩ : Call SecretSig) ∈ y.log ∧
          out = .ok (.payload (.obj []))) := by
  have hearlier := Trusted.reaches hlib hs
  obtain ⟨htrusted, -, hsince⟩ := hearlier.since hlib hst
  obtain ⟨key, payload, record, hasked, hinserted, href, nonce, hsealed⟩ := htrusted.origin hrow
  have hnamed : lib.uuid row.secretRef = some record.id := by rw [href, hlib.uuid_text]
  refine ⟨key, payload, hasked, ?_, ?_⟩
  · constructor
    · intro hpresent hremoved
      obtain ⟨record', hrecord', href'⟩ := hpresent
      obtain ⟨id, hdeleted, hid⟩ := hremoved.deleted htrusted
      rw [← href', hlib.uuid_text] at hid
      obtain rfl := Option.some.inj hid
      exact ((htrusted.coherent.secrets record').mp hrecord').2 hdeleted
    · intro hkept
      refine ⟨record, (htrusted.coherent.secrets record).mpr ⟨hinserted, fun hdeleted => ?_⟩,
        href.symm⟩
      exact hkept (htrusted.removed hdeleted hnamed)
  · intro j y key' out hy hrequest hprog
    have hread : ReadBack y.request y.log out := by
      have halong := (htrusted.conform j y hy).1
      rw [hprog] at halong
      cases out <;> exact halong
    rw [hrequest] at hread
    rcases hread key' row.connection rfl with ⟨hnone, hout⟩ | ⟨row', found, hfound, hsecret, hout⟩
    · exact .inr (.inr ⟨hnone, hout⟩)
    · obtain ⟨-, -, -, hconnection⟩ := htrusted.conform.made hy hfound
      obtain rfl : row' = row := List.inj_on_of_nodup_map htrusted.coherent.connections
        (htrusted.attested j y hy _ hfound) hrow (hconnection row' rfl)
      have hattested := htrusted.attested j y hy _ hsecret
      rw [hrequest] at hattested
      rcases found with e | _ | record'
      · cases hattested
      · obtain ⟨id, hdeleted, hid⟩ := hattested rfl
        exact .inr (.inl ⟨htrusted.removed hdeleted hid, hout⟩)
      · obtain ⟨hinserted', hid⟩ := hattested
        obtain rfl := htrusted.coherent.same hinserted hinserted'
          (Option.some.inj (hnamed.symm.trans hid))
        refine .inl ⟨fun hremoved => ?_, ?_⟩
        · -- the secret was there when it was looked up, so the deletion came later
          obtain ⟨id, hdeleted, hid⟩ := hremoved.deleted hearlier
          rw [hnamed] at hid
          obtain rfl := Option.some.inj hid
          rcases hsince j y hy _ hsecret with ⟨x, hx, hcall⟩ | hfinds
          · exact ⟨x, _, hx, hcall⟩
          · exact absurd hdeleted (hfinds _ _ rfl)
        · rcases hlib.read key' row'.secretRef hsealed with ⟨hkey, hvalue⟩ | ⟨hkey, hvalue⟩
          · rw [hvalue] at hout
            exact .inl ⟨hkey, hout⟩
          · rw [hvalue] at hout
            exact .inr ⟨hkey, hout⟩

/-! Two keys over one table. -/

def hexValue (digits : Text) : Nat :=
  digits.foldl (fun n c => 16 * n + "0123456789abcdef".toList.idxOf c) 0

theorem hexValue_hexDigits {w n : Nat} (h : n < 16 ^ w) : hexValue (hexDigits w n) = n := by
  induction w generalizing n with
  | zero =>
    rw [Nat.pow_zero, Nat.lt_one_iff] at h
    rw [h]
    rfl
  | succ w ih =>
    have hdigit : ∀ i < 16, "0123456789abcdef".toList.idxOf (hexDigit i) = i := by decide
    have hrest : hexValue (hexDigits w (n / 16)) = n / 16 := ih (by rw [Nat.pow_succ] at h; omega)
    have hlast := hdigit (n % 16) (Nat.mod_lt n (by decide))
    rw [hexValue] at hrest ⊢
    rw [hexDigits, List.foldl_append, List.foldl_cons, List.foldl_nil, hrest, hlast]
    omega

def canonicalUuid (text : Text) : Option Uuid :=
  let id : Uuid := ⟨BitVec.ofNat 128 (hexValue (text.filter (· ≠ '-')))⟩
  if id.text = text then some id else none

theorem canonicalUuid_text (id : Uuid) : canonicalUuid id.text = some id := by
  have hvalue : hexValue (id.text.filter (· ≠ '-')) = id.bits.toNat := by
    rw [Uuid.text_filter]
    exact hexValue_hexDigits id.bits.isLt
  simp only [canonicalUuid, hvalue, BitVec.ofNat_toNat, BitVec.setWidth_eq, if_true]

def loginPayload : List (Text × Json) := [("password".toList, .str "p".toList)]

def loginText : String := "\x7b\"password\": \"p\"\x7d"

/-- Tokens that carry the name of their key. -/
def twoKeys : SecretLibrary where
  Key := UInt8
  encrypt key _ data := key :: data.data.toList
  decrypt key
    | tag :: data => if tag = key then some ⟨data.toArray⟩ else none
    | [] => none
  uuid := canonicalUuid
  dumps
    | .obj [(_, .str _)] => loginText
    | _ => "null"
  loads text := if text = loginText then .ok (.obj loginPayload) else .error "Expecting value"

theorem twoKeys_lawful : twoKeys.Lawful where
  opens _ _ _ := if_pos rfl
  refuses _ _ _ _ hne := if_neg hne.symm
  uuid_text := canonicalUuid_text

instance (s : Vault lib) (event : SessionEvent SecretAnswer lib.Request) :
    Decidable (Unrepeated s event) :=
  match event with
  | .step _ (.fresh id) =>
    inferInstanceAs (Decidable (id ∉ s.world.history.map EncryptedSecret.id ∧ id ∉ s.world.deleted))
  | .step _ .done | .step _ (.random _) | .start _ _ | .die _ => isTrue trivial

/-- A credential is made, and is read with its own key and with another. -/
def twoReaders : List (SessionEvent SecretAnswer twoKeys.Request) :=
  [.start 0 (.createForConnection (7 : UInt8) ⟨1⟩ "basic".toList loginPayload), .step 0 (.random 0),
    .step 0 (.fresh ⟨2⟩), .step 0 .done,
    .start 1 (.resolveCredential (7 : UInt8) ⟨1⟩), .step 1 .done, .step 1 .done,
    .start 2 (.resolveCredential (8 : UInt8) ⟨1⟩), .step 2 .done, .step 2 .done]

def loginCredential : Credential := ⟨⟨1⟩, "basic".toList, Uuid.text ⟨2⟩⟩

/-- Whether a request has been answered, and with a result. -/
def served (t : Vault twoKeys) (i : Nat) : Option Bool :=
  (t.sessions i).bind fun x =>
    match x.prog with
    | .ret _ => some true
    | .raise _ => some false
    | .call _ _ => none

/-- After the two readers, the secret is deleted. -/
def deletion : List (SessionEvent SecretAnswer twoKeys.Request) :=
  twoReaders ++ [.start 3 (.delete (Uuid.text ⟨2⟩)), .step 3 .done]

def lateReader : List (SessionEvent SecretAnswer twoKeys.Request) :=
  [.start 4 (.resolveCredential (7 : UInt8) ⟨1⟩), .step 4 .done, .step 4 .done]

/-- The key with which a session reads a credential, and the connection. -/
def readsWith (t : Vault twoKeys) (i : Nat) : Option (UInt8 × Uuid) :=
  (t.sessions i).bind fun x => x.request.reads

/-- The reader that comes after the deletion has the right key, and finds nothing. -/
theorem credentials_kept_two_keys : ∃ (s t : Vault twoKeys)
    (y : Session SecretSig Exc SecretLibrary.Reply twoKeys.Request),
    Reaches (Vault.next twoKeys) Unrepeated (Sessions.idle {}) s ∧
    Reaches (Vault.next twoKeys) Unrepeated s t ∧
    served s 1 = some true ∧ served s 2 = some false ∧ Removed s loginCredential.secretRef ∧
    t.sessions 4 = some y ∧ y.request = .resolveCredential (7 : UInt8) ⟨1⟩ ∧
    y.prog = .raise (.dataLake (secretNotFound
      s!"No secret found for ref {pyRepr loginCredential.secretRef}")) ∧
    ∃ key payload, ∃ i x, t.sessions i = some x ∧
      x.request = .createForConnection key ⟨1⟩ "basic".toList payload := by
  have hfinal : ((replay (Vault.next twoKeys) Unrepeated (Sessions.idle {}) deletion).bind fun s =>
      (replay (Vault.next twoKeys) Unrepeated s lateReader).map fun t =>
        ([served s 1, served s 2, served t 4], (s.sessions 4).isNone && s.world.deleted == [⟨2⟩] &&
          t.world.credentials == [loginCredential], readsWith t 4)) =
      some ([some true, some false, some false], true, some (7, ⟨1⟩)) := by
    decide +kernel
  obtain ⟨s, hs, hend⟩ := Option.bind_eq_some_iff.mp hfinal
  obtain ⟨t, ht, hend⟩ := Option.map_eq_some_iff.mp hend
  simp only [Prod.mk.injEq, List.cons.injEq, Bool.and_eq_true, Option.isNone_iff_eq_none,
    beq_iff_eq] at hend
  obtain ⟨⟨hown, hother, hlate, -⟩, ⟨⟨hnew, hdeleted⟩, hcredentials⟩, hreads⟩ := hend
  have hreach := Reaches.of_replay _ hs
  have hlater := Reaches.of_replay _ ht
  have hrow : loginCredential ∈ t.world.credentials := by
    rw [hcredentials]
    exact .head _
  have hremoved : Removed s loginCredential.secretRef :=
    (Trusted.reaches twoKeys_lawful hreach).removed (hdeleted ▸ .head _) (canonicalUuid_text ⟨2⟩)
  obtain ⟨key, payload, hmade, -, hread⟩ := credentials_kept twoKeys_lawful hreach hlater hrow
  obtain ⟨y, hy, hrequest⟩ := Option.bind_eq_some_iff.mp hreads
  have hrequest : y.request = .resolveCredential (7 : UInt8) ⟨1⟩ := by
    cases h : y.request with
    | resolveCredential key' connection =>
      rw [h] at hrequest
      cases hrequest
      rfl
    | _ =>
      rw [h] at hrequest
      cases hrequest
  obtain ⟨e, hraise⟩ : ∃ e, y.prog = Prog.ofExcept (.error e) := by
    cases h : y.prog with
    | raise e => exact ⟨e, rfl⟩
    | _ => simp [served, hy, h] at hlate
  refine ⟨s, t, y, hreach, hlater, hown, hother, hremoved, hy, hrequest, ?_, key, payload, hmade⟩
  rcases hread 4 y _ _ hy hrequest hraise with ⟨hearly, -⟩ | ⟨-, hout⟩ | ⟨-, hout⟩
  · obtain ⟨x, -, hx, -⟩ := hearly hremoved
    rw [hnew] at hx
    cases hx
  · rw [hraise, hout]
    rfl
  · cases hout

end DataLake
