import DataLake.ContentAddressing
import DataLake.PutRule

/-! What `put` stores, `get` returns: the URI names one page of one run, and only
its tenant reads it, with its contents verified. -/

namespace DataLake

open Foundation

/-- A call made for the tenant, with a service that answers. -/
def servedAs (tenant : Uuid) : StoreOp → StoreAnswer
  | .tenantUuid => .tenant (.ok tenant)
  | _ => .done ⟨0⟩

variable {bucket : BucketName} {tenant : Uuid} {key checksum : Text} {object : S3Object}
  {w : StoreWorld} {contents : Set Bytes}

theorem eval_get_own (hobject : w.bucket (tenantKey tenant key) = some object)
    (hkey : checksumFromKey (tenantKey tenant key) = some checksum)
    (hsum : sha256hex object.body = checksum) :
    (get bucket (storageUri bucket (tenantKey tenant key))).eval execStore (servedAs tenant) w =
      some (.ok object.body, w) := by
  have hparse := parseUri_storageUri bucket (tenantKey_ne_nil tenant key)
  simp [get, parseAndAuthorize, hparse, Prog.ofExcept, Except.mapError, Prog.bind_eq, storeCall,
    Prog.perform, Prog.eval, execStore, servedAs, partition_tenantKey, Prog.pure_eq, hobject, hkey,
    hsum]

theorem eval_get_replaced (hobject : w.bucket (tenantKey tenant key) = some object)
    (hkey : checksumFromKey (tenantKey tenant key) = some checksum)
    (hsum : sha256hex object.body ≠ checksum) :
    ∃ message, (get bucket (storageUri bucket (tenantKey tenant key))).eval execStore
      (servedAs tenant) w = some (.error (.dataLake (rawPayloadIntegrityError message)), w) := by
  have hparse := parseUri_storageUri bucket (tenantKey_ne_nil tenant key)
  simp [get, parseAndAuthorize, hparse, Prog.ofExcept, Except.mapError, Prog.bind_eq, storeCall,
    Prog.perform, Prog.eval, execStore, servedAs, partition_tenantKey, Prog.pure_eq, hobject, hkey,
    hsum, raiseError]

theorem eval_get_other {reader : Uuid} (hreader : reader ≠ tenant) :
    (get bucket (storageUri bucket (tenantKey tenant key))).eval execStore (servedAs reader) w =
      some (.error (.dataLake (rawPayloadAccessDenied
        "refusing to read a raw payload belonging to a different tenant")), w) ∧
    (get bucket (storageUri bucket (tenantKey tenant key))).calls execStore (servedAs reader) w =
      [.tenantUuid] := by
  have hparse := parseUri_storageUri bucket (tenantKey_ne_nil tenant key)
  have hne : tenant.text ≠ reader.text := fun h => hreader (Uuid.text_inj h).symm
  constructor
  · simp [get, parseAndAuthorize, hparse, Prog.ofExcept, Except.mapError, Prog.bind_eq, storeCall,
      Prog.perform, Prog.eval, execStore, servedAs, partition_tenantKey, hne, raiseError]
  · simp [get, parseAndAuthorize, hparse, Prog.ofExcept, Except.mapError, Prog.bind_eq, storeCall,
      Prog.perform, Prog.calls, execStore, servedAs, partition_tenantKey, hne, raiseError]

theorem named_pageKey (tenant : Uuid) (page : RawPage) :
    (tenantObjects {tenant}).named (tenantKey tenant page.key) page.checksum := by
  refine ⟨⟨tenant, rfl, page.key, rfl⟩, length_sha256hex _,
    tenant.text ++ '/' :: (page.pipeline.text ++ '/' :: (page.run.text ++ ['/'])),
    page.sequence, ?_⟩
  simp [tenantKey, prefixedKey, RawPage.key, logicalKey]

theorem checksumFromKey_page (tenant : Uuid) (page : RawPage) :
    checksumFromKey (tenantKey tenant page.key) = some page.checksum :=
  checksumFromKey_tenantKey _ _ _ _ (slash_notMem_sha256hex _) (length_sha256hex _)

theorem page_writerRely (hinj : Set.InjOn sha256hex contents) {page : RawPage}
    (hdata : page.data ∈ contents) :
    WriterRely (tenantKey tenant page.key) ⟨page.data, some page.contentType⟩
      (Preserves {tenant} contents) (SoundBucket {tenant} contents) where
  refl := Preserves.refl
  trans _ _ _ := Preserves.trans
  inv _ _ hv hvw := (hvw hv).1
  lasts _ _ o hv hvw ho := (hvw hv).2 _ _ o (named_pageKey tenant page) ho
  write _ v _ _ _ := by
    have hname : (tenantObjects {tenant}).WellNamed (tenantKey tenant page.key)
        ⟨page.data, some page.contentType⟩ :=
      wellNamed_logicalKey tenant page.pipeline page.run page.sequence
        ⟨page.data, some page.contentType⟩
    exact preserves_of_update hinj hdata hname (v.write_bucket _ _)

theorem body_eq_data (hinj : Set.InjOn sha256hex contents) {page : RawPage}
    (hdata : page.data ∈ contents) (hw : SoundBucket {tenant} contents w)
    (hobject : w.bucket (tenantKey tenant page.key) = some object) : object.body = page.data :=
  hinj (hw.2 _ _ hobject) hdata (hw.1 _ _ hobject _ (named_pageKey tenant page))

theorem put_stores (hinj : Set.InjOn sha256hex contents) {page : RawPage} {w' : StoreWorld}
    {uri : Text} (hdata : page.data ∈ contents) (hw : SoundBucket {tenant} contents w)
    (hput : (put bucket page.key page.data page.contentType).Runs (tenantExec tenant false) w
      (.ok uri) w') :
    SoundBucket {tenant} contents w' ∧ uri = storageUri bucket (tenantKey tenant page.key) ∧
      ∃ o, w'.bucket (tenantKey tenant page.key) = some o := by
  obtain ⟨hw', huri, o, ho, -⟩ :=
    Prog.Safe.runs Preserves.refl (put_safe (page_writerRely hinj hdata) hw) hput
  exact ⟨hw', huri, o, ho⟩

/-- Whatever the service answers, the URI is built from the key that was given. -/
theorem put_must (bucket : BucketName) (key : Text) (data : Bytes) (contentType : Text) :
    (put bucket key data contentType).Must (fun _ => False)
      fun out => ∀ uri, out = .ok uri → ∃ u, uri = storageUri bucket (tenantKey u key) := by
  refine .inr fun r => ?_
  rcases r with e | u
  · rintro uri h
    cases h
  · refine Prog.Must.handle (p := putCreateOnly bucket (tenantKey u key) ⟨data, some contentType⟩)
      (fun written => ?_) fun e uri h => by cases h
    cases written with
    | true =>
      rintro uri h
      cases h
      exact ⟨u, rfl⟩
    | false =>
      refine Prog.Must.handle (p := verifyExistingObject (tenantKey u key) data)
        (fun _ => ?_) fun e uri h => by cases h
      rintro uri h
      cases h
      exact ⟨u, rfl⟩

theorem put_uri_inj (hinj : Set.InjOn sha256hex contents) {page page' : RawPage}
    (hdata : page.data ∈ contents) (hdata' : page'.data ∈ contents) {v v' w w' : StoreWorld}
    {uri : Text}
    (h : (put bucket page.key page.data page.contentType).Runs execStore v (.ok uri) v')
    (h' : (put bucket page'.key page'.data page'.contentType).Runs execStore w (.ok uri) w') :
    page.run = page'.run ∧ page.sequence = page'.sequence ∧ page.data = page'.data := by
  obtain ⟨u, hu⟩ := (put_must bucket page.key page.data page.contentType).runs h uri rfl
  obtain ⟨u', hu'⟩ := (put_must bucket page'.key page'.data page'.contentType).runs h' uri rfl
  have hkey := (tenantKey_inj (storageUri_inj (hu.symm.trans hu'))).2
  obtain ⟨-, hrun, hseq, hsum⟩ := logicalKey_inj hkey
  exact ⟨hrun, hseq, hinj hdata hdata' hsum⟩

/-- The round trip. `contents` holds the byte strings in play, of which no two have
the same hash; `t` is any later state of the store that keeps its named objects. -/
theorem raw_payload_round_trip (tenant reader : Uuid) (bucket : BucketName) (page : RawPage)
    (contents : Set Bytes) {w w' : StoreWorld} {uri : Text} (hreader : reader ≠ tenant)
    (hinj : Set.InjOn sha256hex contents) (hdata : page.data ∈ contents)
    (hin : (tenantObjects {tenant}).Within contents w.bucket)
    (hnamed : (tenantObjects {tenant}).Addressed w.bucket)
    (hput : (put bucket page.key page.data page.contentType).Runs (tenantExec tenant false) w
      (.ok uri) w') :
    (∀ t, (tenantObjects {tenant}).Keeps w'.bucket t.bucket →
      (get bucket uri).eval execStore (servedAs tenant) t = some (.ok page.data, t)) ∧
    (∀ t, (get bucket uri).eval execStore (servedAs reader) t =
        some (.error (.dataLake (rawPayloadAccessDenied
          "refusing to read a raw payload belonging to a different tenant")), t) ∧
      (get bucket uri).calls execStore (servedAs reader) t = [.tenantUuid]) ∧
    (∀ t object, t.bucket (tenantKey tenant page.key) = some object →
      object.body ∈ contents → object.body ≠ page.data →
      ∃ message, (get bucket uri).eval execStore (servedAs tenant) t =
        some (.error (.dataLake (rawPayloadIntegrityError message)), t)) ∧
    (∀ (page' : RawPage) (v v' : StoreWorld) (uri' : Text), page'.data ∈ contents →
      (put bucket page'.key page'.data page'.contentType).Runs execStore v (.ok uri') v' →
      (page'.run, page'.sequence, page'.data) ≠ (page.run, page.sequence, page.data) →
      uri' ≠ uri) := by
  obtain ⟨hw', huri, o, ho⟩ := put_stores hinj hdata ⟨hnamed, hin⟩ hput
  have hbody := body_eq_data hinj hdata hw' ho
  have hkey := checksumFromKey_page tenant page
  subst huri
  refine ⟨fun t ht => ?_, fun t => eval_get_other hreader, fun t object hobject hin' hne => ?_,
    fun page' v v' uri' hdata' hput' hne heq => ?_⟩
  · obtain ⟨o', ho', hbody'⟩ := ht _ _ _ (named_pageKey tenant page) ho
    have hdata' : o'.body = page.data := hbody'.trans hbody
    rw [← hdata']
    exact eval_get_own ho' hkey (by rw [hdata']; rfl)
  · exact eval_get_replaced hobject hkey fun hsum => hne (hinj hin' hdata hsum)
  · subst heq
    obtain ⟨hrun, hseq, hdatas⟩ := put_uri_inj hinj hdata' hdata hput' hput.of_only
    exact hne (by rw [hrun, hseq, hdatas])

theorem raw_payload_round_trip_page :
    let bucket : BucketName := ⟨"raw".toList, by decide, by decide⟩
    let page : RawPage := ⟨⟨2⟩, ⟨3⟩, 1000000, [7], "text/plain".toList, none, none, 0, [], none⟩
    let key := tenantKey ⟨1⟩ page.key
    let w : StoreWorld := ⟨Function.update (fun _ => none) key
      (some ⟨[7], some "text/plain".toList⟩), []⟩
    (get bucket (storageUri bucket key)).eval execStore (servedAs ⟨1⟩) w = some (.ok [7], w) ∧
    (get bucket (storageUri bucket key)).calls execStore (servedAs ⟨2⟩) w = [.tenantUuid] := by
  intro bucket page key w
  have hput : (put bucket page.key page.data page.contentType).Runs (tenantExec ⟨1⟩ false)
      ⟨fun _ => none, []⟩ (.ok (storageUri bucket key)) w :=
    .of_eval (servedAs ⟨1⟩) rfl
  obtain ⟨hown, hother, -, -⟩ := raw_payload_round_trip ⟨1⟩ ⟨2⟩ bucket page {[7]} (by decide)
    (Set.injOn_singleton _ _) rfl (by intro _ _ h; cases h) (by intro _ _ h; cases h) hput
  exact ⟨hown w (Addressing.Keeps.refl _), (hother w).2⟩

end DataLake
