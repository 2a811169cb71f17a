import DataLake.OutboundHttp

/-! How far each allowlist of the outbound policy reaches, and what the categories miss: not
every metadata service of a cloud lives at a link-local address. -/

namespace DataLake

open Foundation

section Layers

variable {A : Type} {lib : UrlLibrary} {c c' : OutboundContext A} {url host : Text}
  {parts : SplitResult} {addresses : List A}

/-- Surroundings that differ in nothing but the private allowlists, of the deployment or of
the tenant. -/
structure SameButPrivateHosts (c c' : OutboundContext A) : Prop where
  allowInsecureHttp : c.settings.allowInsecureHttp = c'.settings.allowInsecureHttp
  insecureAllowedHosts : c.settings.insecureAllowedHosts = c'.settings.insecureAllowedHosts
  allowedUnsafeHosts : c.settings.allowedUnsafeHosts = c'.settings.allowedUnsafeHosts
  getaddrinfo : c.getaddrinfo = c'.getaddrinfo

theorem SameButPrivateHosts.symm (h : SameButPrivateHosts c c') : SameButPrivateHosts c' c :=
  ⟨h.allowInsecureHttp.symm, h.insecureAllowedHosts.symm, h.allowedUnsafeHosts.symm,
    h.getaddrinfo.symm⟩

theorem SameButPrivateHosts.listed (h : SameButPrivateHosts c c') :
    isUnsafeAllowlisted lib c.settings host = isUnsafeAllowlisted lib c'.settings host := by
  rw [isUnsafeAllowlisted, isUnsafeAllowlisted, h.allowedUnsafeHosts]

theorem SameButPrivateHosts.permitted (h : SameButPrivateHosts c c')
    (hparts : PartsPermitted lib c.settings parts host) :
    PartsPermitted lib c'.settings parts host := by
  obtain ⟨hscheme, hcredentials, hname, hne⟩ := hparts
  refine ⟨?_, hcredentials, hname, hne⟩
  rwa [isHttpSchemeAllowed, ← h.allowInsecureHttp, ← h.insecureAllowedHosts]

variable [Address A]

/-- What the two surroundings judge differently. -/
structure OnlyPrivate (lib : UrlLibrary) (c : OutboundContext A) (url : Text)
    (parts : SplitResult) (host : Text) (addresses : List A) : Prop where
  split : urlsplit lib url = .ok parts
  permitted : PartsPermitted lib c.settings parts host
  resolved : c.getaddrinfo host = .ok addresses
  notUnsafe : isUnsafeAllowlisted lib c.settings host = false
  privateOnly : ∀ ip ∈ addresses, ¬ Public ip → PrivateOnly ip

theorem Accepted.onlyPrivate (h : SameButPrivateHosts c c')
    (haccepted : Accepted lib c url parts host addresses)
    (hrefused : validateOutboundUrl lib c' url ≠ .ok ()) :
    OnlyPrivate lib c url parts host addresses := by
  obtain ⟨hsplit, hparts, hresolved, hadmits⟩ := haccepted
  have hunlisted : isUnsafeAllowlisted lib c.settings host = false := by
    refine Bool.eq_false_iff.mpr fun hlisted => hrefused ?_
    rw [h.listed] at hlisted
    rw [validateOutboundUrl_ok]
    exact ⟨parts, host, addresses, hsplit, h.permitted hparts, h.getaddrinfo ▸ hresolved,
      fun ip _ => .inr (.inr hlisted)⟩
  refine ⟨hsplit, hparts, hresolved, hunlisted, fun ip hip hnot => ?_⟩
  rcases hadmits ip hip with hpublic | ⟨hprivate, -⟩ | hlisted
  · exact absurd hpublic hnot
  · exact hprivate
  · rw [hunlisted] at hlisted
    cases hlisted

theorem OnlyPrivate.transfer (h : SameButPrivateHosts c c')
    (honly : OnlyPrivate lib c url parts host addresses) :
    OnlyPrivate lib c' url parts host addresses :=
  ⟨honly.split, h.permitted honly.permitted, h.getaddrinfo ▸ honly.resolved,
    h.listed ▸ honly.notUnsafe, honly.privateOnly⟩

end Layers

/-- An accepted URL has a permitted scheme, no credentials, and only addresses that an
allowlist of their own layer lets through; and the private allowlists decide about a URL only
when nothing but private addresses stands in its way. -/
theorem outbound_allowlists_layered {A : Type} [Address A] (lib : UrlLibrary) (url : Text) :
    (∀ c : OutboundContext A, validateOutboundUrl lib c url = .ok () →
      ∃ parts host addresses,
        urlsplit lib url = .ok parts ∧
        parts.hostname lib = some host ∧
        c.getaddrinfo host = .ok addresses ∧
        (parts.scheme = "https".toList ∨
          (parts.scheme = "http".toList ∧ isHttpSchemeAllowed lib c.settings host = true)) ∧
        (truthy parts.username = false ∧ truthy parts.password = false) ∧
        ∀ ip ∈ addresses, Public ip ∨
          (PrivateOnly ip ∧ isPrivateAllowlisted lib c host = true) ∨
          isUnsafeAllowlisted lib c.settings host = true) ∧
    ∀ c c' : OutboundContext A, SameButPrivateHosts c c' →
      ¬ (validateOutboundUrl lib c url = .ok () ↔ validateOutboundUrl lib c' url = .ok ()) →
      ∃ parts host addresses, OnlyPrivate lib c url parts host addresses := by
  constructor
  · intro c haccepts
    obtain ⟨parts, host, addresses, haccepted⟩ := (validateOutboundUrl_ok lib c url).mp haccepts
    exact ⟨parts, host, addresses, haccepted.split, haccepted.permitted.host_eq,
      haccepted.resolved, haccepted.permitted.scheme, haccepted.permitted.credentials,
      haccepted.admits⟩
  · intro c c' hsame hdiffer
    by_cases haccepts : validateOutboundUrl lib c url = .ok ()
    · have hrefused : validateOutboundUrl lib c' url ≠ .ok () := fun h =>
        hdiffer ⟨fun _ => h, fun _ => haccepts⟩
      obtain ⟨parts, host, addresses, haccepted⟩ := (validateOutboundUrl_ok lib c url).mp haccepts
      exact ⟨parts, host, addresses, haccepted.onlyPrivate hsame hrefused⟩
    · have haccepts' : validateOutboundUrl lib c' url = .ok () :=
        Decidable.byContradiction fun h => hdiffer ⟨fun h' => absurd h' haccepts, fun h' =>
          absurd h' h⟩
      obtain ⟨parts, host, addresses, haccepted⟩ :=
        (validateOutboundUrl_ok lib c' url).mp haccepts'
      exact ⟨parts, host, addresses,
        (haccepted.onlyPrivate hsame.symm haccepts).transfer hsame.symm⟩

/-! Hosts and addresses for the examples below. -/

def asciiLibrary : UrlLibrary where
  lower := List.map Char.toLower
  nfkc := id
  ipAddress _ := .error "not an address literal"

def insurerHost : Text := "internal.example-insurer.test".toList

def insurerUrl : Text := "https://internal.example-insurer.test/data".toList

/-- A tenant that lists the host, which has the given address. -/
def tenantLists (ip : IpAddress) : OutboundContext IpAddress where
  settings := {}
  allowedOutboundHosts := .ok [insurerHost]
  getaddrinfo _ := .ok [ip]

def tenantUnreachable (ip : IpAddress) : OutboundContext IpAddress where
  settings := {}
  allowedOutboundHosts := .error (.other "relation does not exist")
  getaddrinfo _ := .ok [ip]

def internalAddress : IpAddress := .v4 0x0a000005

theorem outbound_allowlists_layered_internal :
    ∃ parts host addresses,
      OnlyPrivate asciiLibrary (tenantLists internalAddress) insurerUrl parts host addresses := by
  refine (outbound_allowlists_layered asciiLibrary insurerUrl).2 (tenantLists internalAddress)
    (tenantUnreachable internalAddress) ⟨rfl, rfl, rfl, rfl⟩ ?_
  decide +kernel

/-! The endpoints of the metadata services. -/

section Metadata

variable {A : Type} {lib : UrlLibrary} {c : OutboundContext A} {url host : Text}
  {parts : SplitResult} {addresses : List A}

theorem checkParts_error {settings : OutboundSettings} {e : DataLakeError}
    (h : checkParts lib settings parts = .error e) :
    ∃ message, e = outboundRequestBlocked message := by
  unfold checkParts at h
  split at h
  · cases h
    exact ⟨_, rfl⟩
  · split at h
    · cases h
      exact ⟨_, rfl⟩
    · split at h
      · cases h
        exact ⟨_, rfl⟩
      · cases h
        exact ⟨_, rfl⟩
      · split at h <;> cases h
        exact ⟨_, rfl⟩

theorem resolveHost_error {e : DataLakeError} (h : resolveHost c host = .error e) :
    ∃ message, e = outboundRequestBlocked message := by
  unfold resolveHost at h
  split at h <;> cases h
  exact ⟨_, rfl⟩

variable [Address A]

theorem checkAddresses_error {e : DataLakeError} {privateAllowlisted unsafeAllowlisted : Bool}
    (h : checkAddresses host privateAllowlisted unsafeAllowlisted addresses = .error e) :
    ∃ message, e = outboundRequestBlocked message := by
  induction addresses with
  | nil => cases h
  | cons ip rest ih =>
    rw [checkAddresses] at h
    split at h
    · exact ih h
    · split_ifs at h
      · exact ih h
      · exact ih h
      · cases h
        exact ⟨_, rfl⟩

theorem validateOutboundUrl_blocked (hsplit : urlsplit lib url = .ok parts) :
    (∃ message, validateOutboundUrl lib c url =
      .error (.dataLake (outboundRequestBlocked message))) ↔
    validateOutboundUrl lib c url ≠ .ok () := by
  constructor
  · rintro ⟨message, h⟩
    simp [h]
  · intro hrefused
    cases hparts : checkParts lib c.settings parts with
    | error e =>
      obtain ⟨message, rfl⟩ := checkParts_error hparts
      exact ⟨message, by simp [validateOutboundUrl, hsplit, hparts, Except.mapError, bind,
        Except.bind]⟩
    | ok host =>
      cases hresolved : resolveHost c host with
      | error e =>
        obtain ⟨message, rfl⟩ := resolveHost_error hresolved
        exact ⟨message, by simp [validateOutboundUrl, hsplit, hparts, hresolved,
          Except.mapError, bind, Except.bind]⟩
      | ok addresses =>
        have hrest : validateOutboundUrl lib c url =
            (checkAddresses host (isPrivateAllowlisted lib c host)
              (isUnsafeAllowlisted lib c.settings host) addresses).mapError Exc.dataLake := by
          simp [validateOutboundUrl, hsplit, hparts, hresolved, Except.mapError, bind,
            Except.bind]
        rw [hrest] at hrefused ⊢
        cases hchecked : checkAddresses host (isPrivateAllowlisted lib c host)
            (isUnsafeAllowlisted lib c.settings host) addresses with
        | ok u => exact absurd (by rw [hchecked]; rfl) hrefused
        | error e =>
          obtain ⟨message, rfl⟩ := checkAddresses_error hchecked
          exact ⟨message, rfl⟩

/-- With the unsafe list empty, an accepted URL has public addresses, and private ones where
the host is on a private list. -/
theorem validateOutboundUrl_ok_safe (hempty : c.settings.allowedUnsafeHosts = [])
    (hsplit : urlsplit lib url = .ok parts) (hname : parts.hostname lib = some host)
    (hresolved : c.getaddrinfo host = .ok addresses) :
    validateOutboundUrl lib c url = .ok () ↔
      PartsPermitted lib c.settings parts host ∧
      ∀ ip ∈ addresses,
        Public ip ∨ (PrivateOnly ip ∧ isPrivateAllowlisted lib c host = true) := by
  have hlisted : isUnsafeAllowlisted lib c.settings host = false := by
    simp [isUnsafeAllowlisted, hempty]
  rw [validateOutboundUrl_ok]
  constructor
  · rintro ⟨parts', host', addresses', hsplit', hparts, hresolved', hadmits⟩
    cases hsplit.symm.trans hsplit'
    cases hname.symm.trans hparts.host_eq
    cases hresolved.symm.trans hresolved'
    refine ⟨hparts, fun ip hip => ?_⟩
    have := hadmits ip hip
    rwa [Admits, hlisted, Bool.false_eq_true, or_false] at this
  · rintro ⟨hparts, hadmits⟩
    refine ⟨parts, host, addresses, hsplit, hparts, hresolved, fun ip hip => ?_⟩
    rw [Admits, hlisted, Bool.false_eq_true, or_false]
    exact hadmits ip hip

end Metadata

/-- The metadata service of AWS over IPv4. -/
def awsMetadata : IpAddress := .v4 0xa9fea9fe

/-- The metadata service of AWS over IPv6, in the unique local range. -/
def awsMetadataV6 : IpAddress := .v6 0xfd000ec2000000000000000000000254

/-- The metadata service of Alibaba Cloud, in the shared address space. -/
def alibabaMetadata : IpAddress := .v4 0x646464c8

def metadataAddresses : List IpAddress := [awsMetadata, awsMetadataV6, alibabaMetadata]

theorem awsMetadata_unsafe : ¬ Public awsMetadata ∧ ¬ PrivateOnly awsMetadata := by
  decide +kernel

theorem awsMetadataV6_private : ¬ Public awsMetadataV6 ∧ PrivateOnly awsMetadataV6 := by
  decide +kernel

theorem alibabaMetadata_public : Public alibabaMetadata := by
  decide +kernel

/-- With the unsafe list empty, what keeps a URL from being accepted: the link-local metadata
address always does, the unique local one only while the host is on no private list, and the
one in the shared address space never. -/
theorem metadata_blocked_iff (lib : UrlLibrary) (c : OutboundContext IpAddress)
    (url host : Text) (parts : SplitResult) (addresses : List IpAddress)
    (hempty : c.settings.allowedUnsafeHosts = [])
    (hsplit : urlsplit lib url = .ok parts) (hname : parts.hostname lib = some host)
    (hresolved : c.getaddrinfo host = .ok addresses) :
    (∃ message, validateOutboundUrl lib c url =
      .error (.dataLake (outboundRequestBlocked message))) ↔
    awsMetadata ∈ addresses ∨
    (awsMetadataV6 ∈ addresses ∧ isPrivateAllowlisted lib c host = false) ∨
    ¬ PartsPermitted lib c.settings parts host ∨
    ∃ ip ∈ addresses, ip ∉ metadataAddresses ∧ ¬ Public ip ∧
      ¬ (PrivateOnly ip ∧ isPrivateAllowlisted lib c host = true) := by
  rw [validateOutboundUrl_blocked hsplit, Ne,
    validateOutboundUrl_ok_safe hempty hsplit hname hresolved]
  constructor
  · intro hrefused
    by_contra hnone
    push Not at hnone
    obtain ⟨haws, hawsV6, hparts, hothers⟩ := hnone
    refine hrefused ⟨hparts, fun ip hip => ?_⟩
    by_cases hmetadata : ip ∈ metadataAddresses
    · simp only [metadataAddresses, List.mem_cons, List.not_mem_nil, or_false] at hmetadata
      rcases hmetadata with rfl | rfl | rfl
      · exact absurd hip haws
      · exact .inr ⟨awsMetadataV6_private.2, by simpa using hawsV6 hip⟩
      · exact .inl alibabaMetadata_public
    · by_cases hpublic : Public ip
      · exact .inl hpublic
      · exact .inr (hothers ip hip hmetadata hpublic)
  · rintro h ⟨hparts, hadmits⟩
    rcases h with haws | ⟨hawsV6, hnotListed⟩ | hnot | ⟨ip, hip, -, hpublic, hprivate⟩
    · rcases hadmits _ haws with h | ⟨h, -⟩
      · exact awsMetadata_unsafe.1 h
      · exact awsMetadata_unsafe.2 h
    · rcases hadmits _ hawsV6 with h | ⟨-, h⟩
      · exact awsMetadataV6_private.1 h
      · rw [hnotListed] at h
        cases h
    · exact hnot hparts
    · exact (hadmits ip hip).elim hpublic hprivate

theorem metadata_blocked_aws :
    ∃ message, validateOutboundUrl asciiLibrary (tenantLists awsMetadata) insurerUrl =
      .error (.dataLake (outboundRequestBlocked message)) :=
  (metadata_blocked_iff asciiLibrary (tenantLists awsMetadata) insurerUrl insurerHost
    ⟨"https".toList, insurerHost⟩ [awsMetadata] rfl (by decide +kernel) (by decide +kernel)
    rfl).mpr (.inl (List.mem_singleton.mpr rfl))

/-- A tenant that lists a name of its own opens the metadata service of AWS over IPv6. -/
theorem metadata_not_always_blocked :
    ¬ ∀ (lib : UrlLibrary) (c : OutboundContext IpAddress) (url host : Text)
      (parts : SplitResult) (addresses : List IpAddress),
      c.settings.allowedUnsafeHosts = [] →
      urlsplit lib url = .ok parts →
      parts.hostname lib = some host →
      c.getaddrinfo host = .ok addresses →
      (∃ ip ∈ metadataAddresses, ip ∈ addresses) →
      ∃ message, validateOutboundUrl lib c url =
        .error (.dataLake (outboundRequestBlocked message)) := by
  intro h
  obtain ⟨message, hblocked⟩ := h asciiLibrary (tenantLists awsMetadataV6) insurerUrl insurerHost
    ⟨"https".toList, insurerHost⟩ [awsMetadataV6] rfl (by decide +kernel) (by decide +kernel) rfl
    ⟨awsMetadataV6, by decide, List.mem_singleton.mpr rfl⟩
  have haccepted : validateOutboundUrl asciiLibrary (tenantLists awsMetadataV6) insurerUrl =
      .ok () := by decide +kernel
  rw [haccepted] at hblocked
  cases hblocked

/-- And the one of Alibaba Cloud needs no list at all. -/
example : validateOutboundUrl asciiLibrary (tenantUnreachable alibabaMetadata) insurerUrl =
    .ok () := by decide +kernel

end DataLake
