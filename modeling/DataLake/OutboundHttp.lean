import DataLake.Errors
import DataLake.Foundation.IpAddress
import DataLake.Urls

/-! The policy for outbound requests: which URLs may be contacted, and how far each
allowlist reaches. -/

namespace DataLake

open Foundation

/-- The properties of an address that the policy reads. -/
class Address (A : Type) where
  isLoopback : A → Bool
  isLinkLocal : A → Bool
  isMulticast : A → Bool
  isUnspecified : A → Bool
  isPrivate : A → Bool

instance : Address IpAddress where
  isLoopback := IpAddress.isLoopback
  isLinkLocal := IpAddress.isLinkLocal
  isMulticast := IpAddress.isMulticast
  isUnspecified := IpAddress.isUnspecified
  isPrivate := IpAddress.isPrivate

inductive BlockedCategory where
  | loopback
  | linkLocal
  | multicast
  | unspecified
  | privateRange
deriving DecidableEq

def BlockedCategory.description : BlockedCategory → String
  | loopback => "loopback"
  | linkLocal => "link-local (this range includes cloud metadata endpoints)"
  | multicast => "multicast"
  | unspecified => "unspecified"
  | privateRange => "private"

structure OutboundSettings where
  allowInsecureHttp : Bool := false
  insecureAllowedHosts : List Text := []
  allowedPrivateHosts : List Text := []
  allowedUnsafeHosts : List Text := []

structure OutboundContext (A : Type) where
  settings : OutboundSettings
  allowedOutboundHosts : Except Exc (List Text)
  getaddrinfo : Text → Except String (List A)

variable {A : Type} [Address A]

def classifyBlocked (ip : A) : Option BlockedCategory :=
  if Address.isLoopback ip then some .loopback
  else if Address.isLinkLocal ip then some .linkLocal
  else if Address.isMulticast ip then some .multicast
  else if Address.isUnspecified ip then some .unspecified
  else if Address.isPrivate ip then some .privateRange
  else none

def tenantAllowedPrivateHosts (lib : UrlLibrary) (context : OutboundContext A) : List Text :=
  match context.allowedOutboundHosts with
  | .ok hosts => hosts.map lib.lower
  | .error _ => []

def isPrivateAllowlisted (lib : UrlLibrary) (context : OutboundContext A) (host : Text) : Bool :=
  let host := lib.lower host
  (context.settings.allowedPrivateHosts.map lib.lower).contains host ||
    (tenantAllowedPrivateHosts lib context).contains host

def isUnsafeAllowlisted (lib : UrlLibrary) (settings : OutboundSettings) (host : Text) : Bool :=
  (settings.allowedUnsafeHosts.map lib.lower).contains (lib.lower host)

def isHttpSchemeAllowed (lib : UrlLibrary) (settings : OutboundSettings) (host : Text) : Bool :=
  settings.allowInsecureHttp ||
    (settings.insecureAllowedHosts.map lib.lower).contains (lib.lower host)

def resolveHost (context : OutboundContext A) (host : Text) : Except DataLakeError (List A) :=
  match context.getaddrinfo host with
  | .ok addresses => .ok addresses
  | .error e => .error (outboundRequestBlocked s!"could not resolve host {pyRepr host}: {e}")

def checkAddresses (host : Text) (privateAllowlisted unsafeAllowlisted : Bool) :
    List A → Except DataLakeError Unit
  | [] => .ok ()
  | ip :: rest =>
    match classifyBlocked ip with
    | none => checkAddresses host privateAllowlisted unsafeAllowlisted rest
    | some category =>
      if category = .privateRange && privateAllowlisted then
        checkAddresses host privateAllowlisted unsafeAllowlisted rest
      else if unsafeAllowlisted then
        checkAddresses host privateAllowlisted unsafeAllowlisted rest
      else
        .error (outboundRequestBlocked (s!"host {pyRepr host} resolves to a " ++
          s!"{category.description} address; this destination is blocked unless explicitly " ++
          "allowlisted"))

def allowedSchemes : List Text := ["http".toList, "https".toList]

/-- `a or b` of two texts that may be `None`, as a condition. -/
def truthy : Option Text → Bool
  | some (_ :: _) => true
  | _ => false

/-- The checks on the parts of the URL; what passes is the host. -/
def checkParts (lib : UrlLibrary) (settings : OutboundSettings) (parts : SplitResult) :
    Except DataLakeError Text :=
  if ¬ parts.scheme ∈ allowedSchemes then
    .error (outboundRequestBlocked
      s!"scheme {pyRepr parts.scheme} is not allowed (only http/https)")
  else if truthy parts.username || truthy parts.password then
    .error (outboundRequestBlocked "credentials embedded in a URL are not allowed")
  else
    match parts.hostname lib with
    | none | some [] => .error (outboundRequestBlocked "URL has no host")
    | some host =>
      if parts.scheme = "http".toList && !isHttpSchemeAllowed lib settings host then
        .error (outboundRequestBlocked ("plain http:// is not allowed by default; use " ++
          "https://, or enable it explicitly via OUTBOUND_HTTP_ALLOW_INSECURE_HTTP / " ++
          "OUTBOUND_HTTP_INSECURE_ALLOWED_HOSTS -- being on the destination allowlist does " ++
          "not by itself permit http://"))
      else .ok host

def validateOutboundUrl (lib : UrlLibrary) (context : OutboundContext A) (url : Text) :
    Except Exc Unit := do
  let parts ← (urlsplit lib url).mapError Exc.other
  let host ← (checkParts lib context.settings parts).mapError Exc.dataLake
  let addresses ← (resolveHost context host).mapError Exc.dataLake
  (checkAddresses host (isPrivateAllowlisted lib context host)
    (isUnsafeAllowlisted lib context.settings host) addresses).mapError Exc.dataLake

/-! What an accepted URL satisfies. -/

/-- None of the blocked categories. -/
def Public (ip : A) : Prop :=
  Address.isLoopback ip = false ∧ Address.isLinkLocal ip = false ∧
  Address.isMulticast ip = false ∧ Address.isUnspecified ip = false ∧ Address.isPrivate ip = false

/-- Private, and in no other category. -/
def PrivateOnly (ip : A) : Prop :=
  Address.isLoopback ip = false ∧ Address.isLinkLocal ip = false ∧
  Address.isMulticast ip = false ∧ Address.isUnspecified ip = false ∧ Address.isPrivate ip = true

instance (ip : A) : Decidable (Public ip) := inferInstanceAs (Decidable (_ ∧ _))

instance (ip : A) : Decidable (PrivateOnly ip) := inferInstanceAs (Decidable (_ ∧ _))

theorem classifyBlocked_none (ip : A) : classifyBlocked ip = none ↔ Public ip := by
  unfold classifyBlocked Public
  split_ifs <;> simp_all

theorem classifyBlocked_private (ip : A) :
    classifyBlocked ip = some .privateRange ↔ PrivateOnly ip := by
  unfold classifyBlocked PrivateOnly
  split_ifs <;> simp_all

/-- How an address gets past the policy. -/
def Admits (lib : UrlLibrary) (context : OutboundContext A) (host : Text) (ip : A) : Prop :=
  Public ip ∨ (PrivateOnly ip ∧ isPrivateAllowlisted lib context host = true) ∨
    isUnsafeAllowlisted lib context.settings host = true

theorem checkAddresses_ok (lib : UrlLibrary) (context : OutboundContext A) (host : Text)
    (addresses : List A) :
    checkAddresses host (isPrivateAllowlisted lib context host)
      (isUnsafeAllowlisted lib context.settings host) addresses = .ok () ↔
    ∀ ip ∈ addresses, Admits lib context host ip := by
  induction addresses with
  | nil => simp [checkAddresses]
  | cons ip rest ih =>
    have hpublic := classifyBlocked_none ip
    have hprivate := classifyBlocked_private ip
    rw [List.forall_mem_cons, checkAddresses, Admits]
    cases hcategory : classifyBlocked ip with
    | none =>
      have : Public ip := hpublic.mp hcategory
      simp [this, ih]
    | some category =>
      have hnot : ¬ Public ip := fun h => by simp [hpublic.mpr h] at hcategory
      rw [← hprivate, hcategory]
      simp only [hnot, false_or, Option.some.injEq]
      split_ifs with hallowed hlisted
      · simp only [Bool.and_eq_true, decide_eq_true_eq] at hallowed
        rw [ih]
        simp only [hallowed, and_self, true_or, true_and]
      · rw [ih]
        simp only [hlisted, or_true, true_and]
      · simp only [Bool.and_eq_true, decide_eq_true_eq] at hallowed
        simp [hallowed, hlisted]

structure PartsPermitted (lib : UrlLibrary) (settings : OutboundSettings) (parts : SplitResult)
    (host : Text) : Prop where
  scheme : parts.scheme = "https".toList ∨
    (parts.scheme = "http".toList ∧ isHttpSchemeAllowed lib settings host = true)
  credentials : truthy parts.username = false ∧ truthy parts.password = false
  host_eq : parts.hostname lib = some host
  host_ne : host ≠ []

theorem checkParts_ok (lib : UrlLibrary) (settings : OutboundSettings) (parts : SplitResult)
    (host : Text) :
    checkParts lib settings parts = .ok host ↔ PartsPermitted lib settings parts host := by
  unfold checkParts
  constructor
  · intro h
    split_ifs at h with hscheme hcredentials
    rw [Bool.or_eq_true, not_or, Bool.not_eq_true, Bool.not_eq_true] at hcredentials
    split at h
    · cases h
    · cases h
    · rename_i name hne hname
      split_ifs at h with hhttp
      cases h
      refine ⟨?_, hcredentials, hname, fun h => hne h⟩
      simp only [allowedSchemes, List.mem_cons, List.not_mem_nil, or_false] at hscheme
      rcases hscheme with hscheme | hscheme
      · exact .inr ⟨hscheme, by simpa [hscheme] using hhttp⟩
      · exact .inl hscheme
  · rintro ⟨hscheme, ⟨husername, hpassword⟩, hname, hne⟩
    have hallowed : parts.scheme ∈ allowedSchemes := by
      rcases hscheme with h | ⟨h, -⟩ <;> simp [allowedSchemes, h]
    have hhttp : ¬ (decide (parts.scheme = "http".toList) &&
        !isHttpSchemeAllowed lib settings host) = true := by
      rcases hscheme with h | ⟨-, h⟩
      · simp [h]
      · simp [h]
    cases host with
    | nil => exact absurd rfl hne
    | cons c cs =>
      simp only [hallowed, husername, hpassword, not_true_eq_false, if_false, Bool.or_self,
        Bool.false_eq_true, hname]
      rw [if_neg hhttp]

structure Accepted (lib : UrlLibrary) (context : OutboundContext A) (url : Text)
    (parts : SplitResult) (host : Text) (addresses : List A) : Prop where
  split : urlsplit lib url = .ok parts
  permitted : PartsPermitted lib context.settings parts host
  resolved : context.getaddrinfo host = .ok addresses
  admits : ∀ ip ∈ addresses, Admits lib context host ip

theorem validateOutboundUrl_ok (lib : UrlLibrary) (context : OutboundContext A) (url : Text) :
    validateOutboundUrl lib context url = .ok () ↔
      ∃ parts host addresses, Accepted lib context url parts host addresses := by
  constructor
  · intro h
    unfold validateOutboundUrl at h
    cases hsplit : urlsplit lib url with
    | error e =>
      rw [hsplit] at h
      cases h
    | ok parts =>
      rw [hsplit] at h
      cases hparts : checkParts lib context.settings parts with
      | error e => simp [Except.mapError, bind, Except.bind, hparts] at h
      | ok host =>
        cases hresolved : context.getaddrinfo host with
        | error e => simp [Except.mapError, bind, Except.bind, hparts, resolveHost, hresolved] at h
        | ok addresses =>
          refine ⟨parts, host, addresses, hsplit, (checkParts_ok _ _ _ _).mp hparts, hresolved, ?_⟩
          rw [← checkAddresses_ok]
          simp only [Except.mapError, bind, Except.bind, hparts, resolveHost, hresolved] at h
          split at h
          · cases h
          · assumption
  · rintro ⟨parts, host, addresses, hsplit, hparts, hresolved, hadmits⟩
    rw [← checkParts_ok] at hparts
    rw [← checkAddresses_ok] at hadmits
    simp [validateOutboundUrl, hsplit, hparts, resolveHost, hresolved, hadmits, Except.mapError,
      bind, Except.bind]

end DataLake
