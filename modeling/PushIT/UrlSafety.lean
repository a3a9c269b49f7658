import PushIT.InboundChecks
import PushIT.Library.IpAddress

/-!
# The guard on webhook URLs

`applications/url_safety.py`, with `urlsplit` of Python 3.14: a URL is safe when it has a host, its
scheme is `http` or `https`, and none of the addresses the host resolves to is forbidden.  What it
uses of the other libraries stands in `WebhookPlatform`, and the resolver is an argument.

## Main definitions

* `urlsplit`, `SplitResult.hostname`, `SplitResult.port`: the parts of a URL.
* `isForbiddenIp`, `resolveHostIps`, `assertWebhookUrlSafe`: the guard.
* `Admitted`: what a URL is that the guard lets pass.

## Main results

* `assertWebhookUrlSafe_eq_ok_iff`: the guard lets admitted URLs pass.
* `validateWebhookUrl_eq_ok_iff`: the two layers never disagree.
* `Admitted.globallyRoutable_iff`: an address that passes is routable unless it is shared.
-/

namespace PushIT

/-! ### The platform -/

/-- Why `getaddrinfo` has no answer: its own error, or a host that is no domain name. -/
inductive ResolverError
  | gaierror
  | unicodeError
  deriving DecidableEq, Repr

/-- The texts of the addresses that `getaddrinfo` gives for a host. -/
abbrev Resolver := String → Except ResolverError (List String)

/-- `UnsafeWebhookURL` with its text, or another `ValueError`. -/
inductive WebhookError
  | unsafeWebhookUrl (text : String)
  | valueError
  deriving DecidableEq, Repr

/-- What the treatment of webhook URLs uses of Python. -/
structure WebhookPlatform where
  /-- `str.lower`. -/
  lower : String → String
  /-- `ipaddress.ip_address`; `none` when it raises. -/
  ipAddress : String → Option Ip.Address
  /-- `compressed`, which is also the text of an address. -/
  compressed : Ip.Address → String
  /-- `_checknetloc`: no character of another form of the separators. -/
  checkNetloc : List Char → Bool

/-! ### Texts -/

/-- `text.partition(sep)`, without the separator. -/
def partition (sep : Char) (cs : List Char) : List Char × List Char :=
  (splitFirst sep cs).getD (cs, [])

/-! ### The parts of a URL -/

/-- `SplitResult`. -/
structure SplitResult where
  scheme : List Char
  netloc : List Char
  path : List Char
  query : List Char
  fragment : List Char
  deriving DecidableEq, Repr

/-- `_WHATWG_C0_CONTROL_OR_SPACE`. -/
def isControlOrSpace (c : Char) : Bool := decide (c.toNat ≤ 32)

/-- `_UNSAFE_URL_BYTES_TO_REMOVE`. -/
def removedFromUrl : List Char := ['\t', '\r', '\n']

/-- `scheme_chars`. -/
def isSchemeChar (c : Char) : Bool := c.isAlphanum || ['+', '-', '.'].contains c

/-- The scheme in lower case and what follows the colon, when the URL has a scheme. -/
def splitScheme (cs : List Char) : List Char × List Char :=
  match splitFirst ':' cs with
  | some (c :: scheme, rest) =>
    if c.isAlpha && scheme.all isSchemeChar then ((c :: scheme).map Char.toLower, rest)
    else ([], cs)
  | _ => ([], cs)

/-- The characters that end a netloc. -/
def endsNetloc (c : Char) : Bool := ['/', '?', '#'].contains c

/-- `_splitnetloc`, behind two slashes. -/
def splitNetloc : List Char → List Char × List Char
  | '/' :: '/' :: cs => (cs.takeWhile (!endsNetloc ·), cs.dropWhile (!endsNetloc ·))
  | cs => ([], cs)

section Splitting

variable (W : WebhookPlatform)

/-- `_check_bracketed_host`. -/
def checkBracketedHost (hostname : List Char) : Bool :=
  match hostname with
  | 'v' :: cs =>
    let digits := cs.takeWhile fun c =>
      c.isDigit || "abcdefABCDEF".toList.contains c
    match cs.drop digits.length with
    | '.' :: rest => digits != [] && rest != []
    | _ => false
  | _ =>
    match W.ipAddress (String.ofList hostname) with
    | some (.v6 _ _) => true
    | _ => false

/-- `_check_bracketed_netloc`. -/
def checkBracketedNetloc (netloc : List Char) : Bool :=
  let hostnameAndPort := afterLast '@' netloc
  match splitFirst '[' hostnameAndPort with
  | some (beforeBracket, bracketed) =>
    let parts := partition ']' bracketed
    beforeBracket == [] && (parts.2 == [] || parts.2.head? == some ':') &&
      checkBracketedHost W parts.1
  | none => checkBracketedHost W (partition ':' hostnameAndPort).1

/-- What `urlsplit` demands of a netloc. -/
def netlocAccepted (netloc : List Char) : Bool :=
  (netloc.contains '[' == netloc.contains ']') &&
    (!netloc.contains '[' || checkBracketedNetloc W netloc) && W.checkNetloc netloc

/-- `urlsplit`. -/
def urlsplit (url : String) : Except WebhookError SplitResult :=
  let cs := (url.toList.dropWhile isControlOrSpace).filter (!removedFromUrl.contains ·)
  let (scheme, cs) := splitScheme cs
  let (netloc, cs) := splitNetloc cs
  if netlocAccepted W netloc then
    let (cs, fragment) := partition '#' cs
    let (path, query) := partition '?' cs
    .ok { scheme, netloc, path, query, fragment }
  else .error .valueError

namespace SplitResult

variable (parts : SplitResult)

/-- `netloc.rpartition("@")[0]`. -/
def userinfo : List Char := (splitLast '@' parts.netloc).elim [] (·.1)

/-- `_hostinfo`: the host and the text of the port. -/
def hostinfo : List Char × List Char :=
  let hostinfo := afterLast '@' parts.netloc
  match splitFirst '[' hostinfo with
  | some (_, bracketed) =>
    let parts := partition ']' bracketed
    (parts.1, (partition ':' parts.2).2)
  | none => partition ':' hostinfo

/-- `hostname`: the zone of an address keeps its letter case. -/
def hostname : Option String :=
  let hostname := parts.hostinfo.1
  if hostname = [] then none
  else
    match splitFirst '%' hostname with
    | some (hostname, zone) =>
      some (W.lower (String.ofList hostname) ++ String.ofList ('%' :: zone))
    | none => some (W.lower (String.ofList hostname))

/-- `port`. -/
def port : Except WebhookError (Option ℕ) :=
  let port := parts.hostinfo.2
  if port = [] then .ok none
  else if port.all Char.isDigit && decide (Nat.ofDigitChars 10 port 0 ≤ 65535) then
    .ok (some (Nat.ofDigitChars 10 port 0))
  else .error .valueError

end SplitResult

end Splitting

/-- What stands in front of the last at sign of a netloc. -/
theorem SplitResult.mem_netloc_of_userinfo {parts : SplitResult} {c : Char}
    (hc : c ∈ parts.userinfo) : c ∈ parts.netloc := by
  rw [SplitResult.userinfo] at hc
  cases hsplit : splitLast '@' parts.netloc with
  | none => rw [hsplit] at hc; exact absurd hc List.not_mem_nil
  | some s =>
    obtain ⟨before, after⟩ := s
    rw [hsplit] at hc
    rw [(splitLast_eq_some_iff.mp hsplit).1]
    exact List.mem_append_left _ hc

/-- A netloc ends in front of a slash, a question mark or a number sign. -/
theorem endsNetloc_of_mem {W : WebhookPlatform} {url : String} {parts : SplitResult}
    (h : urlsplit W url = .ok parts) {c : Char} (hc : c ∈ parts.netloc) : endsNetloc c = false := by
  have hsplit : ∀ cs, ∀ c ∈ (splitNetloc cs).1, endsNetloc c = false := by
    intro cs c hc
    unfold splitNetloc at hc
    split at hc
    · simpa using List.mem_takeWhile_imp hc
    · exact absurd hc List.not_mem_nil
  rw [urlsplit] at h
  simp only at h
  split at h
  · obtain rfl := Except.ok.inj h
    exact hsplit _ c hc
  · cases h

/-! ### The guard -/

/-- `ALLOWED_SCHEMES`. -/
def allowedSchemes : List (List Char) := ["http".toList, "https".toList]

/-- `_is_forbidden_ip`. -/
def isForbiddenIp (ip : Ip.Address) : Bool :=
  let ip := ip.unmapped
  ip.isPrivate || ip.isLoopback || ip.isLinkLocal || ip.isReserved || ip.isMulticast ||
    ip.isUnspecified

section Guard

variable (W : WebhookPlatform) (getaddrinfo : Resolver)

/-- `_resolve_host_ips`: a literal address is its own resolution. -/
def resolveHostIps (host : String) : Except WebhookError (List Ip.Address) :=
  match W.ipAddress host with
  | some ip => .ok [ip]
  | none =>
    match getaddrinfo host with
    | .error .gaierror => .error (.unsafeWebhookUrl ("Could not resolve webhook host: " ++ host))
    | .error .unicodeError => .error .valueError
    | .ok infos =>
      let ips := infos.filterMap W.ipAddress
      if ips = [] then .error (.unsafeWebhookUrl ("Could not resolve webhook host: " ++ host))
      else .ok ips

/-- `assert_webhook_url_safe`. -/
def assertWebhookUrlSafe (url : String) : Except WebhookError (List Ip.Address) :=
  match urlsplit W url with
  | .error e => .error e
  | .ok parts =>
    if parts.scheme.map Char.toLower ∈ allowedSchemes then
      let host := (parts.hostname W).getD ""
      if host = "" then .error (.unsafeWebhookUrl "Webhook URL must include a host.")
      else
        match resolveHostIps W getaddrinfo host with
        | .error e => .error e
        | .ok ips =>
          match ips.find? isForbiddenIp with
          | some ip =>
            .error (.unsafeWebhookUrl
              ("Webhook host resolves to a forbidden address (" ++ W.compressed ip ++ ")."))
          | none => .ok ips
    else .error (.unsafeWebhookUrl "Webhook URL must use http or https.")

/-- `validate_webhook_url`: the errors of the guard are those of the field. -/
def validateWebhookUrl (value : String) : Except WebhookError Unit :=
  if value = "" then .ok ()
  else
    match assertWebhookUrlSafe W getaddrinfo value with
    | .error e => .error e
    | .ok _ => .ok ()

/-- A URL that passes, with its parts and the addresses its host resolves to. -/
structure Admitted (url : String) (parts : SplitResult) (ips : List Ip.Address) : Prop where
  split : urlsplit W url = .ok parts
  scheme : parts.scheme.map Char.toLower ∈ allowedSchemes
  host : (parts.hostname W).getD "" ≠ ""
  resolved : resolveHostIps W getaddrinfo ((parts.hostname W).getD "") = .ok ips
  allowed : ∀ ip ∈ ips, isForbiddenIp ip = false

variable {W getaddrinfo} {url : String} {parts : SplitResult} {ips : List Ip.Address}

theorem isForbiddenIp_eq (ip : Ip.Address) : isForbiddenIp ip = ip.isClassified :=
  ip.isClassified_unmapped

/-- The guard lets the admitted URLs pass and returns the addresses. -/
theorem assertWebhookUrlSafe_eq_ok_iff :
    assertWebhookUrlSafe W getaddrinfo url = .ok ips ↔
      ∃ parts, Admitted W getaddrinfo url parts ips := by
  constructor
  · intro h
    rw [assertWebhookUrlSafe] at h
    cases hsplit : urlsplit W url with
    | error e => rw [hsplit] at h; cases h
    | ok parts =>
      simp only [hsplit] at h
      split at h
      · next hscheme =>
        split at h
        · cases h
        · next hhost =>
          cases hresolved : resolveHostIps W getaddrinfo ((parts.hostname W).getD "") with
          | error e => simp [hresolved] at h
          | ok found =>
            simp only [hresolved] at h
            cases hfind : found.find? isForbiddenIp with
            | some ip => simp [hfind] at h
            | none =>
              rw [hfind] at h
              obtain rfl := Except.ok.inj h
              exact ⟨parts, hsplit, hscheme, hhost, hresolved, fun ip hip => by
                simpa using List.find?_eq_none.mp hfind ip hip⟩
      · cases h
  · rintro ⟨parts, h⟩
    have hfind : ips.find? isForbiddenIp = none :=
      List.find?_eq_none.mpr fun ip hip => by simp [h.allowed ip hip]
    rw [assertWebhookUrlSafe, h.split]
    simp only
    rw [if_pos h.scheme, if_neg h.host, h.resolved]
    simp only
    rw [hfind]

theorem validateWebhookUrl_eq_ok_iff :
    validateWebhookUrl W getaddrinfo url = .ok () ↔
      url = "" ∨ ∃ ips, assertWebhookUrlSafe W getaddrinfo url = .ok ips := by
  rw [validateWebhookUrl]
  split
  · next h => exact iff_of_true rfl (Or.inl h)
  · next h =>
    rw [or_iff_right h]
    cases assertWebhookUrlSafe W getaddrinfo url with
    | error e => exact iff_of_false (by simp) (by simp)
    | ok ips => exact iff_of_true rfl ⟨ips, rfl⟩

theorem resolveHostIps_ne_nil {host : String} (h : resolveHostIps W getaddrinfo host = .ok ips) :
    ips ≠ [] := by
  rw [resolveHostIps] at h
  cases hliteral : W.ipAddress host with
  | some ip =>
    simp only [hliteral] at h
    obtain rfl := Except.ok.inj h
    exact List.cons_ne_nil _ _
  | none =>
    simp only [hliteral] at h
    split at h
    · cases h
    · cases h
    · split at h
      · cases h
      · next hne =>
        obtain rfl := Except.ok.inj h
        exact hne

/-- An address that passes is routable unless it lies in the shared space. -/
theorem Admitted.globallyRoutable_iff (h : Admitted W getaddrinfo url parts ips) {ip : Ip.Address}
    (hip : ip ∈ ips) : ip.GloballyRoutable ↔ ip.isShared = false :=
  Ip.Address.globallyRoutable_iff ((isForbiddenIp_eq ip).symm.trans (h.allowed ip hip))

end Guard

end PushIT
