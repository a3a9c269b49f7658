import PushIT.Applications
import PushIT.UrlSafety

/-!
# The webhook callbacks

`notifications/webhooks.py`: the task resolves the host of the URL, lets the guard look at every
answer, and posts to a URL in which the first of these addresses stands for the host.  The user
info of the URL is kept in front of it.  The HTTP client reads that URL with a parser of its own,
for which an authority ends at a backslash too.

## Main definitions

* `postPinned`, `sendWebhookCallbackTask`: the request that is posted, and the task.
* `HttpClient`, `HttpClient.ReadsUrls`: what the task relies on of `requests`.
* `ReachesPublicOnly`: connections go to validated addresses, and these are routable.
* `LeadsAstray`: what stands in front of a backslash in the user info leads somewhere else.

## Main results

* `connects_of_admitted`: where a call leads.
* `webhooks_reach_public_only_iff`: when the callbacks reach validated, routable addresses only.
-/

namespace PushIT

open Relational

/-! ### The request -/

/-- The arguments of `send_webhook_callback_task`. -/
structure WebhookCallback where
  applicationId : ℕ
  notificationId : ℕ
  finalStatus : String
  sentAt : Option String := none
  deriving DecidableEq, Repr

/-- The payload of a callback. -/
structure CallbackPayload where
  event : String
  notificationId : ℕ
  applicationId : ℕ
  status : String
  sentAt : Option String
  timestamp : String
  deriving DecidableEq, Repr

/-- What `_post_pinned` passes to the session.  The session follows no redirects and takes nothing
from the environment. -/
structure PinnedRequest where
  url : String
  headers : List (String × String)
  data : List UInt8
  /-- The name for SNI and for the certificate. -/
  serverHostname : String
  timeout : ℕ
  allowRedirects : Bool
  trustEnv : Bool
  deriving DecidableEq

section Request

variable (W : WebhookPlatform)

/-- `f":{parts.port}"`. -/
def portText : Option ℕ → List Char
  | none => []
  | some port => ':' :: (toString port).toList

/-- The literal of an address. -/
def ipLiteral : Ip.Address → List Char
  | .v4 ip => (W.compressed (.v4 ip)).toList
  | .v6 ip scopeId => '[' :: ((W.compressed (.v6 ip scopeId)).toList ++ [']'])

/-- The `Host` header, in which an IPv6 literal needs its brackets. -/
def hostHeader (host : String) (port : Option ℕ) : String :=
  String.ofList ((if host.toList.contains ':' then '[' :: (host.toList ++ [']'])
    else host.toList) ++ portText port)

/-- The netloc of the pinned URL. -/
def pinnedNetloc (parts : SplitResult) (ip : Ip.Address) (port : Option ℕ) : List Char :=
  let netloc := ipLiteral W ip ++ portText port
  if parts.userinfo = [] then netloc else parts.userinfo ++ '@' :: netloc

/-- The part of a URL behind the slashes: the netloc, the path and the query. -/
def unsplitRest (netloc path query : List Char) : List Char :=
  netloc ++ ((if path = [] ∨ path.head? = some '/' then path else '/' :: path) ++
    (if query = [] then [] else '?' :: query))

/-- `urlunsplit` of a netloc that is not empty, without a fragment. -/
def urlunsplit (scheme netloc path query : List Char) : String :=
  String.ofList (scheme ++ "://".toList ++ unsplitRest netloc path query)

/-- `_post_pinned`, up to the session. -/
def postPinned (url : String) (ips : List Ip.Address) (headers : List (String × String))
    (data : List UInt8) : Except WebhookError PinnedRequest :=
  match urlsplit W url, ips with
  | .ok parts, ip :: _ =>
    match parts.port with
    | .ok port =>
      let host := (parts.hostname W).getD ""
      .ok {
        url := urlunsplit parts.scheme (pinnedNetloc W parts ip port) parts.path parts.query
        headers := headers ++ [("Host", hostHeader host port)]
        data
        serverHostname := host
        timeout := 10
        allowRedirects := false
        trustEnv := false }
    | .error e => .error e
  | .error e, _ => .error e
  | .ok _, [] => .error .valueError

end Request

/-! ### The client and the task -/

/-- What the task uses of `requests`, of `json` and of `hmac`. -/
structure HttpClient where
  /-- Where a host and a port lead that stand in the authority of a URL: the address, or those the
  name has when the connection is opened. -/
  destinations : List Char → List Ip.Address
  /-- The addresses that posting a request may open a connection to. -/
  connects : PinnedRequest → List Ip.Address
  /-- The status of the answer, or the text of the `RequestException`. -/
  answer : PinnedRequest → Except String ℕ
  /-- `json.dumps(payload, sort_keys=True, separators=(",", ":")).encode("utf-8")`. -/
  dumps : CallbackPayload → List UInt8
  /-- `_sign_payload`. -/
  signPayload : List UInt8 → String → String

/-- The characters of an authority, for the parser of the client. -/
def isAuthorityChar (c : Char) : Bool := !(['\\', '/', '?', '#'].contains c)

/-- How the client reads a URL. -/
structure HttpClient.ReadsUrls (W : WebhookPlatform) (client : HttpClient) : Prop where
  /-- The authority ends at a slash, a backslash, a question mark or a number sign; its host and
  its port stand behind the last at sign. -/
  connects_eq : ∀ (r : PinnedRequest) (scheme rest : List Char),
    r.url = String.ofList (scheme ++ "://".toList ++ rest) →
    scheme.map Char.toLower ∈ allowedSchemes →
    client.connects r = client.destinations (afterLast '@' (rest.takeWhile isAuthorityChar))
  /-- The literal of an address leads to that address, or nowhere when its zone breaks it. -/
  literal : ∀ ip port, ∀ a ∈ client.destinations
    (afterLast '@' ((ipLiteral W ip ++ portText port).takeWhile isAuthorityChar)), a = ip

/-- How a run of the task ends. -/
inductive CallbackOutcome
  | notConfigured
  | blocked (error : String)
  | raised
  | sent (request : PinnedRequest) (status : ℕ)
  | retried (request : PinnedRequest) (error : String)

/-- The request of a run, if it came to one. -/
def CallbackOutcome.request? : CallbackOutcome → Option PinnedRequest
  | sent request _ | retried request _ => some request
  | notConfigured | blocked _ | raised => none

section Task

variable (W : WebhookPlatform) (client : HttpClient) (getaddrinfo : Resolver) (timestamp : String)

/-- `send_webhook_callback_task`; a rejection by the guard is final, and an error of the transport
is retried. -/
def sendWebhookCallbackTask (applications : Table ConsoleApplication) (call : WebhookCallback) :
    CallbackOutcome :=
  match applications.get? call.applicationId with
  | none => .notConfigured
  | some application =>
    if application.webhookUrl = "" then .notConfigured
    else
      match assertWebhookUrlSafe W getaddrinfo application.webhookUrl with
      | .error (.unsafeWebhookUrl error) => .blocked error
      | .error .valueError => .raised
      | .ok validatedIps =>
        let payloadBytes := client.dumps {
          event := "notification.status_changed"
          notificationId := call.notificationId
          applicationId := application.id
          status := call.finalStatus
          sentAt := call.sentAt
          timestamp }
        let signature := client.signPayload payloadBytes application.webhookSecret
        match postPinned W application.webhookUrl validatedIps
            [("Content-Type", "application/json"), ("X-PushIT-Signature", signature),
              ("X-PushIT-Event", "notification.status_changed")] payloadBytes with
        | .error _ => .raised
        | .ok request =>
          match client.answer request with
          | .ok status => .sent request status
          | .error error => .retried request error

/-- The connections that a run of the task opens. -/
def connectionsOf (outcome : CallbackOutcome) : List Ip.Address :=
  outcome.request?.elim [] client.connects

/-- The URL that a callback goes to. -/
def webhookUrlOf (applications : Table ConsoleApplication) (call : WebhookCallback) : String :=
  (applications.get? call.applicationId).elim "" (·.webhookUrl)

/-- A run of the task opens connections only to addresses that the guard has returned for it, and
these are routable. -/
structure ReachesPublicOnly (applications : Table ConsoleApplication) (call : WebhookCallback) :
    Prop where
  validated : ∀ a ∈ connectionsOf client
      (sendWebhookCallbackTask W client getaddrinfo timestamp applications call),
    ∃ ips, assertWebhookUrlSafe W getaddrinfo (webhookUrlOf applications call) = .ok ips ∧ a ∈ ips
  routable : ∀ ips,
    assertWebhookUrlSafe W getaddrinfo (webhookUrlOf applications call) = .ok ips →
      ∀ ip ∈ ips, ip.GloballyRoutable

/-- The URL has a backslash in its user info, and what stands in front of it leads to an address
that the host does not have. -/
structure LeadsAstray (parts : SplitResult) (ips : List Ip.Address) : Prop where
  port : ∃ port, parts.port = .ok port
  userinfo : ∃ front back, parts.userinfo = front ++ '\\' :: back ∧ '\\' ∉ front ∧
    ∃ a ∈ client.destinations (afterLast '@' front), a ∉ ips

end Task

/-! ### Where a call leads -/

section Reach

variable {W : WebhookPlatform} {client : HttpClient} {getaddrinfo : Resolver} {timestamp : String}
  {applications : Table ConsoleApplication} {call : WebhookCallback} {url : String}
  {parts : SplitResult} {ips : List Ip.Address}

/-- An authority ends in front of a path or a query. -/
theorem takeWhile_unsplitRest (netloc path query : List Char) :
    (unsplitRest netloc path query).takeWhile isAuthorityChar =
      netloc.takeWhile isAuthorityChar := by
  have hrest : ((if path = [] ∨ path.head? = some '/' then path else '/' :: path) ++
      (if query = [] then [] else '?' :: query)).takeWhile isAuthorityChar = [] := by
    have hslash (cs : List Char) : ('/' :: cs).takeWhile isAuthorityChar = [] := rfl
    have hquestion (cs : List Char) : ('?' :: cs).takeWhile isAuthorityChar = [] := rfl
    cases path with
    | nil =>
      rw [if_pos (Or.inl rfl), List.nil_append]
      split
      · rfl
      · exact hquestion query
    | cons c path =>
      by_cases hc : c = '/'
      · subst hc
        have hhead : ('/' :: path).head? = some '/' := rfl
        rw [if_pos (Or.inr hhead)]
        exact hslash _
      · rw [if_neg (by simp [hc])]
        exact hslash _
  rw [unsplitRest, List.takeWhile_append]
  split
  · next h =>
    rw [hrest, List.append_nil]
    exact ((List.takeWhile_prefix isAuthorityChar).eq_of_length h).symm
  · rfl

theorem Admitted.url_ne_empty (h : Admitted W getaddrinfo url parts ips) : url ≠ "" := by
  rintro rfl
  have hsplit := h.split
  have hscheme := h.scheme
  rw [urlsplit] at hsplit
  simp only at hsplit
  split at hsplit
  · obtain rfl := Except.ok.inj hsplit
    exact absurd hscheme (by decide)
  · cases hsplit

/-- What the client reads of the pinned URL: the address, or what stands in front of the first
backslash of the user info. -/
theorem authority_of_pinnedNetloc (hsplit : urlsplit W url = .ok parts) (ip : Ip.Address)
    (port : Option ℕ) :
    ('\\' ∉ parts.userinfo →
      afterLast '@' ((pinnedNetloc W parts ip port).takeWhile isAuthorityChar) =
        afterLast '@' ((ipLiteral W ip ++ portText port).takeWhile isAuthorityChar)) ∧
    ∀ front back, parts.userinfo = front ++ '\\' :: back → '\\' ∉ front →
      (pinnedNetloc W parts ip port).takeWhile isAuthorityChar = front := by
  have huser : ∀ c ∈ parts.userinfo, c ≠ '\\' → isAuthorityChar c = true := by
    intro c hc hne
    have hends := endsNetloc_of_mem hsplit (SplitResult.mem_netloc_of_userinfo hc)
    simp only [endsNetloc, List.contains_eq_mem, decide_eq_false_iff_not] at hends
    simp only [isAuthorityChar, List.contains_eq_mem, Bool.not_eq_true', decide_eq_false_iff_not]
    exact fun hmem => (List.mem_cons.mp hmem).elim hne hends
  constructor
  · intro hnot
    rw [pinnedNetloc]
    split
    · rfl
    · have hall : ∀ c ∈ parts.userinfo, isAuthorityChar c = true := fun c hc =>
        huser c hc fun heq => hnot (heq ▸ hc)
      rw [List.takeWhile_append_of_pos hall, List.takeWhile_cons_of_pos (by decide),
        afterLast_append]
  · intro front back huserinfo hfront
    have hne : parts.userinfo ≠ [] := by simp [huserinfo]
    have hall : ∀ c ∈ front, isAuthorityChar c = true := fun c hc =>
      huser c (by rw [huserinfo]; exact List.mem_append_left _ hc) fun heq => hfront (heq ▸ hc)
    rw [pinnedNetloc, if_neg hne, huserinfo, List.append_assoc, List.takeWhile_append_of_pos hall,
      List.cons_append, List.takeWhile_cons_of_neg (by decide), List.append_nil]

/-- The request of a run whose URL is admitted. -/
theorem request_of_admitted (client : HttpClient) (timestamp : String)
    {application : ConsoleApplication}
    (hget : applications.get? call.applicationId = some application)
    (h : Admitted W getaddrinfo application.webhookUrl parts ips) {ip : Ip.Address}
    {further : List Ip.Address} (hips : ips = ip :: further) :
    ((sendWebhookCallbackTask W client getaddrinfo timestamp applications call).request?.map
        PinnedRequest.url) =
      match parts.port with
      | .ok port =>
        some (urlunsplit parts.scheme (pinnedNetloc W parts ip port) parts.path parts.query)
      | .error _ => none := by
  have hok := assertWebhookUrlSafe_eq_ok_iff.mpr ⟨parts, h⟩
  rw [sendWebhookCallbackTask, hget]
  simp only
  rw [if_neg h.url_ne_empty, hok, hips]
  unfold postPinned
  simp only [h.split]
  cases parts.port with
  | error e => rfl
  | ok port =>
    simp only
    split <;> rfl

/-- Where a run leads whose URL is admitted. -/
theorem connects_of_admitted (hclient : client.ReadsUrls W) {application : ConsoleApplication}
    (hget : applications.get? call.applicationId = some application)
    (h : Admitted W getaddrinfo application.webhookUrl parts ips) {ip : Ip.Address}
    {further : List Ip.Address} (hips : ips = ip :: further) :
    connectionsOf client
        (sendWebhookCallbackTask W client getaddrinfo timestamp applications call) =
      match parts.port with
      | .ok port =>
        client.destinations
          (afterLast '@' ((pinnedNetloc W parts ip port).takeWhile isAuthorityChar))
      | .error _ => [] := by
  have hrequest := request_of_admitted client timestamp hget h hips
  rw [connectionsOf]
  cases hport : parts.port with
  | error e =>
    rw [hport] at hrequest
    rw [Option.map_eq_none_iff.mp hrequest]
    rfl
  | ok port =>
    rw [hport] at hrequest
    obtain ⟨request, hsome, hurl⟩ := Option.map_eq_some_iff.mp hrequest
    rw [hsome]
    simp only [Option.elim_some]
    rw [hclient.connects_eq request _ _ hurl h.scheme, takeWhile_unsplitRest]

/-- A run whose URL the guard refuses opens no connection. -/
theorem connects_of_refused
    (h : ∀ ips, assertWebhookUrlSafe W getaddrinfo (webhookUrlOf applications call) ≠ .ok ips) :
    connectionsOf client
      (sendWebhookCallbackTask W client getaddrinfo timestamp applications call) = [] := by
  have hnone : (sendWebhookCallbackTask W client getaddrinfo timestamp applications
      call).request? = none := by
    rw [sendWebhookCallbackTask]
    rw [webhookUrlOf] at h
    cases hget : applications.get? call.applicationId with
    | none => rfl
    | some application =>
      rw [hget, Option.elim_some] at h
      simp only
      split
      · rfl
      · split
        · rfl
        · rfl
        · next ips hok => exact absurd hok (h ips)
  rw [connectionsOf, hnone]
  rfl

theorem exists_application_of_admitted
    (h : Admitted W getaddrinfo (webhookUrlOf applications call) parts ips) :
    ∃ application, applications.get? call.applicationId = some application ∧
      webhookUrlOf applications call = application.webhookUrl := by
  have hne := h.url_ne_empty
  rw [webhookUrlOf] at hne ⊢
  cases hget : applications.get? call.applicationId with
  | none => rw [hget] at hne; exact absurd rfl hne
  | some application => exact ⟨application, rfl, rfl⟩

/-- Without a backslash that leads astray, an admitted URL leads to its addresses. -/
theorem mem_of_connects (hclient : client.ReadsUrls W)
    (h : Admitted W getaddrinfo (webhookUrlOf applications call) parts ips)
    (hastray : ¬ LeadsAstray client parts ips) {a : Ip.Address}
    (ha : a ∈ connectionsOf client
      (sendWebhookCallbackTask W client getaddrinfo timestamp applications call)) : a ∈ ips := by
  obtain ⟨application, hget, hurl⟩ := exists_application_of_admitted h
  obtain ⟨ip, further, rfl⟩ := List.exists_cons_of_ne_nil (resolveHostIps_ne_nil h.resolved)
  rw [hurl] at h
  rw [connects_of_admitted hclient hget h rfl] at ha
  cases hport : parts.port with
  | error e => rw [hport] at ha; exact absurd ha List.not_mem_nil
  | ok port =>
    rw [hport] at ha
    simp only at ha
    obtain ⟨hplain, hbackslash⟩ := authority_of_pinnedNetloc h.split ip port
    by_cases hmem : '\\' ∈ parts.userinfo
    · obtain ⟨front, back, huserinfo, hfront⟩ := List.eq_append_cons_of_mem hmem
      rw [hbackslash front back huserinfo hfront] at ha
      by_contra hnot
      exact hastray ⟨⟨port, hport⟩, front, back, huserinfo, hfront, a, ha, hnot⟩
    · rw [hplain hmem] at ha
      rw [hclient.literal ip port a ha]
      exact List.mem_cons_self

end Reach

/-! ### A sample -/

namespace Sample

/-- The addresses of the sample, with their texts. -/
def addresses : List (String × BitVec 32) :=
  [("93.184.216.34", Ip.ipv4 93 184 216 34), ("127.0.0.1", Ip.ipv4 127 0 0 1),
    ("100.64.0.1", Ip.ipv4 100 64 0 1)]

def addressOf (text : String) : Option Ip.Address := (addresses.lookup text).map .v4

def compressed : Ip.Address → String
  | .v4 ip => ((addresses.find? (·.2 = ip)).map (·.1)).getD "other"
  | .v6 _ _ => "other"

def webhookPlatform : WebhookPlatform where
  lower s := String.ofList (s.toList.map Char.toLower)
  ipAddress := addressOf
  compressed := compressed
  checkNetloc _ := true

/-- A client that knows the addresses of the sample. -/
def destinations (cs : List Char) : List Ip.Address :=
  (addressOf (String.ofList (partition ':' cs).1)).toList

def httpClient : HttpClient where
  destinations := destinations
  connects r :=
    let scheme := (partition ':' r.url.toList).1
    destinations
      (afterLast '@' ((r.url.toList.drop (scheme.length + 3)).takeWhile isAuthorityChar))
  answer _ := .ok 204
  dumps _ := []
  signPayload _ _ := "signature"

/-- A resolver without names. -/
def resolver : Resolver := fun _ => .error .gaierror

/-- The text of an address is read as that address, or not at all. -/
theorem compressed_spec (ip : Ip.Address) :
    (∀ a ∈ addressOf (compressed ip), a = ip) ∧
      ∀ c ∈ (compressed ip).toList, isAuthorityChar c = true ∧ c ≠ '@' ∧ c ≠ ':' := by
  have hother : addressOf "other" = none ∧ ∀ c ∈ "other".toList,
      isAuthorityChar c = true ∧ c ≠ '@' ∧ c ≠ ':' := ⟨by decide, forall_mem_of_all (by decide)⟩
  have hknown : ∀ e ∈ addresses, addressOf e.1 = some (.v4 e.2) ∧
      (e.1.toList.all fun c => decide (isAuthorityChar c = true ∧ c ≠ '@' ∧ c ≠ ':')) = true := by
    decide
  cases ip with
  | v6 ip scopeId =>
    rw [compressed, hother.1]
    exact ⟨fun a ha => (by cases ha), hother.2⟩
  | v4 ip =>
    rw [compressed]
    cases hfind : addresses.find? (·.2 = ip) with
    | none =>
      rw [Option.map_none, Option.getD_none, hother.1]
      exact ⟨fun a ha => (by cases ha), hother.2⟩
    | some e =>
      obtain ⟨htext, hchars⟩ := hknown e (List.mem_of_find?_eq_some hfind)
      have hip : e.2 = ip := by simpa using List.find?_some hfind
      rw [Option.map_some, Option.getD_some, htext, hip]
      exact ⟨fun a ha => (Option.mem_some_iff.mp ha).symm, forall_mem_of_all hchars⟩

/-- A port is digits behind a colon. -/
theorem portText_spec (port : Option ℕ) :
    (portText port = [] ∨ ∃ digits, portText port = ':' :: digits) ∧
      ∀ c ∈ portText port, isAuthorityChar c = true ∧ c ≠ '@' := by
  cases port with
  | none => exact ⟨Or.inl rfl, fun c hc => absurd hc List.not_mem_nil⟩
  | some port =>
    refine ⟨Or.inr ⟨_, rfl⟩, fun c hc => ?_⟩
    rcases List.mem_cons.mp hc with rfl | hc
    · decide
    · have hdigit : c.isDigit := by
        have hmem : c ∈ Nat.toDigits 10 port := by simpa using hc
        exact Nat.isDigit_of_mem_toDigits (by omega) (by omega) hmem
      have hnot : ∀ d ∈ ['\\', '/', '?', '#', '@'], d.isDigit = false :=
        forall_mem_of_all (by decide)
      have hmem : c ∉ ['\\', '/', '?', '#', '@'] := fun hmem => by
        rw [hnot c hmem] at hdigit
        exact Bool.false_ne_true hdigit
      refine ⟨?_, fun heq => hmem (by simp [heq])⟩
      simp only [isAuthorityChar, List.contains_eq_mem, Bool.not_eq_true', decide_eq_false_iff_not]
      exact fun hstop => hmem (List.mem_append_left ['@'] hstop)

/-- What the client reads of a literal with a port. -/
theorem destinations_literal {literal : List Char}
    (h : ∀ c ∈ literal, isAuthorityChar c = true ∧ c ≠ '@' ∧ c ≠ ':') (port : Option ℕ) :
    destinations (afterLast '@' ((literal ++ portText port).takeWhile isAuthorityChar)) =
      (addressOf (String.ofList literal)).toList := by
  obtain ⟨hport, hchars⟩ := portText_spec port
  have hall : ∀ c ∈ literal ++ portText port, isAuthorityChar c = true ∧ c ≠ '@' := by
    intro c hc
    rcases List.mem_append.mp hc with hc | hc
    · exact ⟨(h c hc).1, (h c hc).2.1⟩
    · exact hchars c hc
  have hat : '@' ∉ literal ++ portText port := fun hmem => (hall '@' hmem).2 rfl
  have hcolon : ':' ∉ literal := fun hmem => (h ':' hmem).2.2 rfl
  have hfirst : (partition ':' (literal ++ portText port)).1 = literal := by
    rcases hport with hport | ⟨digits, hport⟩
    · rw [hport, List.append_nil, partition, splitFirst_eq_none hcolon]
      rfl
    · rw [hport, partition, splitFirst_append hcolon]
      rfl
  rw [List.takeWhile_eq_self_iff.mpr fun c hc => (hall c hc).1, afterLast_eq_self hat,
    destinations, hfirst]

theorem httpClient_readsUrls : httpClient.ReadsUrls webhookPlatform where
  connects_eq r scheme rest hurl hscheme := by
    have hcolon : ':' ∉ scheme := by
      intro hmem
      have hlower : ':' ∈ scheme.map Char.toLower := List.mem_map.mpr ⟨':', hmem, by decide⟩
      have hnot : ∀ s ∈ allowedSchemes, ':' ∉ s := by decide
      exact hnot _ hscheme hlower
    have htext : r.url.toList = scheme ++ ':' :: ('/' :: '/' :: rest) := by
      rw [hurl]
      simp
    have hpartition : (partition ':' r.url.toList).1 = scheme := by
      rw [htext, partition, splitFirst_append hcolon]
      rfl
    have hrest : r.url.toList.drop (scheme.length + 3) = rest := by
      rw [htext, ← List.drop_drop, List.drop_left]
      rfl
    simp only [httpClient]
    rw [hpartition, hrest]
  literal ip port a ha := by
    obtain ⟨haddress, hchars⟩ := compressed_spec ip
    have hdestinations : httpClient.destinations = destinations := rfl
    rw [hdestinations] at ha
    cases ip with
    | v4 ip =>
      have hliteral : ipLiteral webhookPlatform (.v4 ip) = (compressed (.v4 ip)).toList := rfl
      rw [hliteral, destinations_literal hchars, String.ofList_toList] at ha
      exact haddress a (Option.mem_toList.mp ha)
    | v6 ip scopeId =>
      have hbracket : ∀ c ∈ '[' :: ("other".toList ++ [']']),
          isAuthorityChar c = true ∧ c ≠ '@' ∧ c ≠ ':' := forall_mem_of_all (by decide)
      have hnone : addressOf (String.ofList ('[' :: ("other".toList ++ [']']))) = none := by decide
      have hliteral : ipLiteral webhookPlatform (.v6 ip scopeId) =
          '[' :: ("other".toList ++ [']']) := rfl
      rw [hliteral, destinations_literal hbracket, hnone] at ha
      exact absurd ha List.not_mem_nil

/-- An application whose callbacks go to a URL. -/
def callbackApplication (webhookUrl : String) : ConsoleApplication where
  id := 1
  ownerId := 1
  appTokenPrefix := "apt_"
  appTokenHash := "h"
  enrolmentCode := "apk_"
  inboundEmailAlias := "app-1.pushit"
  inboundEmailSuffix := "1"
  webhookSecret := "whs_"
  webhookUrl := webhookUrl

def callbackApplications (webhookUrl : String) : Table ConsoleApplication where
  rows := [callbackApplication webhookUrl]
  seq := 1
  sorted := List.pairwise_singleton _ _
  bounded r hr := by
    obtain rfl := List.mem_singleton.mp hr
    exact le_rfl

def callback : WebhookCallback where
  applicationId := 1
  notificationId := 7
  finalStatus := "sent"

end Sample

/-! ### Public addresses only -/

/-- A run reaches validated, routable addresses only, exactly when no admitted address is shared
and the user info leads nowhere else. -/
theorem webhooks_reach_public_only_iff {W : WebhookPlatform} {client : HttpClient}
    (hclient : client.ReadsUrls W) (getaddrinfo : Resolver) (timestamp : String)
    (applications : Table ConsoleApplication) (call : WebhookCallback) :
    ReachesPublicOnly W client getaddrinfo timestamp applications call ↔
      ∀ parts ips, Admitted W getaddrinfo (webhookUrlOf applications call) parts ips →
        (∀ ip ∈ ips, ip.isShared = false) ∧ ¬ LeadsAstray client parts ips := by
  constructor
  · intro h parts ips hadmitted
    have hok := assertWebhookUrlSafe_eq_ok_iff.mpr ⟨parts, hadmitted⟩
    refine ⟨fun ip hip => (hadmitted.globallyRoutable_iff hip).mp (h.routable ips hok ip hip), ?_⟩
    rintro ⟨⟨port, hport⟩, front, back, huserinfo, hfront, a, ha, hnot⟩
    obtain ⟨application, hget, hurl⟩ := exists_application_of_admitted hadmitted
    obtain ⟨ip, further, hips⟩ :=
      List.exists_cons_of_ne_nil (resolveHostIps_ne_nil hadmitted.resolved)
    rw [hurl] at hadmitted
    have hconnects : a ∈ connectionsOf client
        (sendWebhookCallbackTask W client getaddrinfo timestamp applications call) := by
      rw [connects_of_admitted hclient hget hadmitted hips, hport]
      simp only
      rw [(authority_of_pinnedNetloc hadmitted.split ip port).2 front back huserinfo hfront]
      exact ha
    obtain ⟨ips', hok', ha'⟩ := h.validated a hconnects
    obtain rfl := Except.ok.inj (hok.symm.trans hok')
    exact hnot ha'
  · intro h
    constructor
    · intro a ha
      by_cases hrefused : ∀ ips,
          assertWebhookUrlSafe W getaddrinfo (webhookUrlOf applications call) ≠ .ok ips
      · rw [connects_of_refused hrefused] at ha
        exact absurd ha List.not_mem_nil
      · push Not at hrefused
        obtain ⟨ips, hok⟩ := hrefused
        obtain ⟨parts, hadmitted⟩ := assertWebhookUrlSafe_eq_ok_iff.mp hok
        exact ⟨ips, hok, mem_of_connects hclient hadmitted (h parts ips hadmitted).2 ha⟩
    · intro ips hok ip hip
      obtain ⟨parts, hadmitted⟩ := assertWebhookUrlSafe_eq_ok_iff.mp hok
      exact (hadmitted.globallyRoutable_iff hip).mpr ((h parts ips hadmitted).1 ip hip)

/-- A callback to a public address. -/
theorem sample_webhook_reaches_public_only :
    ReachesPublicOnly Sample.webhookPlatform Sample.httpClient Sample.resolver "now"
      (Sample.callbackApplications "http://93.184.216.34/hook") Sample.callback :=
  (webhooks_reach_public_only_iff Sample.httpClient_readsUrls Sample.resolver "now"
    (Sample.callbackApplications "http://93.184.216.34/hook") Sample.callback).mpr
    fun parts ips h => by
      have hurl : webhookUrlOf (Sample.callbackApplications "http://93.184.216.34/hook")
          Sample.callback = "http://93.184.216.34/hook" := by decide
      rw [hurl] at h
      have hips : assertWebhookUrlSafe Sample.webhookPlatform Sample.resolver
          "http://93.184.216.34/hook" = .ok [.v4 (Ip.ipv4 93 184 216 34)] := by decide
      have hparts : urlsplit Sample.webhookPlatform "http://93.184.216.34/hook" =
          .ok ⟨"http".toList, "93.184.216.34".toList, "/hook".toList, [], []⟩ := by decide
      obtain rfl := Except.ok.inj ((assertWebhookUrlSafe_eq_ok_iff.mpr ⟨parts, h⟩).symm.trans hips)
      obtain rfl := Except.ok.inj (h.split.symm.trans hparts)
      refine ⟨by decide, ?_⟩
      rintro ⟨-, front, back, huserinfo, -⟩
      have hempty : '\\' ∈ ([] : List Char) := by
        rw [show ([] : List Char) = front ++ '\\' :: back from huserinfo]
        exact List.mem_append_right _ List.mem_cons_self
      exact absurd hempty List.not_mem_nil

/-- The guard lets a shared address pass, and user info with a backslash leads a callback to the
server itself. -/
theorem shared_and_loopback_reached :
    (assertWebhookUrlSafe Sample.webhookPlatform Sample.resolver "http://100.64.0.1/hook" =
        .ok [.v4 (Ip.ipv4 100 64 0 1)] ∧
      ¬ (Ip.Address.v4 (Ip.ipv4 100 64 0 1)).GloballyRoutable) ∧
    connectionsOf Sample.httpClient
        (sendWebhookCallbackTask Sample.webhookPlatform Sample.httpClient Sample.resolver "now"
          (Sample.callbackApplications "http://127.0.0.1\\@93.184.216.34/hook")
          Sample.callback) = [.v4 (Ip.ipv4 127 0 0 1)] ∧
      ¬ ReachesPublicOnly Sample.webhookPlatform Sample.httpClient Sample.resolver "now"
        (Sample.callbackApplications "http://127.0.0.1\\@93.184.216.34/hook")
        Sample.callback := by
  have hconnects : connectionsOf Sample.httpClient
      (sendWebhookCallbackTask Sample.webhookPlatform Sample.httpClient Sample.resolver "now"
        (Sample.callbackApplications "http://127.0.0.1\\@93.184.216.34/hook")
        Sample.callback) = [.v4 (Ip.ipv4 127 0 0 1)] := by decide
  have hvalidated : assertWebhookUrlSafe Sample.webhookPlatform Sample.resolver
      (webhookUrlOf (Sample.callbackApplications "http://127.0.0.1\\@93.184.216.34/hook")
        Sample.callback) = .ok [.v4 (Ip.ipv4 93 184 216 34)] := by decide
  refine ⟨⟨by decide, fun h => ?_⟩, hconnects, fun h => ?_⟩
  · exact absurd h.isShared_eq_false (by decide)
  · obtain ⟨ips, hok, hmem⟩ := h.validated (.v4 (Ip.ipv4 127 0 0 1)) (by
      rw [hconnects]
      exact List.mem_singleton_self _)
    obtain rfl := Except.ok.inj (hvalidated.symm.trans hok)
    exact absurd hmem (by decide)

end PushIT
