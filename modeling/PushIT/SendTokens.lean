import PushIT.AccountSecurity
import PushIT.Crypto
import PushIT.Library.Admission
import PushIT.Library.References
import PushIT.Library.Refinement
import PushIT.Library.Rest
import PushIT.Billing
import PushIT.Queueing
import PushIT.Separation

/-!
# Send tokens

`applications/models_send_token.py`, `applications/api_views_send_tokens.py` and the part of
`applications/authentication.py` that opens sends: the owner of an application creates named
tokens, reads one again after giving the password once more, and revokes them one by one.  The
requests interleave: a creation counts the active tokens before it inserts one, a revocation saves
an instance it loaded, and a reveal writes its journal before it answers.  Meanwhile the keys of
the readable copies change, and accounts and applications come and go.

## Main definitions

* `StoredSendToken`, `SendTokenReveal`: the rows.
* `SendTokenDesk`, `SendTokenDesk.step`, `sendTokenDesk`: the requests, statement by statement.
* `SendTokenDesk.Steps`: what an action can do.

## Main results

* `SendTokenDesk.step_cases`: nothing else happens.
* `send_tokens_capped`: how many active tokens an application can have.
-/

namespace PushIT

open Relational Transition

/-! ### Rows -/

/-- A send token with its readable copy. -/
structure StoredSendToken extends AppSendToken where
  secretEncrypted : List UInt8 := []
  deriving DecidableEq, Repr

/-- A line of the journal of reveals; the actor is `none` after the account was deleted. -/
structure SendTokenReveal where
  id : ℕ
  tokenId : ℕ
  actor : Option ℕ
  actorLabel : String
  createdAt : Instant
  deriving DecidableEq, Repr

instance : Keyed StoredSendToken := ⟨fun t => t.id⟩
instance : Keyed SendTokenReveal := ⟨SendTokenReveal.id⟩

@[simp] theorem pk_storedSendToken (t : StoredSendToken) : pk t = t.id := rfl
@[simp] theorem pk_sendTokenReveal (r : SendTokenReveal) : pk r = r.id := rfl

/-- `AppSendToken.is_active`. -/
def StoredSendToken.isActive (t : StoredSendToken) : Bool := t.revokedAt.isNone

/-! ### Requests -/

inductive TokenRequest
  | create (user applicationId : ℕ) (body : Json)
  | revoke (user applicationId tokenId : ℕ)
  | reveal (user applicationId tokenId : ℕ) (password : String)
  /-- A string is presented to send. -/
  | send (rawToken : Option String)

/-- A request between two of its statements. -/
inductive TokenProcess
  /-- The application is loaded; the count comes next. -/
  | counting (applicationId : ℕ) (body : Json)
  /-- Fewer tokens are active than may be. -/
  | issuing (applicationId : ℕ) (name : String)
  /-- An instance that is not revoked is loaded. -/
  | revoking (tokenId : ℕ)
  /-- The password was right. -/
  | revealing (user : User) (applicationId tokenId : ℕ)
  /-- The copy is read, and not yet shown. -/
  | journalling (tokenId : ℕ) (user : User) (raw : String)
  /-- A token opened a send; its use is stored next. -/
  | stamping (tokenId : ℕ)

/-- What the random generators give a statement. -/
structure TokenInput where
  raw : SendToken
  entropy : ℕ := 0

/-- What an action leaves in the history; no action reads it. -/
inductive TokenEvent (Key : Type)
  /-- A creation answered with the token, whose copy is under this key. -/
  | issued (tokenId : ℕ) (raw : String) (key : Option Key)
  | revoked (tokenId : ℕ)
  | revealed (tokenId user : ℕ) (label raw : String) (at_ : Instant)
  | opened (tokenId : ℕ) (raw : String)
  | refused (httpStatus : ℕ) (code : String)
  /-- An exception reached the caller. -/
  | raised
  deriving DecidableEq, Repr

/-- The tokens of all applications, with what their requests read. -/
structure SendTokenDesk (Key : Type) where
  clock : Instant
  /-- `APP_TOKEN_ENCRYPTION_KEYS`. -/
  keys : List String := []
  users : Table User := .empty
  applications : Table Application := .empty
  tokens : Table StoredSendToken := .empty
  reveals : Table SendTokenReveal := .empty
  processes : Pool TokenProcess := .idle
  /-- The newest event comes first. -/
  history : List (TokenEvent Key) := []

inductive TokenAction
  | tick (duration : ℕ)
  /-- The server is configured with other keys. -/
  | configure (keys : List String)
  /-- An account is created or changed. -/
  | putUser (user : User)
  | deleteUser (id : ℕ)
  /-- An application is created or changed. -/
  | putApplication (application : Application)
  | deleteApplication (id : ℕ)
  | request (rid : ℕ) (r : TokenRequest)
  | advance (rid : ℕ) (input : TokenInput)

/-- `(request.data.get("name") or "").strip()`; `none` when it raises. -/
def tokenName : Json → Option String
  | .object members =>
    if (Payload.get members "name").truthy then
      match Payload.get members "name" with
      | .string name => some (strip name)
      | _ => none
    else some ""
  | _ => none

/-- A send token as `issue` creates it. -/
def issuedToken (sha256 : ByteArray → String) (now : Instant) (applicationId : ℕ)
    (name raw : String) (blob : List UInt8) (id : ℕ) : StoredSendToken :=
  { id
    applicationId
    name
    tokenPrefix := String.ofList (raw.toList.take 12)
    tokenHash := hashRaw sha256 raw
    createdAt := now
    secretEncrypted := blob }

theorem pk_issuedToken (sha256 : ByteArray → String) (now : Instant) (applicationId : ℕ)
    (name raw : String) (blob : List UInt8) (id : ℕ) :
    pk (issuedToken sha256 now applicationId name raw blob id) = id := rfl

/-- The save of `revoke`. -/
def revokeToken (now : Instant) (t : StoredSendToken) : StoredSendToken :=
  { t with revokedAt := some now }

theorem pk_revokeToken (now : Instant) (t : StoredSendToken) : pk (revokeToken now t) = pk t := rfl

/-- The use of a token. -/
def stampToken (now : Instant) (t : StoredSendToken) : StoredSendToken :=
  { t with lastUsedAt := some now }

theorem pk_stampToken (now : Instant) (t : StoredSendToken) : pk (stampToken now t) = pk t := rfl

namespace SendTokenDesk

variable {Key : Type} (django : Django) (sha256 : ByteArray → String) (F : Fernet Key)
  (s : SendTokenDesk Key)

/-! ### What the requests read -/

/-- `get_application`. -/
def ownApplication (user id : ℕ) : Option Application :=
  (s.applications.get? id).filter (·.ownerId == user)

/-- The token of an application of the user. -/
def ownToken (user applicationId tokenId : ℕ) : Option StoredSendToken :=
  (s.ownApplication user applicationId).bind fun a =>
    (s.tokens.get? tokenId).filter (·.applicationId == a.id)

/-- `application.send_tokens.filter(revoked_at__isnull=True).count()`. -/
def activeTokens (applicationId : ℕ) : ℕ :=
  (s.tokens.select fun t => t.applicationId == applicationId && t.isActive).length

/-- `authenticate` by the address of the user: the first account with it. -/
def authenticate (user : User) (password : String) : Option User :=
  (s.users.rows.find? fun u => u.email == user.email).filter fun u =>
    django.checkPassword password u.password && u.isActive

/-- `get_application_for_raw_app_token`, with the token it found. -/
def authenticateSend (rawToken : Option String) :
    Except AuthRefusal (StoredSendToken × Application) :=
  match rawToken.filter (· != "") with
  | none => .error (authenticationFailed "Missing app token." "app_token_missing")
  | some raw =>
    if !startsWith "apt_" raw then
      .error (authenticationFailed "Invalid app token format." "app_token_invalid_format")
    else
      match (s.tokens.rows.find? fun t => t.tokenHash == hashRaw sha256 raw).bind fun t =>
          (s.applications.get? t.applicationId).map fun a => (t, a) with
      | some (token, application) =>
        if token.revokedAt.isSome then
          .error (authenticationFailed "Revoked app token." "app_token_revoked")
        else if !application.isActive then
          .error (authenticationFailed "Inactive application." "app_token_inactive")
        else .ok (token, application)
      | none =>
        .error (authenticationFailed
          ("This application token no longer authorises sending. " ++
            "Create a send token from the console and use it instead.")
          "app_token_retired")

/-! ### The requests -/

/-- A request ends with an answer. -/
def answered (rid : ℕ) (event : TokenEvent Key) : SendTokenDesk Key :=
  { s with processes := s.processes.set rid none, history := event :: s.history }

/-- A request goes on. -/
def goesOn (rid : ℕ) (p : TokenProcess) : SendTokenDesk Key :=
  { s with processes := s.processes.set rid (some p) }

/-- The first statements of a request. -/
def begin (rid : ℕ) : TokenRequest → SendTokenDesk Key
  | .create user applicationId body =>
    match authenticated s.users user with
    | none => s.answered rid (.refused 401 "not_authenticated")
    | some u =>
      match s.ownApplication u.id applicationId with
      | none => s.answered rid (.refused 404 "not_found")
      | some a => s.goesOn rid (.counting a.id body)
  | .revoke user applicationId tokenId =>
    match authenticated s.users user with
    | none => s.answered rid (.refused 401 "not_authenticated")
    | some u =>
      match s.ownToken u.id applicationId tokenId with
      | none => s.answered rid (.refused 404 "not_found")
      | some t =>
        -- a revoked token keeps its date
        if t.isActive then s.goesOn rid (.revoking t.id) else s.answered rid (.revoked t.id)
  | .reveal user applicationId tokenId password =>
    match authenticated s.users user with
    | none => s.answered rid (.refused 401 "not_authenticated")
    | some u =>
      match s.authenticate django u password with
      | none => s.answered rid (.refused 403 "invalid_password")
      | some _ => s.goesOn rid (.revealing u applicationId tokenId)
  | .send rawToken =>
    match s.authenticateSend sha256 rawToken with
    | .error refusal => s.answered rid (.refused refusal.httpStatus refusal.code)
    | .ok (t, _) =>
      { s.goesOn rid (.stamping t.id) with
        history := .opened t.id (rawToken.getD "") :: s.history }

/-- The next statement of a request. -/
def advance (rid : ℕ) (input : TokenInput) : TokenProcess → SendTokenDesk Key
  | .counting applicationId body =>
    if maxTokensPerApplication ≤ s.activeTokens applicationId then
      s.answered rid (.refused 409 "too_many_send_tokens")
    else
      match tokenName body with
      | none => s.answered rid .raised
      | some name =>
        if name = "" then s.answered rid (.refused 400 "missing_name")
        else s.goesOn rid (.issuing applicationId (String.ofList (name.toList.take 60)))
  | .issuing applicationId name =>
    match encrypt F s.keys input.entropy input.raw.raw with
    | .error _ => s.answered rid .raised
    | .ok blob =>
      -- the foreign key, and the unique hash
      if (s.applications.get? applicationId).isNone ||
          s.tokens.rows.any (·.tokenHash == hashRaw sha256 input.raw.raw) then
        s.answered rid .raised
      else
        { s.answered rid (.issued (s.tokens.seq + 1) input.raw.raw (firstKey F s.keys)) with
          tokens := s.tokens.insert
            (issuedToken sha256 s.clock applicationId name input.raw.raw blob)
            (pk_issuedToken sha256 s.clock applicationId name input.raw.raw blob) }
  | .revoking tokenId =>
    if (s.tokens.get? tokenId).isSome then
      { s.answered rid (.revoked tokenId) with
        tokens := s.tokens.modify tokenId (revokeToken s.clock) (pk_revokeToken s.clock) }
    else s.answered rid .raised
  | .revealing user applicationId tokenId =>
    match s.ownToken user.id applicationId tokenId with
    | none => s.answered rid (.refused 404 "not_found")
    | some t =>
      match decrypt F s.keys t.secretEncrypted with
      | .ok raw => s.goesOn rid (.journalling t.id user raw)
      | .error (.revealUnavailable _) => s.answered rid (.refused 503 "reveal_unavailable")
      | .error .improperlyConfigured => s.answered rid .raised
  | .journalling tokenId user raw =>
    if (s.tokens.get? tokenId).isSome && (s.users.get? user.id).isSome then
      { s.answered rid (.revealed tokenId user.id user.email raw s.clock) with
        reveals := s.reveals.insert
          (fun id => { id, tokenId, actor := some user.id, actorLabel := user.email,
                       createdAt := s.clock }) (fun _ => rfl) }
    else s.answered rid .raised
  | .stamping tokenId =>
    { s with
      processes := s.processes.set rid none
      tokens := s.tokens.modify tokenId (stampToken s.clock) (pk_stampToken s.clock) }

/-! ### The transition system -/

/-- The cascade of deleting applications: their tokens, with the journals of these. -/
def deleteApplications (p : Application → Bool) : SendTokenDesk Key :=
  let gone : StoredSendToken → Bool := fun t => (s.applications.get? t.applicationId).any p
  { s with
    applications := s.applications.delete p
    tokens := s.tokens.delete gone
    reveals := s.reveals.delete fun r => (s.tokens.get? r.tokenId).any gone }

/-- The journal forgets an account, and keeps its label. -/
def forgetActor (user : ℕ) (r : SendTokenReveal) : SendTokenReveal :=
  { r with actor := r.actor.filter (· != user) }

/-- One action; `none` when nothing can perform it. -/
def step (s : SendTokenDesk Key) : TokenAction → Option (SendTokenDesk Key)
  | .tick duration => some { s with clock := s.clock + duration }
  | .configure keys => some { s with keys }
  | .putUser user => some { s with users := s.users.put user }
  | .deleteUser id =>
    some
      { s.deleteApplications fun a => a.ownerId == id with
        users := s.users.delete fun u => u.id == id
        reveals := (s.deleteApplications fun a => a.ownerId == id).reveals.update (fun _ => true)
          (forgetActor id) (fun _ => rfl) }
  | .putApplication application => some { s with applications := s.applications.put application }
  | .deleteApplication id => some (s.deleteApplications fun a => a.id == id)
  | .request rid r =>
    if (s.processes rid).isNone then some (s.begin django sha256 rid r) else none
  | .advance rid input => (s.processes rid).map (s.advance sha256 F rid input)

end SendTokenDesk

/-- The send tokens as a transition system. -/
def sendTokenDesk {Key : Type} (django : Django) (sha256 : ByteArray → String)
    (F : Fernet Key) : System (SendTokenDesk Key) TokenAction :=
  ⟨SendTokenDesk.step django sha256 F⟩

/-! ### What an action can do -/

/-- An answer that shows nothing and changes nothing. -/
def TokenEvent.isRefusal {Key : Type} : TokenEvent Key → Bool
  | .refused _ _ | .raised => true
  | _ => false

/-- The process that performs the action. -/
def TokenAction.process? : TokenAction → Option ℕ
  | .request rid _ | .advance rid _ => some rid
  | _ => none

/-- A process that a request begins with. -/
def TokenProcess.isFirst : TokenProcess → Bool
  | .counting _ _ | .revoking _ | .revealing _ _ _ => true
  | _ => false

namespace SendTokenDesk

variable {Key : Type} {django : Django} {sha256 : ByteArray → String} {F : Fernet Key}
  {s t : SendTokenDesk Key}

/-- What the actions do. -/
inductive Steps (sha256 : ByteArray → String) (F : Fernet Key) (s : SendTokenDesk Key) :
    TokenAction → SendTokenDesk Key → Prop
  | tick (duration : ℕ) : Steps sha256 F s (.tick duration) { s with clock := s.clock + duration }
  | configure (keys : List String) : Steps sha256 F s (.configure keys) { s with keys }
  | putUser (user : User) : Steps sha256 F s (.putUser user) { s with users := s.users.put user }
  | deleteUser (id : ℕ) :
      Steps sha256 F s (.deleteUser id)
        { s.deleteApplications fun a => a.ownerId == id with
          users := s.users.delete fun u => u.id == id
          reveals := (s.deleteApplications fun a => a.ownerId == id).reveals.update
            (fun _ => true) (forgetActor id) (fun _ => rfl) }
  | putApplication (a : Application) :
      Steps sha256 F s (.putApplication a) { s with applications := s.applications.put a }
  | deleteApplication (id : ℕ) :
      Steps sha256 F s (.deleteApplication id) (s.deleteApplications fun a => a.id == id)
  | began (rid : ℕ) (r : TokenRequest) (p : TokenProcess) (hrid : s.processes rid = none)
      (hp : p.isFirst = true) : Steps sha256 F s (.request rid r) (s.goesOn rid p)
  | refused (a : TokenAction) (rid : ℕ) (event : TokenEvent Key) (ha : a.process? = some rid)
      (hevent : event.isRefusal = true)
      (hrid : ∀ applicationId name, s.processes rid ≠ some (.issuing applicationId name)) :
      Steps sha256 F s a (s.answered rid event)
  | alreadyRevoked (rid : ℕ) (r : TokenRequest) (t : StoredSendToken)
      (hrid : s.processes rid = none) (ht : t ∈ s.tokens.rows) (hrevoked : t.isActive = false) :
      Steps sha256 F s (.request rid r) (s.answered rid (.revoked t.id))
  | opened (rid : ℕ) (raw : String) (t : StoredSendToken) (a : Application)
      (hrid : s.processes rid = none) (h : s.authenticateSend sha256 (some raw) = .ok (t, a)) :
      Steps sha256 F s (.request rid (.send (some raw)))
        { s.goesOn rid (.stamping t.id) with history := .opened t.id raw :: s.history }
  | admitted (rid : ℕ) (input : TokenInput) (applicationId : ℕ) (body : Json) (name : String)
      (hrid : s.processes rid = some (.counting applicationId body))
      (hfree : s.activeTokens applicationId < maxTokensPerApplication) :
      Steps sha256 F s (.advance rid input) (s.goesOn rid (.issuing applicationId name))
  | issued (rid : ℕ) (input : TokenInput) (applicationId : ℕ) (name : String)
      (blob : List UInt8) (hrid : s.processes rid = some (.issuing applicationId name))
      (hblob : encrypt F s.keys input.entropy input.raw.raw = .ok blob)
      (happlication : (s.applications.get? applicationId).isSome)
      (hhash : ∀ t ∈ s.tokens.rows, t.tokenHash ≠ hashRaw sha256 input.raw.raw) :
      Steps sha256 F s (.advance rid input)
        { s.answered rid (.issued (s.tokens.seq + 1) input.raw.raw (firstKey F s.keys)) with
          tokens := s.tokens.insert
            (issuedToken sha256 s.clock applicationId name input.raw.raw blob)
            (pk_issuedToken sha256 s.clock applicationId name input.raw.raw blob) }
  | dropped (rid : ℕ) (input : TokenInput) (applicationId : ℕ) (name : String)
      (hrid : s.processes rid = some (.issuing applicationId name)) :
      Steps sha256 F s (.advance rid input) (s.answered rid .raised)
  | revoked (rid : ℕ) (input : TokenInput) (tokenId : ℕ)
      (hrid : s.processes rid = some (.revoking tokenId))
      (htoken : (s.tokens.get? tokenId).isSome) :
      Steps sha256 F s (.advance rid input)
        { s.answered rid (.revoked tokenId) with
          tokens := s.tokens.modify tokenId (revokeToken s.clock) (pk_revokeToken s.clock) }
  | read (rid : ℕ) (input : TokenInput) (user : User) (applicationId tokenId : ℕ)
      (t : StoredSendToken) (raw : String)
      (hrid : s.processes rid = some (.revealing user applicationId tokenId))
      (ht : t ∈ s.tokens.rows) (hraw : decrypt F s.keys t.secretEncrypted = .ok raw) :
      Steps sha256 F s (.advance rid input) (s.goesOn rid (.journalling t.id user raw))
  | journalled (rid : ℕ) (input : TokenInput) (tokenId : ℕ) (user : User) (raw : String)
      (hrid : s.processes rid = some (.journalling tokenId user raw))
      (htoken : (s.tokens.get? tokenId).isSome) :
      Steps sha256 F s (.advance rid input)
        { s.answered rid (.revealed tokenId user.id user.email raw s.clock) with
          reveals := s.reveals.insert
            (fun id => { id, tokenId, actor := some user.id, actorLabel := user.email,
                         createdAt := s.clock }) (fun _ => rfl) }
  | stamped (rid : ℕ) (input : TokenInput) (tokenId : ℕ)
      (hrid : s.processes rid = some (.stamping tokenId)) :
      Steps sha256 F s (.advance rid input)
        { s with
          processes := s.processes.set rid none
          tokens := s.tokens.modify tokenId (stampToken s.clock) (pk_stampToken s.clock) }

theorem mem_of_ownToken {user applicationId tokenId : ℕ} {t : StoredSendToken}
    (h : s.ownToken user applicationId tokenId = some t) : t ∈ s.tokens.rows := by
  obtain ⟨a, -, ht⟩ := Option.bind_eq_some_iff.mp h
  exact (Table.get?_eq_some.mp (Option.filter_eq_some_iff.mp ht).1).1

/-- A request begins with a refusal, or goes on, or opens a send. -/
theorem begin_cases {rid : ℕ} (hidle : s.processes rid = none) (r : TokenRequest) :
    Steps sha256 F s (.request rid r) (s.begin django sha256 rid r) := by
  have hissuing : ∀ applicationId name, s.processes rid ≠ some (.issuing applicationId name) := by
    simp [hidle]
  cases r with
  | create user applicationId body =>
    simp only [begin]
    split
    · exact .refused _ rid _ rfl rfl hissuing
    · split
      · exact .refused _ rid _ rfl rfl hissuing
      · exact .began rid _ _ hidle rfl
  | revoke user applicationId tokenId =>
    simp only [begin]
    split
    · exact .refused _ rid _ rfl rfl hissuing
    · split
      · exact .refused _ rid _ rfl rfl hissuing
      · next t ht =>
        split
        · exact .began rid _ _ hidle rfl
        · next hactive =>
          exact .alreadyRevoked rid _ t hidle (mem_of_ownToken ht) (by simpa using hactive)
  | reveal user applicationId tokenId password =>
    simp only [begin]
    split
    · exact .refused _ rid _ rfl rfl hissuing
    · split
      · exact .refused _ rid _ rfl rfl hissuing
      · exact .began rid _ _ hidle rfl
  | send rawToken =>
    simp only [begin]
    split
    · exact .refused _ rid _ rfl rfl hissuing
    · next t a h =>
      cases rawToken with
      | none => simp [authenticateSend] at h
      | some raw => exact .opened rid raw t a hidle h

/-- The next statement of a request does one of these. -/
theorem advance_cases {rid : ℕ} {p : TokenProcess} (hp : s.processes rid = some p)
    (input : TokenInput) :
    Steps sha256 F s (.advance rid input) (s.advance sha256 F rid input p) := by
  have hissuing : (∀ applicationId name, p ≠ .issuing applicationId name) →
      ∀ applicationId name, s.processes rid ≠ some (.issuing applicationId name) := by
    intro hne applicationId name h
    exact hne applicationId name (Option.some.inj (hp.symm.trans h))
  cases p with
  | counting applicationId body =>
    have hissuing := hissuing (by simp)
    simp only [advance]
    split
    · exact .refused _ rid _ rfl rfl hissuing
    · next hfree =>
      split
      · exact .refused _ rid _ rfl rfl hissuing
      · split
        · exact .refused _ rid _ rfl rfl hissuing
        · exact .admitted rid input applicationId body _ hp (Nat.lt_of_not_le hfree)
  | issuing applicationId name =>
    simp only [advance]
    split
    · exact .dropped rid input applicationId name hp
    · next blob hblob =>
      split
      · exact .dropped rid input applicationId name hp
      · next hfree =>
        simp only [Bool.or_eq_true, Option.isNone_iff_eq_none, List.any_eq_true, beq_iff_eq,
          not_or, not_exists, not_and] at hfree
        exact .issued rid input applicationId name blob hp hblob
          (Option.isSome_iff_ne_none.mpr hfree.1) hfree.2
  | revoking tokenId =>
    simp only [advance]
    split
    · next htoken => exact .revoked rid input tokenId hp htoken
    · exact .refused _ rid _ rfl rfl (hissuing (by simp))
  | revealing user applicationId tokenId =>
    have hissuing := hissuing (by simp)
    simp only [advance]
    split
    · exact .refused _ rid _ rfl rfl hissuing
    · next t ht =>
      split
      · next raw hraw =>
        exact .read rid input user applicationId tokenId t raw hp (mem_of_ownToken ht) hraw
      · exact .refused _ rid _ rfl rfl hissuing
      · exact .refused _ rid _ rfl rfl hissuing
  | journalling tokenId user raw =>
    simp only [advance]
    split
    · next hboth =>
      exact .journalled rid input tokenId user raw hp (Bool.and_eq_true_iff.mp hboth).1
    · exact .refused _ rid _ rfl rfl (hissuing (by simp))
  | stamping tokenId => exact .stamped rid input tokenId hp

/-- Every step is one of `Steps`. -/
theorem step_cases {a : TokenAction} (h : s.step django sha256 F a = some t) :
    Steps sha256 F s a t := by
  cases a with
  | request rid r =>
    simp only [step, Option.ite_none_right_eq_some, Option.some.injEq] at h
    obtain ⟨hidle, rfl⟩ := h
    exact begin_cases (by simpa using hidle) r
  | advance rid input =>
    obtain ⟨p, hp, rfl⟩ := Option.map_eq_some_iff.mp h
    exact advance_cases hp input
  | tick duration =>
    obtain rfl := Option.some.inj h
    exact .tick duration
  | configure keys =>
    obtain rfl := Option.some.inj h
    exact .configure keys
  | putUser user =>
    obtain rfl := Option.some.inj h
    exact .putUser user
  | deleteUser id =>
    obtain rfl := Option.some.inj h
    exact .deleteUser id
  | putApplication a =>
    obtain rfl := Option.some.inj h
    exact .putApplication a
  | deleteApplication id =>
    obtain rfl := Option.some.inj h
    exact .deleteApplication id

/-! ### The cap -/

end SendTokenDesk

/-- How many creations for the application this is that have passed their check. -/
def TokenProcess.creations (applicationId : ℕ) : TokenProcess → ℕ
  | .issuing id _ => if id = applicationId then 1 else 0
  | _ => 0

theorem TokenProcess.creations_issuing_self (id : ℕ) (name : String) :
    TokenProcess.creations id (.issuing id name) = 1 := if_pos rfl

theorem TokenProcess.creations_issuing_of_ne {id applicationId : ℕ} (h : id ≠ applicationId)
    (name : String) : TokenProcess.creations applicationId (.issuing id name) = 0 := if_neg h

namespace SendTokenDesk

variable {Key : Type} {django : Django} {sha256 : ByteArray → String} {F : Fernet Key}
  {s t : SendTokenDesk Key}

/-- The creations for the application between their check and their insertion. -/
noncomputable def underway (s : SendTokenDesk Key) (applicationId : ℕ) : ℕ :=
  s.processes.total (TokenProcess.creations applicationId)

/-- The capped resource that the tokens of an application are. -/
noncomputable def gateOf (applicationId : ℕ) (s : SendTokenDesk Key) : Gate :=
  ⟨s.activeTokens applicationId, s.underway applicationId⟩

/-- At most `k` creations for the application are between their check and their insertion. -/
def Overlaps (django : Django) (sha256 : ByteArray → String) (F : Fernet Key)
    (applicationId k : ℕ) (s : SendTokenDesk Key) (a : TokenAction) : Prop :=
  ∀ t, s.step django sha256 F a = some t → t.underway applicationId ≤ k

theorem finite_preserves :
    (sendTokenDesk django sha256 F).Preserves (fun _ _ => True) fun s => s.processes.Finite := by
  intro s a t hs _ hstep
  cases step_cases hstep with
  | tick | configure | putUser | deleteUser | putApplication | deleteApplication => exact hs
  | _ => exact hs.set _ _

/-- A process is replaced by one that issues as much. -/
theorem total_set_eq {P : Pool TokenProcess} (hP : P.Finite) {m : TokenProcess → ℕ} {rid : ℕ}
    {p : Option TokenProcess} (h : (P rid).elim 0 m = p.elim 0 m) :
    (P.set rid p).total m = P.total m := by
  have := hP.total_set m rid p
  omega

/-- An action changes at most the process that performs it. -/
theorem Steps.processes_of_ne {a : TokenAction} (h : Steps sha256 F s a t) {i : ℕ}
    (hi : a.process? ≠ some i) : t.processes i = s.processes i := by
  have hset : ∀ rid p, a.process? = some rid → (s.processes.set rid p) i = s.processes i := by
    intro rid p hrid
    exact Pool.set_of_ne _ _ fun heq => hi (heq ▸ hrid)
  cases h with
  | tick | configure | putUser | deleteUser | putApplication | deleteApplication => rfl
  | refused a rid event ha => exact hset rid _ ha
  | _ => exact hset _ _ rfl

/-- As many creations are underway as there are workers at most. -/
theorem underway_le_card {I : Finset ℕ} (h : ∀ i, s.processes i ≠ none → i ∈ I)
    (applicationId : ℕ) : s.underway applicationId ≤ I.card := by
  rw [underway, Pool.total_eq_sum _ h, Finset.card_eq_sum_ones]
  refine Finset.sum_le_sum fun i _ => ?_
  cases s.processes i with
  | none => exact Nat.zero_le _
  | some p =>
    cases p with
    | issuing id name =>
      simp only [Option.elim_some, TokenProcess.creations]
      split <;> omega
    | _ => exact Nat.zero_le _

/-- Requests served by a fixed set of workers. -/
theorem reach_overlaps_of_workers {I : Finset ℕ} (hidle : s.processes = .idle)
    (h : (sendTokenDesk django sha256 F).Reach
      (fun _ a => ∀ rid, a.process? = some rid → rid ∈ I) s t) (applicationId : ℕ) :
    (sendTokenDesk django sha256 F).Reach (Overlaps django sha256 F applicationId I.card) s t := by
  have hnext : ∀ (s : SendTokenDesk Key) (a : TokenAction) (t : SendTokenDesk Key),
      (∀ i, s.processes i ≠ none → i ∈ I) → (∀ rid, a.process? = some rid → rid ∈ I) →
      s.step django sha256 F a = some t → ∀ i, t.processes i ≠ none → i ∈ I := by
    intro s a t hs ha hstep i hi
    by_cases hrid : a.process? = some i
    · exact ha i hrid
    · exact hs i ((step_cases hstep).processes_of_ne hrid ▸ hi)
  refine h.mono_of_invariant (I := fun s => ∀ i, s.processes i ≠ none → i ∈ I) _
    (fun s a t hs ha hstep => hnext s a t hs ha hstep)
    (fun s a hs ha t hstep => underway_le_card (hnext s a t hs ha hstep) applicationId) ?_
  simp [hidle]

/-- Every action is one of the capped resource, or shows nothing of it. -/
theorem refines_gate (applicationId k : ℕ) :
    (sendTokenDesk django sha256 F).Refines (gate maxTokensPerApplication)
      (Overlaps django sha256 F applicationId k) (Gate.AtMost maxTokensPerApplication k)
      (fun s => s.processes.Finite) (gateOf applicationId) := by
  intro s a t hs hoverlaps hstep
  have hk := hoverlaps t hstep
  suffices h : gateOf applicationId t = gateOf applicationId s ∨
      ∃ b, (gateOf applicationId s).step maxTokensPerApplication b =
        some (gateOf applicationId t) by
    rcases h with heq | ⟨b, hb⟩
    · exact Or.inl heq
    · refine Or.inr ⟨b, fun g hg => ?_, hb⟩
      obtain rfl := Option.some.inj (hb.symm.trans hg)
      exact hk
  -- some tokens are gone or revoked, and no creation comes to its insertion or ends
  have hleaves : t.activeTokens applicationId ≤ s.activeTokens applicationId →
      t.underway applicationId = s.underway applicationId →
        ∃ b, (gateOf applicationId s).step maxTokensPerApplication b =
          some (gateOf applicationId t) :=
    fun hheld hadmitted => ⟨_, Gate.step_leave hheld hadmitted⟩
  have hmodify : ∀ (id : ℕ) (f : StoredSendToken → StoredSendToken) (hf : ∀ x, pk (f x) = pk x),
      (∀ x, (f x).applicationId = x.applicationId ∧ ((f x).isActive = true → x.isActive = true)) →
      ((s.tokens.modify id f hf).select fun x => x.applicationId == applicationId &&
        x.isActive).length ≤ s.activeTokens applicationId := by
    intro id f hf hkeeps
    refine Table.length_select_update_le _ _ _ f hf fun x hx => ?_
    simp only [(hkeeps x).1, Bool.and_eq_true] at hx ⊢
    exact ⟨hx.1, (hkeeps x).2 hx.2⟩
  have hquiet : ∀ rid p,
      (s.processes rid).elim 0 (TokenProcess.creations applicationId) =
        p.elim 0 (TokenProcess.creations applicationId) →
      (s.processes.set rid p).total (TokenProcess.creations applicationId) =
        s.underway applicationId :=
    fun rid p h => total_set_eq hs h
  have htaken : ∀ rid id name, s.processes rid = some (.issuing id name) →
      (s.processes.set rid none).total (TokenProcess.creations id) + 1 = s.underway id := by
    intro rid id name hrid
    have htotal := hs.total_set (TokenProcess.creations id) rid none
    rwa [hrid, Option.elim_some, TokenProcess.creations_issuing_self] at htotal
  cases step_cases hstep with
  | tick | configure | putUser | putApplication => exact Or.inl rfl
  | deleteUser | deleteApplication =>
    exact Or.inr (hleaves (Table.length_select_delete_le _ _ _) rfl)
  | began rid r p hrid hp =>
    refine Or.inl (congrArg (Gate.mk _) (hquiet rid (some p) ?_))
    rw [hrid]
    cases p <;> first | rfl | simp [TokenProcess.isFirst] at hp
  | refused a rid event ha hevent hrid =>
    refine Or.inl (congrArg (Gate.mk _) (hquiet rid none ?_))
    cases hp : s.processes rid with
    | none => rfl
    | some p => cases p <;> first | rfl | exact absurd hp (hrid _ _)
  | alreadyRevoked rid r x hrid =>
    exact Or.inl (congrArg (Gate.mk _) (hquiet rid none (by rw [hrid])))
  | opened rid raw x a hrid =>
    exact Or.inl (congrArg (Gate.mk _) (hquiet rid _ (by rw [hrid]; rfl)))
  | admitted rid input id body name hrid hfree =>
    by_cases hid : id = applicationId
    · subst hid
      have htotal := hs.total_set (TokenProcess.creations id) rid (some (.issuing id name))
      simp only [hrid, Option.elim_some, TokenProcess.creations_issuing_self] at htotal
      exact Or.inr ⟨.grant, Gate.step_grant hfree rfl htotal⟩
    · refine Or.inl (congrArg (Gate.mk _) (hquiet rid _ ?_))
      rw [hrid, Option.elim_some, Option.elim_some, TokenProcess.creations_issuing_of_ne hid]
      rfl
  | issued rid input id name blob hrid hblob happlication hhash =>
    have hcount := s.tokens.length_select_insert
      (fun x => x.applicationId == applicationId && x.isActive)
      (issuedToken sha256 s.clock id name input.raw.raw blob)
      (pk_issuedToken sha256 s.clock id name input.raw.raw blob)
    by_cases hid : id = applicationId
    · subst hid
      have htotal := htaken rid id name hrid
      simp only [issuedToken, StoredSendToken.isActive, beq_self_eq_true, Option.isNone_none,
        Bool.and_self, if_true] at hcount
      exact Or.inr ⟨.enter, Gate.step_enter hcount htotal⟩
    · simp only [issuedToken, beq_false_of_ne hid, Bool.false_and, Bool.false_eq_true, if_false,
        Nat.add_zero] at hcount
      refine Or.inl (congrArg₂ Gate.mk hcount (hquiet rid none ?_))
      rw [hrid, Option.elim_some, TokenProcess.creations_issuing_of_ne hid]
      rfl
  | dropped rid input id name hrid =>
    by_cases hid : id = applicationId
    · subst hid
      have htotal := htaken rid id name hrid
      exact Or.inr ⟨.drop, Gate.step_drop rfl htotal⟩
    · refine Or.inl (congrArg (Gate.mk _) (hquiet rid none ?_))
      rw [hrid, Option.elim_some, TokenProcess.creations_issuing_of_ne hid]
      rfl
  | revoked rid input id hrid =>
    refine Or.inr (hleaves (hmodify id _ (pk_revokeToken s.clock) fun x => ⟨rfl, ?_⟩)
      (hquiet rid none (by rw [hrid]; rfl)))
    simp [revokeToken, StoredSendToken.isActive]
  | read rid input user a id x raw hrid =>
    exact Or.inl (congrArg (Gate.mk _) (hquiet rid _ (by rw [hrid]; rfl)))
  | journalled rid input id user raw hrid =>
    exact Or.inl (congrArg (Gate.mk _) (hquiet rid none (by rw [hrid]; rfl)))
  | stamped rid input id hrid =>
    exact Or.inr (hleaves (hmodify id _ (pk_stampToken s.clock) fun x => ⟨rfl, fun hx => hx⟩)
      (hquiet rid none (by rw [hrid]; rfl)))

end SendTokenDesk

/-- When never more than `k` creations for an application are between their check and their
insertion, it has at most `k - 1` active tokens beyond the cap; one at a time keeps to it. -/
theorem send_tokens_capped {Key : Type} {django : Django} {sha256 : ByteArray → String}
    {F : Fernet Key} {applicationId k : ℕ} (hk : 1 ≤ k) {s₀ s : SendTokenDesk Key}
    (hidle : s₀.processes = .idle)
    (h₀ : s₀.activeTokens applicationId ≤ maxTokensPerApplication)
    (h : (sendTokenDesk django sha256 F).Reach
      (SendTokenDesk.Overlaps django sha256 F applicationId k) s₀ s) :
    s.activeTokens applicationId + s.underway applicationId ≤
      maxTokensPerApplication + (k - 1) := by
  have hfinite : s₀.processes.Finite := hidle ▸ Pool.finite_idle
  have hunderway : s₀.underway applicationId = 0 := by
    simp [SendTokenDesk.underway, hidle, Pool.total]
  have hpreserves : (sendTokenDesk django sha256 F).Preserves (fun _ _ => True)
      fun s => s.processes.Finite := SendTokenDesk.finite_preserves
  refine (SendTokenDesk.refines_gate applicationId k).invariant
    (hpreserves.mono fun _ _ _ => trivial)
    (Gate.bounded_preserves (by omega)) h hfinite ?_
  simp only [SendTokenDesk.gateOf, hunderway]
  omega

/-! ### Samples -/

namespace Sample

/-- A token of the application that is a digit. -/
def digitToken (digit : Char) (h : digit.isAlphanum) : SendToken where
  letters := List.replicate 22 digit
  length := List.length_replicate
  base62 := fun _ hc => (List.eq_of_mem_replicate hc) ▸ h

def onesToken : SendToken := digitToken '1' (by decide)

def twosToken : SendToken := digitToken '2' (by decide)

/-- An application with `n` active tokens. -/
def tokenDesk (n : ℕ) : SendTokenDesk UInt8 where
  clock := 0
  keys := ["k"]
  users := Table.empty.put user
  applications := Table.empty.put { id := 1, ownerId := 1 }
  tokens := Table.empty.insertAll
    (fun _ id => { id, applicationId := 1, name := "", tokenPrefix := "", tokenHash := "",
                   createdAt := 0 }) (fun _ _ => rfl) (List.range n)

/-- A body with a name. -/
def nameBody : Json := .object [("name", .string " server ")]

/-- Two creations that count the tokens before either inserts its own. -/
def creationsAtOnce : List TokenAction :=
  let one : TokenInput := ⟨onesToken, 0⟩
  let two : TokenInput := ⟨twosToken, 0⟩
  [.request 1 (.create 1 1 nameBody), .request 2 (.create 1 1 nameBody),
    .advance 1 one, .advance 2 two, .advance 1 one, .advance 2 two]

end Sample

/-- Of nine tokens, two workers make eleven and no more. -/
theorem sample_send_tokens_capped : ∃ s : SendTokenDesk UInt8,
    (sendTokenDesk Sample.django Sample.digest Sample.fernet).Reach
      (SendTokenDesk.Overlaps Sample.django Sample.digest Sample.fernet 1 2)
      (Sample.tokenDesk 9) s ∧
    s.activeTokens 1 = 11 ∧ s.activeTokens 1 + s.underway 1 ≤ maxTokensPerApplication + 1 := by
  obtain ⟨s, hreach, hs⟩ := System.exists_reach_of_guardedRun
    (sendTokenDesk Sample.django Sample.digest Sample.fernet)
    (fun _ a => a.process? = some 1 ∨ a.process? = some 2) (Sample.tokenDesk 9)
    Sample.creationsAtOnce (fun s => s.activeTokens 1 == 11) (by decide)
  have hworkers : (sendTokenDesk Sample.django Sample.digest Sample.fernet).Reach
      (fun _ a => ∀ rid, a.process? = some rid → rid ∈ ({1, 2} : Finset ℕ))
      (Sample.tokenDesk 9) s := by
    refine hreach.mono _ fun _ a ha rid hrid => ?_
    rcases ha with ha | ha <;> simp [Option.some.inj (hrid.symm.trans ha)]
  have hoverlaps := SendTokenDesk.reach_overlaps_of_workers rfl hworkers 1
  exact ⟨s, hoverlaps, beq_iff_eq.mp hs, send_tokens_capped (by decide) rfl (by decide) hoverlaps⟩

end PushIT
