import PushIT.SignIn
import PushIT.Library.Unwinding

/-!
# The refresh token in a cookie

`accounts/refresh_cookie.py` and the views of `accounts/api_views.py` that issue, rotate and end
sessions.  The single-page application asks for the refresh token in an HttpOnly cookie, which its
scripts cannot read; other clients get it in the body.  A browser sends the cookie with every
request, whichever page made it, and requests and answers overtake each other or are lost.

A refresh token is known by its number; a number that the server has not signed stands for a text
that does not verify.  The views are served one after the other: what happens between their
statements is in `PushIT.Sessions` and `PushIT.SignIn`.

## Main definitions

* `AuthServer`, `AuthServer.serve`: the views.
* `AuthWorld`, `AuthWorld.step`, `authWorld`: the server, a browser and the messages between them,
  and the other clients.
-/

namespace PushIT

open Relational Transition

/-! ### Tokens -/

/-- What a refresh token says. -/
structure RefreshClaims where
  id : ℕ
  userId : ℕ
  expiresAt : Instant
  /-- `PERSIST_CLAIM`; absent is true. -/
  persist : Bool := true
  deriving DecidableEq, Repr

/-- A row of simplejwt, with the one of its blacklist. -/
structure OutstandingToken where
  id : ℕ
  userId : Option ℕ
  expiresAt : Instant
  blacklisted : Bool := false
  deriving DecidableEq, Repr

instance : Keyed RefreshClaims := ⟨RefreshClaims.id⟩
instance : Keyed OutstandingToken := ⟨OutstandingToken.id⟩

@[simp] theorem pk_refreshClaims (c : RefreshClaims) : pk c = c.id := rfl
@[simp] theorem pk_outstandingToken (t : OutstandingToken) : pk t = t.id := rfl

/-! ### Messages -/

structure AuthHeaders where
  /-- `X-Auth-Mode`. -/
  authMode : Option String := none
  origin : Option String := none
  deriving DecidableEq, Repr

/-- The views, with the validated fields of the body. -/
inductive AuthView
  | login (email password : String) (rememberMe : Bool)
  /-- With the user that `confirm_email` returns. -/
  | confirmEmail (user : Option ℕ)
  /-- With the user that `verify_magic_link` returns. -/
  | verifyMagicLink (user : Option ℕ)
  | refresh (body : Option ℕ)
  | logout (body : Option ℕ)
  | changePassword (current new : String)
  | deleteAccount (currentPassword : String)
  deriving DecidableEq, Repr

/-- The access token of a request. -/
inductive Bearer
  | absent
  | invalid
  | of (user : ℕ)
  deriving DecidableEq, Repr

structure AuthCall where
  view : AuthView
  headers : AuthHeaders := {}
  bearer : Bearer := .absent
  cookie : Option ℕ := none
  deriving DecidableEq, Repr

/-- `Set-Cookie`. -/
inductive CookieChange
  | set (token : ℕ) (maxAge : Option ℕ)
  | clear
  deriving DecidableEq, Repr

structure AuthAnswer where
  httpStatus : ℕ
  code : String := ""
  /-- The refresh token in the body. -/
  refresh : Option ℕ := none
  setCookie : Option CookieChange := none
  deriving DecidableEq, Repr

structure AuthSettings where
  corsAllowedOrigins : List String
  /-- `REFRESH_TOKEN_LIFETIME`, in microseconds. -/
  refreshTokenLifetime : ℕ := 365 * 86400000000

/-- `wants_cookie`. -/
def AuthHeaders.wantsCookie (P : SignInPlatform) (h : AuthHeaders) : Bool :=
  P.lower (strip (h.authMode.getD "")) == "cookie"

/-- `origin_allowed`. -/
def AuthHeaders.originAllowed (cfg : AuthSettings) (h : AuthHeaders) : Bool :=
  h.origin.any fun origin => origin != "" && cfg.corsAllowedOrigins.contains origin

/-- `_cookie_origin_guard`. -/
def cookieOriginGuard (P : SignInPlatform) (cfg : AuthSettings) (h : AuthHeaders) :
    Option AuthAnswer :=
  if h.wantsCookie P && !h.originAllowed cfg then
    some { httpStatus := 403, code := "origin_not_allowed" }
  else none

/-! ### The server -/

structure AuthServer where
  clock : Instant
  users : Table User := .empty
  /-- The refresh tokens that were ever signed. -/
  signed : Table RefreshClaims := .empty
  outstanding : Table OutstandingToken := .empty

namespace AuthServer

variable (P : SignInPlatform) (cfg : AuthSettings) (s : AuthServer)

/-- `RefreshToken(token)`; `none` when it raises `TokenError`. -/
def verify (token : ℕ) : Option RefreshClaims :=
  (s.signed.get? token).filter fun c =>
    decide (s.clock < c.expiresAt) && !(s.outstanding.get? token).any (·.blacklisted)

/-- A new token, signed and recorded as outstanding. -/
def mint (user : ℕ) (persist : Bool) : AuthServer :=
  let expiresAt := s.clock + cfg.refreshTokenLifetime
  { s with
    signed := s.signed.insert (fun id => { id, userId := user, expiresAt, persist }) (fun _ => rfl)
    outstanding := s.outstanding.put { id := s.signed.seq + 1, userId := some user, expiresAt } }

/-- `blacklist`, which records the token as outstanding if it is not. -/
def blacklist (c : RefreshClaims) : AuthServer :=
  let row := (s.outstanding.get? c.id).getD
    { id := c.id, userId := (s.users.get? c.userId).map (·.id), expiresAt := c.expiresAt }
  { s with outstanding := s.outstanding.put { row with blacklisted := true } }

/-- Every outstanding token of a user is blacklisted. -/
def endSessions (user : ℕ) : AuthServer :=
  { s with
    outstanding := s.outstanding.update (fun t => t.userId == some user)
      (fun t => { t with blacklisted := true }) (fun _ => rfl) }

/-- `_persists`. -/
def persists (token : ℕ) : Bool := (s.signed.get? token).all (·.persist)

/-- `deliver_tokens`. -/
def deliverTokens (h : AuthHeaders) (answer : AuthAnswer) : AuthAnswer :=
  if h.wantsCookie P then
    match answer.refresh with
    | some token =>
      { answer with
        refresh := none
        setCookie := some
          (.set token (if s.persists token then some cfg.refreshTokenLifetime else none)) }
    | none => answer
  else answer

/-- A new session is answered with its token. -/
def issue (call : AuthCall) (user : ℕ) (persist : Bool) (code : String) :
    AuthServer × AuthAnswer :=
  let t := s.mint cfg user persist
  (t, t.deliverTokens P cfg call.headers
    { httpStatus := 200, code, refresh := some (s.signed.seq + 1) })

/-- `LoginApiView.post` after its guard. -/
def login (call : AuthCall) (email password : String) (rememberMe : Bool) :
    AuthServer × AuthAnswer :=
  match (s.users.rows.find? fun u => u.email == P.lower (strip email)).filter fun u =>
      P.django.checkPassword password u.password && u.isActive with
  | none => (s, { httpStatus := 400, code := "validation_error" })
  | some u =>
    if !u.emailConfirmed then (s, { httpStatus := 403, code := "email_not_verified" })
    else s.issue P cfg call u.id (rememberMe || !call.headers.wantsCookie P) ""

/-- `ConfirmEmailApiView.post` and `MagicLinkVerifyApiView.post` after their guards. -/
def openLink (call : AuthCall) (user : Option ℕ) (code : String) : AuthServer × AuthAnswer :=
  match user.bind s.users.get? with
  | none => (s, { httpStatus := 400, code })
  | some u => s.issue P cfg call u.id true ""

/-- `TokenRefreshSerializer`: the token is checked with its user, blacklisted, and signed anew. -/
def rotate (call : AuthCall) (token : ℕ) : AuthServer × AuthAnswer :=
  match s.verify token with
  | none => (s, { httpStatus := 401, code := "token_not_valid" })
  | some c =>
    if (s.users.get? c.userId).any (·.isActive) then
      (s.blacklist c).issue P cfg call c.userId c.persist ""
    else (s, { httpStatus := 401, code := "no_active_account" })

/-- `CustomTokenRefreshView.post`. -/
def refresh (call : AuthCall) (body : Option ℕ) : AuthServer × AuthAnswer :=
  if !call.headers.wantsCookie P then
    match body with
    | none => (s, { httpStatus := 400, code := "validation_error" })
    | some token => s.rotate P cfg call token
  else
    match cookieOriginGuard P cfg call.headers with
    | some answer => (s, answer)
    | none =>
      match body <|> call.cookie with
      | none => (s, { httpStatus := 401, code := "refresh_cookie_missing" })
      | some token => s.rotate P cfg call token

/-- The user of the access token. -/
def bearerUser : Bearer → Option User
  | .of user => authenticated s.users user
  | _ => none

/-- `LogoutApiView`: an access token that does not verify is refused first. -/
def logout (call : AuthCall) (body : Option ℕ) : AuthServer × AuthAnswer :=
  if call.bearer ≠ .absent ∧ (s.bearerUser call.bearer).isNone then
    (s, { httpStatus := 401, code := "token_not_valid" })
  else if !call.headers.wantsCookie P then
    if (s.bearerUser call.bearer).isNone then
      (s, { httpStatus := 401, code := "not_authenticated" })
    else
      match body with
      | none => (s, { httpStatus := 400, code := "refresh_token_required" })
      | some token =>
        match s.verify token with
        | none => (s, { httpStatus := 400, code := "refresh_token_invalid" })
        | some c => (s.blacklist c, { httpStatus := 204 })
  else
    match cookieOriginGuard P cfg call.headers with
    | some answer => (s, answer)
    | none =>
      -- whatever the state of the token, the browser ends up signed out
      (((body <|> call.cookie).bind s.verify).elim s s.blacklist,
        { httpStatus := 204, setCookie := some .clear })

/-- `_cookie_session_persists`. -/
def cookieSessionPersists (call : AuthCall) : Bool :=
  if !call.headers.wantsCookie P then true
  else (call.cookie.bind s.verify).all (·.persist)

/-- `PasswordChangeApiView`, with the salt of the new password. -/
def changePassword (call : AuthCall) (current new salt : String) : AuthServer × AuthAnswer :=
  match s.bearerUser call.bearer with
  | none => (s, { httpStatus := 401, code := "not_authenticated" })
  | some u =>
    match cookieOriginGuard P cfg call.headers with
    | some answer => (s, answer)
    | none =>
      if !P.django.checkPassword current u.password then
        (s, { httpStatus := 400, code := "current_password_invalid" })
      else if new = current then (s, { httpStatus := 400, code := "password_unchanged" })
      else if !P.django.validatePassword new u then
        (s, { httpStatus := 400, code := "password_invalid" })
      else
        let persist := s.cookieSessionPersists P call
        let t := { s with
          users := s.users.put { u with password := P.django.makePassword new salt } }
        (t.endSessions u.id).issue P cfg call u.id persist "password_changed"

/-- The deletion of `MeApiView`. -/
def deleteAccount (call : AuthCall) (currentPassword : String) : AuthServer × AuthAnswer :=
  match s.bearerUser call.bearer with
  | none => (s, { httpStatus := 401, code := "not_authenticated" })
  | some u =>
    if !P.django.checkPassword currentPassword u.password then
      (s, { httpStatus := 400, code := "current_password_invalid" })
    else
      let t := s.endSessions u.id
      ({ t with
          users := t.users.delete fun x => x.id == u.id
          outstanding := t.outstanding.update (fun x => x.userId == some u.id)
            (fun x => { x with userId := none }) (fun _ => rfl) },
        { httpStatus := 204
          setCookie := if call.headers.wantsCookie P then some .clear else none })

/-- A view serves a call. -/
def serve (call : AuthCall) (salt : String) : AuthServer × AuthAnswer :=
  let guarded (answer : AuthServer × AuthAnswer) : AuthServer × AuthAnswer :=
    match cookieOriginGuard P cfg call.headers with
    | some rejected => (s, rejected)
    | none => answer
  match call.view with
  | .login email password rememberMe => guarded (s.login P cfg call email password rememberMe)
  | .confirmEmail user => guarded (s.openLink P cfg call user "confirmation_link_invalid")
  | .verifyMagicLink user => guarded (s.openLink P cfg call user "magic_link_invalid")
  | .refresh body => s.refresh P cfg call body
  | .logout body => s.logout P cfg call body
  | .changePassword current new => s.changePassword P cfg call current new salt
  | .deleteAccount currentPassword => s.deleteAccount P call currentPassword

/-- `flush_expired_tokens_task`, which read the clock before. -/
def flush (now : Instant) : AuthServer :=
  { s with outstanding := s.outstanding.delete fun t => decide (t.expiresAt < now) }

end AuthServer

/-! ### The browser -/

/-- The cookie as a browser stores it; without a date it goes when the browser quits. -/
structure JarCookie where
  token : ℕ
  expiresAt : Option Instant
  deriving DecidableEq, Repr

/-- A request on its way, and its answer on the way back. -/
inductive AuthExchange
  | sent (call : AuthCall)
  | answered (call : AuthCall) (answer : AuthAnswer)
  deriving DecidableEq, Repr

/-- The server and a browser. -/
structure AuthWorld where
  server : AuthServer
  jar : Option JarCookie := none
  /-- The refresh tokens that scripts of allowed origins have read. -/
  known : List ℕ := []
  exchanges : Pool AuthExchange := .idle

inductive AuthAction
  | tick (duration : ℕ)
  /-- A page in the browser makes a request, to which the browser adds its cookie. -/
  | send (x : ℕ) (call : AuthCall)
  | serve (x : ℕ) (salt : String)
  | deliver (x : ℕ)
  | lose (x : ℕ)
  /-- The browser quits. -/
  | quit
  /-- Another client makes a request. -/
  | other (call : AuthCall) (salt : String)
  /-- An account is created or changed. -/
  | putUser (user : User)
  /-- A password reset ends the sessions of a user. -/
  | reset (user : ℕ)
  | flush (now : Instant)

/-- The exchange an action is about. -/
def AuthAction.exchange? : AuthAction → Option ℕ
  | .send x _ | .serve x _ | .deliver x | .lose x => some x
  | _ => none

namespace AuthWorld

variable (P : SignInPlatform) (cfg : AuthSettings) (w : AuthWorld)

/-- The cookie that the browser sends. -/
def cookie : Option ℕ :=
  (w.jar.filter fun c => c.expiresAt.all fun e => decide (w.server.clock < e)).map (·.token)

/-- The cookie after an answer. -/
def store : Option CookieChange → Option JarCookie
  | some (.set token maxAge) => some ⟨token, maxAge.map fun age : ℕ => w.server.clock + age⟩
  | some .clear => none
  | none => w.jar

/-- The browser receives an answer; a page of another origin cannot read it. -/
def receive (call : AuthCall) (answer : AuthAnswer) : AuthWorld :=
  { w with
    jar := w.store answer.setCookie
    known := if call.headers.originAllowed cfg then answer.refresh.toList ++ w.known else w.known }

/-- One action; `none` when nothing can perform it. -/
def step (w : AuthWorld) : AuthAction → Option AuthWorld
  | .tick duration =>
    some { w with server := { w.server with clock := w.server.clock + duration } }
  | .send x call =>
    if (w.exchanges x).isNone then
      some { w with exchanges := w.exchanges.set x (some (.sent { call with cookie := w.cookie })) }
    else none
  | .serve x salt =>
    match w.exchanges x with
    | some (.sent call) =>
      let served := w.server.serve P cfg call salt
      some
        { w with
          server := served.1
          exchanges := w.exchanges.set x (some (.answered call served.2)) }
    | _ => none
  | .deliver x =>
    match w.exchanges x with
    | some (.answered call answer) =>
      some { w.receive cfg call answer with exchanges := w.exchanges.set x none }
    | _ => none
  | .lose x => some { w with exchanges := w.exchanges.set x none }
  | .quit => some { w with jar := w.jar.filter (·.expiresAt.isSome), known := [] }
  | .other call salt => some { w with server := (w.server.serve P cfg call salt).1 }
  | .putUser user => some { w with server := { w.server with users := w.server.users.put user } }
  | .reset user => some { w with server := w.server.endSessions user }
  | .flush now =>
    if now ≤ w.server.clock then some { w with server := w.server.flush now } else none

end AuthWorld

/-- The sessions of a browser as a transition system. -/
def authWorld (P : SignInPlatform) (cfg : AuthSettings) : System AuthWorld AuthAction :=
  ⟨AuthWorld.step P cfg⟩

end PushIT
