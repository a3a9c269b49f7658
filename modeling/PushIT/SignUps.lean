import PushIT.InboundMail
import PushIT.SignIn

/-!
# Calls that name an address

The calls of `accounts/api_views.py` that anyone can make with an address: a registration, another
confirmation link, a password reset and a magic link.  They look for an account with the address
and send it a mail; a registration creates the account when there is none, in a later statement.
The mails go to the address of the account.

## Main definitions

* `RegisterBody.validate`, `AddressBody.validate`: the serializers.
* `SignUps.start`, `SignUps.finish`: the calls, statement by statement.
* `signUps`: the calls next to what else changes accounts.
-/

namespace PushIT

open Relational Transition

/-- What the calls use of Python, of Django and of the settings. -/
structure SignUpPlatform where
  mail : MailPlatform
  django : Django
  /-- `str.upper`. -/
  upper : String → String
  /-- `BaseUserManager.normalize_email`. -/
  normalizeEmail : String → String
  /-- The errors of `validate_password` for no user. -/
  passwordErrors : String → List FieldError
  /-- `turnstile_enabled`. -/
  turnstileEnabled : Bool

/-! ### The serializers -/

/-- A field that must be sent. -/
def requiredField {β : Type} (validate : String → Except (List FieldError) β) :
    Option String → Except (List FieldError) β
  | none => .error [.library "required"]
  | some value => validate value

def accountPasswordMinLength : ℕ := 8

/-- The password of `RegisterSerializer`, with `validate_password`. -/
def newPasswordField (P : SignUpPlatform) (value : String) : Except (List FieldError) String :=
  let trimmed := strip value
  if trimmed = "" then .error [.library "blank"]
  else
    let errors :=
      (if trimmed.length < accountPasswordMinLength then
        [FieldError.library "min_length"] else []) ++
      (if trimmed.toList.contains nullCharacter then
        [.library "null_characters_not_allowed"] else [])
    if errors ≠ [] then .error errors
    else if P.passwordErrors trimmed ≠ [] then .error (P.passwordErrors trimmed)
    else .ok trimmed

/-- The member of `UserLanguage.values`. -/
def UserLanguage.ofCode : String → Option UserLanguage
  | "FR" => some .fr
  | "NL" => some .nl
  | "EN" => some .en
  | "IT" => some .it
  | "ES" => some .es
  | _ => none

def languageMaxLength : ℕ := 2

/-- `validate_language`. -/
def validateLanguage (P : SignUpPlatform) (value : String) :
    Except (List FieldError) UserLanguage :=
  match UserLanguage.ofCode (P.upper (strip value)) with
  | some language => .ok language
  | none => .error [.detail "Unsupported language. Choose one of: FR, NL, EN, IT, ES."]

/-- The body of a registration; a field that is not sent is `none`. -/
structure RegisterBody where
  email : Option String
  password : Option String
  turnstileToken : Option String := none
  language : Option String := none
  deriving DecidableEq, Repr

/-- `validated_data` of `RegisterSerializer`. -/
structure RegisterData where
  email : String
  password : String
  turnstileToken : Option String
  language : Option UserLanguage
  deriving DecidableEq, Repr

/-- `is_valid` of `RegisterSerializer`. -/
def RegisterBody.validate (P : SignUpPlatform) (b : RegisterBody) :
    Except ValidationErrors RegisterData :=
  let email := requiredField
    (fun value => (emailField P.mail value).map fun e => P.mail.lower (strip e)) b.email
  let password := requiredField (newPasswordField P) b.password
  let turnstileToken := optionalField (blankableField none) b.turnstileToken
  let language := optionalField
    (fun value => (charField (some languageMaxLength) value).bind (validateLanguage P)) b.language
  match email, password, turnstileToken, language with
  | .ok email, .ok password, .ok turnstileToken, .ok language =>
    .ok { email, password, turnstileToken, language }
  | _, _, _, _ =>
    .error (errorsOf "email" email ++ errorsOf "password" password ++
      errorsOf "turnstile_token" turnstileToken ++ errorsOf "language" language)

/-- The body of the other calls. -/
structure AddressBody where
  email : Option String
  turnstileToken : Option String := none
  deriving DecidableEq, Repr

/-- `is_valid` of `ForgotPasswordSerializer` and `MagicLinkRequestSerializer`. -/
def AddressBody.validate (P : SignUpPlatform) (b : AddressBody) :
    Except ValidationErrors (String × Option String) :=
  let email := requiredField (emailField P.mail) b.email
  let turnstileToken := optionalField (blankableField none) b.turnstileToken
  match email, turnstileToken with
  | .ok email, .ok turnstileToken => .ok (email, turnstileToken)
  | _, _ => .error (errorsOf "email" email ++ errorsOf "turnstile_token" turnstileToken)

/-- `is_valid` of `EmailResendSerializer`. -/
def validateResend (P : SignUpPlatform) (email : Option String) :
    Except ValidationErrors String :=
  match requiredField (emailField P.mail) email with
  | .ok email => .ok email
  | .error errors => .error [("email", errors)]

/-! ### The calls -/

/-- The calls; the flag is what `siteverify` answers to the token. -/
inductive SignUpCall
  | register (body : RegisterBody) (captcha : Bool)
  | resend (email : Option String)
  | forgot (body : AddressBody) (captcha : Bool)
  | magicLink (body : AddressBody) (captcha : Bool)
  deriving DecidableEq, Repr

inductive SignUpAnswer
  | invalid (errors : ValidationErrors)
  | captchaFailed
  | pendingVerification (email : String)
  | ok (detail : String)
  | internalError
  deriving DecidableEq, Repr

def resendDetail : String := "If that email needs confirmation, a new link has been sent."
def forgotDetail : String := "If that email exists, a reset link has been sent."
def magicLinkDetail : String := "If that email is registered, a sign-in link has been sent."

inductive AccountMailKind
  | confirmation
  | duplicateRegistration
  | passwordReset
  | magicLink
  deriving DecidableEq, Repr

/-- A mail, with the key that its link carries. -/
structure AccountMail where
  kind : AccountMailKind
  recipient : String
  user : ℕ
  deriving DecidableEq, Repr

/-- What happened, the newest first; no statement reads it. -/
inductive SignUpEvent
  | answered (rid : ℕ) (answer : SignUpAnswer)
  | sent (mail : AccountMail)
  deriving DecidableEq, Repr

/-- What a call does after the look-up. -/
inductive SignUpTask
  /-- `RegisterApiView`, with the account that has the address. -/
  | registering (data : RegisterData) (existing : Option User)
  /-- `request_magic_link`, with the account of the address. -/
  | linking (user : Option User)
  deriving DecidableEq, Repr

structure PendingCall where
  rid : ℕ
  task : SignUpTask
  deriving DecidableEq, Repr

structure SignUps where
  users : Table User := .empty
  pending : List PendingCall := []
  events : List SignUpEvent := []

/-- The width of the column of `User.email`. -/
def userEmailMaxLength : ℕ := 254

/-- The new user of `RegisterSerializer.create`. -/
def SignUpPlatform.createdUser (P : SignUpPlatform) (data : RegisterData) (salt : String) (id : ℕ) :
    User where
  id
  email := P.normalizeEmail data.email
  password := P.django.makePassword data.password salt
  language := data.language.getD .fr

theorem SignUpPlatform.pk_createdUser (P : SignUpPlatform) (data : RegisterData) (salt : String)
    (id : ℕ) : pk (P.createdUser data salt id) = id := rfl

/-- `verify_turnstile_token`, where it is enabled. -/
def SignUpPlatform.captchaPasses (P : SignUpPlatform) (token : Option String) (captcha : Bool) :
    Bool :=
  !P.turnstileEnabled || (token.getD "" != "" && captcha)

namespace SignUps

variable (P : SignUpPlatform) (s : SignUps)

def happened (event : SignUpEvent) : SignUps := { s with events := event :: s.events }

def answer (rid : ℕ) (answer : SignUpAnswer) : SignUps := s.happened (.answered rid answer)

/-- `send_email`, which does not fail. -/
def send (kind : AccountMailKind) (user : User) : SignUps :=
  s.happened (.sent ⟨kind, user.email, user.id⟩)

/-- The call goes on later. -/
def later (rid : ℕ) (task : SignUpTask) : SignUps :=
  { s with pending := ⟨rid, task⟩ :: s.pending }

/-- The account that has an address. -/
def registered (email : String) : Option User := s.users.rows.find? (·.email == email)

/-- The first account that an address belongs to, in any case of its letters. -/
def matching (email : String) (p : User → Bool) : Option User :=
  s.users.rows.find? fun u => P.mail.upper u.email == P.mail.upper (strip email) && p u

/-- Send a mail to an account, if there is one. -/
def sendTo (kind : AccountMailKind) : Option User → SignUps
  | some user => s.send kind user
  | none => s

/-- A call up to its look-up. -/
def start (rid : ℕ) : SignUpCall → SignUps
  | .register body captcha =>
    match body.validate P with
    | .error errors => s.answer rid (.invalid errors)
    | .ok data =>
      if P.captchaPasses data.turnstileToken captcha then
        s.later rid (.registering data (s.registered data.email))
      else s.answer rid .captchaFailed
  | .resend email =>
    match validateResend P email with
    | .error errors => s.answer rid (.invalid errors)
    | .ok email =>
      (s.sendTo .confirmation
        (s.matching P email fun u => u.isActive && !u.emailConfirmed)).answer rid (.ok resendDetail)
  | .forgot body captcha =>
    match body.validate P with
    | .error errors => s.answer rid (.invalid errors)
    | .ok (email, token) =>
      if P.captchaPasses token captcha then
        (s.sendTo .passwordReset (s.matching P email (·.isActive))).answer rid (.ok forgotDetail)
      else s.answer rid .captchaFailed
  | .magicLink body captcha =>
    match body.validate P with
    | .error errors => s.answer rid (.invalid errors)
    | .ok (email, token) =>
      if P.captchaPasses token captcha then
        s.later rid (.linking (s.matching P email fun u => u.isActive && u.emailConfirmed))
      else s.answer rid .captchaFailed

/-- What is left of a call after its look-up. -/
def finish (salt : String) (rid : ℕ) : SignUpTask → SignUps
  | .registering data (some existing) =>
    (s.send .duplicateRegistration existing).answer rid (.pendingVerification data.email)
  | .registering data none =>
    -- the address is unique, and must fit its column
    if (s.registered (P.normalizeEmail data.email)).isSome ∨
        userEmailMaxLength < (P.normalizeEmail data.email).length then s.answer rid .internalError
    else
      ({ s with
        users := s.users.insert (P.createdUser data salt) (P.pk_createdUser data salt) }.send
        .confirmation (P.createdUser data salt (s.users.seq + 1))).answer rid
          (.pendingVerification data.email)
  | .linking (some user) =>
    -- the row of the link refers to the user
    if (s.users.get? user.id).isSome then (s.send .magicLink user).answer rid (.ok magicLinkDetail)
    else s.answer rid .internalError
  | .linking none => s.answer rid (.ok magicLinkDetail)

end SignUps

/-! ### The system -/

/-- What the owner of an account does to it, by a link or signed in, or the admin. -/
inductive UserChange
  | confirm
  | setPassword (password : String)
  | setLanguage (language : UserLanguage)
  | setActive (active : Bool)
  deriving DecidableEq, Repr

def UserChange.apply (u : User) : UserChange → User
  | confirm => { u with emailConfirmed := true }
  | setPassword password => { u with password }
  | setLanguage language => { u with language }
  | setActive active => { u with isActive := active }

theorem UserChange.pk_apply (c : UserChange) (u : User) : pk (c.apply u) = pk u := by
  cases c <;> rfl

inductive SignUpAction
  | call (rid : ℕ) (call : SignUpCall)
  /-- The call goes on; `make_password` uses this salt. -/
  | advance (rid : ℕ) (salt : String)
  /-- The account with an address is changed. -/
  | change (email : String) (c : UserChange)
  /-- Other requests and the admin create, write and delete users. -/
  | edit (users : Table User)

namespace SignUps

/-- One action; `none` when nothing can perform it. -/
def step (P : SignUpPlatform) (s : SignUps) : SignUpAction → Option SignUps
  | .call rid call =>
    if s.pending.any (·.rid == rid) then none else some (s.start P rid call)
  | .advance rid salt =>
    (s.pending.find? (·.rid == rid)).map fun p =>
      { s with pending := s.pending.filter (·.rid != rid) }.finish P salt rid p.task
  | .change email c =>
    some { s with users := s.users.update (·.email == email) (fun u => c.apply u) c.pk_apply }
  | .edit users =>
    -- the keys of deleted rows are not given again, and no address is wider than its column
    if s.users.seq ≤ users.seq ∧ ∀ u ∈ users.rows, u.email.length ≤ userEmailMaxLength then
      some { s with users }
    else none

end SignUps

/-- The calls as a transition system. -/
def signUps (P : SignUpPlatform) : System SignUps SignUpAction := ⟨SignUps.step P⟩

end PushIT
