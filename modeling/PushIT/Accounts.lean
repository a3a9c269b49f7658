import PushIT.Models
import PushIT.Library.LastSet
import PushIT.Library.Transition

/-!
# Requests on accounts

`accounts/api_views.py`, `accounts/api_staff_views.py`, `accounts/password_change.py`,
`accounts/password_reset.py` and `accounts/email_confirmation.py`: the requests that write a user
row.  Each loads the row and checks it, then writes: the profile PATCH and the staff PATCH save
the whole instance, a new password is saved with `update_fields`, and a confirmation is a
conditional update.  A transaction takes effect when it commits.  Password hashing, password
validation and signed links are Django's, and are parameters.

## Main definitions

* `User`, `RefreshToken`, `BypassGrantLog`: the rows.
* `AccountRequest.begin`, `Accounts.advance`: the requests, statement by statement.
* `Accounts`, `accounts`: the transition system.
-/

namespace PushIT

open Relational Transition

/-! ### Rows -/

inductive UserLanguage
  | fr
  | nl
  | en
  | it
  | es
  deriving DecidableEq, Repr

structure User where
  id : ℕ
  email : String := ""
  password : String
  language : UserLanguage := .fr
  isActive : Bool := true
  isSuperuser : Bool := false
  emailConfirmed : Bool := false
  subscriptionBypass : Bool := false
  bypassNote : String := ""
  bypassGrantedAt : Option Instant := none
  deriving DecidableEq, Repr

/-- An outstanding refresh token. -/
structure RefreshToken where
  id : ℕ
  userId : ℕ
  blacklisted : Bool := false
  deriving DecidableEq, Repr

/-- A line of the journal of offered accesses. -/
structure BypassGrantLog where
  actor : ℕ
  actorLabel : String
  target : ℕ
  targetLabel : String
  granted : Bool
  note : String
  createdAt : Instant
  deriving DecidableEq, Repr

instance : Keyed User := ⟨User.id⟩
instance : Keyed RefreshToken := ⟨RefreshToken.id⟩

@[simp] theorem pk_user (u : User) : pk u = u.id := rfl
@[simp] theorem pk_refreshToken (t : RefreshToken) : pk t = t.id := rfl

/-- The columns a request is about, those of its `update_fields` when it has some. -/
inductive UserColumns
  | none
  | password
  | emailConfirmed
  | subscriptionBypass
  deriving DecidableEq, Repr

/-- Copy the columns of an instance into a row. -/
def UserColumns.copy (c : UserColumns) (o row : User) : User :=
  match c with
  | none => row
  | password => { row with password := o.password }
  | emailConfirmed => { row with emailConfirmed := o.emailConfirmed }
  | subscriptionBypass => { row with subscriptionBypass := o.subscriptionBypass }

/-! ### Django -/

/-- What the requests use of Django: the password hasher, the password validators and the checks
of the links sent by e-mail. -/
structure Django where
  checkPassword (raw encoded : String) : Bool
  makePassword (raw salt : String) : String
  validatePassword (password : String) (user : User) : Bool
  checkResetToken (now : Instant) (user : User) (token : String) : Bool
  checkConfirmationToken (now : Instant) (user : User) (token : String) : Bool

/-! ### Requests -/

/-- The validated body of a staff PATCH; a field that is not sent is `none`. -/
structure StaffPatch where
  subscriptionBypass : Option Bool := none
  bypassNote : Option String := none
  deriving DecidableEq, Repr

/-- The fields a staff PATCH sets. -/
def StaffPatch.apply (data : StaffPatch) (u : User) : User :=
  { u with
    subscriptionBypass := data.subscriptionBypass.getD u.subscriptionBypass
    bypassNote := data.bypassNote.getD u.bypassNote }

/-- The columns a staff PATCH explicitly sets. -/
def StaffPatch.columns (data : StaffPatch) : UserColumns :=
  if data.subscriptionBypass.isSome then .subscriptionBypass else .none

inductive AccountRequest
  | profile (user : ℕ) (language : UserLanguage)
  | staff (actor user : ℕ) (data : StaffPatch)
  | changePassword (user : ℕ) (current new : String)
  | resetPassword (user : ℕ) (token password : String)
  | confirmEmail (user : ℕ) (token : String)

/-- A request between two of its statements. -/
inductive AccountProcess
  /-- The profile PATCH, with `request.user`. -/
  | profile (user : User) (language : UserLanguage)
  /-- The staff PATCH, in its transaction. -/
  | staff (actor user : User) (data : StaffPatch)
  /-- A password change before its transaction. -/
  | changing (user : User) (password : String)
  /-- The transaction of a password change, with the new hash and the tokens to blacklist. -/
  | rotating (user : User) (pending : List ℕ)
  /-- A password reset before its save. -/
  | resetting (user : User) (password : String)
  | revoking (user : ℕ)
  | blacklisting (pending : List ℕ)
  | confirming (user : User)
  deriving DecidableEq, Repr

/-- The refresh tokens of a user that are not blacklisted. -/
def pendingTokens (tokens : Table RefreshToken) (user : ℕ) : List ℕ :=
  (tokens.select fun t => t.userId == user && !t.blacklisted).map (·.id)

/-- `BlacklistedToken.objects.bulk_create`. -/
def blacklistTokens (tokens : Table RefreshToken) (ids : List ℕ) : Table RefreshToken :=
  tokens.update (fun t => ids.contains t.id) (fun t => { t with blacklisted := true })
    (fun _ => rfl)

/-- `RefreshToken.for_user`. -/
def mintToken (tokens : Table RefreshToken) (user : ℕ) : Table RefreshToken :=
  tokens.insert (fun id => { id, userId := user }) (fun _ => rfl)

/-- The user a request is authenticated as. -/
def authenticated (users : Table User) (id : ℕ) : Option User :=
  (users.get? id).filter (·.isActive)

/-- The loads and the checks of a request, up to its first write, or the code of its refusal. -/
def AccountRequest.begin (django : Django) (now : Instant) (users : Table User) :
    AccountRequest → Except String AccountProcess
  | .profile id language =>
    match authenticated users id with
    | some u => .ok (.profile u language)
    | none => .error "not_authenticated"
  | .staff actor id data =>
    match (authenticated users actor).filter (·.isSuperuser) with
    | none => .error "permission_denied"
    | some a =>
      match users.get? id with
      | some u => .ok (.staff a u data)
      | none => .error "not_found"
  | .changePassword id current new =>
    match authenticated users id with
    | none => .error "not_authenticated"
    | some u =>
      if !django.checkPassword current u.password then .error "current_password_invalid"
      else if new = current then .error "password_unchanged"
      else if !django.validatePassword new u then .error "password_invalid"
      else .ok (.changing u new)
  | .resetPassword id token password =>
    match (users.get? id).filter fun u => u.isActive && django.checkResetToken now u token with
    | none => .error "reset_link_invalid"
    | some u =>
      if !django.validatePassword password u then .error "password_invalid"
      else .ok (.resetting u password)
  | .confirmEmail id token =>
    match (users.get? id).filter fun u =>
        u.isActive && !u.emailConfirmed && django.checkConfirmationToken now u token with
    | some u => .ok (.confirming u)
    | none => .error "confirmation_link_invalid"

/-! ### The transition system -/

/-- The state: the tables, the requests under way, their answers by code, and the history of the
explicit changes, the newest first. -/
structure Accounts where
  users : Table User
  refreshTokens : Table RefreshToken := .empty
  journal : List BypassGrantLog := []
  processes : Pool AccountProcess := .idle
  answers : List (ℕ × String) := []
  changes : List (Change UserColumns User) := []

/-- What the environment contributes to a step. -/
structure AccountInput where
  now : Instant := 0
  salt : String := ""

inductive AccountAction
  | request (rid : ℕ) (now : Instant) (r : AccountRequest)
  | advance (rid : ℕ) (input : AccountInput)

namespace Accounts

/-- The request ends with an answer. -/
def answer (s : Accounts) (rid : ℕ) (code : String) : Accounts :=
  { s with processes := s.processes.set rid none, answers := (rid, code) :: s.answers }

def goOn (s : Accounts) (rid : ℕ) (p : AccountProcess) : Accounts :=
  { s with processes := s.processes.set rid (some p) }

/-- A request arrives. -/
def begin (django : Django) (s : Accounts) (rid : ℕ) (now : Instant) (r : AccountRequest) :
    Accounts :=
  match r.begin django now s.users with
  | .ok p => s.goOn rid p
  | .error code => s.answer rid code

/-- The instance that a staff PATCH leaves: a new access is dated. -/
def bypassed (now : Instant) (user : User) (data : StaffPatch) : User :=
  let u := data.apply user
  if u.subscriptionBypass && !user.subscriptionBypass then { u with bypassGrantedAt := some now }
  else u

/-- The line of the journal for a change of the access. -/
def journalLine (now : Instant) (actor user : User) (data : StaffPatch) : List BypassGrantLog :=
  let u := data.apply user
  if u.subscriptionBypass ≠ user.subscriptionBypass then
    [{ actor := actor.id
       actorLabel := actor.email
       target := u.id
       targetLabel := u.email
       granted := u.subscriptionBypass
       note := u.bypassNote
       createdAt := now }]
  else []

/-- A save with `update_fields`; when the row is gone it raises. -/
def saveFields (s : Accounts) (rid : ℕ) (columns : UserColumns) (user : User)
    (next : Accounts → Accounts) : Accounts :=
  match saveColumns UserColumns.copy s.users columns user with
  | some users => next { s with users, changes := ⟨user.id, columns, user⟩ :: s.changes }
  | none => s.answer rid "error"

/-- A save of the whole instance. -/
def saveWhole (s : Accounts) (columns : UserColumns) (user : User) : Accounts :=
  { s with users := s.users.put user, changes := ⟨user.id, columns, user⟩ :: s.changes }

/-- The next statement of a process. -/
def advance (django : Django) (s : Accounts) (rid : ℕ) (input : AccountInput) :
    AccountProcess → Accounts
  | .profile user language => (s.saveWhole .none { user with language }).answer rid "ok"
  | .staff actor user data =>
    let s' := s.saveWhole data.columns (bypassed input.now user data)
    { s' with journal := s'.journal ++ journalLine input.now actor user data }.answer rid "ok"
  | .changing user password =>
    s.goOn rid (.rotating { user with password := django.makePassword password input.salt }
      (pendingTokens s.refreshTokens user.id))
  | .rotating user pending =>
    s.saveFields rid .password user fun s' =>
      { s' with
        refreshTokens := mintToken (blacklistTokens s'.refreshTokens pending) user.id }.answer
          rid "password_changed"
  | .resetting user password =>
    s.saveFields rid .password { user with password := django.makePassword password input.salt }
      fun s' => s'.goOn rid (.revoking user.id)
  | .revoking user => s.goOn rid (.blacklisting (pendingTokens s.refreshTokens user))
  | .blacklisting pending =>
    { s with refreshTokens := blacklistTokens s.refreshTokens pending }.answer rid "ok"
  | .confirming user =>
    -- the conditional update: the flag is set only where it was not
    if (s.users.get? user.id).any (!·.emailConfirmed) then
      s.saveFields rid .emailConfirmed { user with emailConfirmed := true } fun s' =>
        { s' with refreshTokens := mintToken s'.refreshTokens user.id }.answer rid "ok"
    else s.answer rid "confirmation_link_invalid"

/-- One action; `none` when nothing can perform it. -/
def step (django : Django) (s : Accounts) : AccountAction → Option Accounts
  | .request rid now r =>
    if (s.processes rid).isNone then some (s.begin django rid now r) else none
  | .advance rid input => (s.processes rid).map (s.advance django rid input)

end Accounts

/-- The requests on accounts as a transition system. -/
def accounts (django : Django) : System Accounts AccountAction := ⟨Accounts.step django⟩

end PushIT
