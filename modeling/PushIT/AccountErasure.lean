import PushIT.Aliases
import PushIT.RequestSteps
import PushIT.Sessions

/-!
# The erasure of an account

`delete_user_account` of `accounts/deletion.py` next to the requests of the same user that are
under way.  Its transaction lists the refresh tokens, then the applications with their aliases,
deletes the devices, and deletes the user row with what cascades from it; the aliases it listed
are deprovisioned after the commit.  A row that another request writes between two of these
statements is deleted or set to null with the user, or missed.

What the transaction has blacklisted and deleted shows when it commits; until then an upsert
waits for a device that it deletes.  A row that names a user who is gone is refused by its foreign
key.

## Main definitions

* `Erasure.step`: the erasure, the requests of the console, the device requests, the logins and
  the refreshes, statement by statement.
* `Erasure.Leaves`: what an erasure is to leave of a user.
* `Erasure.KeepsAliases`, `Erasure.KeepsDevices`, `Erasure.KeepsTokens`: no write of the user lands
  between the statement that lists its kind of row and the commit.
-/

namespace PushIT

open Relational Transition

/-! ### Requests -/

/-- A login, a refresh or a device request between two of its statements. -/
inductive UserRequest
  /-- A login before its token is recorded. -/
  | issuing (user : ℕ)
  /-- A refresh before it blacklists the token it rotates. -/
  | refreshing (token user : ℕ)
  /-- A refresh before the new token is recorded. -/
  | recording (user : ℕ)
  /-- An identify or link request before its upsert. -/
  | upserting (user : ℕ) (data : DeviceData)

def UserRequest.user : UserRequest → ℕ
  | issuing user | refreshing _ user | recording user | upserting user _ => user

/-- The request will record a token of the user. -/
def UserRequest.signsIn (user : ℕ) : UserRequest → Bool
  | issuing u | refreshing _ u | recording u => u == user
  | upserting _ _ => false

/-- `delete_user_account` between two of its statements. -/
inductive ErasureStage
  | sweeping (user : ℕ)
  | listing (user : ℕ) (swept : List ℕ)
  | deletingDevices (user : ℕ) (swept : List ℕ) (aliases : List String)
  /-- Before `user.delete()`, with the devices that are deleted. -/
  | cascading (user : ℕ) (swept : List ℕ) (aliases : List String) (devices : List ℕ)
  /-- `_after_commit`. -/
  | afterCommit (user : ℕ) (aliases : List String)
  deriving DecidableEq, Repr

namespace ErasureStage

def user : ErasureStage → ℕ
  | sweeping user | listing user _ | deletingDevices user _ _ | cascading user _ _ _
  | afterCommit user _ => user

/-- The tokens that are blacklisted at the commit, once they are listed. -/
def swept : ErasureStage → Option (List ℕ)
  | listing _ swept | deletingDevices _ swept _ | cascading _ swept _ _ => some swept
  | sweeping _ | afterCommit _ _ => none

/-- The aliases that are deprovisioned after the commit, once they are listed. -/
def aliases : ErasureStage → Option (List String)
  | deletingDevices _ _ aliases | cascading _ _ aliases _ => some aliases
  | sweeping _ | listing _ _ | afterCommit _ _ => none

/-- The devices that are deleted at the commit, once they are. -/
def devices : ErasureStage → Option (List ℕ)
  | cascading _ _ _ devices => some devices
  | sweeping _ | listing _ _ | deletingDevices _ _ _ | afterCommit _ _ => none

end ErasureStage

def ConsoleRequest.owner : ConsoleRequest → ℕ
  | .create owner _ _ _ | .patch owner _ _ | .regenerateEmail owner _ | .regenerateToken owner _ _
  | .revoke owner _ | .rotateEnrolmentCode owner _ _ | .rotateWebhookSecret owner _ _
  | .setActive owner _ _ | .setLogo owner _ _ | .destroy owner _ => owner

/-! ### The transition system -/

/-- The state.  No statement reads the last five fields: the user of each request of the console,
the last user of each device, the aliases that were provisioned with their owners, those that
were deprovisioned, and the users who were erased. -/
structure Erasure where
  users : Table User
  tokens : Table RefreshToken := .empty
  devices : Table Device := .empty
  console : Console
  requests : Pool UserRequest := .idle
  erasures : Pool ErasureStage := .idle
  /-- The devices that a transaction under way has deleted. -/
  doomed : List ℕ := []
  requester : ℕ → ℕ := fun _ => 0
  lastUser : ℕ → Option ℕ := fun _ => none
  provisionedFor : List (ℕ × String) := []
  handed : List String := []
  erased : List ℕ := []

inductive ErasureAction
  | console (a : ConsoleAction)
  | login (rid : ℕ) (email password : String)
  | refresh (rid token : ℕ)
  | upsert (rid user : ℕ) (data : DeviceData)
  /-- The next statement of a login, a refresh or a device request. -/
  | advance (rid : ℕ) (now : Instant)
  | erase (rid user : ℕ)
  | advanceErasure (rid : ℕ)

/-- A save that the foreign key to the owner refuses; the loop of `save` takes it for a collision
of aliases. -/
def Console.refuseSave (s : Console) (rid : ℕ) (input : ConsoleInput)
    (object : ConsoleApplication) (purpose : SavePurpose) (attempts : ℕ) : Console :=
  let a := object.fillBlanks input.draw
  if a.inboundEmailAlias ≠ "" then s.setProcess rid none else s.retrySave rid a purpose attempts

/-- `SET_NULL`. -/
def withoutUser (d : Device) : Device := { d with userId := none }

theorem pk_withoutUser (d : Device) : pk (withoutUser d) = pk d := rfl

/-- The devices after an upsert. -/
def upsertDevice (now : Instant) (devices : Table Device) (user : ℕ) (data : DeviceData) : Upsert :=
  upsertAuthenticatedDevice now { devices } user data

namespace Erasure

abbrev applications (s : Erasure) : Table ConsoleApplication := s.console.applications

def hasUser (s : Erasure) (user : ℕ) : Bool := (s.users.get? user).isSome

/-- The next statement of a request of the console. -/
def advanceConsole (s : Erasure) (rid : ℕ) (input : ConsoleInput) (p : ConsoleProcess) : Erasure :=
  let t := { s with console := s.console.advance rid input p }
  match p with
  | .saving object purpose attempts =>
    if s.hasUser object.ownerId then t
    else { s with console := s.console.refuseSave rid input object purpose attempts }
  | .provisioning alias_ _ =>
    { t with provisionedFor := (s.requester rid, alias_) :: s.provisionedFor }
  | .deprovisioning alias_ => { t with handed := alias_ :: s.handed }
  | .deleting _ => t

def setRequest (s : Erasure) (rid : ℕ) (p : Option UserRequest) : Erasure :=
  { s with requests := s.requests.set rid p }

/-- An upsert waits for the devices that are being deleted. -/
def waits (s : Erasure) (data : DeviceData) : Bool :=
  s.devices.rows.any fun d => s.doomed.contains d.id &&
    (d.pushToken == data.pushToken || d.pushToken == data.previousPushToken)

/-- The next statement of a login, a refresh or a device request. -/
def advanceRequest (s : Erasure) (rid : ℕ) (now : Instant) : UserRequest → Option Erasure
  | .issuing user =>
    some
      (if s.hasUser user then { s with tokens := mintToken s.tokens user }.setRequest rid none
      else s.setRequest rid none)
  | .refreshing token user =>
    some
      ({ s with tokens := blacklistTokens s.tokens [token] }.setRequest rid
        (some (.recording user)))
  | .recording user => some ({ s with tokens := mintToken s.tokens user }.setRequest rid none)
  | .upserting user data =>
    if s.waits data then none
    else if s.hasUser user then
      let u := upsertDevice now s.devices user data
      some
        ({ s with
          devices := u.db.devices
          lastUser := Function.update s.lastUser u.deviceId (some user) }.setRequest rid none)
    else some (s.setRequest rid none)

def setErasure (s : Erasure) (rid : ℕ) (p : Option ErasureStage) : Erasure :=
  { s with erasures := s.erasures.set rid p }

/-- `user.delete()` and the commit. -/
def commit (s : Erasure) (user : ℕ) (swept : List ℕ) (devices : List ℕ) : Erasure :=
  { s with
    tokens := blacklistTokens s.tokens swept
    devices := (s.devices.delete fun d => devices.contains d.id).update
      (fun d => d.userId == some user) withoutUser pk_withoutUser
    console := { s.console with applications := s.applications.delete fun a => a.ownerId == user }
    users := s.users.delete fun u => u.id == user
    doomed := s.doomed.filter fun d => !devices.contains d
    erased := user :: s.erased }

/-- The next statement of an erasure. -/
def advanceErasure (s : Erasure) (rid : ℕ) : ErasureStage → Erasure
  | .sweeping user =>
    s.setErasure rid
      (some (.listing user ((s.tokens.select fun t => t.userId == user).map (·.id))))
  | .listing user swept =>
    s.setErasure rid
      (some (.deletingDevices user swept
        ((s.applications.select fun a => a.ownerId == user && a.inboundEmailAlias != "").map
          (·.inboundEmailAlias))))
  | .deletingDevices user swept aliases =>
    let devices := (s.devices.select fun d => d.userId == some user).map (·.id)
    { s with doomed := devices ++ s.doomed }.setErasure rid
      (some (.cascading user swept aliases devices))
  | .cascading user swept aliases devices =>
    (s.commit user swept devices).setErasure rid (some (.afterCommit user aliases))
  | .afterCommit _ [] => s.setErasure rid none
  | .afterCommit user (alias_ :: aliases) =>
    { s with
      console :=
        { s.console with provisioned := s.console.provisioned.filter (· != alias_) }
      handed := alias_ :: s.handed }.setErasure rid (some (.afterCommit user aliases))

/-- One action; `none` when nothing can perform it. -/
def step (P : SignInPlatform) (s : Erasure) : ErasureAction → Option Erasure
  | .console (.request rid now r) =>
    if (s.console.processes rid).isNone && (authenticated s.users r.owner).isSome then
      some
        { s with
          console := s.console.begin rid now r
          requester := Function.update s.requester rid r.owner }
    else none
  | .console (.advance rid input) =>
    (s.console.processes rid).map (s.advanceConsole rid input)
  | .login rid email password =>
    if (s.requests rid).isNone then
      some (s.setRequest rid
        ((P.authenticateLogin s.users email password).map fun u => .issuing u.id))
    else none
  | .refresh rid token =>
    if (s.requests rid).isNone then
      some (s.setRequest rid
        ((findUsable s.users s.tokens token).map fun t => .refreshing token t.userId))
    else none
  | .upsert rid user data =>
    if (s.requests rid).isNone then
      some (s.setRequest rid ((authenticated s.users user).map fun u => .upserting u.id data))
    else none
  | .advance rid now => (s.requests rid).bind (s.advanceRequest rid now)
  | .erase rid user =>
    if (s.erasures rid).isNone then
      some (s.setErasure rid ((authenticated s.users user).map fun u => .sweeping u.id))
    else none
  | .advanceErasure rid => (s.erasures rid).map (s.advanceErasure rid)

end Erasure

/-- The erasures as a transition system. -/
def erasure (P : SignInPlatform) : System Erasure ErasureAction := ⟨Erasure.step P⟩

/-! ### What is to hold -/

/-- The save allocates an alias. -/
def SavePurpose.allocates : SavePurpose → Bool
  | create | regenerateEmail _ => true
  | patch | update _ => false

namespace Erasure

/-- No request of the user is under way. -/
structure Ended (s : Erasure) (user : ℕ) : Prop where
  console : ∀ rid p, s.console.processes rid = some p → s.requester rid ≠ user
  requests : ∀ rid p, s.requests rid = some p → p.user ≠ user
  erasures : ∀ rid p, s.erasures rid = some p → p.user ≠ user

/-- What is left of a user: no application, no device that the user was the last to own, no token
that a refresh takes, and no alias that was not deprovisioned. -/
structure Leaves (s : Erasure) (user : ℕ) : Prop where
  applications : ∀ a ∈ s.applications.rows, a.ownerId ≠ user
  devices : ∀ d ∈ s.devices.rows, s.lastUser d.id ≠ some user
  tokens : ∀ token x, findUsable s.users s.tokens token = some x → x.userId ≠ user
  aliases : ∀ alias_, (user, alias_) ∈ s.provisionedFor → alias_ ∈ s.handed

/-- While an erasure has listed the aliases, no save of the user allocates one; and a save of a
whole row and a deletion find the alias that they loaded. -/
def KeepsAliases (s : Erasure) : ErasureAction → Prop
  | .console (.advance rid _) =>
    (∀ object purpose attempts,
      s.console.processes rid = some (.saving object purpose attempts) →
        s.console.aligned (.saving object purpose attempts) = true ∧
          (purpose.allocates = true → ∀ other stage, s.erasures other = some stage →
            stage.user = object.ownerId → stage.aliases = none)) ∧
    ∀ object, s.console.processes rid = some (.deleting object) →
      s.console.aligned (.deleting object) = true
  | _ => True

/-- While an erasure has deleted the devices, no upsert of the user lands. -/
def KeepsDevices (s : Erasure) : ErasureAction → Prop
  | .advance rid _ => ∀ user data, s.requests rid = some (.upserting user data) →
    ∀ other stage, s.erasures other = some stage → stage.user = user → stage.devices = none
  | _ => True

/-- No login or refresh of the user is under way when an erasure lists the tokens, and none
begins until the commit. -/
def KeepsTokens (P : SignInPlatform) (s : Erasure) : ErasureAction → Prop
  | .advanceErasure rid => ∀ user, s.erasures rid = some (.sweeping user) →
    ∀ other p, s.requests other = some p → p.signsIn user = false
  | .login _ email password => ∀ user, P.authenticateLogin s.users email password = some user →
    ∀ other stage, s.erasures other = some stage → stage.user = user.id → stage.swept = none
  | .refresh _ token => ∀ x, findUsable s.users s.tokens token = some x →
    ∀ other stage, s.erasures other = some stage → stage.user = x.userId → stage.swept = none
  | _ => True

end Erasure

end PushIT
