import PushIT.Models
import PushIT.Library.LastSet
import PushIT.Library.Transition

/-!
# The console's requests on applications

`applications/api_views.py`, `applications/serializers.py` and the methods of
`applications/models.py`: every request loads an application, changes the instance in memory and
saves it, most of them with `update_fields`, PATCH and the regeneration of the inbound address as
a whole row.  A save that allocates an alias provisions it on the shared mailbox afterwards; the
regeneration and the deletion deprovision the alias they found.  Addresses are named by their
local part, since all aliases share the inbound domain, and every call of Exchange succeeds.

## Main definitions

* `ConsoleApplication`: an application row with its credentials.
* `ConsoleRequest.begin`, `ConsoleProcess.advance`: the requests, statement by statement.
* `Console`, `console`: the transition system.
-/

namespace PushIT

open Relational Transition

/-! ### Rows -/

inductive InboundSenderMode
  | owner
  | anyone
  deriving DecidableEq, Repr

/-- The columns that open or close a door of an application. -/
structure Credentials where
  appTokenPrefix : String
  appTokenHash : String
  revokedAt : Option Instant := none
  enrolmentCode : String
  enrolmentCodeRotatedAt : Option Instant := none
  inboundEmailAlias : String
  inboundEmailSuffix : String
  webhookSecret : String
  deriving DecidableEq, Repr

/-- An application row with the columns the console writes. -/
structure ConsoleApplication extends Application, Credentials where
  lastUsedAt : Option Instant := none
  webhookUrl : String := ""
  inboundSenderMode : InboundSenderMode := .owner
  inboundSenderAllowlist : List String := []
  inboundSenderBlocklist : List String := []
  inboundRejectionNotifyEmail : Bool := true
  inboundRejectionNotifyPush : Bool := false
  inboundRejectionReplyToSender : Bool := false
  deriving DecidableEq, Repr

instance : Keyed ConsoleApplication := ⟨fun a => a.id⟩

@[simp] theorem pk_consoleApplication (a : ConsoleApplication) : pk a = a.id := rfl

/-- The validated body of a PATCH; a field that is not sent is `none`. -/
structure ApplicationPatch where
  name : Option String := none
  description : Option String := none
  webhookUrl : Option String := none
  inboundSenderMode : Option InboundSenderMode := none
  inboundSenderAllowlist : Option (List String) := none
  inboundSenderBlocklist : Option (List String) := none
  inboundRejectionNotifyEmail : Option Bool := none
  inboundRejectionNotifyPush : Option Bool := none
  inboundRejectionReplyToSender : Option Bool := none
  deriving DecidableEq, Repr

/-- `ModelSerializer.update` sets the fields that were sent. -/
def ApplicationPatch.apply (d : ApplicationPatch) (a : ConsoleApplication) : ConsoleApplication :=
  { a with
    name := d.name.getD a.name
    description := d.description.getD a.description
    webhookUrl := d.webhookUrl.getD a.webhookUrl
    inboundSenderMode := d.inboundSenderMode.getD a.inboundSenderMode
    inboundSenderAllowlist := d.inboundSenderAllowlist.getD a.inboundSenderAllowlist
    inboundSenderBlocklist := d.inboundSenderBlocklist.getD a.inboundSenderBlocklist
    inboundRejectionNotifyEmail :=
      d.inboundRejectionNotifyEmail.getD a.inboundRejectionNotifyEmail
    inboundRejectionNotifyPush := d.inboundRejectionNotifyPush.getD a.inboundRejectionNotifyPush
    inboundRejectionReplyToSender :=
      d.inboundRejectionReplyToSender.getD a.inboundRejectionReplyToSender }

/-! ### Drawn values -/

/-- What the random generators return: a token by its prefix and its hash, an enrolment code, a
webhook secret, and an alias with its random part.  None of them is blank. -/
structure Draw where
  appTokenPrefix : String := "apt_"
  appTokenHash : String := "0"
  enrolmentCode : String := "apk_"
  webhookSecret : String := "whs_"
  alias_ : String := "app-0.pushit"
  aliasSuffix : String := "0"
  appTokenHash_ne : appTokenHash ≠ "" := by decide
  enrolmentCode_ne : enrolmentCode ≠ "" := by decide
  webhookSecret_ne : webhookSecret ≠ "" := by decide
  alias_ne : alias_ ≠ "" := by decide
  aliasSuffix_ne : aliasSuffix ≠ "" := by decide

/-- The draw of nothing after the prefixes. -/
def Draw.bare : Draw := {}

namespace ConsoleApplication

/-- `set_new_app_token`. -/
def setNewAppToken (draw : Draw) (a : ConsoleApplication) : ConsoleApplication :=
  { a with
    appTokenPrefix := draw.appTokenPrefix
    appTokenHash := draw.appTokenHash
    revokedAt := none
    lastUsedAt := none }

/-- `revoke_token`, before its save. -/
def revokeToken (now : Instant) (a : ConsoleApplication) : ConsoleApplication :=
  { a with revokedAt := some now }

/-- `rotate_enrolment_code`. -/
def rotateEnrolmentCode (now : Instant) (draw : Draw) (a : ConsoleApplication) :
    ConsoleApplication :=
  { a with enrolmentCode := draw.enrolmentCode, enrolmentCodeRotatedAt := some now }

/-- `rotate_webhook_secret`. -/
def rotateWebhookSecret (draw : Draw) (a : ConsoleApplication) : ConsoleApplication :=
  { a with webhookSecret := draw.webhookSecret }

/-- The regeneration clears the alias, so that the save allocates one. -/
def clearAlias (a : ConsoleApplication) : ConsoleApplication :=
  { a with inboundEmailAlias := "", inboundEmailSuffix := "" }

/-- The alias a save allocates. -/
def allocateAlias (draw : Draw) (a : ConsoleApplication) : ConsoleApplication :=
  { a with inboundEmailAlias := draw.alias_, inboundEmailSuffix := draw.aliasSuffix }

/-- The first lines of `Application.save`: blank credentials are drawn. -/
def fillBlanks (draw : Draw) (a : ConsoleApplication) : ConsoleApplication :=
  let a := if a.appTokenHash = "" then a.setNewAppToken draw else a
  let a := if a.enrolmentCode = "" then { a with enrolmentCode := draw.enrolmentCode } else a
  if a.webhookSecret = "" then a.rotateWebhookSecret draw else a

end ConsoleApplication

/-! ### Saves -/

/-- The columns a request is about, those of its `update_fields` when it has some. -/
inductive Columns
  | none
  | all
  | appToken
  | revokedAt
  | enrolment
  | webhookSecret
  | inboundEmail
  | isActive
  | logo
  deriving DecidableEq, Repr

/-- Copy the columns of an instance into a row. -/
def Columns.copy (c : Columns) (o row : ConsoleApplication) : ConsoleApplication :=
  match c with
  | none => row
  | all => o
  | appToken =>
    { row with
      appTokenPrefix := o.appTokenPrefix
      appTokenHash := o.appTokenHash
      revokedAt := o.revokedAt
      lastUsedAt := o.lastUsedAt }
  | revokedAt => { row with revokedAt := o.revokedAt }
  | enrolment =>
    { row with
      enrolmentCode := o.enrolmentCode
      enrolmentCodeRotatedAt := o.enrolmentCodeRotatedAt }
  | webhookSecret => { row with webhookSecret := o.webhookSecret }
  | inboundEmail =>
    { row with
      inboundEmailAlias := o.inboundEmailAlias
      inboundEmailSuffix := o.inboundEmailSuffix }
  | isActive => { row with isActive := o.isActive }
  | logo => { row with logo := o.logo }

/-- What a save is for. -/
inductive SavePurpose
  | create
  | patch
  /-- The regeneration of the inbound address, with the alias it found. -/
  | regenerateEmail (old : String)
  /-- A save with `update_fields`. -/
  | update (columns : Columns)
  deriving DecidableEq, Repr

/-- The credential columns the request explicitly sets. -/
def SavePurpose.sets : SavePurpose → Columns
  | create => .all
  | patch => .none
  | regenerateEmail _ => .inboundEmail
  | update columns => columns

/-- The alias to deprovision after the save, if it is not the new one. -/
def SavePurpose.old : SavePurpose → String
  | regenerateEmail old => old
  | _ => ""

/-- A unique column of the row is taken by another one. -/
def violatesUnique (applications : Table ConsoleApplication) (a : ConsoleApplication) : Bool :=
  applications.rows.any fun r => r.id != a.id &&
    (r.appTokenHash == a.appTokenHash || r.enrolmentCode == a.enrolmentCode ||
      r.inboundEmailAlias == a.inboundEmailAlias || r.inboundEmailSuffix == a.inboundEmailSuffix)

/-- `super().save()`: an instance without a key is inserted; the whole row is updated, or
inserted again when it is gone; `update_fields` of a row that is gone raise. -/
def write (applications : Table ConsoleApplication) (purpose : SavePurpose)
    (a : ConsoleApplication) : Option (ConsoleApplication × Table ConsoleApplication) :=
  match purpose with
  | .create =>
    let a' := { a with id := applications.seq + 1 }
    if violatesUnique applications a' then none else some (a', applications.put a')
  | .patch | .regenerateEmail _ =>
    if violatesUnique applications a then none else some (a, applications.put a)
  | .update columns =>
    (applications.get? a.id).bind fun row =>
      let a' := columns.copy a row
      if violatesUnique applications a' then none else some (a', applications.put a')

/-! ### Processes -/

/-- The attempts `save` makes to allocate an alias. -/
def aliasAttempts : ℕ := 12

/-- A request between two of its statements. -/
inductive ConsoleProcess
  /-- `save`, with the attempts left. -/
  | saving (object : ConsoleApplication) (purpose : SavePurpose) (attempts : ℕ)
  /-- The alias was allocated; it is provisioned, and the old one goes afterwards. -/
  | provisioning (alias_ old : String)
  | deprovisioning (alias_ : String)
  /-- `delete`, with the instance that was loaded. -/
  | deleting (object : ConsoleApplication)
  deriving DecidableEq, Repr

/-- The state: the rows, the aliases provisioned on the shared mailbox for applications, the
requests under way, and the history of the explicit changes, the newest first. -/
structure Console where
  applications : Table ConsoleApplication
  provisioned : List String := []
  processes : Pool ConsoleProcess := .idle
  changes : List (Change Columns ConsoleApplication) := []

/-- A request of the console; those on an application name its owner. -/
inductive ConsoleRequest
  | create (owner : ℕ) (name description : String) (draw : Draw)
  | patch (owner id : ℕ) (data : ApplicationPatch)
  | regenerateEmail (owner id : ℕ)
  | regenerateToken (owner id : ℕ) (draw : Draw)
  | revoke (owner id : ℕ)
  | rotateEnrolmentCode (owner id : ℕ) (draw : Draw)
  | rotateWebhookSecret (owner id : ℕ) (draw : Draw)
  | setActive (owner id : ℕ) (isActive : Bool)
  | setLogo (owner id : ℕ) (logo : String)
  | destroy (owner id : ℕ)

/-- What the environment contributes to a step: the time, the next draw, and whether the drawn
alias is an address of the polled mailbox. -/
structure ConsoleInput where
  now : Instant := 0
  draw : Draw := .bare
  isMailboxAddress : Bool := false

inductive ConsoleAction
  | request (rid : ℕ) (now : Instant) (r : ConsoleRequest)
  | advance (rid : ℕ) (input : ConsoleInput)

/-- The request an action belongs to. -/
def ConsoleAction.rid : ConsoleAction → ℕ
  | .request rid _ _ | .advance rid _ => rid

namespace Console

/-- `_get_app_or_404` and the queryset of the detail view. -/
def load (s : Console) (owner id : ℕ) : Option ConsoleApplication :=
  (s.applications.get? id).filter fun a => a.ownerId == owner

def setProcess (s : Console) (rid : ℕ) (p : Option ConsoleProcess) : Console :=
  { s with processes := s.processes.set rid p }

/-- The instance as the request changed it goes to its save. -/
def save (s : Console) (rid : ℕ) (a : ConsoleApplication) (purpose : SavePurpose) : Console :=
  s.setProcess rid (some (.saving a purpose aliasAttempts))

/-- A new instance, with the token the create serializer sets. -/
def newApplication (owner : ℕ) (name description : String) (draw : Draw) : ConsoleApplication :=
  ConsoleApplication.setNewAppToken draw
    { id := 0
      ownerId := owner
      name
      description
      appTokenPrefix := ""
      appTokenHash := ""
      enrolmentCode := ""
      inboundEmailAlias := ""
      inboundEmailSuffix := ""
      webhookSecret := "" }

/-- The part of a request on a loaded application before its save.  An application that is
already as asked is not saved. -/
def beginOn (s : Console) (rid : ℕ) (now : Instant) (a : ConsoleApplication) :
    ConsoleRequest → Console
  | .create _ _ _ _ => s
  | .patch _ _ data => s.save rid (data.apply a) .patch
  | .regenerateEmail _ _ => s.save rid a.clearAlias (.regenerateEmail a.inboundEmailAlias)
  | .regenerateToken _ _ draw => s.save rid (a.setNewAppToken draw) (.update .appToken)
  | .revoke _ _ => s.save rid (a.revokeToken now) (.update .revokedAt)
  | .rotateEnrolmentCode _ _ draw =>
    s.save rid (a.rotateEnrolmentCode now draw) (.update .enrolment)
  | .rotateWebhookSecret _ _ draw =>
    s.save rid (a.rotateWebhookSecret draw) (.update .webhookSecret)
  | .setActive _ _ isActive =>
    if a.isActive = isActive then
      { s with changes := ⟨a.id, .isActive, a⟩ :: s.changes }
    else s.save rid { a with isActive } (.update .isActive)
  | .setLogo _ _ logo => s.save rid { a with logo } (.update .logo)
  | .destroy _ _ => s.setProcess rid (some (.deleting a))

/-- The application a request is about. -/
def target : ConsoleRequest → Option (ℕ × ℕ)
  | .create _ _ _ _ => none
  | .patch owner id _ | .regenerateEmail owner id | .regenerateToken owner id _
  | .revoke owner id | .rotateEnrolmentCode owner id _ | .rotateWebhookSecret owner id _
  | .setActive owner id _ | .setLogo owner id _ | .destroy owner id => some (owner, id)

/-- The first statements of a request; one for an application that is not the owner's is a 404. -/
def begin (s : Console) (rid : ℕ) (now : Instant) (r : ConsoleRequest) : Console :=
  match r with
  | .create owner name description draw =>
    s.save rid (newApplication owner name description draw) .create
  | r =>
    match (target r).bind fun t => s.load t.1 t.2 with
    | some a => s.beginOn rid now a r
    | none => s

/-- The row was written. -/
def written (s : Console) (rid : ℕ) (purpose : SavePurpose) (a : ConsoleApplication)
    (applications : Table ConsoleApplication) (next : Option ConsoleProcess) : Console :=
  { s with
    applications
    processes := s.processes.set rid next
    changes := ⟨a.id, purpose.sets, a⟩ :: s.changes }

/-- The next attempt of `save`; after the last one it raises. -/
def retrySave (s : Console) (rid : ℕ) (a : ConsoleApplication) (purpose : SavePurpose) :
    ℕ → Console
  | 0 | 1 => s.setProcess rid none
  | k + 1 => s.setProcess rid (some (.saving a purpose k))

/-- An attempt of `save`. -/
def saveStep (s : Console) (rid : ℕ) (input : ConsoleInput) (object : ConsoleApplication)
    (purpose : SavePurpose) (attempts : ℕ) : Console :=
  let a := object.fillBlanks input.draw
  if a.inboundEmailAlias ≠ "" then
    let a :=
      if a.inboundEmailSuffix = "" then { a with inboundEmailSuffix := input.draw.aliasSuffix }
      else a
    match write s.applications purpose a with
    | some (a', applications) => s.written rid purpose a' applications none
    | none => s.setProcess rid none
  else if input.isMailboxAddress then s.retrySave rid a purpose attempts
  else
    match write s.applications purpose (a.allocateAlias input.draw) with
    | some (a', applications) =>
      s.written rid purpose a' applications (some (.provisioning input.draw.alias_ purpose.old))
    | none => s.retrySave rid a purpose attempts

/-- The next statement of a process. -/
def advance (s : Console) (rid : ℕ) (input : ConsoleInput) : ConsoleProcess → Console
  | .saving object purpose attempts => s.saveStep rid input object purpose attempts
  | .provisioning alias_ old =>
    { s with
      provisioned := alias_ :: s.provisioned
      processes := s.processes.set rid
        (if old ≠ "" ∧ old ≠ alias_ then some (.deprovisioning old) else none) }
  | .deprovisioning alias_ =>
    { s with
      provisioned := s.provisioned.filter (· != alias_)
      processes := s.processes.set rid none }
  | .deleting object =>
    { s with
      applications := s.applications.delete fun r => r.id == object.id
      processes := s.processes.set rid
        (if object.inboundEmailAlias ≠ "" then some (.deprovisioning object.inboundEmailAlias)
          else none) }

/-- One action; `none` when nothing can perform it. -/
def step (s : Console) : ConsoleAction → Option Console
  | .request rid now r => if (s.processes rid).isNone then some (s.begin rid now r) else none
  | .advance rid input => (s.processes rid).map (s.advance rid input)

end Console

/-- The console's requests as a transition system. -/
def console : System Console ConsoleAction := ⟨Console.step⟩

end PushIT
