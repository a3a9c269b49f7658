import PushIT.InboundChecks
import PushIT.Library.JsonLoads

/-!
# The aliases of the shared mailbox

`exchange/services.py`, `exchange/integration.py` and their callers in `applications/models.py`
and `accounts/deletion.py`.  A PowerShell script is run for each alias; what it writes on its
standard output is parsed, and the errors of the family `ExchangeError` are swallowed on the way
to the caller.  The callers write to the database first and act on the aliases afterwards.

## Main definitions

* `Subprocess`: what a run of the script does.
* `runScript`, `addAlias`, `removeAlias`: `ExchangeAliasService`.
* `provisionAlias`, `deprovisionAlias`: what the callers use.
* `saveApplication`, `regenerateInboundEmail`, `deleteApplication`, `afterCommit`: the callers.
-/

namespace PushIT

open JsonText

/-! ### Errors -/

/-- The classes of `exchange/exceptions.py`. -/
inductive ExchangeErrorClass
  | exchangeError
  | exchangeConfigError
  | invalidAliasInput
  | exchangeAuthError
  | mailboxNotFound
  | aliasAlreadyExists
  | aliasNotFound
  | exchangeTimeoutError
  deriving DecidableEq, Repr

/-- The errors that can reach a caller of the service. -/
inductive PythonError
  | exchange (cls : ExchangeErrorClass)
  | osError
  | unicodeDecodeError
  | valueError
  | recursionError
  | attributeError
  | integrityError
  /-- Another error of the database. -/
  | databaseError
  /-- `RuntimeError`: no alias could be allocated. -/
  | runtimeError
  deriving DecidableEq, Repr

def errorCodes : List (String × ExchangeErrorClass) :=
  [("missing_param", .invalidAliasInput), ("missing_env", .exchangeConfigError),
    ("auth_failed", .exchangeAuthError), ("mailbox_not_found", .mailboxNotFound),
    ("alias_already_exists", .aliasAlreadyExists), ("alias_not_found", .aliasNotFound),
    ("exchange_error", .exchangeError)]

/-- `exception_for_code`, for the text of a value; that of a value other than a string is none of
the codes. -/
def exceptionForCode (code : Option Value) : ExchangeErrorClass :=
  match code with
  | some (.string s) =>
    ((errorCodes.find? fun c => codePoints c.1 == s).map (·.2)).getD .exchangeError
  | _ => .exchangeError

/-! ### The service -/

/-- The settings of the service. -/
structure ExchangeSettings where
  psScriptPath : String
  appId : String
  tenant : String
  sharedMailbox : String
  deriving DecidableEq, Repr

/-- `is_configured`. -/
def ExchangeSettings.isConfigured (E : ExchangeSettings) : Bool :=
  E.psScriptPath != "" && E.appId != "" && E.tenant != "" && E.sharedMailbox != ""

/-- What `subprocess.run` meets when it runs the script. -/
inductive Subprocess
  /-- The program cannot be started. -/
  | notStarted
  | timedOut
  /-- The output is no text in the encoding of the system. -/
  | undecodable
  | completed (stdout stderr : String) (returncode : ℤ)
  deriving DecidableEq, Repr

inductive AliasAction
  | add
  | remove
  deriving DecidableEq, Repr

def forbiddenChars : List Char :=
  ['"', '\'', Char.ofNat 0x60, '$', ';', '|', '&', '<', '>', '\n', '\r', '\t', '\\']

def isEmailLocalChar (c : Char) : Bool := c.isAlphanum || ['.', '_', '+', '-'].contains c

def isEmailDomainChar (c : Char) : Bool := c.isAlphanum || ['.', '-'].contains c

/-- `_EMAIL_RE.match`, for a text without line breaks: the letters after the last full stop of the
domain are at least two. -/
def matchesEmail (value : List Char) : Bool :=
  match splitFirst '@' value with
  | none => false
  | some (localPart, domain) =>
    localPart != [] && localPart.all isEmailLocalChar &&
      match splitLast '.' domain with
      | none => false
      | some (host, top) =>
        host != [] && host.all isEmailDomainChar && decide (2 ≤ top.length) && top.all Char.isAlpha

/-- `_validate_email`. -/
def validateEmail (value : String) : Except PythonError Unit :=
  if value = "" then .error (.exchange .invalidAliasInput)
  else if value.toList.any forbiddenChars.contains then .error (.exchange .invalidAliasInput)
  else if 320 < value.length then .error (.exchange .invalidAliasInput)
  else if matchesEmail value.toList then .ok ()
  else .error (.exchange .invalidAliasInput)

/-- The characters `str.splitlines` breaks lines at. -/
def isLineBreak (c : Char) : Bool :=
  (0x0A ≤ c.toNat && c.toNat ≤ 0x0D) || (0x1C ≤ c.toNat && c.toNat ≤ 0x1E) || c.toNat == 0x85 ||
    c.toNat == 0x2028 || c.toNat == 0x2029

/-- The last line that is not blank.  A line break of two characters leaves an empty line more,
which is blank. -/
def lastLine (stdout : String) : List Char :=
  (((stdout.toList.splitOnP isLineBreak).filter (·.any (!isPythonSpace ·))).getLast?).getD []

/-- The data of a payload, when it tells a success. -/
def payloadData : Value → Except PythonError Value
  | .object payload =>
    match Value.get "success" payload with
    | some (.bool true) => .ok ((Value.get "data" payload).getD .null)
    | _ => .error (.exchange (exceptionForCode (Value.get "error_code" payload)))
  | _ => .error (.exchange .exchangeError)

/-- `_run`: the data of a success, where the recursion limit leaves room for `maxDepth` nested
values. -/
def runScript (maxDepth : ℕ) : Subprocess → Except PythonError Value
  | .notStarted => .error .osError
  | .undecodable => .error .unicodeDecodeError
  | .timedOut => .error (.exchange .exchangeTimeoutError)
  | .completed stdout _ _ =>
    if strip stdout = "" then .error (.exchange .exchangeError)
    else
      match loads maxDepth (lastLine (strip stdout)) with
      | .error .decode => .error (.exchange .exchangeError)
      | .error .digits => .error .valueError
      | .error .recursion => .error .recursionError
      | .ok payload => payloadData payload

/-- `data.get`: an object has it alone. -/
def members : Value → Except PythonError (List (List ℕ × Value))
  | .object m => .ok m
  | _ => .error .attributeError

/-- The result of an addition or a removal: what the data names, or else the argument and the word
for the action. -/
structure AliasResult where
  mailbox : Value
  aliasEmail : Value
  action : Value

def AliasAction.done : AliasAction → String
  | .add => "added"
  | .remove => "removed"

/-- `add_alias` and `remove_alias`, which differ in the action. -/
def changeAlias (maxDepth : ℕ) (action : AliasAction) (p : Subprocess)
    (mailbox aliasEmail : String) : Except PythonError AliasResult := do
  validateEmail mailbox
  validateEmail aliasEmail
  let data ← members (← runScript maxDepth p)
  return {
    mailbox := (Value.get "mailbox" data).getD (.string (codePoints mailbox))
    aliasEmail := (Value.get "alias" data).getD (.string (codePoints aliasEmail))
    action := (Value.get "action" data).getD (.string (codePoints action.done)) }

def addAlias (maxDepth : ℕ) := changeAlias maxDepth .add
def removeAlias (maxDepth : ℕ) := changeAlias maxDepth .remove

/-! ### Towards the callers -/

/-- `except ExchangeConfigError` and `except ExchangeError`. -/
def swallow {α : Type} : Except PythonError α → Except PythonError Unit
  | .ok _ | .error (.exchange _) => .ok ()
  | .error e => .error e

/-- `provision_alias_for_application`, when the script behaves like `p`. -/
def provisionAlias (maxDepth : ℕ) (E : ExchangeSettings) (p : Subprocess) (aliasEmail : String) :
    Except PythonError Unit :=
  if !E.isConfigured then .ok ()
  else if E.psScriptPath = "" then swallow (α := Unit) (.error (.exchange .exchangeConfigError))
  else swallow (addAlias maxDepth p E.sharedMailbox aliasEmail)

/-- `deprovision_alias_for_application`. -/
def deprovisionAlias (maxDepth : ℕ) (E : ExchangeSettings) (p : Subprocess) (aliasEmail : String) :
    Except PythonError Unit :=
  if !E.isConfigured then .ok ()
  else if E.psScriptPath = "" then swallow (α := Unit) (.error (.exchange .exchangeConfigError))
  else swallow (removeAlias maxDepth p E.sharedMailbox aliasEmail)

/-! ### The callers -/

/-- The settings of the service and of the inbound mail, and the behaviour of the script for each
action on each address. -/
structure Exchange where
  settings : ExchangeSettings
  inbound : InboundSettings
  maxDepth : ℕ
  script : AliasAction → String → Subprocess

/-- An attempt of `save`: the alias drawn, and what the write of the row ends with. -/
structure SaveAttempt where
  alias_ : String
  write : Except PythonError Unit

section Callers

variable (P : MailPlatform) (X : Exchange)

def Exchange.provision (aliasEmail : String) : Except PythonError Unit :=
  provisionAlias X.maxDepth X.settings (X.script .add aliasEmail) aliasEmail

def Exchange.deprovision (aliasEmail : String) : Except PythonError Unit :=
  deprovisionAlias X.maxDepth X.settings (X.script .remove aliasEmail) aliasEmail

/-- `inbound_email_address`. -/
def inboundEmailAddress (alias_ : String) : String := alias_ ++ "@" ++ inboundDomain P X.inbound

/-- The attempts of `save` to write the row under a new alias. -/
def allocateAlias : Option PythonError → List SaveAttempt → Except PythonError String
  | lastError, [] => .error (lastError.getD .runtimeError)
  | lastError, a :: attempts =>
    if (mailboxAddresses P X.inbound).contains (inboundEmailAddress P X a.alias_) then
      allocateAlias lastError attempts
    else
      match a.write with
      | .ok () => .ok a.alias_
      | .error .integrityError => allocateAlias (some .integrityError) attempts
      | .error e => .error e

/-- The part of `save` that writes the row; it answers the alias of the application. -/
def writeApplication (alias_ : String) (update : Except PythonError Unit)
    (attempts : List SaveAttempt) : Except PythonError String :=
  if alias_ ≠ "" then update.map fun _ => alias_
  else allocateAlias P X none (attempts.take aliasAttempts)

/-- `Application.save`: a new alias is provisioned after the row was written. -/
def saveApplication (alias_ : String) (update : Except PythonError Unit)
    (attempts : List SaveAttempt) : Except PythonError String := do
  let saved ← writeApplication P X alias_ update attempts
  if alias_ = "" then X.provision (inboundEmailAddress P X saved)
  return saved

/-- `regenerate_inbound_email`. -/
def regenerateInboundEmail (old : String) (attempts : List SaveAttempt) :
    Except PythonError String := do
  let saved ← saveApplication P X "" (.ok ()) attempts
  if old ≠ "" ∧ old ≠ saved then X.deprovision (old ++ "@" ++ X.inbound.domain)
  return saved

/-- `Application.delete`, with the end of the deletion of the row. -/
def deleteApplication (alias_ : String) (deleted : Except PythonError Unit) :
    Except PythonError Unit := do
  deleted
  if alias_ ≠ "" then X.deprovision (alias_ ++ "@" ++ X.inbound.domain)

/-- What the erasure of an account handed to its clean-up, and the error it ended with. -/
structure CleanUp where
  aliases : List String
  images : List String
  error : Option PythonError
  deriving DecidableEq, Repr

/-- `_after_commit`; the removal of the image files raises nothing. -/
def afterCommit (images : List String) : List String → CleanUp
  | [] => ⟨[], images, none⟩
  | aliasEmail :: aliases =>
    match X.deprovision aliasEmail with
    | .ok () =>
      let rest := afterCommit images aliases
      { rest with aliases := aliasEmail :: rest.aliases }
    | .error e => ⟨[aliasEmail], [], some e⟩

end Callers

end PushIT
