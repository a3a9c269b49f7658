import Mathlib.Data.List.Infix
import PushIT.AppToken
import PushIT.InboundChecks

/-!
# Inbound mail

What the mailbox poller does with a mail: it validates it
(`NotificationInboundEmailSerializer`), keeps a journal of it (`notifications/inbound_journal.py`)
and may answer its sender (`notifications/inbound_reply.py`).  The database refuses a value longer
than its column or with a null character in it.

## Main definitions

* `GraphEmail.validate`: the serializer.
* `MailStore`: the database and the cache the poller works on.
* `recordInboundEmailIngestion`: a line of the journal.
* `autoReplyBlockReason`, `maybeReply`: the replies.
-/

namespace PushIT

open Relational

/-! ### Mails -/

/-- A mail as `fetch_unread_emails` returns it; the names of the headers are in lower case. -/
structure GraphEmail where
  graphId : String
  sender : String
  recipient : String
  subject : String
  text : String
  messageId : String
  authenticationResults : String := ""
  recipients : List String := []
  headers : List (String × String) := []
  deriving DecidableEq, Repr

def GraphEmail.header (e : GraphEmail) (name : String) : Option String := e.headers.lookup name

/-- `AUTH_AS_HEADER`. -/
def authAsHeader : String := "x-ms-exchange-organization-authas"

/-! ### The serializer -/

/-- `run_validation` of an `EmailField`. -/
def emailField (P : MailPlatform) (value : String) : Except (List FieldError) String :=
  let trimmed := strip value
  if trimmed = "" then .error [.library "blank"]
  else
    let errors :=
      (if trimmed.toList.contains nullCharacter then
        [FieldError.library "null_characters_not_allowed"] else []) ++
      (if P.isEmail trimmed then [] else [.library "invalid"])
    if errors = [] then .ok trimmed else .error errors

/-- `run_validation` of a `CharField` that trims and may be blank. -/
def blankableField (maxLength : Option ℕ) (value : String) : Except (List FieldError) String :=
  if strip value = "" then .ok "" else charField maxLength value

/-- The fields before `validate`. -/
structure InboundAttrs where
  sender : String
  recipient : String
  subject : String
  text : String
  messageId : String
  authenticationResults : String
  exchangeAuthAs : String
  deriving DecidableEq, Repr

def subjectMaxLength : ℕ := 255
def messageIdMaxLength : ℕ := 255

/-- `to_internal_value` on the data the poller passes. -/
def GraphEmail.toInternalValue (P : MailPlatform) (e : GraphEmail) :
    Except ValidationErrors InboundAttrs :=
  let sender := emailField P e.sender
  let recipient := emailField P e.recipient
  let subject := charField (some subjectMaxLength) e.subject
  let text := charField none e.text
  let messageId := blankableField (some messageIdMaxLength) e.messageId
  let authenticationResults := blankableField none e.authenticationResults
  let exchangeAuthAs := blankableField none ((e.header authAsHeader).getD "")
  match sender, recipient, subject, text, messageId, authenticationResults, exchangeAuthAs with
  | .ok sender, .ok recipient, .ok subject, .ok text, .ok messageId, .ok authenticationResults,
      .ok exchangeAuthAs =>
    .ok { sender, recipient, subject, text, messageId, authenticationResults, exchangeAuthAs }
  | _, _, _, _, _, _, _ =>
    .error (errorsOf "sender" sender ++ errorsOf "recipient" recipient ++
      errorsOf "subject" subject ++ errorsOf "text" text ++ errorsOf "message_id" messageId ++
      errorsOf "authentication_results" authenticationResults ++
      errorsOf "exchange_auth_as" exchangeAuthAs)

/-- `errors.setdefault(field, []).append(text)`. -/
def addError (errors : ValidationErrors) (error : String × String) : ValidationErrors :=
  if errors.any (·.1 == error.1) then
    errors.map fun e => if e.1 = error.1 then (e.1, e.2 ++ [.detail error.2]) else e
  else errors ++ [(error.1, [.detail error.2])]

/-- The application a mail is addressed to. -/
def inboundApplication (P : MailPlatform) (cfg : InboundSettings)
    (applications : Table ConsoleApplication) (localPart recipient : String) :
    Option ConsoleApplication :=
  if isAliasLocalPart P cfg localPart && !(mailboxAddresses P cfg).contains recipient then
    applications.rows.find? fun a =>
      P.upper a.inboundEmailAlias == P.upper localPart && a.isActive && a.revokedAt.isNone
  else none

/-- The address of the account of an owner. -/
def ownerEmail (users : Table User) (a : ConsoleApplication) : String :=
  ((users.get? a.ownerId).map (·.email)).getD ""

/-- `inbound_rejection` of the context, with the application and the verdict it stands with. -/
structure InboundRejection where
  application : ConsoleApplication
  ownerEmail : String
  reason : RejectionReason
  verdict : Option SenderAuthVerdict := none
  deriving DecidableEq, Repr

/-- The context and the data of a mail that passes. -/
structure InboundData where
  application : ConsoleApplication
  sender : String
  recipient : String
  title : String
  scheduledFor : Option AwareDateTime
  text : String
  messageId : String
  deriving DecidableEq, Repr

/-- How the validation ends. -/
inductive InboundVerdict
  | valid (data : InboundData)
  | invalid (errors : ValidationErrors) (rejection : Option InboundRejection)
  deriving DecidableEq, Repr

def noUserMatches : String := "No user matches this email address."

def noApplicationMatches : String := "No application matches this email address."

/-- The checks on the sender of a mail to an application: the policy, then the authentication of
whom it accepts. -/
def refuseSender (P : MailPlatform) (cfg : InboundSettings) (users : Table User)
    (attrs : InboundAttrs) (sender : String) (a : ConsoleApplication) : Option InboundRejection :=
  match evaluateSenderPolicy P (ownerEmail users a) a sender with
  | .refused reason => some { application := a, ownerEmail := ownerEmail users a, reason }
  | .accepted _ =>
    let domain := ((splitLast '@' sender.toList).map (·.2)).getD sender.toList
    let verdict := evaluateSenderAuthentication P cfg attrs.authenticationResults
      (String.ofList domain) attrs.exchangeAuthAs
    if cfg.requireDmarc ∧ ¬verdict.accepted then
      some
        { application := a
          ownerEmail := ownerEmail users a
          reason := .notAuthenticated
          verdict := some verdict }
    else none

/-- The error of the field `sender` that goes with a refusal. -/
def RejectionReason.error : RejectionReason → String
  | blocklisted => "Sender is blocked for this application."
  | notAllowed => "Sender is not allowed to send to this application."
  | notAuthenticated => "Sender failed DMARC authentication."

/-- The errors of `validate` but those of the sender, in the order in which they are found. -/
def InboundAttrs.details (P : MailPlatform) (cfg : InboundSettings) (now : Instant)
    (attrs : InboundAttrs) (domain : String) (application : Option ConsoleApplication) :
    List (String × String) :=
  let schedule := extractSubjectSchedule P attrs.subject
  (if domain ≠ inboundDomain P cfg then
    [("recipient", "Inbound domain must be " ++ inboundDomain P cfg ++ ".")] else []) ++
  (match schedule with
    | .error text => [("subject", text), ("subject", "Subject cannot be empty.")]
    | .ok (title, _) => if title = "" then [("subject", "Subject cannot be empty.")] else []) ++
  (if strip attrs.text = "" then [("text", "Email body cannot be empty.")]
    else if (strip attrs.text).length > notificationMessageMaxLength then
      [("text", "Email body is too long.")]
    else []) ++
  (match schedule with
    | .ok (_, some t) =>
      if t.instant ≤ now then [("subject", "Scheduled date must be in the future.")] else []
    | _ => []) ++
  (if application.isNone then [("recipient", noApplicationMatches)] else [])

/-- `validate`. -/
def InboundAttrs.validate (P : MailPlatform) (cfg : InboundSettings) (now : Instant)
    (applications : Table ConsoleApplication) (users : Table User) (attrs : InboundAttrs) :
    InboundVerdict :=
  let sender := P.lower (strip attrs.sender)
  let recipient := P.lower (strip attrs.recipient)
  match splitFirst '@' recipient.toList with
  | none => .invalid [("recipient", [.detail "Invalid email address."])] none
  | some (localPart, domain) =>
    let application :=
      inboundApplication P cfg applications (String.ofList localPart) recipient
    let details := attrs.details P cfg now (String.ofList domain) application
    match application with
    | none =>
      let known := users.rows.any (·.email == sender)
      .invalid ((details ++ if known then [] else [("sender", noUserMatches)]).foldl addError [])
        none
    | some a =>
      match refuseSender P cfg users attrs sender a, extractSubjectSchedule P attrs.subject with
      | none, .ok (title, scheduledFor) =>
        if details = [] then
          .valid
            { application := a
              sender
              recipient
              title
              scheduledFor
              text := strip attrs.text
              messageId := strip attrs.messageId }
        else .invalid (details.foldl addError []) none
      | rejection, _ =>
        .invalid ((details ++ (rejection.map fun r => ("sender", r.reason.error)).toList).foldl
          addError []) rejection

/-- What `validate` passes, by the parts it is made of. -/
structure InboundAttrs.Passes (P : MailPlatform) (cfg : InboundSettings) (now : Instant)
    (applications : Table ConsoleApplication) (users : Table User) (attrs : InboundAttrs)
    (d : InboundData) : Prop where
  routed : ∃ localPart domain,
    splitFirst '@' (P.lower (strip attrs.recipient)).toList = some (localPart, domain) ∧
      inboundApplication P cfg applications (String.ofList localPart)
        (P.lower (strip attrs.recipient)) = some d.application ∧
      attrs.details P cfg now (String.ofList domain) (some d.application) = []
  sender : refuseSender P cfg users attrs (P.lower (strip attrs.sender)) d.application = none
  subject : extractSubjectSchedule P attrs.subject = .ok (d.title, d.scheduledFor)
  data : d.sender = P.lower (strip attrs.sender) ∧ d.recipient = P.lower (strip attrs.recipient) ∧
    d.text = strip attrs.text ∧ d.messageId = strip attrs.messageId

theorem InboundAttrs.validate_eq_valid {P : MailPlatform} {cfg : InboundSettings} {now : Instant}
    {applications : Table ConsoleApplication} {users : Table User} {attrs : InboundAttrs}
    {d : InboundData} :
    attrs.validate P cfg now applications users = .valid d ↔
      attrs.Passes P cfg now applications users d := by
  constructor
  · intro h
    simp only [validate] at h
    split at h
    · simp at h
    · next localPart domain hsplit =>
      split at h
      · simp at h
      · next a happlication =>
        split at h
        · next title scheduledFor hsender hsubject =>
          split at h
          · next hdetails =>
            obtain rfl := InboundVerdict.valid.inj h
            rw [happlication] at hdetails
            exact ⟨⟨localPart, domain, hsplit, happlication, hdetails⟩, hsender, hsubject, rfl,
              rfl, rfl, rfl⟩
          · simp at h
        · simp at h
  · rintro ⟨⟨localPart, domain, hsplit, happlication, hdetails⟩, hsender, hsubject, hdata⟩
    obtain ⟨a, sender, recipient, title, scheduledFor, text, messageId⟩ := d
    obtain ⟨rfl, rfl, rfl, rfl⟩ := hdata
    simp only [validate, hsplit, happlication, hsender, hsubject, hdetails, if_true]

/-- `is_valid` on the data of a mail. -/
def GraphEmail.validate (P : MailPlatform) (cfg : InboundSettings) (now : Instant)
    (applications : Table ConsoleApplication) (users : Table User) (e : GraphEmail) :
    InboundVerdict :=
  match e.toInternalValue P with
  | .error errors => .invalid errors none
  | .ok attrs => attrs.validate P cfg now applications users

/-- The text stands in the message of an error. -/
def FieldError.mentions (text : String) : FieldError → Bool
  | library _ => false
  | detail message => decide (text.toList <:+: message.toList)

/-- `is_known_user_wrong_address`. -/
def isKnownUserWrongAddress (errors : ValidationErrors) : Bool :=
  ((errors.lookup "recipient").getD []).any (·.mentions "No application matches") &&
    !((errors.lookup "sender").getD []).any (·.mentions "No user matches")

/-! ### The store -/

inductive InboundEmailSource
  | polling
  | webhook
  deriving DecidableEq, Repr

inductive InboundEmailIngestionStatus
  | created
  | existing
  | rejected
  | conflict
  | error
  deriving DecidableEq, Repr

structure InboundEmailIngestionLog where
  id : ℕ
  source : InboundEmailSource
  status : InboundEmailIngestionStatus
  applicationId : Option ℕ
  notificationId : Option ℕ
  sender : String
  recipient : String
  subject : String
  messageId : String
  mailboxUid : String
  scheduledFor : Option Instant
  errorMessage : String
  processedAt : Instant
  deriving DecidableEq, Repr

instance : Keyed InboundEmailIngestionLog := ⟨InboundEmailIngestionLog.id⟩

@[simp] theorem pk_inboundEmailIngestionLog (l : InboundEmailIngestionLog) : pk l = l.id := rfl

/-- A mail that `send_email` sends. -/
structure OutgoingMail where
  to_ : String
  subject : String
  body : String
  deriving DecidableEq, Repr

/-- A notice to the owner of an application: a mail, or a push to the own devices. -/
inductive OwnerNotice
  | mail (mail : OutgoingMail)
  | push (title message reasonCode senderMasked : String)
  deriving DecidableEq, Repr

/-- What the processing of a mail leaves in the history, which no statement reads. -/
inductive MailEvent
  | created (e : GraphEmail) (notification : ℕ)
  | journalled (e : GraphEmail) (status : InboundEmailIngestionStatus)
  | reported (e : GraphEmail) (notice : OwnerNotice)
  | replied (e : GraphEmail) (mail : OutgoingMail)
  /-- The processing of the mail raised. -/
  | failed (e : GraphEmail) (text : String)
  /-- The mail was handed to `mark_email_read`. -/
  | marked (graphId : String)
  deriving DecidableEq, Repr

/-- The database, the shared cache with the instants at which its keys expire, and the history,
the newest event first. -/
structure MailStore where
  clock : Instant
  applications : Table ConsoleApplication := .empty
  users : Table User := .empty
  notifications : Table Notification := .empty
  journal : Table InboundEmailIngestionLog := .empty
  cache : List (String × Instant) := []
  history : List MailEvent := []

namespace MailStore

/-- The tables the creation of a notification works on. -/
def db (s : MailStore) : Db :=
  { applications := s.applications.map (fun a => a.toApplication) fun _ => rfl
    notifications := s.notifications }

def happened (s : MailStore) (event : MailEvent) : MailStore :=
  { s with history := event :: s.history }

/-- `cache.add`; `none` when the key is there. -/
def cacheAdd (s : MailStore) (key : String) (timeout : ℤ) : Option MailStore :=
  if s.cache.any fun entry => entry.1 == key && decide (s.clock < entry.2) then none
  else some { s with cache := (key, s.clock + timeout * 1000000) :: s.cache }

end MailStore

/-! ### The journal -/

/-- The text fits into a column: of a bounded length, if there is a bound, and without a null
character. -/
def fitsColumn (maxLength : Option ℕ) (text : String) : Bool :=
  !maxLength.any (fun m => decide (m < text.length)) && !text.toList.contains nullCharacter

theorem fitsColumn_none {text : String} :
    fitsColumn none text = true ↔ nullCharacter ∉ text.toList := by
  simp [fitsColumn]

theorem fitsColumn_some {m : ℕ} {text : String} :
    fitsColumn (some m) text = true ↔ text.length ≤ m ∧ nullCharacter ∉ text.toList := by
  simp [fitsColumn]

def emailFieldMaxLength : ℕ := 254
def journalFieldMaxLength : ℕ := 255

/-- `subject[:255]`. -/
def clipSubject (subject : String) : String :=
  String.ofList (subject.toList.take journalFieldMaxLength)

/-- The columns that hold texts of the mail accept them. -/
def GraphEmail.journalable (e : GraphEmail) : Bool :=
  fitsColumn (some emailFieldMaxLength) e.sender &&
    fitsColumn (some emailFieldMaxLength) e.recipient &&
    fitsColumn (some journalFieldMaxLength) (clipSubject e.subject) &&
    fitsColumn (some journalFieldMaxLength) e.messageId &&
    fitsColumn (some journalFieldMaxLength) e.graphId

/-- What a caller of the journal passes besides the mail. -/
structure JournalEntry where
  status : InboundEmailIngestionStatus
  scheduledFor : Option Instant := none
  application : Option ℕ := none
  notification : Option ℕ := none
  errorMessage : String := ""

/-- The row of an entry. -/
def JournalEntry.row (now : Instant) (e : GraphEmail) (entry : JournalEntry) (id : ℕ) :
    InboundEmailIngestionLog :=
  { id
    source := .polling
    status := entry.status
    applicationId := entry.application
    notificationId := entry.notification
    sender := e.sender
    recipient := e.recipient
    subject := clipSubject e.subject
    messageId := e.messageId
    mailboxUid := e.graphId
    scheduledFor := entry.scheduledFor
    errorMessage := entry.errorMessage
    processedAt := now }

theorem JournalEntry.pk_row (now : Instant) (e : GraphEmail) (entry : JournalEntry) (id : ℕ) :
    pk (entry.row now e id) = id := rfl

/-- The database accepts the row of an entry. -/
def JournalEntry.accepted (s : MailStore) (e : GraphEmail) (entry : JournalEntry) : Bool :=
  e.journalable && fitsColumn none entry.errorMessage &&
    entry.application.all (fun a => (s.applications.get? a).isSome) &&
    entry.notification.all fun n => (s.notifications.get? n).isSome

/-- `record_inbound_email_ingestion`; `none` when it raises. -/
def recordInboundEmailIngestion (s : MailStore) (e : GraphEmail) (entry : JournalEntry) :
    Option MailStore :=
  if entry.accepted s e then
    some
      { s with
        journal := s.journal.insert (entry.row s.clock e) (entry.pk_row s.clock e)
        history := .journalled e entry.status :: s.history }
  else none

/-! ### Replies -/

/-- The local parts of `_ROBOT_SENDER_RE`, before what may follow them. -/
def robotNames : List String :=
  ["mailer-daemon", "postmaster", "bounce", "bounces"] ++
    (["", "-", "_", "."].flatMap fun a => ["no" ++ a ++ "reply"] ++
      ["", "-", "_", "."].map fun b => "do" ++ a ++ "not" ++ b ++ "reply")

/-- `([-_.+].*)?$`, where the end may be followed by a last line break. -/
def isRobotTail : List Char → Bool
  | [] => true
  | c :: cs =>
    (c == '\n' && cs == []) || (['-', '_', '.', '+'].contains c && !cs.dropLast.contains '\n')

/-- `_ROBOT_SENDER_RE.match`. -/
def isRobot (localPart : List Char) : Bool :=
  robotNames.any fun name =>
    name.toList.isPrefixOf localPart && isRobotTail (localPart.drop name.length)

/-- `auto_reply_block_reason`; `none` is the empty text. -/
def autoReplyBlockReason (P : MailPlatform) (cfg : InboundSettings) (e : GraphEmail) :
    Option String :=
  let sender := normalizeAddress P e.sender
  let mailbox := mailboxAddresses P cfg
  let autoSubmitted := P.lower (strip ((e.header "auto-submitted").getD ""))
  let recipients :=
    if e.recipients ≠ [] then e.recipients else if e.recipient ≠ "" then [e.recipient] else []
  match splitFirst '@' sender.toList with
  | none => some "no_sender"
  | some (localPart, _) =>
    if autoSubmitted ≠ "" ∧ autoSubmitted ≠ "no" then some "auto_submitted"
    else if ["bulk", "junk", "list", "auto_reply"].contains
        (P.lower (strip ((e.header "precedence").getD ""))) then some "precedence"
    else if (e.header "x-auto-response-suppress").isSome then some "auto_response_suppressed"
    else if (e.header "list-id").isSome ∨ (e.header "list-unsubscribe").isSome then
      some "mailing_list"
    else if isRobot localPart then some "robot_sender"
    else if mailbox.contains sender then some "own_mailbox"
    else if recipients ≠ [] ∧ recipients.all mailbox.contains then
      some "addressed_to_mailbox_only"
    else none

/-- A slot of the shared cache, for an interval of the settings. -/
def claimSlot (cfg : InboundSettings) (s : MailStore) (key : String) : Option MailStore :=
  if cfg.autoReplyIntervalSeconds ≤ 0 then some s
  else s.cacheAdd key cfg.autoReplyIntervalSeconds

/-- `claim_auto_reply_slot`. -/
def claimAutoReplySlot (P : MailPlatform) (cfg : InboundSettings) (s : MailStore)
    (sender : String) : Option MailStore :=
  claimSlot cfg s ("inbound:auto-reply:" ++ P.sha256 (normalizeAddress P sender).toUTF8)

/-- `_claim_owner_notice_slot`. -/
def claimOwnerNoticeSlot (P : MailPlatform) (cfg : InboundSettings) (s : MailStore) (owner : ℕ)
    (channel : String) : Option MailStore :=
  claimSlot cfg s
    ("inbound:owner-notice:" ++ channel ++ ":" ++ P.sha256 (toString owner).toUTF8)

def ConsoleApplication.inboundEmailAddress (P : MailPlatform) (cfg : InboundSettings)
    (a : ConsoleApplication) : String :=
  a.inboundEmailAlias ++ "@" ++ inboundDomain P cfg

/-- `build_unknown_address_reply`; `none` is the empty subject.  The database orders the
applications by name. -/
def buildUnknownAddressReply (P : MailPlatform) (cfg : InboundSettings) (s : MailStore)
    (senderEmail triedRecipient : String) : Option OutgoingMail :=
  (s.users.rows.find? (·.email == senderEmail)).map fun user =>
    let apps := P.orderByName (s.applications.select fun a =>
      a.ownerId == user.id && a.isActive && a.revokedAt.isNone)
    if apps = [] then
      { to_ := senderEmail
        subject := "Undeliverable: no active application"
        body := "Your email to " ++ triedRecipient ++ " could not be delivered.\n\n" ++
          "You don't have any active applications configured.\n" ++
          "Please create an application first on PushIT." }
    else
      { to_ := senderEmail
        subject := "Undeliverable: unknown recipient address"
        body := "\n".intercalate
          (["Your email to " ++ triedRecipient ++ " could not be delivered " ++
              "because this address does not match any of your applications.",
            "", "Here are your valid inbound email addresses:", ""] ++
            (apps.map fun a => "  - " ++ a.name ++ ": " ++ a.inboundEmailAddress P cfg) ++
            ["", "Please resend your email to the correct address."]) }

/-- `build_rejected_sender_reply`. -/
def buildRejectedSenderReply (senderEmail triedRecipient : String) : OutgoingMail where
  to_ := senderEmail
  subject := "Undeliverable: sender not authorized"
  body := "\n".intercalate
    ["Your e-mail to " ++ triedRecipient ++ " was not accepted.", "",
      "This address only accepts messages from senders authorized by its owner.",
      "No notification was sent. If you think this is a mistake, contact the",
      "person who gave you this address."]

/-- `_maybe_send_unknown_address_reply` with the reply it would send. -/
def maybeReply (P : MailPlatform) (cfg : InboundSettings) (s : MailStore) (e : GraphEmail)
    (reply : Option OutgoingMail) : MailStore :=
  if (autoReplyBlockReason P cfg e).isSome then s
  else
    match claimAutoReplySlot P cfg s e.sender with
    | none => s
    | some s' => (reply.map fun mail => s'.happened (.replied e mail)).getD s'

/-- `_maybe_send_unknown_address_reply`. -/
def maybeSendUnknownAddressReply (P : MailPlatform) (cfg : InboundSettings) (s : MailStore)
    (e : GraphEmail) : MailStore :=
  maybeReply P cfg s e
    (buildUnknownAddressReply P cfg s (P.lower (strip e.sender)) e.recipient)

/-- `_reply_to_refused_sender`. -/
def replyToRefusedSender (P : MailPlatform) (cfg : InboundSettings) (s : MailStore)
    (e : GraphEmail) : MailStore :=
  let sender := P.lower (strip e.sender)
  if s.users.rows.any (·.email == sender) then maybeSendUnknownAddressReply P cfg s e
  else maybeReply P cfg s e (some (buildRejectedSenderReply sender e.recipient))

end PushIT
