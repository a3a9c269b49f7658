import PushIT.AppTokenSteps
import PushIT.InboundMail

/-!
# The mailbox poller

`notifications/inbound_mailbox.py`: `_process_email` one statement at a time, on a store that
others may change in between, and `poll_inbound_mailbox`, which runs it on the unread mails and
catches what it raises.  The handler of an exception keeps a line in the journal, outside of any
`try`.

## Main definitions

* `GraphEmail.advance`: the statements of `_process_email`.
* `processEmail`: all of them, with an exception of the environment.
* `recordProcessingFailure`, `pollInboundMailbox`: the handler and the poll.

## Main results

* `GraphEmail.advance_rank`: `_process_email` comes to an end.
-/

namespace PushIT

open Relational

/-! ### Notices to the owner -/

/-- `mask_email`. -/
def maskEmail (address : String) : String :=
  match splitFirst '@' address.toList with
  | none => if address = "" then "" else "***"
  | some (localPart, domain) => String.ofList (localPart.take 1) ++ "***@" ++ String.ofList domain

/-- `_REASON_TEXT`. -/
def RejectionReason.why : RejectionReason → String
  | blocklisted => "the sender is on the application's blocklist"
  | notAllowed => "the sender is neither the owner nor on the application's allowlist"
  | notAuthenticated => "the sender failed authentication (SPF/DKIM/DMARC)"

/-- The reason of a refusal as the notices give it. -/
def InboundRejection.why (r : InboundRejection) : String :=
  match r.verdict with
  | none => r.reason.why
  | some verdict => r.reason.why ++ " (" ++ verdict.reason ++ ")"

/-- The mail of `_build_owner_notice`. -/
def buildOwnerMail (P : MailPlatform) (cfg : InboundSettings) (r : InboundRejection)
    (sender : String) : OutgoingMail where
  to_ := r.ownerEmail
  subject :=
    if r.reason = .notAuthenticated then "PushIT: inbound e-mail refused (sender not authenticated)"
    else "PushIT: inbound e-mail refused"
  body := "\n".intercalate
    (["PushIT refused an e-mail sent to " ++ r.application.inboundEmailAddress P cfg ++
        " (application \"" ++ r.application.name ++ "\").",
      "Sender: " ++ maskEmail sender, "Reason: " ++ r.why ++ ".", "No notification was sent.",
      ""] ++
      if r.reason = .notAuthenticated then
        ["If the sender is legitimate, their mail domain probably lacks SPF/DKIM",
          "alignment or a DMARC record; ask their mail administrator.",
          "If not, someone may be trying to send notifications in their name:",
          "regenerate the application's inbound address in PushIT."]
      else
        ["You can change who may send to this address in the application's",
          "sending settings in PushIT."])

/-- The text of the push of `_build_owner_notice`. -/
def ownerPushText (r : InboundRejection) (sender : String) : String :=
  "Mail from " ++ maskEmail sender ++ " to " ++ r.application.name ++ " refused: " ++ r.why ++ "."

/-- The mail of `_notify_owner_of_rejection`. -/
def notifyOwnerByMail (P : MailPlatform) (cfg : InboundSettings) (s : MailStore) (e : GraphEmail)
    (r : InboundRejection) : MailStore :=
  if r.application.inboundRejectionNotifyEmail ∧
      (r.reason = .notAuthenticated → cfg.dmarcNotifyOwner) ∧ r.ownerEmail ≠ "" then
    ((claimOwnerNoticeSlot P cfg s r.application.ownerId "email").map fun s' =>
      s'.happened (.reported e (.mail (buildOwnerMail P cfg r e.sender)))).getD s
  else s

/-- The push of `_notify_owner_of_rejection`. -/
def notifyOwnerByPush (P : MailPlatform) (cfg : InboundSettings) (s : MailStore) (e : GraphEmail)
    (r : InboundRejection) : MailStore :=
  if r.application.inboundRejectionNotifyPush then
    ((claimOwnerNoticeSlot P cfg s r.application.ownerId "push").map fun s' =>
      s'.happened (.reported e (.push "PushIT: inbound e-mail refused"
        (ownerPushText r e.sender) r.reason.logCode (maskEmail e.sender)))).getD s
  else s

/-! ### Creation -/

/-- The columns of a notification accept the texts of a call. -/
def CreationCall.fitsColumns (c : CreationCall) : Bool :=
  fitsColumn (some notificationTitleMaxLength) c.title && fitsColumn none c.message &&
    fitsColumn (some idempotencyKeyMaxLength) c.idempotencyKey

/-- `idempotency_key`. -/
def InboundData.idempotencyKey (e : GraphEmail) (d : InboundData) : String :=
  if d.messageId = "" then "graph-" ++ e.graphId else d.messageId

/-- The data under the fingerprint of a mail. -/
def InboundData.members (P : MailPlatform) (d : InboundData) : List JsonText.Member :=
  [("sender", .text d.sender), ("recipient", .text d.recipient), ("title", .text d.title),
    ("message", .text d.text),
    ("scheduled_for", (d.scheduledFor.map fun t => JsonText.Scalar.text (P.encode t)).getD .null)]

/-- The call of `create_notification_with_optional_idempotency`. -/
def InboundData.creation (P : MailPlatform) (e : GraphEmail) (d : InboundData) : CreationCall where
  applicationId := d.application.id
  title := d.title
  message := d.text
  scheduledFor := d.scheduledFor.map (·.instant)
  idempotencyKey := d.idempotencyKey e
  requestFingerprint := P.sha256 (JsonText.dumps (d.members P)).toUTF8

/-! ### The statements of `_process_email` -/

/-- The second value that `_process_email` returns; the first one is always true. -/
inductive MailOutcome
  | ignored
  | rejected
  | conflict
  | created
  | existing
  deriving DecidableEq, Repr

/-- The statement `_process_email` performs next. -/
inductive MailStage
  /-- The alias is looked at and the mail is validated. -/
  | received
  /-- The policy or the authentication refused the sender: the journal. -/
  | refusing (r : InboundRejection)
  | notifying (r : InboundRejection)
  | pushing (r : InboundRejection)
  | replying (r : InboundRejection)
  /-- A known user wrote to an unknown alias. -/
  | answering (errors : ValidationErrors)
  /-- The mail is not valid: the journal. -/
  | rejecting (errors : ValidationErrors)
  | creating (d : InboundData) (stage : CreationStage)
  /-- The creation returned: the journal. -/
  | recording (d : InboundData) (o : NotificationCreationOutcome)

/-- How a statement ends. -/
inductive MailNext
  | goes (stage : MailStage)
  | ends (outcome : MailOutcome)
  | raises (text : String)

structure MailStep where
  store : MailStore
  next : MailNext

/-- The statement writes the journal. -/
def journalling (P : MailPlatform) (s : MailStore) (e : GraphEmail) (entry : JournalEntry)
    (next : MailNext) : MailStep :=
  match recordInboundEmailIngestion s e entry with
  | some s' => ⟨s', next⟩
  | none => ⟨s, .raises P.databaseError⟩

namespace InboundRejection

/-- The `error_message` of the journal. -/
def errorMessage (r : InboundRejection) : String :=
  match r.verdict with
  | some verdict =>
    r.reason.logCode ++ ": Sender failed DMARC authentication (" ++ verdict.reason ++ ")."
  | none =>
    r.reason.logCode ++ ": Sender refused by the application's inbound policy (" ++
      r.reason.value ++ ")."

/-- The entry of the journal. -/
def entry (r : InboundRejection) : JournalEntry where
  status := .rejected
  application := some r.application.id
  errorMessage := r.errorMessage

end InboundRejection

/-- The entry of a mail that is not valid. -/
def rejectedEntry (P : MailPlatform) (errors : ValidationErrors) : JournalEntry where
  status := .rejected
  errorMessage := P.renderErrors errors

/-- What a creation comes to. -/
def NotificationCreationOutcome.mailOutcome (o : NotificationCreationOutcome) : MailOutcome :=
  if o.conflict then .conflict else if o.created then .created else .existing

/-- The entry of a mail whose creation returned. -/
def InboundData.entry (d : InboundData) (o : NotificationCreationOutcome) : JournalEntry where
  status := if o.conflict then .conflict else if o.created then .created else .existing
  scheduledFor := d.scheduledFor.map (·.instant)
  application := some d.application.id
  notification := some o.notification.id
  errorMessage :=
    if o.conflict then "Message already processed with different content." else ""

namespace GraphEmail

variable (P : MailPlatform) (cfg : InboundSettings)

/-- The first statement. -/
def receive (s : MailStore) (e : GraphEmail) : MailNext :=
  if !isInboundAliasAddress P cfg e.recipient then .ends .ignored
  else
    match e.validate P cfg s.clock s.applications s.users with
    | .valid d => .goes (.creating d .inserting)
    | .invalid _ (some r) => .goes (.refusing r)
    | .invalid errors none =>
      if isKnownUserWrongAddress errors then .goes (.answering errors)
      else .goes (.rejecting errors)

/-- A statement of the creation. -/
def create (s : MailStore) (e : GraphEmail) (d : InboundData) (stage : CreationStage) : MailStep :=
  let c := d.creation P e
  if stage = .inserting ∧ !c.fitsColumns then ⟨s, .raises P.databaseError⟩
  else
    let step := c.advance s.clock s.db stage
    let s' := { s with notifications := step.db.notifications }
    match step.next with
    | .ok stage' => ⟨s', .goes (.creating d stage')⟩
    | .error .raised => ⟨s', .raises P.databaseError⟩
    | .error (.returned o) =>
      ⟨if o.created then s'.happened (.created e o.notification.id) else s',
        .goes (.recording d o)⟩

/-- One statement of `_process_email`. -/
def advance (s : MailStore) (e : GraphEmail) : MailStage → MailStep
  | .received => ⟨s, e.receive P cfg s⟩
  | .refusing r => journalling P s e r.entry (.goes (.notifying r))
  | .notifying r => ⟨notifyOwnerByMail P cfg s e r, .goes (.pushing r)⟩
  | .pushing r => ⟨notifyOwnerByPush P cfg s e r, .goes (.replying r)⟩
  | .replying r =>
    ⟨if r.application.inboundRejectionReplyToSender ∧ r.reason ≠ .notAuthenticated then
      replyToRefusedSender P cfg s e else s, .ends .rejected⟩
  | .answering errors => ⟨maybeSendUnknownAddressReply P cfg s e, .goes (.rejecting errors)⟩
  | .rejecting errors => journalling P s e (rejectedEntry P errors) (.ends .rejected)
  | .creating d stage => e.create P s d stage
  | .recording d o => journalling P s e (d.entry o) (.ends o.mailOutcome)

/-- At most so many statements of `_process_email`, one after the other. -/
def run (e : GraphEmail) : ℕ → MailStore → MailStage → MailStep
  | 0, s, stage => ⟨s, .goes stage⟩
  | n + 1, s, stage =>
    match e.advance P cfg s stage with
    | ⟨s', .goes stage'⟩ => e.run n s' stage'
    | step => step

end GraphEmail

/-- An exception of the environment: it is raised after so many statements, or at the end, and it
has this text. -/
structure Fault where
  after : ℕ
  text : String
  deriving DecidableEq, Repr

/-- The statements of the longest way through `_process_email`. -/
def processStatements : ℕ := 5

/-- `_process_email`. -/
def processEmail (P : MailPlatform) (cfg : InboundSettings) (s : MailStore) (e : GraphEmail)
    (fault : Option Fault) : MailStore × Except String MailOutcome :=
  match fault with
  | some f => ((e.run P cfg f.after s .received).store, .error f.text)
  | none =>
    let step := e.run P cfg processStatements s .received
    match step.next with
    | .ends outcome => (step.store, .ok outcome)
    | .raises text => (step.store, .error text)
    | .goes _ => (step.store, .error "")

/-! ### The poll -/

/-- The count of `_record_processing_failure`. -/
def MailStore.failureCount (s : MailStore) (uid : String) : ℕ :=
  (s.journal.select fun l =>
    l.source == .polling && l.status == .error && l.mailboxUid == uid).length

/-- The store after the handler, and whether the handler raised itself. -/
structure Handled where
  store : MailStore
  raised : Bool := false

/-- `log.error_message = ...`. -/
def setErrorMessage (text : String) (l : InboundEmailIngestionLog) : InboundEmailIngestionLog :=
  { l with errorMessage := text }

theorem pk_setErrorMessage (text : String) (l : InboundEmailIngestionLog) :
    pk (setErrorMessage text l) = pk l := rfl

def givingUp (attempts : ℕ) (text : String) : String :=
  "Giving up after " ++ toString attempts ++ " failed attempts (marked read): " ++ text

/-- `_record_processing_failure`. -/
def recordProcessingFailure (cfg : InboundSettings) (s : MailStore) (e : GraphEmail)
    (text : String) : Handled :=
  match recordInboundEmailIngestion s e { status := .error, errorMessage := text } with
  | none => { store := s, raised := true }
  | some s' =>
    let attempts := s'.failureCount e.graphId
    if e.graphId = "" ∨ cfg.maxProcessingAttempts ≤ 0 ∨ attempts < cfg.maxProcessingAttempts then
      { store := s' }
    else
      let message := givingUp attempts text
      if fitsColumn none message then
        { store :=
            { s' with
              journal := s'.journal.modify (s.journal.seq + 1) (setErrorMessage message)
                (pk_setErrorMessage message)
              history := .marked e.graphId :: s'.history } }
      else { store := s', raised := true }

/-- The counts of the answer. -/
structure PollCounts where
  processed : ℕ := 0
  created : ℕ := 0
  rejected : ℕ := 0
  ignored : ℕ := 0
  failed : ℕ := 0
  deriving DecidableEq, Repr

/-- A mail was processed. -/
def PollCounts.count (c : PollCounts) (outcome : MailOutcome) : PollCounts :=
  { c with
    processed := c.processed + 1
    created := c.created + if outcome = .created then 1 else 0
    rejected := c.rejected + if outcome = .rejected then 1 else 0
    ignored := c.ignored + if outcome = .ignored then 1 else 0 }

/-- The loop of a poll: the mails it took up so far, and whether it was left by an exception. -/
structure Poll where
  store : MailStore
  attempted : List GraphEmail := []
  counts : PollCounts := {}
  raised : Bool := false

/-- The mails of a batch, each with the exception the environment raises in its processing. -/
abbrev Batch := List (GraphEmail × Option Fault)

/-- A round of the loop. -/
def Poll.round (P : MailPlatform) (cfg : InboundSettings) (p : Poll)
    (mail : GraphEmail × Option Fault) : Poll :=
  if p.raised then p
  else
    let attempted := p.attempted ++ [mail.1]
    match processEmail P cfg p.store mail.1 mail.2 with
    | (s, .ok outcome) =>
      { store := s.happened (.marked mail.1.graphId)
        attempted
        counts := p.counts.count outcome }
    | (s, .error text) =>
      let handled := recordProcessingFailure cfg (s.happened (.failed mail.1 text)) mail.1 text
      { store := handled.store
        attempted
        counts := { p.counts with failed := p.counts.failed + 1 }
        raised := handled.raised }

/-- The answer of `poll_inbound_mailbox`. -/
inductive PollAnswer
  | skipped
  | error (reason : String)
  | ok (counts : PollCounts)
  | raised
  deriving DecidableEq, Repr

structure PollResult where
  store : MailStore
  attempted : List GraphEmail := []
  answer : PollAnswer

/-- `poll_inbound_mailbox` on what `fetch_unread_emails` returns or raises. -/
def pollInboundMailbox (P : MailPlatform) (cfg : InboundSettings) (s : MailStore)
    (fetched : Except String Batch) : PollResult :=
  if cfg.graphClientId = "" then { store := s, answer := .skipped }
  else
    match fetched with
    | .error reason => { store := s, answer := .error reason }
    | .ok batch =>
      let p := batch.foldl (Poll.round P cfg) { store := s }
      { store := p.store
        attempted := p.attempted
        answer := if p.raised then .raised else .ok p.counts }

/-! ### What a statement does -/

/-- The statements still to come, at most. -/
def MailStage.rank : MailStage → ℕ
  | received => 5
  | refusing _ => 4
  | notifying _ => 3
  | pushing _ => 2
  | replying _ => 1
  | answering _ => 2
  | rejecting _ => 1
  | creating _ .inserting => 3
  | creating _ .reading => 2
  | recording _ _ => 1

/-- What a statement may leave in the history. -/
inductive MailStage.Emits (e : GraphEmail) : MailStage → MailEvent → Prop
  | refused (r : InboundRejection) : Emits e (.refusing r) (.journalled e .rejected)
  | mailed (r : InboundRejection) (notice : OwnerNotice) :
      Emits e (.notifying r) (.reported e notice)
  | pushed (r : InboundRejection) (notice : OwnerNotice) :
      Emits e (.pushing r) (.reported e notice)
  | replied (r : InboundRejection) (mail : OutgoingMail) : Emits e (.replying r) (.replied e mail)
  | answered (errors : ValidationErrors) (mail : OutgoingMail) :
      Emits e (.answering errors) (.replied e mail)
  | rejected (errors : ValidationErrors) : Emits e (.rejecting errors) (.journalled e .rejected)
  | created (d : InboundData) (id : ℕ) : Emits e (.creating d .inserting) (.created e id)
  | recorded (d : InboundData) (o : NotificationCreationOutcome)
      (status : InboundEmailIngestionStatus) (hstatus : status ≠ .rejected) :
      Emits e (.recording d o) (.journalled e status)

/-- A statement writes at most one event, keeps the rows the console writes, adds to the journal,
and leaves the notifications alone unless it inserts one. -/
structure MailStore.Effect (e : GraphEmail) (stage : MailStage) (s s' : MailStore) : Prop where
  clock : s'.clock = s.clock
  applications : s'.applications = s.applications
  users : s'.users = s.users
  history : s'.history = s.history ∨
    ∃ event, stage.Emits e event ∧ s'.history = event :: s.history
  journal : ∀ l ∈ s.journal.rows, l ∈ s'.journal.rows
  notifications : s'.notifications = s.notifications ∨ ∃ d, stage = .creating d .inserting

namespace MailStore

variable {P : MailPlatform} {cfg : InboundSettings} {s s' : MailStore} {e : GraphEmail}
  {stage : MailStage}

theorem Effect.refl (e : GraphEmail) (stage : MailStage) (s : MailStore) : s.Effect e stage s :=
  ⟨rfl, rfl, rfl, Or.inl rfl, fun _ h => h, Or.inl rfl⟩

theorem claimSlot_eq_some {key : String} (h : claimSlot cfg s key = some s') :
    ∃ cache, s' = { s with cache } := by
  unfold claimSlot cacheAdd at h
  split at h
  · exact ⟨s.cache, (Option.some.inj h).symm⟩
  · split at h
    · simp at h
    · exact ⟨_, (Option.some.inj h).symm⟩

/-- A claim, and what is written once the slot is granted. -/
theorem effect_claimSlot {key : String} {event : MailEvent} (h : stage.Emits e event) :
    s.Effect e stage (((claimSlot cfg s key).map fun t => t.happened event).getD s) := by
  cases hclaim : claimSlot cfg s key with
  | none => exact .refl e stage s
  | some t =>
    obtain ⟨cache, rfl⟩ := claimSlot_eq_some hclaim
    exact ⟨rfl, rfl, rfl, Or.inr ⟨event, h, rfl⟩, fun _ h => h, Or.inl rfl⟩

theorem effect_maybeReply {reply : Option OutgoingMail}
    (h : ∀ mail, stage.Emits e (.replied e mail)) :
    s.Effect e stage (maybeReply P cfg s e reply) := by
  unfold maybeReply
  split
  · exact .refl e stage s
  · split
    · exact .refl e stage s
    · next t hclaim =>
      obtain ⟨cache, rfl⟩ := claimSlot_eq_some hclaim
      cases reply with
      | none => exact ⟨rfl, rfl, rfl, Or.inl rfl, fun _ h => h, Or.inl rfl⟩
      | some mail => exact ⟨rfl, rfl, rfl, Or.inr ⟨_, h mail, rfl⟩, fun _ h => h, Or.inl rfl⟩

theorem recordInboundEmailIngestion_eq_some {entry : JournalEntry}
    (h : recordInboundEmailIngestion s e entry = some s') :
    entry.accepted s e = true ∧
      s' =
        { s with
          journal := s.journal.insert (entry.row s.clock e) (entry.pk_row s.clock e)
          history := .journalled e entry.status :: s.history } := by
  unfold recordInboundEmailIngestion at h
  split at h
  · next haccepted => exact ⟨haccepted, (Option.some.inj h).symm⟩
  · simp at h

theorem effect_journalling {entry : JournalEntry} {next : MailNext}
    (h : stage.Emits e (.journalled e entry.status)) :
    s.Effect e stage (journalling P s e entry next).store := by
  unfold journalling
  cases hrecord : recordInboundEmailIngestion s e entry with
  | none => exact .refl e stage s
  | some t =>
    obtain ⟨-, rfl⟩ := recordInboundEmailIngestion_eq_some hrecord
    exact ⟨rfl, rfl, rfl, Or.inr ⟨_, h, rfl⟩, fun _ hl => List.mem_append_left _ hl,
      Or.inl rfl⟩

theorem effect_create {d : InboundData} {stage : CreationStage} :
    s.Effect e (.creating d stage) (e.create P s d stage).store := by
  simp only [GraphEmail.create]
  split
  · exact .refl e _ s
  · have hadvances := CreationCall.advance_cases s.clock s.db (d.creation P e) stage
    generalize (d.creation P e).advance s.clock s.db stage = step at hadvances
    cases hadvances with
    | inserted =>
      exact ⟨rfl, rfl, rfl, Or.inr ⟨_, .created d _, rfl⟩, fun _ h => h, Or.inr ⟨d, rfl⟩⟩
    | lost | broken | missing | found =>
      exact ⟨rfl, rfl, rfl, Or.inl rfl, fun _ h => h, Or.inl rfl⟩

end MailStore

/-- The status of an entry after the creation. -/
theorem InboundData.entry_status_ne (d : InboundData) (o : NotificationCreationOutcome) :
    (d.entry o).status ≠ .rejected := by
  unfold entry
  split_ifs <;> simp

namespace GraphEmail

variable {P : MailPlatform} {cfg : InboundSettings} {s : MailStore} {e : GraphEmail}
  {stage stage' : MailStage}

theorem advance_effect (P : MailPlatform) (cfg : InboundSettings) (s : MailStore) (e : GraphEmail)
    (stage : MailStage) : s.Effect e stage (e.advance P cfg s stage).store := by
  cases stage with
  | received => exact .refl e _ s
  | refusing r => exact MailStore.effect_journalling (.refused r)
  | notifying r =>
    simp only [advance, notifyOwnerByMail]
    split
    · exact MailStore.effect_claimSlot (.mailed r _)
    · exact .refl e _ s
  | pushing r =>
    simp only [advance, notifyOwnerByPush]
    split
    · exact MailStore.effect_claimSlot (.pushed r _)
    · exact .refl e _ s
  | replying r =>
    simp only [advance]
    split
    · simp only [replyToRefusedSender]
      split
      · exact MailStore.effect_maybeReply fun mail => .replied r mail
      · exact MailStore.effect_maybeReply fun mail => .replied r mail
    · exact .refl e _ s
  | answering errors => exact MailStore.effect_maybeReply fun mail => .answered errors mail
  | rejecting errors => exact MailStore.effect_journalling (.rejected errors)
  | creating d stage => exact MailStore.effect_create
  | recording d o => exact MailStore.effect_journalling (.recorded d o _ (d.entry_status_ne o))

theorem receive_eq_goes (h : e.receive P cfg s = .goes stage) :
    isInboundAliasAddress P cfg e.recipient = true ∧
      ((∃ d, stage = .creating d .inserting ∧
          e.validate P cfg s.clock s.applications s.users = .valid d) ∨
        (∃ errors r, stage = .refusing r ∧
          e.validate P cfg s.clock s.applications s.users = .invalid errors (some r)) ∨
        ∃ errors, (stage = .answering errors ∨ stage = .rejecting errors) ∧
          e.validate P cfg s.clock s.applications s.users = .invalid errors none) := by
  unfold receive at h
  split at h
  · simp at h
  · next halias =>
    refine ⟨by simpa using halias, ?_⟩
    cases hvalidate : e.validate P cfg s.clock s.applications s.users with
    | valid d =>
      rw [hvalidate] at h
      exact Or.inl ⟨d, (MailNext.goes.inj h).symm, rfl⟩
    | invalid errors rejection =>
      rw [hvalidate] at h
      cases rejection with
      | some r => exact Or.inr (Or.inl ⟨errors, r, (MailNext.goes.inj h).symm, rfl⟩)
      | none =>
        refine Or.inr (Or.inr ⟨errors, ?_, rfl⟩)
        simp only at h
        split at h
        · exact Or.inl (MailNext.goes.inj h).symm
        · exact Or.inr (MailNext.goes.inj h).symm

theorem receive_eq_ends {outcome : MailOutcome} (h : e.receive P cfg s = .ends outcome) :
    isInboundAliasAddress P cfg e.recipient = false ∧ outcome = .ignored := by
  unfold receive at h
  split at h
  · next halias => exact ⟨by simpa using halias, (MailNext.ends.inj h).symm⟩
  · split at h
    · simp at h
    · simp at h
    · split at h <;> simp at h

theorem journalling_next (P : MailPlatform) (s : MailStore) (e : GraphEmail)
    (entry : JournalEntry) (next : MailNext) :
    (entry.accepted s e = true ∧ (journalling P s e entry next).next = next) ∨
      (entry.accepted s e = false ∧
        (journalling P s e entry next).next = .raises P.databaseError) := by
  unfold journalling recordInboundEmailIngestion
  by_cases haccepted : entry.accepted s e = true
  · rw [if_pos haccepted]
    exact Or.inl ⟨haccepted, rfl⟩
  · rw [if_neg haccepted]
    exact Or.inr ⟨by simpa using haccepted, rfl⟩

/-- A mail that goes on after a journal line goes where the line lets it. -/
theorem goes_of_journalling {P : MailPlatform} {s : MailStore} {e : GraphEmail}
    {entry : JournalEntry} {next : MailNext} {stage : MailStage}
    (h : (journalling P s e entry next).next = .goes stage) : next = .goes stage := by
  rcases journalling_next P s e entry next with ⟨-, hnext⟩ | ⟨-, hnext⟩
  · rwa [hnext] at h
  · simp [hnext] at h

/-- A creation goes on, records what it returned, or raises. -/
theorem create_next (P : MailPlatform) (s : MailStore) (e : GraphEmail) (d : InboundData)
    (stage : CreationStage) :
    (stage = .inserting ∧ (e.create P s d stage).next = .goes (.creating d .reading)) ∨
      (∃ o, (e.create P s d stage).next = .goes (.recording d o)) ∨
      (e.create P s d stage).next = .raises P.databaseError := by
  simp only [create]
  split
  · exact Or.inr (Or.inr rfl)
  · have hadvances := CreationCall.advance_cases s.clock s.db (d.creation P e) stage
    generalize (d.creation P e).advance s.clock s.db stage = step at hadvances
    cases hadvances with
    | inserted => exact Or.inr (Or.inl ⟨_, rfl⟩)
    | lost => exact Or.inl ⟨rfl, rfl⟩
    | broken => exact Or.inr (Or.inr rfl)
    | missing => exact Or.inr (Or.inr rfl)
    | found => exact Or.inr (Or.inl ⟨_, rfl⟩)

/-- `_process_email` gets nearer to its end with each statement. -/
theorem advance_rank (h : (e.advance P cfg s stage).next = .goes stage') :
    stage'.rank < stage.rank := by
  cases stage with
  | received =>
    obtain ⟨-, ⟨d, rfl, -⟩ | ⟨errors, r, rfl, -⟩ | ⟨errors, rfl | rfl, -⟩⟩ := receive_eq_goes h
    all_goals simp [MailStage.rank]
  | refusing r =>
    obtain rfl := MailNext.goes.inj (goes_of_journalling h)
    simp [MailStage.rank]
  | notifying r =>
    obtain rfl := MailNext.goes.inj h
    simp [MailStage.rank]
  | pushing r =>
    obtain rfl := MailNext.goes.inj h
    simp [MailStage.rank]
  | replying r => simp [advance] at h
  | answering errors =>
    obtain rfl := MailNext.goes.inj h
    simp [MailStage.rank]
  | rejecting errors => simpa using goes_of_journalling h
  | creating d stage =>
    rcases create_next P s e d stage with ⟨rfl, hnext⟩ | ⟨o, hnext⟩ | hnext
    · obtain rfl := MailNext.goes.inj (hnext.symm.trans h)
      simp [MailStage.rank]
    · obtain rfl := MailNext.goes.inj (hnext.symm.trans h)
      cases stage <;> simp [MailStage.rank]
    · simp [advance, hnext] at h
  | recording d o => simpa using goes_of_journalling h

end GraphEmail

end PushIT
