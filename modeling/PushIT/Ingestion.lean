import PushIT.InboundMailbox
import PushIT.Library.Transition

/-!
# Mails that are fetched again

Polls overlap, a reader dies between two statements of `_process_email`, and the mark of a mail
as read is lost: the mailbox hands the same mail out again, at any time and however often.  A
notification is created once, by the unique key of the mail.  But the mail is validated again
before its key is looked up, by the clock and by the sender policy of that moment.

## Main definitions

* `Ingestion.step`: the readers, statement by statement, and what else touches their store.
* `Ingestion.AtMostOne`, `Ingestion.NeverRefused`: what is to hold for a mail.
* `acceptedAgain`: the policy and the clock still accept a mail.
* `Ingestion.Meets`: the runs in which no mail is refused after its creation.

## Main results

* `Ingestion.sound_preserves`: the notifications of a mail carry its application and its key.
* `ingested_once`: the two properties over all runs, and over the runs that meet the condition.
* `blocked_after_creation`: a mail that is journalled as rejected after its notification.
-/

namespace PushIT

open Relational Transition

/-! ### The system -/

/-- A run of `_process_email`: the mail and the next statement. -/
structure Reader where
  email : GraphEmail
  stage : MailStage := .received

structure Ingestion where
  store : MailStore
  readers : Pool Reader := .idle

inductive IngestionAction
  /-- A poll takes up a mail that is unread. -/
  | fetch (rid : ℕ) (e : GraphEmail)
  | advance (rid : ℕ)
  /-- A reader dies. -/
  | crash (rid : ℕ)
  | tick (microseconds : ℕ)
  /-- The owner changes the sender policy, or other fields of the console. -/
  | patch (id : ℕ) (data : ApplicationPatch)
  /-- Accounts are created, changed or deleted. -/
  | editUsers (users : Table User)
  /-- The server creates, changes or deletes notifications. -/
  | serve (notifications : Table Notification)

/-- The rows of a table are new, or the columns of their unique key are those of an old row. -/
def ServedFrom (T T' : Table Notification) : Prop :=
  T.seq ≤ T'.seq ∧ ∀ n ∈ T'.rows, n.id ≤ T.seq → ∃ m ∈ T.rows,
    m.id = n.id ∧ m.applicationId = n.applicationId ∧ m.idempotencyKey = n.idempotencyKey

instance (T T' : Table Notification) : Decidable (ServedFrom T T') := by
  unfold ServedFrom
  infer_instance

instance (db : Db) : Decidable db.UniqueKeys := by
  unfold Db.UniqueKeys
  infer_instance

theorem pk_patch (data : ApplicationPatch) (a : ConsoleApplication) : pk (data.apply a) = pk a :=
  rfl

namespace Ingestion

/-- The end of a statement: the reader goes on; or the poll marks the mail, or has the exception
written down, and the reader is done. -/
def settle (cfg : InboundSettings) (s : Ingestion) (rid : ℕ) (e : GraphEmail) (step : MailStep) :
    Ingestion :=
  match step.next with
  | .goes stage => ⟨step.store, s.readers.set rid (some ⟨e, stage⟩)⟩
  | .ends _ => ⟨step.store.happened (.marked e.graphId), s.readers.set rid none⟩
  | .raises text =>
    ⟨(recordProcessingFailure cfg (step.store.happened (.failed e text)) e text).store,
      s.readers.set rid none⟩

def step (P : MailPlatform) (cfg : InboundSettings) (s : Ingestion) :
    IngestionAction → Option Ingestion
  | .fetch rid e =>
    if (s.readers rid).isNone then
      some { s with readers := s.readers.set rid (some ⟨e, .received⟩) }
    else none
  | .advance rid =>
    (s.readers rid).map fun r => s.settle cfg rid r.email (r.email.advance P cfg s.store r.stage)
  | .crash rid => some { s with readers := s.readers.set rid none }
  | .tick microseconds =>
    some { s with store := { s.store with clock := s.store.clock + microseconds } }
  | .patch id data =>
    some
      { s with
        store :=
          { s.store with
            applications := s.store.applications.modify id data.apply (pk_patch data) } }
  | .editUsers users => some { s with store := { s.store with users } }
  | .serve notifications =>
    if ServedFrom s.store.notifications notifications ∧
        ({ s.store with notifications } : MailStore).db.UniqueKeys then
      some { s with store := { s.store with notifications } }
    else none

end Ingestion

/-- The readers of the mailbox as a transition system. -/
def ingestion (P : MailPlatform) (cfg : InboundSettings) : System Ingestion IngestionAction :=
  ⟨Ingestion.step P cfg⟩

/-! ### What is to hold -/

/-- The mail is journalled as rejected, or its owner is told so. -/
def MailEvent.refusalOf (e : GraphEmail) : MailEvent → Bool
  | journalled e' status => e' == e && status == .rejected
  | reported e' _ => e' == e
  | _ => false

/-- What was refused was not created before. -/
def RefusedOnlyBefore (e : GraphEmail) (history : List MailEvent) : Prop :=
  ∀ newer older id, history = newer ++ .created e id :: older →
    ∀ event ∈ newer, event.refusalOf e = false

namespace Ingestion

/-- The mail created a notification. -/
def Created (s : Ingestion) (e : GraphEmail) : Prop := ∃ id, .created e id ∈ s.store.history

/-- One notification at most exists of those the mail created. -/
def AtMostOne (s : Ingestion) (e : GraphEmail) : Prop :=
  ∀ n ∈ s.store.notifications.rows, ∀ m ∈ s.store.notifications.rows,
    .created e n.id ∈ s.store.history → .created e m.id ∈ s.store.history → n = m

/-- After it created a notification the mail is not refused. -/
def NeverRefused (s : Ingestion) (e : GraphEmail) : Prop :=
  RefusedOnlyBefore e s.store.history

/-- Nothing was fetched yet. -/
structure Fresh (s : Ingestion) : Prop where
  readers : s.readers = .idle
  history : s.store.history = []
  unique : s.store.db.UniqueKeys

end Ingestion

/-! ### The condition -/

/-- The application the recipient of a mail names. -/
def InboundAttrs.addressee (P : MailPlatform) (cfg : InboundSettings)
    (applications : Table ConsoleApplication) (attrs : InboundAttrs) : Option ConsoleApplication :=
  let recipient := P.lower (strip attrs.recipient)
  (splitFirst '@' recipient.toList).bind fun parts =>
    inboundApplication P cfg applications (String.ofList parts.1) recipient

/-- The date in a subject, if there is one, lies ahead. -/
def scheduleAhead (P : MailPlatform) (now : Instant) (subject : String) : Bool :=
  match extractSubjectSchedule P subject with
  | .ok (_, some t) => decide (now < t.instant)
  | _ => true

/-- The sender policy of the application accepts the mail, and its date lies ahead. -/
def acceptedAgain (P : MailPlatform) (cfg : InboundSettings) (s : MailStore) (e : GraphEmail) :
    Bool :=
  match e.toInternalValue P with
  | .error _ => true
  | .ok attrs =>
    ((attrs.addressee P cfg s.applications).all fun a =>
      (evaluateSenderPolicy P (ownerEmail s.users a) a
        (P.lower (strip attrs.sender))).isAccepted) &&
      scheduleAhead P s.clock attrs.subject

/-- A refusal of the mail is under way. -/
def MailStage.refuses : MailStage → Bool
  | refusing _ | notifying _ | pushing _ | answering _ | rejecting _ => true
  | received | replying _ | creating _ _ | recording _ _ => false

namespace Ingestion

/-- A mail that created a notification is validated again only while the policy and the clock
accept it, and no refusal of a mail is under way when its notification is inserted. -/
def Meets (P : MailPlatform) (cfg : InboundSettings) (s : Ingestion) : IngestionAction → Prop
  | .advance rid => ∀ e stage, s.readers rid = some ⟨e, stage⟩ →
    (stage = .received → s.Created e → acceptedAgain P cfg s.store e = true) ∧
      ∀ d, stage = .creating d .inserting → (d.creation P e).violates s.store.db = false →
        ∀ other r, other ≠ rid → s.readers other = some r → r.email = e → r.stage.refuses = false
  | _ => True

end Ingestion

/-! ### Validation again -/

/-- The columns by which a mail finds its application. -/
def ConsoleApplication.routing (a : ConsoleApplication) : ℕ × String × Bool × Option Instant :=
  (a.id, a.inboundEmailAlias, a.isActive, a.revokedAt)

/-- The mails find the same applications. -/
def SameRouting (T T' : Table ConsoleApplication) : Prop :=
  T.rows.map (·.routing) = T'.rows.map (·.routing)

section Validation

variable {P : MailPlatform} {cfg : InboundSettings} {now now' : Instant}
  {T T' : Table ConsoleApplication} {users users' : Table User} {attrs : InboundAttrs}
  {d d' : InboundData} {e : GraphEmail}

theorem SameRouting.modify (h : SameRouting T T') {id : ℕ} {f : ConsoleApplication →
    ConsoleApplication} (hf : ∀ a, pk (f a) = pk a) (hrouting : ∀ a, (f a).routing = a.routing) :
    SameRouting T (T'.modify id f hf) := by
  unfold SameRouting at h ⊢
  rw [h]
  simp only [Table.modify, Table.update, List.map_map]
  refine List.map_congr_left fun a _ => ?_
  simp only [Function.comp_apply]
  split
  · exact (hrouting a).symm
  · rfl

theorem SameRouting.inboundApplication (P : MailPlatform) (cfg : InboundSettings)
    (h : SameRouting T T') (localPart recipient : String) :
    (inboundApplication P cfg T localPart recipient).map (·.routing) =
      (inboundApplication P cfg T' localPart recipient).map (·.routing) := by
  have hfind : ∀ U : Table ConsoleApplication, (U.rows.find? fun a =>
      P.upper a.inboundEmailAlias == P.upper localPart && a.isActive && a.revokedAt.isNone).map
        (·.routing) = (U.rows.map (·.routing)).find? fun r =>
          P.upper r.2.1 == P.upper localPart && r.2.2.1 && r.2.2.2.isNone := by
    intro U
    rw [List.find?_map]
    rfl
  unfold PushIT.inboundApplication
  split
  · rw [hfind, hfind, h]
  · rfl

/-- Authentication does not look at the application. -/
theorem refuseSender_of_accepted {sender : String} {a a' : ConsoleApplication}
    (h : refuseSender P cfg users attrs sender a = none)
    (h' : (evaluateSenderPolicy P (ownerEmail users' a') a' sender).isAccepted = true) :
    refuseSender P cfg users' attrs sender a' = none := by
  unfold refuseSender at h ⊢
  cases hdecision : evaluateSenderPolicy P (ownerEmail users a) a sender with
  | refused reason => simp [hdecision] at h
  | accepted reason =>
    cases hdecision' : evaluateSenderPolicy P (ownerEmail users' a') a' sender with
    | refused reason => simp [hdecision', SenderPolicyDecision.isAccepted] at h'
    | accepted reason' =>
      simp only [hdecision] at h
      simp only
      split at h
      · simp at h
      · next hverdict => rw [if_neg hverdict]

/-- Of the other checks only the one on the date looks at the clock. -/
theorem InboundAttrs.details_of_ahead {domain : String} {a a' : ConsoleApplication}
    (h : attrs.details P cfg now domain (some a) = [])
    (h' : scheduleAhead P now' attrs.subject = true) :
    attrs.details P cfg now' domain (some a') = [] := by
  unfold details at h ⊢
  unfold scheduleAhead at h'
  cases hsubject : extractSubjectSchedule P attrs.subject with
  | error text => simp [hsubject] at h
  | ok parts =>
    obtain ⟨title, date⟩ := parts
    rw [hsubject] at h
    simp only [List.append_eq_nil_iff] at h ⊢
    obtain ⟨⟨⟨⟨hdomain, htitle⟩, htext⟩, -⟩, -⟩ := h
    refine ⟨⟨⟨⟨hdomain, htitle⟩, htext⟩, ?_⟩, rfl⟩
    cases date with
    | none => rfl
    | some t =>
      have hahead : now' < t.instant := by simpa [hsubject] using h'
      simp [hahead]

/-- A mail that passed once passes again if the policy accepts it and its date lies ahead. -/
theorem InboundAttrs.Passes.again (h : attrs.Passes P cfg now T users d) (hT : SameRouting T T')
    (hpolicy : ∀ a ∈ attrs.addressee P cfg T', (evaluateSenderPolicy P (ownerEmail users' a) a
      (P.lower (strip attrs.sender))).isAccepted = true)
    (hahead : scheduleAhead P now' attrs.subject = true) :
    ∃ d', attrs.Passes P cfg now' T' users' d' := by
  obtain ⟨localPart, domain, hsplit, happlication, hdetails⟩ := h.routed
  have hrouting := hT.inboundApplication P cfg (String.ofList localPart)
    (P.lower (strip attrs.recipient))
  rw [happlication] at hrouting
  obtain ⟨a, ha, -⟩ := Option.map_eq_some_iff.mp hrouting.symm
  have haddressee : a ∈ attrs.addressee P cfg T' := by
    simpa [addressee, hsplit] using ha
  exact ⟨{ d with application := a }, ⟨localPart, domain, hsplit, ha,
    details_of_ahead hdetails hahead⟩, refuseSender_of_accepted h.sender (hpolicy a haddressee),
    h.subject, h.data⟩

/-- A mail names its application and its key by itself. -/
theorem InboundAttrs.Passes.unique (h : attrs.Passes P cfg now T users d) (hT : SameRouting T T')
    (h' : attrs.Passes P cfg now' T' users' d') :
    d.application.id = d'.application.id ∧ d.messageId = d'.messageId := by
  obtain ⟨localPart, domain, hsplit, happlication, -⟩ := h.routed
  obtain ⟨localPart', domain', hsplit', happlication', -⟩ := h'.routed
  obtain ⟨rfl, rfl⟩ := Prod.mk.inj (Option.some.inj (hsplit.symm.trans hsplit'))
  have hrouting := hT.inboundApplication P cfg (String.ofList localPart)
    (P.lower (strip attrs.recipient))
  rw [happlication, happlication', Option.map_some, Option.map_some] at hrouting
  refine ⟨congrArg Prod.fst (Option.some.inj hrouting), ?_⟩
  rw [h.data.2.2.2, h'.data.2.2.2]

end Validation

/-! ### The history -/

theorem RefusedOnlyBefore.cons {e : GraphEmail} {history : List MailEvent} {event : MailEvent}
    (h : RefusedOnlyBefore e history)
    (hevent : event.refusalOf e = true → ∀ id, .created e id ∉ history) :
    RefusedOnlyBefore e (event :: history) := by
  intro newer older id heq
  cases newer with
  | nil => simp
  | cons first newer =>
    obtain ⟨rfl, htail⟩ := List.cons.inj heq
    intro x hx
    rcases List.mem_cons.mp hx with rfl | hx
    · by_contra hrefusal
      refine hevent (by simpa using hrefusal) id ?_
      rw [htail]
      simp
    · exact h newer older id htail x hx

/-- What the end of a run leaves in the history is no refusal and no creation. -/
def MailEvent.settles : MailEvent → Bool
  | journalled _ status => status == .error
  | failed _ _ | marked _ => true
  | created _ _ | reported _ _ | replied _ _ => false

/-- A store with more of such events, and the same tables but the journal. -/
structure MailStore.SettledFrom (s t : MailStore) : Prop where
  clock : t.clock = s.clock
  applications : t.applications = s.applications
  users : t.users = s.users
  notifications : t.notifications = s.notifications
  history : ∃ events, t.history = events ++ s.history ∧ ∀ x ∈ events, x.settles = true

theorem recordProcessingFailure_settledFrom (cfg : InboundSettings) (s : MailStore)
    (e : GraphEmail) (text : String) :
    s.SettledFrom (recordProcessingFailure cfg s e text).store := by
  unfold recordProcessingFailure
  cases hrecord : recordInboundEmailIngestion s e { status := .error, errorMessage := text } with
  | none => exact ⟨rfl, rfl, rfl, rfl, [], rfl, by simp⟩
  | some t =>
    obtain ⟨-, rfl⟩ := MailStore.recordInboundEmailIngestion_eq_some hrecord
    have hline : s.SettledFrom
        { s with
          journal := s.journal.insert
            (JournalEntry.row s.clock e { status := .error, errorMessage := text })
            (JournalEntry.pk_row s.clock e _)
          history := .journalled e .error :: s.history } :=
      ⟨rfl, rfl, rfl, rfl, [_], rfl, by simp [MailEvent.settles]⟩
    simp only
    split
    · exact hline
    · split
      · exact ⟨rfl, rfl, rfl, rfl, [_, _], rfl, by simp [MailEvent.settles]⟩
      · exact hline

namespace Ingestion

variable {P : MailPlatform} {cfg : InboundSettings} {s s' : Ingestion} {rid : ℕ} {e : GraphEmail}

/-- Nothing but the end of the run is added to what a statement did, and only a reader that goes
on remains. -/
theorem settle_spec (cfg : InboundSettings) (s : Ingestion) (rid : ℕ) (e : GraphEmail)
    (step : MailStep) :
    step.store.SettledFrom (s.settle cfg rid e step).store ∧
      ∃ r, (s.settle cfg rid e step).readers = s.readers.set rid r ∧
        ∀ q, r = some q → q.email = e ∧ step.next = .goes q.stage := by
  obtain ⟨store, next⟩ := step
  cases next with
  | goes stage =>
    refine ⟨⟨rfl, rfl, rfl, rfl, [], rfl, by simp⟩, _, rfl, fun q hq => ?_⟩
    obtain rfl := Option.some.inj hq
    exact ⟨rfl, rfl⟩
  | ends outcome =>
    exact ⟨⟨rfl, rfl, rfl, rfl, [_], rfl, by simp [MailEvent.settles]⟩, none, rfl, by simp⟩
  | raises text =>
    obtain ⟨hclock, happlications, husers, hnotifications, events, hhistory, hevents⟩ :=
      recordProcessingFailure_settledFrom cfg (store.happened (.failed e text)) e text
    refine ⟨⟨hclock, happlications, husers, hnotifications, events ++ [.failed e text], ?_, ?_⟩,
      none, rfl, by simp⟩
    · exact hhistory.trans (by simp [MailStore.happened])
    · simpa [or_imp, forall_and, MailEvent.settles] using hevents

end Ingestion

/-! ### Where notifications come from -/

/-- The only statement that creates a notification inserts the row of its call, which no row with
the key forbids. -/
theorem GraphEmail.advance_creates (P : MailPlatform) (cfg : InboundSettings) (s : MailStore)
    (e : GraphEmail) (stage : MailStage) :
    ((e.advance P cfg s stage).store.notifications = s.notifications ∧
        ∀ e' id, .created e' id ∈ (e.advance P cfg s stage).store.history →
          .created e' id ∈ s.history) ∨
      ∃ d, stage = .creating d .inserting ∧ (d.creation P e).violates s.db = false ∧
        (e.advance P cfg s stage).store =
          { s with
            notifications := s.notifications.insert ((d.creation P e).newNotification s.clock)
              ((d.creation P e).pk_newNotification s.clock)
            history := .created e (s.notifications.seq + 1) :: s.history } := by
  have heffect := e.advance_effect P cfg s stage
  by_cases hinserting : ∃ d, stage = .creating d .inserting
  · obtain ⟨d, rfl⟩ := hinserting
    simp only [advance, create]
    split
    · exact Or.inl ⟨rfl, fun _ _ h => h⟩
    · cases hviolates : (d.creation P e).violates s.db with
      | false =>
        refine Or.inr ⟨d, rfl, hviolates, ?_⟩
        simp only [CreationCall.advance, hviolates]
        rfl
      | true =>
        refine Or.inl ?_
        simp only [CreationCall.advance, hviolates, if_true]
        by_cases hkey : (d.creation P e).idempotencyKey = ""
        · simp only [hkey, if_true]
          exact ⟨rfl, fun _ _ h => h⟩
        · simp only [hkey, if_false]
          exact ⟨rfl, fun _ _ h => h⟩
  · have hnotifications := heffect.notifications.resolve_right hinserting
    refine Or.inl ⟨hnotifications, fun e' id hmem => ?_⟩
    rcases heffect.history with hhistory | ⟨event, hemits, hhistory⟩
    · rwa [hhistory] at hmem
    · rw [hhistory] at hmem
      rcases List.mem_cons.mp hmem with rfl | hmem
      · cases hemits with
        | created d id => exact absurd ⟨d, rfl⟩ hinserting
      · exact hmem

namespace GraphEmail

variable {P : MailPlatform} {cfg : InboundSettings} {s : MailStore} {e : GraphEmail}
  {stage stage' : MailStage}

/-- A creation begins with a valid mail. -/
theorem advance_goes_creating {d : InboundData} {creation : CreationStage}
    (h : (e.advance P cfg s stage).next = .goes (.creating d creation)) :
    e.validate P cfg s.clock s.applications s.users = .valid d ∨
      ∃ creation', stage = .creating d creation' := by
  cases stage with
  | received =>
    obtain ⟨-, ⟨d', heq, hvalid⟩ | ⟨errors, r, heq, -⟩ | ⟨errors, heq | heq, -⟩⟩ :=
      receive_eq_goes h
    · obtain ⟨rfl, -⟩ := MailStage.creating.inj heq
      exact Or.inl hvalid
    all_goals simp at heq
  | refusing r => simpa using goes_of_journalling h
  | notifying r => simp [advance] at h
  | pushing r => simp [advance] at h
  | replying r => simp [advance] at h
  | answering errors => simp [advance] at h
  | rejecting errors => simpa using goes_of_journalling h
  | recording d' o => simpa using goes_of_journalling h
  | creating d' creation' =>
    rcases create_next P s e d' creation' with ⟨-, hnext⟩ | ⟨o, hnext⟩ | hnext
    · obtain ⟨rfl, -⟩ := MailStage.creating.inj (MailNext.goes.inj (hnext.symm.trans h))
      exact Or.inr ⟨_, rfl⟩
    · simp [advance, hnext] at h
    · simp [advance, hnext] at h

/-- A refusal begins with a mail that is not valid. -/
theorem advance_goes_refuses (h : (e.advance P cfg s stage).next = .goes stage')
    (hrefuses : stage'.refuses = true) :
    (stage = .received ∧ ∀ d, e.validate P cfg s.clock s.applications s.users ≠ .valid d) ∨
      stage.refuses = true := by
  cases stage with
  | received =>
    obtain ⟨-, ⟨d, rfl, -⟩ | ⟨errors, r, rfl, hvalidate⟩ | ⟨errors, -, hvalidate⟩⟩ :=
      receive_eq_goes h
    · simp [MailStage.refuses] at hrefuses
    · exact Or.inl ⟨rfl, by simp [hvalidate]⟩
    · exact Or.inl ⟨rfl, by simp [hvalidate]⟩
  | refusing | notifying | pushing | answering | rejecting => exact Or.inr rfl
  | replying r => simp [advance] at h
  | creating d creation =>
    rcases create_next P s e d creation with ⟨-, hnext⟩ | ⟨o, hnext⟩ | hnext
    · obtain rfl := MailNext.goes.inj (hnext.symm.trans h)
      simp [MailStage.refuses] at hrefuses
    · obtain rfl := MailNext.goes.inj (hnext.symm.trans h)
      simp [MailStage.refuses] at hrefuses
    · simp [advance, hnext] at h
  | recording d o => simpa using goes_of_journalling h

end GraphEmail

/-! ### The notifications of a mail -/

/-- The mail passed the validation once, with these data. -/
def Validated (P : MailPlatform) (cfg : InboundSettings) (T : Table ConsoleApplication)
    (e : GraphEmail) (d : InboundData) : Prop :=
  ∃ now T₀ users attrs, e.toInternalValue P = .ok attrs ∧ attrs.Passes P cfg now T₀ users d ∧
    SameRouting T₀ T

section Validated

variable {P : MailPlatform} {cfg : InboundSettings} {T T' : Table ConsoleApplication}
  {e : GraphEmail} {d d' : InboundData}

theorem Validated.mono (h : Validated P cfg T e d) (hT : SameRouting T T') :
    Validated P cfg T' e d := by
  obtain ⟨now, T₀, users, attrs, hattrs, hpasses, hrouting⟩ := h
  exact ⟨now, T₀, users, attrs, hattrs, hpasses, hrouting.trans hT⟩

theorem GraphEmail.validate_eq_valid {now : Instant} {users : Table User}
    (h : e.validate P cfg now T users = .valid d) : Validated P cfg T e d := by
  unfold validate at h
  split at h
  · simp at h
  · next attrs hattrs =>
    exact ⟨now, T, users, attrs, hattrs, InboundAttrs.validate_eq_valid.mp h, rfl⟩

theorem Validated.unique (h : Validated P cfg T e d) (h' : Validated P cfg T e d') :
    d.application.id = d'.application.id ∧ d.idempotencyKey e = d'.idempotencyKey e := by
  obtain ⟨now, T₀, users, attrs, hattrs, hpasses, hT⟩ := h
  obtain ⟨now', T₁, users', attrs', hattrs', hpasses', hT'⟩ := h'
  obtain rfl := Except.ok.inj (hattrs.symm.trans hattrs')
  obtain ⟨happlication, hmessageId⟩ := hpasses.unique (hT.trans hT'.symm) hpasses'
  exact ⟨happlication, by rw [InboundData.idempotencyKey, InboundData.idempotencyKey, hmessageId]⟩

theorem Validated.again {s : MailStore} (h : Validated P cfg s.applications e d)
    (haccepted : acceptedAgain P cfg s e = true) :
    ∃ d', e.validate P cfg s.clock s.applications s.users = .valid d' := by
  obtain ⟨now, T₀, users, attrs, hattrs, hpasses, hT⟩ := h
  simp only [acceptedAgain, hattrs, Bool.and_eq_true, Option.all_eq_true] at haccepted
  obtain ⟨hpolicy, hahead⟩ := haccepted
  obtain ⟨d', hpasses'⟩ := hpasses.again hT hpolicy hahead
  refine ⟨d', ?_⟩
  simp only [GraphEmail.validate, hattrs]
  exact InboundAttrs.validate_eq_valid.mpr hpasses'

theorem InboundData.idempotencyKey_ne (e : GraphEmail) (d : InboundData) :
    d.idempotencyKey e ≠ "" := by
  unfold idempotencyKey
  split
  · intro h
    have hlist := congrArg String.toList h
    simp [String.toList_append] at hlist
  · next hne => exact hne

end Validated

theorem ServedFrom.refl (T : Table Notification) : ServedFrom T T :=
  ⟨le_rfl, fun n hn _ => ⟨n, hn, rfl, rfl, rfl⟩⟩

namespace Ingestion

variable {P : MailPlatform} {cfg : InboundSettings} {s s' : Ingestion} {rid : ℕ} {e : GraphEmail}

/-- The notifications a mail created carry its application and its key, and the creations under
way are of mails that passed. -/
structure Sound (P : MailPlatform) (cfg : InboundSettings) (s : Ingestion) : Prop where
  unique : s.store.db.UniqueKeys
  created : ∀ e id, .created e id ∈ s.store.history → id ≤ s.store.notifications.seq ∧
    ∃ d, Validated P cfg s.store.applications e d ∧
      ∀ n ∈ s.store.notifications.rows, n.id = id →
        n.applicationId = d.application.id ∧ n.idempotencyKey = d.idempotencyKey e
  readers : ∀ rid e d stage, s.readers rid = some ⟨e, .creating d stage⟩ →
    Validated P cfg s.store.applications e d

/-- A step that creates no notification for a mail. -/
theorem Sound.of_served (h : Sound P cfg s)
    (happlications : SameRouting s.store.applications s'.store.applications)
    (hserved : ServedFrom s.store.notifications s'.store.notifications)
    (hunique : s'.store.db.UniqueKeys)
    (hhistory : ∀ e id, .created e id ∈ s'.store.history → .created e id ∈ s.store.history)
    (hreaders : ∀ rid e d stage, s'.readers rid = some ⟨e, .creating d stage⟩ →
      Validated P cfg s'.store.applications e d) : Sound P cfg s' := by
  refine ⟨hunique, fun e id hmem => ?_, hreaders⟩
  obtain ⟨hle, d, hvalidated, hrows⟩ := h.created e id (hhistory e id hmem)
  refine ⟨hle.trans hserved.1, d, hvalidated.mono happlications, fun n hn hid => ?_⟩
  obtain ⟨m, hm, hmid, happlication, hkey⟩ := hserved.2 n hn (hid ▸ hle)
  obtain ⟨ha, hk⟩ := hrows m hm (hmid.trans hid)
  exact ⟨happlication ▸ ha, hkey ▸ hk⟩

/-- The insertion of a row whose key is free. -/
theorem uniqueKeys_insert {t : MailStore} {c : CreationCall} (h : t.db.UniqueKeys)
    (hviolates : c.violates t.db = false) :
    ({ t with
      notifications := t.notifications.insert (c.newNotification t.clock)
        (c.pk_newNotification t.clock) } : MailStore).db.UniqueKeys := by
  have hfree : ∀ n ∈ t.notifications.rows, n.applicationId = c.applicationId →
      n.idempotencyKey = c.idempotencyKey → c.idempotencyKey ≠ "" → False := by
    intro n hn happlication hkey hne
    simp only [CreationCall.violates, Bool.or_eq_false_iff, Bool.and_eq_false_iff,
      bne_eq_false_iff_eq] at hviolates
    rcases hviolates.2 with hblank | hfind
    · exact hne hblank
    · have hfind : (c.find t.notifications).isSome = false := hfind
      have hnone : c.find t.notifications = none := by simpa using hfind
      have hmatches := CreationCall.find_eq_none hnone n hn
      simp [CreationCall.matches_, happlication, hkey] at hmatches
  intro n hn m hm happlication hkey hne
  rcases List.mem_append.mp hn with hn | hn <;> rcases List.mem_append.mp hm with hm | hm
  · exact h n hn m hm happlication hkey hne
  · obtain rfl := List.mem_singleton.mp hm
    exact (hfree n hn happlication hkey fun hblank => hne (hkey.trans hblank)).elim
  · obtain rfl := List.mem_singleton.mp hn
    exact (hfree m hm happlication.symm hkey.symm hne).elim
  · rw [List.mem_singleton.mp hn, List.mem_singleton.mp hm]

/-- The creations under way after a statement. -/
theorem settle_creating {stage : MailStage} (h : Sound P cfg s)
    (hreader : s.readers rid = some ⟨e, stage⟩) {other : ℕ} {e' : GraphEmail} {d : InboundData}
    {creation : CreationStage}
    (hother : (s.settle cfg rid e (e.advance P cfg s.store stage)).readers other =
      some ⟨e', .creating d creation⟩) : Validated P cfg s.store.applications e' d := by
  obtain ⟨-, r, hreaders, hr⟩ := settle_spec cfg s rid e (e.advance P cfg s.store stage)
  rw [hreaders] at hother
  rcases Pool.set_eq_some.mp hother with ⟨rfl, hself⟩ | ⟨-, hother⟩
  · obtain ⟨rfl, hnext⟩ := hr _ hself
    rcases GraphEmail.advance_goes_creating hnext with hvalid | ⟨creation', rfl⟩
    · exact GraphEmail.validate_eq_valid hvalid
    · exact h.readers other e' d creation' hreader
  · exact h.readers other e' d creation hother

/-- The creations in the history are those of the statement. -/
theorem settle_created {step : MailStep} {e' : GraphEmail} {id : ℕ}
    (h : .created e' id ∈ (s.settle cfg rid e step).store.history) :
    .created e' id ∈ step.store.history := by
  obtain ⟨-, -, -, -, events, hhistory, hevents⟩ := (settle_spec cfg s rid e step).1
  rw [hhistory] at h
  rcases List.mem_append.mp h with hmem | hmem
  · have hsettles := hevents _ hmem
    simp [MailEvent.settles] at hsettles
  · exact hmem

theorem Sound.advance {stage : MailStage} (h : Sound P cfg s)
    (hreader : s.readers rid = some ⟨e, stage⟩) :
    Sound P cfg (s.settle cfg rid e (e.advance P cfg s.store stage)) := by
  have hsettled := (settle_spec cfg s rid e (e.advance P cfg s.store stage)).1
  have heffect := e.advance_effect P cfg s.store stage
  have happlications : (s.settle cfg rid e (e.advance P cfg s.store stage)).store.applications =
      s.store.applications := hsettled.applications.trans heffect.applications
  have hcreating : ∀ rid' e' d creation,
      (s.settle cfg rid e (e.advance P cfg s.store stage)).readers rid' =
        some ⟨e', .creating d creation⟩ → Validated P cfg
          (s.settle cfg rid e (e.advance P cfg s.store stage)).store.applications e' d := by
    intro rid' e' d creation hother
    rw [happlications]
    exact settle_creating h hreader hother
  rcases e.advance_creates P cfg s.store stage with
    ⟨hnotifications, hhistory⟩ | ⟨d, rfl, hviolates, hstore⟩
  · have hsame := hsettled.notifications.trans hnotifications
    refine h.of_served (by rw [happlications]; rfl) (hsame ▸ ServedFrom.refl _) ?_
      (fun e' id hmem => hhistory e' id (settle_created hmem)) hcreating
    have hunique := h.unique
    unfold Db.UniqueKeys MailStore.db at hunique ⊢
    simpa only [hsame] using hunique
  · have hrows : (s.settle cfg rid e
        (e.advance P cfg s.store (.creating d .inserting))).store.notifications =
          s.store.notifications.insert ((d.creation P e).newNotification s.store.clock)
            ((d.creation P e).pk_newNotification s.store.clock) := by
      rw [hsettled.notifications, hstore]
    refine ⟨?_, fun e' id hmem => ?_, hcreating⟩
    · have hunique := uniqueKeys_insert h.unique hviolates
      unfold Db.UniqueKeys MailStore.db at hunique ⊢
      simpa only [hrows] using hunique
    · have hmem := settle_created hmem
      rw [hstore] at hmem
      rw [happlications, hrows, Table.seq_insert]
      rcases List.mem_cons.mp hmem with hnew | hold
      · obtain ⟨rfl, rfl⟩ := MailEvent.created.inj hnew
        refine ⟨le_rfl, d, h.readers rid _ d _ hreader, fun n hn hid => ?_⟩
        rcases List.mem_append.mp hn with hn | hn
        · have hbound := s.store.notifications.bounded n hn
          rw [pk_notification] at hbound
          omega
        · obtain rfl := List.mem_singleton.mp hn
          exact ⟨rfl, rfl⟩
      · obtain ⟨hle, d', hvalidated, hrows⟩ := h.created e' id hold
        refine ⟨by omega, d', hvalidated, fun n hn hid => ?_⟩
        rcases List.mem_append.mp hn with hn | hn
        · exact hrows n hn hid
        · obtain rfl := List.mem_singleton.mp hn
          have hnew : s.store.notifications.seq + 1 = id := hid
          omega

theorem sound_preserves (P : MailPlatform) (cfg : InboundSettings)
    (ok : Ingestion → IngestionAction → Prop) :
    (ingestion P cfg).Preserves ok (Sound P cfg) := by
  intro s a s' h _ hstep
  change Ingestion.step P cfg s a = some s' at hstep
  cases a with
  | fetch rid e =>
    simp only [Ingestion.step] at hstep
    split at hstep
    · obtain rfl := Option.some.inj hstep
      refine h.of_served rfl (.refl _) h.unique (fun _ _ hmem => hmem) fun j e' d stage hj => ?_
      rcases Pool.set_eq_some.mp hj with ⟨rfl, hnew⟩ | ⟨-, hj⟩
      · simp at hnew
      · exact h.readers j e' d stage hj
    · simp at hstep
  | advance rid =>
    obtain ⟨⟨e, stage⟩, hreader, rfl⟩ := Option.map_eq_some_iff.mp hstep
    exact h.advance hreader
  | crash rid =>
    obtain rfl := Option.some.inj hstep
    refine h.of_served rfl (.refl _) h.unique (fun _ _ hmem => hmem) fun j e' d stage hj => ?_
    rcases Pool.set_eq_some.mp hj with ⟨-, hnone⟩ | ⟨-, hj⟩
    · simp at hnone
    · exact h.readers j e' d stage hj
  | tick microseconds =>
    obtain rfl := Option.some.inj hstep
    exact h.of_served rfl (.refl _) h.unique (fun _ _ hmem => hmem) h.readers
  | patch id data =>
    obtain rfl := Option.some.inj hstep
    have hrouting : SameRouting s.store.applications
        (s.store.applications.modify id data.apply (pk_patch data)) :=
      SameRouting.modify rfl (pk_patch data) fun _ => rfl
    exact h.of_served hrouting (.refl _) h.unique (fun _ _ hmem => hmem)
      fun j e' d stage hj => (h.readers j e' d stage hj).mono hrouting
  | editUsers users =>
    obtain rfl := Option.some.inj hstep
    exact h.of_served rfl (.refl _) h.unique (fun _ _ hmem => hmem) h.readers
  | serve notifications =>
    simp only [Ingestion.step] at hstep
    split at hstep
    · next hserved =>
      obtain rfl := Option.some.inj hstep
      exact h.of_served rfl hserved.1 hserved.2 (fun _ _ hmem => hmem) h.readers
    · simp at hstep

theorem Fresh.sound (h : s.Fresh) : Sound P cfg s := by
  refine ⟨h.unique, fun e id hmem => ?_, fun rid e d stage hr => ?_⟩
  · simp [h.history] at hmem
  · simp [h.readers] at hr

theorem Sound.atMostOne (h : Sound P cfg s) (e : GraphEmail) : s.AtMostOne e := by
  intro n hn m hm hcreated hcreated'
  obtain ⟨-, d, hd, hrows⟩ := h.created e n.id hcreated
  obtain ⟨-, d', hd', hrows'⟩ := h.created e m.id hcreated'
  obtain ⟨happlication, hkey⟩ := hrows n hn rfl
  obtain ⟨happlication', hkey'⟩ := hrows' m hm rfl
  obtain ⟨hsame, hsameKey⟩ := hd.unique hd'
  refine h.unique n hn m hm (by rw [happlication, happlication', hsame])
    (by rw [hkey, hkey', hsameKey]) ?_
  rw [hkey]
  exact d.idempotencyKey_ne e

/-! ### No refusal after a creation -/

theorem refusalOf_of_settles {event : MailEvent} (h : event.settles = true) (e : GraphEmail) :
    event.refusalOf e = false := by
  cases event with
  | journalled e' status =>
    obtain rfl : status = .error := by simpa [MailEvent.settles] using h
    simp [MailEvent.refusalOf]
  | failed | marked => rfl
  | created | reported | replied => simp [MailEvent.settles] at h

/-- Only a statement of a refusal refuses, and only its own mail. -/
theorem refuses_of_emits {stage : MailStage} {event : MailEvent} (h : stage.Emits e event)
    {e' : GraphEmail} (hrefusal : event.refusalOf e' = true) :
    e = e' ∧ stage.refuses = true := by
  cases h with
  | refused | rejected => exact ⟨by simpa [MailEvent.refusalOf] using hrefusal, rfl⟩
  | mailed | pushed => exact ⟨by simpa [MailEvent.refusalOf] using hrefusal, rfl⟩
  | replied | answered | created => simp [MailEvent.refusalOf] at hrefusal
  | recorded d o status hstatus =>
    simp only [MailEvent.refusalOf, Bool.and_eq_true, beq_iff_eq] at hrefusal
    exact absurd hrefusal.2 hstatus

/-- No refusal is under way of a mail that created a notification, and none came after it. -/
structure Unrefused (s : Ingestion) : Prop where
  readers : ∀ rid e stage, s.readers rid = some ⟨e, stage⟩ → s.Created e → stage.refuses = false
  history : ∀ e, s.NeverRefused e

theorem Unrefused.history_advance {stage : MailStage} (h : s.Unrefused)
    (hreader : s.readers rid = some ⟨e, stage⟩) (e' : GraphEmail) :
    (s.settle cfg rid e (e.advance P cfg s.store stage)).NeverRefused e' := by
  obtain ⟨-, -, -, -, events, hhistory, hevents⟩ :=
    (settle_spec cfg s rid e (e.advance P cfg s.store stage)).1
  have hstatement : RefusedOnlyBefore e' (e.advance P cfg s.store stage).store.history := by
    rcases (e.advance_effect P cfg s.store stage).history with hsame | ⟨event, hemits, hevent⟩
    · rw [hsame]
      exact h.history e'
    · rw [hevent]
      refine (h.history e').cons fun hrefusal id hcreated => ?_
      obtain ⟨rfl, hrefuses⟩ := refuses_of_emits hemits hrefusal
      simp [h.readers rid e stage hreader ⟨id, hcreated⟩] at hrefuses
  unfold NeverRefused
  rw [hhistory]
  clear hhistory
  induction events with
  | nil => exact hstatement
  | cons event events ih =>
    obtain ⟨hevent, hevents⟩ := List.forall_mem_cons.mp hevents
    refine (ih hevents).cons fun hrefusal => ?_
    simp [refusalOf_of_settles hevent e'] at hrefusal

theorem Unrefused.advance {stage : MailStage} (h : s.Unrefused) (hsound : Sound P cfg s)
    (hreader : s.readers rid = some ⟨e, stage⟩) (hmeets : s.Meets P cfg (.advance rid)) :
    (s.settle cfg rid e (e.advance P cfg s.store stage)).Unrefused := by
  refine ⟨fun other e' stage' hother hnow => ?_, h.history_advance hreader⟩
  obtain ⟨hagain, hinserting⟩ := hmeets e stage hreader
  obtain ⟨-, r, hreaders, hr⟩ := settle_spec cfg s rid e (e.advance P cfg s.store stage)
  obtain ⟨id, hnow⟩ := hnow
  have hcreated := settle_created hnow
  rw [hreaders] at hother
  by_contra hrefuses
  have hrefuses : stage'.refuses = true := by simpa using hrefuses
  rcases Pool.set_eq_some.mp hother with ⟨rfl, hself⟩ | ⟨hne, hother⟩
  · obtain ⟨hemail, hnext⟩ := hr _ hself
    obtain rfl : e' = e := hemail
    rcases e'.advance_creates P cfg s.store stage with ⟨-, hold⟩ | ⟨d, rfl, -, -⟩
    · have hcreated := hold e' id hcreated
      rcases GraphEmail.advance_goes_refuses hnext hrefuses with ⟨rfl, hinvalid⟩ | hstage
      · -- the mail is validated again
        obtain ⟨-, d, hvalidated, -⟩ := hsound.created e' id hcreated
        obtain ⟨d', hvalid⟩ := hvalidated.again (hagain rfl ⟨id, hcreated⟩)
        exact hinvalid d' hvalid
      · simp [h.readers _ e' stage hreader ⟨id, hcreated⟩] at hstage
    · rcases GraphEmail.advance_goes_refuses hnext hrefuses with ⟨hstage, -⟩ | hstage
      · simp at hstage
      · simp [MailStage.refuses] at hstage
  · rcases e.advance_creates P cfg s.store stage with ⟨-, hold⟩ | ⟨d, rfl, hviolates, hstore⟩
    · simp [h.readers other e' stage' hother ⟨id, hold e' id hcreated⟩] at hrefuses
    · rw [hstore] at hcreated
      rcases List.mem_cons.mp hcreated with hnew | hold
      · -- this statement creates the notification
        obtain ⟨rfl, -⟩ := MailEvent.created.inj hnew
        simp [hinserting d rfl hviolates other ⟨e', stage'⟩ hne hother rfl] at hrefuses
      · simp [h.readers other e' stage' hother ⟨id, hold⟩] at hrefuses

theorem unrefused_preserves (P : MailPlatform) (cfg : InboundSettings) :
    (ingestion P cfg).Preserves (Ingestion.Meets P cfg) fun s => Sound P cfg s ∧ s.Unrefused := by
  refine System.Preserves.and (sound_preserves P cfg _) fun s a s' hsound h hmeets hstep => ?_
  change Ingestion.step P cfg s a = some s' at hstep
  cases a with
  | fetch rid e =>
    simp only [Ingestion.step] at hstep
    split at hstep
    · obtain rfl := Option.some.inj hstep
      refine ⟨fun j e' stage hj hcreated => ?_, h.history⟩
      rcases Pool.set_eq_some.mp hj with ⟨rfl, hnew⟩ | ⟨-, hj⟩
      · obtain ⟨-, rfl⟩ := Reader.mk.inj (Option.some.inj hnew)
        rfl
      · exact h.readers j e' stage hj hcreated
    · simp at hstep
  | advance rid =>
    obtain ⟨⟨e, stage⟩, hreader, rfl⟩ := Option.map_eq_some_iff.mp hstep
    exact h.advance hsound hreader hmeets
  | crash rid =>
    obtain rfl := Option.some.inj hstep
    refine ⟨fun j e' stage hj hcreated => ?_, h.history⟩
    rcases Pool.set_eq_some.mp hj with ⟨-, hnone⟩ | ⟨-, hj⟩
    · simp at hnone
    · exact h.readers j e' stage hj hcreated
  | tick | patch | editUsers =>
    obtain rfl := Option.some.inj hstep
    exact ⟨h.readers, h.history⟩
  | serve notifications =>
    simp only [Ingestion.step] at hstep
    split at hstep
    · obtain rfl := Option.some.inj hstep
      exact ⟨h.readers, h.history⟩
    · simp at hstep

theorem Fresh.unrefused (h : s.Fresh) : s.Unrefused := by
  refine ⟨fun rid e stage hr => ?_, fun e newer older id heq => ?_⟩
  · simp [h.readers] at hr
  · rw [h.history] at heq
    simp at heq

end Ingestion

/-- In every run a mail has one notification at most; and in the runs in which the policy and the
clock still accept a mail that created a notification, it is not refused any more. -/
theorem ingested_once (P : MailPlatform) (cfg : InboundSettings) (s₀ s : Ingestion)
    (h0 : s₀.Fresh) (e : GraphEmail) :
    ((ingestion P cfg).Reach (fun _ _ => True) s₀ s → s.AtMostOne e) ∧
      ((ingestion P cfg).Reach (Ingestion.Meets P cfg) s₀ s → s.NeverRefused e) := by
  refine ⟨fun h => ?_, fun h => ?_⟩
  · exact (h.invariant (Ingestion.sound_preserves P cfg _) h0.sound).atMostOne e
  · have hboth := h.invariant (Ingestion.unrefused_preserves P cfg) ⟨h0.sound, h0.unrefused⟩
    exact hboth.2.history e

/-! ### A sample -/

namespace Sample

/-- An application that accepts mail from anyone. -/
def mailApplication : ConsoleApplication where
  id := 1
  ownerId := 1
  appTokenPrefix := "apt_"
  appTokenHash := "h"
  enrolmentCode := "apk_"
  inboundEmailAlias := "app-1.pushit"
  inboundEmailSuffix := "1"
  webhookSecret := "whs_"
  inboundSenderMode := .anyone

/-- A mail to the sample application. -/
def sampleMail : GraphEmail where
  graphId := "m1"
  sender := "someone@mail.example"
  recipient := "app-1.pushit@pushit.example"
  subject := "Title"
  text := "Body"
  messageId := "id"

/-- The sample application, and nothing under way. -/
def quietIngestion : Ingestion where
  store := { clock := 0, applications := single mailApplication }

/-- The mail is processed by reader `0`. -/
def processed : List IngestionAction := [.fetch 0 sampleMail, .advance 0, .advance 0, .advance 0]

theorem quietIngestion_fresh : quietIngestion.Fresh :=
  ⟨rfl, rfl, by decide⟩

/-- Reader `0` is the only one, and the policy accepts its mail all the time. -/
def OneReader (s : Ingestion) : IngestionAction → Prop
  | .fetch rid _ => rid = 0
  | .advance rid => rid = 0 ∧
    ∀ r ∈ s.readers 0, acceptedAgain mailPlatform inboundSettings s.store r.email = true
  | _ => True

instance (s : Ingestion) (a : IngestionAction) : Decidable (OneReader s a) := by
  cases a <;> unfold OneReader <;> infer_instance

theorem oneReader_preserves : (ingestion mailPlatform inboundSettings).Preserves OneReader
    fun s => ∀ other, other ≠ 0 → s.readers other = none := by
  intro s a s' h hok hstep other hother
  change Ingestion.step mailPlatform inboundSettings s a = some s' at hstep
  cases a with
  | fetch rid e =>
    obtain rfl : rid = 0 := hok
    simp only [Ingestion.step] at hstep
    split at hstep
    · obtain rfl := Option.some.inj hstep
      exact (Pool.set_of_ne _ _ hother).trans (h other hother)
    · simp at hstep
  | advance rid =>
    obtain ⟨rfl, -⟩ : rid = 0 ∧ _ := hok
    obtain ⟨r, -, rfl⟩ := Option.map_eq_some_iff.mp hstep
    obtain ⟨-, q, hreaders, -⟩ := Ingestion.settle_spec inboundSettings s 0 r.email
      (r.email.advance mailPlatform inboundSettings s.store r.stage)
    rw [hreaders, Pool.set_of_ne _ _ hother]
    exact h other hother
  | crash rid =>
    obtain rfl := Option.some.inj hstep
    by_cases hrid : other = rid
    · exact hrid ▸ Pool.set_self _ _ _
    · exact (Pool.set_of_ne _ _ hrid).trans (h other hother)
  | tick | patch | editUsers =>
    obtain rfl := Option.some.inj hstep
    exact h other hother
  | serve notifications =>
    simp only [Ingestion.step] at hstep
    split at hstep
    · obtain rfl := Option.some.inj hstep
      exact h other hother
    · simp at hstep

theorem meets_of_oneReader (s : Ingestion) (a : IngestionAction)
    (hone : ∀ other, other ≠ 0 → s.readers other = none) (hok : OneReader s a) :
    s.Meets mailPlatform inboundSettings a := by
  cases a with
  | advance rid =>
    unfold OneReader at hok
    obtain ⟨hrid, haccepted⟩ := hok
    subst hrid
    intro e stage hreader
    refine ⟨fun _ _ => haccepted ⟨e, stage⟩ hreader, fun d _ _ other r hother hr => ?_⟩
    rw [hone other hother] at hr
    simp at hr
  | fetch | crash | tick | patch | editUsers | serve => exact True.intro

end Sample

/-- A mail that is fetched again has its one notification, and is journalled as existing. -/
theorem sample_ingested_once :
    ∃ s : Ingestion, Sample.quietIngestion.Fresh ∧
      .journalled Sample.sampleMail .existing ∈ s.store.history ∧
      s.AtMostOne Sample.sampleMail ∧ s.NeverRefused Sample.sampleMail := by
  obtain ⟨s, hreach, hexisting⟩ := System.exists_reach_of_guardedRun
    (ingestion Sample.mailPlatform Sample.inboundSettings) Sample.OneReader Sample.quietIngestion
    (Sample.processed ++ Sample.processed ++ [.advance 0])
    (fun s => s.store.history.contains (.journalled Sample.sampleMail .existing))
    (by decide +kernel)
  have hmeets : (ingestion Sample.mailPlatform Sample.inboundSettings).Reach
      (Ingestion.Meets Sample.mailPlatform Sample.inboundSettings) Sample.quietIngestion s :=
    hreach.mono_of_invariant _ Sample.oneReader_preserves Sample.meets_of_oneReader
      fun _ _ => rfl
  have h := ingested_once Sample.mailPlatform Sample.inboundSettings Sample.quietIngestion s
    Sample.quietIngestion_fresh Sample.sampleMail
  have hall := hreach.mono (fun _ _ => True) fun _ _ _ => trivial
  have hmem : .journalled Sample.sampleMail .existing ∈ s.store.history :=
    List.contains_iff_mem.mp hexisting
  exact ⟨s, Sample.quietIngestion_fresh, hmem, h.1 hall, h.2 hmeets⟩

/-- The notification was created, the owner blocks the sender, and the mail comes again. -/
theorem blocked_after_creation :
    ¬∀ (P : MailPlatform) (cfg : InboundSettings) (s₀ s : Ingestion), s₀.Fresh →
      (ingestion P cfg).Reach (fun _ _ => True) s₀ s → ∀ e, s.AtMostOne e ∧ s.NeverRefused e := by
  intro h
  obtain ⟨s, hreach, hhistory⟩ := System.exists_reach_of_guardedRun
    (ingestion Sample.mailPlatform Sample.inboundSettings) (fun _ _ => True) Sample.quietIngestion
    (Sample.processed ++
      [.patch 1 { inboundSenderBlocklist := some ["@mail.example"] }] ++ Sample.processed)
    (fun s => s.store.history ==
      [.journalled Sample.sampleMail .rejected, .marked "m1",
        .journalled Sample.sampleMail .created, .created Sample.sampleMail 1]) (by decide)
  have hhistory : s.store.history =
      [.journalled Sample.sampleMail .rejected, .marked "m1",
        .journalled Sample.sampleMail .created] ++ .created Sample.sampleMail 1 :: [] :=
    eq_of_beq hhistory
  have hrefused := (h Sample.mailPlatform Sample.inboundSettings Sample.quietIngestion s
    Sample.quietIngestion_fresh hreach Sample.sampleMail).2 _ _ _ hhistory
    (.journalled Sample.sampleMail .rejected) (by simp)
  simp [MailEvent.refusalOf] at hrefused

end PushIT
