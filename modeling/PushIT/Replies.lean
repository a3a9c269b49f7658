import PushIT.Authorisation

/-!
# The answers to senders

A mail is answered from three branches of `_process_email`: a known user wrote to an alias of no
application, or the sender policy of an application that answers refused a sender, with a user
account or without.  The signs of an automatic mail and the slot of the sender are looked at in
front of every answer; the authentication only where the policy accepted the sender.

## Main definitions

* `Correspondence`: the readers of the mailbox, with the answers they sent.
* `GraphEmail.Answerable`: the validation leaves the mail in an answering branch.
* `Correspondence.Meets`: no mail gets there without authentication.

## Main results

* `replies_authenticated`: who is answered, in all runs and in those that meet the condition.
* `forged_sender_answered`: an answer to a sender that was not authenticated.
-/

namespace PushIT

open Relational Transition

/-! ### The system -/

/-- An answer, at the instant at which its slot was claimed. -/
structure Reply where
  email : GraphEmail
  mail : OutgoingMail
  sentAt : Instant
  deriving DecidableEq, Repr

/-- The answers, the newest first. -/
structure Correspondence where
  ingestion : Ingestion
  replies : List Reply := []

inductive CorrespondenceAction
  | inbox (a : IngestionAction)
  /-- Applications are created, changed or deleted. -/
  | editApplications (applications : Table ConsoleApplication)

/-- The answer an event tells of. -/
def MailEvent.reply (now : Instant) : MailEvent → Option Reply
  | replied e mail => some ⟨e, mail, now⟩
  | _ => none

/-- The answers in the part of a history that was added. -/
def MailStore.newReplies (s t : MailStore) : List Reply :=
  (t.history.take (t.history.length - s.history.length)).filterMap (·.reply s.clock)

namespace Correspondence

def step (P : MailPlatform) (cfg : InboundSettings) (s : Correspondence) :
    CorrespondenceAction → Option Correspondence
  | .inbox a => (s.ingestion.step P cfg a).map fun t =>
      { ingestion := t, replies := s.ingestion.store.newReplies t.store ++ s.replies }
  | .editApplications applications =>
    some
      { s with
        ingestion := { s.ingestion with store := { s.ingestion.store with applications } } }

end Correspondence

/-- The mailbox and its answers as a transition system. -/
def correspondence (P : MailPlatform) (cfg : InboundSettings) :
    System Correspondence CorrespondenceAction :=
  ⟨Correspondence.step P cfg⟩

/-! ### What is to hold -/

/-- Two answers to one address are an interval apart. -/
def Correspondence.Spaced (P : MailPlatform) (cfg : InboundSettings) (s : Correspondence) :
    Prop :=
  s.replies.Pairwise fun newer older =>
    normalizeAddress P newer.email.sender = normalizeAddress P older.email.sender →
      older.sentAt + cfg.autoReplyIntervalSeconds * 1000000 ≤ newer.sentAt

/-! ### The condition -/

/-- The validation leaves the mail in a branch that answers: a known user wrote to no application,
or an application that answers refuses the sender. -/
def GraphEmail.Answerable (P : MailPlatform) (cfg : InboundSettings) (s : MailStore)
    (e : GraphEmail) : Bool :=
  match e.attrs.addressee P cfg s.applications with
  | none => s.users.rows.any (·.email == e.senderAddress P)
  | some a => a.inboundRejectionReplyToSender &&
      !(evaluateSenderPolicy P (ownerEmail s.users a) a (e.senderAddress P)).isAccepted

/-- The sender is authenticated, or the mail is an automatic one. -/
def GraphEmail.Vouched (P : MailPlatform) (cfg : InboundSettings) (e : GraphEmail) : Prop :=
  (e.authentication P cfg).accepted = true ∨ (autoReplyBlockReason P cfg e).isSome = true

instance (P : MailPlatform) (cfg : InboundSettings) (e : GraphEmail) :
    Decidable (e.Vouched P cfg) := by
  unfold GraphEmail.Vouched
  infer_instance

/-- A mail that is validated into an answering branch has an authenticated sender, or is not
answered because it is an automatic one. -/
def Correspondence.Meets (P : MailPlatform) (cfg : InboundSettings) (s : Correspondence) :
    CorrespondenceAction → Prop
  | .inbox (.advance rid) => ∀ r ∈ s.ingestion.readers rid, r.stage = .received →
      r.email.Answerable P cfg s.ingestion.store = true → r.email.Vouched P cfg
  | _ => True

instance : (stage : MailStage) → Decidable (stage = .received)
  | .received => isTrue rfl
  | .refusing _ | .notifying _ | .pushing _ | .replying _ | .answering _ | .rejecting _
  | .creating _ _ | .recording _ _ => isFalse (by simp)

instance (P : MailPlatform) (cfg : InboundSettings) (s : Correspondence)
    (a : CorrespondenceAction) : Decidable (s.Meets P cfg a) := by
  unfold Correspondence.Meets
  split <;> infer_instance

/-! ### The errors of a mail -/

section Errors

variable {errors : ValidationErrors} {field : String} {x : FieldError}

theorem lookup_map_append (errors : ValidationErrors) (field : String)
    (error : String × String) :
    (errors.map fun e => if e.1 = error.1 then (e.1, e.2 ++ [FieldError.detail error.2])
        else e).lookup field =
      (errors.lookup field).map fun texts =>
        if field = error.1 then texts ++ [.detail error.2] else texts := by
  induction errors with
  | nil => rfl
  | cons e errors ih =>
    obtain ⟨name, texts⟩ := e
    rw [List.map_cons]
    by_cases hfield : field = name
    · subst hfield
      by_cases hname : field = error.1 <;> simp [hname]
    · have hne : (field == name) = false := by simpa using hfield
      by_cases hname : name = error.1
      · rw [if_pos hname]
        simpa only [List.lookup_cons, hne] using ih
      · rw [if_neg hname]
        simpa only [List.lookup_cons, hne] using ih

theorem mem_lookup_addError {error : String × String} :
    x ∈ ((addError errors error).lookup field).getD [] ↔
      x ∈ (errors.lookup field).getD [] ∨ error.1 = field ∧ x = .detail error.2 := by
  unfold addError
  split
  · next hany =>
    rw [lookup_map_append]
    cases hlookup : errors.lookup field with
    | none =>
      have hnone : error.1 ≠ field := by
        rintro rfl
        obtain ⟨e, he, heq⟩ := List.any_eq_true.mp hany
        have hne : error.1 ≠ e.1 := by simpa using List.lookup_eq_none_iff.mp hlookup e he
        exact hne (beq_iff_eq.mp heq).symm
      simp [hnone]
    | some texts => by_cases hfield : field = error.1 <;> simp [hfield, eq_comm]
  · next hany =>
    rw [List.lookup_append]
    cases hlookup : errors.lookup field with
    | none =>
      by_cases hfield : field = error.1
      · simp [hfield]
      · have hne : (field == error.1) = false := by simpa using hfield
        simp [List.lookup_cons, hne, Ne.symm hfield]
    | some texts =>
      have hne : error.1 ≠ field := by
        rintro rfl
        obtain ⟨before, after, rfl, -⟩ := List.lookup_eq_some_iff.mp hlookup
        simp at hany
      simp [hne]

theorem mem_lookup_foldl_addError (found : List (String × String)) :
    x ∈ ((found.foldl addError errors).lookup field).getD [] ↔
      x ∈ (errors.lookup field).getD [] ∨
        ∃ error ∈ found, error.1 = field ∧ x = .detail error.2 := by
  induction found generalizing errors with
  | nil => simp
  | cons error found ih =>
    rw [List.foldl_cons, ih, mem_lookup_addError, List.exists_mem_cons_iff, or_assoc]

theorem mem_of_mem_lookup (h : x ∈ (errors.lookup field).getD []) :
    ∃ e ∈ errors, x ∈ e.2 := by
  cases hlookup : errors.lookup field with
  | none => simp [hlookup] at h
  | some texts =>
    obtain ⟨before, after, rfl, -⟩ := List.lookup_eq_some_iff.mp hlookup
    exact ⟨(field, texts), by simp, by simpa [hlookup] using h⟩

end Errors

/-- A field that fails has errors of the library only. -/
def LibraryOnly {α : Type} (field : Except (List FieldError) α) : Prop :=
  ∀ errors, field = .error errors → ∀ x ∈ errors, ∃ code, x = FieldError.library code

/-- A check that fails. -/
private theorem of_ite_eq_error {ε α : Type} {c : Prop} [Decidable c] {value : α}
    {errors out : ε} (h : (if c then Except.ok value else .error errors) = .error out) :
    errors = out := by
  by_cases hc : c
  · simp [hc] at h
  · simpa [hc] using h

theorem libraryOnly_charField (maxLength : Option ℕ) (value : String) :
    LibraryOnly (charField maxLength value) := by
  intro errors h x hx
  simp only [charField] at h
  split at h
  · obtain rfl := Except.error.inj h
    exact ⟨_, List.mem_singleton.mp hx⟩
  · obtain rfl := of_ite_eq_error h
    rcases List.mem_append.mp hx with hx | hx
    · exact ⟨_, List.mem_singleton.mp (List.mem_ite_nil_right.mp hx).2⟩
    · exact ⟨_, List.mem_singleton.mp (List.mem_ite_nil_right.mp hx).2⟩

theorem libraryOnly_blankableField (maxLength : Option ℕ) (value : String) :
    LibraryOnly (blankableField maxLength value) := by
  intro errors h
  unfold blankableField at h
  split at h
  · simp at h
  · exact libraryOnly_charField maxLength value errors h

theorem libraryOnly_emailField (P : MailPlatform) (value : String) :
    LibraryOnly (emailField P value) := by
  intro errors h x hx
  simp only [emailField] at h
  split at h
  · obtain rfl := Except.error.inj h
    exact ⟨_, List.mem_singleton.mp hx⟩
  · obtain rfl := of_ite_eq_error h
    rcases List.mem_append.mp hx with hx | hx
    · exact ⟨_, List.mem_singleton.mp (List.mem_ite_nil_right.mp hx).2⟩
    · exact ⟨_, List.mem_singleton.mp (List.mem_ite_nil_left.mp hx).2⟩

theorem LibraryOnly.of_mem_errorsOf {α : Type} {field : Except (List FieldError) α}
    (h : LibraryOnly field) {name : String} {e : String × List FieldError}
    (he : e ∈ errorsOf name field) : ∀ x ∈ e.2, ∃ code, x = FieldError.library code := by
  cases field with
  | ok value => simp [errorsOf] at he
  | error errors =>
    obtain rfl : e = (name, errors) := by simpa [errorsOf] using he
    exact h errors rfl

/-- A mail whose fields are refused is not taken for one of a known user. -/
theorem GraphEmail.toInternalValue_not_known {P : MailPlatform} {e : GraphEmail}
    {errors : ValidationErrors} (h : e.toInternalValue P = .error errors) :
    isKnownUserWrongAddress errors = false := by
  have hlibrary : ∀ e ∈ errors, ∀ x ∈ e.2, ∃ code, x = FieldError.library code := by
    simp only [toInternalValue] at h
    split at h
    · simp at h
    · obtain rfl := Except.error.inj h
      intro e' he
      simp only [List.mem_append] at he
      rcases he with (((((he | he) | he) | he) | he) | he) | he
      · exact (libraryOnly_emailField P e.sender).of_mem_errorsOf he
      · exact (libraryOnly_emailField P e.recipient).of_mem_errorsOf he
      · exact (libraryOnly_charField _ e.subject).of_mem_errorsOf he
      · exact (libraryOnly_charField _ e.text).of_mem_errorsOf he
      · exact (libraryOnly_blankableField _ e.messageId).of_mem_errorsOf he
      · exact (libraryOnly_blankableField _ e.authenticationResults).of_mem_errorsOf he
      · exact (libraryOnly_blankableField _ _).of_mem_errorsOf he
  have hrecipient : ((errors.lookup "recipient").getD []).any
      (·.mentions "No application matches") = false := by
    refine List.any_eq_false.mpr fun x hx => ?_
    obtain ⟨e', he, hx⟩ := mem_of_mem_lookup hx
    obtain ⟨code, rfl⟩ := hlibrary e' he x hx
    simp [FieldError.mentions]
  simp [isKnownUserWrongAddress, hrecipient]

/-! ### Where an answer comes from -/

/-- An answer to the sender is still to come, unless the mail is an automatic one. -/
def MailStage.answers : MailStage → Bool
  | refusing r | notifying r | pushing r | replying r =>
    r.application.inboundRejectionReplyToSender && r.reason != .notAuthenticated
  | answering _ => true
  | received | rejecting _ | creating _ _ | recording _ _ => false

section Validation

variable {P : MailPlatform} {cfg : InboundSettings} {s : MailStore} {e : GraphEmail}
  {stage stage' : MailStage}

theorem InboundAttrs.addressee_of_split {applications : Table ConsoleApplication}
    {attrs : InboundAttrs} {localPart domain : List Char}
    (h : splitFirst '@' (P.lower (strip attrs.recipient)).toList = some (localPart, domain)) :
    attrs.addressee P cfg applications = inboundApplication P cfg applications
      (String.ofList localPart) (P.lower (strip attrs.recipient)) := by
  simp only [addressee, h, Option.bind_some]

theorem noUserMatches_mentions :
    (FieldError.detail noUserMatches).mentions "No user matches" = true := by
  decide +kernel

/-- A rejection of `validate` is a refusal of the sender by the application of the mail. -/
theorem InboundAttrs.validate_eq_refused {now : Instant}
    {applications : Table ConsoleApplication} {users : Table User} {attrs : InboundAttrs}
    {errors : ValidationErrors} {r : InboundRejection}
    (h : attrs.validate P cfg now applications users = .invalid errors (some r)) :
    ∃ a, attrs.addressee P cfg applications = some a ∧
      refuseSender P cfg users attrs (P.lower (strip attrs.sender)) a = some r := by
  simp only [validate] at h
  split at h
  · simp at h
  · next localPart domain hsplit =>
    rw [addressee_of_split hsplit]
    split at h
    · simp at h
    · next a happlication =>
      refine ⟨a, happlication, ?_⟩
      split at h
      · split at h <;> simp at h
      · exact (InboundVerdict.invalid.inj h).2

/-- A mail of a known user to no application has no error that says that the user is unknown. -/
theorem InboundAttrs.validate_known_user {now : Instant}
    {applications : Table ConsoleApplication} {users : Table User} {attrs : InboundAttrs}
    {errors : ValidationErrors}
    (h : attrs.validate P cfg now applications users = .invalid errors none)
    (hwrong : isKnownUserWrongAddress errors = true) :
    (∃ a, attrs.addressee P cfg applications = some a ∧
        refuseSender P cfg users attrs (P.lower (strip attrs.sender)) a = none) ∨
      (attrs.addressee P cfg applications = none ∧
        users.rows.any (·.email == P.lower (strip attrs.sender)) = true) := by
  simp only [validate] at h
  split at h
  · obtain ⟨rfl, -⟩ := InboundVerdict.invalid.inj h
    exact absurd hwrong (by decide +kernel)
  · next localPart domain hsplit =>
    rw [addressee_of_split hsplit]
    split at h
    · next happlication =>
      refine Or.inr ⟨happlication, ?_⟩
      obtain ⟨rfl, -⟩ := InboundVerdict.invalid.inj h
      by_contra hunknown
      simp only [Bool.not_eq_true] at hunknown
      have hmem : FieldError.detail noUserMatches ∈
          ((List.foldl addError [] (attrs.details P cfg now (String.ofList domain) none ++
            if users.rows.any (·.email == P.lower (strip attrs.sender)) = true then []
            else [("sender", noUserMatches)])).lookup "sender").getD [] :=
        (mem_lookup_foldl_addError _).mpr
          (Or.inr ⟨("sender", noUserMatches), by simp [hunknown], rfl, rfl⟩)
      rw [happlication] at hwrong
      simp only [isKnownUserWrongAddress, Bool.and_eq_true, Bool.not_eq_true',
        List.any_eq_false] at hwrong
      exact hwrong.2 _ hmem noUserMatches_mentions
    · next a happlication =>
      refine Or.inl ⟨a, happlication, ?_⟩
      split at h
      · next hsender _ => exact hsender
      · exact (InboundVerdict.invalid.inj h).2

theorem GraphEmail.receive_eq_answering {errors : ValidationErrors}
    (h : e.receive P cfg s = .goes (.answering errors)) :
    e.validate P cfg s.clock s.applications s.users = .invalid errors none ∧
      isKnownUserWrongAddress errors = true := by
  unfold receive at h
  split at h
  · simp at h
  · split at h
    · simp at h
    · simp at h
    · next errors' hvalidate =>
      split at h
      · next hwrong =>
        obtain rfl := MailStage.answering.inj (MailNext.goes.inj h)
        exact ⟨hvalidate, hwrong⟩
      · simp at h

/-- With the authentication enforced, whoever comes into an answering branch is authenticated or
the mail is answerable. -/
theorem GraphEmail.receive_answers (hdmarc : cfg.requireDmarc = true)
    (h : e.receive P cfg s = .goes stage) (hanswers : stage.answers = true) :
    (e.authentication P cfg).accepted = true ∨ e.Answerable P cfg s = true := by
  obtain ⟨-, ⟨d, rfl, -⟩ | ⟨errors, r, rfl, hvalidate⟩ | ⟨errors, rfl | rfl, -⟩⟩ :=
    receive_eq_goes h
  · simp [MailStage.answers] at hanswers
  · unfold validate at hvalidate
    cases hattrs : e.toInternalValue P with
    | error errors => simp [hattrs] at hvalidate
    | ok attrs =>
      rw [hattrs] at hvalidate
      obtain ⟨rfl, -⟩ := toInternalValue_eq_ok hattrs
      obtain ⟨a, haddressee, hrefuse⟩ := InboundAttrs.validate_eq_refused hvalidate
      simp only [MailStage.answers, Bool.and_eq_true, bne_iff_ne] at hanswers
      obtain ⟨hreply, hreason⟩ := hanswers
      refine Or.inr ?_
      simp only [Answerable, haddressee, senderAddress]
      simp only [refuseSender] at hrefuse
      split at hrefuse
      · next reason hpolicy =>
        obtain rfl := Option.some.inj hrefuse
        have hreply : a.inboundRejectionReplyToSender = true := hreply
        simp [hreply, hpolicy, SenderPolicyDecision.isAccepted]
      · split at hrefuse
        · obtain rfl := Option.some.inj hrefuse
          exact absurd rfl hreason
        · simp at hrefuse
  · obtain ⟨hvalidate, hwrong⟩ := receive_eq_answering h
    unfold validate at hvalidate
    cases hattrs : e.toInternalValue P with
    | error errors' =>
      rw [hattrs] at hvalidate
      obtain ⟨rfl, -⟩ := InboundVerdict.invalid.inj hvalidate
      simp [toInternalValue_not_known hattrs] at hwrong
    | ok attrs =>
      rw [hattrs] at hvalidate
      obtain ⟨rfl, -⟩ := toInternalValue_eq_ok hattrs
      rcases InboundAttrs.validate_known_user hvalidate hwrong with
        ⟨a, haddressee, hrefuse⟩ | ⟨hnone, hknown⟩
      · exact Or.inl ((refuseSender_eq_none_iff.mp hrefuse).2 hdmarc)
      · refine Or.inr ?_
        simp only [Answerable, hnone]
        exact hknown
  · simp [MailStage.answers] at hanswers

/-- Only a mail that is being answered goes on to be answered. -/
theorem GraphEmail.advance_goes_answers (h : (e.advance P cfg s stage).next = .goes stage')
    (hanswers : stage'.answers = true) : stage = .received ∨ stage.answers = true := by
  cases stage with
  | received => exact Or.inl rfl
  | answering => exact Or.inr rfl
  | refusing r =>
    obtain rfl := MailNext.goes.inj (goes_of_journalling h)
    exact Or.inr hanswers
  | notifying r | pushing r =>
    obtain rfl := MailNext.goes.inj h
    exact Or.inr hanswers
  | replying r => simp [advance] at h
  | rejecting errors => simpa using goes_of_journalling h
  | creating d creation =>
    rcases create_next P s e d creation with ⟨-, hnext⟩ | ⟨o, hnext⟩ | hnext
    · obtain rfl := MailNext.goes.inj (hnext.symm.trans h)
      simp [MailStage.answers] at hanswers
    · obtain rfl := MailNext.goes.inj (hnext.symm.trans h)
      simp [MailStage.answers] at hanswers
    · simp [advance, hnext] at h
  | recording d o => simpa using goes_of_journalling h

end Validation

/-! ### What a statement sends -/

namespace MailStore

variable {P : MailPlatform} {cfg : InboundSettings} {s t u : MailStore} {e : GraphEmail}
  {stage : MailStage}

/-- No answer is sent, and the slots that are taken stay taken. -/
structure QuietFrom (s t : MailStore) : Prop where
  clock : t.clock = s.clock
  cache : ∀ slot ∈ s.cache, slot ∈ t.cache
  history : ∃ events, t.history = events ++ s.history ∧ ∀ x ∈ events, x.reply s.clock = none

theorem QuietFrom.refl (s : MailStore) : s.QuietFrom s := ⟨rfl, fun _ h => h, [], rfl, by simp⟩

theorem QuietFrom.trans (h : s.QuietFrom t) (h' : t.QuietFrom u) : s.QuietFrom u := by
  obtain ⟨events, hevents, hnone⟩ := h.history
  obtain ⟨events', hevents', hnone'⟩ := h'.history
  refine ⟨h'.clock.trans h.clock, fun slot hslot => h'.cache slot (h.cache slot hslot),
    events' ++ events, by rw [hevents', hevents, List.append_assoc], fun x hx => ?_⟩
  rcases List.mem_append.mp hx with hx | hx
  · exact h.clock ▸ hnone' x hx
  · exact hnone x hx

theorem quietFrom_happened {event : MailEvent} (h : event.reply s.clock = none) :
    s.QuietFrom (s.happened event) :=
  ⟨rfl, fun _ h => h, [event], rfl, by simpa using h⟩

theorem newReplies_of_append {events : List MailEvent} (h : t.history = events ++ s.history) :
    s.newReplies t = events.filterMap (·.reply s.clock) := by
  simp [newReplies, h]

theorem QuietFrom.newReplies (h : s.QuietFrom t) : s.newReplies t = [] := by
  obtain ⟨events, hevents, hnone⟩ := h.history
  rw [newReplies_of_append hevents]
  simpa using hnone

/-- The key of the slot of a sender. -/
def autoReplyKey (P : MailPlatform) (sender : String) : String :=
  "inbound:auto-reply:" ++ P.sha256 (normalizeAddress P sender).toUTF8

/-- A slot is granted when it is not taken, and is taken then. -/
theorem claimSlot_grants {key : String} (h : claimSlot cfg s key = some t) :
    s.QuietFrom t ∧ t.history = s.history ∧
      (0 < cfg.autoReplyIntervalSeconds →
        (key, s.clock + cfg.autoReplyIntervalSeconds * 1000000) ∈ t.cache ∧
        ∀ expiry, (key, expiry) ∈ s.cache → expiry ≤ s.clock) := by
  unfold claimSlot cacheAdd at h
  split at h
  · next hoff =>
    obtain rfl := Option.some.inj h
    exact ⟨.refl s, rfl, fun hon => absurd hoff (not_le.mpr hon)⟩
  · split at h
    · simp at h
    · next hfree =>
      obtain rfl := Option.some.inj h
      refine ⟨⟨rfl, fun slot hslot => List.mem_cons_of_mem _ hslot, [], rfl, by simp⟩, rfl,
        fun _ => ⟨List.mem_cons_self, fun expiry hslot => ?_⟩⟩
      by_contra hlater
      exact hfree (List.any_eq_true.mpr ⟨_, hslot, by simpa using hlater⟩)

/-- An answer leaves with the slot of the sender, to a mail that is not an automatic one. -/
structure Sends (P : MailPlatform) (cfg : InboundSettings) (e : GraphEmail) (s t : MailStore) :
    Prop where
  signs : autoReplyBlockReason P cfg e = none
  claim : ∃ u mail, claimSlot cfg s (autoReplyKey P e.sender) = some u ∧
    t = u.happened (.replied e mail)

theorem maybeReply_cases (P : MailPlatform) (cfg : InboundSettings) (s : MailStore)
    (e : GraphEmail) (reply : Option OutgoingMail) :
    s.QuietFrom (maybeReply P cfg s e reply) ∨ Sends P cfg e s (maybeReply P cfg s e reply) := by
  unfold maybeReply
  split
  · exact Or.inl (.refl s)
  · next hsigns =>
    cases hclaim : claimAutoReplySlot P cfg s e.sender with
    | none => exact Or.inl (.refl s)
    | some u =>
      cases reply with
      | none => exact Or.inl (claimSlot_grants hclaim).1
      | some mail => exact Or.inr ⟨by simpa using hsigns, u, mail, hclaim, rfl⟩

theorem quietFrom_claimSlot {key : String} {event : MailEvent}
    (h : event.reply s.clock = none) :
    s.QuietFrom (((claimSlot cfg s key).map fun t => t.happened event).getD s) := by
  cases hclaim : claimSlot cfg s key with
  | none => exact .refl s
  | some t =>
    obtain ⟨hquiet, -⟩ := claimSlot_grants hclaim
    exact hquiet.trans (quietFrom_happened (hquiet.clock ▸ h))

theorem quietFrom_journalling {entry : JournalEntry} {next : MailNext} :
    s.QuietFrom (journalling P s e entry next).store := by
  unfold journalling
  cases hrecord : recordInboundEmailIngestion s e entry with
  | none => exact .refl s
  | some t =>
    obtain ⟨-, rfl⟩ := recordInboundEmailIngestion_eq_some hrecord
    exact ⟨rfl, fun _ h => h, [_], rfl, by simp [MailEvent.reply]⟩

theorem quietFrom_create {d : InboundData} {creation : CreationStage} :
    s.QuietFrom (e.create P s d creation).store := by
  simp only [GraphEmail.create]
  split
  · exact .refl s
  · have hadvances := CreationCall.advance_cases s.clock s.db (d.creation P e) creation
    generalize (d.creation P e).advance s.clock s.db creation = step at hadvances
    cases hadvances with
    | inserted => exact ⟨rfl, fun _ h => h, [_], rfl, by simp [MailEvent.reply]⟩
    | lost | broken | missing | found => exact ⟨rfl, fun _ h => h, [], rfl, by simp⟩

/-- An answer is the one new reply. -/
theorem newReplies_sends {w : MailStore} {mail : OutgoingMail} (h : s.QuietFrom u)
    (hhistory : u.history = s.history) (hw : (u.happened (.replied e mail)).QuietFrom w) :
    s.newReplies w = [⟨e, mail, s.clock⟩] := by
  obtain ⟨events, hevents, hnone⟩ := hw.history
  have happend : w.history = (events ++ [.replied e mail]) ++ s.history := by
    simp [hevents, happened, hhistory]
  have hquiet : ∀ x ∈ events, x.reply s.clock = none := fun x hx => h.clock ▸ hnone x hx
  rw [newReplies_of_append happend, List.filterMap_append, List.filterMap_eq_nil_iff.mpr hquiet]
  rfl

/-- A statement is quiet, or it is one that answers and sends an answer. -/
theorem advance_answers (P : MailPlatform) (cfg : InboundSettings) (s : MailStore)
    (e : GraphEmail) (stage : MailStage) :
    s.QuietFrom (e.advance P cfg s stage).store ∨
      (stage.answers = true ∧ Sends P cfg e s (e.advance P cfg s stage).store) := by
  cases stage with
  | received => exact Or.inl (.refl s)
  | refusing r => exact Or.inl quietFrom_journalling
  | notifying r =>
    simp only [GraphEmail.advance, notifyOwnerByMail]
    split
    · exact Or.inl (quietFrom_claimSlot rfl)
    · exact Or.inl (.refl s)
  | pushing r =>
    simp only [GraphEmail.advance, notifyOwnerByPush]
    split
    · exact Or.inl (quietFrom_claimSlot rfl)
    · exact Or.inl (.refl s)
  | replying r =>
    simp only [GraphEmail.advance]
    split
    · next hreplies =>
      have hanswers : (MailStage.replying r).answers = true := by
        simpa [MailStage.answers] using hreplies
      simp only [replyToRefusedSender]
      split
      · exact (maybeReply_cases P cfg s e _).imp_right fun h => ⟨hanswers, h⟩
      · exact (maybeReply_cases P cfg s e _).imp_right fun h => ⟨hanswers, h⟩
    · exact Or.inl (.refl s)
  | answering errors => exact (maybeReply_cases P cfg s e _).imp_right fun h => ⟨rfl, h⟩
  | rejecting errors => exact Or.inl quietFrom_journalling
  | creating d creation => exact Or.inl quietFrom_create
  | recording d o => exact Or.inl quietFrom_journalling

theorem quietFrom_recordProcessingFailure (cfg : InboundSettings) (s : MailStore)
    (e : GraphEmail) (text : String) :
    s.QuietFrom (recordProcessingFailure cfg s e text).store := by
  unfold recordProcessingFailure
  cases hrecord : recordInboundEmailIngestion s e { status := .error, errorMessage := text } with
  | none => exact .refl s
  | some t =>
    obtain ⟨-, rfl⟩ := recordInboundEmailIngestion_eq_some hrecord
    simp only
    split
    · exact ⟨rfl, fun _ h => h, [_], rfl, by simp [MailEvent.reply]⟩
    · split
      · exact ⟨rfl, fun _ h => h, [_, _], rfl, by simp [MailEvent.reply]⟩
      · exact ⟨rfl, fun _ h => h, [_], rfl, by simp [MailEvent.reply]⟩

theorem quietFrom_settle (cfg : InboundSettings) (s : Ingestion) (rid : ℕ) (e : GraphEmail)
    (step : MailStep) : step.store.QuietFrom (s.settle cfg rid e step).store := by
  obtain ⟨store, next⟩ := step
  cases next with
  | goes stage => exact .refl store
  | ends outcome => exact quietFrom_happened rfl
  | raises text =>
    have hfailed : store.QuietFrom (store.happened (.failed e text)) := quietFrom_happened rfl
    exact hfailed.trans (quietFrom_recordProcessingFailure cfg _ e text)

end MailStore

/-! ### The invariants -/

namespace Correspondence

variable {P : MailPlatform} {cfg : InboundSettings} {s t : Correspondence}
  {a : CorrespondenceAction}

/-- A step sends nothing, or it is a statement of a reader that sends an answer; the slots that are
taken stay taken. -/
inductive Steps (P : MailPlatform) (cfg : InboundSettings) (s : Correspondence) :
    CorrespondenceAction → Correspondence → Prop
  | quiet {a : CorrespondenceAction} {t : Correspondence} (hreplies : t.replies = s.replies)
      (hclock : s.ingestion.store.clock ≤ t.ingestion.store.clock)
      (hcache : ∀ slot ∈ s.ingestion.store.cache, slot ∈ t.ingestion.store.cache) :
      Steps P cfg s a t
  | sends {t : Correspondence} (rid : ℕ) (r : Reader) (hr : s.ingestion.readers rid = some r)
      (hanswers : r.stage.answers = true) (mail : OutgoingMail) (u : MailStore)
      (hsigns : autoReplyBlockReason P cfg r.email = none)
      (hclaim : claimSlot cfg s.ingestion.store (MailStore.autoReplyKey P r.email.sender) = some u)
      (hreplies : t.replies = ⟨r.email, mail, s.ingestion.store.clock⟩ :: s.replies)
      (hclock : t.ingestion.store.clock = s.ingestion.store.clock)
      (hcache : ∀ slot ∈ u.cache, slot ∈ t.ingestion.store.cache) :
      Steps P cfg s (.inbox (.advance rid)) t

theorem newReplies_self (s : MailStore) : s.newReplies s = [] :=
  (MailStore.QuietFrom.refl s).newReplies

/-- An action whose store has the history as before. -/
theorem newReplies_of_history {s t : MailStore} (h : t.history = s.history) :
    s.newReplies t = [] := by
  have hnone : s.newReplies t = ([] : List MailEvent).filterMap (·.reply s.clock) :=
    MailStore.newReplies_of_append h
  simpa using hnone

theorem step_cases (h : s.step P cfg a = some t) : Steps P cfg s a t := by
  cases a with
  | editApplications applications =>
    obtain rfl := Option.some.inj h
    exact .quiet rfl le_rfl fun _ h => h
  | inbox a =>
    obtain ⟨i, hi, rfl⟩ := Option.map_eq_some_iff.mp h
    cases a with
    | advance rid =>
      obtain ⟨r, hr, rfl⟩ := Option.map_eq_some_iff.mp hi
      have hsettle := MailStore.quietFrom_settle cfg s.ingestion rid r.email
        (r.email.advance P cfg s.ingestion.store r.stage)
      rcases MailStore.advance_answers P cfg s.ingestion.store r.email r.stage with
        hquiet | ⟨hanswers, hsigns, u, mail, hclaim, hstore⟩
      · have hquiet := hquiet.trans hsettle
        exact .quiet (by simp [hquiet.newReplies]) hquiet.clock.ge hquiet.cache
      · obtain ⟨hgrants, hhistory, -⟩ := MailStore.claimSlot_grants hclaim
        rw [hstore] at hsettle
        have hnew := MailStore.newReplies_sends hgrants hhistory hsettle
        exact .sends rid r hr hanswers mail u hsigns hclaim (by simp only [hnew]; rfl)
          (hsettle.clock.trans hgrants.clock) hsettle.cache
    | fetch rid e =>
      simp only [Ingestion.step] at hi
      split at hi
      · obtain rfl := Option.some.inj hi
        exact .quiet (by simp [newReplies_self]) le_rfl fun _ h => h
      · simp at hi
    | crash | patch | editUsers =>
      obtain rfl := Option.some.inj hi
      exact .quiet (by simp [newReplies_of_history]) le_rfl fun _ h => h
    | tick microseconds =>
      obtain rfl := Option.some.inj hi
      exact .quiet (by simp [newReplies_of_history])
        (Int.le_add_of_nonneg_right (Int.natCast_nonneg _)) fun _ h => h
    | serve notifications =>
      simp only [Ingestion.step] at hi
      split at hi
      · obtain rfl := Option.some.inj hi
        exact .quiet (by simp [newReplies_of_history]) le_rfl fun _ h => h
      · simp at hi

/-- Every answer went to a mail without signs of an automatic one, holds its slot, and keeps the
distance. -/
structure Timed (P : MailPlatform) (cfg : InboundSettings) (s : Correspondence) : Prop where
  signs : ∀ reply ∈ s.replies, autoReplyBlockReason P cfg reply.email = none
  past : ∀ reply ∈ s.replies, reply.sentAt ≤ s.ingestion.store.clock
  slots : 0 < cfg.autoReplyIntervalSeconds → ∀ reply ∈ s.replies,
    (MailStore.autoReplyKey P reply.email.sender,
      reply.sentAt + cfg.autoReplyIntervalSeconds * 1000000) ∈ s.ingestion.store.cache
  spaced : s.Spaced P cfg

theorem timed_preserves (P : MailPlatform) (cfg : InboundSettings) :
    (correspondence P cfg).Preserves (fun _ _ => True) (Timed P cfg) := by
  intro s a t h _ hstep
  cases step_cases hstep with
  | quiet hreplies hclock hcache =>
    refine ⟨hreplies ▸ h.signs, ?_, ?_, ?_⟩
    · rw [hreplies]
      exact fun reply hreply => (h.past reply hreply).trans hclock
    · rw [hreplies]
      exact fun hon reply hreply => hcache _ (h.slots hon reply hreply)
    · unfold Spaced
      rw [hreplies]
      exact h.spaced
  | sends rid r hr hanswers mail u hsigns hclaim hreplies hclock hcache =>
    obtain ⟨hquiet, -, hgrants⟩ := MailStore.claimSlot_grants hclaim
    refine ⟨?_, ?_, ?_, ?_⟩
    · rw [hreplies]
      exact List.forall_mem_cons.mpr ⟨hsigns, h.signs⟩
    · rw [hreplies, hclock]
      exact List.forall_mem_cons.mpr ⟨le_rfl, h.past⟩
    · rw [hreplies]
      intro hon
      refine List.forall_mem_cons.mpr ⟨hcache _ (hgrants hon).1, fun reply hreply => ?_⟩
      exact hcache _ (hquiet.cache _ (h.slots hon reply hreply))
    · unfold Spaced
      rw [hreplies]
      refine List.pairwise_cons.mpr ⟨fun reply hreply haddress => ?_, h.spaced⟩
      by_cases hon : 0 < cfg.autoReplyIntervalSeconds
      · have hslot := h.slots hon reply hreply
        have hkey : MailStore.autoReplyKey P reply.email.sender =
            MailStore.autoReplyKey P r.email.sender := by
          unfold MailStore.autoReplyKey
          rw [← haddress]
        exact (hgrants hon).2 _ (hkey ▸ hslot)
      · -- without an interval every answer keeps the distance
        have hpast : reply.sentAt ≤ s.ingestion.store.clock := h.past reply hreply
        change reply.sentAt + _ ≤ s.ingestion.store.clock
        unfold Instant at *
        omega

/-- The mails that are being answered are vouched for, and so are those that were. -/
structure Authenticated (P : MailPlatform) (cfg : InboundSettings) (s : Correspondence) :
    Prop where
  readers : ∀ rid r, s.ingestion.readers rid = some r → r.stage.answers = true →
    r.email.Vouched P cfg
  replies : ∀ reply ∈ s.replies, (reply.email.authentication P cfg).accepted = true

/-- A statement leaves only readers whose mail is vouched for. -/
theorem Authenticated.advance (hdmarc : cfg.requireDmarc = true) (h : s.Authenticated P cfg)
    {rid : ℕ} {r : Reader} (hr : s.ingestion.readers rid = some r)
    (hmeets : r.stage = .received → r.email.Answerable P cfg s.ingestion.store = true →
      r.email.Vouched P cfg) :
    ∀ other q, (s.ingestion.settle cfg rid r.email
        (r.email.advance P cfg s.ingestion.store r.stage)).readers other = some q →
      q.stage.answers = true → q.email.Vouched P cfg := by
  obtain ⟨-, next, hreaders, hnext⟩ := Ingestion.settle_spec cfg s.ingestion rid r.email
    (r.email.advance P cfg s.ingestion.store r.stage)
  intro other q hq hanswers
  rw [hreaders] at hq
  rcases Pool.set_eq_some.mp hq with ⟨-, hself⟩ | ⟨-, hother⟩
  · obtain ⟨hemail, hgoes⟩ := hnext q hself
    rw [hemail]
    rcases GraphEmail.advance_goes_answers hgoes hanswers with hreceived | hbefore
    · have hreceive : r.email.receive P cfg s.ingestion.store = .goes q.stage := by
        rw [hreceived] at hgoes
        exact hgoes
      rcases GraphEmail.receive_answers hdmarc hreceive hanswers with haccepted | hanswerable
      · exact Or.inl haccepted
      · exact hmeets hreceived hanswerable
    · exact h.readers rid r hr hbefore
  · exact h.readers other q hother hanswers

theorem authenticated_preserves (P : MailPlatform) (hdmarc : cfg.requireDmarc = true) :
    (correspondence P cfg).Preserves (fun s a => s.Meets P cfg a) (Authenticated P cfg) := by
  intro s a t h hmeets hstep
  have hreplies : ∀ reply ∈ t.replies, (reply.email.authentication P cfg).accepted = true := by
    cases step_cases hstep with
    | quiet hreplies => exact hreplies ▸ h.replies
    | sends rid r hr hanswers mail u hsigns hclaim hreplies =>
      rw [hreplies]
      refine List.forall_mem_cons.mpr ⟨?_, h.replies⟩
      rcases h.readers rid r hr hanswers with haccepted | hautomatic
      · exact haccepted
      · simp [hsigns] at hautomatic
  refine ⟨?_, hreplies⟩
  cases a with
  | editApplications applications =>
    obtain rfl := Option.some.inj hstep
    exact h.readers
  | inbox a =>
    obtain ⟨i, hi, rfl⟩ := Option.map_eq_some_iff.mp hstep
    cases a with
    | advance rid =>
      obtain ⟨r, hr, rfl⟩ := Option.map_eq_some_iff.mp hi
      exact h.advance hdmarc hr (hmeets r hr)
    | fetch rid e =>
      simp only [Ingestion.step] at hi
      split at hi
      · obtain rfl := Option.some.inj hi
        intro other q hq hanswers
        rcases Pool.set_eq_some.mp hq with ⟨-, hself⟩ | ⟨-, hother⟩
        · obtain rfl := Option.some.inj hself
          simp [MailStage.answers] at hanswers
        · exact h.readers other q hother hanswers
      · simp at hi
    | crash rid =>
      obtain rfl := Option.some.inj hi
      intro other q hq hanswers
      rcases Pool.set_eq_some.mp hq with ⟨-, hself⟩ | ⟨-, hother⟩
      · simp at hself
      · exact h.readers other q hother hanswers
    | tick | patch | editUsers =>
      obtain rfl := Option.some.inj hi
      exact h.readers
    | serve notifications =>
      simp only [Ingestion.step] at hi
      split at hi
      · obtain rfl := Option.some.inj hi
        exact h.readers
      · simp at hi

end Correspondence

/-- In every run the answers go to mails without signs of an automatic one, an interval apart for
each address; and in the runs that meet the condition, to authenticated senders. -/
theorem replies_authenticated (P : MailPlatform) (cfg : InboundSettings)
    (hdmarc : cfg.requireDmarc = true) (s₀ : Correspondence)
    (hidle : s₀.ingestion.readers = .idle) (hnone : s₀.replies = []) (s : Correspondence) :
    ((correspondence P cfg).Reach (fun _ _ => True) s₀ s →
        (∀ reply ∈ s.replies, autoReplyBlockReason P cfg reply.email = none) ∧
          s.Spaced P cfg) ∧
      ((correspondence P cfg).Reach (fun s a => s.Meets P cfg a) s₀ s →
        ∀ reply ∈ s.replies, (reply.email.authentication P cfg).accepted = true) := by
  constructor
  · intro hreach
    have hstart : s₀.Timed P cfg :=
      ⟨by simp [hnone], by simp [hnone], by simp [hnone], by simp [Correspondence.Spaced, hnone]⟩
    have htimed := hreach.invariant (Correspondence.timed_preserves P cfg) hstart
    exact ⟨htimed.signs, htimed.spaced⟩
  · intro hreach
    have hstart : s₀.Authenticated P cfg := ⟨by simp [hidle], by simp [hnone]⟩
    exact (hreach.invariant (Correspondence.authenticated_preserves P hdmarc) hstart).replies

/-! ### A sample -/

namespace Sample

def knownUser : User where
  id := 1
  email := "someone@mail.example"
  password := "hash"

/-- A user with the address of the sample mail, and no application. -/
def mailUser : Correspondence where
  ingestion := { store := { clock := 0, users := single knownUser } }

/-- The mail is validated, and answered. -/
def answeredMail (e : GraphEmail) : List CorrespondenceAction :=
  [.inbox (.fetch 0 e), .inbox (.advance 0), .inbox (.advance 0)]

end Sample

/-- A known user whose mail passed the check is answered. -/
theorem sample_replies_authenticated :
    ∃ s : Correspondence, s.replies.length = 1 ∧
      ∀ reply ∈ s.replies,
        (reply.email.authentication Sample.mailPlatform Sample.dmarcSettings).accepted = true := by
  obtain ⟨s, hreach, hsent⟩ := System.exists_reach_of_guardedRun
    (correspondence Sample.mailPlatform Sample.dmarcSettings)
    (fun s a => s.Meets Sample.mailPlatform Sample.dmarcSettings a) Sample.mailUser
    (Sample.answeredMail (Sample.dmarcMail "Title")) (fun s => s.replies.length == 1)
    (by decide +kernel)
  exact ⟨s, eq_of_beq hsent, (replies_authenticated Sample.mailPlatform Sample.dmarcSettings rfl
    Sample.mailUser rfl rfl s).2 hreach⟩

/-- A mail in the name of a user, without any result of the check, is answered. -/
theorem forged_sender_answered :
    ¬∀ (P : MailPlatform) (cfg : InboundSettings) (s₀ s : Correspondence),
      cfg.requireDmarc = true → s₀.ingestion.readers = .idle → s₀.replies = [] →
        (correspondence P cfg).Reach (fun _ _ => True) s₀ s →
          ∀ reply ∈ s.replies, (reply.email.authentication P cfg).accepted = true := by
  intro h
  obtain ⟨s, hreach, hsent⟩ := System.exists_reach_of_guardedRun
    (correspondence Sample.mailPlatform Sample.dmarcSettings) (fun _ _ => True) Sample.mailUser
    (Sample.answeredMail Sample.sampleMail)
    (fun s => s.replies.any (·.email == Sample.sampleMail)) (by decide +kernel)
  obtain ⟨reply, hreply, hemail⟩ := List.any_eq_true.mp hsent
  have haccepted := h _ _ _ _ rfl rfl rfl hreach reply hreply
  rw [eq_of_beq hemail] at haccepted
  exact absurd haccepted (by decide +kernel)

end PushIT
