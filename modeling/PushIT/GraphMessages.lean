import PushIT.HtmlText
import PushIT.Polling

/-!
# Fetched mails

`fetch_unread_emails` of `applications/graph_mail.py` makes a `GraphEmail` of every message that
Microsoft Graph lists.  The addresses of a message stand in To and Cc, and in the headers that name
the recipient of a mail that was sent to it in Bcc or forwarded; the poller then looks at the one
that `pick_recipient` chose.

## Main definitions

* `GraphMessage.email`, `fetchUnreadEmails`: what becomes of a message, and of a list of them.
* `GraphMessage.addressed`: the addresses of a message, in the order in which they are looked at.

## Main results

* `fetched_mails_routed`: a message is processed for the first alias among its addresses, and it is
  ignored exactly where there is none.
-/

namespace PushIT

/-! ### Messages -/

/-- A member of `internetMessageHeaders`. -/
structure GraphHeader where
  name : Option String := none
  value : Option String := none
  deriving DecidableEq, Repr

/-- The members of a message that are read.  An address is missing where it, or an object around
it, is missing or null. -/
structure GraphMessage where
  id : String
  from_ : Option String := none
  toRecipients : List (Option String) := []
  ccRecipients : List (Option String) := []
  subject : Option String := none
  content : String := ""
  contentType : String := "text"
  internetMessageId : Option String := none
  internetMessageHeaders : List GraphHeader := []
  deriving DecidableEq, Repr

/-- What the mapping of a message uses besides the checks of the inbound mail. -/
structure GraphPlatform extends MailPlatform where
  /-- The addresses that `email.utils.getaddresses` finds. -/
  getaddresses : List String → List String
  /-- What `html.parser` reports of a text. -/
  htmlEvents : String → List HtmlEvent

/-- `RECIPIENT_HEADERS`. -/
def recipientHeaders : List String := ["delivered-to", "x-original-to", "resent-to"]

section Fetching

variable (P : GraphPlatform) (cfg : InboundSettings)

/-- `(header.get("name") or "").strip().lower()`. -/
def GraphHeader.key (h : GraphHeader) : String := P.lower (strip (h.name.getD ""))

/-- The values of the headers of a name. -/
def GraphMessage.headerValues (m : GraphMessage) (wanted : String) : List String :=
  (m.internetMessageHeaders.filter fun h => h.key P == wanted).map fun h => h.value.getD ""

/-- `add`. -/
def addCandidate (seen : List String) (address : String) : List String :=
  let address := normalizeAddress P.toMailPlatform address
  if address ≠ "" ∧ '@' ∈ address.toList ∧ address ∉ seen then seen ++ [address] else seen

/-- `_recipient_candidates`. -/
def recipientCandidates (m : GraphMessage) : List String :=
  let seen := (m.toRecipients ++ m.ccRecipients).foldl
    (fun seen entry => addCandidate P seen (entry.getD "")) []
  recipientHeaders.foldl
    (fun seen wanted => (P.getaddresses (m.headerValues P wanted)).foldl (addCandidate P) seen) seen

/-- `pick_recipient`. -/
def pickRecipient (candidates : List String) (domain : String) : String :=
  match candidates.find? (isInboundAliasAddress P.toMailPlatform cfg) with
  | some address => address
  | none => (candidates.find? fun a => ("@" ++ domain).toList.isSuffixOf a.toList).getD ""

/-- A header enters `header_map`, unless it has no name or its name is there. -/
def noteHeader (headers : List (String × String)) (h : GraphHeader) : List (String × String) :=
  if h.key P ≠ "" ∧ headers.lookup (h.key P) = none then
    headers ++ [(h.key P, strip (h.value.getD ""))]
  else headers

/-- `header_map`. -/
def headerMap (headers : List GraphHeader) : List (String × String) :=
  headers.foldl (noteHeader P) []

/-- `str.strip("<>")`. -/
def stripAngles (s : String) : String :=
  String.ofList (Ends.trim (fun c => c == '<' || c == '>') s.toList)

/-- `html_to_text` on a text. -/
def bodyText (m : GraphMessage) : String :=
  if P.lower m.contentType = "html" then htmlToText (P.htmlEvents m.content) else m.content

/-- The mail of a message. -/
def GraphMessage.email (m : GraphMessage) : GraphEmail :=
  let headers := headerMap P m.internetMessageHeaders
  let recipients := recipientCandidates P m
  { graphId := m.id
    sender := normalizeAddress P.toMailPlatform (m.from_.getD "")
    recipient := pickRecipient P cfg recipients (inboundDomain P.toMailPlatform cfg)
    subject := strip (m.subject.getD "")
    text := strip (bodyText P m)
    messageId := strip (stripAngles (strip (m.internetMessageId.getD "")))
    authenticationResults := (headers.lookup "authentication-results").getD ""
    recipients
    headers }

/-- `fetch_unread_emails`, on the messages of the answer. -/
def fetchUnreadEmails (messages : List GraphMessage) : List GraphEmail :=
  if cfg.graphClientId = "" then [] else messages.map (GraphMessage.email P cfg)

/-! ### The addresses of a message -/

/-- The addresses of a message as they stand in it. -/
def GraphMessage.addresses (m : GraphMessage) : List String :=
  (m.toRecipients ++ m.ccRecipients).map (·.getD "") ++
    recipientHeaders.flatMap fun wanted => P.getaddresses (m.headerValues P wanted)

/-- The addresses of a message in the spelling that is looked at. -/
def GraphMessage.addressed (m : GraphMessage) : List String :=
  ((m.addresses P).map (normalizeAddress P.toMailPlatform)).filter fun a => a.toList.contains '@'

/-- No address of the message has the shape of an alias. -/
def GraphMessage.Unaddressed (m : GraphMessage) : Prop :=
  ∀ a ∈ m.addressed P, isInboundAliasAddress P.toMailPlatform cfg a = false

instance (m : GraphMessage) : Decidable (m.Unaddressed P cfg) := by
  unfold GraphMessage.Unaddressed
  infer_instance

end Fetching

section Candidates

variable {P : GraphPlatform} {cfg : InboundSettings} {m : GraphMessage} {l seen : List String}

theorem recipientCandidates_eq (P : GraphPlatform) (m : GraphMessage) :
    recipientCandidates P m = (m.addresses P).foldl (addCandidate P) [] := by
  rw [GraphMessage.addresses, List.foldl_append, List.foldl_map, List.foldl_flatMap]
  rfl

/-- One more address. -/
theorem firstOccurrences_addCandidate (h : FirstOccurrences l seen) (address : String) :
    FirstOccurrences
      (l ++ [normalizeAddress P.toMailPlatform address].filter fun a => a.toList.contains '@')
      (addCandidate P seen address) := by
  simp only [addCandidate]
  generalize normalizeAddress P.toMailPlatform address = a
  by_cases hat : '@' ∈ a.toList
  · have hne : a ≠ "" := by
      rintro rfl
      simp at hat
    have hkept : [a].filter (fun a => a.toList.contains '@') = [a] := by simp [hat]
    rw [hkept]
    by_cases hseen : a ∈ seen
    · rw [if_neg fun hnew => hnew.2.2 hseen]
      exact h.snoc_old hseen
    · rw [if_pos ⟨hne, hat, hseen⟩]
      exact h.snoc_new hseen
  · have hdropped : [a].filter (fun a => a.toList.contains '@') = [] := by simp [hat]
    rw [hdropped, if_neg fun hnew => hat hnew.2.1, List.append_nil]
    exact h

/-- The candidates are the addresses without their repetitions. -/
theorem firstOccurrences_recipientCandidates (P : GraphPlatform) (m : GraphMessage) :
    FirstOccurrences (m.addressed P) (recipientCandidates P m) := by
  have hall : ∀ (addresses : List String) {l seen : List String}, FirstOccurrences l seen →
      FirstOccurrences
        (l ++ (addresses.map (normalizeAddress P.toMailPlatform)).filter fun a =>
          a.toList.contains '@')
        (addresses.foldl (addCandidate P) seen) := by
    intro addresses
    induction addresses with
    | nil =>
      intro l seen h
      simpa using h
    | cons address addresses ih =>
      intro l seen h
      have hnext : FirstOccurrences _ (addCandidate P seen address) :=
        firstOccurrences_addCandidate h address
      have hrest := ih hnext
      rwa [List.append_assoc, ← List.filter_append] at hrest
  rw [recipientCandidates_eq]
  exact hall (m.addresses P) .nil

/-- The recipient is the first alias among the addresses. -/
theorem recipient_of_find? {address : String}
    (h : (m.addressed P).find? (isInboundAliasAddress P.toMailPlatform cfg) = some address) :
    (m.email P cfg).recipient = address := by
  have hfind := (firstOccurrences_recipientCandidates P m).find?_eq
    (isInboundAliasAddress P.toMailPlatform cfg)
  simp only [GraphMessage.email, pickRecipient, hfind, h]

/-- Where there is no alias, the recipient is none either. -/
theorem recipient_of_unaddressed (hempty : normalizeAddress P.toMailPlatform "" = "")
    (h : m.Unaddressed P cfg) :
    isInboundAliasAddress P.toMailPlatform cfg (m.email P cfg).recipient = false := by
  have hcandidates := firstOccurrences_recipientCandidates P m
  have hnone : (recipientCandidates P m).find? (isInboundAliasAddress P.toMailPlatform cfg) =
      none := by
    rw [hcandidates.find?_eq, List.find?_eq_none]
    exact fun a ha => by simp [h a ha]
  simp only [GraphMessage.email, pickRecipient, hnone]
  -- the second choice is an address of the message, or nothing
  cases hdomain : (recipientCandidates P m).find? _ with
  | none =>
    simp only [Option.getD_none, isInboundAliasAddress, hempty]
    rfl
  | some address =>
    exact h address ((hcandidates.mem_iff address).mp (List.mem_of_find?_eq_some hdomain))

end Candidates

/-! ### The headers -/

section Headers

variable {P : GraphPlatform} {headers : List (String × String)} {name : String}

/-- One more header. -/
theorem lookup_noteHeader (hname : name ≠ "") (headers : List (String × String))
    (h : GraphHeader) :
    (noteHeader P headers h).lookup name =
      (headers.lookup name).or
        (if h.key P = name then some (strip (h.value.getD "")) else none) := by
  unfold noteHeader
  by_cases hkey : h.key P = name
  · subst hkey
    cases hlookup : headers.lookup (h.key P) with
    | none => simp [hname, List.lookup_append, hlookup]
    | some value => simp [hlookup]
  · have hother : (name == h.key P) = false := by simpa using Ne.symm hkey
    rw [if_neg hkey, Option.or_none]
    split_ifs
    · simp [List.lookup_append, List.lookup_cons, hother]
    · rfl

/-- A header of a mail is the first of its name. -/
theorem lookup_headerMap (hname : name ≠ "") (headers : List GraphHeader) :
    (headerMap P headers).lookup name =
      (headers.find? fun h => h.key P == name).map fun h => strip (h.value.getD "") := by
  have hall : ∀ map : List (String × String),
      (headers.foldl (noteHeader P) map).lookup name = (map.lookup name).or
        ((headers.find? fun h => h.key P == name).map fun h => strip (h.value.getD "")) := by
    induction headers with
    | nil => simp
    | cons h headers ih =>
      intro map
      rw [List.foldl_cons, ih, lookup_noteHeader hname, Option.or_assoc]
      by_cases hkey : h.key P = name
      · rw [if_pos hkey, List.find?_cons_of_pos (by simpa using hkey)]
        rfl
      · rw [if_neg hkey, List.find?_cons_of_neg (by simpa using hkey), Option.none_or]
  simpa [headerMap] using hall []

end Headers

/-! ### Mails to no alias -/

namespace GraphEmail

variable {P : MailPlatform} {cfg : InboundSettings} {s : MailStore} {e : GraphEmail}
  {stage : MailStage} {n : ℕ}

/-- Only the first statement ignores a mail. -/
theorem eq_received_of_ignored (h : (e.advance P cfg s stage).next = .ends .ignored) :
    stage = .received ∧ isInboundAliasAddress P cfg e.recipient = false := by
  have hline : ∀ {entry next}, next ≠ .ends .ignored →
      (journalling P s e entry next).next ≠ .ends .ignored := by
    intro entry next hnext
    rcases journalling_next P s e entry next with ⟨-, heq⟩ | ⟨-, heq⟩ <;> rw [heq]
    · exact hnext
    · simp
  cases stage with
  | received => exact ⟨rfl, (receive_eq_ends h).1⟩
  | refusing r => exact absurd h (hline (by simp))
  | rejecting errors => exact absurd h (hline (by simp))
  | recording d o =>
    refine absurd h (hline ?_)
    simp only [NotificationCreationOutcome.mailOutcome]
    split_ifs <;> simp
  | notifying r => simp [advance] at h
  | pushing r => simp [advance] at h
  | replying r => simp [advance] at h
  | answering errors => simp [advance] at h
  | creating d stage =>
    rcases create_next P s e d stage with ⟨-, hnext⟩ | ⟨o, hnext⟩ | hnext <;>
      simp [advance, hnext] at h

/-- No statement goes back to the first one. -/
theorem run_ignored (h : (e.run P cfg n s stage).next = .ends .ignored) :
    stage = .received ∧ isInboundAliasAddress P cfg e.recipient = false := by
  revert h
  refine run_induction (motive := fun _ _ stage step => step.next = .ends .ignored →
    stage = .received ∧ isInboundAliasAddress P cfg e.recipient = false)
    (fun _ _ h => by simp at h) (fun _ _ _ _ h => eq_received_of_ignored h)
    (fun n s stage stage' hgoes ih h => ?_) n s stage
  obtain ⟨rfl, -⟩ := ih h
  have hrank := advance_rank hgoes
  have hmost : stage.rank ≤ MailStage.received.rank := by
    rcases stage with _ | _ | _ | _ | _ | _ | _ | ⟨_, _ | _⟩ | _ <;> simp [MailStage.rank]
  exact absurd hrank (by omega)

end GraphEmail

/-- A mail whose recipient is no alias is ignored, and leaves no trace. -/
theorem processEmail_of_no_alias {P : MailPlatform} {cfg : InboundSettings} {e : GraphEmail}
    (h : isInboundAliasAddress P cfg e.recipient = false) (s : MailStore) :
    processEmail P cfg s e none = (s, .ok .ignored) := by
  have hadvance : e.advance P cfg s .received = ⟨s, .ends .ignored⟩ := by
    simp [GraphEmail.advance, GraphEmail.receive, h]
  have hrun : e.run P cfg processStatements s .received = ⟨s, .ends .ignored⟩ := by
    rw [processStatements, GraphEmail.run_succ_of_not_goes (by simp [hadvance]), hadvance]
  simp only [processEmail, hrun]

/-- No other mail is ignored. -/
theorem processEmail_ne_ignored {P : MailPlatform} {cfg : InboundSettings} {e : GraphEmail}
    (h : isInboundAliasAddress P cfg e.recipient = true) (s : MailStore) (fault : Option Fault) :
    (processEmail P cfg s e fault).2 ≠ .ok .ignored := by
  cases fault with
  | some f => simp [processEmail]
  | none =>
    simp only [processEmail]
    cases hnext : (e.run P cfg processStatements s .received).next with
    | ends outcome =>
      rintro hignored
      obtain rfl := Except.ok.inj hignored
      rw [(GraphEmail.run_ignored hnext).2] at h
      simp at h
    | raises text => simp
    | goes stage => simp

/-! ### A poll of fetched mails -/

section Polls

variable {P : MailPlatform} {cfg : InboundSettings}

/-- The count of ignored mails in one round. -/
theorem Poll.ignored_round {p : Poll} (hp : p.raised = false) (mail : GraphEmail × Option Fault) :
    (p.round P cfg mail).counts.ignored = p.counts.ignored +
      if mail.2 = none ∧ isInboundAliasAddress P cfg mail.1.recipient = false then 1 else 0 := by
  obtain ⟨e, fault⟩ := mail
  simp only [round, hp, Bool.false_eq_true, if_false]
  cases halias : isInboundAliasAddress P cfg e.recipient with
  | true =>
    have hother := processEmail_ne_ignored halias p.store fault
    generalize processEmail P cfg p.store e fault = result at hother
    obtain ⟨s, outcome | outcome⟩ := result
    · simp
    · have hne : outcome ≠ .ignored := fun heq => hother (by rw [heq])
      simp [PollCounts.count, hne]
  | false =>
    cases fault with
    | none => simp [processEmail_of_no_alias halias, PollCounts.count]
    | some f => simp [processEmail]

/-- The count of ignored mails of a poll that was not left. -/
theorem Poll.ignored_foldl {p : Poll} (hp : p.raised = false) (batch : Batch)
    (h : (batch.foldl (Poll.round P cfg) p).raised = false) :
    (batch.foldl (Poll.round P cfg) p).counts.ignored = p.counts.ignored +
      batch.countP fun mail =>
        decide (mail.2 = none ∧ isInboundAliasAddress P cfg mail.1.recipient = false) := by
  induction batch generalizing p with
  | nil => simp
  | cons mail batch ih =>
    rw [List.foldl_cons] at h ⊢
    have hround : (p.round P cfg mail).raised = false := by
      by_contra hraised
      rw [Poll.foldl_round_of_raised (by simpa using hraised)] at h
      exact hraised h
    rw [ih hround h, Poll.ignored_round hp, List.countP_cons, Nat.add_assoc]
    congr 1
    rw [Nat.add_comm]
    simp only [decide_eq_true_eq]

end Polls

/-- The recipient is no alias, or it is the first alias among the addresses. -/
theorem GraphMessage.routed {P : GraphPlatform} {cfg : InboundSettings}
    (hempty : normalizeAddress P.toMailPlatform "" = "") (m : GraphMessage) :
    (m.Unaddressed P cfg ∧
        isInboundAliasAddress P.toMailPlatform cfg (m.email P cfg).recipient = false) ∨
      ∃ front address back, m.addressed P = front ++ address :: back ∧
        (∀ a ∈ front, isInboundAliasAddress P.toMailPlatform cfg a = false) ∧
        isInboundAliasAddress P.toMailPlatform cfg address = true ∧
        (m.email P cfg).recipient = address := by
  cases hfind : (m.addressed P).find? (isInboundAliasAddress P.toMailPlatform cfg) with
  | none =>
    have hnone : m.Unaddressed P cfg := fun a ha => by
      simpa using List.find?_eq_none.mp hfind a ha
    exact Or.inl ⟨hnone, recipient_of_unaddressed hempty hnone⟩
  | some address =>
    obtain ⟨halias, front, back, heq, hfront⟩ := List.find?_eq_some_iff_append.mp hfind
    exact Or.inr ⟨front, address, back, heq, fun a ha => by simpa using hfront a ha, halias,
      recipient_of_find? hfind⟩

theorem GraphMessage.unaddressed_iff {P : GraphPlatform} {cfg : InboundSettings}
    (hempty : normalizeAddress P.toMailPlatform "" = "") {m : GraphMessage} :
    m.Unaddressed P cfg ↔
      isInboundAliasAddress P.toMailPlatform cfg (m.email P cfg).recipient = false := by
  refine ⟨recipient_of_unaddressed hempty, fun halias => ?_⟩
  rcases m.routed hempty with ⟨hnone, -⟩ | ⟨front, address, back, -, -, htrue, hrecipient⟩
  · exact hnone
  · rw [hrecipient, htrue] at halias
    simp at halias

namespace Sample

/-- A platform for plain addresses and for texts without markup. -/
def graphPlatform : GraphPlatform where
  toMailPlatform := mailPlatform
  getaddresses values := values
  htmlEvents content := [.data content.toList]

/-- A mail to a list that was delivered to an alias. -/
def listMail : GraphMessage where
  id := "m1"
  from_ := some "someone@mail.example"
  toRecipients := [some "list@mail.example", none]
  ccRecipients := [some "LIST@mail.example", some "info@pushit.example"]
  internetMessageHeaders :=
    [⟨some "Auto-Submitted", some " no "⟩,
      ⟨some "Delivered-To", some "App-1.pushit@pushit.example"⟩,
      ⟨some "auto-submitted", some "auto-replied"⟩]

end Sample

end PushIT
