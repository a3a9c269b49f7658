import PushIT.Ingestion
import PushIT.Polling

/-!
# Who may create notifications by mail

`_process_email` with the authentication of the senders enforced: which mails create a
notification, and for which application.  The gate is spread over the look at the address, the
checks of the fields, the accumulated errors of `validate` and the database.

## Main definitions

* `GraphEmail.attrs`: the fields as the serializer reads them.
* `GraphEmail.Authorised`: the mail is entitled to a notification of an application.
* `GraphEmail.Routed`: the mail is well formed, finds the application first, and has a key that
  is free.

## Main results

* `inbound_authorisation`: only an authorised mail creates a notification, and one that is routed
  creates exactly one, for its application.
* `authorised_mail_refused`: an authorised mail whose subject the serializer refuses.
-/

namespace PushIT

open Relational

/-! ### What is asked of a mail -/

/-- The fields as the serializer reads them. -/
def GraphEmail.attrs (e : GraphEmail) : InboundAttrs where
  sender := strip e.sender
  recipient := strip e.recipient
  subject := strip e.subject
  text := strip e.text
  messageId := strip e.messageId
  authenticationResults := strip e.authenticationResults
  exchangeAuthAs := strip ((e.header authAsHeader).getD "")

/-- The sender as the policy compares it. -/
def GraphEmail.senderAddress (P : MailPlatform) (e : GraphEmail) : String :=
  P.lower (strip e.attrs.sender)

/-- The recipient as the serializer takes it apart. -/
def GraphEmail.recipientAddress (P : MailPlatform) (e : GraphEmail) : String :=
  P.lower (strip e.attrs.recipient)

/-- `sender.rpartition("@")[2]`. -/
def domainOf (sender : String) : String :=
  String.ofList (((splitLast '@' sender.toList).map (·.2)).getD sender.toList)

/-- The verdict on the headers of the mail and the domain of its sender. -/
def GraphEmail.authentication (P : MailPlatform) (cfg : InboundSettings) (e : GraphEmail) :
    SenderAuthVerdict :=
  evaluateSenderAuthentication P cfg e.attrs.authenticationResults (domainOf (e.senderAddress P))
    e.attrs.exchangeAuthAs

/-- The alias of the application is the local part of the recipient, ignoring case. -/
def ConsoleApplication.Answers (P : MailPlatform) (a : ConsoleApplication)
    (localPart : List Char) : Prop :=
  P.upper a.inboundEmailAlias = P.upper (String.ofList localPart) ∧ a.isActive = true ∧
    a.revokedAt = none

/-- The mail may create a notification of the application. -/
structure GraphEmail.Authorised (P : MailPlatform) (cfg : InboundSettings) (s : MailStore)
    (e : GraphEmail) (a : ConsoleApplication) : Prop where
  stored : a ∈ s.applications.rows
  /-- The address as it was picked is an alias of the inbound domain. -/
  picked : isInboundAliasAddress P cfg e.recipient = true
  addressed : ∃ localPart, splitFirst '@' (e.recipientAddress P).toList =
      some (localPart, (inboundDomain P cfg).toList) ∧
    isAliasLocalPart P cfg (String.ofList localPart) = true ∧ a.Answers P localPart
  notMailbox : e.recipientAddress P ∉ mailboxAddresses P cfg
  policy : ∃ reason, evaluateSenderPolicy P (ownerEmail s.users a) a (e.senderAddress P) =
    .accepted reason
  authenticated : (e.authentication P cfg).accepted = true
  subject : ∃ title date, extractSubjectSchedule P e.attrs.subject = .ok (title, date) ∧
    title ≠ "" ∧ title.length ≤ notificationTitleMaxLength ∧
    ∀ t, date = some t → s.clock < t.instant
  text : strip e.attrs.text ≠ "" ∧
    (strip e.attrs.text).length ≤ notificationMessageMaxLength

/-- The key of the notification of a mail. -/
def GraphEmail.notificationKey (e : GraphEmail) : String :=
  if strip e.attrs.messageId = "" then "graph-" ++ e.graphId else strip e.attrs.messageId

/-- The mail passes the checks of its fields, the application is the first one its address finds,
and the application has no notification under its key yet. -/
structure GraphEmail.Routed (P : MailPlatform) (s : MailStore) (e : GraphEmail)
    (a : ConsoleApplication) : Prop where
  wellFormed : ∃ attrs, e.toInternalValue P = .ok attrs
  first : ∀ b ∈ s.applications.rows, b.id < a.id →
    ∀ localPart domain, splitFirst '@' (e.recipientAddress P).toList = some (localPart, domain) →
      ¬b.Answers P localPart
  graphKey : strip e.attrs.messageId = "" →
    fitsColumn (some idempotencyKeyMaxLength) ("graph-" ++ e.graphId) = true
  fresh : ∀ n ∈ s.notifications.rows, n.applicationId = a.id →
    n.idempotencyKey ≠ e.notificationKey

/-! ### The fields -/

/-- A check that passes. -/
private theorem of_ite_eq_ok {ε α : Type} {c : Prop} [Decidable c] {value out : α} {errors : ε}
    (h : (if c then Except.ok value else .error errors) = .ok out) : c ∧ value = out := by
  by_cases hc : c
  · rw [if_pos hc] at h
    exact ⟨hc, Except.ok.inj h⟩
  · rw [if_neg hc] at h
    simp at h

theorem charField_eq_ok {maxLength : Option ℕ} {value out : String}
    (h : charField maxLength value = .ok out) :
    out = strip value ∧ (∀ m, maxLength = some m → out.length ≤ m) ∧
      nullCharacter ∉ out.toList := by
  unfold charField at h
  by_cases hblank : strip value = ""
  · simp [hblank] at h
  · simp only [hblank, ↓reduceIte] at h
    obtain ⟨hnone, rfl⟩ := of_ite_eq_ok h
    obtain ⟨hlength, hnull⟩ := List.append_eq_nil_iff.mp hnone
    refine ⟨rfl, fun m hm => ?_, fun hmem => ?_⟩
    · simpa [hm] using hlength
    · simp [nullCharacter] at hmem
      simp [hmem] at hnull

theorem blankableField_eq_ok {maxLength : Option ℕ} {value out : String}
    (h : blankableField maxLength value = .ok out) :
    out = strip value ∧ (∀ m, maxLength = some m → out.length ≤ m) ∧
      nullCharacter ∉ out.toList := by
  unfold blankableField at h
  split at h
  · next hblank =>
    obtain rfl := Except.ok.inj h
    exact ⟨hblank.symm, fun m _ => Nat.zero_le m, by simp⟩
  · exact charField_eq_ok h

theorem emailField_eq_ok {P : MailPlatform} {value out : String}
    (h : emailField P value = .ok out) : out = strip value := by
  unfold emailField at h
  by_cases hblank : strip value = ""
  · simp [hblank] at h
  · simp only [hblank, ↓reduceIte] at h
    exact (of_ite_eq_ok h).2.symm

/-- What the serializer reads; the texts fit their columns. -/
theorem GraphEmail.toInternalValue_eq_ok {P : MailPlatform} {e : GraphEmail}
    {attrs : InboundAttrs} (h : e.toInternalValue P = .ok attrs) :
    attrs = e.attrs ∧ nullCharacter ∉ e.attrs.subject.toList ∧
      nullCharacter ∉ e.attrs.text.toList ∧
      e.attrs.messageId.length ≤ messageIdMaxLength ∧
      nullCharacter ∉ e.attrs.messageId.toList := by
  simp only [toInternalValue] at h
  split at h
  · next hsender hrecipient hsubject htext hmessageId hresults hauthAs =>
    obtain rfl := Except.ok.inj h
    obtain rfl := emailField_eq_ok hsender
    obtain rfl := emailField_eq_ok hrecipient
    obtain ⟨rfl, -, hsubject⟩ := charField_eq_ok hsubject
    obtain ⟨rfl, -, htext⟩ := charField_eq_ok htext
    obtain ⟨rfl, hlength, hmessageId⟩ := blankableField_eq_ok hmessageId
    obtain ⟨rfl, -, -⟩ := blankableField_eq_ok hresults
    obtain ⟨rfl, -, -⟩ := blankableField_eq_ok hauthAs
    exact ⟨rfl, hsubject, htext, hlength _ rfl, hmessageId⟩
  · simp at h

/-! ### The checks of `validate` -/

section Checks

variable {P : MailPlatform} {cfg : InboundSettings} {now : Instant}
  {applications : Table ConsoleApplication} {users : Table User} {attrs : InboundAttrs}
  {a : ConsoleApplication}

/-- No error is found on the domain, the subject and the text. -/
theorem InboundAttrs.details_eq_nil_iff {domain : String} :
    attrs.details P cfg now domain (some a) = [] ↔
      domain = inboundDomain P cfg ∧
      (∃ title date, extractSubjectSchedule P attrs.subject = .ok (title, date) ∧ title ≠ "" ∧
        ∀ t, date = some t → now < t.instant) ∧
      strip attrs.text ≠ "" ∧ (strip attrs.text).length ≤ notificationMessageMaxLength := by
  unfold details
  cases hsubject : extractSubjectSchedule P attrs.subject with
  | error text => simp
  | ok parts =>
    obtain ⟨title, date⟩ := parts
    have htext : ((if strip attrs.text = "" then [("text", "Email body cannot be empty.")]
        else if (strip attrs.text).length > notificationMessageMaxLength then
          [("text", "Email body is too long.")] else []) = ([] : List (String × String))) ↔
        strip attrs.text ≠ "" ∧ (strip attrs.text).length ≤ notificationMessageMaxLength := by
      split_ifs <;> simp_all
    cases date with
    | none => simp [List.append_eq_nil_iff, htext, and_assoc]
    | some t =>
      simp [List.append_eq_nil_iff, htext, and_assoc, and_left_comm, and_comm]

theorem refuseSender_eq_none_iff {sender : String} :
    refuseSender P cfg users attrs sender a = none ↔
      (∃ reason, evaluateSenderPolicy P (ownerEmail users a) a sender = .accepted reason) ∧
      (cfg.requireDmarc = true → (evaluateSenderAuthentication P cfg attrs.authenticationResults
        (domainOf sender) attrs.exchangeAuthAs).accepted = true) := by
  unfold refuseSender domainOf
  cases evaluateSenderPolicy P (ownerEmail users a) a sender with
  | refused reason => simp
  | accepted reason => simp

/-- The application a mail finds is the first one that answers to its address. -/
theorem inboundApplication_eq_some_iff {localPart : List Char} {recipient : String} :
    inboundApplication P cfg applications (String.ofList localPart) recipient = some a ↔
      isAliasLocalPart P cfg (String.ofList localPart) = true ∧
      recipient ∉ mailboxAddresses P cfg ∧ a ∈ applications.rows ∧ a.Answers P localPart ∧
      ∀ b ∈ applications.rows, b.id < a.id → ¬b.Answers P localPart := by
  have hanswers : ∀ b : ConsoleApplication,
      (P.upper b.inboundEmailAlias == P.upper (String.ofList localPart) && b.isActive &&
        b.revokedAt.isNone) = true ↔ b.Answers P localPart := by
    intro b
    simp [ConsoleApplication.Answers, and_assoc]
  unfold inboundApplication
  by_cases hshape : isAliasLocalPart P cfg (String.ofList localPart) = true ∧
      recipient ∉ mailboxAddresses P cfg
  · rw [if_pos (by simpa using hshape), Table.find?_eq_some_iff]
    simp only [hanswers, hshape, true_and, not_false_eq_true]
    rfl
  · rw [if_neg (by simpa using hshape)]
    simp only [reduceCtorEq, false_iff]
    exact fun h => hshape ⟨h.1, h.2.1⟩

end Checks

/-! ### The texts of a notification -/

section Texts

theorem strip_sublist (value : String) : (strip value).toList.Sublist value.toList := by
  unfold strip
  rw [String.toList_ofList]
  have hback := (List.dropWhile_sublist isPythonSpace
    (l := (value.toList.dropWhile isPythonSpace).reverse)).reverse
  rw [List.reverse_reverse] at hback
  exact hback.trans (List.dropWhile_sublist _)

theorem length_strip_le (value : String) : (strip value).length ≤ value.length :=
  (strip_sublist value).length_le

theorem mem_of_mem_splitOnP {p : Char → Bool} {c : Char} {part : List Char} (cs : List Char)
    (hpart : part ∈ cs.splitOnP p) (hc : c ∈ part) : c ∈ cs := by
  induction cs generalizing part with
  | nil =>
    obtain rfl : part = [] := by simpa using hpart
    simp at hc
  | cons a cs ih =>
    rw [List.splitOnP_cons_eq_if_modifyHead] at hpart
    split at hpart
    · rcases List.mem_cons.mp hpart with rfl | hpart
      · simp at hc
      · exact List.mem_cons_of_mem _ (ih hpart hc)
    · cases hsplit : cs.splitOnP p with
      | nil => exact absurd hsplit (List.splitOnP_ne_nil p cs)
      | cons head parts =>
        rw [hsplit, List.modifyHead_cons] at hpart
        rw [hsplit] at ih
        rcases List.mem_cons.mp hpart with rfl | hpart
        · rcases List.mem_cons.mp hc with rfl | hc
          · exact List.mem_cons_self
          · exact List.mem_cons_of_mem _ (ih List.mem_cons_self hc)
        · exact List.mem_cons_of_mem _ (ih (List.mem_cons_of_mem _ hpart) hc)

theorem mem_intercalate {c sep : Char} {parts : List (List Char)}
    (h : c ∈ [sep].intercalate parts) : c = sep ∨ ∃ part ∈ parts, c ∈ part := by
  induction parts with
  | nil => simp [List.intercalate] at h
  | cons part parts ih =>
    cases parts with
    | nil =>
      have hc : c ∈ part := by simpa [List.intercalate] using h
      exact Or.inr ⟨part, List.mem_cons_self, hc⟩
    | cons next parts =>
      have hsplit : c ∈ part ∨ c = sep ∨ c ∈ [sep].intercalate (next :: parts) := by
        simpa [List.intercalate, List.intersperse] using h
      rcases hsplit with hc | hc | hc
      · exact Or.inr ⟨part, List.mem_cons_self, hc⟩
      · exact Or.inl hc
      · exact (ih hc).imp_right fun ⟨q, hq, hc⟩ => ⟨q, List.mem_cons_of_mem _ hq, hc⟩

theorem mem_collapse {c : Char} {cs : List Char} (h : c ∈ collapse cs) : c = ' ' ∨ c ∈ cs := by
  refine (mem_intercalate h).imp_right fun ⟨part, hpart, hc⟩ => ?_
  exact mem_of_mem_splitOnP cs (List.mem_filter.mp hpart).1 hc

theorem dropLetters_subset {kinds : List (List Char)} {cs rest : List Char}
    (h : dropLetters kinds cs = some rest) : rest ⊆ cs := by
  induction kinds generalizing cs with
  | nil => exact fun c hc => (Option.some.inj h) ▸ hc
  | cons kind kinds ih =>
    cases cs with
    | nil => simp [dropLetters] at h
    | cons a cs =>
      simp only [dropLetters] at h
      split at h
      · exact fun c hc => List.mem_cons_of_mem _ (ih h hc)
      · simp at h

theorem splitFirst_subset {sep : Char} {cs before rest : List Char}
    (h : splitFirst sep cs = some (before, rest)) : rest ⊆ cs := by
  unfold splitFirst at h
  split at h
  · simp at h
  · next hdrop =>
    obtain ⟨rfl, rfl⟩ := Prod.mk.inj (Option.some.inj h)
    intro c hc
    exact (List.dropWhile_sublist _).subset (hdrop ▸ List.mem_cons_of_mem _ hc)

theorem matchMarker_subset {cs content rest : List Char}
    (h : matchMarker cs = some (content, rest)) : rest ⊆ cs := by
  obtain ⟨afterLetters, hletters, h⟩ := Option.bind_eq_some_iff.mp h
  split at h
  · next afterColon hcolon =>
    obtain ⟨hsplit, -⟩ := Option.filter_eq_some_iff.mp h
    intro c hc
    have hcolon' : c ∈ afterLetters.dropWhile isPythonSpace :=
      hcolon ▸ List.mem_cons_of_mem _ (splitFirst_subset hsplit hc)
    have hletters' := dropLetters_subset hletters ((List.dropWhile_sublist _).subset hcolon')
    exact (List.dropWhile_sublist _).subset hletters'
  · simp at h

/-- What stands before and after the marker is taken from the subject. -/
theorem mem_searchMarker {cs before content rest : List Char}
    (h : searchMarker cs = some (before, content, rest)) {c : Char} (hc : c ∈ before ++ rest) :
    c ∈ cs := by
  induction cs generalizing before with
  | nil => simp [searchMarker] at h
  | cons a cs ih =>
    simp only [searchMarker] at h
    split at h
    · next content' rest' hmatch =>
      obtain ⟨rfl, rfl, rfl⟩ : [] = before ∧ content' = content ∧ rest' = rest := by
        simpa using h
      split at hmatch
      · exact List.mem_cons_of_mem _ (matchMarker_subset hmatch (by simpa using hc))
      · simp at hmatch
    · obtain ⟨⟨before', content', rest'⟩, hsearch, heq⟩ := Option.map_eq_some_iff.mp h
      obtain ⟨rfl, rfl, rfl⟩ : a :: before' = before ∧ content' = content ∧ rest' = rest := by
        simpa using heq
      rcases List.mem_cons.mp hc with rfl | hc
      · exact List.mem_cons_self
      · exact List.mem_cons_of_mem _ (ih hsearch hc)

/-- A title has the characters of its subject, and blanks. -/
theorem mem_title {P : MailPlatform} {subject title : String} {date : Option AwareDateTime}
    (h : extractSubjectSchedule P subject = .ok (title, date)) {c : Char}
    (hc : c ∈ title.toList) : c = ' ' ∨ c ∈ subject.toList := by
  unfold extractSubjectSchedule at h
  split at h
  · obtain ⟨rfl, -⟩ := Prod.mk.inj (Except.ok.inj h)
    exact mem_collapse (by simpa using hc)
  · next before content rest hsearch =>
    split at h
    · simp at h
    · obtain ⟨rfl, -⟩ := Prod.mk.inj (Except.ok.inj h)
      have hcollapse : c ∈ collapse (before ++ rest) := by simpa using hc
      refine (mem_collapse hcollapse).imp_right fun hmem => ?_
      exact mem_searchMarker hsearch hmem
    · simp at h

end Texts

/-! ### The gate -/

namespace GraphEmail

variable {P : MailPlatform} {cfg : InboundSettings} {s : MailStore} {e : GraphEmail}
  {a : ConsoleApplication} {d : InboundData}

/-- What validation passes is authorised, but for the length of the title. -/
theorem authorised_of_valid (hdmarc : cfg.requireDmarc = true)
    (halias : isInboundAliasAddress P cfg e.recipient = true)
    (hvalid : e.validate P cfg s.clock s.applications s.users = .valid d)
    (htitle : d.title.length ≤ notificationTitleMaxLength) :
    e.Authorised P cfg s d.application := by
  unfold validate at hvalid
  cases hattrs : e.toInternalValue P with
  | error errors => simp [hattrs] at hvalid
  | ok attrs =>
    rw [hattrs] at hvalid
    obtain ⟨rfl, -⟩ := toInternalValue_eq_ok hattrs
    have hpasses := InboundAttrs.validate_eq_valid.mp hvalid
    obtain ⟨localPart, domain, hsplit, happlication, hdetails⟩ := hpasses.routed
    obtain ⟨hshape, hmailbox, hstored, hanswers, -⟩ :=
      inboundApplication_eq_some_iff.mp happlication
    obtain ⟨hdomain, ⟨title, date, hsubject, hne, hahead⟩, htext⟩ :=
      InboundAttrs.details_eq_nil_iff.mp hdetails
    obtain ⟨hpolicy, hauthentication⟩ := refuseSender_eq_none_iff.mp hpasses.sender
    obtain ⟨rfl, rfl⟩ := Prod.mk.inj (Except.ok.inj (hsubject.symm.trans hpasses.subject))
    obtain rfl : domain = (inboundDomain P cfg).toList := by rw [← hdomain, String.toList_ofList]
    exact
      { stored := hstored
        picked := halias
        addressed := ⟨localPart, hsplit, hshape, hanswers⟩
        notMailbox := hmailbox
        policy := hpolicy
        authenticated := hauthentication hdmarc
        subject := ⟨_, _, hsubject, hne, htitle, hahead⟩
        text := htext }

/-- The data of an authorised mail. -/
def authorisedData (P : MailPlatform) (e : GraphEmail) (a : ConsoleApplication) (title : String)
    (date : Option AwareDateTime) : InboundData where
  application := a
  sender := e.senderAddress P
  recipient := e.recipientAddress P
  title
  scheduledFor := date
  text := strip e.attrs.text
  messageId := strip e.attrs.messageId

@[simp] theorem idempotencyKey_authorisedData (title : String) (date : Option AwareDateTime) :
    ((e.authorisedData P a title date).creation P e).idempotencyKey = e.notificationKey := by
  simp only [InboundData.creation, InboundData.idempotencyKey, authorisedData, notificationKey]
  exact if_congr Iff.rfl rfl rfl

theorem notificationKey_fits (hrouted : e.Routed P s a)
    (hlength : e.attrs.messageId.length ≤ messageIdMaxLength)
    (hclean : nullCharacter ∉ e.attrs.messageId.toList) :
    fitsColumn (some idempotencyKeyMaxLength) e.notificationKey = true := by
  unfold notificationKey
  split_ifs with hblank
  · exact hrouted.graphKey hblank
  · refine fitsColumn_some.mpr ⟨(length_strip_le _).trans hlength, fun hmem => ?_⟩
    exact hclean ((strip_sublist _).subset hmem)

/-- An authorised mail that is routed passes, and its texts fit the columns. -/
theorem valid_of_authorised (hauthorised : e.Authorised P cfg s a) (hrouted : e.Routed P s a) :
    ∃ title date, e.validate P cfg s.clock s.applications s.users =
        .valid (e.authorisedData P a title date) ∧
      ((e.authorisedData P a title date).creation P e).fitsColumns = true := by
  obtain ⟨localPart, hsplit, hshape, hanswers⟩ := hauthorised.addressed
  obtain ⟨title, date, hsubject, hne, hlength, hahead⟩ := hauthorised.subject
  obtain ⟨attrs, hattrs⟩ := hrouted.wellFormed
  obtain ⟨rfl, hsubjectClean, htextClean, hidLength, hidClean⟩ := toInternalValue_eq_ok hattrs
  refine ⟨title, date, ?_, ?_⟩
  · have hfirst := fun b hb hlt => hrouted.first b hb hlt localPart _ hsplit
    have happlication := inboundApplication_eq_some_iff.mpr
      ⟨hshape, hauthorised.notMailbox, hauthorised.stored, hanswers, hfirst⟩
    have hdetails := InboundAttrs.details_eq_nil_iff (P := P) (a := a).mpr
      ⟨String.ofList_toList (s := inboundDomain P cfg), ⟨title, date, hsubject, hne, hahead⟩,
        hauthorised.text⟩
    have hsender := refuseSender_eq_none_iff.mpr
      ⟨hauthorised.policy, fun _ => hauthorised.authenticated⟩
    unfold validate
    rw [hattrs]
    exact InboundAttrs.validate_eq_valid.mpr
      ⟨⟨localPart, _, hsplit, happlication, hdetails⟩, hsender, hsubject, rfl, rfl, rfl, rfl⟩
  · have htitleClean : nullCharacter ∉ title.toList := by
      intro hmem
      rcases mem_title hsubject hmem with hblank | hmem
      · exact absurd hblank (by decide)
      · exact hsubjectClean hmem
    have htextClean : nullCharacter ∉ (strip e.attrs.text).toList := fun hmem =>
      htextClean ((strip_sublist _).subset hmem)
    have hkey := notificationKey_fits hrouted hidLength hidClean
    simp only [CreationCall.fitsColumns, idempotencyKey_authorisedData, hkey, Bool.and_eq_true,
      fitsColumn_some, fitsColumn_none]
    exact ⟨⟨⟨hlength, htitleClean⟩, htextClean⟩, trivial⟩

end GraphEmail

/-! ### The notifications of a run -/

/-- The stages at or before the insertion of a notification. -/
def MailStage.inserts : MailStage → Bool
  | received | creating _ .inserting => true
  | refusing _ | notifying _ | pushing _ | replying _ | answering _ | rejecting _
  | creating _ .reading | recording _ _ => false

/-- One notification of the application was added. -/
def AddedOne (T T' : Table Notification) (a : ConsoleApplication) : Prop :=
  ∃ n, T'.rows = T.rows ++ [n] ∧ n.applicationId = a.id

namespace GraphEmail

variable {P : MailPlatform} {cfg : InboundSettings} {s : MailStore} {e : GraphEmail}
  {a : ConsoleApplication} {d : InboundData} {stage stage' : MailStage} {n : ℕ}

/-- Behind the validation at most one insertion is to come. -/
theorem inserts_of_goes (hstage : stage ≠ .received)
    (h : (e.advance P cfg s stage).next = .goes stage') : stage'.inserts = false := by
  cases stage with
  | received => exact absurd rfl hstage
  | refusing r =>
    obtain rfl := MailNext.goes.inj (goes_of_journalling h)
    rfl
  | notifying r =>
    obtain rfl := MailNext.goes.inj h
    rfl
  | pushing r =>
    obtain rfl := MailNext.goes.inj h
    rfl
  | replying r => simp [advance] at h
  | answering errors =>
    obtain rfl := MailNext.goes.inj h
    rfl
  | rejecting errors => simpa using goes_of_journalling h
  | creating d stage =>
    rcases create_next P s e d stage with ⟨rfl, hnext⟩ | ⟨o, hnext⟩ | hnext
    · obtain rfl := MailNext.goes.inj (hnext.symm.trans h)
      rfl
    · obtain rfl := MailNext.goes.inj (hnext.symm.trans h)
      rfl
    · simp [advance, hnext] at h
  | recording d o => simpa using goes_of_journalling h

/-- A statement that does not insert leaves the notifications as they are. -/
theorem advance_notifications (h : stage.inserts = false) :
    (e.advance P cfg s stage).store.notifications = s.notifications := by
  rcases (e.advance_effect P cfg s stage).notifications with hsame | ⟨d, rfl⟩
  · exact hsame
  · simp [MailStage.inserts] at h

theorem run_notifications (h : stage.inserts = false) :
    (e.run P cfg n s stage).store.notifications = s.notifications := by
  revert h
  refine run_induction (motive := fun _ s stage step => stage.inserts = false →
    step.store.notifications = s.notifications) (fun s stage _ => rfl)
    (fun n s stage _ h => advance_notifications h) (fun n s stage stage' hgoes ih h => ?_) n s stage
  have hreceived : stage ≠ .received := by
    rintro rfl
    simp [MailStage.inserts] at h
  exact (ih (inserts_of_goes hreceived hgoes)).trans (advance_notifications h)

/-- The insertion is the one statement of a run that adds a notification. -/
theorem run_creating (n : ℕ) :
    (e.run P cfg (n + 1) s (.creating d .inserting)).store.notifications =
      (e.create P s d .inserting).store.notifications := by
  by_cases hgoes : ∃ stage', (e.advance P cfg s (.creating d .inserting)).next = .goes stage'
  · obtain ⟨stage', hgoes⟩ := hgoes
    rw [run_succ_of_goes hgoes, run_notifications (inserts_of_goes (by simp) hgoes)]
    rfl
  · rw [run_succ_of_not_goes fun stage' h => hgoes ⟨stage', h⟩]
    rfl

/-- A mail that passes has its notification inserted. -/
theorem run_valid (h : e.receive P cfg s = .goes (.creating d .inserting)) (n : ℕ) :
    (e.run P cfg (n + 2) s .received).store.notifications =
      (e.create P s d .inserting).store.notifications := by
  have hgoes : (e.advance P cfg s .received).next = .goes (.creating d .inserting) := h
  rw [run_succ_of_goes hgoes]
  exact run_creating n

/-- The notifications change only if the mail passes. -/
theorem run_received (P : MailPlatform) (cfg : InboundSettings) (s : MailStore) (e : GraphEmail)
    (n : ℕ) : (e.run P cfg n s .received).store.notifications = s.notifications ∨
      ∃ d, e.receive P cfg s = .goes (.creating d .inserting) ∧
        (e.run P cfg n s .received).store.notifications =
          (e.create P s d .inserting).store.notifications := by
  match n with
  | 0 => exact Or.inl rfl
  | n + 1 =>
    by_cases hgoes : ∃ stage, e.receive P cfg s = .goes stage
    · obtain ⟨stage, hgoes⟩ := hgoes
      have hadvance : (e.advance P cfg s .received).next = .goes stage := hgoes
      rw [run_succ_of_goes hadvance]
      cases hinserts : stage.inserts with
      | false => exact Or.inl (run_notifications hinserts)
      | true =>
        obtain ⟨-, ⟨d, rfl, -⟩ | ⟨errors, r, rfl, -⟩ | ⟨errors, rfl | rfl, -⟩⟩ :=
          receive_eq_goes hgoes
        · match n with
          | 0 => exact Or.inl rfl
          | n + 1 => exact Or.inr ⟨d, hgoes, run_creating n⟩
        all_goals simp [MailStage.inserts] at hinserts
    · have hlast : ∀ stage, (e.advance P cfg s .received).next ≠ .goes stage :=
        fun stage h => hgoes ⟨stage, h⟩
      rw [run_succ_of_not_goes hlast]
      exact Or.inl rfl

/-- The insertion adds one notification, whose texts fit, or none. -/
theorem create_notifications (P : MailPlatform) (s : MailStore) (e : GraphEmail) (d : InboundData) :
    (e.create P s d .inserting).store.notifications = s.notifications ∨
      ((d.creation P e).fitsColumns = true ∧ AddedOne s.notifications
        (e.create P s d .inserting).store.notifications d.application) := by
  simp only [create]
  split
  · exact Or.inl rfl
  · next hfits =>
    have hadvances := CreationCall.advance_cases s.clock s.db (d.creation P e) .inserting
    generalize (d.creation P e).advance s.clock s.db .inserting = step at hadvances
    cases hadvances with
    | inserted => exact Or.inr ⟨by simpa using hfits, _, rfl, rfl⟩
    | lost => exact Or.inl rfl
    | broken => exact Or.inl rfl

/-- A notification whose application is stored and whose key is free is inserted. -/
theorem create_of_free (hfits : (d.creation P e).fitsColumns = true)
    (hstored : d.application ∈ s.applications.rows)
    (hfree : ∀ n ∈ s.notifications.rows, n.applicationId = d.application.id →
      n.idempotencyKey ≠ (d.creation P e).idempotencyKey) :
    AddedOne s.notifications (e.create P s d .inserting).store.notifications d.application := by
  have happlication : (s.db.applications.get? (d.creation P e).applicationId).isSome := by
    change ((s.applications.map (fun a => a.toApplication) fun _ => rfl).get?
      d.application.id).isSome
    have hget : s.applications.get? d.application.id = some d.application :=
      Table.get?_eq_some.mpr ⟨hstored, rfl⟩
    rw [Table.get?_map, Option.isSome_map, hget]
    rfl
  have hnone : ∀ n ∈ s.notifications.rows, (d.creation P e).matches_ n = false := by
    intro n hn
    by_contra hmatches
    obtain ⟨happ, hkey⟩ : n.applicationId = d.application.id ∧
        n.idempotencyKey = (d.creation P e).idempotencyKey := by
      simpa [CreationCall.matches_, InboundData.creation] using hmatches
    exact hfree n hn happ hkey
  simp only [create, hfits]
  rw [if_neg (by simp)]
  have hadvances := CreationCall.advance_cases s.clock s.db (d.creation P e) .inserting
  generalize (d.creation P e).advance s.clock s.db .inserting = step at hadvances
  cases hadvances with
  | inserted => exact ⟨_, rfl, rfl⟩
  | lost hkey hlost =>
    obtain ⟨n, hn, hmatches⟩ := hlost happlication
    simp [hnone n hn] at hmatches
  | broken hkey hmissing => simp [Option.isNone_iff_eq_none.mp hmissing] at happlication

end GraphEmail

section Authorisation

variable {P : MailPlatform} {cfg : InboundSettings} {s : MailStore} {e : GraphEmail}

theorem processEmail_notifications (P : MailPlatform) (cfg : InboundSettings) (s : MailStore)
    (e : GraphEmail) (fault : Option Fault) :
    ∃ n, (processEmail P cfg s e fault).1.notifications =
        (e.run P cfg n s .received).store.notifications ∧
      (fault = none → n = processStatements) := by
  cases fault with
  | some f => exact ⟨f.after, rfl, by simp⟩
  | none =>
    refine ⟨processStatements, ?_, fun _ => rfl⟩
    simp only [processEmail]
    split <;> rfl

/-- The processing of a mail adds at most one notification, for an application that the mail is
authorised for; and it adds one for the application that an authorised mail is routed to. -/
theorem inbound_authorisation (P : MailPlatform) (cfg : InboundSettings) (s : MailStore)
    (e : GraphEmail) (hdmarc : cfg.requireDmarc = true) :
    (∀ fault, (processEmail P cfg s e fault).1.notifications = s.notifications ∨
        ∃ a, e.Authorised P cfg s a ∧
          AddedOne s.notifications (processEmail P cfg s e fault).1.notifications a) ∧
      ∀ a, e.Authorised P cfg s a → e.Routed P s a →
        AddedOne s.notifications (processEmail P cfg s e none).1.notifications a := by
  constructor
  · intro fault
    obtain ⟨n, hrun, -⟩ := processEmail_notifications P cfg s e fault
    rw [hrun]
    rcases GraphEmail.run_received P cfg s e n with hsame | ⟨d, hreceive, hcreate⟩
    · exact Or.inl hsame
    · rw [hcreate]
      refine (GraphEmail.create_notifications P s e d).imp_right fun ⟨hfits, hadded⟩ => ?_
      refine ⟨d.application, ?_, hadded⟩
      obtain ⟨halias, ⟨d', hd, hvalid⟩ | ⟨errors, r, hd, -⟩ | ⟨errors, hd | hd, -⟩⟩ :=
        GraphEmail.receive_eq_goes hreceive
      · obtain rfl : d = d' := (MailStage.creating.inj hd).1
        simp only [CreationCall.fitsColumns, Bool.and_eq_true, fitsColumn_some] at hfits
        exact GraphEmail.authorised_of_valid hdmarc halias hvalid hfits.1.1.1
      all_goals simp at hd
  · intro a hauthorised hrouted
    obtain ⟨title, date, hvalid, hfits⟩ := GraphEmail.valid_of_authorised hauthorised hrouted
    have hreceive : e.receive P cfg s =
        .goes (.creating (e.authorisedData P a title date) .inserting) := by
      simp [GraphEmail.receive, hauthorised.picked, hvalid]
    obtain ⟨n, hrun, hn⟩ := processEmail_notifications P cfg s e none
    obtain rfl := hn rfl
    rw [hrun, processStatements, GraphEmail.run_valid hreceive 3]
    refine GraphEmail.create_of_free hfits hauthorised.stored ?_
    rw [GraphEmail.idempotencyKey_authorisedData]
    exact hrouted.fresh

/-- A mail whose subject is refused creates nothing. -/
theorem notifications_of_refused (P : MailPlatform) (cfg : InboundSettings) (s : MailStore)
    (e : GraphEmail) {errors : List FieldError}
    (h : charField (some subjectMaxLength) e.subject = .error errors) :
    (processEmail P cfg s e none).1.notifications = s.notifications := by
  obtain ⟨n, hrun, -⟩ := processEmail_notifications P cfg s e none
  rw [hrun]
  rcases GraphEmail.run_received P cfg s e n with hsame | ⟨d, hreceive, -⟩
  · exact hsame
  · obtain ⟨-, ⟨d', -, hvalid⟩ | ⟨_, r, hd, -⟩ | ⟨_, hd | hd, -⟩⟩ :=
      GraphEmail.receive_eq_goes hreceive
    · simp [GraphEmail.validate, GraphEmail.toInternalValue, h] at hvalid
    all_goals simp at hd

end Authorisation

/-! ### Long subjects -/

/-- A text that does not start or end with a space. -/
theorem strip_ofList {cs : List Char}
    (h : ((cs.dropWhile isPythonSpace).reverse.dropWhile isPythonSpace).reverse = cs) :
    strip (String.ofList cs) = String.ofList cs := by
  rw [strip, String.toList_ofList, h]

theorem extractSubjectSchedule_ofList (P : MailPlatform) {cs : List Char} {title : String}
    (hsearch : searchMarker cs = none) (hcollapse : collapse cs = title.toList) :
    extractSubjectSchedule P (String.ofList cs) = .ok (title, none) := by
  simp only [extractSubjectSchedule, String.toList_ofList, hsearch, hcollapse, String.ofList_toList]

theorem charField_of_long {m : ℕ} {cs : List Char}
    (hstrip : strip (String.ofList cs) = String.ofList cs) (hlong : m < cs.length)
    (hnull : cs.contains (Char.ofNat 0) = false) :
    charField (some m) (String.ofList cs) = .error [.library "max_length"] := by
  have hne : String.ofList cs ≠ "" := by
    intro h
    have hnil : cs = [] := by simpa using congrArg String.toList h
    simp [hnil] at hlong
  have hmem : Char.ofNat 0 ∉ cs := by simpa using hnull
  simp [charField, hstrip, hne, hlong, hmem, String.length_ofList, String.toList_ofList]

/-! ### A sample -/

namespace Sample

/-- The settings with the authentication of the senders enforced. -/
def dmarcSettings : InboundSettings := { inboundSettings with requireDmarc := true }

/-- A mail with a subject to the sample application, whose headers say that the check passed. -/
def dmarcMail (subject : String) : GraphEmail :=
  { sampleMail with subject, authenticationResults := "dmarc=pass" }

/-- A subject of 302 characters, most of them blanks. -/
def wideSubject : String := String.ofList ('a' :: List.replicate 300 ' ' ++ ['b'])

theorem strip_wideSubject : strip wideSubject = wideSubject :=
  strip_ofList (by decide +kernel)

def mailStore : MailStore := { clock := 0, applications := single mailApplication }

/-- The mail with a subject is authorised, if the subject makes this title. -/
theorem dmarcMail_authorised {subject : String} (title : String)
    (hsubject : extractSubjectSchedule mailPlatform (dmarcMail subject).attrs.subject =
      .ok (title, none)) (hne : title ≠ "") (hlength : title.length ≤ notificationTitleMaxLength) :
    (dmarcMail subject).Authorised mailPlatform dmarcSettings mailStore mailApplication := by
  have h : (dmarcMail "Title").Authorised mailPlatform dmarcSettings mailStore mailApplication :=
    { stored := by decide
      picked := by decide +kernel
      addressed :=
        ⟨"app-1.pushit".toList, by decide +kernel, by decide +kernel, by decide, rfl, rfl⟩
      notMailbox := by decide +kernel
      policy := ⟨.anyone, by decide +kernel⟩
      authenticated := by decide +kernel
      subject := ⟨"Title", none, by decide +kernel, by decide, by decide, by simp⟩
      text := by decide +kernel }
  exact ⟨h.stored, h.picked, h.addressed, h.notMailbox, h.policy, h.authenticated,
    ⟨title, none, hsubject, hne, hlength, by simp⟩, h.text⟩

theorem wideSubject_title : extractSubjectSchedule mailPlatform
    (dmarcMail wideSubject).attrs.subject = .ok ("a b", none) := by
  have htitle : extractSubjectSchedule mailPlatform wideSubject = .ok ("a b", none) :=
    extractSubjectSchedule_ofList mailPlatform (by decide +kernel) (by decide +kernel)
  exact (congrArg _ strip_wideSubject).trans htitle

theorem wideSubject_creates_nothing :
    (processEmail mailPlatform dmarcSettings mailStore (dmarcMail wideSubject)
      none).1.notifications.rows = [] := by
  have hrefused : charField (some subjectMaxLength) (dmarcMail wideSubject).subject =
      .error [.library "max_length"] :=
    charField_of_long strip_wideSubject (by decide +kernel) (by decide +kernel)
  rw [notifications_of_refused mailPlatform dmarcSettings mailStore _ hrefused]
  rfl

end Sample

theorem sample_inbound_authorisation :
    AddedOne Sample.mailStore.notifications (processEmail Sample.mailPlatform
      Sample.dmarcSettings Sample.mailStore (Sample.dmarcMail "Title") none).1.notifications
      Sample.mailApplication := by
  have hattrs : ∃ attrs, (Sample.dmarcMail "Title").toInternalValue Sample.mailPlatform =
      .ok attrs := ⟨(Sample.dmarcMail "Title").attrs, by decide +kernel⟩
  have hfirst : ∀ b ∈ Sample.mailStore.applications.rows, b.id < Sample.mailApplication.id →
      ∀ localPart domain, splitFirst '@' ((Sample.dmarcMail "Title").recipientAddress
        Sample.mailPlatform).toList = some (localPart, domain) →
          ¬b.Answers Sample.mailPlatform localPart := by
    intro b hb hlt
    obtain rfl : b = Sample.mailApplication := List.mem_singleton.mp hb
    exact absurd hlt (lt_irrefl _)
  exact (inbound_authorisation Sample.mailPlatform Sample.dmarcSettings Sample.mailStore
    (Sample.dmarcMail "Title") rfl).2 Sample.mailApplication
    (Sample.dmarcMail_authorised "Title" (by decide +kernel) (by decide) (by decide))
    ⟨hattrs, hfirst, by decide +kernel, by simp [Sample.mailStore, Table.empty]⟩

/-- A title of three characters, in a subject longer than the serializer takes. -/
theorem authorised_mail_refused :
    ¬∀ (P : MailPlatform) (cfg : InboundSettings) (s : MailStore) (e : GraphEmail)
      (a : ConsoleApplication), cfg.requireDmarc = true → e.Authorised P cfg s a →
      P.isEmail e.attrs.sender = true → e.attrs.messageId ≠ "" →
      e.attrs.messageId.length ≤ messageIdMaxLength →
      (∀ n ∈ s.notifications.rows, n.applicationId = a.id → n.idempotencyKey ≠ e.notificationKey) →
        AddedOne s.notifications (processEmail P cfg s e none).1.notifications a := by
  intro h
  have hauthorised := Sample.dmarcMail_authorised _ Sample.wideSubject_title (by decide) (by decide)
  have hsender : Sample.mailPlatform.isEmail
      (Sample.dmarcMail Sample.wideSubject).attrs.sender = true := by decide +kernel
  have hid : (Sample.dmarcMail Sample.wideSubject).attrs.messageId = "id" := by decide +kernel
  have hfresh : ∀ n ∈ Sample.mailStore.notifications.rows,
      n.applicationId = Sample.mailApplication.id →
        n.idempotencyKey ≠ (Sample.dmarcMail Sample.wideSubject).notificationKey := by
    simp [Sample.mailStore, Table.empty]
  obtain ⟨n, hn, -⟩ := h Sample.mailPlatform Sample.dmarcSettings Sample.mailStore _ _ rfl
    hauthorised hsender (by rw [hid]; decide) (by rw [hid]; decide) hfresh
  rw [Sample.wideSubject_creates_nothing] at hn
  simp at hn

end PushIT
