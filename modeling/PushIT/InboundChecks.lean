import Mathlib.Data.List.DropRight
import PushIT.Accounts
import PushIT.Applications
import PushIT.Fingerprint
import PushIT.Library.Words

/-!
# The checks on an inbound mail

The pure functions the mailbox poller decides with: the shape of an alias
(`applications/inbound_alias.py`), the sender policy of an application
(`applications/inbound_sender_policy.py`), the verdicts stamped on the mail
(`notifications/inbound_auth.py`) and the date in the subject (`notifications/inbound_email.py`).
What they use of Python, of Django and of the database stands in `MailPlatform`.

## Main definitions

* `isInboundAliasAddress`: an address of the shape of an alias.
* `senderMatches`, `evaluateSenderPolicy`: who may send.
* `evaluateSenderAuthentication`: whether the sender is who the mail says.
* `extractSubjectSchedule`: the title and the date of a subject.
-/

namespace PushIT

open Relational

/-! ### The platform and the settings -/

/-- An aware datetime: the instant and the offset it is written with. -/
structure AwareDateTime where
  instant : Instant
  utcOffset : ℤ := 0
  deriving DecidableEq, Repr

inductive ParsedDateTime
  | aware (t : AwareDateTime)
  | naive
  deriving DecidableEq, Repr

/-- The character PostgreSQL refuses in a text. -/
def nullCharacter : Char := Char.ofNat 0

/-- What the mailbox poller uses of Python, of Django and of the database. -/
structure MailPlatform where
  /-- `str.lower`. -/
  lower : String → String
  /-- `UPPER` of the database, by which `__iexact` compares. -/
  upper : String → String
  /-- `\w` of the regular expressions. -/
  isWord : Char → Bool
  /-- `email.utils.parseaddr`. -/
  parseaddr : String → String × String
  /-- `EmailValidator`. -/
  isEmail : String → Bool
  /-- `parse_datetime`: no date, a date, or the text of the `ValueError`. -/
  parseDatetime : String → Except String (Option ParsedDateTime)
  /-- The text `DjangoJSONEncoder` writes for a date. -/
  encode : AwareDateTime → String
  sha256 : ByteArray → String
  /-- `str(errors)`, in which every character that cannot be printed is escaped. -/
  renderErrors : ValidationErrors → String
  renderErrors_clean : ∀ errors, nullCharacter ∉ (renderErrors errors).toList
  /-- The text of an exception of the database or of its driver. -/
  databaseError : String
  databaseError_clean : nullCharacter ∉ databaseError.toList
  /-- `order_by("name")`. -/
  orderByName : List ConsoleApplication → List ConsoleApplication

/-- The settings of the inbound mail. -/
structure InboundSettings where
  domain : String
  aliasSuffix : String := ".pushit"
  graphMailboxUserId : String := ""
  exchangeSharedMailbox : String := ""
  graphClientId : String := "client"
  maxProcessingAttempts : ℤ := 5
  autoReplyIntervalSeconds : ℤ := 3600
  requireDmarc : Bool := false
  dmarcAcceptBestguesspass : Bool := true
  dmarcAllowNoPolicy : Bool := false
  dmarcTrustInternal : Bool := true
  dmarcNotifyOwner : Bool := true
  deriving DecidableEq, Repr

/-! ### Texts -/

/-- `text.split(sep, 1)`, when the separator occurs. -/
def splitFirst (sep : Char) (cs : List Char) : Option (List Char × List Char) :=
  match cs.dropWhile (· != sep) with
  | [] => none
  | _ :: rest => some (cs.takeWhile (· != sep), rest)

/-- `text.rsplit(sep, 1)`, when the separator occurs. -/
def splitLast (sep : Char) (cs : List Char) : Option (List Char × List Char) :=
  (splitFirst sep cs.reverse).map fun parts => (parts.2.reverse, parts.1.reverse)

section Splitting

variable {sep : Char} {cs before after : List Char}

theorem splitFirst_append (h : sep ∉ before) :
    splitFirst sep (before ++ sep :: after) = some (before, after) := by
  have hbefore : ∀ c ∈ before, (c != sep) = true := by
    rintro c hc
    simpa using fun heq : c = sep => h (heq ▸ hc)
  simp [splitFirst, List.dropWhile_append_of_pos hbefore, List.takeWhile_append_of_pos hbefore]

theorem splitFirst_eq_none (h : sep ∉ cs) : splitFirst sep cs = none := by
  have hall : ∀ c ∈ cs, (c != sep) = true := by
    rintro c hc
    simpa using fun heq : c = sep => h (heq ▸ hc)
  simp [splitFirst, List.dropWhile_eq_nil_iff.mpr hall]

/-- A text is split at its first separator, if it has one. -/
theorem splitFirst_eq_some_iff :
    splitFirst sep cs = some (before, after) ↔ cs = before ++ sep :: after ∧ sep ∉ before := by
  constructor
  · intro h
    by_cases hmem : sep ∈ cs
    · obtain ⟨front, back, rfl, hfront⟩ := List.eq_append_cons_of_mem hmem
      rw [splitFirst_append hfront] at h
      obtain ⟨rfl, rfl⟩ := Prod.mk.inj (Option.some.inj h)
      exact ⟨rfl, hfront⟩
    · simp [splitFirst_eq_none hmem] at h
  · rintro ⟨rfl, h⟩
    exact splitFirst_append h

/-- A text is split at its last separator, if it has one. -/
theorem splitLast_eq_some_iff :
    splitLast sep cs = some (before, after) ↔ cs = before ++ sep :: after ∧ sep ∉ after := by
  have hreverse : splitLast sep cs = some (before, after) ↔
      splitFirst sep cs.reverse = some (after.reverse, before.reverse) := by
    simp [splitLast, Prod.ext_iff, List.reverse_eq_iff, and_comm]
  rw [hreverse, splitFirst_eq_some_iff, List.reverse_eq_iff]
  simp

theorem splitLast_eq_none_iff : splitLast sep cs = none ↔ sep ∉ cs := by
  constructor
  · intro h hmem
    obtain ⟨front, back, hcs, hback⟩ := List.eq_append_cons_of_mem (List.mem_reverse.mpr hmem)
    have hsplit : splitLast sep cs = some (back.reverse, front.reverse) := by
      rw [splitLast, hcs, splitFirst_append hback]
      rfl
    simp [hsplit] at h
  · intro h
    rw [splitLast, splitFirst_eq_none (by simpa using h)]
    rfl

/-- `text.rsplit(sep, 1)[-1]`. -/
def afterLast (sep : Char) (cs : List Char) : List Char :=
  ((splitLast sep cs).map (·.2)).getD cs

theorem afterLast_eq_self (h : sep ∉ cs) : afterLast sep cs = cs := by
  rw [afterLast, splitLast_eq_none_iff.mpr h]
  rfl

theorem afterLast_append (before cs : List Char) :
    afterLast sep (before ++ sep :: cs) = afterLast sep cs := by
  by_cases h : sep ∈ cs
  · obtain ⟨front, back, hcs, hback⟩ := List.eq_append_cons_of_mem (List.mem_reverse.mpr h)
    have hsplit : cs = back.reverse ++ sep :: front.reverse := by
      rw [← List.reverse_reverse cs, hcs]
      simp
    have hnot : sep ∉ front.reverse := by simpa using hback
    have hinner := splitLast_eq_some_iff.mpr ⟨hsplit, hnot⟩
    have houter : splitLast sep (before ++ sep :: cs) =
        some (before ++ sep :: back.reverse, front.reverse) :=
      splitLast_eq_some_iff.mpr ⟨by rw [hsplit]; simp, hnot⟩
    rw [afterLast, afterLast, hinner, houter]
    rfl
  · rw [afterLast_eq_self h, afterLast, splitLast_eq_some_iff.mpr ⟨rfl, h⟩]
    rfl

end Splitting

/-- `" ".join(text.split())`. -/
def collapse (cs : List Char) : List Char :=
  [' '].intercalate ((cs.splitOnP isPythonSpace).filter (· != []))

/-- `re.search` of a literal that starts a word, followed by the longest run of the characters of
a value: the value of the first match.  The flag says whether a word goes on. -/
def searchValue (isWord : Char → Bool) (literal : List Char) (value : Char → Bool) :
    Bool → List Char → Option (List Char)
  | _, [] => none
  | inWord, c :: cs =>
    let found := ((c :: cs).drop literal.length).takeWhile value
    if !inWord && literal.isPrefixOf (c :: cs) && found != [] then some found
    else searchValue isWord literal value (isWord c) cs

/-! ### Letter case -/

theorem strip_eq (s : String) :
    strip s = String.ofList (Ends.trim isPythonSpace s.toList) := rfl

theorem strip_strip (s : String) : strip (strip s) = strip s := by
  rw [strip_eq, strip_eq, String.toList_ofList, Ends.trim_trim]

theorem strip_eq_self_iff {s : String} :
    strip s = s ↔ Ends.Trimmed isPythonSpace s.toList := by
  rw [← Ends.trim_eq_self_iff, strip_eq, ← String.toList_inj, String.toList_ofList]

/-- What the callers of `str.lower` rely on, beside the letters it changes. -/
structure MailPlatform.Lowers (P : MailPlatform) : Prop where
  lower_lower : ∀ s, P.lower (P.lower s) = P.lower s
  lower_ascii : ∀ s, (∀ c ∈ s.toList, c.toNat < 128) →
    P.lower s = String.ofList (s.toList.map Char.toLower)
  /-- Texts that have nothing to lower have none when they are joined. -/
  lower_append : ∀ s t, P.lower s = s → P.lower t = t → P.lower (s ++ t) = s ++ t
  /-- No character becomes a space. -/
  strip_lower : ∀ s, strip s = s → strip (P.lower s) = P.lower s
  lower_eq_empty_iff : ∀ s, P.lower s = "" ↔ s = ""

/-- Trimming and lowering twice is like doing it once. -/
theorem MailPlatform.Lowers.lower_strip_idem {P : MailPlatform} (h : P.Lowers) (s : String) :
    P.lower (strip (P.lower (strip s))) = P.lower (strip s) := by
  rw [h.strip_lower _ (strip_strip s), h.lower_lower]

/-! ### Aliases -/

section Aliases

variable (P : MailPlatform) (cfg : InboundSettings)

/-- `alias_suffix`. -/
def aliasSuffixOf : String := P.lower (strip cfg.aliasSuffix)

/-- `inbound_domain`. -/
def inboundDomain : String := P.lower (strip cfg.domain)

/-- `mailbox_addresses`. -/
def mailboxAddresses : List String :=
  ([cfg.graphMailboxUserId, cfg.exchangeSharedMailbox].filter fun c => c.toList.contains '@').map
    fun c => P.lower (strip c)

/-- `normalize_address`. -/
def normalizeAddress (value : String) : String := P.lower (strip (P.parseaddr value).2)

/-- `is_current_format`. -/
def isCurrentFormat (localPart : String) : Bool :=
  let localPart := (P.lower localPart).toList
  let suffix := (aliasSuffixOf P cfg).toList
  suffix != [] && suffix.isSuffixOf localPart && decide (localPart.length > suffix.length)

def legacyAliasPrefix : String := "app_"

/-- `is_legacy_format`. -/
def isLegacyFormat (localPart : String) : Bool :=
  let localPart := (P.lower localPart).toList
  legacyAliasPrefix.toList.isPrefixOf localPart &&
    decide (localPart.length > legacyAliasPrefix.length)

/-- `is_alias_local_part`. -/
def isAliasLocalPart (localPart : String) : Bool :=
  isCurrentFormat P cfg localPart || isLegacyFormat P localPart

/-- `is_inbound_alias_address`. -/
def isInboundAliasAddress (address : String) : Bool :=
  let address := normalizeAddress P address
  match splitLast '@' address.toList with
  | none => false
  | some (localPart, domain) =>
    !(mailboxAddresses P cfg).contains address &&
      domain == (inboundDomain P cfg).toList && isAliasLocalPart P cfg (String.ofList localPart)

end Aliases

/-! ### The sender policy -/

/-- `ACCEPTED_*`. -/
inductive AcceptanceReason
  | owner
  | allowlist
  | anyone
  deriving DecidableEq, Repr

/-- `REASON_*`. -/
inductive RejectionReason
  | blocklisted
  | notAllowed
  | notAuthenticated
  deriving DecidableEq, Repr

namespace RejectionReason

def value : RejectionReason → String
  | blocklisted => "blocklisted"
  | notAllowed => "not_allowed"
  | notAuthenticated => "sender_not_authenticated"

/-- `log_code_for_rejection`. -/
def logCode : RejectionReason → String
  | notAllowed => "sender_not_allowed"
  | blocklisted => "sender_blocked"
  | notAuthenticated => "dmarc_failed"

end RejectionReason

/-- `SenderPolicyDecision`: the reason says whether the sender is the owner. -/
inductive SenderPolicyDecision
  | accepted (reason : AcceptanceReason)
  | refused (reason : RejectionReason)
  deriving DecidableEq, Repr

def SenderPolicyDecision.isAccepted : SenderPolicyDecision → Bool
  | accepted _ => true
  | refused _ => false

def wildcardDomainPrefix : List Char := "@*.".toList

/-- The round of `sender_matches` for one entry. -/
def entryMatches (P : MailPlatform) (sender domain : List Char) (entry : String) : Bool :=
  let entry := (P.lower (strip entry)).toList
  if wildcardDomainPrefix.isPrefixOf entry then
    let base := entry.drop wildcardDomainPrefix.length
    base != [] && (domain == base || ('.' :: base).isSuffixOf domain)
  else entry == sender || entry == '@' :: domain

/-- `sender_matches`. -/
def senderMatches (P : MailPlatform) (sender : String) (entries : List String) : Bool :=
  let sender := (P.lower (strip sender)).toList
  match splitLast '@' sender with
  | none => false
  | some (_, domain) => domain != [] && entries.any (entryMatches P sender domain)

/-- `evaluate_sender_policy`, with the address of the owner's account. -/
def evaluateSenderPolicy (P : MailPlatform) (ownerEmail : String) (a : ConsoleApplication)
    (sender : String) : SenderPolicyDecision :=
  let sender := P.lower (strip sender)
  let ownerEmail := P.lower (strip ownerEmail)
  if ownerEmail ≠ "" ∧ sender = ownerEmail then .accepted .owner
  else if senderMatches P sender a.inboundSenderBlocklist then .refused .blocklisted
  else if a.inboundSenderMode = .anyone then .accepted .anyone
  else if senderMatches P sender a.inboundSenderAllowlist then .accepted .allowlist
  else .refused .notAllowed

/-! ### Authentication -/

/-- `SenderAuthVerdict`. -/
structure SenderAuthVerdict where
  accepted : Bool
  reason : String
  dmarcVerdict : String := ""
  deriving DecidableEq, Repr

/-- `[a-z]`. -/
def isVerdictChar (c : Char) : Bool := decide ('a' ≤ c ∧ c ≤ 'z')

/-- `[^\s;]`. -/
def isDomainChar (c : Char) : Bool := !isPythonSpace c && c != ';'

/-- `_DMARC_RE.search`. -/
def searchDmarc (P : MailPlatform) (header : String) : Option (List Char) :=
  searchValue P.isWord "dmarc=".toList isVerdictChar false header.toList

/-- `_HEADER_FROM_RE.search`. -/
def searchHeaderFrom (P : MailPlatform) (header : String) : Option (List Char) :=
  searchValue P.isWord "header.from=".toList isDomainChar false header.toList

/-- The verdict on the result of the DMARC check, after the domains were compared. -/
def dmarcVerdict (cfg : InboundSettings) (verdict : String) : SenderAuthVerdict :=
  if verdict = "pass" then ⟨true, "dmarc_pass", verdict⟩
  else if verdict = "bestguesspass" then
    ⟨cfg.dmarcAcceptBestguesspass, "dmarc_bestguesspass", verdict⟩
  else if verdict = "none" then ⟨cfg.dmarcAllowNoPolicy, "dmarc_none", verdict⟩
  else ⟨false, "dmarc_" ++ verdict, verdict⟩

/-- `evaluate_sender_authentication`. -/
def evaluateSenderAuthentication (P : MailPlatform) (cfg : InboundSettings)
    (authenticationResults senderDomain authAs : String) : SenderAuthVerdict :=
  if cfg.dmarcTrustInternal ∧ P.lower (strip authAs) = "internal" then ⟨true, "internal_org", ""⟩
  else
    let lowered := P.lower authenticationResults
    if strip lowered = "" then ⟨false, "no_auth_results", ""⟩
    else
      match searchDmarc P lowered with
      | none => ⟨false, "no_dmarc_verdict", ""⟩
      | some verdict =>
        -- a verdict evaluated for another From domain says nothing about ours
        if (searchHeaderFrom P lowered).any fun d =>
            d.rdropWhile (· == '.') != (P.lower senderDomain).toList then
          ⟨false, "misaligned", String.ofList verdict⟩
        else dmarcVerdict cfg (String.ofList verdict)

/-! ### The date in the subject -/

/-- The letters of `SEND_AT`, with what the regular expression takes for them. -/
def sendAtLetters : List (List Char) :=
  [['S', 's', 'ſ'], ['E', 'e'], ['N', 'n'], ['D', 'd'], ['_'], ['A', 'a'], ['T', 't']]

/-- A text that starts with letters of the given kinds, without them. -/
def dropLetters : List (List Char) → List Char → Option (List Char)
  | [], cs => some cs
  | _ :: _, [] => none
  | kind :: kinds, c :: cs => if kind.contains c then dropLetters kinds cs else none

/-- `SEND_AT_SUBJECT_PATTERN.match`, after the opening bracket: the text up to the closing one,
and what follows it. -/
def matchMarker (cs : List Char) : Option (List Char × List Char) :=
  (dropLetters sendAtLetters (cs.dropWhile isPythonSpace)).bind fun cs =>
    match cs.dropWhile isPythonSpace with
    | ':' :: cs => (splitFirst ']' cs).filter fun parts => parts.1 != []
    | _ => none

/-- `SEND_AT_SUBJECT_PATTERN.search`: what stands before, in and after the first marker. -/
def searchMarker : List Char → Option (List Char × List Char × List Char)
  | [] => none
  | c :: cs =>
    match if c = '[' then matchMarker cs else none with
    | some (content, rest) => some ([], content, rest)
    | none => (searchMarker cs).map fun m => (c :: m.1, m.2)

def invalidMarker : String :=
  "Invalid [SEND_AT:...] marker format. Use an ISO 8601 date with timezone."

/-- `extract_subject_schedule`: the title and the date, or the text of the `ValueError`. -/
def extractSubjectSchedule (P : MailPlatform) (subject : String) :
    Except String (String × Option AwareDateTime) :=
  match searchMarker subject.toList with
  | none => .ok (String.ofList (collapse subject.toList), none)
  | some (before, content, rest) =>
    match P.parseDatetime (strip (String.ofList content)) with
    | .error text => .error text
    | .ok (some (.aware t)) => .ok (String.ofList (collapse (before ++ rest)), some t)
    | .ok _ => .error invalidMarker

/-! ### A sample -/

namespace Sample

/-- A platform for plain texts, without dates. -/
def mailPlatform : MailPlatform where
  lower s := String.ofList (s.toList.map Char.toLower)
  upper s := String.ofList (s.toList.map Char.toUpper)
  isWord c := c.isAlphanum || c == '_'
  parseaddr s := ("", s)
  isEmail s := s.toList.contains '@'
  parseDatetime _ := .ok none
  encode _ := ""
  sha256 := digest
  renderErrors _ := "errors"
  renderErrors_clean := fun _ => by decide
  databaseError := "value too long for type character varying(254)"
  databaseError_clean := by decide
  orderByName apps := apps

/-- Lowering leaves no capital letter, and makes no space. -/
theorem toLower_spec (c : Char) :
    c.toLower.toLower = c.toLower ∧
      (isPythonSpace c = false → isPythonSpace c.toLower = false) := by
  by_cases hrange : 65 ≤ c.toNat ∧ c.toNat ≤ 90
  · have hall : ∀ k < 26, (Char.ofNat (65 + k)).toLower.toLower = (Char.ofNat (65 + k)).toLower ∧
        isPythonSpace (Char.ofNat (65 + k)).toLower = false := by decide
    have hc : Char.ofNat (65 + (c.toNat - 65)) = c := by
      rw [Nat.add_sub_cancel' hrange.1, Char.ofNat_toNat]
    have hspec := hall (c.toNat - 65) (by omega)
    rw [hc] at hspec
    exact ⟨hspec.1, fun _ => hspec.2⟩
  · have hsame : c.toLower = c := by
      unfold Char.toLower
      rw [dif_neg]
      rintro ⟨hle, hle'⟩
      exact hrange ⟨UInt32.le_iff_toNat_le.mp hle, UInt32.le_iff_toNat_le.mp hle'⟩
    rw [hsame]
    exact ⟨hsame, id⟩

theorem mailPlatform_lowers : mailPlatform.Lowers where
  lower_lower s := by simp [mailPlatform, Function.comp_def, (toLower_spec _).1]
  lower_ascii _ _ := rfl
  lower_append s t hs ht := by
    simp only [mailPlatform, ← String.toList_inj, String.toList_ofList, String.toList_append,
      List.map_append] at hs ht ⊢
    rw [hs, ht]
  strip_lower s hs := by
    rw [strip_eq_self_iff] at hs ⊢
    simp only [mailPlatform, String.toList_ofList]
    refine ⟨fun c hc => ?_, fun c hc => ?_⟩
    · rw [List.head?_map] at hc
      obtain ⟨d, hd, rfl⟩ := Option.map_eq_some_iff.mp hc
      exact (toLower_spec d).2 (hs.head d hd)
    · rw [List.getLast?_map] at hc
      obtain ⟨d, hd, rfl⟩ := Option.map_eq_some_iff.mp hc
      exact (toLower_spec d).2 (hs.last d hd)
  lower_eq_empty_iff s := by simp [mailPlatform]

def inboundSettings : InboundSettings := { domain := "pushit.example" }

end Sample

/-- A marker is found behind other brackets, and the rest of the subject is the title. -/
example : searchMarker "[x] a [ Send_At : now ] b".toList =
    some ("[x] a ".toList, " now ".toList, " b".toList) := by decide

end PushIT
