import PushIT.InboundChecks

/-!
# The DMARC verdict of a header

An `Authentication-Results` header is a list of clauses, one for each method.  The verdict is to be
that of the DMARC clause: of its result, and of the domain it was evaluated for.  The regular
expressions of `notifications/inbound_auth.py` search the whole header, so that the first mention
counts, in whichever clause it stands.

## Main definitions

* `AuthenticationResults`: a header with one DMARC clause.
* `AuthenticationResults.ownClause`: what the verdict is to depend on.
* `FirstMentionsAgree`: the first mentions in the header are those of its DMARC clause.

## Main results

* `evaluate_eq_verdictOf`: the verdict comes from the first mentions.
* `verdict_of_clause_iff`: when the verdict is that of the DMARC clause.
* `firstMentionsAgree_of_silent`: clauses that mention neither do not change the verdict.
-/

namespace PushIT

/-! ### Headers -/

/-- The result of a method or the value of a property. -/
structure ResultValue where
  text : String
  clean : ∀ c ∈ text.toList, c ≠ ';' ∧ isPythonSpace c = false

/-- A method with its result, or a property with its value, and how many spaces stand in front. -/
structure ResultPair where
  indent : ℕ := 0
  name : String
  name_clean : ∀ c ∈ name.toList, c ≠ ';' ∧ c ≠ '=' ∧ isPythonSpace c = false
  value : ResultValue

/-- `name=value`. -/
def ResultPair.text (p : ResultPair) : List Char := p.name.toList ++ '=' :: p.value.text.toList

def ResultPair.spaced (p : ResultPair) : List Char := List.replicate p.indent ' ' ++ p.text

/-- A method with its properties. -/
structure MethodClause where
  method : ResultPair
  properties : List ResultPair := []

/-- The pairs of a clause, separated by spaces. -/
def MethodClause.text (c : MethodClause) : List Char :=
  c.method.spaced ++ c.properties.flatMap fun p => ' ' :: p.spaced

def MethodClause.pairs (c : MethodClause) : List ResultPair := c.method :: c.properties

/-- A clause of the method `dmarc`, in any letter case. -/
def MethodClause.IsDmarc (P : MailPlatform) (c : MethodClause) : Prop :=
  P.lower c.method.name = "dmarc"

instance (P : MailPlatform) : DecidablePred (MethodClause.IsDmarc P) := fun _ => decEq _ _

/-- A header with one DMARC clause. -/
structure AuthenticationResults (P : MailPlatform) where
  before : List MethodClause
  dmarc : MethodClause
  after : List MethodClause
  isDmarc : dmarc.IsDmarc P
  not_before : ∀ c ∈ before, ¬ c.IsDmarc P
  not_after : ∀ c ∈ after, ¬ c.IsDmarc P

/-- The clauses, separated by semicolons. -/
def headerText (clauses : List MethodClause) : String :=
  String.ofList ([';'].intercalate (clauses.map MethodClause.text))

def headerPairs (clauses : List MethodClause) : List ResultPair :=
  clauses.flatMap MethodClause.pairs

namespace AuthenticationResults

variable {P : MailPlatform} (H : AuthenticationResults P)

def clauses : List MethodClause := H.before ++ H.dmarc :: H.after

/-- The property `header.from` of the DMARC clause. -/
def headerFrom : Option ResultPair :=
  H.dmarc.properties.find? fun p => P.lower p.name = "header.from"

end AuthenticationResults

def dmarcPair (result : ResultValue) : ResultPair where
  name := "dmarc"
  name_clean := forall_mem_of_all (by decide)
  value := result

def headerFromPair (domain : ResultValue) : ResultPair where
  name := "header.from"
  name_clean := forall_mem_of_all (by decide)
  value := domain

/-- The clause of a result and of the domain it was evaluated for. -/
def dmarcClause (result : ResultValue) (headerFrom : Option ResultValue) : MethodClause where
  method := dmarcPair result
  properties := (headerFrom.map headerFromPair).toList

/-- The result and the domain of the DMARC clause, and nothing else. -/
def AuthenticationResults.ownClause {P : MailPlatform} (H : AuthenticationResults P) :
    MethodClause :=
  dmarcClause H.dmarc.method.value (H.headerFrom.map (·.value))

/-! ### Searches -/

/-- What the header's readers rely on: `str.lower` neither makes nor takes away the characters that
separate the parts of a header nor looks across them, and they are no word characters. -/
structure MailPlatform.KeepsSeparators (P : MailPlatform) : Prop where
  lower_append : ∀ sep ∈ [' ', ';', '='], ∀ front back : List Char,
    (P.lower (String.ofList (front ++ sep :: back))).toList =
      (P.lower (String.ofList front)).toList ++ sep :: (P.lower (String.ofList back)).toList
  isWord_eq_false : ∀ sep ∈ [' ', ';', '='], P.isWord sep = false

/-- The separators of pairs and of clauses. -/
def IsHeaderSeparator (c : Char) : Prop := c ∈ [' ', ';']

section Searches

variable {P : MailPlatform} {literal xs ys : List Char} {value : Char → Bool} {sep : Char}

/-- A text without a separator starts a text exactly when it starts the part in front of it. -/
theorem isPrefixOf_append_cons (h : sep ∉ literal) :
    literal.isPrefixOf (xs ++ sep :: ys) = literal.isPrefixOf xs := by
  induction literal generalizing xs with
  | nil => rfl
  | cons c literal ih =>
    obtain ⟨hc, hliteral⟩ := List.ne_and_not_mem_of_not_mem_cons h
    cases xs with
    | nil => simp [List.isPrefixOf, hc.symm]
    | cons x xs =>
      rw [List.cons_append, List.isPrefixOf_cons_cons, List.isPrefixOf_cons_cons, ih hliteral]

/-- A match neither begins at a separator nor goes over it. -/
theorem searchValue_append {isWord : Char → Bool} (hliteral : literal ≠ []) (hsep : sep ∉ literal)
    (hvalue : value sep = false) (hword : isWord sep = false) (inWord : Bool) :
    searchValue isWord literal value inWord (xs ++ sep :: ys) =
      (searchValue isWord literal value inWord xs).or
        (searchValue isWord literal value false ys) := by
  induction xs generalizing inWord with
  | nil =>
    have hstarts : literal.isPrefixOf (sep :: ys) = false := by
      obtain ⟨c, cs, rfl⟩ := List.exists_cons_of_ne_nil hliteral
      have hc : c ≠ sep := fun hc => hsep (hc ▸ List.mem_cons_self)
      simp [List.isPrefixOf, hc]
    simp [searchValue, hstarts, hword]
  | cons x xs ih =>
    rw [List.cons_append, searchValue, searchValue, ih, ← List.cons_append,
      isPrefixOf_append_cons hsep]
    by_cases hstarts : literal.isPrefixOf (x :: xs) = true
    · obtain ⟨rest, hrest⟩ := List.isPrefixOf_iff_prefix.mp hstarts
      have hfound : (((x :: xs) ++ sep :: ys).drop literal.length).takeWhile value =
          ((x :: xs).drop literal.length).takeWhile value := by
        rw [← hrest, List.append_assoc, List.drop_left, List.drop_left, List.takeWhile_append]
        split
        · rw [List.takeWhile_cons_of_neg (by simp [hvalue]), List.append_nil]
          exact (List.takeWhile_prefix value).eq_of_length (by assumption) |>.symm
        · rfl
      rw [hfound]
      split <;> rfl
    · rw [Bool.not_eq_true] at hstarts
      simp [hstarts]

end Searches

section Mentions

variable (P : MailPlatform)

/-- What a search finds in a text once it is in lower case. -/
def mention (search : String → Option (List Char)) (cs : List Char) : Option (List Char) :=
  search (P.lower (String.ofList cs))

/-- What a search finds first in some pairs. -/
def firstMention (search : String → Option (List Char)) (pairs : List ResultPair) :
    Option (List Char) :=
  pairs.findSome? fun p => mention P search p.text

variable {P} {search : String → Option (List Char)} {clauses : List MethodClause}

theorem splits_searchValue (hP : P.Lowers) (hsep : P.KeepsSeparators) {literal : List Char}
    {value : Char → Bool} (hliteral : literal ≠ [])
    (hvalue : ∀ sep, IsHeaderSeparator sep → sep ∉ literal ∧ value sep = false) :
    Splits IsHeaderSeparator
      (mention P fun header => searchValue P.isWord literal value false header.toList) where
  nil := by
    have hempty : P.lower (String.ofList []) = "" := (hP.lower_eq_empty_iff _).mpr rfl
    rw [mention, hempty]
    rfl
  append sep hs xs ys := by
    have hmem : sep ∈ [' ', ';', '='] := by
      rcases List.mem_pair.mp hs with rfl | rfl <;> decide
    obtain ⟨hnot, hval⟩ := hvalue sep hs
    rw [mention, hsep.lower_append sep hmem,
      searchValue_append hliteral hnot hval (hsep.isWord_eq_false sep hmem)]
    rfl

theorem splits_dmarc (hP : P.Lowers) (hsep : P.KeepsSeparators) :
    Splits IsHeaderSeparator (mention P (searchDmarc P)) :=
  splits_searchValue hP hsep (by decide) fun sep hs => by
    rcases List.mem_pair.mp hs with rfl | rfl <;> decide

theorem splits_headerFrom (hP : P.Lowers) (hsep : P.KeepsSeparators) :
    Splits IsHeaderSeparator (mention P (searchHeaderFrom P)) :=
  splits_searchValue hP hsep (by decide) fun sep hs => by
    rcases List.mem_pair.mp hs with rfl | rfl <;> decide

section Split

variable (h : Splits IsHeaderSeparator (mention P search))
include h

theorem mention_spaced (p : ResultPair) : mention P search p.spaced = mention P search p.text :=
  h.replicate (by simp [IsHeaderSeparator]) p.indent p.text

theorem mention_clause (c : MethodClause) :
    mention P search c.text = firstMention P search c.pairs := by
  rw [MethodClause.text, h.flatMap (by simp [IsHeaderSeparator]), mention_spaced h,
    firstMention, MethodClause.pairs, List.findSome?_cons]
  simp only [mention_spaced h]
  cases mention P search c.method.text <;> rfl

/-- A search in a header finds what it finds first in a pair. -/
theorem search_headerText (clauses : List MethodClause) :
    search (P.lower (headerText clauses)) = firstMention P search (headerPairs clauses) := by
  have hclauses : firstMention P search (headerPairs clauses) =
      clauses.findSome? fun c => mention P search c.text := by
    induction clauses with
    | nil => rfl
    | cons c clauses ih =>
      rw [firstMention, headerPairs] at ih
      rw [List.findSome?_cons, ← ih, mention_clause h, firstMention, firstMention, headerPairs,
        List.flatMap_cons, List.findSome?_append]
      cases c.pairs.findSome? fun p => mention P search p.text <;> rfl
  have hsemicolon : IsHeaderSeparator ';' := by simp [IsHeaderSeparator]
  have hjoined := h.intercalate hsemicolon (clauses.map MethodClause.text)
  rw [List.findSome?_map] at hjoined
  exact hjoined.trans hclauses.symm

end Split

end Mentions

/-! ### Verdicts -/

section Verdicts

variable (P : MailPlatform) (cfg : InboundSettings) (senderDomain : String)

/-- The mail was submitted within the organisation, which is trusted. -/
def TrustedInternal (authAs : String) : Prop :=
  cfg.dmarcTrustInternal ∧ P.lower (strip authAs) = "internal"

/-- The domain that was found is not that of the sender. -/
def misaligned (headerFrom : Option (List Char)) : Bool :=
  headerFrom.any fun d => d.rdropWhile (· == '.') != (P.lower senderDomain).toList

/-- The verdict on the first mentions of a result and of a domain. -/
def verdictOf (verdict headerFrom : Option (List Char)) : SenderAuthVerdict :=
  match verdict with
  | none => ⟨false, "no_dmarc_verdict", ""⟩
  | some verdict =>
    if misaligned P senderDomain headerFrom then ⟨false, "misaligned", String.ofList verdict⟩
    else dmarcVerdict cfg (String.ofList verdict)

variable {P cfg senderDomain} {headerFrom' : Option (List Char)}

theorem dmarcVerdict_spec (verdict : String) :
    (dmarcVerdict cfg verdict).dmarcVerdict = verdict ∧
      (dmarcVerdict cfg verdict).reason = "dmarc_" ++ verdict := by
  unfold dmarcVerdict
  split
  · next h => subst h; exact ⟨rfl, rfl⟩
  · split
    · next h => subst h; exact ⟨rfl, rfl⟩
    · split
      · next h => subst h; exact ⟨rfl, rfl⟩
      · exact ⟨rfl, rfl⟩

/-- The reason of a verdict on a result differs from the others in its first letter. -/
theorem dmarcVerdict_reason_ne (verdict : String) :
    (dmarcVerdict cfg verdict).reason ≠ "misaligned" ∧
      (dmarcVerdict cfg verdict).reason ≠ "no_dmarc_verdict" := by
  rw [(dmarcVerdict_spec verdict).2]
  constructor
  all_goals
    intro h
    have hchars := congrArg String.toList h
    simp at hchars

/-- Where a result is mentioned, the verdict says so. -/
theorem verdictOf_some_ne (verdict : List Char) (headerFrom : Option (List Char)) :
    verdictOf P cfg senderDomain (some verdict) headerFrom ≠
      verdictOf P cfg senderDomain none headerFrom' := by
  intro h
  have hreason := congrArg SenderAuthVerdict.reason h
  rw [verdictOf, verdictOf] at hreason
  split at hreason
  · exact absurd hreason (show "misaligned" ≠ "no_dmarc_verdict" by decide)
  · exact (dmarcVerdict_reason_ne _).2 hreason

/-- The verdict shows the result that was mentioned. -/
theorem dmarcVerdict_verdictOf (verdict : List Char) (headerFrom : Option (List Char)) :
    (verdictOf P cfg senderDomain (some verdict) headerFrom).dmarcVerdict =
      String.ofList verdict := by
  rw [verdictOf]
  split
  · rfl
  · exact (dmarcVerdict_spec _).1

/-- The verdict shows whether the domain is aligned. -/
theorem reason_verdictOf_iff (verdict : List Char) (headerFrom : Option (List Char)) :
    (verdictOf P cfg senderDomain (some verdict) headerFrom).reason = "misaligned" ↔
      misaligned P senderDomain headerFrom = true := by
  rw [verdictOf]
  split
  · next h => exact iff_of_true rfl h
  · next h => exact iff_of_false (dmarcVerdict_reason_ne _).1 h

/-- Which mentions give the same verdict. -/
theorem verdictOf_eq_iff (verdict verdict' headerFrom headerFrom' : Option (List Char)) :
    verdictOf P cfg senderDomain verdict headerFrom =
        verdictOf P cfg senderDomain verdict' headerFrom' ↔
      verdict = verdict' ∧ (verdict = none ∨
        misaligned P senderDomain headerFrom = misaligned P senderDomain headerFrom') := by
  cases verdict with
  | none =>
    cases verdict' with
    | none => exact ⟨fun _ => ⟨rfl, Or.inl rfl⟩, fun _ => rfl⟩
    | some v' =>
      exact ⟨fun h => absurd h.symm (verdictOf_some_ne v' headerFrom'),
        fun h => absurd h.1 (Option.some_ne_none v').symm⟩
  | some v =>
    cases verdict' with
    | none =>
      exact ⟨fun h => absurd h (verdictOf_some_ne v headerFrom),
        fun h => absurd h.1 (Option.some_ne_none v)⟩
    | some v' =>
      constructor
      · intro h
        have hverdict := congrArg SenderAuthVerdict.dmarcVerdict h
        rw [dmarcVerdict_verdictOf, dmarcVerdict_verdictOf, String.ofList_inj] at hverdict
        refine ⟨congrArg some hverdict, Or.inr (Bool.eq_iff_iff.mpr ?_)⟩
        have hreason : (verdictOf P cfg senderDomain (some v) headerFrom).reason = "misaligned" ↔
            misaligned P senderDomain headerFrom = true := reason_verdictOf_iff v headerFrom
        rw [← hreason, h]
        exact reason_verdictOf_iff v' headerFrom'
      · rintro ⟨hverdict, hfrom⟩
        rw [hverdict, verdictOf, verdictOf, hfrom.resolve_left (Option.some_ne_none v)]

/-- A header of clauses is not blank. -/
theorem strip_lower_headerText_ne (hsep : P.KeepsSeparators) {clauses : List MethodClause}
    (hne : clauses ≠ []) : strip (P.lower (headerText clauses)) ≠ "" := by
  have hmem : '=' ∈ (headerText clauses).toList := by
    obtain ⟨c, clauses, rfl⟩ := List.exists_cons_of_ne_nil hne
    have hclause : '=' ∈ c.text := by
      simp [MethodClause.text, ResultPair.spaced, ResultPair.text]
    cases clauses <;> simp [headerText, List.intercalate, hclause]
  obtain ⟨front, back, hsplit⟩ := List.append_of_mem hmem
  have hlower := hsep.lower_append '=' (by decide) front back
  rw [← hsplit, String.ofList_toList] at hlower
  rw [strip_eq]
  intro hempty
  have hnil := congrArg String.toList hempty
  rw [String.toList_ofList] at hnil
  refine Ends.trim_ne_nil (a := '=') ?_ (by decide) hnil
  rw [hlower]
  exact List.mem_append_right _ List.mem_cons_self

/-- The verdict on a header comes from the first mentions in it. -/
theorem evaluate_eq_verdictOf (hP : P.Lowers) (hsep : P.KeepsSeparators)
    {clauses : List MethodClause} (hne : clauses ≠ []) {authAs : String}
    (hinternal : ¬ TrustedInternal P cfg authAs) :
    evaluateSenderAuthentication P cfg (headerText clauses) senderDomain authAs =
      verdictOf P cfg senderDomain (firstMention P (searchDmarc P) (headerPairs clauses))
        (firstMention P (searchHeaderFrom P) (headerPairs clauses)) := by
  unfold TrustedInternal at hinternal
  rw [evaluateSenderAuthentication, if_neg hinternal]
  simp only
  rw [if_neg (strip_lower_headerText_ne hsep hne),
    search_headerText (splits_dmarc hP hsep), search_headerText (splits_headerFrom hP hsep)]
  cases firstMention P (searchDmarc P) (headerPairs clauses) <;> rfl

end Verdicts

/-! ### A sample -/

namespace Sample

theorem mailPlatform_keepsSeparators : mailPlatform.KeepsSeparators where
  lower_append sep hsep front back := by
    have hlower : ∀ sep ∈ [' ', ';', '='], sep.toLower = sep := forall_mem_of_all (by decide)
    simp [mailPlatform, hlower sep hsep]
  isWord_eq_false := forall_mem_of_all (by decide)

def plainValue (text : String)
    (h : (text.toList.all fun c => decide (c ≠ ';' ∧ isPythonSpace c = false)) = true) :
    ResultValue where
  text := text
  clean := forall_mem_of_all h

/-- A domain of the sender's choice. -/
def otherDomain : ResultValue := plainValue "example.net" (by decide)

/-- What a sender may choose instead. -/
def forgedVerdict : ResultValue := plainValue "dmarc=pass" (by decide)

def mailfromPair (mailfrom : ResultValue) : ResultPair where
  name := "smtp.mailfrom"
  name_clean := forall_mem_of_all (by decide)
  value := mailfrom

def spfFailed : ResultPair where
  name := "spf"
  name_clean := forall_mem_of_all (by decide)
  value := plainValue "fail" (by decide)

/-- `spf=fail smtp.mailfrom=...; dmarc=fail header.from=example.com`. -/
def failedResults (mailfrom : ResultValue) : AuthenticationResults mailPlatform where
  before := [{ method := spfFailed, properties := [mailfromPair mailfrom] }]
  dmarc := dmarcClause (plainValue "fail" (by decide))
    (some (plainValue "example.com" (by decide)))
  after := []
  isDmarc := by decide
  not_before c hc := by
    obtain rfl := List.mem_singleton.mp hc
    exact (by decide : mailPlatform.lower "spf" ≠ "dmarc")
  not_after _ hc := absurd hc List.not_mem_nil

end Sample

/-! ### The DMARC clause -/

section Clause

variable {P : MailPlatform}

/-- The first pair of the header that mentions a result mentions that of the DMARC clause and, if
there is one, the first that mentions a domain is aligned when the domain of the DMARC clause is. -/
def FirstMentionsAgree (H : AuthenticationResults P) (senderDomain : String) : Prop :=
  firstMention P (searchDmarc P) (headerPairs H.clauses) =
      firstMention P (searchDmarc P) H.ownClause.pairs ∧
    (firstMention P (searchDmarc P) (headerPairs H.clauses) = none ∨
      misaligned P senderDomain (firstMention P (searchHeaderFrom P) (headerPairs H.clauses)) =
        misaligned P senderDomain (firstMention P (searchHeaderFrom P) H.ownClause.pairs))

/-- The verdict on a header is that on the result and the domain of its DMARC clause alone, exactly
when the mail is trusted as internal or the first mentions are those of the clause. -/
theorem verdict_of_clause_iff (hP : P.Lowers) (hsep : P.KeepsSeparators) (cfg : InboundSettings)
    (H : AuthenticationResults P) (senderDomain authAs : String) :
    evaluateSenderAuthentication P cfg (headerText H.clauses) senderDomain authAs =
        evaluateSenderAuthentication P cfg (headerText [H.ownClause]) senderDomain authAs ↔
      TrustedInternal P cfg authAs ∨ FirstMentionsAgree H senderDomain := by
  by_cases hinternal : TrustedInternal P cfg authAs
  · refine ⟨fun _ => Or.inl hinternal, fun _ => ?_⟩
    unfold TrustedInternal at hinternal
    rw [evaluateSenderAuthentication, evaluateSenderAuthentication, if_pos hinternal,
      if_pos hinternal]
  · have hclauses : H.clauses ≠ [] := by simp [AuthenticationResults.clauses]
    have hown : headerPairs [H.ownClause] = H.ownClause.pairs := by simp [headerPairs]
    rw [evaluate_eq_verdictOf hP hsep hclauses hinternal,
      evaluate_eq_verdictOf hP hsep (List.cons_ne_nil _ _) hinternal, hown, verdictOf_eq_iff]
    exact (or_iff_right hinternal).symm

/-- The clause of SPF mentions no other verdict. -/
theorem sample_verdict_of_clause :
    evaluateSenderAuthentication Sample.mailPlatform Sample.inboundSettings
        (headerText (Sample.failedResults Sample.otherDomain).clauses) "example.com" "" =
      evaluateSenderAuthentication Sample.mailPlatform Sample.inboundSettings
        (headerText [(Sample.failedResults Sample.otherDomain).ownClause])
        "example.com" "" :=
  (verdict_of_clause_iff Sample.mailPlatform_lowers Sample.mailPlatform_keepsSeparators
    Sample.inboundSettings (Sample.failedResults Sample.otherDomain) "example.com" "").mpr
    (Or.inr ⟨by decide, Or.inr (by decide)⟩)

/-- The address an unauthenticated sender gives decides that the mail is accepted. -/
theorem mailfrom_decides_verdict :
    (Sample.failedResults Sample.forgedVerdict).dmarc =
        (Sample.failedResults Sample.otherDomain).dmarc ∧
      (evaluateSenderAuthentication Sample.mailPlatform Sample.inboundSettings
        (headerText (Sample.failedResults Sample.forgedVerdict).clauses)
        "example.com" "").accepted = true ∧
      (evaluateSenderAuthentication Sample.mailPlatform Sample.inboundSettings
        (headerText (Sample.failedResults Sample.otherDomain).clauses)
        "example.com" "").accepted = false := by
  refine ⟨rfl, ?_, ?_⟩
  all_goals decide

/-! ### Silent clauses -/

/-- A pair that mentions neither a result nor a domain. -/
def Silent (P : MailPlatform) (p : ResultPair) : Prop :=
  mention P (searchDmarc P) p.text = none ∧ mention P (searchHeaderFrom P) p.text = none

theorem mention_congr (hsep : P.KeepsSeparators) (p q : ResultPair)
    (hname : P.lower p.name = P.lower q.name) (hvalue : p.value = q.value)
    (search : String → Option (List Char)) :
    mention P search p.text = mention P search q.text := by
  have hlower : P.lower (String.ofList p.text) = P.lower (String.ofList q.text) := by
    rw [← String.toList_inj, ResultPair.text, ResultPair.text, hsep.lower_append '=' (by decide),
      hsep.lower_append '=' (by decide), String.ofList_toList, String.ofList_toList,
      String.ofList_toList, hname, hvalue]
    simp
  rw [mention, mention, hlower]

/-- Where all but one pair are silent, the first mention is that of this pair. -/
theorem firstMention_eq_of_mem {search : String → Option (List Char)} {p : ResultPair}
    {pairs : List ResultPair} (hp : p ∈ pairs)
    (h : ∀ q ∈ pairs, q = p ∨ mention P search q.text = none) :
    firstMention P search pairs = mention P search p.text := by
  cases hmention : mention P search p.text with
  | none =>
    refine List.findSome?_eq_none_iff.mpr fun q hq => ?_
    rcases h q hq with rfl | hq
    · exact hmention
    · exact hq
  | some v =>
    induction pairs with
    | nil => exact absurd hp List.not_mem_nil
    | cons q pairs ih =>
      rw [firstMention, List.findSome?_cons]
      rcases h q List.mem_cons_self with rfl | hq
      · rw [hmention]
      · rw [hq]
        refine ih ?_ fun q' hq' => h q' (List.mem_cons_of_mem _ hq')
        rcases List.mem_cons.mp hp with rfl | hp
        · rw [hq] at hmention
          cases hmention
        · exact hp

/-- Where the other pairs find nothing, a search finds what it finds in the DMARC clause. -/
theorem firstMention_clauses (hP : P.Lowers) (hsep : P.KeepsSeparators)
    (H : AuthenticationResults P) {search : String → Option (List Char)}
    (hbefore : ∀ p ∈ headerPairs H.before, mention P search p.text = none)
    (hafter : ∀ p ∈ headerPairs H.after, mention P search p.text = none)
    (hown : ∀ p ∈ H.dmarc.properties, some p ≠ H.headerFrom → mention P search p.text = none) :
    firstMention P search (headerPairs H.clauses) = firstMention P search H.ownClause.pairs := by
  have hlower (name : String) (hname : ∀ c ∈ name.toList, c.toNat < 128)
      (hsame : name.toList.map Char.toLower = name.toList) : P.lower name = name := by
    rw [hP.lower_ascii name hname, hsame, String.ofList_toList]
  have hmethod : mention P search H.dmarc.method.text =
      mention P search (dmarcPair H.dmarc.method.value).text := by
    have hname : P.lower H.dmarc.method.name = P.lower "dmarc" :=
      H.isDmarc.trans (hlower "dmarc" (forall_mem_of_all (by decide)) (by decide)).symm
    exact mention_congr hsep H.dmarc.method (dmarcPair H.dmarc.method.value) hname rfl search
  have hproperties : firstMention P search H.dmarc.properties =
      firstMention P search ((H.headerFrom.map (·.value)).map headerFromPair).toList := by
    cases hfrom : H.headerFrom with
    | none =>
      refine List.findSome?_eq_none_iff.mpr fun p hp => hown p hp ?_
      rw [hfrom]
      exact Option.some_ne_none p
    | some p =>
      have hmem : p ∈ H.dmarc.properties := List.mem_of_find?_eq_some hfrom
      have hname : P.lower p.name = "header.from" := by simpa using List.find?_some hfrom
      rw [firstMention_eq_of_mem hmem fun q hq => or_iff_not_imp_left.mpr fun hqp =>
        hown q hq (by rw [hfrom]; exact fun h => hqp (Option.some.inj h))]
      have hsame : P.lower p.name = P.lower "header.from" :=
        hname.trans (hlower "header.from" (forall_mem_of_all (by decide)) (by decide)).symm
      have hpair : mention P search p.text = mention P search (headerFromPair p.value).text :=
        mention_congr hsep p (headerFromPair p.value) hsame rfl search
      rw [hpair, firstMention]
      cases hmention : mention P search (headerFromPair p.value).text <;> simp [hmention]
  have hsplit : headerPairs H.clauses =
      headerPairs H.before ++ (H.dmarc.method :: H.dmarc.properties ++ headerPairs H.after) := by
    simp [headerPairs, AuthenticationResults.clauses, MethodClause.pairs]
  have hnone {pairs : List ResultPair} (h : ∀ p ∈ pairs, mention P search p.text = none) :
      pairs.findSome? (fun p => mention P search p.text) = none :=
    List.findSome?_eq_none_iff.mpr h
  rw [firstMention] at hproperties
  rw [hsplit, firstMention, List.findSome?_append, hnone hbefore, Option.none_or,
    List.findSome?_append, hnone hafter, Option.or_none, List.findSome?_cons, hmethod,
    hproperties]
  rfl

/-- Clauses and properties that are silent do not change the verdict. -/
theorem firstMentionsAgree_of_silent (hP : P.Lowers) (hsep : P.KeepsSeparators)
    (H : AuthenticationResults P) (senderDomain : String)
    (hbefore : ∀ p ∈ headerPairs H.before, Silent P p)
    (hafter : ∀ p ∈ headerPairs H.after, Silent P p)
    (hown : ∀ p ∈ H.dmarc.properties, some p ≠ H.headerFrom → Silent P p) :
    FirstMentionsAgree H senderDomain := by
  refine ⟨?_, Or.inr ?_⟩
  · exact firstMention_clauses hP hsep H (fun p hp => (hbefore p hp).1)
      (fun p hp => (hafter p hp).1) fun p hp hne => (hown p hp hne).1
  · rw [firstMention_clauses hP hsep H (fun p hp => (hbefore p hp).2)
      (fun p hp => (hafter p hp).2) fun p hp hne => (hown p hp hne).2]

end Clause

end PushIT
