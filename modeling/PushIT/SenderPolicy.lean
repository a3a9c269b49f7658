import PushIT.InboundChecks

/-!
# The sender policy of an application

The lists of senders (`applications/inbound_sender_policy.py`): an entry is trimmed, lowered and
validated when it is written, and trimmed and lowered again when a sender is compared with it.

## Main definitions

* `normalizeEntry`, `normalizeEntries`: what a list is stored as, or the errors.
* `SenderListed`: what an entry means.
* `SenderListsFaithful`, `PolicyMonotone`: what is to hold of the lists and of the decision.

## Main results

* `sender_lists_mean_labels`: an accepted list matches by labels, and so does its stored form.
* `sender_policy_monotone`: what longer lists and the other mode do to a decision.
-/

namespace PushIT

/-! ### Writing a list -/

/-- `MAX_SENDER_LIST_ENTRIES`. -/
def maxSenderListEntries : ℕ := 200

/-- `MAX_SENDER_ENTRY_LENGTH`. -/
def maxSenderEntryLength : ℕ := 254

section Normalize

variable (P : MailPlatform)

/-- `normalize_entry`: the entry, or the message of the `ValidationError`. -/
def normalizeEntry (raw : String) : Except String String :=
  let entry := P.lower (strip raw)
  if entry = "" then .error "Empty entry."
  else if entry.length > maxSenderEntryLength then
    .error ("Entry is too long: " ++ String.ofList (entry.toList.take 40) ++ "...")
  else if ['@'].isPrefixOf entry.toList then
    let domain :=
      if wildcardDomainPrefix.isPrefixOf entry.toList then
        entry.toList.drop wildcardDomainPrefix.length
      else entry.toList.drop 1
    if domain.contains '*' then
      .error ("Invalid domain entry (wildcard only as '@*.domain'): " ++ entry)
    else if domain = [] ∨ domain.contains '@' then .error ("Invalid domain entry: " ++ entry)
    else if P.isEmail ("probe@" ++ String.ofList domain) then .ok entry
    else .error ("Invalid domain entry: " ++ entry)
  else if entry.toList.contains '*' then
    .error ("Invalid e-mail address (wildcard only as '@*.domain'): " ++ entry)
  else if P.isEmail entry then .ok entry
  else .error ("Invalid e-mail address: " ++ entry)

/-- The loop of `normalize_entries`: the entries and the messages so far, and those of the values
that are left. -/
def normalizeLoop : List String → List String → List String → List String × List String
  | [], result, errors => (result, errors)
  | raw :: values, result, errors =>
    -- blank lines from a textarea are not errors
    if strip raw = "" then normalizeLoop values result errors
    else
      match normalizeEntry P raw with
      | .error message => normalizeLoop values result (errors ++ [message])
      | .ok entry =>
        normalizeLoop values (if result.contains entry then result else result ++ [entry]) errors

/-- `normalize_entries`: the list, or the messages of the `ValidationError`. -/
def normalizeEntries (values : Option (List String)) : Except (List String) (List String) :=
  match values with
  | none => .ok []
  | some values =>
    let (result, errors) := normalizeLoop P values [] []
    if errors ≠ [] then .error errors
    else if result.length > maxSenderListEntries then
      .error ["At most " ++ toString maxSenderListEntries ++ " entries are allowed."]
    else .ok result

end Normalize

/-! ### What an entry means -/

/-- The labels of a domain. -/
def labels (domain : List Char) : List (List Char) := domain.splitOn '.'

/-- The sender is the entry, or in the domain that the entry names, or in a domain whose labels are
or end with those of the domain that the entry names behind `@*.`. -/
def SenderListed (sender entry : List Char) : Prop :=
  entry = sender ∨ ∃ user domain, splitLast '@' sender = some (user, domain) ∧
    (entry = '@' :: domain ∨
      ∃ base, entry = wildcardDomainPrefix ++ base ∧ labels base <:+ labels domain)

/-- `EmailValidator` accepts no address without a domain behind its last `@`. -/
def MailPlatform.ValidatesEmail (P : MailPlatform) : Prop :=
  ∀ s, P.isEmail s = true → ∃ user domain, splitLast '@' s.toList = some (user, domain) ∧ domain ≠ []

/-- The entries of a list as they are compared, in order; blank values are none. -/
def listedEntries (P : MailPlatform) (raw : List String) : List String :=
  (raw.filter fun r => strip r ≠ "").map fun r => P.lower (strip r)

/-- What is to hold of a list of senders and of the list it is stored as. -/
structure SenderListsFaithful (P : MailPlatform) (raw entries : List String) : Prop where
  means : ∀ sender, senderMatches P sender raw = true ↔
    ∃ entry ∈ listedEntries P raw, SenderListed (P.lower (strip sender)).toList entry.toList
  stored : ∀ sender, senderMatches P sender entries = senderMatches P sender raw
  idempotent : normalizeEntries P (some entries) = .ok entries
  firsts : FirstOccurrences (listedEntries P raw) entries

/-! ### What is stored -/

section Stored

variable {P : MailPlatform} {raw entry : String} {values result errors entries : List String}

/-- An accepted entry is the value, trimmed and lowered. -/
theorem normalizeEntry_eq_ok (h : normalizeEntry P raw = .ok entry) :
    entry = P.lower (strip raw) := by
  simp only [normalizeEntry] at h
  split_ifs at h <;> exact (Except.ok.inj h).symm

theorem normalizeEntry_idem (hlower : P.Lowers) (h : normalizeEntry P raw = .ok entry) :
    normalizeEntry P entry = .ok entry := by
  have hentry := normalizeEntry_eq_ok h
  simp only [normalizeEntry] at h ⊢
  rw [hentry, hlower.lower_strip_idem, ← hentry]
  rwa [← hentry] at h

/-- The stored form of a value is not changed by trimming. -/
theorem strip_lower_strip (hlower : P.Lowers) (raw : String) :
    strip (P.lower (strip raw)) = P.lower (strip raw) :=
  hlower.strip_lower _ (strip_strip raw)

theorem lower_strip_eq_empty_iff (hlower : P.Lowers) :
    P.lower (strip raw) = "" ↔ strip raw = "" :=
  hlower.lower_eq_empty_iff _

/-- Without an error all values were accepted. -/
theorem normalizeLoop_accepted (h : normalizeLoop P values result errors = (entries, [])) :
    errors = [] ∧
      ∀ raw ∈ values, strip raw ≠ "" → normalizeEntry P raw = .ok (P.lower (strip raw)) := by
  induction values generalizing result errors with
  | nil => exact ⟨(Prod.mk.inj h).2, by simp⟩
  | cons value values ih =>
    rw [normalizeLoop] at h
    split at h
    · next hblank =>
      obtain ⟨herrors, haccepted⟩ := ih h
      exact ⟨herrors, List.forall_mem_cons.mpr ⟨fun hne => absurd hblank hne, haccepted⟩⟩
    · cases hentry : normalizeEntry P value with
      | error message =>
        rw [hentry] at h
        simpa using (ih h).1
      | ok entry =>
        rw [hentry] at h
        obtain ⟨herrors, haccepted⟩ := ih h
        refine ⟨herrors, List.forall_mem_cons.mpr ⟨fun _ => ?_, haccepted⟩⟩
        rw [hentry, normalizeEntry_eq_ok hentry]

/-- When all values are accepted, the loop collects their first occurrences. -/
theorem normalizeLoop_firsts (errors : List String) {before : List String}
    (h : ∀ raw ∈ values, strip raw ≠ "" → normalizeEntry P raw = .ok (P.lower (strip raw)))
    (hfirsts : FirstOccurrences before result) :
    ∃ entries, normalizeLoop P values result errors = (entries, errors) ∧
      FirstOccurrences (before ++ listedEntries P values) entries := by
  induction values generalizing before result with
  | nil => exact ⟨result, rfl, by simpa [listedEntries] using hfirsts⟩
  | cons value values ih =>
    obtain ⟨hvalue, hvalues⟩ := List.forall_mem_cons.mp h
    rw [normalizeLoop]
    split_ifs with hblank
    · have hlisted : listedEntries P (value :: values) = listedEntries P values := by
        simp [listedEntries, hblank]
      rw [hlisted]
      exact ih hvalues hfirsts
    · have hlisted : before ++ listedEntries P (value :: values) =
          (before ++ [P.lower (strip value)]) ++ listedEntries P values := by
        simp [listedEntries, hblank]
      rw [hvalue hblank, hlisted]
      refine ih hvalues ?_
      split_ifs with hmem
      · exact hfirsts.snoc_old (by simpa using hmem)
      · exact hfirsts.snoc_new (by simpa using hmem)

/-- An accepted list: all its values are accepted, and their first occurrences are stored. -/
theorem normalizeEntries_eq_ok (h : normalizeEntries P (some values) = .ok entries) :
    (∀ raw ∈ values, strip raw ≠ "" → normalizeEntry P raw = .ok (P.lower (strip raw))) ∧
      FirstOccurrences (listedEntries P values) entries ∧
      entries.length ≤ maxSenderListEntries := by
  simp only [normalizeEntries] at h
  split_ifs at h with herrors hlong
  obtain rfl := Except.ok.inj h
  have hloop : normalizeLoop P values [] [] = ((normalizeLoop P values [] []).1, []) :=
    Prod.ext rfl (not_not.mp herrors)
  have haccepted := (normalizeLoop_accepted hloop).2
  obtain ⟨entries, hentries, hfirsts⟩ :=
    normalizeLoop_firsts [] haccepted FirstOccurrences.nil
  rw [hentries] at hlong ⊢
  exact ⟨haccepted, hfirsts, not_lt.mp hlong⟩

/-- The stored list, when all values are accepted. -/
theorem normalizeEntries_of_firsts
    (h : ∀ raw ∈ values, strip raw ≠ "" → normalizeEntry P raw = .ok (P.lower (strip raw)))
    (hfirsts : FirstOccurrences (listedEntries P values) entries)
    (hlength : entries.length ≤ maxSenderListEntries) :
    normalizeEntries P (some values) = .ok entries := by
  obtain ⟨entries', hentries, hfirsts'⟩ :=
    normalizeLoop_firsts [] h FirstOccurrences.nil
  obtain rfl := hfirsts.unique hfirsts'
  simp [normalizeEntries, hentries, not_lt.mpr hlength]

end Stored

/-! ### Matching -/

/-- What the entries of an accepted list look like when they are compared. -/
inductive EntryShape (entry : List Char) : Prop
  | wildcard (base : List Char) (hne : base ≠ []) (hat : '@' ∉ base)
      (h : entry = wildcardDomainPrefix ++ base)
  | domain (domain : List Char) (hne : domain ≠ []) (hat : '@' ∉ domain) (hstar : '*' ∉ domain)
      (h : entry = '@' :: domain)
  | address (user domain : List Char) (hne : domain ≠ []) (hstar : '*' ∉ entry)
      (hfirst : ¬['@'] <+: entry) (h : splitLast '@' entry = some (user, domain))

theorem entryShape_of_normalizeEntry {P : MailPlatform} (hemail : P.ValidatesEmail)
    {raw entry : String} (h : normalizeEntry P raw = .ok entry) : EntryShape entry.toList := by
  have hentry := normalizeEntry_eq_ok h
  simp only [normalizeEntry, ← hentry] at h
  split_ifs at h with hempty hlong hat hwild hstar hdomain hvalid hstar hdomain hvalid hstar hvalid
  · rw [List.isPrefixOf_iff_prefix] at hwild
    obtain ⟨base, hbase⟩ := hwild
    simp only [← hbase, List.drop_left, not_or, List.contains_iff_mem] at hstar hdomain
    exact .wildcard base hdomain.1 hdomain.2 hbase.symm
  · rw [List.isPrefixOf_iff_prefix] at hat
    obtain ⟨domain, hdomain'⟩ := hat
    simp only [← hdomain', List.singleton_append, List.drop_one, List.tail_cons, not_or,
      List.contains_iff_mem] at hstar hdomain
    exact .domain domain hdomain.1 hdomain.2 hstar hdomain'.symm
  · rw [List.isPrefixOf_iff_prefix] at hat
    rw [List.contains_iff_mem] at hstar
    obtain ⟨user, domain, hsplit, hne⟩ := hemail entry hvalid
    exact .address user domain hne hstar hat hsplit

section Matching

variable {P : MailPlatform} {sender user domain : List Char} {entry : String}

/-- The wildcard that is taken for a sender. -/
theorem splitLast_wildcard {base : List Char} (hat : '@' ∉ base) :
    splitLast '@' (wildcardDomainPrefix ++ base) = some ([], '*' :: '.' :: base) :=
  splitLast_eq_some_iff.mpr ⟨rfl, by simpa using hat⟩

/-- A text with a star behind its first `@` only as the wildcard has. -/
theorem not_wildcard_of_star {e : List Char} (h : '*' ∉ e) : ¬wildcardDomainPrefix <+: e :=
  fun hwild => h (hwild.subset (by decide))

/-- Whether a sender is listed by an entry that is no wildcard. -/
theorem senderListed_iff_of_not_wildcard {e : List Char}
    (hsplit : splitLast '@' sender = some (user, domain)) (hwild : ¬wildcardDomainPrefix <+: e) :
    SenderListed sender e ↔ e = sender ∨ e = '@' :: domain := by
  have hbase : ∀ base, e ≠ wildcardDomainPrefix ++ base := by
    rintro base rfl
    exact hwild (List.prefix_append _ _)
  simp [SenderListed, hsplit, hbase]

/-- Whether a sender is listed by a wildcard. -/
theorem senderListed_wildcard_iff {base : List Char}
    (hsplit : splitLast '@' sender = some (user, domain)) (hat : '@' ∉ base) :
    SenderListed sender (wildcardDomainPrefix ++ base) ↔ domain = base ∨ '.' :: base <:+ domain := by
  have hstar : '.' :: base <:+ '*' :: '.' :: base := List.suffix_cons _ _
  constructor
  · rintro (rfl | ⟨user', domain', hsplit', hentry⟩)
    · rw [splitLast_wildcard hat] at hsplit
      obtain ⟨rfl, rfl⟩ := Prod.mk.inj (Option.some.inj hsplit)
      exact Or.inr hstar
    · obtain ⟨rfl, rfl⟩ := Prod.mk.inj (Option.some.inj (hsplit.symm.trans hsplit'))
      rcases hentry with hdomain | ⟨base', hbase, hlabels⟩
      · obtain rfl : '*' :: '.' :: base = domain := (List.cons.inj hdomain).2
        exact Or.inr hstar
      · obtain rfl := List.append_cancel_left hbase
        exact Labels.suffix_iff.mp hlabels
  · intro h
    exact Or.inr ⟨user, domain, hsplit, Or.inr ⟨base, rfl, Labels.suffix_iff.mpr h⟩⟩

/-- Comparing a sender that has a domain with an entry. -/
theorem entryMatches_iff (hsplit : splitLast '@' sender = some (user, domain))
    (hshape : EntryShape (P.lower (strip entry)).toList) :
    entryMatches P sender domain entry = true ↔
      SenderListed sender (P.lower (strip entry)).toList := by
  unfold entryMatches
  generalize (P.lower (strip entry)).toList = e at hshape ⊢
  by_cases hwild : wildcardDomainPrefix <+: e
  · cases hshape with
    | wildcard base hbase hat h =>
      subst h
      rw [senderListed_wildcard_iff hsplit hat]
      simp [hbase]
    | domain d hd hat hstar h =>
      subst h
      refine absurd hwild (not_wildcard_of_star ?_)
      simpa using hstar
    | address _ _ _ hstar => exact absurd hwild (not_wildcard_of_star hstar)
  · rw [senderListed_iff_of_not_wildcard hsplit hwild]
    simp [hwild]

/-- A blank value is never taken for a sender. -/
theorem entryMatches_blank (hlower : P.Lowers) (hsplit : splitLast '@' sender = some (user, domain))
    (hblank : strip entry = "") : entryMatches P sender domain entry = false := by
  have hempty : P.lower (strip entry) = "" := (hlower.lower_eq_empty_iff _).mpr hblank
  have hsender : sender ≠ [] := by
    rintro rfl
    simp [splitLast, splitFirst] at hsplit
  simpa [entryMatches, hempty, wildcardDomainPrefix] using hsender

/-- A sender without a domain is listed nowhere. -/
theorem not_senderListed {e : List Char}
    (h : ∀ user domain, splitLast '@' sender = some (user, domain) → domain = [])
    (hshape : EntryShape e) : ¬SenderListed sender e := by
  rintro (rfl | ⟨user, domain, hsplit, hentry⟩)
  · cases hshape with
    | wildcard base hbase hat h' =>
      subst h'
      simpa using h _ _ (splitLast_wildcard hat)
    | domain d hd hat hstar h' =>
      subst h'
      exact hd (h [] d (splitLast_eq_some_iff.mpr ⟨rfl, hat⟩))
    | address user domain hdomain _ _ hsplit => exact hdomain (h user domain hsplit)
  · obtain rfl := h user domain hsplit
    rcases hentry with rfl | ⟨base, rfl, hlabels⟩
    · cases hshape with
      | wildcard base hbase hat h' => simp [wildcardDomainPrefix] at h'
      | domain d hd hat hstar h' => exact hd (List.cons.inj h').2.symm
      | address _ _ _ _ hfirst => exact hfirst (List.prefix_append _ _)
    · have hbase : base = [] := by simpa [eq_comm] using Labels.suffix_iff.mp hlabels
      subst hbase
      cases hshape with
      | wildcard base hbase hat h' => exact hbase (List.append_cancel_left h').symm
      | domain d hd hat hstar h' => exact hstar ((List.cons.inj h').2 ▸ by decide)
      | address _ _ _ hstar => exact hstar (by decide)

/-- Comparing a sender with the values of a list. -/
theorem senderMatches_iff (hlower : P.Lowers) {raw : List String} {sender : String}
    (hshape : ∀ entry ∈ listedEntries P raw, EntryShape entry.toList) :
    senderMatches P sender raw = true ↔
      ∃ entry ∈ listedEntries P raw, SenderListed (P.lower (strip sender)).toList entry.toList := by
  by_cases hno : ∀ user domain, splitLast '@' (P.lower (strip sender)).toList = some (user, domain) →
      domain = []
  · have hfalse : senderMatches P sender raw = false := by
      simp only [senderMatches]
      split
      · rfl
      · next user domain hsplit => simp [hno user domain hsplit]
    refine iff_of_false (by simp [hfalse]) ?_
    rintro ⟨entry, hentry, hsender⟩
    exact not_senderListed hno (hshape entry hentry) hsender
  · push Not at hno
    obtain ⟨user, domain, hsplit, hne⟩ := hno
    have hany : senderMatches P sender raw =
        raw.any (entryMatches P (P.lower (strip sender)).toList domain) := by
      simp [senderMatches, hsplit, hne]
    rw [hany, List.any_eq_true]
    constructor
    · rintro ⟨r, hr, hmatch⟩
      by_cases hblank : strip r = ""
      · rw [entryMatches_blank hlower hsplit hblank] at hmatch
        cases hmatch
      · have hmem : P.lower (strip r) ∈ listedEntries P raw :=
          List.mem_map.mpr ⟨r, List.mem_filter.mpr ⟨hr, by simpa using hblank⟩, rfl⟩
        exact ⟨_, hmem, (entryMatches_iff hsplit (hshape _ hmem)).mp hmatch⟩
    · rintro ⟨entry, hentry, hsender⟩
      obtain ⟨r, hr, rfl⟩ := List.mem_map.mp hentry
      exact ⟨r, (List.mem_filter.mp hr).1,
        (entryMatches_iff hsplit (hshape _ hentry)).mpr hsender⟩

end Matching

/-! ### The lists -/

/-- An accepted list of senders matches a sender by its address or the labels of its domain, and so
does the list it is stored as, which holds the first occurrences of its entries and is accepted
as it is. -/
theorem sender_lists_mean_labels (P : MailPlatform) (hlower : P.Lowers) (hemail : P.ValidatesEmail)
    (raw entries : List String) (h : normalizeEntries P (some raw) = .ok entries) :
    SenderListsFaithful P raw entries := by
  obtain ⟨haccepted, hfirsts, hlength⟩ := normalizeEntries_eq_ok h
  have hnormal : ∀ entry ∈ listedEntries P raw, normalizeEntry P entry = .ok entry ∧
      strip entry = entry ∧ P.lower entry = entry ∧ entry ≠ "" := by
    intro entry hentry
    obtain ⟨r, hr, rfl⟩ := List.mem_map.mp hentry
    have hblank : strip r ≠ "" := by simpa using (List.mem_filter.mp hr).2
    exact ⟨normalizeEntry_idem hlower (haccepted r (List.mem_filter.mp hr).1 hblank),
      strip_lower_strip hlower r, hlower.lower_lower _,
      (lower_strip_eq_empty_iff hlower).not.mpr hblank⟩
  have hshape : ∀ entry ∈ listedEntries P raw, EntryShape entry.toList :=
    fun entry hentry => entryShape_of_normalizeEntry hemail (hnormal entry hentry).1
  -- the stored entries are compared as they are
  have hstored : listedEntries P entries = entries := by
    have hall : ∀ entry ∈ entries, strip entry = entry ∧ P.lower entry = entry ∧ entry ≠ "" :=
      fun entry hentry => (hnormal entry ((hfirsts.mem_iff entry).mp hentry)).2
    unfold listedEntries
    rw [List.filter_eq_self.mpr fun entry hentry => by simp [hall entry hentry]]
    have hmap : entries.map (fun r => P.lower (strip r)) = entries.map id :=
      List.map_congr_left fun entry hentry => by
        rw [(hall entry hentry).1, (hall entry hentry).2.1, id]
    rw [hmap, List.map_id]
  refine ⟨fun sender => senderMatches_iff hlower hshape, fun sender => ?_, ?_, hfirsts⟩
  · rw [Bool.eq_iff_iff, senderMatches_iff hlower hshape, senderMatches_iff hlower, hstored]
    · simp only [hfirsts.mem_iff]
    · intro entry hentry
      rw [hstored] at hentry
      exact hshape entry ((hfirsts.mem_iff entry).mp hentry)
  · refine normalizeEntries_of_firsts ?_ ?_ hlength
    · intro entry hentry _
      have hentry' := hnormal entry ((hfirsts.mem_iff entry).mp hentry)
      rw [hentry'.2.1, hentry'.2.2.1]
      exact hentry'.1
    · rw [hstored]
      exact FirstOccurrences.refl hfirsts.nodup

namespace Sample

/-- The platform for plain texts, with addresses that have a domain. -/
def addressPlatform : MailPlatform :=
  { mailPlatform with isEmail := fun s => (splitLast '@' s.toList).any fun parts => parts.2 != [] }

theorem addressPlatform_lowers : addressPlatform.Lowers where
  lower_lower := mailPlatform_lowers.lower_lower
  lower_ascii := mailPlatform_lowers.lower_ascii
  lower_append := mailPlatform_lowers.lower_append
  strip_lower := mailPlatform_lowers.strip_lower
  lower_eq_empty_iff := mailPlatform_lowers.lower_eq_empty_iff

theorem addressPlatform_validatesEmail : addressPlatform.ValidatesEmail := by
  intro s hs
  obtain ⟨⟨user, domain⟩, hsplit, hdomain⟩ := (Option.any_eq_true _ _).mp hs
  exact ⟨user, domain, hsplit, by simpa using hdomain⟩

end Sample

theorem sample_lists_mean_labels :
    SenderListsFaithful Sample.addressPlatform
      [" Alice@Example.com ", "@*.Corp.example", "", "alice@example.com"]
      ["alice@example.com", "@*.corp.example"] :=
  sender_lists_mean_labels _ Sample.addressPlatform_lowers Sample.addressPlatform_validatesEmail _ _
    (by decide +kernel)

/-! ### The decision -/

/-- The sender writes from the address of the owner's account. -/
def IsOwnAddress (P : MailPlatform) (ownerEmail sender : String) : Prop :=
  P.lower (strip ownerEmail) ≠ "" ∧ P.lower (strip sender) = P.lower (strip ownerEmail)

/-- What is to hold of the decision on a sender: longer lists and the other mode move it in one
direction, and of the lists only their members count. -/
structure PolicyMonotone (P : MailPlatform) (ownerEmail : String) (a : ConsoleApplication)
    (sender : String) : Prop where
  owner : IsOwnAddress P ownerEmail sender →
    evaluateSenderPolicy P ownerEmail a sender = .accepted .owner
  blocklist : ∀ entries, a.inboundSenderBlocklist ⊆ entries →
    (evaluateSenderPolicy P ownerEmail a sender).isAccepted = false →
    (evaluateSenderPolicy P ownerEmail { a with inboundSenderBlocklist := entries }
      sender).isAccepted = false
  allowlist : ∀ entries, a.inboundSenderAllowlist ⊆ entries →
    (evaluateSenderPolicy P ownerEmail a sender).isAccepted = true →
    (evaluateSenderPolicy P ownerEmail { a with inboundSenderAllowlist := entries }
      sender).isAccepted = true
  mode : a.inboundSenderMode = .owner →
    (evaluateSenderPolicy P ownerEmail a sender).isAccepted = true →
    (evaluateSenderPolicy P ownerEmail { a with inboundSenderMode := .anyone }
      sender).isAccepted = true
  blocked : senderMatches P sender a.inboundSenderBlocklist = true →
    ¬IsOwnAddress P ownerEmail sender →
    evaluateSenderPolicy P ownerEmail a sender = .refused .blocklisted
  members : ∀ allowlist blocklist, (∀ e, e ∈ allowlist ↔ e ∈ a.inboundSenderAllowlist) →
    (∀ e, e ∈ blocklist ↔ e ∈ a.inboundSenderBlocklist) →
    evaluateSenderPolicy P ownerEmail
      { a with inboundSenderAllowlist := allowlist, inboundSenderBlocklist := blocklist } sender =
        evaluateSenderPolicy P ownerEmail a sender

section Decision

variable {P : MailPlatform} {sender ownerEmail : String} {entries entries' : List String}

/-- A sender that a list matches is matched by a longer one. -/
theorem senderMatches_mono (h : entries ⊆ entries') (hmatch : senderMatches P sender entries = true) :
    senderMatches P sender entries' = true := by
  simp only [senderMatches] at hmatch ⊢
  split at hmatch
  · cases hmatch
  · next user domain hsplit =>
    rw [Bool.and_eq_true, List.any_eq_true] at hmatch ⊢
    obtain ⟨hdomain, entry, hentry, hmatch⟩ := hmatch
    exact ⟨hdomain, entry, h hentry, hmatch⟩

theorem senderMatches_congr (h : ∀ e, e ∈ entries ↔ e ∈ entries') :
    senderMatches P sender entries = senderMatches P sender entries' := by
  rw [Bool.eq_iff_iff]
  exact ⟨senderMatches_mono fun e => (h e).mp, senderMatches_mono fun e => (h e).mpr⟩

/-- The sender is compared with the lists as it was sent. -/
theorem senderMatches_lower_strip (hlower : P.Lowers) :
    senderMatches P (P.lower (strip sender)) entries = senderMatches P sender entries := by
  simp only [senderMatches, hlower.lower_strip_idem]

variable {a : ConsoleApplication}

/-- Who is accepted: the owner, and who is not blocked where anyone may send or who is allowed. -/
theorem isAccepted_iff (hlower : P.Lowers) :
    (evaluateSenderPolicy P ownerEmail a sender).isAccepted = true ↔
      IsOwnAddress P ownerEmail sender ∨
        senderMatches P sender a.inboundSenderBlocklist = false ∧
          (a.inboundSenderMode = .anyone ∨
            senderMatches P sender a.inboundSenderAllowlist = true) := by
  simp only [evaluateSenderPolicy, senderMatches_lower_strip hlower, IsOwnAddress]
  split_ifs with howner hblock hmode hallow <;>
    simp [SenderPolicyDecision.isAccepted, *]

/-- Of the lists the decision takes only whether they match the sender. -/
theorem evaluateSenderPolicy_congr (hlower : P.Lowers) {a' : ConsoleApplication}
    (hmode : a'.inboundSenderMode = a.inboundSenderMode)
    (hallow : senderMatches P sender a'.inboundSenderAllowlist =
      senderMatches P sender a.inboundSenderAllowlist)
    (hblock : senderMatches P sender a'.inboundSenderBlocklist =
      senderMatches P sender a.inboundSenderBlocklist) :
    evaluateSenderPolicy P ownerEmail a' sender = evaluateSenderPolicy P ownerEmail a sender := by
  simp only [evaluateSenderPolicy, senderMatches_lower_strip hlower, hmode, hallow, hblock]

end Decision

/-- The sender policy is monotone: the owner is always accepted, a blocked sender never, a longer
blocklist accepts no more senders, a longer allowlist and the open mode no fewer, and the order and
the repetitions in the lists do not count. -/
theorem sender_policy_monotone (P : MailPlatform) (hlower : P.Lowers) (ownerEmail : String)
    (a : ConsoleApplication) (sender : String) : PolicyMonotone P ownerEmail a sender where
  owner := by
    rintro ⟨hne, howner⟩
    simp [evaluateSenderPolicy, hne, howner]
  blocklist entries hlonger hrefused := by
    rw [Bool.eq_false_iff, Ne, isAccepted_iff hlower] at hrefused ⊢
    rintro (howner | ⟨hblock, hopen⟩)
    · exact hrefused (Or.inl howner)
    · refine hrefused (Or.inr ⟨Bool.eq_false_iff.mpr fun hmatch => ?_, hopen⟩)
      rw [senderMatches_mono hlonger hmatch] at hblock
      cases hblock
  allowlist entries hlonger haccepted := by
    rw [isAccepted_iff hlower] at haccepted ⊢
    exact haccepted.imp_right fun ⟨hblock, hopen⟩ =>
      ⟨hblock, hopen.imp_right (senderMatches_mono hlonger)⟩
  mode _ haccepted := by
    rw [isAccepted_iff hlower] at haccepted ⊢
    exact haccepted.imp_right fun ⟨hblock, _⟩ => ⟨hblock, Or.inl rfl⟩
  blocked hmatch hnot := by
    have hnot' : ¬(P.lower (strip ownerEmail) ≠ "" ∧
        P.lower (strip sender) = P.lower (strip ownerEmail)) := hnot
    simp only [evaluateSenderPolicy, senderMatches_lower_strip hlower]
    rw [if_neg hnot', if_pos hmatch]
  members allowlist blocklist hallow hblock :=
    evaluateSenderPolicy_congr hlower rfl (senderMatches_congr hallow) (senderMatches_congr hblock)

namespace Sample

/-- An application that blocks a part of the domain it allows. -/
def policyApplication : ConsoleApplication where
  id := 1
  ownerId := 1
  appTokenPrefix := "apt_"
  appTokenHash := "h"
  enrolmentCode := "apk_"
  inboundEmailAlias := "app-1.pushit"
  inboundEmailSuffix := "1"
  webhookSecret := "whs_"
  inboundSenderAllowlist := ["@*.partner.example"]
  inboundSenderBlocklist := ["@*.spam.partner.example"]

end Sample

theorem sample_policy_monotone :
    PolicyMonotone Sample.mailPlatform "owner@example.com" Sample.policyApplication
      "x@eu.spam.partner.example" :=
  sender_policy_monotone _ Sample.mailPlatform_lowers _ _ _

end PushIT
