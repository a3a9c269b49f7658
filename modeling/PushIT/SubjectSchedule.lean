import PushIT.InboundChecks

/-!
# The date in the subject of a mail

`SEND_AT_SUBJECT_PATTERN` of `notifications/inbound_email.py` as the texts it matches, and what
`extract_subject_schedule` makes of a subject: the search and the substitution find the same
marker, the first one.

## Main definitions

* `IsMarker`: the texts the pattern matches.
* `FirstMarker`: where the search finds one.
* `SubjectScheduleRoundTrip`: what is to hold of the title and the date.

## Main results

* `searchMarker_eq_some_iff`, `searchMarker_eq_none_iff`: the search finds the first marker.
* `subject_schedule_round_trip`: what is written in a marker is read back.
-/

namespace PushIT

/-! ### Markers -/

/-- The letters of the marker, in either case. -/
def SpellsSendAt (letters : List Char) : Prop :=
  List.Forall₂ (fun c kind => c ∈ kind) letters sendAtLetters

/-- The texts that `SEND_AT_SUBJECT_PATTERN` matches, with the text between the colon and the
closing bracket. -/
structure IsMarker (content marker : List Char) : Prop where
  shape : ∃ blank letters blank', (∀ c ∈ blank, isPythonSpace c = true) ∧ SpellsSendAt letters ∧
    (∀ c ∈ blank', isPythonSpace c = true) ∧
    marker = '[' :: (blank ++ (letters ++ (blank' ++ ':' :: (content ++ [']']))))
  ne_nil : content ≠ []
  notMem : ']' ∉ content

/-- The marker stands behind the text `before`, in front of the text `rest`. -/
def MarkerAt (cs before content rest : List Char) : Prop :=
  ∃ marker, IsMarker content marker ∧ cs = before ++ marker ++ rest

/-- The first marker of a text. -/
structure FirstMarker (cs before content rest : List Char) : Prop where
  at_ : MarkerAt cs before content rest
  first : ∀ before' content' rest', MarkerAt cs before' content' rest' →
    before.length ≤ before'.length

section Search

variable {cs before content rest : List Char}

theorem dropLetters_eq_some_iff {kinds : List (List Char)} :
    dropLetters kinds cs = some rest ↔
      ∃ letters, List.Forall₂ (fun c kind => c ∈ kind) letters kinds ∧ cs = letters ++ rest := by
  induction kinds generalizing cs with
  | nil => simp [dropLetters, eq_comm]
  | cons kind kinds ih =>
    cases cs with
    | nil => simp [dropLetters, List.forall₂_cons_right_iff]
    | cons c cs =>
      rw [dropLetters]
      split_ifs with hc
      · rw [ih]
        constructor
        · rintro ⟨letters, hletters, rfl⟩
          exact ⟨c :: letters, .cons (by simpa using hc) hletters, rfl⟩
        · rintro ⟨letters, hletters, hcs⟩
          obtain ⟨c', letters', -, hletters', rfl⟩ := List.forall₂_cons_right_iff.mp hletters
          exact ⟨letters', hletters', (List.cons.inj hcs).2⟩
      · refine iff_of_false (by simp) ?_
        rintro ⟨letters, hletters, hcs⟩
        obtain ⟨c', letters', hc', -, rfl⟩ := List.forall₂_cons_right_iff.mp hletters
        obtain rfl := (List.cons.inj hcs).1
        exact hc (by simpa using hc')

/-- Spaces before something that is none are dropped. -/
theorem dropWhile_spaces {blank : List Char} {c : Char} (hblank : ∀ d ∈ blank, isPythonSpace d = true)
    (hc : isPythonSpace c = false) :
    (blank ++ c :: cs).dropWhile isPythonSpace = c :: cs := by
  rw [List.dropWhile_append_of_pos hblank, List.dropWhile_cons_of_neg (by simp [hc])]

/-- The marker starts with a letter. -/
theorem SpellsSendAt.cons {letters : List Char} (h : SpellsSendAt letters) :
    ∃ c letters', letters = c :: letters' ∧ isPythonSpace c = false := by
  obtain ⟨c, letters', hc, -, rfl⟩ := List.forall₂_cons_right_iff.mp h
  refine ⟨c, letters', rfl, ?_⟩
  simp only [List.mem_cons, List.not_mem_nil, or_false] at hc
  rcases hc with rfl | rfl | rfl <;> decide

/-- What is matched behind an opening bracket is the rest of a marker. -/
theorem matchMarker_eq_some_iff :
    matchMarker cs = some (content, rest) ↔
      ∃ marker, IsMarker content marker ∧ '[' :: cs = marker ++ rest := by
  unfold matchMarker
  rw [Option.bind_eq_some_iff]
  constructor
  · rintro ⟨afterLetters, hletters, h⟩
    obtain ⟨letters, hspells, hcs⟩ := dropLetters_eq_some_iff.mp hletters
    split at h
    · next afterColon hcolon =>
      obtain ⟨hsplit, hne⟩ := Option.filter_eq_some_iff.mp h
      obtain ⟨hafter, hnotMem⟩ := splitFirst_eq_some_iff.mp hsplit
      have hfront := List.takeWhile_append_dropWhile (p := isPythonSpace) (l := cs)
      have hback := List.takeWhile_append_dropWhile (p := isPythonSpace) (l := afterLetters)
      rw [hcs] at hfront
      rw [hcolon, hafter] at hback
      refine ⟨_, ⟨⟨cs.takeWhile isPythonSpace, letters, afterLetters.takeWhile isPythonSpace,
        fun c hc => List.mem_takeWhile_imp hc, hspells, fun c hc => List.mem_takeWhile_imp hc,
        rfl⟩, by simpa using hne, hnotMem⟩, ?_⟩
      have hcs' : cs = cs.takeWhile isPythonSpace ++ (letters ++
          (afterLetters.takeWhile isPythonSpace ++ ':' :: (content ++ ']' :: rest))) := by
        rw [hback, hfront]
      simpa only [List.cons_append, List.append_assoc, List.nil_append, List.cons.injEq, true_and]
        using hcs'
    · cases h
  · rintro ⟨marker, ⟨⟨blank, letters, blank', hblank, hspells, hblank', rfl⟩, hne, hnotMem⟩, heq⟩
    obtain ⟨c, letters', rfl, hc⟩ := hspells.cons
    obtain rfl : cs = blank ++ c :: (letters' ++ (blank' ++ ':' :: (content ++ ']' :: rest))) := by
      simpa using heq
    refine ⟨blank' ++ ':' :: (content ++ ']' :: rest), ?_, ?_⟩
    · rw [dropWhile_spaces hblank hc]
      exact dropLetters_eq_some_iff.mpr ⟨_, hspells, by simp⟩
    · rw [dropWhile_spaces hblank' (by decide)]
      simp [splitFirst_append hnotMem, hne]

/-- A marker starts with an opening bracket. -/
theorem IsMarker.cons {marker : List Char} (h : IsMarker content marker) :
    ∃ tail, marker = '[' :: tail := by
  obtain ⟨blank, letters, blank', -, -, -, rfl⟩ := h.shape
  exact ⟨_, rfl⟩

/-- A marker at the start of a text is what the pattern matches there. -/
theorem markerAt_nil_iff {c : Char} :
    MarkerAt (c :: cs) [] content rest ↔
      (if c = '[' then matchMarker cs else none) = some (content, rest) := by
  unfold MarkerAt
  split_ifs with hc
  · subst hc
    rw [matchMarker_eq_some_iff]
    rfl
  · refine iff_of_false ?_ (by simp)
    rintro ⟨marker, hmarker, heq⟩
    obtain ⟨tail, rfl⟩ := hmarker.cons
    exact hc (List.cons.inj heq).1

theorem markerAt_cons_iff {c d : Char} :
    MarkerAt (c :: cs) (d :: before) content rest ↔ d = c ∧ MarkerAt cs before content rest := by
  unfold MarkerAt
  constructor
  · rintro ⟨marker, hmarker, heq⟩
    obtain ⟨rfl, hcs⟩ := List.cons.inj heq
    exact ⟨rfl, marker, hmarker, hcs⟩
  · rintro ⟨rfl, marker, hmarker, rfl⟩
    exact ⟨marker, hmarker, rfl⟩

theorem not_markerAt_empty : ¬MarkerAt [] before content rest := by
  rintro ⟨marker, hmarker, heq⟩
  obtain ⟨tail, rfl⟩ := hmarker.cons
  simp at heq

/-- The search finds nothing where there is no marker. -/
theorem searchMarker_eq_none_iff :
    searchMarker cs = none ↔ ∀ before content rest, ¬MarkerAt cs before content rest := by
  induction cs with
  | nil => simp [searchMarker, not_markerAt_empty]
  | cons c cs ih =>
    rw [searchMarker]
    constructor
    · intro h
      split at h
      · cases h
      · next hnone =>
        have hrest := ih.mp (Option.map_eq_none_iff.mp h)
        intro before content rest hmarker
        cases before with
        | nil =>
          rw [markerAt_nil_iff, hnone] at hmarker
          cases hmarker
        | cons d before => exact hrest before content rest (markerAt_cons_iff.mp hmarker).2
    · intro h
      split
      · next content rest hmatch => exact absurd (markerAt_nil_iff.mpr hmatch) (h [] content rest)
      · rw [Option.map_eq_none_iff, ih]
        intro before content rest hmarker
        exact h (c :: before) content rest (markerAt_cons_iff.mpr ⟨rfl, hmarker⟩)

/-- Otherwise it finds the first marker. -/
theorem searchMarker_eq_some_iff :
    searchMarker cs = some (before, content, rest) ↔ FirstMarker cs before content rest := by
  induction cs generalizing before with
  | nil => exact iff_of_false (by simp [searchMarker]) fun h => not_markerAt_empty h.at_
  | cons c cs ih =>
    rw [searchMarker]
    constructor
    · intro h
      split at h
      · next content' rest' hmatch =>
        obtain ⟨rfl, rfl, rfl⟩ : [] = before ∧ content' = content ∧ rest' = rest := by
          simpa using h
        exact ⟨markerAt_nil_iff.mpr hmatch, fun _ _ _ _ => Nat.zero_le _⟩
      · next hnone =>
        obtain ⟨⟨before', content', rest'⟩, hsearch, heq⟩ := Option.map_eq_some_iff.mp h
        obtain ⟨rfl, rfl, rfl⟩ : c :: before' = before ∧ content' = content ∧ rest' = rest := by
          simpa using heq
        obtain ⟨hat, hfirst⟩ := ih.mp hsearch
        refine ⟨markerAt_cons_iff.mpr ⟨rfl, hat⟩, fun before content rest hmarker => ?_⟩
        cases before with
        | nil =>
          rw [markerAt_nil_iff, hnone] at hmarker
          cases hmarker
        | cons d before =>
          exact Nat.succ_le_succ (hfirst before content rest (markerAt_cons_iff.mp hmarker).2)
    · rintro ⟨hat, hfirst⟩
      cases before with
      | nil => rw [markerAt_nil_iff.mp hat]
      | cons d before =>
        obtain ⟨rfl, hat'⟩ := markerAt_cons_iff.mp hat
        have hnone : ∀ content rest, ¬MarkerAt (d :: cs) [] content rest :=
          fun content rest hmarker => absurd (hfirst [] content rest hmarker) (by simp)
        split
        · next content' rest' hmatch => exact absurd (markerAt_nil_iff.mpr hmatch) (hnone _ _)
        · rw [ih.mpr ⟨hat', fun before' content' rest' hmarker => ?_⟩]
          · rfl
          · exact Nat.le_of_succ_le_succ
              (hfirst (d :: before') content' rest' (markerAt_cons_iff.mpr ⟨rfl, hmarker⟩))

end Search

/-! ### The round trip -/

/-- What is to hold of the titles and dates: a date that is written in a marker is read back and
the marker is gone, without a marker there is no date, and a first marker that holds no aware
datetime is an error. -/
structure SubjectScheduleRoundTrip (P : MailPlatform) : Prop where
  marked : ∀ (t₁ t₂ s : String) (d : AwareDateTime), '[' ∉ t₁.toList → ']' ∉ s.toList →
    P.parseDatetime (strip s) = .ok (some (.aware d)) →
    extractSubjectSchedule P (t₁ ++ "[SEND_AT:" ++ s ++ "]" ++ t₂) =
      .ok (String.ofList (collapse (t₁ ++ t₂).toList), some d)
  unmarked : ∀ subject : String,
    (∀ before content rest, ¬MarkerAt subject.toList before content rest) →
    extractSubjectSchedule P subject = .ok (String.ofList (collapse subject.toList), none)
  rejected : ∀ (subject : String) before content rest,
    FirstMarker subject.toList before content rest →
    (∀ d, P.parseDatetime (strip (String.ofList content)) ≠ .ok (some (.aware d))) →
    ∃ text, extractSubjectSchedule P subject = .error text
  used : ∀ (subject : String) before content rest title date,
    FirstMarker subject.toList before content rest →
    extractSubjectSchedule P subject = .ok (title, date) →
    title = String.ofList (collapse (before ++ rest)) ∧
      ∃ d, date = some d ∧ P.parseDatetime (strip (String.ofList content)) = .ok (some (.aware d))

/-- The result where the search found a marker. -/
theorem extractSubjectSchedule_of_first {P : MailPlatform} {subject : String}
    {before content rest : List Char} (h : FirstMarker subject.toList before content rest) :
    extractSubjectSchedule P subject =
      match P.parseDatetime (strip (String.ofList content)) with
      | .error text => .error text
      | .ok (some (.aware d)) => .ok (String.ofList (collapse (before ++ rest)), some d)
      | .ok _ => .error invalidMarker := by
  rw [extractSubjectSchedule, searchMarker_eq_some_iff.mpr h] <;> rfl

/-- The first marker of a text with a marker behind a text without brackets. -/
theorem firstMarker_append {t₁ marker content : List Char} (ht : '[' ∉ t₁)
    (h : IsMarker content marker) (t₂ : List Char) :
    FirstMarker (t₁ ++ marker ++ t₂) t₁ content t₂ where
  at_ := ⟨marker, h, rfl⟩
  first before content' rest := by
    rintro ⟨marker', hmarker', heq⟩
    obtain ⟨tail', rfl⟩ := hmarker'.cons
    by_contra hlt
    rw [List.append_assoc, List.append_assoc] at heq
    rcases List.append_eq_append_iff.mp heq with ⟨front, rfl, -⟩ | ⟨back, rfl, hback⟩
    · simp at hlt
    · cases back with
      | nil => simp at hlt
      | cons c back =>
        obtain ⟨rfl, -⟩ := List.cons.inj hback
        simp at ht

/-- A marker as it is written. -/
theorem isMarker_sendAt {content : List Char} (hne : content ≠ []) (hmem : ']' ∉ content) :
    IsMarker content ("[SEND_AT:".toList ++ content ++ [']']) where
  shape := by
    refine ⟨[], "SEND_AT".toList, [], by simp, ?_, by simp, by simp⟩
    simp [SpellsSendAt, sendAtLetters]
  ne_nil := hne
  notMem := hmem

/-- The date in a subject is read back from its first marker. -/
theorem subject_schedule_round_trip (P : MailPlatform) (hempty : P.parseDatetime "" = .ok none) :
    SubjectScheduleRoundTrip P where
  marked t₁ t₂ s d ht hs hparse := by
    have hne : s.toList ≠ [] := by
      intro hnil
      obtain rfl : s = "" := by simpa using hnil
      have hstrip : strip "" = "" := by decide
      simp [hstrip, hempty] at hparse
    have hfirst := firstMarker_append ht (isMarker_sendAt hne hs) t₂.toList
    have hsubject : (t₁ ++ "[SEND_AT:" ++ s ++ "]" ++ t₂).toList =
        t₁.toList ++ ("[SEND_AT:".toList ++ s.toList ++ [']']) ++ t₂.toList := by
      simp
    rw [← hsubject] at hfirst
    rw [extractSubjectSchedule_of_first hfirst, String.ofList_toList, hparse, String.toList_append]
  unmarked subject hnone := by
    simp only [extractSubjectSchedule, searchMarker_eq_none_iff.mpr hnone]
  rejected subject before content rest hfirst hparse := by
    rw [extractSubjectSchedule_of_first hfirst]
    split
    · exact ⟨_, rfl⟩
    · next d hd => exact absurd hd (hparse d)
    · exact ⟨_, rfl⟩
  used subject before content rest title date hfirst h := by
    rw [extractSubjectSchedule_of_first hfirst] at h
    split at h
    · cases h
    · next d hd =>
      obtain ⟨rfl, rfl⟩ := Prod.mk.inj (Except.ok.inj h)
      exact ⟨rfl, d, rfl, hd⟩
    · cases h

namespace Sample

/-- A platform that reads one date. -/
def datedPlatform : MailPlatform :=
  { mailPlatform with
    parseDatetime := fun s =>
      .ok (if s = "2026-01-01T00:00:00Z" then some (.aware { instant := 1767225600000000 })
        else none) }

end Sample

theorem sample_subject_round_trip : SubjectScheduleRoundTrip Sample.datedPlatform :=
  subject_schedule_round_trip _ (by decide)

end PushIT
