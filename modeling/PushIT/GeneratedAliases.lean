import PushIT.InboundChecks

/-!
# The aliases of applications

`generate_alias` and `random_part_of` of `applications/inbound_alias.py`, and the loop of
`Application.save` that allocates an alias: the name of the application is cut to what the random
part and the suffix leave of a local part, and the random part is read back from the alias.

## Main definitions

* `generateAlias`, `randomPartOf`: an alias, and its random part.
* `allocate`: the alias and the suffix a save stores.
* `AliasesRecognised`: what is to hold of the aliases.

## Main results

* `generated_aliases_recognised`: an alias fits a local part and has the current format, and its
  random part is read back from it.
* `allocated_recognised`: so it is with every alias that a save stores.
-/

namespace PushIT

/-! ### Generation -/

/-- The characters of a slug. -/
def isSlugChar (c : Char) : Bool :=
  ('a' ≤ c ∧ c ≤ 'z') || ('0' ≤ c ∧ c ≤ '9') || c == '_' || c == '-'

/-- The digits of `secrets.token_hex`. -/
def isHexDigit (c : Char) : Bool := ('0' ≤ c ∧ c ≤ '9') || ('a' ≤ c ∧ c ≤ 'f')

/-- `ALIAS_RANDOM_BYTES`. -/
def aliasRandomBytes : ℕ := 4

/-- `MAX_LOCAL_PART_LENGTH`. -/
def maxLocalPartLength : ℕ := 64

/-- `DEFAULT_SLUG`. -/
def defaultSlug : List Char := "app".toList

/-- `secrets.token_hex(ALIAS_RANDOM_BYTES)` returns a text of this kind. -/
def IsRandomPart (r : String) : Prop :=
  r.length = 2 * aliasRandomBytes ∧ ∀ c ∈ r.toList, isHexDigit c = true

instance (r : String) : Decidable (IsRandomPart r) :=
  haveI := List.decidableBAll (fun c => isHexDigit c = true) r.toList
  instDecidableAnd

/-- `re.sub(r"-+", "-", text)`. -/
def collapseDashes : List Char → List Char
  | [] => []
  | c :: cs => if c = '-' ∧ cs.head? = some '-' then collapseDashes cs else c :: collapseDashes cs

/-- `text.strip("-")`. -/
def stripDashes (cs : List Char) : List Char := Ends.trim (· == '-') cs

/-- `text or default`. -/
def orDefault (default text : List Char) : List Char := if text = [] then default else text

section Alias

variable (P : MailPlatform) (cfg : InboundSettings) (slugify : String → String)

/-- `generate_alias`, with the random part it draws. -/
def generateAlias (name randomPart : String) : String :=
  let suffix := aliasSuffixOf P cfg
  let slug := orDefault defaultSlug (stripDashes (collapseDashes (slugify name).toList))
  -- keep the local part within 64 characters: slug, "-", random part and suffix
  let room : ℤ := maxLocalPartLength - 1 - randomPart.length - suffix.length
  let kept := (max room 1).toNat
  let slug := orDefault (defaultSlug.take kept) (stripDashes (slug.take kept))
  String.ofList slug ++ "-" ++ randomPart ++ suffix

/-- `random_part_of`, which `Application._suffix_of` calls. -/
def randomPartOf (alias_ : String) : String :=
  let alias_ := (P.lower alias_).toList
  let suffix := (aliasSuffixOf P cfg).toList
  if suffix != [] && suffix.isSuffixOf alias_ then
    String.ofList (afterLast '-' (alias_.take (alias_.length - suffix.length)))
  -- legacy `app_<slug>_<hex>`, and the older free-form aliases
  else String.ofList (afterLast '_' alias_)

/-- The exceptions of an allocation: the last `IntegrityError`, or `RuntimeError` when there was
none. -/
inductive AllocationError
  | integrity
  | runtime (message : String)
  deriving DecidableEq, Repr

/-- The attempts of `Application.save` to allocate an alias. -/
def allocationAttempts : ℕ := 12

/-- The loop of `Application.save` over the random parts it draws: the alias and the suffix that
are stored.  `stores` says whether the unique constraints admit them. -/
def allocateLoop (name : String) (stores : String → String → Bool) :
    List String → Bool → Except AllocationError (String × String)
  | [], refused =>
    .error (if refused then .integrity
      else .runtime "Could not allocate an inbound email alias.")
  | r :: draws, refused =>
    let alias_ := generateAlias P cfg slugify name r
    -- never hand out the polled mailbox's own address as an alias
    if (mailboxAddresses P cfg).contains (alias_ ++ "@" ++ inboundDomain P cfg) then
      allocateLoop name stores draws refused
    else if stores alias_ (randomPartOf P cfg alias_) then
      .ok (alias_, randomPartOf P cfg alias_)
    else allocateLoop name stores draws true

/-- The allocation of an alias by `Application.save`. -/
def allocate (name : String) (stores : String → String → Bool) (draws : List String) :
    Except AllocationError (String × String) :=
  allocateLoop P cfg slugify name stores (draws.take allocationAttempts) false

/-- What is to hold of the aliases. -/
structure AliasesRecognised : Prop where
  bounded : ∀ name r, IsRandomPart r →
    (generateAlias P cfg slugify name r).length ≤ maxLocalPartLength
  current : ∀ name r, IsRandomPart r → isCurrentFormat P cfg (generateAlias P cfg slugify name r)
  recovered : ∀ name r, IsRandomPart r → ∀ alias_,
    P.lower alias_ = P.lower (generateAlias P cfg slugify name r) → randomPartOf P cfg alias_ = r
  distinct : ∀ name name' r r', IsRandomPart r → IsRandomPart r' → r ≠ r' →
    randomPartOf P cfg (generateAlias P cfg slugify name r) ≠
      randomPartOf P cfg (generateAlias P cfg slugify name' r')

end Alias

/-! ### The parts of an alias -/

section Parts

variable {P : MailPlatform} {cfg : InboundSettings} {slugify : String → String} {name r : String}
  {cs : List Char} {c : Char}

theorem collapseDashes_subset : collapseDashes cs ⊆ cs := by
  induction cs with
  | nil => exact List.Subset.refl _
  | cons c cs ih =>
    rw [collapseDashes]
    split_ifs
    · exact List.subset_cons_of_subset c ih
    · exact List.cons_subset_cons c ih

theorem stripDashes_sublist : (stripDashes cs).Sublist cs :=
  (List.rdropWhile_prefix _ _).sublist.trans (List.dropWhile_sublist _)

/-- A property of the characters of a text and of its default. -/
theorem forall_mem_orDefault {p : Char → Prop} {default : List Char} (h : ∀ c ∈ cs, p c)
    (hdefault : ∀ c ∈ default, p c) : ∀ c ∈ orDefault default cs, p c := by
  unfold orDefault
  split_ifs
  · exact hdefault
  · exact h

theorem length_orDefault_le {default : List Char} {n : ℕ} (h : cs.length ≤ n)
    (hdefault : default.length ≤ n) : (orDefault default cs).length ≤ n := by
  unfold orDefault
  split_ifs
  · exact hdefault
  · exact h

/-- An alias is a slug that is not too long, the random part and the suffix. -/
theorem generateAlias_spec (P : MailPlatform) (cfg : InboundSettings) (name r : String)
    (hslug : ∀ name, ∀ c ∈ (slugify name).toList, isSlugChar c = true) :
    ∃ slug : List Char, generateAlias P cfg slugify name r =
        String.ofList slug ++ "-" ++ r ++ aliasSuffixOf P cfg ∧
      (∀ c ∈ slug, isSlugChar c = true) ∧
      (slug.length : ℤ) ≤
        max (maxLocalPartLength - 1 - r.length - (aliasSuffixOf P cfg).length : ℤ) 1 := by
  have hdefault : ∀ c ∈ defaultSlug, isSlugChar c = true := forall_mem_of_all (by decide)
  have hname : ∀ c ∈ orDefault defaultSlug (stripDashes (collapseDashes (slugify name).toList)),
      isSlugChar c = true :=
    forall_mem_orDefault
      (fun c hc => hslug name c (collapseDashes_subset (stripDashes_sublist.subset hc))) hdefault
  simp only [generateAlias]
  generalize orDefault defaultSlug (stripDashes (collapseDashes (slugify name).toList)) = slug
    at hname ⊢
  have hroom := le_max_right
    (maxLocalPartLength - 1 - r.length - (aliasSuffixOf P cfg).length : ℤ) 1
  generalize max (maxLocalPartLength - 1 - r.length - (aliasSuffixOf P cfg).length : ℤ) 1 = room
    at *
  have hkept : (orDefault (defaultSlug.take room.toNat)
      (stripDashes (slug.take room.toNat))).length ≤ room.toNat :=
    length_orDefault_le (stripDashes_sublist.length_le.trans (List.length_take_le _ _))
      (List.length_take_le _ _)
  refine ⟨_, rfl, forall_mem_orDefault ?_ ?_, ?_⟩
  · exact fun c hc => hname c (List.mem_of_mem_take (stripDashes_sublist.subset hc))
  · exact fun c hc => hdefault c (List.mem_of_mem_take hc)
  · omega

/-- The characters of a slug are those of ASCII without the capital letters and others. -/
theorem isSlugChar_spec (h : isSlugChar c = true) : c.toNat < 128 ∧ c.toLower = c := by
  have hrange : c.toNat < 128 ∧ ¬(65 ≤ c.toNat ∧ c.toNat ≤ 90) := by
    simp only [isSlugChar, Bool.or_eq_true, decide_eq_true_eq, beq_iff_eq] at h
    rcases h with ((⟨hle, hle'⟩ | ⟨hle, hle'⟩) | rfl) | rfl
    · have hle : 97 ≤ c.toNat := UInt32.le_iff_toNat_le.mp hle
      have hle' : c.toNat ≤ 122 := UInt32.le_iff_toNat_le.mp hle'
      omega
    · have hle' : c.toNat ≤ 57 := UInt32.le_iff_toNat_le.mp hle'
      omega
    · decide
    · decide
  refine ⟨hrange.1, ?_⟩
  unfold Char.toLower
  rw [dif_neg]
  rintro ⟨hle, hle'⟩
  exact hrange.2 ⟨UInt32.le_iff_toNat_le.mp hle, UInt32.le_iff_toNat_le.mp hle'⟩

/-- A slug has nothing to lower. -/
theorem lower_ofList_of_slug (hlower : P.Lowers) (h : ∀ c ∈ cs, isSlugChar c = true) :
    P.lower (String.ofList cs) = String.ofList cs := by
  rw [hlower.lower_ascii _ fun c hc => (isSlugChar_spec (h c (by simpa using hc))).1,
    String.toList_ofList]
  congr 1
  exact (List.map_congr_left fun c hc => (isSlugChar_spec (h c hc)).2).trans (List.map_id cs)

theorem isSlugChar_of_isHexDigit (h : isHexDigit c = true) : isSlugChar c = true := by
  simp only [isHexDigit, isSlugChar, Bool.or_eq_true, decide_eq_true_eq] at h ⊢
  rcases h with h | ⟨hle, hle'⟩
  · exact Or.inl (Or.inl (Or.inr h))
  · exact Or.inl (Or.inl (Or.inl ⟨hle, Char.le_trans hle' (by decide)⟩))

theorem isHexDigit_dash : isHexDigit '-' = false := by decide

/-- The suffix is stored in lower case. -/
theorem lower_aliasSuffixOf (hlower : P.Lowers) :
    P.lower (aliasSuffixOf P cfg) = aliasSuffixOf P cfg :=
  hlower.lower_lower _

/-- An alias has nothing to lower. -/
theorem lower_generateAlias (hlower : P.Lowers)
    (hslug : ∀ name, ∀ c ∈ (slugify name).toList, isSlugChar c = true) (hr : IsRandomPart r) :
    P.lower (generateAlias P cfg slugify name r) = generateAlias P cfg slugify name r := by
  obtain ⟨slug, heq, hchars, -⟩ := generateAlias_spec P cfg name r hslug
  have hfront : String.ofList slug ++ "-" ++ r = String.ofList (slug ++ '-' :: r.toList) := by
    rw [← String.toList_inj]
    simp
  rw [heq, hfront]
  refine hlower.lower_append _ _ (lower_ofList_of_slug hlower fun c hc => ?_)
    (lower_aliasSuffixOf hlower)
  rcases List.mem_append.mp hc with hc | hc
  · exact hchars c hc
  · rcases List.mem_cons.mp hc with rfl | hc
    · decide
    · exact isSlugChar_of_isHexDigit (hr.2 c hc)

end Parts

/-! ### Recognition -/

/-- A generated alias fits the local part of an address, has the current format in every letter
case, and its random part is read back from it, so that different random parts make different
suffixes. -/
theorem generated_aliases_recognised (P : MailPlatform) (hlower : P.Lowers) (cfg : InboundSettings)
    (slugify : String → String)
    (hslug : ∀ name, ∀ c ∈ (slugify name).toList, isSlugChar c = true)
    (hne : aliasSuffixOf P cfg ≠ "") (hlength : (aliasSuffixOf P cfg).length ≤ 54) :
    AliasesRecognised P cfg slugify := by
  have hrecovered : ∀ name r, IsRandomPart r → ∀ alias_,
      P.lower alias_ = P.lower (generateAlias P cfg slugify name r) →
        randomPartOf P cfg alias_ = r := by
    intro name r hr alias_ halias
    obtain ⟨slug, heq, -, -⟩ := generateAlias_spec P cfg name r hslug
    have hlist : (P.lower alias_).toList =
        (slug ++ '-' :: r.toList) ++ (aliasSuffixOf P cfg).toList := by
      rw [halias, lower_generateAlias hlower hslug hr, heq]
      simp
    have hdash : '-' ∉ r.toList := fun hmem => by simpa [isHexDigit_dash] using hr.2 _ hmem
    simp only [randomPartOf, hlist]
    rw [if_pos]
    · rw [List.length_append, Nat.add_sub_cancel, List.take_left, afterLast_append,
        afterLast_eq_self hdash, String.ofList_toList]
    · rw [Bool.and_eq_true, List.isSuffixOf_iff_suffix]
      exact ⟨by simpa using hne, List.suffix_append _ _⟩
  refine ⟨fun name r hr => ?_, fun name r hr => ?_, hrecovered, fun name name' r r' hr hr' hrr => ?_⟩
  · obtain ⟨slug, heq, -, hslug'⟩ := generateAlias_spec P cfg name r hslug
    have hr' : r.length = 8 := hr.1
    simp only [heq, String.length_append, String.length_ofList, maxLocalPartLength] at hslug' ⊢
    have hdash : "-".length = 1 := rfl
    omega
  · obtain ⟨slug, heq, -, -⟩ := generateAlias_spec P cfg name r hslug
    simp only [isCurrentFormat, lower_generateAlias hlower hslug hr, Bool.and_eq_true,
      decide_eq_true_eq, List.isSuffixOf_iff_suffix]
    refine ⟨⟨by simpa using hne, ?_⟩, ?_⟩
    · rw [heq, String.toList_append]
      exact List.suffix_append _ _
    · simp [heq]
      omega
  · rw [hrecovered name r hr _ rfl, hrecovered name' r' hr' _ rfl]
    exact hrr

namespace Sample

/-- A name of letters and dashes as it is. -/
def slugify (name : String) : String := String.ofList (name.toList.filter isSlugChar)

end Sample

theorem sample_aliases_recognised :
    AliasesRecognised Sample.mailPlatform Sample.inboundSettings Sample.slugify :=
  generated_aliases_recognised _ Sample.mailPlatform_lowers _ _
    (fun _ _ hc => by
      rw [Sample.slugify, String.toList_ofList] at hc
      exact (List.mem_filter.mp hc).2)
    (by decide) (by decide)

/-- A name that is cut behind a dash. -/
example : generateAlias Sample.mailPlatform Sample.inboundSettings Sample.slugify
    "a--long-name-that-is-cut-to-forty-eight-character-s" "3f9a2c1b" =
      "a-long-name-that-is-cut-to-forty-eight-character-3f9a2c1b.pushit" := by decide +kernel

/-- An alias that a save stores is recognised, is not the address of the polled mailbox, and its
suffix is the random part that was drawn for it. -/
theorem allocated_recognised {P : MailPlatform} {cfg : InboundSettings}
    {slugify : String → String} (h : AliasesRecognised P cfg slugify) {name : String}
    {stores : String → String → Bool} {draws : List String} {refused : Bool}
    (hdraws : ∀ r ∈ draws, IsRandomPart r) {alias_ suffix : String}
    (hstored : allocateLoop P cfg slugify name stores draws refused = .ok (alias_, suffix)) :
    suffix ∈ draws ∧ alias_ = generateAlias P cfg slugify name suffix ∧
      alias_.length ≤ maxLocalPartLength ∧ isCurrentFormat P cfg alias_ = true ∧
      randomPartOf P cfg alias_ = suffix ∧ stores alias_ suffix = true ∧
      alias_ ++ "@" ++ inboundDomain P cfg ∉ mailboxAddresses P cfg := by
  induction draws generalizing refused with
  | nil => simp [allocateLoop] at hstored
  | cons r draws ih =>
    obtain ⟨hr, hdraws⟩ := List.forall_mem_cons.mp hdraws
    have hsuffix := h.recovered name r hr _ rfl
    simp only [allocateLoop, hsuffix] at hstored
    split_ifs at hstored with hmailbox hstores
    · exact (ih hdraws hstored).imp_left (List.mem_cons_of_mem r)
    · obtain ⟨rfl, rfl⟩ := Prod.mk.inj (Except.ok.inj hstored)
      exact ⟨List.mem_cons_self, rfl, h.bounded name r hr, h.current name r hr, hsuffix, hstores,
        by simpa using hmailbox⟩
    · exact (ih hdraws hstored).imp_left (List.mem_cons_of_mem r)

/-- So the console may draw the alias and the suffix of an allocation. -/
theorem exists_draw_of_allocated {P : MailPlatform} {cfg : InboundSettings}
    {slugify : String → String} (h : AliasesRecognised P cfg slugify) {name : String}
    {stores : String → String → Bool} {draws : List String}
    (hdraws : ∀ r ∈ draws, IsRandomPart r) {alias_ suffix : String}
    (hstored : allocate P cfg slugify name stores draws = .ok (alias_, suffix)) :
    ∃ draw : Draw, draw.alias_ = alias_ ∧ draw.aliasSuffix = suffix := by
  obtain ⟨hmem, rfl, -, -, -, -, -⟩ := allocated_recognised h
    (fun r hr => hdraws r (List.mem_of_mem_take hr)) hstored
  have hlength := (hdraws suffix (List.mem_of_mem_take hmem)).1
  have hsuffix : suffix ≠ "" := by
    rintro rfl
    cases hlength
  refine ⟨{ alias_ := generateAlias P cfg slugify name suffix, aliasSuffix := suffix,
            alias_ne := fun hempty => ?_, aliasSuffix_ne := hsuffix }, rfl, rfl⟩
  simp [generateAlias] at hempty

end PushIT
