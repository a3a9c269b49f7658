import PushIT.Fingerprint
import PushIT.Library.Substitution

/-!
# The rendering of templates

`NotificationTemplate.render` makes one round of `str.replace` for each variable, in the order of
the mapping and on the text that the rounds before have made.  It substitutes the values
simultaneously when no value, and no value together with the text around it, makes or breaks the
placeholder of another variable.

## Main definitions

* `Variables`: a mapping of variables to values.
* `RendersAtOnce`: the rendering, in any order, is the simultaneous substitution.
* `Undisturbed`: no placeholder is made or broken by the values.

## Main results

* `render_eq_rounds`: the rendering is the rounds of the library.
* `renders_at_once_iff`: when a template is rendered by simultaneous substitution.
* `undisturbed_of_braceless`: braces in placeholders only are enough.
-/

namespace PushIT

open Substitution

/-! ### The rendering as rounds -/

/-- A mapping of variables to values. -/
structure Variables where
  items : List (String × String)
  distinct : (items.map (·.1)).Nodup

/-- The placeholder of a variable. -/
def placeholder (key : String) : List Char :=
  "\x7b\x7b".toList ++ key.toList ++ "\x7d\x7d".toList

/-- The items of a mapping, with the values as lists of characters. -/
def assignments (items : List (String × String)) : List (String × List Char) :=
  items.map fun v => (v.1, v.2.toList)

theorem placeholder_ne_nil (key : String) : placeholder key ≠ [] := by
  simp [placeholder]

theorem map_fst_assignments (items : List (String × String)) :
    (assignments items).map (·.1) = items.map (·.1) := by
  simp [assignments]

theorem replaceFrom_eq (old new : List Char) (skip : ℕ) (text : List Char) :
    replaceFrom old new skip text = Substitution.replaceFrom old new skip text := by
  induction text generalizing skip with
  | nil => cases skip <;> rfl
  | cons c cs ih =>
    cases skip with
    | zero => rw [replaceFrom, Substitution.replaceFrom, ih, ih]
    | succ skip => exact ih skip

theorem replaceVariable_eq (text : List Char) (v : String × String) :
    replaceVariable text v = replace (placeholder v.1) v.2.toList text :=
  replaceFrom_eq _ _ 0 text

theorem foldl_replaceVariable (items : List (String × String)) (text : List Char) :
    items.foldl replaceVariable text = rounds placeholder text (assignments items) := by
  induction items generalizing text with
  | nil => rfl
  | cons v items ih =>
    rw [List.foldl_cons, ih, replaceVariable_eq]
    rfl

theorem render_eq_rounds (t : NotificationTemplate) (items : List (String × String)) :
    t.render items =
      (String.ofList (rounds placeholder t.titleTemplate.toList (assignments items)),
        String.ofList (rounds placeholder t.messageTemplate.toList (assignments items))) := by
  rw [NotificationTemplate.render, foldl_replaceVariable, foldl_replaceVariable]

/-- Each order of the assignments is that of an order of the items. -/
theorem exists_items_of_perm {items : List (String × String)} {order : List (String × List Char)}
    (h : order.Perm (assignments items)) :
    ∃ order' : List (String × String), order'.Perm items ∧ assignments order' = order := by
  have hback (l : List (String × String)) :
      (assignments l).map (fun a => (a.1, String.ofList a.2)) = l := by
    simp [assignments, Function.comp_def]
  refine ⟨order.map fun a => (a.1, String.ofList a.2), ?_, ?_⟩
  · exact hback items ▸ h.map _
  · simp [assignments, Function.comp_def]

/-! ### Simultaneous substitution -/

/-- Whatever the order of the mapping, each round replaces the placeholders of its variable in the
template and nothing else, and the rendering is the template with all of them filled at a time. -/
def RendersAtOnce (t : NotificationTemplate) (variables_ : Variables) : Prop :=
  ∃ title message,
    Reads placeholder (variables_.items.map (·.1)) t.titleTemplate.toList title ∧
    Reads placeholder (variables_.items.map (·.1)) t.messageTemplate.toList message ∧
    ∀ order : List (String × String), order.Perm variables_.items →
      Rightly placeholder t.titleTemplate.toList title (assignments order) ∧
      Rightly placeholder t.messageTemplate.toList message (assignments order) ∧
      t.render order =
        (String.ofList (spell placeholder
            (fill (valueOf (assignments variables_.items)) title)),
          String.ofList (spell placeholder
            (fill (valueOf (assignments variables_.items)) message)))

/-- In the title and in the message, the placeholders do not overlap, and whichever of them are
filled, `str.replace` of the placeholder of another variable replaces where the template has it. -/
def Undisturbed (t : NotificationTemplate) (variables_ : Variables) : Prop :=
  Substitution.Undisturbed placeholder (assignments variables_.items) t.titleTemplate.toList ∧
    Substitution.Undisturbed placeholder (assignments variables_.items) t.messageTemplate.toList

theorem rendersAtOnce_iff_simultaneous (t : NotificationTemplate) (variables_ : Variables) :
    RendersAtOnce t variables_ ↔
      Simultaneous placeholder (assignments variables_.items) t.titleTemplate.toList ∧
        Simultaneous placeholder (assignments variables_.items) t.messageTemplate.toList := by
  unfold RendersAtOnce Simultaneous
  rw [map_fst_assignments]
  constructor
  · rintro ⟨title, message, htitle, hmessage, h⟩
    refine ⟨⟨title, htitle, fun order hperm => ?_⟩, message, hmessage, fun order hperm => ?_⟩
    all_goals
      obtain ⟨order, horder, rfl⟩ := exists_items_of_perm hperm
      obtain ⟨hrightlyTitle, hrightlyMessage, hrender⟩ := h order horder
      rw [render_eq_rounds, Prod.mk.injEq, String.ofList_inj, String.ofList_inj] at hrender
    · exact ⟨hrightlyTitle, hrender.1⟩
    · exact ⟨hrightlyMessage, hrender.2⟩
  · rintro ⟨⟨title, htitle, hrounds⟩, message, hmessage, hrounds'⟩
    refine ⟨title, message, htitle, hmessage, fun order hperm => ?_⟩
    have hassignments : (assignments order).Perm (assignments variables_.items) := hperm.map _
    obtain ⟨hrightlyTitle, htitleEq⟩ := hrounds _ hassignments
    obtain ⟨hrightlyMessage, hmessageEq⟩ := hrounds' _ hassignments
    exact ⟨hrightlyTitle, hrightlyMessage, by rw [render_eq_rounds, htitleEq, hmessageEq]⟩

/-- A template is rendered by simultaneous substitution, in any order of the mapping, exactly when
its placeholders are undisturbed. -/
theorem renders_at_once_iff (t : NotificationTemplate) (variables_ : Variables) :
    RendersAtOnce t variables_ ↔ Undisturbed t variables_ := by
  have hkeys : ((assignments variables_.items).map (·.1)).Nodup := by
    rw [map_fst_assignments]
    exact variables_.distinct
  rw [rendersAtOnce_iff_simultaneous,
    simultaneous_iff placeholder_ne_nil hkeys t.titleTemplate.toList,
    simultaneous_iff placeholder_ne_nil hkeys t.messageTemplate.toList]
  rfl

/-- A template with one placeholder. -/
def nestedTemplate : NotificationTemplate where
  id := 1
  applicationId := 1
  titleTemplate := "\x7b\x7bname\x7d\x7d"
  messageTemplate := "Welcome"

/-- The value of the first variable is the placeholder of the second. -/
def nestedVariables : Variables where
  items := [("name", "\x7b\x7bcode\x7d\x7d"), ("code", "1234")]
  distinct := by decide

/-- The value of a variable is substituted again, in one order of the mapping. -/
theorem nested_value_substituted_again :
    nestedTemplate.render nestedVariables.items = ("1234", "Welcome") ∧
      nestedTemplate.render nestedVariables.items.reverse =
        ("\x7b\x7bcode\x7d\x7d", "Welcome") ∧
      ¬ RendersAtOnce nestedTemplate nestedVariables := by
  have hforward : nestedTemplate.render nestedVariables.items = ("1234", "Welcome") := by
    decide
  have hbackward : nestedTemplate.render nestedVariables.items.reverse =
      ("\x7b\x7bcode\x7d\x7d", "Welcome") := by
    decide
  refine ⟨hforward, hbackward, ?_⟩
  rintro ⟨title, message, -, -, h⟩
  have hsame := (h _ (List.Perm.refl _)).2.2.trans
    (h _ (List.reverse_perm nestedVariables.items)).2.2.symm
  rw [hforward, hbackward] at hsame
  exact absurd hsame (by decide)

/-! ### Braces in placeholders only -/

/-- A text whose opening braces are those of the placeholders of some variables. -/
def BracesInPlaceholders (keys : List String) (text : List Char) : Prop :=
  ∃ cells, spell placeholder cells = text ∧ (∀ k, Cell.hole k ∈ cells → k ∈ keys) ∧
    ∀ c, Cell.text c ∈ cells → c ≠ '\x7b'

section Braceless

variable {k j : String} {keys : List String} {cells : List (Cell Char String)}
  {values : String → Option (List Char)}

theorem isPrefixOf_of_ne (old ys : List Char) {c : Char} (hc : c ≠ '\x7b') :
    ('\x7b' :: old).isPrefixOf (c :: ys) = false := by
  rw [List.isPrefixOf_cons_cons, Bool.and_eq_false_iff]
  exact Or.inl (beq_eq_false_iff_ne.mpr hc.symm)

theorem occursFrom_append (old : List Char) {xs : List Char} (h : '\x7b' ∉ xs) (position : ℕ)
    (ys : List Char) :
    occursFrom ('\x7b' :: old) position (xs ++ ys) =
      occursFrom ('\x7b' :: old) (position + xs.length) ys := by
  induction xs generalizing position with
  | nil => rfl
  | cons x xs ih =>
    obtain ⟨hx, hxs⟩ := List.ne_and_not_mem_of_not_mem_cons h
    rw [List.cons_append, occursFrom, isPrefixOf_of_ne _ _ hx.symm, if_neg Bool.false_ne_true,
      ih hxs, List.length_cons]
    congr 1
    omega

theorem replacedFrom_append (old : List Char) {xs : List Char} (h : '\x7b' ∉ xs) (position : ℕ)
    (ys : List Char) :
    replacedFrom ('\x7b' :: old) 0 position (xs ++ ys) =
      replacedFrom ('\x7b' :: old) 0 (position + xs.length) ys := by
  induction xs generalizing position with
  | nil => rfl
  | cons x xs ih =>
    obtain ⟨hx, hxs⟩ := List.ne_and_not_mem_of_not_mem_cons h
    rw [List.cons_append, replacedFrom, isPrefixOf_of_ne _ _ hx.symm, if_neg Bool.false_ne_true,
      ih hxs, List.length_cons]
    congr 1
    omega

/-- What stands behind the two opening braces of a placeholder. -/
def placeholderTail (key : String) : List Char := key.toList ++ "\x7d\x7d".toList

theorem placeholder_eq (key : String) :
    placeholder key = '\x7b' :: '\x7b' :: placeholderTail key := by
  simp [placeholder, placeholderTail]

theorem notMem_placeholderTail (hj : '\x7b' ∉ j.toList) : '\x7b' ∉ placeholderTail j := by
  simp [placeholderTail, hj]

/-- What stands in front of the first closing brace. -/
theorem append_cons_inj {xs xs' ys ys' : List Char} (hxs : '\x7d' ∉ xs) (hxs' : '\x7d' ∉ xs')
    (h : xs ++ '\x7d' :: ys = xs' ++ '\x7d' :: ys') : xs = xs' := by
  have hfront (zs : List Char) (hzs : '\x7d' ∉ zs) (rest : List Char) :
      (zs ++ '\x7d' :: rest).takeWhile (· ≠ '\x7d') = zs := by
    rw [List.takeWhile_append_of_pos fun c hc => by
      rw [decide_eq_true_eq]
      rintro rfl
      exact hzs hc]
    simp
  rw [← hfront xs hxs ys, h, hfront xs' hxs' ys']

/-- Two placeholders begin alike only when they are the same. -/
theorem isPrefixOf_placeholder (hk : '\x7d' ∉ k.toList) (hj : '\x7d' ∉ j.toList)
    (ys : List Char) :
    (placeholder k).isPrefixOf (placeholder j ++ ys) = true ↔ j = k := by
  rw [List.isPrefixOf_iff_prefix]
  constructor
  · rintro ⟨rest, hrest⟩
    have htails : k.toList ++ '\x7d' :: ('\x7d' :: rest) =
        j.toList ++ '\x7d' :: ('\x7d' :: ys) := by
      simpa [placeholder] using hrest
    exact String.toList_inj.mp (append_cons_inj hk hj htails).symm
  · rintro rfl
    exact List.prefix_append _ _

/-- No placeholder begins at the second brace of one. -/
theorem isPrefixOf_second (hj : '\x7b' ∉ j.toList) (ys : List Char) :
    (placeholder k).isPrefixOf ('\x7b' :: (placeholderTail j ++ ys)) = false := by
  have htail := notMem_placeholderTail hj
  obtain ⟨c, cs, hc⟩ : ∃ c cs, placeholderTail j = c :: cs :=
    List.exists_cons_of_ne_nil (by simp [placeholderTail])
  rw [hc] at htail ⊢
  rw [placeholder_eq, List.cons_append, List.isPrefixOf_cons_cons, Bool.and_eq_false_iff]
  exact Or.inr (isPrefixOf_of_ne _ _ (List.ne_and_not_mem_of_not_mem_cons htail).1.symm)

theorem length_placeholder (key : String) :
    (placeholder key).length = (placeholderTail key).length + 2 := by
  rw [placeholder_eq]
  rfl

/-- The placeholder of a variable has no occurrence within that of another one. -/
theorem occursFrom_placeholder (hk : '\x7d' ∉ k.toList)
    (hj : '\x7b' ∉ j.toList ∧ '\x7d' ∉ j.toList) (position : ℕ) (ys : List Char) :
    occursFrom (placeholder k) position (placeholder j ++ ys) =
      if j = k then
        position :: occursFrom (placeholder k) (position + (placeholder j).length) ys
      else occursFrom (placeholder k) (position + (placeholder j).length) ys := by
  have hsecond : occursFrom (placeholder k) (position + 1)
      ('\x7b' :: (placeholderTail j ++ ys)) =
        occursFrom (placeholder k) (position + (placeholder j).length) ys := by
    rw [occursFrom, isPrefixOf_second hj.1, if_neg Bool.false_ne_true, length_placeholder,
      placeholder_eq k, occursFrom_append _ (notMem_placeholderTail hj.1)]
    congr 1
    omega
  have hfirst := isPrefixOf_placeholder hk hj.2 ys
  rw [placeholder_eq j, List.cons_append, List.cons_append] at hfirst
  conv_lhs => rw [placeholder_eq j, List.cons_append, List.cons_append, occursFrom, hsecond]
  by_cases hjk : j = k
  · rw [if_pos hjk, if_pos (hfirst.mpr hjk)]
  · rw [if_neg hjk, if_neg (mt hfirst.mp hjk)]

/-- The placeholder of a variable is not replaced within that of another one. -/
theorem replacedFrom_placeholder (hk : '\x7d' ∉ k.toList)
    (hj : '\x7b' ∉ j.toList ∧ '\x7d' ∉ j.toList) (position : ℕ) (ys : List Char) :
    replacedFrom (placeholder k) 0 position (placeholder j ++ ys) =
      if j = k then
        position :: replacedFrom (placeholder k) 0 (position + (placeholder j).length) ys
      else replacedFrom (placeholder k) 0 (position + (placeholder j).length) ys := by
  have hfirst := isPrefixOf_placeholder hk hj.2 ys
  rw [placeholder_eq j, List.cons_append, List.cons_append] at hfirst
  conv_lhs => rw [placeholder_eq j, List.cons_append, List.cons_append, replacedFrom]
  by_cases hjk : j = k
  · have hlength : (placeholder k).length - 1 = ('\x7b' :: placeholderTail j).length := by
      rw [← hjk, length_placeholder]
      rfl
    rw [if_pos hjk, if_pos (hfirst.mpr hjk), hlength, ← List.cons_append,
      replacedFrom_skip, length_placeholder, List.length_cons]
    congr 2
    omega
  · rw [if_neg hjk, if_neg (mt hfirst.mp hjk), replacedFrom, isPrefixOf_second hj.1,
      if_neg Bool.false_ne_true, length_placeholder, placeholder_eq k,
      replacedFrom_append _ (notMem_placeholderTail hj.1)]
    congr 1
    omega

/-- Where the opening braces are those of the placeholders, the occurrences of a placeholder are
its holes, and these are replaced. -/
theorem occursFrom_spell (hkey : '\x7d' ∉ k.toList)
    (hholes : ∀ j, Cell.hole j ∈ cells → '\x7b' ∉ j.toList ∧ '\x7d' ∉ j.toList)
    (htexts : ∀ c, Cell.text c ∈ cells → c ≠ '\x7b') (position : ℕ) :
    occursFrom (placeholder k) position (spell placeholder cells) =
        holesFrom placeholder k position cells ∧
      replacedFrom (placeholder k) 0 position (spell placeholder cells) =
        holesFrom placeholder k position cells := by
  induction cells generalizing position with
  | nil => exact ⟨rfl, rfl⟩
  | cons cell cells ih =>
    have ih := ih (fun j hj => hholes j (List.mem_cons_of_mem _ hj))
      fun c hc => htexts c (List.mem_cons_of_mem _ hc)
    rw [spell_cons]
    cases cell with
    | text c =>
      have hc : '\x7b' ∉ [c] := by simpa using (htexts c List.mem_cons_self).symm
      obtain ⟨hoccurs, hreplaced⟩ := ih (position + 1)
      rw [placeholder_eq] at hoccurs hreplaced ⊢
      rw [Cell.spell, occursFrom_append _ hc, replacedFrom_append _ hc]
      exact ⟨hoccurs, hreplaced⟩
    | hole j =>
      have hj := hholes j List.mem_cons_self
      obtain ⟨hoccurs, hreplaced⟩ := ih (position + (placeholder j).length)
      rw [Cell.spell, occursFrom_placeholder hkey hj, replacedFrom_placeholder hkey hj, hoccurs,
        hreplaced]
      exact ⟨rfl, rfl⟩

theorem mem_fill_hole (h : Cell.hole k ∈ fill values cells) : Cell.hole k ∈ cells := by
  obtain ⟨cell, hcell, hk⟩ := List.mem_flatMap.mp h
  cases cell with
  | text c => simp [Cell.fill] at hk
  | hole j =>
    cases hvalue : values j with
    | some v => simp [Cell.fill, hvalue] at hk
    | none =>
      rw [Cell.fill, hvalue, List.mem_singleton] at hk
      exact hk ▸ hcell

theorem mem_fill_text {c : Char} (h : Cell.text c ∈ fill values cells) :
    Cell.text c ∈ cells ∨ ∃ j v, values j = some v ∧ c ∈ v := by
  obtain ⟨cell, hcell, hc⟩ := List.mem_flatMap.mp h
  cases cell with
  | text d =>
    rw [Cell.fill, List.mem_singleton] at hc
    exact Or.inl (hc ▸ hcell)
  | hole j =>
    cases hvalue : values j with
    | some v =>
      simp only [Cell.fill, hvalue, List.mem_map, Cell.text.injEq, exists_eq_right] at hc
      exact Or.inr ⟨j, v, hvalue, hc⟩
    | none => simp [Cell.fill, hvalue] at hc

variable {variables_ : Variables}

theorem undisturbed_text
    (hkeys : ∀ v ∈ variables_.items, '\x7b' ∉ v.1.toList ∧ '\x7d' ∉ v.1.toList)
    (hvalues : ∀ v ∈ variables_.items, '\x7b' ∉ v.2.toList) {text : List Char}
    (htext : BracesInPlaceholders (variables_.items.map (·.1)) text) :
    Substitution.Undisturbed placeholder (assignments variables_.items) text := by
  obtain ⟨cells, hspelled, hknown, htexts⟩ := htext
  have hkey (j : String) (hj : j ∈ variables_.items.map (·.1)) :
      '\x7b' ∉ j.toList ∧ '\x7d' ∉ j.toList := by
    obtain ⟨v, hv, rfl⟩ := List.mem_map.mp hj
    exact hkeys v hv
  unfold Substitution.Undisturbed
  rw [map_fst_assignments]
  refine ⟨cells, ⟨hspelled, hknown, fun j hj => ?_⟩, fun chosen j hj _ => ?_⟩
  · rw [← hspelled]
    exact (occursFrom_spell (hkey j hj).2 (fun i hi => hkey i (hknown i hi)) htexts 0).1
  · refine (occursFrom_spell (hkey j hj).2 (fun i hi => hkey i (hknown i (mem_fill_hole hi)))
      (fun c hc => ?_) 0).2
    rcases mem_fill_text hc with hc | ⟨i, v, hvalue, hcv⟩
    · exact htexts c hc
    · -- the character comes from a value
      have hdistinct : ((assignments variables_.items).map (·.1)).Nodup := by
        rw [map_fst_assignments]
        exact variables_.distinct
      have hmem : (i, v) ∈ assignments variables_.items := by
        unfold restrict at hvalue
        split at hvalue
        · exact (valueOf_eq_some_iff hdistinct).mp hvalue
        · cases hvalue
      obtain ⟨item, hitem, heq⟩ := List.mem_map.mp hmem
      obtain ⟨-, rfl⟩ := Prod.mk.inj heq
      rintro rfl
      exact hvalues item hitem hcv

/-- Braces that stand in placeholders only, and in no value and no name, are never disturbed. -/
theorem undisturbed_of_braceless (t : NotificationTemplate)
    (hkeys : ∀ v ∈ variables_.items, '\x7b' ∉ v.1.toList ∧ '\x7d' ∉ v.1.toList)
    (hvalues : ∀ v ∈ variables_.items, '\x7b' ∉ v.2.toList)
    (htitle : BracesInPlaceholders (variables_.items.map (·.1)) t.titleTemplate.toList)
    (hmessage : BracesInPlaceholders (variables_.items.map (·.1)) t.messageTemplate.toList) :
    Undisturbed t variables_ :=
  ⟨undisturbed_text hkeys hvalues htitle, undisturbed_text hkeys hvalues hmessage⟩

end Braceless

end PushIT
