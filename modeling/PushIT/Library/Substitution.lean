import Mathlib.Data.List.Induction
import Mathlib.Data.List.Nodup
import Mathlib.Data.List.Perm.Basic
import Mathlib.Order.Nat
import Mathlib.Tactic.Common

/-!
# Templates and the replacement of text

A template is a list of cells, of which some are holes; it is spelled with a placeholder for each
hole.  To fill some of the holes is a simultaneous substitution.  A program that works on the
spelled text replaces the occurrences of one placeholder after the other, from left to right and
without overlaps.  A round that replaces at the places of a hole and nowhere else fills it.

## Main definitions

* `Substitution.replace`, `Substitution.replacedAt`: the replacement and where it replaces.
* `Substitution.spell`, `Substitution.fill`: templates.
* `Substitution.Reads`: the cells whose holes are the placeholders in a text.
* `Substitution.Simultaneous`, `Substitution.Undisturbed`: rounds in any order, and the condition.

## Main results

* `Substitution.replace_spell`: a round that replaces at the holes of one key.
* `Substitution.simultaneous_iff`: when rounds in any order substitute simultaneously.
-/

namespace Substitution

variable {α κ : Type*}

/-! ### Replacement -/

section Replacement

variable [DecidableEq α]

/-- The replacement of the occurrences of a pattern that is not empty; the number counts the
members of a match still to skip. -/
def replaceFrom (old new : List α) : ℕ → List α → List α
  | _, [] => []
  | skip + 1, _ :: cs => replaceFrom old new skip cs
  | 0, c :: cs =>
    if old.isPrefixOf (c :: cs) then new ++ replaceFrom old new (old.length - 1) cs
    else c :: replaceFrom old new 0 cs

/-- The replacement of the occurrences of a pattern, the leftmost first. -/
def replace (old new text : List α) : List α := replaceFrom old new 0 text

/-- Where a replacement replaces, in a text that starts at a position. -/
def replacedFrom (old : List α) : ℕ → ℕ → List α → List ℕ
  | _, _, [] => []
  | skip + 1, position, _ :: cs => replacedFrom old skip (position + 1) cs
  | 0, position, c :: cs =>
    if old.isPrefixOf (c :: cs) then
      position :: replacedFrom old (old.length - 1) (position + 1) cs
    else replacedFrom old 0 (position + 1) cs

/-- Where a replacement replaces. -/
def replacedAt (old text : List α) : List ℕ := replacedFrom old 0 0 text

/-- All the occurrences of a pattern, also those that overlap, in a text that starts at a
position. -/
def occursFrom (old : List α) : ℕ → List α → List ℕ
  | _, [] => []
  | position, c :: cs =>
    if old.isPrefixOf (c :: cs) then position :: occursFrom old (position + 1) cs
    else occursFrom old (position + 1) cs

/-- All the occurrences of a pattern. -/
def occursAt (old text : List α) : List ℕ := occursFrom old 0 text

variable {old : List α}

theorem replaceFrom_skip (new xs ys : List α) :
    replaceFrom old new xs.length (xs ++ ys) = replaceFrom old new 0 ys := by
  induction xs with
  | nil => rfl
  | cons x xs ih => exact ih

theorem replacedFrom_skip (position : ℕ) (xs ys : List α) :
    replacedFrom old xs.length position (xs ++ ys) =
      replacedFrom old 0 (position + xs.length) ys := by
  induction xs generalizing position with
  | nil => rfl
  | cons x xs ih =>
    rw [List.length_cons, List.cons_append, replacedFrom, ih]
    congr 1
    omega

/-- A replacement that replaces nowhere in the front part copies it. -/
theorem replaceFrom_append (new : List α) {position : ℕ} {xs ys : List α}
    (h : ∀ p ∈ replacedFrom old 0 position (xs ++ ys), position + xs.length ≤ p) :
    replaceFrom old new 0 (xs ++ ys) = xs ++ replaceFrom old new 0 ys ∧
      replacedFrom old 0 position (xs ++ ys) =
        replacedFrom old 0 (position + xs.length) ys := by
  induction xs generalizing position with
  | nil => exact ⟨rfl, rfl⟩
  | cons x xs ih =>
    rw [List.cons_append, replacedFrom] at h
    by_cases hmatch : old.isPrefixOf (x :: (xs ++ ys)) = true
    · rw [if_pos hmatch] at h
      have hlt := h position List.mem_cons_self
      rw [List.length_cons] at hlt
      omega
    · rw [if_neg hmatch] at h
      obtain ⟨hreplace, hreplaced⟩ := @ih (position + 1) fun p hp => by
        have hle := h p hp
        rw [List.length_cons] at hle
        omega
      refine ⟨?_, ?_⟩
      · rw [List.cons_append, replaceFrom, if_neg hmatch, hreplace, List.cons_append]
      · rw [List.cons_append, replacedFrom, if_neg hmatch, hreplaced, List.length_cons]
        congr 1
        omega

end Replacement

/-! ### Templates -/

/-- A member of a text, or a hole. -/
inductive Cell (α κ : Type*)
  | text (c : α)
  | hole (k : κ)

variable (placeholder : κ → List α)

/-- The text of a cell. -/
def Cell.spell : Cell α κ → List α
  | text c => [c]
  | hole k => placeholder k

/-- The text of a template. -/
def spell (cells : List (Cell α κ)) : List α := cells.flatMap (Cell.spell placeholder)

/-- A cell once the holes that have a value are filled. -/
def Cell.fill (values : κ → Option (List α)) : Cell α κ → List (Cell α κ)
  | text c => [text c]
  | hole k =>
    match values k with
    | some v => v.map text
    | none => [hole k]

/-- The template once the holes that have a value are filled, all at a time. -/
def fill (values : κ → Option (List α)) (cells : List (Cell α κ)) : List (Cell α κ) :=
  cells.flatMap (Cell.fill values)

variable {placeholder}

theorem spell_cons (cell : Cell α κ) (cells : List (Cell α κ)) :
    spell placeholder (cell :: cells) = cell.spell placeholder ++ spell placeholder cells :=
  List.flatMap_cons

theorem spell_map_text (v : List α) : spell placeholder (v.map Cell.text) = v := by
  simp [spell, List.flatMap_map, Cell.spell]

theorem fill_none (cells : List (Cell α κ)) : fill (fun _ => none) cells = cells := by
  induction cells with
  | nil => rfl
  | cons cell cells ih =>
    rw [fill] at ih
    rw [fill, List.flatMap_cons, ih]
    cases cell <;> rfl

section Keys

variable [DecidableEq κ] (placeholder)

/-- The places of the holes of a key, in the text of a template that starts at a position. -/
def holesFrom (k : κ) : ℕ → List (Cell α κ) → List ℕ
  | _, [] => []
  | position, .text _ :: cells => holesFrom k (position + 1) cells
  | position, .hole j :: cells =>
    if j = k then position :: holesFrom k (position + (placeholder j).length) cells
    else holesFrom k (position + (placeholder j).length) cells

/-- The places of the holes of a key. -/
def holesAt (k : κ) (cells : List (Cell α κ)) : List ℕ := holesFrom placeholder k 0 cells

/-- The value of one key. -/
def single (k : κ) (v : List α) (j : κ) : Option (List α) := if j = k then some v else none

variable {placeholder}

theorem le_of_mem_holesFrom {k : κ} {position p : ℕ} {cells : List (Cell α κ)}
    (h : p ∈ holesFrom placeholder k position cells) : position ≤ p := by
  induction cells generalizing position with
  | nil => exact absurd h List.not_mem_nil
  | cons cell cells ih =>
    cases cell with
    | text c => exact (Nat.le_succ _).trans (ih h)
    | hole j =>
      rw [holesFrom] at h
      split at h
      · rcases List.mem_cons.mp h with rfl | h
        · exact le_rfl
        · exact (Nat.le_add_right _ _).trans (ih h)
      · exact (Nat.le_add_right _ _).trans (ih h)

/-- A cell that is not a hole of the key moves the holes on. -/
theorem holesFrom_of_ne {k : κ} {cell : Cell α κ} (hcell : cell ≠ .hole k) (position : ℕ)
    (cells : List (Cell α κ)) :
    holesFrom placeholder k position (cell :: cells) =
      holesFrom placeholder k (position + (cell.spell placeholder).length) cells := by
  cases cell with
  | text c => rfl
  | hole j => exact if_neg fun hjk : j = k => hcell (congrArg Cell.hole hjk)

theorem fill_single_of_ne {k : κ} {cell : Cell α κ} (hcell : cell ≠ .hole k) (v : List α) :
    cell.fill (single k v) = [cell] := by
  cases cell with
  | text c => rfl
  | hole j =>
    have hjk : j ≠ k := fun hjk => hcell (congrArg Cell.hole hjk)
    simp [Cell.fill, single, hjk]

theorem fill_single_self (k : κ) (v : List α) :
    (Cell.hole k).fill (single k v) = v.map Cell.text := by
  simp [Cell.fill, single]

/-! ### Assignments -/

/-- The value a list of assignments gives to a key. -/
def valueOf (assignments : List (κ × List α)) (k : κ) : Option (List α) :=
  (assignments.find? fun a => a.1 = k).map (·.2)

/-- The values of the keys that are chosen. -/
def restrict (chosen : κ → Bool) (values : κ → Option (List α)) (k : κ) : Option (List α) :=
  if chosen k then values k else none

section Values

variable {assignments order done : List (κ × List α)} {k : κ} {v : List α}

theorem valueOf_eq_none_iff : valueOf assignments k = none ↔ k ∉ assignments.map (·.1) := by
  simp only [valueOf, Option.map_eq_none_iff, List.find?_eq_none, decide_eq_true_eq,
    List.mem_map, not_exists, not_and]

theorem valueOf_eq_some_iff (h : (assignments.map (·.1)).Nodup) :
    valueOf assignments k = some v ↔ (k, v) ∈ assignments := by
  simp only [valueOf, Option.map_eq_some_iff]
  constructor
  · rintro ⟨a, hfind, rfl⟩
    have hk : a.1 = k := by simpa using List.find?_some hfind
    exact hk ▸ List.mem_of_find?_eq_some hfind
  · intro hmem
    cases hfind : assignments.find? fun a => a.1 = k with
    | none => simpa using List.find?_eq_none.mp hfind (k, v) hmem
    | some a =>
      have hk : a.1 = k := by simpa using List.find?_some hfind
      have hsame : a = (k, v) :=
        List.inj_on_of_nodup_map h (List.mem_of_find?_eq_some hfind) hmem hk
      exact ⟨a, rfl, by rw [hsame]⟩

/-- The values of a part of the assignments, in any order. -/
theorem valueOf_of_subset (h : (assignments.map (·.1)).Nodup) (hdone : (done.map (·.1)).Nodup)
    (hsub : done ⊆ assignments) :
    valueOf done =
      restrict (fun k => decide (k ∈ done.map (·.1))) (valueOf assignments) := by
  funext k
  unfold restrict
  by_cases hk : k ∈ done.map (·.1)
  · obtain ⟨a, ha, rfl⟩ := List.mem_map.mp hk
    rw [if_pos (decide_eq_true hk), (valueOf_eq_some_iff hdone).mpr ha,
      (valueOf_eq_some_iff h).mpr (hsub ha)]
  · rw [if_neg (by simpa using hk), valueOf_eq_none_iff.mpr hk]

/-- Only the choice among the keys with a value matters. -/
theorem restrict_congr {chosen chosen' : κ → Bool}
    (h : ∀ k ∈ assignments.map (·.1), chosen k = chosen' k) :
    restrict chosen (valueOf assignments) = restrict chosen' (valueOf assignments) := by
  funext k
  unfold restrict
  by_cases hk : k ∈ assignments.map (·.1)
  · rw [h k hk]
  · rw [valueOf_eq_none_iff.mpr hk, ite_self, ite_self]

theorem valueOf_perm (h : (assignments.map (·.1)).Nodup) (hperm : order.Perm assignments) :
    valueOf order = valueOf assignments := by
  have horder : (order.map (·.1)).Nodup := (hperm.map (·.1)).nodup_iff.mpr h
  funext k
  refine Option.ext fun v => ?_
  rw [valueOf_eq_some_iff horder, valueOf_eq_some_iff h, hperm.mem_iff]

theorem valueOf_snoc (hk : k ∉ done.map (·.1)) (v : List α) :
    valueOf (done ++ [(k, v)]) = fun j => if j = k then some v else valueOf done j := by
  funext j
  simp only [valueOf, List.find?_append, Option.map_or]
  by_cases hj : j = k
  · subst hj
    have hnone := valueOf_eq_none_iff.mpr hk
    simp only [valueOf] at hnone
    simp [hnone]
  · have hkj : k ≠ j := fun h => hj h.symm
    simp [hj, hkj]

/-- Filling one more hole. -/
theorem fill_single_fill {values : κ → Option (List α)} (hk : values k = none) (v : List α)
    (cells : List (Cell α κ)) :
    fill (single k v) (fill values cells) =
      fill (fun j => if j = k then some v else values j) cells := by
  have htext : ∀ w : List α, fill (single k v) (w.map Cell.text) = w.map Cell.text := by
    intro w
    induction w with
    | nil => rfl
    | cons c w ih => exact congrArg (Cell.text c :: ·) ih
  induction cells with
  | nil => rfl
  | cons cell cells ih =>
    simp only [fill, List.flatMap_cons, List.flatMap_append] at ih htext ⊢
    rw [ih]
    congr 1
    cases cell with
    | text c => rfl
    | hole j =>
      by_cases hj : j = k
      · subst hj
        simp [Cell.fill, hk, single]
      · cases hvalue : values j with
        | none => simp [Cell.fill, hvalue, single, hj]
        | some w => simpa [Cell.fill, hvalue, hj] using htext w

end Values

/-! ### Rounds -/

variable [DecidableEq α]

/-- A round that replaces at the holes of one key and nowhere else fills them. -/
theorem replaceFrom_spell {k : κ} (hk : placeholder k ≠ []) (v : List α) {position : ℕ}
    {cells : List (Cell α κ)}
    (h : replacedFrom (placeholder k) 0 position (spell placeholder cells) =
      holesFrom placeholder k position cells) :
    replaceFrom (placeholder k) v 0 (spell placeholder cells) =
      spell placeholder (fill (single k v) cells) := by
  induction cells generalizing position with
  | nil => rfl
  | cons cell cells ih =>
    have hfill : spell placeholder (fill (single k v) (cell :: cells)) =
        spell placeholder (cell.fill (single k v)) ++
          spell placeholder (fill (single k v) cells) := by
      simp only [spell, fill, List.flatMap_cons, List.flatMap_append]
    rw [spell_cons] at h ⊢
    rw [hfill]
    by_cases hcell : cell = .hole k
    · subst hcell
      rw [fill_single_self, spell_map_text]
      obtain ⟨c, cs, hplaceholder⟩ := List.exists_cons_of_ne_nil hk
      have hmatch : (placeholder k).isPrefixOf (c :: (cs ++ spell placeholder cells)) = true := by
        rw [hplaceholder, List.isPrefixOf_iff_prefix]
        exact List.prefix_append (c :: cs) _
      have hlength : (placeholder k).length - 1 = cs.length := by rw [hplaceholder]; rfl
      have htext : (Cell.hole k).spell placeholder ++ spell placeholder cells =
          c :: (cs ++ spell placeholder cells) := by
        rw [Cell.spell, hplaceholder, List.cons_append]
      rw [htext, replacedFrom, if_pos hmatch, hlength, replacedFrom_skip, holesFrom, if_pos rfl,
        hplaceholder, List.length_cons, ← Nat.add_assoc, Nat.add_right_comm] at h
      rw [htext, replaceFrom, if_pos hmatch, hlength, replaceFrom_skip,
        ih (by rw [hplaceholder]; exact (List.cons.inj h).2)]
    · rw [holesFrom_of_ne hcell] at h
      obtain ⟨hreplace, hreplaced⟩ := replaceFrom_append v fun p hp => by
        rw [h] at hp
        exact le_of_mem_holesFrom hp
      rw [hreplaced] at h
      rw [hreplace, fill_single_of_ne hcell, ih h]
      simp [spell]

/-- One round, in terms of the places it replaces at. -/
theorem replace_spell {k : κ} (hk : placeholder k ≠ []) (v : List α) {cells : List (Cell α κ)}
    (h : replacedAt (placeholder k) (spell placeholder cells) = holesAt placeholder k cells) :
    replace (placeholder k) v (spell placeholder cells) =
      spell placeholder (fill (single k v) cells) :=
  replaceFrom_spell hk v h

variable (placeholder)

/-- The rounds of a list of assignments, one after the other. -/
def rounds (text : List α) (assignments : List (κ × List α)) : List α :=
  assignments.foldl (fun text a => replace (placeholder a.1) a.2 text) text

/-- A template whose holes are the placeholders of some keys in a text: each occurrence of one of
them is a hole, so that no two overlap. -/
structure Reads (keys : List κ) (text : List α) (cells : List (Cell α κ)) : Prop where
  spelled : spell placeholder cells = text
  known : ∀ k, Cell.hole k ∈ cells → k ∈ keys
  places : ∀ k ∈ keys, occursAt (placeholder k) text = holesAt placeholder k cells

/-- The next round replaces at the holes of its key, once the others are filled. -/
def Rightly (text : List α) (cells : List (Cell α κ)) (order : List (κ × List α)) : Prop :=
  ∀ done k v rest, order = done ++ (k, v) :: rest →
    replacedAt (placeholder k) (rounds placeholder text done) =
      holesAt placeholder k (fill (valueOf done) cells)

/-- Rounds in any order replace the placeholders of the text and nothing else, and make the text in
which all of them are filled at a time. -/
def Simultaneous (assignments : List (κ × List α)) (text : List α) : Prop :=
  ∃ cells, Reads placeholder (assignments.map (·.1)) text cells ∧
    ∀ order : List (κ × List α), order.Perm assignments →
      Rightly placeholder text cells order ∧
        rounds placeholder text order = spell placeholder (fill (valueOf assignments) cells)

/-- The placeholders of the text do not overlap, and whichever holes are filled, a replacement of
the placeholder of another key replaces at the holes of that key. -/
def Undisturbed (assignments : List (κ × List α)) (text : List α) : Prop :=
  ∃ cells, Reads placeholder (assignments.map (·.1)) text cells ∧
    ∀ (chosen : κ → Bool), ∀ k ∈ assignments.map (·.1), chosen k = false →
      replacedAt (placeholder k)
          (spell placeholder (fill (restrict chosen (valueOf assignments)) cells)) =
        holesAt placeholder k (fill (restrict chosen (valueOf assignments)) cells)

variable {placeholder}

section Rounds

variable {assignments order : List (κ × List α)} {text : List α} {cells : List (Cell α κ)}

/-- Rounds that replace rightly fill the holes of their keys. -/
theorem Rightly.rounds_eq (hplaceholder : ∀ k, placeholder k ≠ [])
    (hspelled : spell placeholder cells = text) (hkeys : (order.map (·.1)).Nodup)
    (h : Rightly placeholder text cells order) {done rest : List (κ × List α)}
    (horder : order = done ++ rest) :
    rounds placeholder text done = spell placeholder (fill (valueOf done) cells) := by
  induction done using List.reverseRecOn generalizing rest with
  | nil =>
    rw [show valueOf ([] : List (κ × List α)) = fun _ => none from rfl, fill_none, hspelled]
    rfl
  | append_singleton done a ih =>
    obtain ⟨k, v⟩ := a
    rw [List.append_assoc] at horder
    have hdone := ih horder
    have hplaces := h done k v rest horder
    rw [horder, List.map_append, List.singleton_append, List.map_cons] at hkeys
    have hk : k ∉ done.map (·.1) := fun hmem =>
      (List.nodup_append.mp hkeys).2.2 k hmem k List.mem_cons_self rfl
    rw [hdone] at hplaces
    rw [rounds, List.foldl_append, List.foldl_cons, List.foldl_nil, ← rounds, hdone,
      replace_spell (hplaceholder k) v hplaces, fill_single_fill (valueOf_eq_none_iff.mpr hk),
      valueOf_snoc hk]

/-- Where filling some holes never disturbs the others, rounds in any order replace rightly. -/
theorem rightly_of_undisturbed (hplaceholder : ∀ k, placeholder k ≠ [])
    (hkeys : (assignments.map (·.1)).Nodup) (hspelled : spell placeholder cells = text)
    (hperm : order.Perm assignments)
    (h : ∀ (chosen : κ → Bool), ∀ k ∈ assignments.map (·.1), chosen k = false →
      replacedAt (placeholder k)
          (spell placeholder (fill (restrict chosen (valueOf assignments)) cells)) =
        holesAt placeholder k (fill (restrict chosen (valueOf assignments)) cells)) :
    Rightly placeholder text cells order := by
  have horder : (order.map (·.1)).Nodup := (hperm.map (·.1)).nodup_iff.mpr hkeys
  -- induction on the rounds made so far: they have replaced rightly, hence filled their holes
  have hprefix : ∀ done rest : List (κ × List α), order = done ++ rest →
      Rightly placeholder text cells done := by
    intro done
    induction done using List.reverseRecOn with
    | nil =>
      intro _ _ front k v back hfront
      exact absurd hfront.symm (List.append_ne_nil_of_right_ne_nil _ (List.cons_ne_nil _ _))
    | append_singleton done a ih =>
      intro rest hrest front k v back hfront
      rw [List.append_assoc] at hrest
      have hdone := ih _ hrest
      rcases List.eq_nil_or_concat back with rfl | ⟨back, b, rfl⟩
      · obtain ⟨rfl, ha⟩ := List.append_inj' hfront rfl
        obtain rfl := (List.cons.inj ha).1
        rw [hrest, List.map_append] at horder
        have hsplit := List.nodup_append.mp horder
        have hk : k ∉ done.map (·.1) := fun hmem =>
          hsplit.2.2 k hmem k List.mem_cons_self rfl
        have hsub : done ++ ((k, v) :: rest) ⊆ assignments := by
          rw [← List.singleton_append, ← hrest]
          exact hperm.subset
        have hmem : k ∈ assignments.map (·.1) :=
          List.mem_map_of_mem (hsub (List.mem_append_right _ List.mem_cons_self))
        rw [hdone.rounds_eq hplaceholder hspelled hsplit.1 (List.append_nil done).symm,
          valueOf_of_subset hkeys hsplit.1 fun a ha => hsub (List.mem_append_left _ ha)]
        exact h _ k hmem (decide_eq_false hk)
      · rw [List.concat_eq_append, ← List.cons_append, ← List.append_assoc] at hfront
        exact hdone front k v back (List.append_inj' hfront rfl).1
  exact hprefix order [] (List.append_nil order).symm

/-- Rounds in any order substitute simultaneously, if and only if the placeholders of the text do
not overlap and filling some never makes or breaks one of the others. -/
theorem simultaneous_iff (hplaceholder : ∀ k, placeholder k ≠ [])
    (hkeys : (assignments.map (·.1)).Nodup) (text : List α) :
    Simultaneous placeholder assignments text ↔ Undisturbed placeholder assignments text := by
  refine exists_congr fun cells => and_congr_right fun hreads => ⟨fun h chosen k hk hchosen => ?_,
    fun h order hperm => ?_⟩
  · -- the chosen keys first, then this one
    obtain ⟨a, ha, rfl⟩ := List.mem_map.mp hk
    obtain ⟨done, rest, hdone, hmem, hperm⟩ : ∃ done rest : List (κ × List α),
        done = assignments.filter (fun a => chosen a.1) ∧ done ⊆ assignments ∧
          (done ++ a :: rest).Perm assignments := by
      refine ⟨_, (assignments.filter fun a => !chosen a.1).erase a, rfl,
        List.filter_subset_self _, ?_⟩
      have hnot : a ∈ assignments.filter fun a => !chosen a.1 :=
        List.mem_filter.mpr ⟨ha, by simp [hchosen]⟩
      exact ((List.perm_cons_erase hnot).symm.append_left _).trans
        (List.filter_append_perm _ assignments)
    obtain ⟨hrightly, -⟩ := h _ hperm
    have horder : ((done ++ a :: rest).map (·.1)).Nodup := (hperm.map (·.1)).nodup_iff.mpr hkeys
    have hrounds := hrightly.rounds_eq hplaceholder hreads.spelled horder rfl
    have hplaces := hrightly done a.1 a.2 rest rfl
    have hdoneKeys : (done.map (·.1)).Nodup := by
      rw [List.map_append] at horder
      exact (List.nodup_append.mp horder).1
    rwa [hrounds, valueOf_of_subset hkeys hdoneKeys hmem, restrict_congr fun j hj => ?_] at hplaces
    rw [hdone]
    obtain ⟨b, hb, rfl⟩ := List.mem_map.mp hj
    by_cases hchosenb : chosen b.1 = true
    · rw [hchosenb, decide_eq_true_eq]
      exact List.mem_map_of_mem (List.mem_filter.mpr ⟨hb, hchosenb⟩)
    · rw [Bool.not_eq_true] at hchosenb
      rw [hchosenb, decide_eq_false_iff_not]
      intro hmem
      obtain ⟨c, hc, hcb⟩ := List.mem_map.mp hmem
      have hchosenc := (List.mem_filter.mp hc).2
      rw [hcb, hchosenb] at hchosenc
      exact absurd hchosenc Bool.false_ne_true
  · have horder : (order.map (·.1)).Nodup := (hperm.map (·.1)).nodup_iff.mpr hkeys
    have hrightly := rightly_of_undisturbed hplaceholder hkeys hreads.spelled hperm h
    refine ⟨hrightly, ?_⟩
    rw [← valueOf_perm hkeys hperm]
    exact hrightly.rounds_eq hplaceholder hreads.spelled horder (List.append_nil order).symm

end Rounds

end Keys

end Substitution
