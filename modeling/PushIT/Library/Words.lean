import Mathlib.Data.List.Basic
import Mathlib.Data.List.DropRight
import Mathlib.Data.List.Nodup
import Mathlib.Data.List.TakeWhile
import Mathlib.Data.Nat.Notation
import Mathlib.Tactic.Common

/-!
# Words and their parts

Trimming a word takes away the members at both ends that meet a condition.  A word that is split at
a separator is the list of its labels; to end with a separator and another word, or to be that word,
is to have its labels as a suffix.  A list without repetitions that keeps the members of another
one, in the order in which they occur there first, is the list of its first occurrences.

## Main results

* `Ends.trim_eq_self_iff`: the words that trimming leaves as they are.
* `Labels.suffix_iff`: suffixes of labels as suffixes of words.
* `FirstOccurrences.snoc_new`, `FirstOccurrences.snoc_old`: first occurrences are collected one
  member at a time.
* `FirstOccurrences.find?_eq`: a search sees no repetitions.
* `Splits.flatMap`, `Splits.intercalate`: searches in separated texts.
-/

/-- A condition on the members of a list is decided along the list, also where all members of the
type could be gone through. -/
theorem forall_mem_of_all {α : Type*} {p : α → Prop} [DecidablePred p] {l : List α}
    (h : (l.all fun a => decide (p a)) = true) : ∀ a ∈ l, p a :=
  fun a ha => of_decide_eq_true (List.all_eq_true.mp h a ha)

namespace Ends

variable {α : Type*} (p : α → Bool) (l : List α)

/-- A list without the members at both ends that meet a condition. -/
def trim : List α := (l.dropWhile p).rdropWhile p

/-- No member at an end meets the condition. -/
structure Trimmed : Prop where
  head : ∀ a ∈ l.head?, p a = false
  last : ∀ a ∈ l.getLast?, p a = false

variable {p l}

theorem Trimmed.trim_eq (h : Trimmed p l) : trim p l = l := by
  have hdrop : l.dropWhile p = l := by
    cases l with
    | nil => rfl
    | cons a l => rw [List.dropWhile_cons_of_neg (by simpa using h.head a rfl)]
  rw [trim, hdrop]
  exact List.rdropWhile_eq_self_iff.mpr fun hl => by
    simpa using h.last _ (List.getLast?_eq_some_getLast hl)

variable (p l)

/-- What `trim` leaves has nothing to trim. -/
theorem trimmed_trim : Trimmed p (trim p l) where
  head a ha := by
    have hprefix : trim p l <+: l.dropWhile p := List.rdropWhile_prefix p _
    have hhead : a ∈ (l.dropWhile p).head? := by
      obtain ⟨rest, hrest⟩ := hprefix
      rw [← hrest, List.head?_append]
      simpa using Or.inl ha
    have hnot := List.head?_dropWhile_not p l
    rw [Option.mem_def.mp hhead] at hnot
    simpa using hnot
  last a ha := by
    have hne : trim p l ≠ [] := by
      rintro hnil
      simp [hnil] at ha
    have hnot := List.rdropWhile_last_not p (l := l.dropWhile p) hne
    obtain rfl : (trim p l).getLast hne = a := by
      rw [Option.mem_def, List.getLast?_eq_some_getLast hne] at ha
      exact Option.some.inj ha
    simpa [trim] using hnot

theorem trim_trim : trim p (trim p l) = trim p l :=
  (trimmed_trim p l).trim_eq

theorem trim_eq_self_iff : trim p l = l ↔ Trimmed p l :=
  ⟨fun h => h ▸ trimmed_trim p l, Trimmed.trim_eq⟩

variable {p l}

/-- A member that does not meet the condition stops the trimming. -/
theorem trim_ne_nil {a : α} (ha : a ∈ l) (hp : p a = false) : trim p l ≠ [] := by
  intro hnil
  have hall := List.rdropWhile_eq_nil_iff.mp hnil
  have hdrop : l.dropWhile p = [] := by
    cases hl : l.dropWhile p with
    | nil => rfl
    | cons x xs =>
      have hhead : p x = false := by
        simpa [hl] using List.head?_dropWhile_not p l
      rw [hall x (hl ▸ List.mem_cons_self)] at hhead
      exact absurd hhead Bool.true_eq_false.mp
  rw [List.dropWhile_eq_nil_iff.mp hdrop a ha] at hp
  exact Bool.false_ne_true hp.symm

end Ends

namespace Labels

variable {α : Type*} {sep : α} {base word : List α}

/-- Joined lists of labels. -/
theorem intercalate_append {front back : List (List α)} (hfront : front ≠ []) (hback : back ≠ []) :
    [sep].intercalate (front ++ back) =
      [sep].intercalate front ++ sep :: [sep].intercalate back := by
  induction front with
  | nil => exact absurd rfl hfront
  | cons label front ih =>
    rw [List.cons_append, List.intercalate_cons_of_ne_nil (by simp [hback])]
    cases front with
    | nil => simp
    | cons next front =>
      rw [ih (by simp), List.intercalate_cons_cons]
      simp

variable [BEq α] [LawfulBEq α]

/-- A word whose labels end with those of another one is that word, or ends with a separator and
that word. -/
theorem suffix_iff :
    base.splitOn sep <:+ word.splitOn sep ↔ word = base ∨ sep :: base <:+ word := by
  constructor
  · rintro ⟨front, hfront⟩
    have hword : List.intercalate [sep] (word.splitOn sep) = word := List.intercalate_splitOn sep
    rw [← hfront] at hword
    cases front with
    | nil =>
      rw [List.nil_append, List.intercalate_splitOn] at hword
      exact Or.inl hword.symm
    | cons label front =>
      rw [intercalate_append (by simp) (by simp), List.intercalate_splitOn] at hword
      exact Or.inr ⟨_, hword⟩
  · rintro (rfl | ⟨front, rfl⟩)
    · exact List.suffix_rfl
    · rw [List.splitOn_append_cons_self]
      exact List.suffix_append _ _

end Labels

/-- The members of a list without their repetitions, in the order of their first occurrences. -/
structure FirstOccurrences {α : Type*} [BEq α] (l firsts : List α) : Prop where
  nodup : firsts.Nodup
  mem_iff : ∀ x, x ∈ firsts ↔ x ∈ l
  ordered : firsts.Pairwise fun x y => l.idxOf x < l.idxOf y

namespace FirstOccurrences

variable {α : Type*} [BEq α] {l firsts firsts' : List α} {a : α}

theorem nil : FirstOccurrences ([] : List α) [] :=
  ⟨List.nodup_nil, by simp, List.Pairwise.nil⟩

/-- A list has its first occurrences in one order. -/
theorem unique (h : FirstOccurrences l firsts) (h' : FirstOccurrences l firsts') :
    firsts = firsts' := by
  have hperm : firsts.Perm firsts' := (List.perm_ext_iff_of_nodup h.nodup h'.nodup).mpr fun x =>
    (h.mem_iff x).trans (h'.mem_iff x).symm
  exact hperm.eq_of_pairwise (fun x y _ _ hxy hyx => absurd hxy (Nat.lt_asymm hyx)) h.ordered
    h'.ordered

variable [LawfulBEq α]

/-- A longer list has its old members where they were. -/
private theorem ordered_append (h : FirstOccurrences l firsts) (back : List α) :
    firsts.Pairwise fun x y => (l ++ back).idxOf x < (l ++ back).idxOf y := by
  refine h.ordered.imp_of_mem fun {x y} hx hy hlt => ?_
  rwa [List.idxOf_append_of_mem ((h.mem_iff x).mp hx),
    List.idxOf_append_of_mem ((h.mem_iff y).mp hy)]

/-- A member that was there before is left out. -/
theorem snoc_old (h : FirstOccurrences l firsts) (ha : a ∈ firsts) :
    FirstOccurrences (l ++ [a]) firsts where
  nodup := h.nodup
  mem_iff x := by
    rw [List.mem_append, List.mem_singleton, h.mem_iff]
    exact ⟨Or.inl, fun hx => hx.elim id fun heq => (h.mem_iff x).mp (heq ▸ ha)⟩
  ordered := h.ordered_append [a]

/-- A new member comes last. -/
theorem snoc_new (h : FirstOccurrences l firsts) (ha : a ∉ firsts) :
    FirstOccurrences (l ++ [a]) (firsts ++ [a]) where
  nodup := List.nodup_append'.mpr
    ⟨h.nodup, List.nodup_singleton a, List.disjoint_singleton.mpr ha⟩
  mem_iff x := by rw [List.mem_append, List.mem_append, h.mem_iff]
  ordered := by
    have hnew : a ∉ l := fun hmem => ha ((h.mem_iff a).mpr hmem)
    refine List.pairwise_append.mpr ⟨h.ordered_append [a], List.pairwise_singleton _ _, ?_⟩
    intro x hx y hy
    obtain rfl := List.mem_singleton.mp hy
    have hmem := (h.mem_iff x).mp hx
    rw [List.idxOf_append_of_mem hmem, List.idxOf_append_of_notMem hnew]
    exact Nat.lt_of_lt_of_le (List.idxOf_lt_length_of_mem hmem) (Nat.le_add_right _ _)

/-- A list without repetitions is that of its own first occurrences. -/
theorem refl (h : l.Nodup) : FirstOccurrences l l where
  nodup := h
  mem_iff _ := Iff.rfl
  ordered := List.pairwise_iff_getElem.mpr fun i j hi hj hij => by
    rwa [h.idxOf_getElem i hi, h.idxOf_getElem j hj]

/-- A search finds the same in a list and in its first occurrences. -/
theorem find?_eq (h : FirstOccurrences l firsts) (p : α → Bool) :
    firsts.find? p = l.find? p := by
  cases hfind : l.find? p with
  | none =>
    rw [List.find?_eq_none] at hfind ⊢
    exact fun x hx => hfind x ((h.mem_iff x).mp hx)
  | some a =>
    obtain ⟨hp, front, back, rfl, hfront⟩ := List.find?_eq_some_iff_append.mp hfind
    have ha : a ∈ firsts := (h.mem_iff a).mpr (by simp)
    obtain ⟨before, after, rfl⟩ := List.append_of_mem ha
    refine List.find?_eq_some_iff_append.mpr ⟨hp, before, after, rfl, fun b hb => ?_⟩
    have hlt : (front ++ a :: back).idxOf b < (front ++ a :: back).idxOf a :=
      (List.pairwise_append.mp h.ordered).2.2 b hb a List.mem_cons_self
    have hle : (front ++ a :: back).idxOf a ≤ front.length := by
      have hnot : a ∉ front := fun hmem => by simpa [hp] using hfront a hmem
      rw [List.idxOf_append_of_notMem hnot, List.idxOf_cons_self, Nat.add_zero]
    by_cases hmem : b ∈ front
    · exact hfront b hmem
    · rw [List.idxOf_append_of_notMem hmem] at hlt
      omega

end FirstOccurrences

/-! ### Searches in separated texts -/

/-- A search that finds nothing across a separator: in a text it finds what it finds first in one of
the parts between the separators. -/
structure Splits {α β : Type*} (IsSeparator : α → Prop) (search : List α → Option β) : Prop where
  nil : search [] = none
  append : ∀ sep, IsSeparator sep → ∀ xs ys,
    search (xs ++ sep :: ys) = (search xs).or (search ys)

namespace Splits

variable {α β γ : Type*} {IsSeparator : α → Prop} {search : List α → Option β} {sep : α}

theorem cons (h : Splits IsSeparator search) (hsep : IsSeparator sep) (xs : List α) :
    search (sep :: xs) = search xs := by
  have happend := h.append sep hsep [] xs
  rwa [List.nil_append, h.nil, Option.none_or] at happend

theorem replicate (h : Splits IsSeparator search) (hsep : IsSeparator sep) (n : ℕ) (xs : List α) :
    search (List.replicate n sep ++ xs) = search xs := by
  induction n with
  | zero => rfl
  | succ n ih => rw [List.replicate_succ, List.cons_append, h.cons hsep, ih]

/-- Parts that follow a text, each after a separator. -/
theorem flatMap (h : Splits IsSeparator search) (hsep : IsSeparator sep) (text : γ → List α)
    (xs : List α) (parts : List γ) :
    search (xs ++ parts.flatMap fun p => sep :: text p) =
      (search xs).or (parts.findSome? fun p => search (text p)) := by
  induction parts generalizing xs with
  | nil => rw [List.flatMap_nil, List.append_nil, List.findSome?_nil, Option.or_none]
  | cons p parts ih =>
    rw [List.flatMap_cons, List.cons_append, h.append sep hsep, ih, List.findSome?_cons]
    cases search (text p) <;> simp

/-- Parts with a separator between them. -/
theorem intercalate (h : Splits IsSeparator search) (hsep : IsSeparator sep)
    (parts : List (List α)) :
    search ([sep].intercalate parts) = parts.findSome? search := by
  induction parts with
  | nil => exact h.nil
  | cons part parts ih =>
    rw [List.findSome?_cons]
    cases parts with
    | nil => cases hpart : search part <;> simp [hpart]
    | cons next parts =>
      have hjoined : [sep].intercalate (part :: next :: parts) =
          part ++ sep :: [sep].intercalate (next :: parts) := by
        rw [List.intercalate_cons_cons]
        simp
      rw [hjoined, h.append sep hsep, ih]
      cases search part <;> rfl

end Splits
