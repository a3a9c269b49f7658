import Mathlib.Data.List.Sort

/-!
# Stable sorting by a comparison

A stable sort that asks its elements one question only, whether one of them comes before another.
Where the answers are those of a key in a linear order, the result is in the order of the keys; on
two elements the result shows what was answered.

## Main results

* `StableSort.sorted_ascending`, `StableSort.sorted_descending`: the order of the result.
* `StableSort.answer_of_sorted`: the answer about a pair whose two lists are sorted correctly.
-/

namespace StableSort

variable {α K : Type*} (before : α → α → Bool)

/-- The list in the order of `before`, or in the opposite order; elements of which neither is
before the other keep their order in both cases. -/
def sorted (reverse : Bool) (l : List α) : List α :=
  if reverse then (l.reverse.insertionSort fun a b => (!before b a) = true).reverse
  else l.insertionSort fun a b => (!before b a) = true

variable {before}

theorem sorted_perm (reverse : Bool) (l : List α) : (sorted before reverse l).Perm l := by
  unfold sorted
  split
  · exact (List.reverse_perm _).trans ((List.perm_insertionSort _ _).trans (List.reverse_perm l))
  · exact List.perm_insertionSort _ l

@[simp] theorem mem_sorted {reverse : Bool} {l : List α} {a : α} :
    a ∈ sorted before reverse l ↔ a ∈ l :=
  (sorted_perm reverse l).mem_iff

variable [LinearOrder K] {key : α → K} {l : List α}

private theorem insertionSort_pairwise
    (hkey : ∀ a ∈ l, ∀ b ∈ l, before a b = decide (key a < key b)) :
    (l.insertionSort fun a b => (!before b a) = true).Pairwise fun a b => key a ≤ key b := by
  have hmap := List.map_insertionSort (fun a b => (!before b a) = true) (· ≤ ·) key l
    fun a ha b hb => by simp [hkey b hb a ha]
  have hsorted := List.pairwise_insertionSort (· ≤ ·) (l.map key)
  rw [← hmap] at hsorted
  exact List.pairwise_map.mp hsorted

theorem sorted_ascending (hkey : ∀ a ∈ l, ∀ b ∈ l, before a b = decide (key a < key b)) :
    (sorted before false l).Pairwise fun a b => key a ≤ key b :=
  insertionSort_pairwise hkey

theorem sorted_descending (hkey : ∀ a ∈ l, ∀ b ∈ l, before a b = decide (key a < key b)) :
    (sorted before true l).Pairwise fun a b => key b ≤ key a := by
  have hrev : ∀ a ∈ l.reverse, ∀ b ∈ l.reverse, before a b = decide (key a < key b) :=
    fun a ha b hb => hkey a (List.mem_reverse.mp ha) b (List.mem_reverse.mp hb)
  exact List.pairwise_reverse.mpr (insertionSort_pairwise hrev)

/-- What two elements are sorted to. -/
theorem sorted_pair (reverse : Bool) (a b : α) :
    sorted before reverse [a, b] =
      if (if reverse then before a b else before b a) then [b, a] else [a, b] := by
  cases reverse with
  | false =>
    cases hba : before b a <;> simp [sorted, List.orderedInsert, hba]
  | true =>
    cases hab : before a b <;> simp [sorted, List.orderedInsert, hab]

/-- A pair whose two lists are both sorted strictly was compared as its keys are. -/
theorem answer_of_sorted {reverse : Bool} {a b : α} (hne : key a ≠ key b)
    (h : (sorted before reverse [a, b]).Pairwise fun x y =>
      if reverse then key y < key x else key x < key y)
    (h' : (sorted before reverse [b, a]).Pairwise fun x y =>
      if reverse then key y < key x else key x < key y) :
    before a b = decide (key a < key b) := by
  rw [sorted_pair] at h h'
  rcases lt_or_gt_of_ne hne with hlt | hgt
  · rw [decide_eq_true hlt]
    by_contra hab
    cases reverse with
    | false =>
      -- the list `[b, a]` was left as it is
      have hbad : key b < key a := by simpa [hab] using h'
      exact lt_asymm hlt hbad
    | true =>
      have hbad : key b < key a := by simpa [hab] using h
      exact lt_asymm hlt hbad
  · rw [decide_eq_false (lt_asymm hgt)]
    by_contra hab
    rw [Bool.not_eq_false] at hab
    cases reverse with
    | false =>
      have hbad : key a < key b := by simpa [hab] using h'
      exact lt_asymm hgt hbad
    | true =>
      have hbad : key a < key b := by simpa [hab] using h
      exact lt_asymm hgt hbad

end StableSort
