import Mathlib.Order.Bounds.Basic
import Mathlib.Order.Iterate

/-!
# Leaving a family of half-open intervals

A family of half-open intervals is a relation between their bounds.  A point that no interval
contains is free; from a point that is not, one jump leads to the latest end of the intervals that
contain it.  Jumping on never passes over a free point and keeps the order of the points it starts
from, so that the first free point it meets is the least one.

## Main definitions

* `Coverage.endsAt`, `Coverage.Free`: the intervals around a point.
* `Coverage.LeadsOut`: a function that computes the jump.
* `Coverage.Reaches`: the points reached in a number of jumps.

## Main results

* `Coverage.LeadsOut.exit_mono`: a jump keeps the order.
* `Coverage.LeadsOut.iterate_le`: jumps do not pass over a free point.
* `Coverage.LeadsOut.iterate_eq_iff`: the least free point is the result of `n` jumps exactly when
  it is reached in at most `n`.
-/

namespace Coverage

variable {α : Type*} [LinearOrder α] (C : α → α → Prop)

/-- The ends of the intervals that contain a point. -/
def endsAt (t : α) : Set α := {b | ∃ a, C a b ∧ a ≤ t ∧ t < b}

/-- No interval contains the point. -/
def Free (t : α) : Prop := endsAt C t = ∅

/-- From `t` it takes `n` jumps, each to the latest end around the point, to come to `f`. -/
inductive Reaches : ℕ → α → α → Prop
  | refl (t) : Reaches 0 t t
  | jump {n t e f} (he : IsGreatest (endsAt C t) e) (h : Reaches n e f) : Reaches (n + 1) t f

/-- `jump` leads to the latest end of the intervals that contain a point, and nowhere from a free
one. -/
structure LeadsOut (jump : α → Option α) : Prop where
  free : ∀ t, jump t = none → Free C t
  greatest : ∀ t e, jump t = some e → IsGreatest (endsAt C t) e

/-- A jump, or no move at all. -/
def exit (jump : α → Option α) (t : α) : α := (jump t).getD t

variable {C} {jump : α → Option α}

theorem Free.not_mem {t e : α} (h : Free C t) : e ∉ endsAt C t := by
  rw [h]
  exact Set.notMem_empty e

/-- Between a point and an end around it no point is free. -/
theorem not_free_of_mem_endsAt {t e x : α} (he : e ∈ endsAt C t) (htx : t ≤ x) (hxe : x < e) :
    ¬Free C x := by
  obtain ⟨a, hC, hat, -⟩ := he
  exact fun hfree => hfree.not_mem ⟨a, hC, hat.trans htx, hxe⟩

omit [LinearOrder α] in
theorem exit_of_none {t : α} (h : jump t = none) : exit jump t = t := by
  rw [exit, h, Option.getD_none]

omit [LinearOrder α] in
theorem exit_of_some {t e : α} (h : jump t = some e) : exit jump t = e := by
  rw [exit, h, Option.getD_some]

namespace LeadsOut

variable (hj : LeadsOut C jump)

include hj

theorem eq_none {t : α} (h : Free C t) : jump t = none := by
  cases hjump : jump t with
  | none => rfl
  | some e => exact absurd (hj.greatest t e hjump).1 h.not_mem

theorem eq_some {t e : α} (h : IsGreatest (endsAt C t) e) : jump t = some e := by
  cases hjump : jump t with
  | none => exact absurd h.1 (hj.free t hjump).not_mem
  | some e' => rw [(hj.greatest t e' hjump).unique h]

theorem exit_eq_self {t : α} (h : Free C t) : exit jump t = t :=
  exit_of_none (hj.eq_none h)

theorem le_exit (t : α) : t ≤ exit jump t := by
  cases hjump : jump t with
  | none => exact (exit_of_none hjump).ge
  | some e =>
    obtain ⟨-, -, -, hlt⟩ := (hj.greatest t e hjump).1
    rw [exit_of_some hjump]
    exact hlt.le

/-- A later point is around the same interval, or already behind it. -/
theorem exit_mono : Monotone (exit jump) := by
  intro s t hst
  cases hjump : jump s with
  | none => exact (exit_of_none hjump).le.trans (hst.trans (hj.le_exit t))
  | some e =>
    rw [exit_of_some hjump]
    obtain ⟨a, hC, has, -⟩ := (hj.greatest s e hjump).1
    rcases le_or_gt e t with het | hte
    · exact het.trans (hj.le_exit t)
    · have hmem : e ∈ endsAt C t := ⟨a, hC, has.trans hst, hte⟩
      cases hjump' : jump t with
      | none => exact absurd hmem (hj.free t hjump').not_mem
      | some e' =>
        rw [exit_of_some hjump']
        exact (hj.greatest t e' hjump').2 hmem

theorem le_iterate (n : ℕ) (t : α) : t ≤ (exit jump)^[n] t :=
  Function.id_le_iterate_of_id_le hj.le_exit n t

theorem iterate_mono (n : ℕ) : Monotone (exit jump)^[n] :=
  hj.exit_mono.iterate n

/-- Jumping passes over no free point. -/
theorem not_free_of_lt_iterate {n : ℕ} {t x : α} (htx : t ≤ x) (hx : x < (exit jump)^[n] t) :
    ¬Free C x := by
  induction n generalizing t with
  | zero => exact absurd htx (not_le.mpr hx)
  | succ n ih =>
    rw [Function.iterate_succ_apply] at hx
    rcases le_or_gt (exit jump t) x with hle | hlt
    · exact ih hle hx
    · cases hjump : jump t with
      | none => exact absurd htx (not_le.mpr (exit_of_none hjump ▸ hlt))
      | some e =>
        exact not_free_of_mem_endsAt (hj.greatest t e hjump).1 htx (exit_of_some hjump ▸ hlt)

theorem iterate_le {n : ℕ} {t x : α} (htx : t ≤ x) (hx : Free C x) : (exit jump)^[n] t ≤ x :=
  not_lt.mp fun hlt => hj.not_free_of_lt_iterate htx hlt hx

theorem iterate_eq_self {t : α} (h : Free C t) (n : ℕ) : (exit jump)^[n] t = t :=
  Function.iterate_fixed (hj.exit_eq_self h) n

theorem iterate_of_reaches {n : ℕ} {t f : α} (h : Reaches C n t f) : (exit jump)^[n] t = f := by
  induction h with
  | refl => rfl
  | jump he _ ih => rw [Function.iterate_succ_apply, exit_of_some (hj.eq_some he), ih]

/-- The result of `n` jumps is reached in exactly `n`, or it is free and reached in fewer. -/
theorem reaches_iterate (n : ℕ) (t : α) :
    Reaches C n t ((exit jump)^[n] t) ∨
      Free C ((exit jump)^[n] t) ∧ ∃ m < n, Reaches C m t ((exit jump)^[n] t) := by
  induction n generalizing t with
  | zero => exact Or.inl (.refl t)
  | succ n ih =>
    rw [Function.iterate_succ_apply]
    cases hjump : jump t with
    | none =>
      have hfree := hj.free t hjump
      rw [exit_of_none hjump, hj.iterate_eq_self hfree]
      exact Or.inr ⟨hfree, 0, n.succ_pos, .refl t⟩
    | some e =>
      rw [exit_of_some hjump]
      rcases ih e with h | ⟨hfree, m, hm, h⟩
      · exact Or.inl (.jump (hj.greatest t e hjump) h)
      · exact Or.inr ⟨hfree, m + 1, Nat.succ_lt_succ hm, .jump (hj.greatest t e hjump) h⟩

/-- The least free point is the result of `n` jumps exactly when it is reached in at most `n`. -/
theorem iterate_eq_iff {n : ℕ} {t f : α} (hf : IsLeast {x | t ≤ x ∧ Free C x} f) :
    (exit jump)^[n] t = f ↔ ∃ m ≤ n, Reaches C m t f := by
  constructor
  · rintro rfl
    rcases hj.reaches_iterate n t with h | ⟨-, m, hm, h⟩
    · exact ⟨n, le_rfl, h⟩
    · exact ⟨m, hm.le, h⟩
  · rintro ⟨m, hm, h⟩
    obtain ⟨k, rfl⟩ := Nat.exists_eq_add_of_le' hm
    rw [Function.iterate_add_apply, hj.iterate_of_reaches h, hj.iterate_eq_self hf.1.2]

end LeadsOut

end Coverage
