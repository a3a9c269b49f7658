import Mathlib.Algebra.GroupWithZero.Nat
import Mathlib.Data.List.Basic
import Mathlib.Data.Nat.Basic
import Mathlib.Order.Nat
import Mathlib.Tactic.Common

/-!
# Tables with a numeric primary key

A table is the list of its rows in the order of their primary keys, together with the last value
of the sequence that numbers them.  The two invariants of a table are fields: the keys strictly
increase and none exceeds the sequence, so that a key is never given twice, not even after the
row that carried it was deleted.

The operations are those a program issues through an object-relational mapper: look up by key,
select, update the rows that meet a condition, delete the rows that meet a condition, insert.

## Main results

* `Relational.Table.get?_update`, `Relational.Table.get?_delete`,
  `Relational.Table.get?_insert_of_mem`: what a look-up answers after each operation.
* `Relational.Table.mem_update`, `Relational.Table.mem_delete`, `Relational.Table.mem_insertAll`:
  the rows after each operation.
-/

namespace Relational

/-- Rows that carry a numeric primary key. -/
class Keyed (R : Type*) where
  /-- The primary key of a row. -/
  pk : R → ℕ

export Keyed (pk)

/-- A table: its rows in key order and the last key handed out. -/
structure Table (R : Type*) [Keyed R] where
  rows : List R
  seq : ℕ
  sorted : rows.Pairwise fun a b => pk a < pk b
  bounded : ∀ r ∈ rows, pk r ≤ seq

namespace Table

variable {R A : Type*} [Keyed R]

/-- The table without rows. -/
def empty : Table R where
  rows := []
  seq := 0
  sorted := .nil
  bounded := by simp

/-- The row with primary key `k`. -/
def get? (T : Table R) (k : ℕ) : Option R :=
  T.rows.find? fun r => pk r == k

/-- The rows that meet a condition, in key order. -/
def select (T : Table R) (p : R → Bool) : List R :=
  T.rows.filter p

/-- Rewrite the rows that meet a condition; the rewriting keeps the primary key. -/
def update (T : Table R) (p : R → Bool) (f : R → R) (hf : ∀ r, pk (f r) = pk r) : Table R where
  rows := T.rows.map fun r => if p r then f r else r
  seq := T.seq
  sorted := by
    have hpk : ∀ r, pk (if p r then f r else r) = pk r := fun r => by split <;> simp [hf]
    exact List.pairwise_map.mpr (T.sorted.imp fun h => by simpa only [hpk] using h)
  bounded := by
    intro r hr
    obtain ⟨s, hs, rfl⟩ := List.mem_map.mp hr
    have := T.bounded s hs
    split <;> simpa [hf] using this

/-- The table of other rows under the same keys. -/
def map {S : Type*} [Keyed S] (T : Table R) (f : R → S) (hf : ∀ r, pk (f r) = pk r) : Table S where
  rows := T.rows.map f
  seq := T.seq
  sorted := List.pairwise_map.mpr (T.sorted.imp fun h => by simpa only [hf] using h)
  bounded := by
    intro s hs
    obtain ⟨r, hr, rfl⟩ := List.mem_map.mp hs
    simpa only [hf] using T.bounded r hr

/-- Rewrite the row with primary key `k`. -/
def modify (T : Table R) (k : ℕ) (f : R → R) (hf : ∀ r, pk (f r) = pk r) : Table R :=
  T.update (fun r => pk r == k) f hf

/-- Delete the rows that meet a condition. -/
def delete (T : Table R) (p : R → Bool) : Table R where
  rows := T.rows.filter fun r => !p r
  seq := T.seq
  sorted := T.sorted.filter _
  bounded := fun r hr => T.bounded r (List.mem_filter.mp hr).1

/-- Insert one row under the next key of the sequence. -/
def insert (T : Table R) (mk : ℕ → R) (hmk : ∀ k, pk (mk k) = k) : Table R where
  rows := T.rows ++ [mk (T.seq + 1)]
  seq := T.seq + 1
  sorted := by
    rw [List.pairwise_append]
    refine ⟨T.sorted, List.pairwise_singleton _ _, fun a ha b hb => ?_⟩
    rw [List.mem_singleton.mp hb, hmk]
    exact Nat.lt_succ_of_le (T.bounded a ha)
  bounded := by
    intro r hr
    rcases List.mem_append.mp hr with hr | hr
    · exact Nat.le_succ_of_le (T.bounded r hr)
    · rw [List.mem_singleton.mp hr, hmk]

/-- Store a row under its own key, in the place of the one that carries it or as a new row. -/
def put (T : Table R) (r : R) : Table R where
  rows := (T.rows.filter fun s => decide (pk s < pk r)) ++
    r :: T.rows.filter fun s => decide (pk r < pk s)
  seq := max T.seq (pk r)
  sorted := by
    rw [List.pairwise_append, List.pairwise_cons]
    refine ⟨T.sorted.filter _, ⟨fun s hs => ?_, T.sorted.filter _⟩, fun s hs t ht => ?_⟩
    · simpa using (List.mem_filter.mp hs).2
    · have hsr : pk s < pk r := by simpa using (List.mem_filter.mp hs).2
      rcases List.mem_cons.mp ht with rfl | ht
      · exact hsr
      · exact hsr.trans (by simpa using (List.mem_filter.mp ht).2)
  bounded := by
    intro s hs
    rcases List.mem_append.mp hs with hs | hs
    · exact (T.bounded s (List.mem_filter.mp hs).1).trans (Nat.le_max_left _ _)
    · rcases List.mem_cons.mp hs with rfl | hs
      · exact Nat.le_max_right _ _
      · exact (T.bounded s (List.mem_filter.mp hs).1).trans (Nat.le_max_left _ _)

/-- Insert one row for each element of a list, in order. -/
def insertAll (T : Table R) (mk : A → ℕ → R) (hmk : ∀ a k, pk (mk a k) = k) :
    List A → Table R
  | [] => T
  | a :: as => insertAll (T.insert (mk a) (hmk a)) mk hmk as

/-! ### Look-up -/

theorem eq_of_pk {T : Table R} {r s : R} (hr : r ∈ T.rows) (hs : s ∈ T.rows)
    (h : pk r = pk s) : r = s := by
  have hpw := List.pairwise_iff_getElem.mp T.sorted
  by_contra hne
  obtain ⟨i, hi, rfl⟩ := List.mem_iff_getElem.mp hr
  obtain ⟨j, hj, rfl⟩ := List.mem_iff_getElem.mp hs
  rcases lt_trichotomy i j with hij | hij | hij
  · exact absurd h (hpw i j hi hj hij).ne
  · subst hij; exact hne rfl
  · exact absurd h (hpw j i hj hi hij).ne'

theorem pairwise_pk_ne (T : Table R) : T.rows.Pairwise fun a b => pk a ≠ pk b :=
  T.sorted.imp fun h => h.ne

theorem get?_eq_some {T : Table R} {k : ℕ} {r : R} :
    T.get? k = some r ↔ r ∈ T.rows ∧ pk r = k := by
  constructor
  · intro h
    exact ⟨List.mem_of_find?_eq_some h, by simpa using List.find?_some h⟩
  · rintro ⟨hr, rfl⟩
    cases hf : T.get? (pk r) with
    | none => simpa using List.find?_eq_none.mp hf r hr
    | some s =>
      have hs : pk s = pk r := by simpa using List.find?_some hf
      rw [eq_of_pk (List.mem_of_find?_eq_some hf) hr hs]

theorem get?_pk {T : Table R} {r : R} (hr : r ∈ T.rows) : T.get? (pk r) = some r :=
  get?_eq_some.mpr ⟨hr, rfl⟩

theorem get?_eq_none {T : Table R} {k : ℕ} : T.get? k = none ↔ ∀ r ∈ T.rows, pk r ≠ k := by
  simp [get?, List.find?_eq_none]

/-- No row carries a key beyond the sequence. -/
theorem get?_of_seq_lt {T : Table R} {k : ℕ} (h : T.seq < k) : T.get? k = none :=
  get?_eq_none.mpr fun r hr => (lt_of_le_of_lt (T.bounded r hr) h).ne

/-- The first row that meets a condition is the one with the least key. -/
theorem find?_eq_some_iff {T : Table R} {p : R → Bool} {r : R} :
    T.rows.find? p = some r ↔
      r ∈ T.rows ∧ p r = true ∧ ∀ s ∈ T.rows, pk s < pk r → ¬p s = true := by
  constructor
  · intro h
    obtain ⟨hp, before, after, hrows, hbefore⟩ := List.find?_eq_some_iff_append.mp h
    have hr : r ∈ T.rows := List.mem_of_find?_eq_some h
    refine ⟨hr, hp, fun s hs hlt => ?_⟩
    have hsorted := T.sorted
    rw [hrows] at hs hsorted
    rcases List.mem_append.mp hs with hs | hs
    · simpa using hbefore s hs
    · rcases List.mem_cons.mp hs with rfl | hs
      · exact absurd hlt (lt_irrefl _)
      · have hafter := List.rel_of_pairwise_cons (List.pairwise_append.mp hsorted).2.1 hs
        exact absurd (hlt.trans hafter) (lt_irrefl _)
  · rintro ⟨hr, hp, hfirst⟩
    cases hfind : T.rows.find? p with
    | none => exact absurd hp (List.find?_eq_none.mp hfind r hr)
    | some s =>
      obtain ⟨hps, before, after, hrows, hbefore⟩ := List.find?_eq_some_iff_append.mp hfind
      have hsorted := T.sorted
      have hs : s ∈ T.rows := List.mem_of_find?_eq_some hfind
      rw [hrows] at hr hsorted
      rcases List.mem_append.mp hr with hr | hr
      · have hnot := hbefore r hr
        simp [hp] at hnot
      · rcases List.mem_cons.mp hr with rfl | hr
        · rfl
        · have hafter := List.rel_of_pairwise_cons (List.pairwise_append.mp hsorted).2.1 hr
          exact absurd hps (hfirst s hs hafter)

/-! ### The rows after each operation -/

@[simp] theorem mem_empty {r : R} : r ∈ (empty : Table R).rows ↔ False := by
  simp [empty]

theorem mem_select {T : Table R} {p : R → Bool} {r : R} :
    r ∈ T.select p ↔ r ∈ T.rows ∧ p r = true :=
  List.mem_filter

theorem mem_update {T : Table R} {p : R → Bool} {f : R → R} {hf : ∀ r, pk (f r) = pk r} {r : R} :
    r ∈ (T.update p f hf).rows ↔ ∃ s ∈ T.rows, r = if p s then f s else s := by
  simp only [update, List.mem_map, eq_comm (b := r)]

theorem mem_modify {T : Table R} {k : ℕ} {f : R → R} {hf : ∀ r, pk (f r) = pk r} {r : R} :
    r ∈ (T.modify k f hf).rows ↔ ∃ s ∈ T.rows, r = if pk s = k then f s else s := by
  simp [modify, mem_update]

theorem mem_delete {T : Table R} {p : R → Bool} {r : R} :
    r ∈ (T.delete p).rows ↔ r ∈ T.rows ∧ p r = false := by
  simp [delete]

theorem mem_insert {T : Table R} {mk : ℕ → R} {hmk : ∀ k, pk (mk k) = k} {r : R} :
    r ∈ (T.insert mk hmk).rows ↔ r ∈ T.rows ∨ r = mk (T.seq + 1) := by
  simp [insert]

theorem mem_put {T : Table R} {r s : R} :
    s ∈ (T.put r).rows ↔ s = r ∨ (s ∈ T.rows ∧ pk s ≠ pk r) := by
  simp only [put, List.mem_append, List.mem_cons, List.mem_filter, decide_eq_true_eq]
  constructor
  · rintro (⟨hs, hlt⟩ | rfl | ⟨hs, hlt⟩)
    · exact Or.inr ⟨hs, hlt.ne⟩
    · exact Or.inl rfl
    · exact Or.inr ⟨hs, hlt.ne'⟩
  · rintro (rfl | ⟨hs, hne⟩)
    · exact Or.inr (Or.inl rfl)
    · rcases Nat.lt_or_gt_of_ne hne with hlt | hlt
      · exact Or.inl ⟨hs, hlt⟩
      · exact Or.inr (Or.inr ⟨hs, hlt⟩)

@[simp] theorem seq_update (T : Table R) (p : R → Bool) (f : R → R)
    (hf : ∀ r, pk (f r) = pk r) : (T.update p f hf).seq = T.seq := rfl

@[simp] theorem seq_modify (T : Table R) (k : ℕ) (f : R → R)
    (hf : ∀ r, pk (f r) = pk r) : (T.modify k f hf).seq = T.seq := rfl

@[simp] theorem seq_delete (T : Table R) (p : R → Bool) : (T.delete p).seq = T.seq := rfl

@[simp] theorem seq_insert (T : Table R) (mk : ℕ → R) (hmk : ∀ k, pk (mk k) = k) :
    (T.insert mk hmk).seq = T.seq + 1 := rfl

theorem seq_le_insertAll (T : Table R) (mk : A → ℕ → R) (hmk : ∀ a k, pk (mk a k) = k)
    (as : List A) : T.seq ≤ (T.insertAll mk hmk as).seq := by
  induction as generalizing T with
  | nil => exact le_rfl
  | cons a as ih => exact (Nat.le_succ _).trans (ih (T.insert (mk a) (hmk a)))

/-- The rows after a bulk insertion: the old ones, and one row with a new key for each element
of the list. -/
theorem mem_insertAll {T : Table R} {mk : A → ℕ → R} {hmk : ∀ a k, pk (mk a k) = k}
    {as : List A} {r : R} (hr : r ∈ (T.insertAll mk hmk as).rows) :
    r ∈ T.rows ∨ ∃ a ∈ as, T.seq < pk r ∧ r = mk a (pk r) := by
  induction as generalizing T with
  | nil => exact Or.inl hr
  | cons a as ih =>
    rcases ih hr with h | ⟨b, hb, hlt, h⟩
    · rcases mem_insert.mp h with h | h
      · exact Or.inl h
      · refine Or.inr ⟨a, List.mem_cons_self, ?_, ?_⟩ <;> rw [h, hmk]
        exact Nat.lt_succ_self _
    · exact Or.inr ⟨b, List.mem_cons_of_mem _ hb, (Nat.lt_succ_self _).trans hlt, h⟩

/-- A bulk insertion makes one row for each of distinct elements, and `key` reads the element. -/
theorem insertAll_unique {T : Table R} {mk : A → ℕ → R} {hmk : ∀ a k, pk (mk a k) = k}
    {as : List A} (key : R → A) (hkey : ∀ a k, key (mk a k) = a) (hnodup : as.Nodup) {r s : R}
    (hr : r ∈ (T.insertAll mk hmk as).rows) (hs : s ∈ (T.insertAll mk hmk as).rows)
    (hrnew : T.seq < pk r) (hsnew : T.seq < pk s) (h : key r = key s) : r = s := by
  induction as generalizing T with
  | nil => exact absurd hrnew (Nat.not_lt.mpr (T.bounded r hr))
  | cons a as ih =>
    obtain ⟨hnot, hrest⟩ := List.nodup_cons.mp hnodup
    -- a new row is the first one inserted, or one of the others
    have hcases : ∀ x ∈ (T.insertAll mk hmk (a :: as)).rows, T.seq < pk x →
        x = mk a (T.seq + 1) ∨ T.seq + 1 < pk x ∧ key x ∈ as := by
      intro x hx hnew
      change x ∈ ((T.insert (mk a) (hmk a)).insertAll mk hmk as).rows at hx
      rcases mem_insertAll hx with hold | ⟨b, hb, hlt, heq⟩
      · rcases mem_insert.mp hold with hold | hfirst
        · exact absurd hnew (Nat.not_lt.mpr (T.bounded x hold))
        · exact Or.inl hfirst
      · refine Or.inr ⟨hlt, ?_⟩
        rw [heq, hkey]
        exact hb
    rcases hcases r hr hrnew with rfl | ⟨hrlater, hrmem⟩
    · rcases hcases s hs hsnew with rfl | ⟨-, hsmem⟩
      · rfl
      · rw [← h, hkey] at hsmem
        exact absurd hsmem hnot
    · rcases hcases s hs hsnew with rfl | ⟨hslater, -⟩
      · rw [h, hkey] at hrmem
        exact absurd hrmem hnot
      · exact ih hrest hr hs hrlater hslater

theorem mem_insertAll_of_mem {T : Table R} {mk : A → ℕ → R} {hmk : ∀ a k, pk (mk a k) = k}
    {as : List A} {r : R} (hr : r ∈ T.rows) : r ∈ (T.insertAll mk hmk as).rows := by
  induction as generalizing T with
  | nil => exact hr
  | cons a as ih => exact ih (mem_insert.mpr (Or.inl hr))

/-! ### Selections -/

/-- A selection is made of a wider one. -/
theorem select_of_select {T : Table R} {p q : R → Bool}
    (h : ∀ r ∈ T.rows, p r = true → q r = true) : T.select p = (T.select q).filter p := by
  rw [select, select, List.filter_filter]
  refine List.filter_congr fun r hr => ?_
  cases hp : p r with
  | true => simp [h r hr hp]
  | false => rfl

/-- Selections within selections that two tables share. -/
theorem select_congr {T T' : Table R} {p p' q q' : R → Bool} (h : T'.select q' = T.select q)
    (hp : ∀ r ∈ T.select q, p' r = p r) (hq : ∀ r ∈ T.rows, p r = true → q r = true)
    (hq' : ∀ r ∈ T'.rows, p' r = true → q' r = true) : T'.select p' = T.select p := by
  rw [select_of_select hq, select_of_select hq', h]
  exact List.filter_congr hp

theorem any_rows (T : Table R) (p : R → Bool) : T.rows.any p = (T.select p).any fun _ => true := by
  simp [select, List.any_filter]

/-- A look-up among the rows that meet a condition. -/
theorem filter_get? (T : Table R) (p : R → Bool) (k : ℕ) :
    (T.get? k).filter p = (T.select p).find? fun r => pk r == k := by
  ext r
  rw [Option.filter_eq_some_iff, get?_eq_some]
  constructor
  · rintro ⟨⟨hr, hk⟩, hp⟩
    cases hs : (T.select p).find? fun r => pk r == k with
    | none => simpa [hk] using List.find?_eq_none.mp hs r (mem_select.mpr ⟨hr, hp⟩)
    | some s =>
      have hpk : pk s = k := by simpa using List.find?_some hs
      rw [eq_of_pk (mem_select.mp (List.mem_of_find?_eq_some hs)).1 hr (hpk.trans hk.symm)]
  · intro hs
    obtain ⟨hr, hp⟩ := mem_select.mp (List.mem_of_find?_eq_some hs)
    exact ⟨⟨hr, by simpa using List.find?_some hs⟩, hp⟩

/-! ### Look-ups after each operation -/

theorem get?_update (T : Table R) (p : R → Bool) (f : R → R) (hf : ∀ r, pk (f r) = pk r)
    (k : ℕ) :
    (T.update p f hf).get? k = (T.get? k).map fun r => if p r then f r else r := by
  have hpk : ∀ r, pk (if p r then f r else r) = pk r := fun r => by split <;> simp [hf]
  simp only [get?, update, List.find?_map, Function.comp_def, hpk]

theorem get?_map {S : Type*} [Keyed S] (T : Table R) (f : R → S) (hf : ∀ r, pk (f r) = pk r)
    (k : ℕ) : (T.map f hf).get? k = (T.get? k).map f := by
  simp only [get?, map, List.find?_map, Function.comp_def, hf]

theorem get?_modify (T : Table R) (k : ℕ) (f : R → R) (hf : ∀ r, pk (f r) = pk r) (j : ℕ) :
    (T.modify k f hf).get? j = (T.get? j).map fun r => if pk r = k then f r else r := by
  simp [modify, get?_update]

theorem get?_modify_self (T : Table R) (k : ℕ) (f : R → R) (hf : ∀ r, pk (f r) = pk r) :
    (T.modify k f hf).get? k = (T.get? k).map f := by
  rw [get?_modify]
  cases h : T.get? k with
  | none => rfl
  | some r => simp [(get?_eq_some.mp h).2]

theorem get?_modify_of_ne (T : Table R) {k j : ℕ} (f : R → R) (hf : ∀ r, pk (f r) = pk r)
    (h : j ≠ k) : (T.modify k f hf).get? j = T.get? j := by
  rw [get?_modify]
  cases hj : T.get? j with
  | none => rfl
  | some r =>
    have : pk r ≠ k := (get?_eq_some.mp hj).2 ▸ h
    simp [this]

theorem get?_delete (T : Table R) (p : R → Bool) (k : ℕ) :
    (T.delete p).get? k = (T.get? k).filter fun r => !p r := by
  cases h : T.get? k with
  | none =>
    rw [Option.filter_none, get?_eq_none]
    intro r hr
    exact get?_eq_none.mp h r (mem_delete.mp hr).1
  | some r =>
    obtain ⟨hr, rfl⟩ := get?_eq_some.mp h
    by_cases hp : p r = true
    · simp only [Option.filter, hp, Bool.not_true, Bool.false_eq_true, ↓reduceIte]
      rw [get?_eq_none]
      intro s hs hpk
      rw [eq_of_pk (mem_delete.mp hs).1 hr hpk, mem_delete] at hs
      simp [hp] at hs
    · simp only [Option.filter, Bool.not_eq_true] at hp ⊢
      simp only [hp, Bool.not_false, ↓reduceIte]
      exact get?_eq_some.mpr ⟨mem_delete.mpr ⟨hr, hp⟩, rfl⟩

/-- After a row was stored under its own key, that key shows it. -/
theorem get?_put (T : Table R) (r : R) (k : ℕ) :
    (T.put r).get? k = if k = pk r then some r else T.get? k := by
  ext s
  by_cases hk : k = pk r
  · rw [if_pos hk, get?_eq_some, mem_put, Option.some_inj]
    constructor
    · rintro ⟨rfl | ⟨-, hne⟩, hpk⟩
      · rfl
      · exact absurd (hpk.trans hk) hne
    · rintro rfl
      exact ⟨Or.inl rfl, hk.symm⟩
  · rw [if_neg hk, get?_eq_some, get?_eq_some, mem_put]
    constructor
    · rintro ⟨rfl | ⟨hs, -⟩, hpk⟩
      · exact absurd hpk.symm hk
      · exact ⟨hs, hpk⟩
    · rintro ⟨hs, hpk⟩
      exact ⟨Or.inr ⟨hs, fun h => hk (hpk.symm.trans h)⟩, hpk⟩

/-- An old row keeps its key through an insertion. -/
theorem get?_insert_of_mem {T : Table R} {mk : ℕ → R} {hmk : ∀ k, pk (mk k) = k} {k : ℕ} {r : R}
    (h : T.get? k = some r) : (T.insert mk hmk).get? k = some r := by
  obtain ⟨hr, rfl⟩ := get?_eq_some.mp h
  exact get?_pk (mem_insert.mpr (Or.inl hr))

/-- An insertion changes no look-up of an old key. -/
theorem get?_insert_of_le {T : Table R} (mk : ℕ → R) (hmk : ∀ k, pk (mk k) = k) {k : ℕ}
    (h : k ≤ T.seq) : (T.insert mk hmk).get? k = T.get? k := by
  have hnew : (pk (mk (T.seq + 1)) == k) = false := by
    rw [hmk]
    exact beq_false_of_ne (by omega)
  unfold get? insert
  rw [List.find?_append, List.find?_cons, hnew, List.find?_nil, Option.or_none]

/-- Old rows keep their keys through a bulk insertion. -/
theorem get?_insertAll_of_mem {T : Table R} {mk : A → ℕ → R} {hmk : ∀ a k, pk (mk a k) = k}
    {as : List A} {k : ℕ} {r : R} (h : T.get? k = some r) :
    (T.insertAll mk hmk as).get? k = some r := by
  obtain ⟨hr, rfl⟩ := get?_eq_some.mp h
  exact get?_pk (mem_insertAll_of_mem hr)

/-- A row that no condition of a deletion meets keeps its key. -/
theorem get?_delete_of_not {T : Table R} {p : R → Bool} {k : ℕ} {r : R}
    (h : T.get? k = some r) (hp : p r = false) : (T.delete p).get? k = some r := by
  rw [get?_delete, h]
  simp [Option.filter, hp]

/-! ### Equal tables -/

theorem eq_of_rows {T T' : Table R} (hrows : T.rows = T'.rows) (hseq : T.seq = T'.seq) :
    T = T' := by
  cases T
  cases T'
  simp_all

/-- Two rewritings that do the same to each row. -/
theorem update_congr {T : Table R} {p q : R → Bool} {f g : R → R} (hf : ∀ r, pk (f r) = pk r)
    (hg : ∀ r, pk (g r) = pk r)
    (h : ∀ r ∈ T.rows, (if p r then f r else r) = if q r then g r else r) :
    T.update p f hf = T.update q g hg :=
  eq_of_rows (List.map_congr_left h) rfl

/-- A second rewriting, of the row with primary key `k`, does the same as a single one. -/
theorem modify_update {T : Table R} {p q : R → Bool} {f g e : R → R}
    (hf : ∀ r, pk (f r) = pk r) (hg : ∀ r, pk (g r) = pk r) {he : ∀ r, pk (e r) = pk r} {k : ℕ}
    (hk : ∀ r ∈ T.rows, pk r = k → e (if p r then f r else r) = if q r then g r else r)
    (hne : ∀ r ∈ T.rows, pk r ≠ k → (if p r then f r else r) = if q r then g r else r) :
    (T.update p f hf).modify k e he = T.update q g hg := by
  refine eq_of_rows ?_ rfl
  simp only [modify, update, List.map_map]
  refine List.map_congr_left fun r hr => ?_
  have hpk : pk (if p r then f r else r) = pk r := by split <;> simp [hf]
  by_cases hid : pk r = k
  · simp only [Function.comp_apply, hpk, hid, beq_self_eq_true, if_true]
    exact hk r hr hid
  · simp only [Function.comp_apply, hpk, hid, beq_iff_eq, if_false]
    exact hne r hr hid

/-- A row with a fresh key is stored behind the others. -/
theorem rows_put_of_seq_lt {T : Table R} {r : R} (h : T.seq < pk r) :
    (T.put r).rows = T.rows ++ [r] := by
  have hlt : ∀ s ∈ T.rows, pk s < pk r := fun s hs => (T.bounded s hs).trans_lt h
  have hbefore : (T.rows.filter fun s => decide (pk s < pk r)) = T.rows :=
    List.filter_eq_self.mpr fun s hs => by simpa using hlt s hs
  have hafter : (T.rows.filter fun s => decide (pk r < pk s)) = [] :=
    List.filter_eq_nil_iff.mpr fun s hs => by simpa using (hlt s hs).le
  simp only [put, hbefore, hafter]

/-! ### Tables with fewer rows -/

/-- Rows were deleted, and the sequence stayed. -/
structure Shrinks (T T' : Table R) : Prop where
  rows : ∀ r ∈ T'.rows, r ∈ T.rows
  seq : T'.seq = T.seq

theorem Shrinks.refl (T : Table R) : Shrinks T T := ⟨fun _ h => h, rfl⟩

theorem Shrinks.trans {T T' U : Table R} (h : Shrinks T T') (h' : Shrinks T' U) :
    Shrinks T U :=
  ⟨fun r hr => h.rows r (h'.rows r hr), h'.seq.trans h.seq⟩

theorem shrinks_delete (T : Table R) (p : R → Bool) : Shrinks T (T.delete p) :=
  ⟨fun _ hr => (mem_delete.mp hr).1, rfl⟩

theorem Shrinks.get? {T T' : Table R} (h : Shrinks T T') {k : ℕ} {r : R}
    (hr : T'.get? k = some r) : T.get? k = some r := by
  obtain ⟨hmem, rfl⟩ := get?_eq_some.mp hr
  exact get?_pk (h.rows r hmem)

/-! ### Sums over the rows -/

/-- The sum of a measure over the rows. -/
def sum (T : Table R) (m : R → ℕ) : ℕ := (T.rows.map m).sum

private theorem sum_map_ite {l : List R} {r : R} {f : R → R} (m : R → ℕ)
    (hl : l.Pairwise fun a b => pk a < pk b) (hr : r ∈ l) :
    (l.map fun a => m (if pk a == pk r then f a else a)).sum + m r =
      (l.map m).sum + m (f r) := by
  induction l with
  | nil => simp at hr
  | cons a l ih =>
    obtain ⟨ha, hl⟩ := List.pairwise_cons.mp hl
    simp only [List.map_cons, List.sum_cons]
    rcases List.mem_cons.mp hr with rfl | hr
    · have hrest : (l.map fun a => m (if pk a == pk r then f a else a)) = l.map m := by
        refine List.map_congr_left fun b hb => ?_
        have hne : pk b ≠ pk r := (ha b hb).ne'
        simp [hne]
      rw [hrest]
      simp only [beq_self_eq_true, if_true]
      omega
    · have hne : pk a ≠ pk r := (ha r hr).ne
      have := ih hl hr
      simp only [beq_iff_eq, hne, if_false] at this ⊢
      omega

/-- Rewriting a row exchanges its measure for that of the new row. -/
theorem sum_modify {T : Table R} {k : ℕ} {r : R} (h : T.get? k = some r) (f : R → R)
    (hf : ∀ r, pk (f r) = pk r) (m : R → ℕ) :
    (T.modify k f hf).sum m + m r = T.sum m + m (f r) := by
  obtain ⟨hr, rfl⟩ := get?_eq_some.mp h
  simp only [sum, modify, update, List.map_map, Function.comp_def]
  exact sum_map_ite m T.sorted hr

/-- Inserting rows of measure zero keeps the sum. -/
theorem sum_insertAll {T : Table R} {mk : A → ℕ → R} {hmk : ∀ a k, pk (mk a k) = k}
    {as : List A} {m : R → ℕ} (hm : ∀ a k, m (mk a k) = 0) :
    (T.insertAll mk hmk as).sum m = T.sum m := by
  induction as generalizing T with
  | nil => rfl
  | cons a as ih =>
    refine (ih (T := T.insert (mk a) (hmk a))).trans ?_
    simp [sum, insert, hm]

/-- A sum of bounded measures over the rows that meet a condition. -/
theorem sum_le_mul_length {T : Table R} {p : R → Bool} {m : R → ℕ} {c : ℕ}
    (hp : ∀ r ∈ T.rows, p r = true → m r ≤ c) (hnot : ∀ r, p r = false → m r = 0) :
    T.sum m ≤ c * (T.select p).length := by
  unfold sum select
  generalize T.rows = l at hp
  induction l with
  | nil => simp
  | cons a l ih =>
    have hl := ih fun r hr => hp r (List.mem_cons_of_mem _ hr)
    cases ha : p a with
    | true =>
      have := hp a List.mem_cons_self ha
      simp only [List.map_cons, List.sum_cons, List.filter_cons_of_pos ha, List.length_cons,
        Nat.mul_add_one]
      omega
    | false =>
      simp only [List.map_cons, List.sum_cons, hnot a ha, Nat.zero_add,
        List.filter_cons_of_neg (show ¬p a = true by simp [ha])]
      exact hl

end Table

end Relational
