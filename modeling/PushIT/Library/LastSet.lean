import PushIT.Library.Table

/-!
# The value last set

Several writers share the rows of a table.  Each loads a row, changes some columns of the
instance in memory and saves it, those columns alone or the whole row.  The history keeps, for
each change a writer meant, its columns and the instance they were taken from, the newest first;
replaying it gives what was last set.  A table is up to date when every row shows that, as far as
a view of the rows looks.

## Main definitions

* `Relational.Change`, `Relational.lastSet`: the history and its replay.
* `Relational.UpToDate`: every row shows what was last set.

## Main results

* `Relational.UpToDate.put`: a save keeps a table up to date when the row it leaves is the
  stored one with the columns of the change.
* `Relational.UpToDate.saveColumns`, `Relational.UpToDate.saveWhole`: a save of the columns of the
  change always does, one of the whole instance does when the instance is current.
-/

namespace Relational

/-- A change of the columns `columns` of a row, to those of an instance. -/
structure Change (C R : Type*) where
  key : ℕ
  columns : C
  object : R
  deriving DecidableEq, Repr

variable {C R V : Type*} [Keyed R] (copy : C → R → R → R)

/-- The value after a change: the whole instance where there was none. -/
def Change.onto (c : Change C R) : Option R → R
  | none => c.object
  | some r => copy c.columns c.object r

/-- The value that the changes since `initial` leave for a key. -/
def lastSet (initial : Table R) : List (Change C R) → ℕ → Option R
  | [], k => initial.get? k
  | c :: cs, k =>
    if c.key = k then some (c.onto copy (lastSet initial cs k)) else lastSet initial cs k

/-- Copying columns into rows with one view leaves rows with one view. -/
def Respects (view : R → V) : Prop :=
  ∀ ⦃c o r r'⦄, view r = view r' → view (copy c o r) = view (copy c o r')

/-- Save some columns of an instance; a row that is gone is an error. -/
def saveColumns (T : Table R) (columns : C) (o : R) : Option (Table R) :=
  (T.get? (pk o)).map fun row => T.put (copy columns o row)

/-- The instance shows the stored row, but for the given columns. -/
def isCurrent [DecidableEq V] (view : R → V) (T : Table R) (columns : C) (o : R) : Bool :=
  (T.get? (pk o)).any fun row => decide (view (copy columns o row) = view o)

/-- Every row shows what was last set. -/
def UpToDate (view : R → V) (initial : Table R) (changes : List (Change C R)) (T : Table R) :
    Prop :=
  ∀ r ∈ T.rows, ∃ e, lastSet copy initial changes (pk r) = some e ∧ view r = view e

open Table

variable {copy} {view : R → V} {initial T T' : Table R} {changes : List (Change C R)}

theorem upToDate_nil (T : Table R) : UpToDate copy view T [] T :=
  fun r hr => ⟨r, get?_pk hr, rfl⟩

/-- Deleting rows, and rewriting others where the view does not look, keeps a table up to date. -/
theorem UpToDate.keep (h : UpToDate copy view initial changes T)
    (hrows : ∀ r' ∈ T'.rows, ∃ r ∈ T.rows, pk r = pk r' ∧ view r' = view r) :
    UpToDate copy view initial changes T' := by
  intro r' hr'
  obtain ⟨r, hr, hpk, hview⟩ := hrows r' hr'
  obtain ⟨e, he, heq⟩ := h r hr
  exact ⟨e, hpk ▸ he, hview.trans heq⟩

private theorem lastSet_self (c : Change C R) (k : ℕ) (hkey : c.key = k) :
    lastSet copy initial (c :: changes) k =
      some (c.onto copy (lastSet copy initial changes k)) :=
  if_pos hkey

private theorem lastSet_of_ne (c : Change C R) {k : ℕ} (hkey : c.key ≠ k) :
    lastSet copy initial (c :: changes) k = lastSet copy initial changes k :=
  if_neg hkey

/-- A change that sets what a row shows already. -/
theorem UpToDate.note (h : UpToDate copy view initial changes T) (hcopy : Respects copy view)
    {c : Change C R}
    (hrow : ∀ r, T.get? c.key = some r → view r = view (copy c.columns c.object r)) :
    UpToDate copy view initial (c :: changes) T := by
  intro r hr
  obtain ⟨e, he, hview⟩ := h r hr
  by_cases hkey : c.key = pk r
  · refine ⟨_, lastSet_self c _ hkey, ?_⟩
    rw [he, hrow r (hkey ▸ get?_pk hr)]
    exact hcopy hview
  · exact ⟨e, (lastSet_of_ne c hkey).trans he, hview⟩

/-- One row, if it is there afterwards, is set in every column the view shows. -/
theorem UpToDate.setRow (h : UpToDate copy view initial changes T) {columns : C}
    (hall : ∀ o r, view (copy columns o r) = view o) (k : ℕ)
    (hrows : ∀ r' ∈ T'.rows, pk r' ≠ k → ∃ r ∈ T.rows, pk r = pk r' ∧ view r' = view r) :
    UpToDate copy view initial
      (((T'.get? k).map fun o => ⟨k, columns, o⟩).toList ++ changes) T' := by
  intro r' hr'
  by_cases hkey : pk r' = k
  · subst hkey
    rw [get?_pk hr']
    refine ⟨_, lastSet_self _ _ rfl, ?_⟩
    change view r' = view (Change.onto copy ⟨pk r', columns, r'⟩ (lastSet copy initial changes _))
    cases lastSet copy initial changes (pk r') with
    | none => rfl
    | some e => exact (hall r' e).symm
  · obtain ⟨r, hr, hpk, hview⟩ := hrows r' hr' hkey
    obtain ⟨e, he, heq⟩ := h r hr
    refine ⟨e, ?_, hview.trans heq⟩
    rw [← hpk] at hkey ⊢
    cases T'.get? k with
    | none => exact he
    | some o => exact (lastSet_of_ne _ (Ne.symm hkey)).trans he

/-- A save: the row it leaves shows the stored one with the columns of the change, and a new row
shows the instance. -/
theorem UpToDate.put (h : UpToDate copy view initial changes T) (hcopy : Respects copy view)
    {a : R} {c : Change C R} (hkey : c.key = pk a)
    (hrow : ∀ r, T.get? (pk a) = some r → view a = view (copy c.columns c.object r))
    (hnew : T.get? (pk a) = none → ∀ e, view a = view (c.onto copy e)) :
    UpToDate copy view initial (c :: changes) (T.put a) := by
  intro s hs
  rcases mem_put.mp hs with rfl | ⟨hs, hne⟩
  · refine ⟨_, lastSet_self c _ hkey, ?_⟩
    cases hstored : T.get? (pk s) with
    | none => exact hnew hstored _
    | some r =>
      obtain ⟨hr, hpk⟩ := get?_eq_some.mp hstored
      obtain ⟨e, he, hview⟩ := h r hr
      rw [hrow r hstored, ← hpk, he]
      exact hcopy hview
  · obtain ⟨e, he, hview⟩ := h s hs
    exact ⟨e, (lastSet_of_ne c (hkey ▸ Ne.symm hne)).trans he, hview⟩

theorem isCurrent_eq_true [DecidableEq V] {columns : C} {o : R} :
    isCurrent copy view T columns o = true ↔
      ∃ row, T.get? (pk o) = some row ∧ view (copy columns o row) = view o := by
  cases h : T.get? (pk o) <;> simp [isCurrent, h]

/-- A save of the columns of the change. -/
theorem UpToDate.saveColumns (h : UpToDate copy view initial changes T)
    (hcopy : Respects copy view) {columns : C} {o : R} (hpk : ∀ r, pk r = pk o →
      pk (copy columns o r) = pk o)
    (hsave : saveColumns copy T columns o = some T') :
    UpToDate copy view initial (⟨pk o, columns, o⟩ :: changes) T' := by
  obtain ⟨row, hrow, rfl⟩ := Option.map_eq_some_iff.mp hsave
  have hkey := hpk row (get?_eq_some.mp hrow).2
  refine h.put hcopy hkey.symm ?_ fun hnone => ?_
  · intro r hr
    rw [hkey] at hr
    obtain rfl := Option.some.inj (hrow.symm.trans hr)
    rfl
  · rw [hkey, hrow] at hnone
    simp at hnone

/-- A save of a whole instance that is current but for the columns of the change. -/
theorem UpToDate.saveWhole (h : UpToDate copy view initial changes T) (hcopy : Respects copy view)
    {columns : C} {o row : R} (hrow : T.get? (pk o) = some row)
    (hcurrent : view (copy columns o row) = view o) :
    UpToDate copy view initial (⟨pk o, columns, o⟩ :: changes) (T.put o) := by
  refine h.put hcopy rfl ?_ fun hnone => ?_
  · intro r hr
    obtain rfl := Option.some.inj (hrow.symm.trans hr)
    exact hcurrent.symm
  · rw [hrow] at hnone
    simp at hnone

end Relational
