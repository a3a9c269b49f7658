import PushIT.Library.Table

/-!
# Foreign keys and unique columns

A table refers to another one when every row names a row of the other, and a column is unique
when no two rows of a table share its value.  The rules say what each operation on either table
needs for these constraints to hold afterwards; a deletion cascades when the rows that refer to a
deleted one go with it.

## Main definitions

* `Relational.Table.References`: a foreign key.
* `Relational.Table.Unique`: a unique column, on the rows that meet a condition.

## Main results

* `Relational.Table.References.cascade`: a deletion that cascades keeps a foreign key.
* `Relational.Table.Unique.of_origin`: rows that keep their value, and at most one new row with a
  value of its own.
* `Relational.Table.length_select_insert`, `Relational.Table.length_select_update_le`: how many rows
  meet a condition.
-/

namespace Relational.Table

variable {R S A : Type*} [Keyed R] [Keyed S]

/-! ### Foreign keys -/

/-- Every row of `T` names a row of `U`. -/
def References (T : Table R) (fk : R → ℕ) (U : Table S) : Prop :=
  ∀ r ∈ T.rows, (U.get? (fk r)).isSome

instance (T : Table R) (fk : R → ℕ) (U : Table S) : Decidable (T.References fk U) :=
  inferInstanceAs (Decidable (∀ r ∈ T.rows, (U.get? (fk r)).isSome))

namespace References

variable {T T' : Table R} {U U' : Table S} {fk : R → ℕ}

theorem shrinks (h : T.References fk U) (hT : T.Shrinks T') : T'.References fk U :=
  fun r hr => h r (hT.rows r hr)

/-- The other table keeps its keys. -/
theorem mono (h : T.References fk U)
    (hU : ∀ k, (U.get? k).isSome → (U'.get? k).isSome) : T.References fk U' :=
  fun r hr => hU _ (h r hr)

theorem update_target (h : T.References fk U) (p : S → Bool) (f : S → S)
    (hf : ∀ s, pk (f s) = pk s) : T.References fk (U.update p f hf) :=
  h.mono fun k hk => by rwa [get?_update, Option.isSome_map]

theorem modify_target (h : T.References fk U) (k : ℕ) (f : S → S)
    (hf : ∀ s, pk (f s) = pk s) : T.References fk (U.modify k f hf) :=
  h.update_target _ f hf

theorem insert_target (h : T.References fk U) (mk : ℕ → S) (hmk : ∀ k, pk (mk k) = k) :
    T.References fk (U.insert mk hmk) :=
  h.mono fun _ hk => by
    obtain ⟨s, hs⟩ := Option.isSome_iff_exists.mp hk
    rw [get?_insert_of_mem hs]
    rfl

/-- The rows that are rewritten still name a row. -/
theorem update (h : T.References fk U) {p : R → Bool} {f : R → R} (hf : ∀ r, pk (f r) = pk r)
    (hnew : ∀ r ∈ T.rows, p r = true → (U.get? (fk (f r))).isSome) :
    (T.update p f hf).References fk U := by
  intro r' hr'
  obtain ⟨r, hr, rfl⟩ := mem_update.mp hr'
  split
  · next hp => exact hnew r hr hp
  · exact h r hr

theorem update_of_eq (h : T.References fk U) {p : R → Bool} {f : R → R}
    (hf : ∀ r, pk (f r) = pk r) (hfk : ∀ r, fk (f r) = fk r) :
    (T.update p f hf).References fk U :=
  h.update hf fun r hr _ => by
    rw [hfk]
    exact h r hr

theorem modify_of_eq (h : T.References fk U) {k : ℕ} {f : R → R} (hf : ∀ r, pk (f r) = pk r)
    (hfk : ∀ r, fk (f r) = fk r) : (T.modify k f hf).References fk U :=
  h.update_of_eq hf hfk

theorem insert (h : T.References fk U) {mk : ℕ → R} (hmk : ∀ k, pk (mk k) = k)
    (hnew : ∀ k, (U.get? (fk (mk k))).isSome) : (T.insert mk hmk).References fk U := by
  intro r hr
  rcases mem_insert.mp hr with hr | rfl
  · exact h r hr
  · exact hnew _

theorem insertAll (h : T.References fk U) {mk : A → ℕ → R} (hmk : ∀ a k, pk (mk a k) = k)
    {as : List A} (hnew : ∀ a ∈ as, ∀ k, (U.get? (fk (mk a k))).isSome) :
    (T.insertAll mk hmk as).References fk U := by
  intro r hr
  rcases mem_insertAll hr with hr | ⟨a, ha, -, heq⟩
  · exact h r hr
  · rw [heq]
    exact hnew a ha _

/-- `ON DELETE CASCADE`: what named a deleted row is deleted. -/
theorem cascade (h : T.References fk U) (p : S → Bool) :
    (T.delete fun r => (U.get? (fk r)).any p).References fk (U.delete p) := by
  intro r hr
  obtain ⟨hr, hkept⟩ := mem_delete.mp hr
  obtain ⟨s, hs⟩ := Option.isSome_iff_exists.mp (h r hr)
  have hp : p s = false := by simpa [hs] using hkept
  rw [get?_delete_of_not hs hp]
  rfl

end References

/-! ### Unique columns -/

/-- Of the rows that meet `p` no two have the same `key`. -/
def Unique {K : Type*} (T : Table R) (p : R → Prop) (key : R → K) : Prop :=
  ∀ r ∈ T.rows, ∀ s ∈ T.rows, p r → p s → key r = key s → r = s

instance {K : Type*} [DecidableEq R] [DecidableEq K] (T : Table R) (p : R → Prop)
    [DecidablePred p] (key : R → K) : Decidable (T.Unique p key) :=
  inferInstanceAs (Decidable (∀ r ∈ T.rows, ∀ s ∈ T.rows, p r → p s → key r = key s → r = s))

namespace Unique

variable {K : Type*} {T T' : Table R} {p : R → Prop} {key : R → K}

theorem shrinks (h : T.Unique p key) (hT : T.Shrinks T') : T'.Unique p key :=
  fun r hr s hs => h r (hT.rows r hr) s (hT.rows s hs)

/-- Every row after an operation is one from before with the same key, or it has a key of its
own. -/
theorem of_origin (h : T.Unique p key)
    (horigin : ∀ r' ∈ T'.rows, p r' →
      (∃ r ∈ T.rows, pk r = pk r' ∧ p r ∧ key r = key r') ∨
        ∀ s' ∈ T'.rows, p s' → key s' = key r' → pk s' = pk r') :
    T'.Unique p key := by
  intro r' hr' s' hs' hpr hps hkey
  refine eq_of_pk hr' hs' ?_
  rcases horigin r' hr' hpr with ⟨r, hr, hidr, hr₀, hkeyr⟩ | hown
  · rcases horigin s' hs' hps with ⟨s, hs, hids, hs₀, hkeys⟩ | hown
    · have heq : r = s := h r hr s hs hr₀ hs₀ (hkeyr.trans (hkey.trans hkeys.symm))
      rw [← hidr, ← hids, heq]
    · exact hown r' hr' hpr hkey
  · exact (hown s' hs' hps hkey.symm).symm

/-- A rewriting that keeps the column. -/
theorem update_of_eq (h : T.Unique p key) {q : R → Bool} {f : R → R}
    (hf : ∀ r, pk (f r) = pk r) (hp : ∀ r, p (f r) → p r) (hkey : ∀ r, key (f r) = key r) :
    (T.update q f hf).Unique p key := by
  refine h.of_origin fun r' hr' hpr => Or.inl ?_
  obtain ⟨r, hr, rfl⟩ := mem_update.mp hr'
  refine ⟨r, hr, ?_, ?_, ?_⟩
  · split <;> simp only [hf]
  · split at hpr
    · exact hp r hpr
    · exact hpr
  · split <;> simp only [hkey]

theorem modify_of_eq (h : T.Unique p key) {k : ℕ} {f : R → R} (hf : ∀ r, pk (f r) = pk r)
    (hp : ∀ r, p (f r) → p r) (hkey : ∀ r, key (f r) = key r) :
    (T.modify k f hf).Unique p key :=
  h.update_of_eq hf hp hkey

/-- One row gets a value that no other row has. -/
theorem modify_of_fresh (h : T.Unique p key) {k : ℕ} {f : R → R} (hf : ∀ r, pk (f r) = pk r)
    (hfresh : ∀ r ∈ T.rows, ∀ s ∈ T.rows, pk s ≠ k → p s → key s ≠ key (f r)) :
    (T.modify k f hf).Unique p key := by
  refine h.of_origin fun r' hr' hpr => ?_
  obtain ⟨r, hr, rfl⟩ := mem_modify.mp hr'
  split at hpr
  · next hid =>
    refine Or.inr fun s' hs' hps heq => ?_
    obtain ⟨s, hs, rfl⟩ := mem_modify.mp hs'
    by_cases hsid : pk s = k
    · rw [if_pos hid, if_pos hsid, hf, hf, hid, hsid]
    · rw [if_neg hsid] at hps heq
      rw [if_pos hid] at heq
      exact absurd heq (hfresh r hr s hs hsid hps)
  · next hid =>
    rw [if_neg hid]
    exact Or.inl ⟨r, hr, rfl, hpr, rfl⟩

/-- A row is inserted with a value that no row has. -/
theorem insert (h : T.Unique p key) {mk : ℕ → R} (hmk : ∀ k, pk (mk k) = k)
    (hfresh : p (mk (T.seq + 1)) → ∀ s ∈ T.rows, p s → key s ≠ key (mk (T.seq + 1))) :
    (T.insert mk hmk).Unique p key := by
  refine h.of_origin fun r' hr' hpr => ?_
  rcases mem_insert.mp hr' with hr | rfl
  · exact Or.inl ⟨r', hr, rfl, hpr, rfl⟩
  · refine Or.inr fun s' hs' hps heq => ?_
    rcases mem_insert.mp hs' with hs | rfl
    · exact absurd heq (hfresh hpr s' hs hps)
    · rfl

/-- Rows are inserted for distinct elements, which their keys tell apart and no row has. -/
theorem insertAll (h : T.Unique p key) {mk : A → ℕ → R} (hmk : ∀ a k, pk (mk a k) = k)
    {as : List A} (element : K → A) (helement : ∀ a k, element (key (mk a k)) = a)
    (hnodup : as.Nodup)
    (hfresh : ∀ a ∈ as, ∀ k, ∀ s ∈ T.rows, p s → key s ≠ key (mk a k)) :
    (T.insertAll mk hmk as).Unique p key := by
  refine h.of_origin fun r' hr' hpr => ?_
  rcases mem_insertAll hr' with hr | ⟨a, ha, hnew, heq⟩
  · exact Or.inl ⟨r', hr, rfl, hpr, rfl⟩
  · refine Or.inr fun s' hs' hps hkey => ?_
    rcases mem_insertAll hs' with hs | ⟨b, hb, hnew', heq'⟩
    · rw [heq] at hkey
      exact absurd hkey (hfresh a ha _ s' hs hps)
    · rw [insertAll_unique (fun r => element (key r)) helement hnodup hs' hr' hnew' hnew
        (congrArg element hkey)]

end Unique

/-! ### Counting rows -/

section Count

variable (T : Table R) (p : R → Bool)

theorem length_select_insert (mk : ℕ → R) (hmk : ∀ k, pk (mk k) = k) :
    ((T.insert mk hmk).select p).length =
      (T.select p).length + if p (mk (T.seq + 1)) then 1 else 0 := by
  change ((T.rows ++ [mk (T.seq + 1)]).filter p).length = _
  rw [List.filter_append, List.length_append]
  cases hp : p (mk (T.seq + 1)) <;> simp [select, hp]

theorem length_select_delete_le (q : R → Bool) :
    ((T.delete q).select p).length ≤ (T.select p).length :=
  (List.Sublist.filter p List.filter_sublist).length_le

/-- No row that is rewritten meets the condition newly. -/
theorem length_select_update_le (q : R → Bool) (f : R → R) (hf : ∀ r, pk (f r) = pk r)
    (hp : ∀ r, p (f r) = true → p r = true) :
    ((T.update q f hf).select p).length ≤ (T.select p).length := by
  simp only [select, update, ← List.countP_eq_length_filter, List.countP_map]
  refine List.countP_mono_left fun r _ hr => ?_
  simp only [Function.comp_apply] at hr
  split at hr
  · exact hp r hr
  · exact hr

end Count

end Relational.Table
