import Mathlib.Algebra.BigOperators.Finprod
import PushIT.Library.Transition

/-!
# Systems that come to rest

Finitely many processes are measured by the sum of their ranks, and a system in which every step of
a kind lowers a rank performs only finitely many steps of that kind.

## Main definitions

* `Pool.Finite`, `Pool.total`: finitely many processes, and the sum of a measure over them.

## Main results

* `Pool.Finite.total_set`: the sum after one process was replaced.
* `System.exists_reach_of_rank`: a goal that can be approached from everywhere is reached.
* `System.InfiniteRun.eventually_not`: steps that lower a rank stop.
-/

namespace Transition

/-! ### Finite pools -/

namespace Pool

variable {L : Type*} {P : Pool L}

/-- Finitely many processes are running. -/
def Finite (P : Pool L) : Prop := {i | P i ≠ none}.Finite

theorem finite_idle : Finite (idle : Pool L) := by simp [Finite]

theorem Finite.set (hP : P.Finite) (i : ℕ) (l : Option L) : (P.set i l).Finite := by
  refine (hP.insert i).subset fun j hj => ?_
  by_cases h : j = i
  · exact Or.inl h
  · change P.set i l j ≠ none at hj
    rw [set_of_ne P l h] at hj
    exact Or.inr hj

/-- Some process is running in a pool that is not idle. -/
theorem exists_of_ne_idle (h : P ≠ idle) : ∃ i x, P i = some x := by
  by_contra hnone
  push Not at hnone
  refine h (funext fun i => ?_)
  cases hi : P i with
  | none => rfl
  | some x => exact absurd hi (hnone i x)

/-- The sum of a measure over the running processes. -/
noncomputable def total (P : Pool L) (m : L → ℕ) : ℕ := ∑ᶠ i, (P i).elim 0 m

/-- The sum over a finite set that holds the running processes. -/
theorem total_eq_sum (m : L → ℕ) {s : Finset ℕ} (hs : ∀ i, P i ≠ none → i ∈ s) :
    P.total m = ∑ i ∈ s, (P i).elim 0 m := by
  refine finsum_eq_sum_of_support_subset _ fun i hi => hs i fun hnone => ?_
  exact hi (by simp [hnone])

/-- Replacing one process replaces its summand. -/
theorem Finite.total_set (hP : P.Finite) (m : L → ℕ) (i : ℕ) (l : Option L) :
    (P.set i l).total m + (P i).elim 0 m = P.total m + l.elim 0 m := by
  classical
  let s : Finset ℕ := insert i hP.toFinset
  have hmem : i ∈ s := Finset.mem_insert_self i _
  have hs : ∀ j, P j ≠ none → j ∈ s := fun j hj =>
    Finset.mem_insert_of_mem (hP.mem_toFinset.mpr hj)
  have hset : ∀ j, P.set i l j ≠ none → j ∈ s := by
    intro j hj
    by_cases h : j = i
    · exact h ▸ hmem
    · exact hs j (set_of_ne P l h ▸ hj)
  have hrest : ∑ j ∈ s.erase i, (P.set i l j).elim 0 m = ∑ j ∈ s.erase i, (P j).elim 0 m :=
    Finset.sum_congr rfl fun j hj => by rw [set_of_ne P l (Finset.ne_of_mem_erase hj)]
  rw [total_eq_sum m hs, total_eq_sum m hset, ← Finset.add_sum_erase s _ hmem,
    ← Finset.add_sum_erase s _ hmem, hrest, set_self]
  omega

end Pool

/-! ### Steps that lower a rank -/

namespace System

variable {σ α β : Type*} {S : System σ α} {ok : σ → α → Prop} [Preorder β] [WellFoundedLT β]

/-- Where some step lowers a rank as long as a goal is not met, the goal can be reached. -/
theorem exists_reach_of_rank (I goal : σ → Prop) (rank : σ → β)
    (hstep : ∀ s, I s → ¬goal s → ∃ a t, ok s a ∧ S.step s a = some t ∧ I t ∧ rank t < rank s)
    {s : σ} (h : I s) : ∃ t, S.Reach ok s t ∧ I t ∧ goal t := by
  obtain ⟨b, hb⟩ : ∃ b, rank s = b := ⟨_, rfl⟩
  induction b using WellFoundedLT.induction generalizing s with
  | ind b ih =>
    by_cases hgoal : goal s
    · exact ⟨s, .refl s, h, hgoal⟩
    · obtain ⟨a, t, hok, ht, hI, hlt⟩ := hstep s h hgoal
      obtain ⟨u, hreach, hu⟩ := ih _ (hb ▸ hlt) hI rfl
      exact ⟨u, .head hok ht hreach, hu⟩

/-- In an infinite run in which no step raises a rank, the steps that lower it stop. -/
theorem InfiniteRun.eventually_not {run : ℕ → σ} {labels : ℕ → α}
    (h : S.InfiniteRun ok run labels) {I : σ → Prop} (hI : S.Preserves ok I) (h₀ : I (run 0))
    (lowers : α → Prop) (rank : σ → β)
    (hle : ∀ ⦃s a t⦄, I s → ok s a → S.step s a = some t → rank t ≤ rank s)
    (hlt : ∀ ⦃s a t⦄, I s → ok s a → S.step s a = some t → lowers a → rank t < rank s) :
    ∃ N, ∀ i, N ≤ i → ¬lowers (labels i) := by
  have hall : ∀ i, I (run i) := by
    intro i
    induction i with
    | zero => exact h₀
    | succ i ih => exact hI ih (h.guard i) (h.step i)
  by_contra hfair
  push Not at hfair
  obtain ⟨N, hN⟩ := h.exists_not_of_rank I lowers rank (fun s a t hs _ => hle hs)
    (fun s a t hs _ => hlt hs) hfair
  exact hN (hall N)

end System

end Transition
