import PushIT.Library.Transition
import Mathlib.Data.Set.Basic

/-!
# Values that are used once

A process draws a value that nobody drew before, holds it for a while, stores it, and the value
is taken out of the store again.  A ledger keeps the three stages.  When the steps of a system
move values forward only, a value that has left the store never returns to it.

## Main definitions

* `Transition.Ledger`, `Transition.Ledger.Sound`: the stages, and that they exclude each other.
* `Transition.Ledger.Moves`: what a step of one process may do.

## Main results

* `Transition.Ledger.Sound.moves`: moves keep the stages apart.
* `Transition.Ledger.not_stored_again`: what left the store stays out of it.
-/

namespace Transition

/-- The values drawn so far, those each process holds, and those in each place of the store. -/
structure Ledger (ι κ V : Type*) where
  drawn : Set V
  held : ι → Set V
  stored : κ → Set V

namespace Ledger

variable {ι κ V : Type*}

/-- A value that is held or stored was drawn; it is held by one process, or stored in one
place. -/
structure Sound (L : Ledger ι κ V) : Prop where
  held_drawn : ∀ i, ∀ v ∈ L.held i, v ∈ L.drawn
  stored_drawn : ∀ k, ∀ v ∈ L.stored k, v ∈ L.drawn
  held_not_stored : ∀ i k, ∀ v ∈ L.held i, v ∉ L.stored k
  holder : ∀ i j, ∀ v ∈ L.held i, v ∈ L.held j → i = j
  place : ∀ k l, ∀ v ∈ L.stored k, v ∈ L.stored l → k = l

/-- The value was drawn between the two ledgers. -/
def Fresh (L L' : Ledger ι κ V) (v : V) : Prop := v ∉ L.drawn ∧ v ∈ L'.drawn

/-- A step of process `i` on the place `k`: it holds and stores what it held or drew, and gives
up what it stores. -/
structure Moves (L L' : Ledger ι κ V) (i : ι) (k : κ) : Prop where
  drawn : ∀ v ∈ L.drawn, v ∈ L'.drawn
  held : ∀ v ∈ L'.held i, v ∈ L.held i ∨ L.Fresh L' v
  others : ∀ j, j ≠ i → ∀ v ∈ L'.held j, v ∈ L.held j
  stored : ∀ l, ∀ v ∈ L'.stored l,
    v ∈ L.stored l ∨ l = k ∧ (v ∈ L.held i ∨ L.Fresh L' v) ∧ v ∉ L'.held i

/-- The value was drawn, and no process holds it any more. -/
def Settled (L : Ledger ι κ V) (v : V) : Prop := v ∈ L.drawn ∧ ∀ i, v ∉ L.held i

variable {L L' : Ledger ι κ V} {i : ι} {k : κ} {v : V}

theorem Sound.settled (h : L.Sound) (hv : v ∈ L.stored k) : L.Settled v :=
  ⟨h.stored_drawn k v hv, fun i hi => h.held_not_stored i k v hi hv⟩

theorem Sound.moves (h : L.Sound) (hm : L.Moves L' i k) : L'.Sound := by
  have hheld : ∀ j, ∀ v ∈ L'.held j, v ∈ L.held j ∨ (j = i ∧ L.Fresh L' v) := by
    intro j v hv
    by_cases hj : j = i
    · subst hj
      exact (hm.held v hv).imp id fun hfresh => ⟨rfl, hfresh⟩
    · exact Or.inl (hm.others j hj v hv)
  -- what is stored newly was in no place before
  have hnew : ∀ v, v ∈ L.held i ∨ L.Fresh L' v → ∀ l, v ∉ L.stored l := by
    rintro v (hv | hfresh) l hl
    · exact h.held_not_stored i l v hv hl
    · exact hfresh.1 (h.stored_drawn l v hl)
  refine ⟨?_, ?_, ?_, ?_, ?_⟩
  · intro j v hv
    rcases hheld j v hv with hold | ⟨-, hfresh⟩
    · exact hm.drawn v (h.held_drawn j v hold)
    · exact hfresh.2
  · intro l v hv
    rcases hm.stored l v hv with hold | ⟨-, hold | hfresh, -⟩
    · exact hm.drawn v (h.stored_drawn l v hold)
    · exact hm.drawn v (h.held_drawn i v hold)
    · exact hfresh.2
  · intro j l v hv hstored
    rcases hm.stored l v hstored with hold | ⟨-, hold, hgiven⟩
    · rcases hheld j v hv with hheld | ⟨-, hfresh⟩
      · exact h.held_not_stored j l v hheld hold
      · exact hfresh.1 (h.stored_drawn l v hold)
    · have hj : j ≠ i := fun hj => hgiven (hj ▸ hv)
      have hother := hm.others j hj v hv
      rcases hold with hold | hfresh
      · exact hj (h.holder j i v hother hold)
      · exact hfresh.1 (h.held_drawn j v hother)
  · intro j l v hj hl
    rcases hheld j v hj with hj | ⟨rfl, hfresh⟩ <;> rcases hheld l v hl with hl | ⟨rfl, hfresh'⟩
    · exact h.holder j l v hj hl
    · exact absurd (h.held_drawn j v hj) hfresh'.1
    · exact absurd (h.held_drawn l v hl) hfresh.1
    · rfl
  · intro j l v hj hl
    rcases hm.stored j v hj with hj | ⟨rfl, hfrom, -⟩ <;>
      rcases hm.stored l v hl with hl | ⟨rfl, hfrom', -⟩
    · exact h.place j l v hj hl
    · exact absurd hj (hnew v hfrom' j)
    · exact absurd hl (hnew v hfrom l)
    · rfl

theorem Settled.moves (hv : L.Settled v) (hm : L.Moves L' i k) : L'.Settled v := by
  refine ⟨hm.drawn v hv.1, fun j hj => ?_⟩
  by_cases hji : j = i
  · subst hji
    exact (hm.held v hj).elim (hv.2 j) fun hfresh => hfresh.1 hv.1
  · exact hv.2 j (hm.others j hji v hj)

/-- No step stores a value that is settled. -/
theorem Settled.not_stored (hv : L.Settled v) (hm : L.Moves L' i k) {l : κ}
    (hout : v ∉ L.stored l) : v ∉ L'.stored l := by
  intro hstored
  rcases hm.stored l v hstored with hold | ⟨-, hheld | hfresh, -⟩
  · exact hout hold
  · exact hv.2 i hheld
  · exact hfresh.1 hv.1

section Runs

variable {σ α : Type*} {S : System σ α} {ok : σ → α → Prop} {I : σ → Prop}
  {view : σ → Ledger ι κ V}

/-- A settled value is stored nowhere it was not stored before. -/
theorem Settled.not_stored_of_reach (hI : S.Preserves ok I)
    (hmoves : ∀ ⦃s a t⦄, I s → ok s a → S.step s a = some t →
      ∃ i k, (view s).Moves (view t) i k)
    {s t : σ} (h0 : I s) (h : S.Reach ok s t) (hv : (view s).Settled v) {l : κ}
    (hout : v ∉ (view s).stored l) : (view t).Settled v ∧ v ∉ (view t).stored l := by
  have hkept : S.Preserves ok fun w => I w ∧ (view w).Settled v ∧ v ∉ (view w).stored l :=
    hI.and fun w a w' hw hv ha hstep => by
      obtain ⟨i, k, hm⟩ := hmoves hw ha hstep
      exact ⟨hv.1.moves hm, hv.1.not_stored hm hv.2⟩
  exact (h.invariant hkept ⟨h0, hv, hout⟩).2

/-- A value that was in a place of the store and left it never returns, to no place. -/
theorem not_stored_again (view : σ → Ledger ι κ V) (hI : S.Preserves ok I)
    (hsound : ∀ s, I s → (view s).Sound)
    (hmoves : ∀ ⦃s a t⦄, I s → ok s a → S.step s a = some t →
      ∃ i k, (view s).Moves (view t) i k)
    {s t u : σ} (h0 : I s) (hst : S.Reach ok s t) (htu : S.Reach ok t u)
    (hs : v ∈ (view s).stored k) (ht : v ∉ (view t).stored k) (l : κ) :
    v ∉ (view u).stored l := by
  have hsettled := (hsound s h0).settled hs
  by_cases hl : l = k
  · subst hl
    have hkept : S.Preserves ok fun w => I w ∧ (view w).Settled v :=
      hI.and fun w a w' hw hv ha hstep => by
        obtain ⟨i, k, hm⟩ := hmoves hw ha hstep
        exact hv.moves hm
    obtain ⟨hIt, hsettled⟩ := hst.invariant hkept ⟨h0, hsettled⟩
    exact (hsettled.not_stored_of_reach hI hmoves hIt htu ht).2
  · -- the other places did not have it at the start
    have hout : v ∉ (view s).stored l := fun hin => hl ((hsound s h0).place l k v hin hs)
    exact (hsettled.not_stored_of_reach hI hmoves h0 (hst.trans htu) hout).2

end Runs

end Ledger

end Transition
