import PushIT.Library.Transition

/-!
# Refinement of systems

A system refines another one along a map of its states when each of its steps is a step of the
other or changes nothing that the map shows.  Runs are mapped to runs, and what every run of the
abstract system keeps holds of the images.

## Main definitions

* `Transition.System.Refines`: refinement under a guard of each side, in the states of an
  invariant.

## Main results

* `Transition.System.Refines.reach`: runs are mapped to runs.
* `Transition.System.Refines.invariant`: invariants of the abstract system hold of the images.
-/

namespace Transition.System

variable {σ τ α β : Type*} {S : System σ α} {A : System τ β}

/-- Every guarded step from a state with the invariant is shown as a guarded step of `A`, or not
at all. -/
def Refines (S : System σ α) (A : System τ β) (ok : σ → α → Prop) (ok' : τ → β → Prop)
    (I : σ → Prop) (f : σ → τ) : Prop :=
  ∀ ⦃s a t⦄, I s → ok s a → S.step s a = some t →
    f t = f s ∨ ∃ b, ok' (f s) b ∧ A.step (f s) b = some (f t)

variable {ok : σ → α → Prop} {ok' : τ → β → Prop} {I : σ → Prop} {f : σ → τ}

/-- A run is shown as a run. -/
theorem Refines.reach (h : S.Refines A ok ok' I f) (hI : S.Preserves ok I) {s t : σ}
    (hst : S.Reach ok s t) (hs : I s) : A.Reach ok' (f s) (f t) := by
  refine hst.relation hI (R := fun s t => A.Reach ok' (f s) (f t))
    (fun s => .refl (f s)) (fun _ _ _ h h' => h.trans h') ?_ hs
  intro s a t hs ha hstep
  rcases h hs ha hstep with heq | ⟨b, hok, hb⟩
  · rw [heq]
    exact .refl (f s)
  · exact (Reach.refl (f s)).tail hok hb

/-- What every guarded step of the abstract system keeps holds of the images along a run. -/
theorem Refines.invariant (h : S.Refines A ok ok' I f) (hI : S.Preserves ok I) {P : τ → Prop}
    (hP : A.Preserves ok' P) {s t : σ} (hst : S.Reach ok s t) (hs : I s) (h0 : P (f s)) :
    P (f t) :=
  (h.reach hI hst hs).invariant hP h0

end Transition.System
