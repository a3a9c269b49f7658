import PushIT.Library.Transition

/-!
# Labels that leave no trace

Some labels are silent for a relation on states when performing one leads to a state that the
relation cannot tell from the one before, while the other labels keep related states related.
Then a run and the run without its silent labels end in related states.  The guard is about the
first of the two runs only.

## Main definitions

* `Transition.System.Unwinding`: the two conditions, one for each kind of label.

## Main results

* `Transition.System.Unwinding.purge`: a run without its silent labels.
-/

namespace Transition.System

variable {σ α : Type*} {S : System σ α}

/-- Where the guard allows them, silent labels are performed without a trace, and the others
alike. -/
structure Unwinding (S : System σ α) (ok : σ → α → Prop) (silent : α → Prop) (E : σ → σ → Prop) :
    Prop where
  quiet : ∀ ⦃s s' a t⦄, E s s' → ok s a → silent a → S.step s a = some t → E t s'
  alike : ∀ ⦃s s' a t⦄, E s s' → ok s a → ¬silent a → S.step s a = some t →
    ∃ t', S.step s' a = some t' ∧ E t t'

variable {ok : σ → α → Prop} {silent : α → Prop} [DecidablePred silent] {E : σ → σ → Prop}
  {s s' t : σ} {as : List α}

/-- The run without its silent labels ends in a related state. -/
theorem Unwinding.purge [∀ s a, Decidable (ok s a)] (h : S.Unwinding ok silent E) (hE : E s s')
    (hrun : S.guardedRun ok s as = some t) :
    ∃ t', S.guardedRun (fun _ _ => True) s' (as.filter fun a => decide ¬silent a) = some t' ∧
      E t t' := by
  induction as generalizing s s' with
  | nil =>
    obtain rfl : s = t := Option.some.inj hrun
    exact ⟨s', rfl, hE⟩
  | cons a as ih =>
    rw [guardedRun, Option.ite_none_right_eq_some] at hrun
    obtain ⟨ha, hstep⟩ := hrun
    obtain ⟨u, hu, hrest⟩ := Option.bind_eq_some_iff.mp hstep
    by_cases hsilent : silent a
    · rw [List.filter_cons_of_neg (by simpa using hsilent)]
      exact ih (h.quiet hE ha hsilent hu) hrest
    · obtain ⟨u', hu', hEu⟩ := h.alike hE ha hsilent hu
      obtain ⟨t', ht', hEt⟩ := ih hEu hrest
      refine ⟨t', ?_, hEt⟩
      rw [List.filter_cons_of_pos (by simpa using hsilent), guardedRun, if_pos trivial, hu']
      exact ht'

/-- The same for labels that the guard allows in every state. -/
theorem Unwinding.purge_of_forall (h : S.Unwinding ok silent E) (hok : ∀ a ∈ as, ∀ s, ok s a)
    (hE : E s s') (hrun : S.guardedRun (fun _ _ => True) s as = some t) :
    ∃ t', S.guardedRun (fun _ _ => True) s' (as.filter fun a => decide ¬silent a) = some t' ∧
      E t t' := by
  classical
  have hguarded : ∀ {as : List α} {s : σ}, (∀ a ∈ as, ∀ s, ok s a) →
      S.guardedRun ok s as = S.guardedRun (fun _ _ => True) s as := by
    intro as
    induction as with
    | nil => exact fun _ => rfl
    | cons a as ih =>
      intro s hall
      obtain ⟨ha, has⟩ := List.forall_mem_cons.mp hall
      rw [guardedRun, if_pos (ha s), guardedRun, if_pos trivial]
      exact congrArg (S.step s a).bind (funext fun u => ih has)
  exact h.purge hE ((hguarded hok).trans hrun)

end Transition.System
