import PushIT.Library.Transition

/-!
# Admission by counting

A resource is capped by a check that counts the holders and admits a request while there are
fewer than the cap; the request takes its place later, and nothing holds the count in between.
The admitted requests that have not taken their place are invisible to the next check, so that
the cap is exceeded by as many of them as there are at once, less one.

## Main definitions

* `Transition.Gate`, `Transition.gate`: the holders and the admitted requests of one resource.

## Main results

* `Transition.Gate.bounded_preserves`: with at most `k` requests between their check and their
  place, holders and admitted requests are fewer than the cap and `k` together.
-/

namespace Transition

/-- A capped resource. -/
structure Gate where
  held : ℕ
  /-- The requests that passed their check and have not taken their place. -/
  admitted : ℕ
  deriving DecidableEq, Repr

inductive GateAction
  /-- A check counts the holders. -/
  | grant
  /-- An admitted request takes its place. -/
  | enter
  /-- An admitted request ends without a place. -/
  | drop
  /-- Holders leave. -/
  | leave (n : ℕ)
  deriving DecidableEq, Repr

/-- One action; `none` when it cannot happen. -/
def Gate.step (cap : ℕ) (g : Gate) : GateAction → Option Gate
  | .grant => if g.held < cap then some { g with admitted := g.admitted + 1 } else none
  | .enter =>
    if 0 < g.admitted then some { held := g.held + 1, admitted := g.admitted - 1 } else none
  | .drop => if 0 < g.admitted then some { g with admitted := g.admitted - 1 } else none
  | .leave n => if n ≤ g.held then some { g with held := g.held - n } else none

/-- A capped resource as a transition system. -/
def gate (cap : ℕ) : System Gate GateAction := ⟨Gate.step cap⟩

namespace Gate

/-- At most `k` requests are admitted at once. -/
def AtMost (cap k : ℕ) (g : Gate) (a : GateAction) : Prop :=
  ∀ g', g.step cap a = some g' → g'.admitted ≤ k

/-- Only a check adds to holders and admitted requests, and it saw fewer holders than the cap. -/
theorem bounded_preserves {cap k bound : ℕ} (hbound : cap + k ≤ bound + 1) :
    (gate cap).Preserves (AtMost cap k) fun g => g.held + g.admitted ≤ bound := by
  intro g a g' hg hk hstep
  have hle : g'.admitted ≤ k := hk g' hstep
  change g.step cap a = some g' at hstep
  cases a with
  | grant =>
    simp only [step, Option.ite_none_right_eq_some, Option.some.injEq] at hstep
    obtain ⟨hfree, rfl⟩ := hstep
    simp only at hle ⊢
    omega
  | enter =>
    simp only [step, Option.ite_none_right_eq_some, Option.some.injEq] at hstep
    obtain ⟨hadmitted, rfl⟩ := hstep
    simp only
    omega
  | drop =>
    simp only [step, Option.ite_none_right_eq_some, Option.some.injEq] at hstep
    obtain ⟨hadmitted, rfl⟩ := hstep
    simp only
    omega
  | leave n =>
    simp only [step, Option.ite_none_right_eq_some, Option.some.injEq] at hstep
    obtain ⟨hn, rfl⟩ := hstep
    simp only
    omega

theorem step_grant {cap : ℕ} {g g' : Gate} (hfree : g.held < cap) (hheld : g'.held = g.held)
    (hadmitted : g'.admitted = g.admitted + 1) : g.step cap .grant = some g' := by
  cases g'
  simp only at hheld hadmitted
  simp [step, hfree, hheld, hadmitted]

theorem step_enter {cap : ℕ} {g g' : Gate} (hheld : g'.held = g.held + 1)
    (hadmitted : g'.admitted + 1 = g.admitted) : g.step cap .enter = some g' := by
  cases g'
  simp only at hheld hadmitted
  simp [step, hheld, ← hadmitted]

theorem step_drop {cap : ℕ} {g g' : Gate} (hheld : g'.held = g.held)
    (hadmitted : g'.admitted + 1 = g.admitted) : g.step cap .drop = some g' := by
  cases g'
  simp only at hheld hadmitted
  simp [step, hheld, ← hadmitted]

/-- Fewer holders are left. -/
theorem step_leave {cap : ℕ} {g g' : Gate} (hheld : g'.held ≤ g.held)
    (hadmitted : g'.admitted = g.admitted) :
    g.step cap (.leave (g.held - g'.held)) = some g' := by
  cases g'
  simp only at hheld hadmitted
  simp [step, hadmitted, Nat.sub_sub_self hheld]

end Gate

end Transition
