import Mathlib.Data.Nat.Notation
import Mathlib.Logic.Relation
import Mathlib.Order.WellFounded

/-!
# Labelled systems with a partial step function

A system performs labels one at a time and may refuse a label.  Reachability is taken along
steps that satisfy a guard `ok` on the state before the step and its label, so that one system
serves several assumptions on its environment.  The rules of this file turn what one step
preserves into what every run preserves.

## Main definitions

* `Transition.System`, `Transition.System.guardedRun`: the system and its finite runs.
* `Transition.System.Reach`: reachability along guarded steps.
* `Transition.Pool`: the local states of the processes of a system.

## Main results

* `Transition.System.Reach.invariant`: the induction rule.
* `Transition.System.Reach.relation`: a preorder kept by every step relates the ends of a run.
* `Transition.System.exists_runFor_of_rank`: what steps that lower a rank lead to.
* `Transition.System.InfiniteRun.exists_not_of_rank`: a run that lowers a rank again and again
  comes to an end of it.
* `Transition.Pool.Exclusive.set_of_key`, `Transition.Pool.Exclusive.set_of_absent`: at most one
  process holds a key.
-/

namespace Transition

/-- A labelled transition system given by a partial step function. -/
structure System (σ α : Type*) where
  /-- The state after a label, `none` when the label is refused. -/
  step : σ → α → Option σ

namespace System

variable {σ α : Type*} (S : System σ α)

/-- Perform the labels in order as long as each meets the guard where it is performed. -/
def guardedRun (ok : σ → α → Prop) [∀ s a, Decidable (ok s a)] (s : σ) : List α → Option σ
  | [] => some s
  | a :: as => if ok s a then (S.step s a).bind fun t => guardedRun ok t as else none

/-- One step whose state and label satisfy the guard. -/
def Step (ok : σ → α → Prop) (s t : σ) : Prop :=
  ∃ a, ok s a ∧ S.step s a = some t

/-- The states reached from `s` along guarded steps. -/
def Reach (ok : σ → α → Prop) : σ → σ → Prop :=
  Relation.ReflTransGen (S.Step ok)

/-- A property of states that every guarded step keeps. -/
def Preserves (ok : σ → α → Prop) (I : σ → Prop) : Prop :=
  ∀ ⦃s a t⦄, I s → ok s a → S.step s a = some t → I t

variable {S} {ok : σ → α → Prop}

theorem Reach.refl (s : σ) : S.Reach ok s s :=
  Relation.ReflTransGen.refl

theorem Reach.trans {s t u : σ} (h : S.Reach ok s t) (h' : S.Reach ok t u) : S.Reach ok s u :=
  Relation.ReflTransGen.trans h h'

theorem Reach.tail {s t u : σ} {a : α} (h : S.Reach ok s t) (ha : ok t a)
    (hs : S.step t a = some u) : S.Reach ok s u :=
  Relation.ReflTransGen.tail h ⟨a, ha, hs⟩

theorem Reach.head {s t u : σ} {a : α} (ha : ok s a) (hs : S.step s a = some t)
    (h : S.Reach ok t u) : S.Reach ok s u :=
  Relation.ReflTransGen.head ⟨a, ha, hs⟩ h

/-- Weaken the guard. -/
theorem Reach.mono (ok' : σ → α → Prop) (hok : ∀ s a, ok s a → ok' s a) {s t : σ}
    (h : S.Reach ok s t) : S.Reach ok' s t := by
  induction h with
  | refl => exact .refl _
  | tail _ hstep ih =>
    obtain ⟨a, ha, hs⟩ := hstep
    exact ih.tail (hok _ _ ha) hs

/-- Replace the guard by one that it implies in the states of an invariant. -/
theorem Reach.mono_of_invariant {I : σ → Prop} (ok' : σ → α → Prop) (hI : S.Preserves ok I)
    (hok : ∀ s a, I s → ok s a → ok' s a) {s t : σ} (h : S.Reach ok s t) (h0 : I s) :
    S.Reach ok' s t := by
  have hboth : I t ∧ S.Reach ok' s t := by
    induction h with
    | refl => exact ⟨h0, .refl _⟩
    | tail _ hstep ih =>
      obtain ⟨a, ha, hs⟩ := hstep
      exact ⟨hI ih.1 ha hs, ih.2.tail (hok _ _ ih.1 ha) hs⟩
  exact hboth.2

/-- A guarded run reaches its last state. -/
theorem reach_of_guardedRun [∀ s a, Decidable (ok s a)] {s t : σ} {as : List α}
    (h : S.guardedRun ok s as = some t) : S.Reach ok s t := by
  induction as generalizing s with
  | nil =>
    obtain rfl : s = t := Option.some.inj h
    exact .refl _
  | cons a as ih =>
    unfold guardedRun at h
    split at h
    · next ha =>
      obtain ⟨u, hu, hrun⟩ := Option.bind_eq_some_iff.mp h
      exact .head ha hu (ih hrun)
    · simp at h

/-- A guarded run that ends in a state with a property reaches such a state. -/
theorem exists_reach_of_guardedRun (S : System σ α) (ok : σ → α → Prop)
    [∀ s a, Decidable (ok s a)] (s : σ) (as : List α) (P : σ → Bool)
    (h : (S.guardedRun ok s as).any P = true) :
    ∃ t, S.Reach ok s t ∧ P t = true := by
  obtain ⟨t, ht, hP⟩ := (Option.any_eq_true _ _).mp h
  exact ⟨t, reach_of_guardedRun ht, hP⟩

/-- A guarded run in two parts reaches a state with a property and, from there, another. -/
theorem exists_reach_reach_of_guardedRun (S : System σ α) (ok : σ → α → Prop)
    [∀ s a, Decidable (ok s a)] (s : σ) (as bs : List α) (P Q : σ → Bool)
    (h : (S.guardedRun ok s as).any (fun t => P t && (S.guardedRun ok t bs).any Q) = true) :
    ∃ t u, S.Reach ok s t ∧ P t = true ∧ S.Reach ok t u ∧ Q u = true := by
  obtain ⟨t, ht, hparts⟩ := exists_reach_of_guardedRun S ok s as _ h
  obtain ⟨hP, hrest⟩ := Bool.and_eq_true_iff.mp hparts
  obtain ⟨u, hu, hQ⟩ := exists_reach_of_guardedRun S ok t bs Q hrest
  exact ⟨t, u, ht, hP, hu, hQ⟩

/-- The induction rule: what holds at the start and is kept by every guarded step holds in
every state reached. -/
theorem Reach.invariant {I : σ → Prop} (hI : S.Preserves ok I) {s t : σ}
    (h : S.Reach ok s t) (h0 : I s) : I t := by
  induction h with
  | refl => exact h0
  | tail _ hstep ih =>
    obtain ⟨a, ha, hs⟩ := hstep
    exact hI ih ha hs

/-- A preorder that relates the ends of every guarded step, from states with the invariant `I`,
relates the ends of every run. -/
theorem Reach.relation {I : σ → Prop} {R : σ → σ → Prop} (hI : S.Preserves ok I)
    (hrefl : ∀ s, R s s) (htrans : ∀ ⦃s t u⦄, R s t → R t u → R s u)
    (hstep : ∀ ⦃s a t⦄, I s → ok s a → S.step s a = some t → R s t)
    {s t : σ} (h : S.Reach ok s t) (h0 : I s) : R s t := by
  induction h with
  | refl => exact hrefl s
  | tail hreach hs ih =>
    obtain ⟨a, ha, hs⟩ := hs
    exact htrans ih (hstep (Reach.invariant hI hreach h0) ha hs)

/-- Prove a second invariant with the help of a first one. -/
theorem Preserves.and {I J : σ → Prop} (hI : S.Preserves ok I)
    (hJ : ∀ ⦃s a t⦄, I s → J s → ok s a → S.step s a = some t → J t) :
    S.Preserves ok fun s => I s ∧ J s :=
  fun _ _ _ h ha hs => ⟨hI h.1 ha hs, hJ h.1 h.2 ha hs⟩

/-- A stronger guard keeps what a weaker guard keeps. -/
theorem Preserves.mono {ok' : σ → α → Prop} {I : σ → Prop} (hI : S.Preserves ok I)
    (hok : ∀ s a, ok' s a → ok s a) : S.Preserves ok' I :=
  fun _ _ _ h ha hs => hI h (hok _ _ ha) hs

/-! ### Runs along a stream of labels -/

variable (S) in
/-- The state after the first `k` labels of a stream. -/
def runFor : (ℕ → α) → ℕ → σ → Option σ
  | _, 0, s => some s
  | labels, k + 1, s => (S.step s (labels 0)).bind (runFor (fun i => labels (i + 1)) k)

theorem runFor_succ (labels : ℕ → α) (k : ℕ) {s t : σ} (h : S.step s (labels 0) = some t) :
    S.runFor labels (k + 1) s = S.runFor (fun i => labels (i + 1)) k t := by
  rw [runFor, h]
  rfl

/-- A run goes on where its first part ended. -/
theorem runFor_add (labels : ℕ → α) (k m : ℕ) (s : σ) :
    S.runFor labels (k + m) s =
      (S.runFor labels k s).bind (S.runFor (fun i => labels (k + i)) m) := by
  induction k generalizing labels s with
  | zero => simp [runFor]
  | succ k ih =>
    have hshift : (fun i => labels (k + 1 + i)) = fun i => labels (k + i + 1) := by
      funext i
      rw [Nat.add_right_comm]
    rw [Nat.add_right_comm, runFor, runFor, Option.bind_assoc, hshift]
    exact congrArg _ (funext fun t => ih _ t)

/-- Where every step that has not reached a goal can be performed and lowers a rank, the goal is
reached along every stream of labels. -/
theorem exists_runFor_of_rank {β : Type*} [Preorder β] [WellFoundedLT β] (I goal : σ → Prop)
    (good : α → Prop) (rank : σ → β)
    (hstep : ∀ ⦃s a⦄, I s → ¬goal s → good a →
      ∃ t, S.step s a = some t ∧ I t ∧ rank t < rank s)
    {labels : ℕ → α} (hlabels : ∀ i, good (labels i)) {s : σ} (h : I s) :
    ∃ k t, S.runFor labels k s = some t ∧ I t ∧ goal t := by
  obtain ⟨b, hb⟩ : ∃ b, rank s = b := ⟨_, rfl⟩
  induction b using WellFoundedLT.induction generalizing labels s with
  | ind b ih =>
    by_cases hgoal : goal s
    · exact ⟨0, s, rfl, h, hgoal⟩
    · obtain ⟨t, ht, hI, hlt⟩ := hstep h hgoal (hlabels 0)
      obtain ⟨k, u, hrun, hu⟩ := ih _ (hb ▸ hlt) (fun i => hlabels (i + 1)) hI rfl
      exact ⟨k + 1, u, (runFor_succ labels k ht).trans hrun, hu⟩

/-! ### Infinite runs -/

variable (S ok) in
/-- An infinite run: each label meets the guard and is performed. -/
structure InfiniteRun (run : ℕ → σ) (labels : ℕ → α) : Prop where
  guard : ∀ i, ok (run i) (labels i)
  step : ∀ i, S.step (run i) (labels i) = some (run (i + 1))

/-- A rank that no step raises, and that the labels of a kind lower, is used up: a run that
performs such labels again and again leaves the states the rank is about. -/
theorem InfiniteRun.exists_not_of_rank {β : Type*} [Preorder β] [WellFoundedLT β]
    {run : ℕ → σ} {labels : ℕ → α} (h : S.InfiniteRun ok run labels) (busy : σ → Prop)
    (lowers : α → Prop) (rank : σ → β)
    (hle : ∀ ⦃s a t⦄, busy s → busy t → ok s a → S.step s a = some t → rank t ≤ rank s)
    (hlt : ∀ ⦃s a t⦄, busy s → busy t → ok s a → S.step s a = some t → lowers a →
      rank t < rank s)
    (hfair : ∀ N, ∃ i, N ≤ i ∧ lowers (labels i)) : ∃ N, ¬busy (run N) := by
  by_contra hbusy
  have hall : ∀ N, busy (run N) := fun N => not_not.mp fun hN => hbusy ⟨N, hN⟩
  have hanti : ∀ N k, rank (run (N + k)) ≤ rank (run N) := by
    intro N k
    induction k with
    | zero => exact le_rfl
    | succ k ih =>
      exact (hle (hall (N + k)) (hall (N + k + 1)) (h.guard _) (h.step _)).trans ih
  -- the rank would descend for ever
  have hnone : ∀ b N, rank (run N) = b → False := by
    intro b
    induction b using WellFoundedLT.induction with
    | ind b ih =>
      intro N hN
      obtain ⟨i, hi, hlowers⟩ := hfair N
      obtain ⟨k, rfl⟩ := Nat.exists_eq_add_of_le hi
      have hstep := hlt (hall (N + k)) (hall (N + k + 1)) (h.guard _) (h.step _) hlowers
      exact ih _ (hN ▸ hstep.trans_le (hanti N k)) (N + k + 1) rfl
  exact hnone _ 0 rfl

end System

/-! ### Pools of processes -/

/-- The local states of the processes of one kind, indexed by process number; `none` is a
process that is not running. -/
abbrev Pool (L : Type*) := ℕ → Option L

namespace Pool

variable {L K : Type*}

/-- No process is running. -/
def idle : Pool L := fun _ => none

/-- Replace the local state of process `i`. -/
def set (P : Pool L) (i : ℕ) (l : Option L) : Pool L :=
  fun j => if j = i then l else P j

@[simp] theorem idle_apply (i : ℕ) : (idle : Pool L) i = none := rfl

@[simp] theorem set_self (P : Pool L) (i : ℕ) (l : Option L) : P.set i l i = l := by
  simp [set]

theorem set_of_ne (P : Pool L) {i j : ℕ} (l : Option L) (h : j ≠ i) : P.set i l j = P j := by
  simp [set, h]

@[simp] theorem set_set (P : Pool L) (i : ℕ) (l l' : Option L) :
    (P.set i l).set i l' = P.set i l' := by
  funext j
  by_cases h : j = i
  · simp [h]
  · simp [set_of_ne _ _ h]

theorem set_eq_self {P : Pool L} {i : ℕ} {l : Option L} (h : P i = l) : P.set i l = P := by
  funext j
  by_cases hj : j = i
  · rw [hj, set_self, h]
  · exact set_of_ne P l hj

theorem set_eq_some {P : Pool L} {i j : ℕ} {l : Option L} {x : L} :
    P.set i l j = some x ↔ (j = i ∧ l = some x) ∨ (j ≠ i ∧ P j = some x) := by
  by_cases h : j = i
  · subst h; simp
  · simp [set_of_ne P l h, h]

/-- A property of every running process survives an update whose new local state has it. -/
theorem forall_set {P : Pool L} {Q : ℕ → L → Prop} {i : ℕ} {l : Option L}
    (hP : ∀ j x, P j = some x → Q j x) (hl : ∀ x, l = some x → Q i x) :
    ∀ j x, P.set i l j = some x → Q j x := by
  intro j x hx
  rcases set_eq_some.mp hx with ⟨rfl, h⟩ | ⟨-, h⟩
  · exact hl x h
  · exact hP j x h

/-- At most one process runs for each key. -/
def Exclusive (key : L → K) (P : Pool L) : Prop :=
  ∀ ⦃i j x y⦄, P i = some x → P j = some y → key x = key y → i = j

variable {key : L → K}

theorem exclusive_idle : Exclusive key (idle : Pool L) := by
  intro i j x y hx
  simp at hx

/-- A process that keeps its key, or ends, keeps exclusion. -/
theorem Exclusive.set_of_key {P : Pool L} (hP : Exclusive key P) {i : ℕ} {x : L}
    (hx : P i = some x) {l : Option L} (hl : ∀ y, l = some y → key y = key x) :
    Exclusive key (P.set i l) := by
  intro a b u v hu hv huv
  rcases set_eq_some.mp hu with ⟨rfl, hu'⟩ | ⟨ha, hu'⟩ <;>
    rcases set_eq_some.mp hv with ⟨rfl, hv'⟩ | ⟨hb, hv'⟩
  · rfl
  · exact hP hx hv' (by rw [← hl u hu', huv])
  · exact hP hu' hx (by rw [huv, hl v hv'])
  · exact hP hu' hv' huv

/-- A process may start with a key that no other process holds. -/
theorem Exclusive.set_of_absent {P : Pool L} (hP : Exclusive key P) {i : ℕ} {x : L}
    (habs : ∀ j y, P j = some y → key y ≠ key x) : Exclusive key (P.set i (some x)) := by
  intro a b u v hu hv huv
  rcases set_eq_some.mp hu with ⟨rfl, hu'⟩ | ⟨ha, hu'⟩ <;>
    rcases set_eq_some.mp hv with ⟨rfl, hv'⟩ | ⟨hb, hv'⟩
  · rfl
  · obtain rfl := Option.some.inj hu'
    exact absurd huv.symm (habs b v hv')
  · obtain rfl := Option.some.inj hv'
    exact absurd huv (habs a u hu')
  · exact hP hu' hv' huv

end Pool

end Transition
