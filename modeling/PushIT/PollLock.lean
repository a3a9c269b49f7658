import PushIT.Models
import PushIT.Library.Transition

/-!
# The lock of the mailbox poll

`notifications/tasks.py`, `poll_inbound_mailbox_task`: a run adds an entry with a token of its own
to the shared cache, reads the mailbox, and then removes the entry if it still holds the token.
The cache adds an entry only where there is none, and drops it at some time after the TTL.  The
release is a `get` and then a `delete`, so that the entry it deletes can be the one of a run that
came in between.

## Main definitions

* `PollRun`, `PollLock`, `pollLock`: the runs of the task over the cache.
* `PollLock.Unraced`: no run acquires the lock between the two statements of a release.

## Main results

* `poll_lock_owned`: a run deletes its own entry alone, and of the runs that acquired the lock
  less than a TTL ago at most one reads the mailbox.
* `poll_lock_stolen`: a run deletes the entry of another one, and two runs read the mailbox.
-/

namespace PushIT

open Transition

/-! ### The task -/

/-- An entry of the cache. -/
structure CacheEntry where
  value : String
  addedAt : Instant
  deriving DecidableEq, Repr

inductive PollStage
  /-- In `poll_inbound_mailbox`. -/
  | polling
  /-- In the `finally` clause, before the `get`. -/
  | releasing
  /-- The `get` answered the token of the run. -/
  | deleting
  deriving DecidableEq, Repr

/-- A run of the task that acquired the lock. -/
structure PollRun where
  token : String
  acquiredAt : Instant
  stage : PollStage := .polling
  deriving DecidableEq, Repr

/-- The entry under `INBOUND_POLL_LOCK_KEY`, the runs of the task and the time.  The tokens drawn,
the runs that were skipped and the entries deleted, each after the token of the run that deleted
it, are recorded. -/
structure PollLock where
  entry : Option CacheEntry := none
  runs : Pool PollRun := .idle
  now : Instant := 0
  drawn : List String := []
  skipped : List ℕ := []
  deletions : List (String × String) := []

inductive PollAction
  /-- `secrets.token_hex(8)` and `cache.add`. -/
  | start (rid : ℕ) (token : String)
  /-- `poll_inbound_mailbox` returns or raises. -/
  | finish (rid : ℕ)
  /-- `cache.get`. -/
  | get (rid : ℕ)
  /-- `cache.delete`. -/
  | delete (rid : ℕ)
  /-- The worker of a run is killed. -/
  | kill (rid : ℕ)
  /-- The cache drops the entry. -/
  | expire
  | wait (duration : ℕ)
  deriving DecidableEq, Repr

namespace PollLock

/-- A run goes on, or ends. -/
def goOn (s : PollLock) (rid : ℕ) (run : Option PollRun) : PollLock :=
  { s with runs := s.runs.set rid run }

/-- `cache.add` with the token of a run, which is skipped when there is an entry. -/
def acquire (s : PollLock) (rid : ℕ) (token : String) : PollLock :=
  match s.entry with
  | some _ => { s with drawn := token :: s.drawn, skipped := rid :: s.skipped }
  | none =>
    { s with
      entry := some ⟨token, s.now⟩
      runs := s.runs.set rid (some { token, acquiredAt := s.now })
      drawn := token :: s.drawn }

/-- `cache.get(INBOUND_POLL_LOCK_KEY) == token`. -/
def ownEntry (s : PollLock) (run : PollRun) : Bool :=
  s.entry.any (·.value == run.token)

/-- `cache.delete(INBOUND_POLL_LOCK_KEY)`, whatever the entry, and the run ends. -/
def drop (s : PollLock) (rid : ℕ) (run : PollRun) : PollLock :=
  { s with
    entry := none
    runs := s.runs.set rid none
    deletions := (s.entry.map fun e => (run.token, e.value)).toList ++ s.deletions }

/-- A run that stands at a stage. -/
def runAt (s : PollLock) (rid : ℕ) (stage : PollStage) : Option PollRun :=
  (s.runs rid).filter (·.stage == stage)

/-- One action; `none` when nothing can perform it. -/
def step (ttl : ℕ) (s : PollLock) : PollAction → Option PollLock
  | .start rid token => if (s.runs rid).isNone then some (s.acquire rid token) else none
  | .finish rid => (s.runAt rid .polling).map fun run =>
      s.goOn rid (some { run with stage := .releasing })
  | .get rid => (s.runAt rid .releasing).map fun run =>
      s.goOn rid (if s.ownEntry run then some { run with stage := .deleting } else none)
  | .delete rid => (s.runAt rid .deleting).map (s.drop rid)
  | .kill rid => some (s.goOn rid none)
  | .expire => (s.entry.filter fun e => e.addedAt + ttl ≤ s.now).map fun _ =>
      { s with entry := none }
  | .wait duration => some { s with now := s.now + duration }

end PollLock

/-- The runs of the task as a transition system. -/
def pollLock (ttl : ℕ) : System PollLock PollAction := ⟨PollLock.step ttl⟩

/-! ### What the lock promises -/

namespace PollLock

/-- The run acquired the lock less than a TTL ago and reads the mailbox. -/
def Polls (ttl : ℕ) (s : PollLock) (rid : ℕ) : Prop :=
  ∃ run, s.runs rid = some run ∧ run.stage = .polling ∧ s.now < run.acquiredAt + ttl

/-- Each entry deleted held the token of the run that deleted it. -/
def DeletesOwn (s : PollLock) : Prop := ∀ d ∈ s.deletions, d.2 = d.1

/-- The tokens differ, and no run acquires the lock while another one is about to delete the entry
it found its token in. -/
def Unraced (s : PollLock) : PollAction → Prop
  | .start _ token => token ∉ s.drawn ∧
      (s.entry = none → ∀ other run, s.runs other = some run → run.stage ≠ .deleting)
  | _ => True

/-- Whose the entry is. -/
structure Owned (ttl : ℕ) (s : PollLock) : Prop where
  drawn : ∀ rid run, s.runs rid = some run → run.token ∈ s.drawn
  exclusive : Pool.Exclusive PollRun.token s.runs
  /-- The entry of a run lasts for a TTL, up to its deletion. -/
  held : ∀ rid run, s.runs rid = some run → run.stage ≠ .deleting →
    s.now < run.acquiredAt + ttl → s.entry = some ⟨run.token, run.acquiredAt⟩
  deleting : ∀ rid run, s.runs rid = some run → run.stage = .deleting →
    ∀ e, s.entry = some e → e.value = run.token
  deletesOwn : s.DeletesOwn

variable {ttl : ℕ} {s t : PollLock}

theorem runAt_eq_some {rid : ℕ} {stage : PollStage} {run : PollRun} :
    s.runAt rid stage = some run ↔ s.runs rid = some run ∧ run.stage = stage := by
  simp [runAt, Option.filter_eq_some_iff]

/-- At most one run reads the mailbox. -/
theorem Owned.eq_of_polls (h : s.Owned ttl) {i j : ℕ} (hi : s.Polls ttl i) (hj : s.Polls ttl j) :
    i = j := by
  obtain ⟨r, hr, hrpolls, hrfresh⟩ := hi
  obtain ⟨r', hr', hrpolls', hrfresh'⟩ := hj
  have hentry := h.held i r hr (by simp [hrpolls]) hrfresh
  have hentry' := h.held j r' hr' (by simp [hrpolls']) hrfresh'
  rw [hentry, Option.some_inj, CacheEntry.mk.injEq] at hentry'
  exact h.exclusive hr hr' hentry'.1

/-- A run that goes on with its token, or ends, while the entry stays. -/
private theorem Owned.goOn (h : s.Owned ttl) {rid : ℕ} {run : PollRun}
    (hrun : s.runs rid = some run) {next : Option PollRun}
    (hnext : ∀ r, next = some r → r.token = run.token ∧ r.acquiredAt = run.acquiredAt ∧
      (r.stage ≠ .deleting → run.stage ≠ .deleting) ∧
      (r.stage = .deleting → ∀ e, s.entry = some e → e.value = run.token)) :
    (s.goOn rid next).Owned ttl where
  drawn := Pool.forall_set h.drawn fun r hr => (hnext r hr).1 ▸ h.drawn rid run hrun
  exclusive := h.exclusive.set_of_key hrun fun r hr => (hnext r hr).1
  held := Pool.forall_set h.held fun r hr hstage hfresh => by
    obtain ⟨htoken, hacquired, hbefore, -⟩ := hnext r hr
    rw [hacquired] at hfresh
    rw [htoken, hacquired]
    exact h.held rid run hrun (hbefore hstage) hfresh
  deleting := Pool.forall_set h.deleting fun r hr hstage e he =>
    ((hnext r hr).2.2.2 hstage e he).trans (hnext r hr).1.symm
  deletesOwn := h.deletesOwn

/-- An acquisition, when no run is about to delete the entry it found. -/
private theorem Owned.acquire (h : s.Owned ttl) {rid : ℕ} {token : String}
    (hfresh : token ∉ s.drawn)
    (hunraced : s.entry = none → ∀ other run, s.runs other = some run → run.stage ≠ .deleting) :
    (s.acquire rid token).Owned ttl := by
  have hdrawn : ∀ other run, s.runs other = some run → run.token ∈ token :: s.drawn :=
    fun other run hrun => List.mem_cons_of_mem _ (h.drawn other run hrun)
  unfold PollLock.acquire
  split
  · exact ⟨hdrawn, h.exclusive, h.held, h.deleting, h.deletesOwn⟩
  · next hnone =>
    refine ⟨Pool.forall_set hdrawn ?_, h.exclusive.set_of_absent ?_, Pool.forall_set ?_ ?_,
      Pool.forall_set ?_ ?_, h.deletesOwn⟩
    · rintro run ⟨⟩
      exact List.mem_cons_self
    · intro other run hrun htoken
      have hdrawn := h.drawn other run hrun
      rw [htoken] at hdrawn
      exact hfresh hdrawn
    · intro other run hrun hstage hlasts
      have hentry := h.held other run hrun hstage hlasts
      rw [hnone] at hentry
      simp at hentry
    · rintro run ⟨⟩ - -
      rfl
    · intro other run hrun hstage
      exact absurd hstage (hunraced hnone other run hrun)
    · rintro run ⟨⟩ hstage
      simp at hstage

/-- A deletion by a run that found its token. -/
private theorem Owned.drop (h : s.Owned ttl) {rid : ℕ} {run : PollRun}
    (hrun : s.runs rid = some run) (hstage : run.stage = .deleting) :
    (s.drop rid run).Owned ttl := by
  have hother : ∀ other r, s.runs.set rid none other = some r →
      s.runs other = some r ∧ other ≠ rid := by
    intro other r hr
    rcases Pool.set_eq_some.mp hr with ⟨-, hnone⟩ | ⟨hne, hr⟩
    · simp at hnone
    · exact ⟨hr, hne⟩
  refine ⟨fun other r hr => h.drawn other r (hother other r hr).1,
    h.exclusive.set_of_key hrun fun _ hnone => by simp at hnone, ?_, ?_, ?_⟩
  · intro other r hr hpolls hlasts
    obtain ⟨hr, hne⟩ := hother other r hr
    -- the entry would be the one of both runs
    have hentry := h.held other r hr hpolls hlasts
    have htoken := h.deleting rid run hrun hstage _ hentry
    exact absurd (h.exclusive hr hrun htoken) hne
  · intro _ _ _ _ e he
    simp [PollLock.drop] at he
  · intro d hd
    rcases List.mem_append.mp hd with hd | hd
    · obtain ⟨e, he, rfl⟩ := Option.map_eq_some_iff.mp (Option.mem_toList.mp hd)
      exact h.deleting rid run hrun hstage e he
    · exact h.deletesOwn d hd

/-- Only the task starts a run. -/
theorem runs_of_step {a : PollAction} (hstep : s.step ttl a = some t) {rid : ℕ}
    (hrun : t.runs rid ≠ none) : s.runs rid ≠ none ∨ ∃ token, a = .start rid token := by
  have hset : ∀ {other : ℕ} {next : Option PollRun}, s.runs.set other next rid ≠ none →
      s.runs rid ≠ none ∨ rid = other := by
    intro other next hne
    by_cases hrid : rid = other
    · exact Or.inr hrid
    · exact Or.inl (Pool.set_of_ne s.runs next hrid ▸ hne)
  have hat : ∀ {other : ℕ} {stage : PollStage} {run : PollRun}, s.runAt other stage = some run →
      s.runs rid ≠ none ∨ rid = other → s.runs rid ≠ none := by
    rintro other stage run hother (hne | rfl)
    · exact hne
    · simp [(runAt_eq_some.mp hother).1]
  cases a with
  | start other token =>
    simp only [PollLock.step] at hstep
    split at hstep
    · obtain rfl := Option.some.inj hstep
      unfold PollLock.acquire at hrun
      split at hrun
      · exact Or.inl hrun
      · exact (hset hrun).imp id fun hrid => ⟨token, by rw [hrid]⟩
    · simp at hstep
  | finish other | get other | delete other =>
    obtain ⟨run, hother, rfl⟩ := Option.map_eq_some_iff.mp hstep
    exact Or.inl (hat hother (hset hrun))
  | kill other =>
    obtain rfl := Option.some.inj hstep
    rcases hset hrun with hne | rfl
    · exact Or.inl hne
    · exact absurd (Pool.set_self _ _ _) hrun
  | expire =>
    obtain ⟨e, -, rfl⟩ := Option.map_eq_some_iff.mp hstep
    exact Or.inl hrun
  | wait duration =>
    obtain rfl := Option.some.inj hstep
    exact Or.inl hrun

theorem Owned.step {a : PollAction} (h : s.Owned ttl) (hok : s.Unraced a)
    (hstep : s.step ttl a = some t) : t.Owned ttl := by
  cases a with
  | start rid token =>
    simp only [PollLock.step] at hstep
    split at hstep
    · obtain rfl := Option.some.inj hstep
      exact h.acquire hok.1 hok.2
    · simp at hstep
  | finish rid =>
    obtain ⟨run, hrun, rfl⟩ := Option.map_eq_some_iff.mp hstep
    obtain ⟨hrun, hstage⟩ := runAt_eq_some.mp hrun
    refine h.goOn hrun ?_
    rintro r ⟨⟩
    exact ⟨rfl, rfl, fun _ => by simp [hstage], fun hdeleting => by simp at hdeleting⟩
  | get rid =>
    obtain ⟨run, hrun, rfl⟩ := Option.map_eq_some_iff.mp hstep
    obtain ⟨hrun, hstage⟩ := runAt_eq_some.mp hrun
    refine h.goOn hrun fun r hr => ?_
    split at hr
    · next hown =>
      obtain rfl := Option.some.inj hr
      refine ⟨rfl, rfl, fun hne => absurd rfl hne, fun _ e he => ?_⟩
      simpa [ownEntry, he] using hown
    · simp at hr
  | delete rid =>
    obtain ⟨run, hrun, rfl⟩ := Option.map_eq_some_iff.mp hstep
    obtain ⟨hrun, hstage⟩ := runAt_eq_some.mp hrun
    exact h.drop hrun hstage
  | kill rid =>
    obtain rfl := Option.some.inj hstep
    cases hrun : s.runs rid with
    | none =>
      have hsame : s.goOn rid none = s := by rw [PollLock.goOn, Pool.set_eq_self hrun]
      rwa [hsame]
    | some run => exact h.goOn hrun fun _ hnone => by simp at hnone
  | expire =>
    obtain ⟨e, he, rfl⟩ := Option.map_eq_some_iff.mp hstep
    obtain ⟨hentry, hexpired⟩ := Option.filter_eq_some_iff.mp he
    refine ⟨h.drawn, h.exclusive, fun rid run hrun hstage hlasts => ?_,
      fun _ _ _ _ e he => by simp at he, h.deletesOwn⟩
    have howner := h.held rid run hrun hstage hlasts
    rw [hentry, Option.some_inj] at howner
    subst howner
    exact absurd (of_decide_eq_true hexpired) (not_le.mpr hlasts)
  | wait duration =>
    obtain rfl := Option.some.inj hstep
    refine ⟨h.drawn, h.exclusive, fun rid run hrun hstage hlasts => ?_, h.deleting, h.deletesOwn⟩
    have hlater : s.now ≤ s.now + duration :=
      Int.le_add_of_nonneg_right (Int.natCast_nonneg duration)
    exact h.held rid run hrun hstage (hlater.trans_lt hlasts)

/-- Before the first run. -/
theorem owned_of_idle (now : Instant) : ({ now } : PollLock).Owned ttl where
  drawn _ _ hrun := by simp at hrun
  exclusive := Pool.exclusive_idle
  held _ _ hrun := by simp at hrun
  deleting _ _ hrun := by simp at hrun
  deletesOwn _ hd := by simp at hd

end PollLock

/-- In every run in which the tokens differ and no run of the task acquires the lock between the
`get` and the `delete` of another one, a run deletes the entry with its own token alone, and of
the runs that acquired the lock less than a TTL ago at most one reads the mailbox. -/
theorem poll_lock_owned {ttl : ℕ} {now : Instant} {t : PollLock}
    (h : (pollLock ttl).Reach PollLock.Unraced { now } t) :
    t.DeletesOwn ∧ ∀ i j, t.Polls ttl i → t.Polls ttl j → i = j := by
  have howned : t.Owned ttl :=
    h.invariant (fun _ _ _ hu hok hstep => hu.step hok hstep) (PollLock.owned_of_idle now)
  exact ⟨howned.deletesOwn, fun _ _ => howned.eq_of_polls⟩

/-! ### Samples -/

namespace Sample

/-- No run stands before its `delete` when another one acquires the lock, among those of two
workers. -/
def TwoWorkers (s : PollLock) : PollAction → Prop
  | .start rid token => rid < 2 ∧ token ∉ s.drawn ∧
      ∀ other < 2, ∀ run ∈ s.runs other, run.stage ≠ .deleting
  | _ => True

instance (s : PollLock) (a : PollAction) : Decidable (TwoWorkers s a) := by
  cases a <;> unfold TwoWorkers <;> infer_instance

theorem twoWorkers_preserves {ttl : ℕ} : (pollLock ttl).Preserves TwoWorkers
    fun s => ∀ rid, 2 ≤ rid → s.runs rid = none := by
  intro s a t h hok hstep rid hlarge
  by_contra hrun
  rcases PollLock.runs_of_step hstep hrun with hrun | ⟨token, rfl⟩
  · exact hrun (h rid hlarge)
  · exact absurd hok.1 (not_lt.mpr hlarge)

theorem unraced_of_twoWorkers (s : PollLock) (a : PollAction)
    (h : ∀ rid, 2 ≤ rid → s.runs rid = none) (hok : TwoWorkers s a) : s.Unraced a := by
  cases a with
  | start rid token =>
    refine ⟨hok.2.1, fun _ other run hrun => ?_⟩
    rcases Nat.lt_or_ge other 2 with hsmall | hlarge
    · exact hok.2.2 other hsmall run hrun
    · rw [h other hlarge] at hrun
      simp at hrun
  | finish | get | delete | kill | expire | wait => exact True.intro

end Sample

/-- A run that lasts for longer than the TTL leaves the entry of the next run alone. -/
theorem sample_poll_lock_owned :
    ∃ t : PollLock, t.runs 0 = none ∧ t.Polls 300 1 ∧ t.DeletesOwn ∧
      ∀ i j, t.Polls 300 i → t.Polls 300 j → i = j := by
  obtain ⟨t, hreach, ht⟩ := System.exists_reach_of_guardedRun (pollLock 300) Sample.TwoWorkers {}
    [.start 0 "5d41402abc4b2a76", .wait 300, .expire, .start 1 "7d793037a0760186", .wait 10,
      .finish 0, .get 0]
    (fun t => (t.runs 0).isNone && decide (t.now = 310) &&
      decide (t.runs 1 = some ⟨"7d793037a0760186", 300, .polling⟩)) (by decide)
  simp only [Bool.and_eq_true, Option.isNone_iff_eq_none, decide_eq_true_eq] at ht
  obtain ⟨⟨hended, hnow⟩, hpolls⟩ := ht
  have hunraced : (pollLock 300).Reach PollLock.Unraced {} t :=
    hreach.mono_of_invariant _ Sample.twoWorkers_preserves Sample.unraced_of_twoWorkers
      fun _ _ => rfl
  exact ⟨t, hended, ⟨_, hpolls, rfl, by simp [hnow]⟩, poll_lock_owned hunraced⟩

/-- Between the `get` and the `delete` of a first run the entry expires and a second run acquires
the lock.  The first run deletes that entry, a third run acquires the lock, and the second and the
third run read the mailbox at the same time. -/
theorem poll_lock_stolen :
    ∃ t : PollLock, (pollLock 300).Reach (fun _ _ => True) {} t ∧
      ¬t.DeletesOwn ∧ t.Polls 300 1 ∧ t.Polls 300 2 := by
  obtain ⟨t, hreach, ht⟩ := System.exists_reach_of_guardedRun (pollLock 300) (fun _ _ => True) {}
    [.start 0 "5d41402abc4b2a76", .finish 0, .get 0, .wait 300, .expire,
      .start 1 "7d793037a0760186", .delete 0, .start 2 "e4da3b7fbbce2345"]
    (fun t => decide (t.now = 300) &&
      decide (t.deletions = [("5d41402abc4b2a76", "7d793037a0760186")]) &&
      decide (t.runs 1 = some ⟨"7d793037a0760186", 300, .polling⟩) &&
      decide (t.runs 2 = some ⟨"e4da3b7fbbce2345", 300, .polling⟩)) (by decide)
  simp only [Bool.and_eq_true, decide_eq_true_eq] at ht
  obtain ⟨⟨⟨hnow, hdeletions⟩, hsecond⟩, hthird⟩ := ht
  refine ⟨t, hreach, fun hown => ?_, ⟨_, hsecond, rfl, by simp [hnow]⟩,
    ⟨_, hthird, rfl, by simp [hnow]⟩⟩
  have hsame := hown ("5d41402abc4b2a76", "7d793037a0760186") (by simp [hdeletions])
  simp at hsame

end PushIT
