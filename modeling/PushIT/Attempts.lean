import PushIT.Sending

/-!
# Worker exclusion and the attempt bound

When every pass ends before the watchdog's threshold, the watchdog never requeues a notification
that is being sent, so that each notification has at most one running pass.  All passes then
share the attempt counter of a delivery row one after the other: the counter is the number of
failing provider calls that were written back, and at most `maxDeliveryAttempts` calls fail.
Between two claims of a notification at most one client request moves it to QUEUED.

## Main definitions

* `World.Timely`: every running pass is younger than the threshold of the watchdog.
* `recording`: the delivery whose failing call a pass has not written back yet.
* `clientQueuedSinceClaim`: the client requests that moved a notification to QUEUED since its
  last claim.

## Main results

* `workers_exclude_each_other`: the three properties along every such run.
-/

namespace PushIT

open Relational Transition

/-! ### The watchdog and timely passes -/

/-- The cutoff a watchdog run decides with. -/
def WatchdogRun.cutoff : WatchdogRun → Instant
  | .scanning cutoff _ | .submitting cutoff _ _ => cutoff

/-- No running pass is older than the threshold of the watchdog. -/
def World.Timely (cfg : Settings) (w : World) : Prop :=
  ∀ pid p, w.passes pid = some p → ∀ t, p.notification.processingStartedAt = some t →
    watchdogCutoff cfg w.clock ≤ t

/-- The cutoffs of the watchdog lie a threshold in the past. -/
def World.CutoffsPast (cfg : Settings) (w : World) : Prop :=
  ∀ rid run, w.processes rid = some (.watchdog run) → run.cutoff ≤ watchdogCutoff cfg w.clock

/-- While the passes are timely the watchdog spares them. -/
theorem World.Timely.watchdogSpares {cfg : Settings} {w : World} (ht : w.Timely cfg)
    (hw : w.Claimed) (hcut : w.CutoffsPast cfg) (a : Action) : w.WatchdogSpares a := by
  rintro rid input cutoff id ids n rfl hrun hn hstuck pid p hp rfl
  have hrow := hw.row pid p hp
  obtain rfl : n = p.notification := Option.some.inj (hn.symm.trans hrow)
  simp only [stuckProcessing, Bool.and_eq_true, Option.any_eq_true, decide_eq_true_eq] at hstuck
  obtain ⟨-, t, hstarted, hlt⟩ := hstuck
  have hpast : cutoff ≤ watchdogCutoff cfg w.clock := hcut rid _ hrun
  have hyoung := ht pid p hp t hstarted
  exact absurd (Int.lt_of_lt_of_le hlt (Int.le_trans hpast hyoung)) (Int.lt_irrefl t)

/-- A step of a watchdog run keeps its cutoff, and no other process becomes one. -/
theorem Process.Moves.cutoff {now : Instant} {T : Table Notification} {input : TaskInput}
    {p : Process} {s : TaskStep Process} (h : Moves now T input p s) {run' : WatchdogRun}
    (hnext : s.next = some (.watchdog run')) :
    ∃ run, p = .watchdog run ∧ run'.cutoff = run.cutoff := by
  cases h with
  | requeued cutoff id ids n hn hstuck =>
    simp only [Option.some.injEq, Process.watchdog.injEq] at hnext
    exact ⟨_, rfl, hnext ▸ rfl⟩
  | watchdogSkipped cutoff id ids =>
    simp only [Option.some.injEq, Process.watchdog.injEq] at hnext
    exact ⟨_, rfl, hnext ▸ rfl⟩
  | watchdogSubmitted cutoff id ids hbroker =>
    simp only [Option.some.injEq, Process.watchdog.injEq] at hnext
    exact ⟨_, rfl, hnext ▸ rfl⟩
  | _ => simp at hnext

theorem World.CutoffsPast.step {cfg : Settings} {w w' : World} {a : Action}
    (hcut : w.CutoffsPast cfg) (h : Steps cfg w a w') (hs : w.Sends a) : w'.CutoffsPast cfg := by
  cases h with
  | tick duration =>
    intro rid run hrun
    refine Int.le_trans (hcut rid run hrun) ?_
    exact Int.sub_le_sub_right (Int.le_add_of_nonneg_right (Int.natCast_nonneg _)) _
  | notClaimed | claimed | pass | crash => exact hcut
  | request rid r hrid =>
    intro j run hrun
    rcases Pool.set_eq_some.mp hrun with ⟨-, hnext⟩ | ⟨-, hold⟩
    · cases r with
      | requeueStuck =>
        obtain rfl : WatchdogRun.start cfg w.clock w.db = run := by
          simpa [Request.begin, Outcome.goesOn] using hnext
        exact le_rfl
      | send | dispatchScheduled | retryPending =>
        simp [Request.begin, Outcome.goesOn] at hnext
      | createDeviceQuietPeriod | updateDeviceQuietPeriod | deleteDeviceQuietPeriod =>
        simp [Request.begin, Outcome.done] at hnext
      | _ => simp [Sends, Request.isSending, Request.isDeviceQuietPeriod] at hs
    · exact hcut j run hold
  | advance rid input p hp =>
    obtain ⟨s, hmoves, hadv⟩ := Process.advance_moves w.clock input w.db
      (Process.writesNotifications_of_isSending (hs p hp))
    rw [hadv]
    intro j run hrun
    rcases Pool.set_eq_some.mp hrun with ⟨-, hnext⟩ | ⟨-, hold⟩
    · obtain ⟨run₀, rfl, heq⟩ := hmoves.cutoff hnext
      exact heq ▸ hcut rid run₀ hp
    · exact hcut j run hold

/-! ### The attempt counter -/

namespace Pass

/-- The delivery whose failing call a pass has not written back yet. -/
def recording : Stage → Option ℕ
  | .counting _ l _ | .invalidating _ l _ | .rereading _ l _ | .failing _ l _ => some l.delivery.id
  | _ => none

variable {cfg : Settings} {now : Instant} {db : Db} {s : PassStep}

/-- A delivery row after a step has the attempts it had, or none when it is new. -/
def SameAttempts (db db' : Db) : Prop :=
  ∀ δ, (∀ row', db'.deliveries.get? δ = some row' →
    (∃ row, db.deliveries.get? δ = some row ∧ row'.attemptCount = row.attemptCount) ∨
      db.deliveries.get? δ = none ∧ row'.attemptCount = 0) ∧
    (db'.deliveries.get? δ = none → db.deliveries.get? δ = none)

theorem sameAttempts_refl (db : Db) : SameAttempts db db :=
  fun _ => ⟨fun row' h => Or.inl ⟨row', h, rfl⟩, id⟩

theorem sameAttempts_mark {d : NotificationDelivery}
    {f : NotificationDelivery → NotificationDelivery} {hf : ∀ r, pk (f r) = pk r}
    (hattempts : ∀ r, (f r).attemptCount = r.attemptCount) :
    SameAttempts db (withDelivery db d.id f hf) := by
  intro δ
  change (∀ row', (db.deliveries.modify d.id f hf).get? δ = some row' → _) ∧
    ((db.deliveries.modify d.id f hf).get? δ = none → _)
  rw [Table.get?_modify]
  constructor
  · intro row' hrow'
    obtain ⟨row, hrow, rfl⟩ := Option.map_eq_some_iff.mp hrow'
    refine Or.inl ⟨row, hrow, ?_⟩
    split
    · exact hattempts row
    · rfl
  · exact Option.map_eq_none_iff.mp

theorem sameAttempts_create (id : ℕ) (deviceIds : List ℕ) :
    SameAttempts db (db.createDeliveries id deviceIds) := by
  intro δ
  constructor
  · intro row' hrow'
    cases hrow : db.deliveries.get? δ with
    | some row =>
      have hkeep : (db.createDeliveries id deviceIds).deliveries.get? δ = some row :=
        Table.get?_insertAll_of_mem hrow
      rw [hkeep] at hrow'
      exact Or.inl ⟨row, rfl, by rw [Option.some.inj hrow']⟩
    | none =>
      obtain ⟨hmem, hpk⟩ := Table.get?_eq_some.mp hrow'
      rcases Table.mem_insertAll hmem with hold | ⟨k, -, -, hnew⟩
      · exact absurd hpk (Table.get?_eq_none.mp hrow row' hold)
      · rw [hnew]
        exact Or.inr ⟨rfl, rfl⟩
  · intro hnone
    by_contra hne
    obtain ⟨row, hrow⟩ := Option.ne_none_iff_exists'.mp hne
    have hkeep : (db.createDeliveries id deviceIds).deliveries.get? δ = some row :=
      Table.get?_insertAll_of_mem hrow
    rw [hkeep] at hnone
    simp at hnone

/-- A step of an accurate pass gets a push refused, or writes a failure back, or leaves the
failing calls and the counters as they are. -/
theorem Moves.recording_cases {p : Pass} (hp : p.Accurate db)
    (h : Moves cfg now db p.notification p.stage s) :
    (∃ f l ls error, p.stage = .looping f ∧ f.remaining = l :: ls ∧
      deliveryDecision cfg.timeZone now (f.rest ls) l = .push ∧
      s = on p.notification (.counting (f.rest ls) l error) db
        [.called p.notification.id l.delivery.id l.device.id l.device.pushToken false]) ∨
    (∃ f l error, p.stage = .failing f l error ∧
      s = on p.notification (.looping (f.count .addFailed))
        (withDelivery db l.delivery.id (markDeliveryAsFailed now error.text)
          (pk_markDeliveryAsFailed now error.text))) ∨
    (∀ δ, calls false δ s.events = 0) ∧ SameAttempts db s.db ∧
      (∀ p', s.next = some p' → recording p'.stage = recording p.stage) ∧
      (s.next = none → recording p.stage = none) := by
  obtain ⟨n, stage⟩ := p
  have hcalls := h.call_cases
  have hrow := hp.row
  have hdevice := hp.device
  -- the steps that call no provider and write at most one row without counting an attempt
  cases h with
  | refused f l ls error hl hd => exact Or.inl ⟨f, l, ls, error, rfl, hl, hd, rfl⟩
  | failed f l error row hrow => exact Or.inr (Or.inl ⟨f, l, error, rfl, rfl⟩)
  | accepted f l ls m hl hd =>
    refine Or.inr (Or.inr ⟨by simp [on, calls_called], sameAttempts_refl db, ?_, by simp [on]⟩)
    rintro p' ⟨⟩
    rfl
  | lapsedCancelled d ds row hrow =>
    refine Or.inr (Or.inr ⟨fun _ => rfl, sameAttempts_mark fun _ => rfl, ?_, by simp [on]⟩)
    rintro p' ⟨⟩
    rfl
  | cancelled f l ls reason row hl hd hrow =>
    refine Or.inr (Or.inr ⟨fun _ => rfl, sameAttempts_mark fun _ => rfl, ?_, by simp [on]⟩)
    rintro p' ⟨⟩
    rfl
  | deferred f l ls quietPeriodEnd row hl hd hrow =>
    refine Or.inr (Or.inr ⟨fun _ => rfl, sameAttempts_mark fun _ => rfl, ?_, by simp [on]⟩)
    rintro p' ⟨⟩
    rfl
  | sentToSettle f l m row hcount hrow =>
    refine Or.inr (Or.inr ⟨fun _ => rfl, sameAttempts_mark fun _ => rfl, ?_, by simp [on]⟩)
    rintro p' ⟨⟩
    rfl
  | sent f l m row hcount hrow =>
    refine Or.inr (Or.inr ⟨fun _ => rfl, sameAttempts_mark fun _ => rfl, ?_, by simp [on]⟩)
    rintro p' ⟨⟩
    rfl
  | materialized ids hn hdevices =>
    refine Or.inr (Or.inr ⟨fun δ => ?_, sameAttempts_create n.id ids, ?_, by simp [on]⟩)
    · refine calls_of_no_call (fun e he => ?_) false δ
      obtain ⟨d, -, rfl⟩ := List.mem_map.mp he
      rfl
    · rintro p' ⟨⟩
      rfl
  | notSent f l m hnone | notFailed f l m hnone =>
    have := (hrow l.delivery (by simp [pending])).1
    rw [hnone] at this
    simp at this
  | notSettled f l hnone | notInvalidated f l error hnone | notReread f l error hnone =>
    have := hdevice l (by simp [Pass.held])
    rw [hnone] at this
    simp at this
  | lapsedClosed | lapsedGone | postponed | notMaterialized | applicationGone | deliveryGone
  | closed =>
    exact Or.inr (Or.inr ⟨fun _ => rfl, sameAttempts_refl _, by simp [ended], fun _ => rfl⟩)
  | _ =>
    refine Or.inr (Or.inr ⟨fun _ => rfl, sameAttempts_refl _, ?_, by simp [on]⟩)
    rintro p' ⟨⟩
    rfl

end Pass

/-- The attempt counter of every row is the number of failing calls written back, and the calls
that failed stay within the bound. -/
structure World.Counted (w : World) : Prop extends w.Sound where
  unknown : ∀ δ, w.db.deliveries.get? δ = none → calls false δ w.history = 0
  written : ∀ δ row, w.db.deliveries.get? δ = some row →
    (∀ pid p, w.passes pid = some p → Pass.recording p.stage ≠ some δ) →
    calls false δ w.history = row.attemptCount
  unwritten : ∀ pid p δ row, w.passes pid = some p → Pass.recording p.stage = some δ →
    w.db.deliveries.get? δ = some row → calls false δ w.history = row.attemptCount + 1
  bounded : ∀ δ, calls false δ w.history ≤ maxDeliveryAttempts

theorem World.Initial.counted {w : World} (hw : w.Initial)
    (hfresh : ∀ d ∈ w.db.deliveries.rows, d.attemptCount = 0) : w.Counted := by
  refine ⟨hw.sound, ?_, ?_, ?_, ?_⟩
  · simp [hw.history, calls]
  · intro δ row hrow _
    rw [hfresh row (Table.get?_eq_some.mp hrow).1, hw.history]
    rfl
  · simp [hw.passes]
  · simp [hw.history, calls]

/-- The pass that records a failure for a delivery is the pass of its notification. -/
private theorem World.Sound.recording_unique {w : World} (hw : w.Sound) {pid i : ℕ} {p q : Pass}
    {d : NotificationDelivery} (hp : w.passes pid = some p) (hq : w.passes i = some q)
    (hd : d ∈ Pass.pending p.stage) (hrec : Pass.recording q.stage = some d.id) : i = pid := by
  obtain ⟨e, he, heid⟩ : ∃ e ∈ Pass.pending q.stage, e.id = d.id := by
    cases hstage : q.stage <;>
      simp only [hstage, Pass.recording, Option.some.injEq, reduceCtorEq] at hrec
    all_goals exact ⟨_, List.mem_cons_self, hrec⟩
  obtain ⟨hrow, hnotification⟩ := (hw.accurate pid p hp).row d hd
  obtain ⟨hrow', hnotification'⟩ := (hw.accurate i q hq).row e he
  rw [heid, hrow] at hrow'
  have hkey : q.notification.id = p.notification.id := by
    rw [← hnotification', ← hnotification, Option.some.inj hrow']
  exact hw.exclusive hq hp hkey

/-- A pass other than the one that stepped is where it was. -/
private theorem World.afterPass_of_ne {w : World} {pid i : ℕ} {q : Pass} {s : PassStep}
    (hi : i ≠ pid) (hq : (w.afterPass pid s).passes i = some q) : w.passes i = some q :=
  (Pool.set_of_ne w.passes s.next hi).symm.trans hq

/-- A refused push is one more failing call, which no row counts yet. -/
private theorem World.Counted.refuses {cfg : Settings} {w : World} (hw : w.Counted) {pid : ℕ}
    {p : Pass} {f : LoopFrame} {l : LoadedDelivery} {ls : List LoadedDelivery} {error : PushError}
    (hp : w.passes pid = some p) (hstage : p.stage = .looping f) (hrest : f.remaining = l :: ls)
    (hdecision : deliveryDecision cfg.timeZone w.clock (f.rest ls) l = .push)
    (hsound : (w.afterPass pid (Pass.on p.notification (.counting (f.rest ls) l error) w.db
      [.called p.notification.id l.delivery.id l.device.id l.device.pushToken false])).Sound) :
    (w.afterPass pid (Pass.on p.notification (.counting (f.rest ls) l error) w.db
      [.called p.notification.id l.delivery.id l.device.id l.device.pushToken false])).Counted := by
  have hacc := hw.accurate pid p hp
  have hpend : l.delivery ∈ Pass.pending p.stage := by simp [hstage, Pass.pending, hrest]
  have hrow := (hacc.row l.delivery hpend).1
  have hidle : ∀ i q, w.passes i = some q → Pass.recording q.stage ≠ some l.delivery.id := by
    intro i q hq hrec
    obtain rfl := hw.recording_unique hp hq hpend hrec
    rw [← Option.some.inj (hp.symm.trans hq), hstage] at hrec
    simp [Pass.recording] at hrec
  have hcalls : ∀ δ, calls false δ (w.afterPass pid (Pass.on p.notification
      (.counting (f.rest ls) l error) w.db [.called p.notification.id l.delivery.id l.device.id
        l.device.pushToken false])).history =
      (if l.delivery.id = δ then 1 else 0) + calls false δ w.history := by
    intro δ
    simp only [World.afterPass, Pass.on, calls_append, calls_reverse, calls_called, true_and]
  have hcount := hw.written l.delivery.id l.delivery hrow hidle
  refine ⟨hsound, ?_, ?_, ?_, ?_⟩
  · intro δ hnone
    have hne : l.delivery.id ≠ δ := by
      rintro rfl
      rw [show w.db.deliveries.get? l.delivery.id = none from hnone] at hrow
      simp at hrow
    rw [hcalls, if_neg hne, Nat.zero_add]
    exact hw.unknown δ hnone
  · intro δ row hδ hnobody
    have hne : l.delivery.id ≠ δ := by
      rintro rfl
      exact hnobody pid _ (Pool.set_self _ _ _) rfl
    rw [hcalls, if_neg hne, Nat.zero_add]
    refine hw.written δ row hδ fun i q hq hrec => ?_
    by_cases hi : i = pid
    · subst hi
      rw [← Option.some.inj (hp.symm.trans hq), hstage] at hrec
      simp [Pass.recording] at hrec
    · exact hnobody i q ((Pool.set_of_ne _ _ hi).trans hq) hrec
  · intro i q δ row hq hrec hδ
    by_cases hi : i = pid
    · subst hi
      obtain rfl := Option.some.inj ((Pool.set_self _ _ _).symm.trans hq)
      obtain rfl : l.delivery.id = δ := Option.some.inj hrec
      obtain rfl := Option.some.inj (hrow.symm.trans hδ)
      rw [hcalls, if_pos rfl, hcount, Nat.add_comm]
    · have hq' := World.afterPass_of_ne hi hq
      have hne : l.delivery.id ≠ δ := by
        rintro rfl
        exact hidle i q hq' hrec
      rw [hcalls, if_neg hne, Nat.zero_add]
      exact hw.unwritten i q δ row hq' hrec hδ
  · intro δ
    rw [hcalls]
    split
    · next hδ =>
      have hleft := Pass.attempts_of_push hdecision
      rw [← hδ, hcount]
      omega
    · have := hw.bounded δ
      omega

/-- A failure written back is counted by the row of its delivery. -/
private theorem World.Counted.writesBack {w : World} (hw : w.Counted) {pid : ℕ} {p : Pass}
    {f : LoopFrame} {l : LoadedDelivery} {error : PushError} (hp : w.passes pid = some p)
    (hstage : p.stage = .failing f l error)
    (hsound : (w.afterPass pid (Pass.on p.notification (.looping (f.count .addFailed))
      (Pass.withDelivery w.db l.delivery.id (markDeliveryAsFailed w.clock error.text)
        (pk_markDeliveryAsFailed w.clock error.text)))).Sound) :
    (w.afterPass pid (Pass.on p.notification (.looping (f.count .addFailed))
      (Pass.withDelivery w.db l.delivery.id (markDeliveryAsFailed w.clock error.text)
        (pk_markDeliveryAsFailed w.clock error.text)))).Counted := by
  have hacc := hw.accurate pid p hp
  have hpend : l.delivery ∈ Pass.pending p.stage := by simp [hstage, Pass.pending]
  have hrow := (hacc.row l.delivery hpend).1
  have hcount := hw.unwritten pid p l.delivery.id l.delivery hp (by rw [hstage]; rfl) hrow
  have hget : ∀ δ, (w.afterPass pid (Pass.on p.notification (.looping (f.count .addFailed))
      (Pass.withDelivery w.db l.delivery.id (markDeliveryAsFailed w.clock error.text)
        (pk_markDeliveryAsFailed w.clock error.text)))).db.deliveries.get? δ =
      if δ = l.delivery.id then some (markDeliveryAsFailed w.clock error.text l.delivery)
      else w.db.deliveries.get? δ := by
    intro δ
    split
    · next hδ =>
      subst hδ
      exact (Table.get?_modify_self _ _ _ (pk_markDeliveryAsFailed w.clock error.text)).trans
        (by rw [hrow]; rfl)
    · next hδ =>
      exact Table.get?_modify_of_ne _ _ (pk_markDeliveryAsFailed w.clock error.text) hδ
  refine ⟨hsound, ?_, ?_, ?_, hw.bounded⟩
  · intro δ hnone
    rw [hget] at hnone
    split at hnone
    · simp at hnone
    · exact hw.unknown δ hnone
  · intro δ row hδ hnobody
    rw [hget] at hδ
    split at hδ
    · next heq =>
      subst heq
      obtain rfl := Option.some.inj hδ
      exact hcount
    · next hne =>
      refine hw.written δ row hδ fun i q hq hrec => ?_
      by_cases hi : i = pid
      · subst hi
        rw [← Option.some.inj (hp.symm.trans hq), hstage] at hrec
        exact hne (Option.some.inj hrec).symm
      · exact hnobody i q ((Pool.set_of_ne _ _ hi).trans hq) hrec
  · intro i q δ row hq hrec hδ
    by_cases hi : i = pid
    · subst hi
      obtain rfl := Option.some.inj ((Pool.set_self _ _ _).symm.trans hq)
      simp [Pass.recording] at hrec
    · have hq' := World.afterPass_of_ne hi hq
      rw [hget] at hδ
      split at hδ
      · next heq =>
        subst heq
        exact absurd (hw.recording_unique hp hq' hpend hrec) hi
      · exact hw.unwritten i q δ row hq' hrec hδ

/-- A step that neither gets a push refused nor counts an attempt keeps the bookkeeping. -/
private theorem World.Counted.uncounted {w : World} (hw : w.Counted) {pid : ℕ} {p : Pass}
    {s : PassStep} (hp : w.passes pid = some p) (hzero : ∀ δ, calls false δ s.events = 0)
    (hattempts : Pass.SameAttempts w.db s.db)
    (hkeep : ∀ p', s.next = some p' → Pass.recording p'.stage = Pass.recording p.stage)
    (hend : s.next = none → Pass.recording p.stage = none)
    (hsound : (w.afterPass pid s).Sound) : (w.afterPass pid s).Counted := by
  have hcalls : ∀ δ, calls false δ (w.afterPass pid s).history = calls false δ w.history := by
    intro δ
    simp only [World.afterPass, calls_append, calls_reverse, hzero δ, Nat.zero_add]
  refine ⟨hsound, ?_, ?_, ?_, fun δ => by rw [hcalls]; exact hw.bounded δ⟩
  · intro δ hnone
    rw [hcalls]
    exact hw.unknown δ ((hattempts δ).2 hnone)
  · intro δ row' hδ hnobody
    rw [hcalls]
    rcases (hattempts δ).1 row' hδ with ⟨row, hrow, heq⟩ | ⟨hnone, heq⟩
    · rw [heq]
      refine hw.written δ row hrow fun i q hq hrec => ?_
      by_cases hi : i = pid
      · subst hi
        obtain rfl := Option.some.inj (hp.symm.trans hq)
        cases hnext : s.next with
        | none => simp [hend hnext] at hrec
        | some p' =>
          refine hnobody i p' ((Pool.set_self _ _ _).trans hnext) ?_
          rw [hkeep p' hnext, hrec]
      · exact hnobody i q ((Pool.set_of_ne _ _ hi).trans hq) hrec
    · rw [heq]
      exact hw.unknown δ hnone
  · intro i q δ row' hq hrec hδ
    rw [hcalls]
    have hold : ∃ j q₀, w.passes j = some q₀ ∧ Pass.recording q₀.stage = some δ := by
      by_cases hi : i = pid
      · subst hi
        have hnext : s.next = some q := (Pool.set_self _ _ _).symm.trans hq
        exact ⟨i, p, hp, by rw [← hkeep q hnext, hrec]⟩
      · exact ⟨i, q, World.afterPass_of_ne hi hq, hrec⟩
    obtain ⟨j, q₀, hq₀, hrec₀⟩ := hold
    rcases (hattempts δ).1 row' hδ with ⟨row, hrow, heq⟩ | ⟨hnone, -⟩
    · rw [heq]
      exact hw.unwritten j q₀ δ row hq₀ hrec₀ hrow
    · -- what a pass records has a row
      exfalso
      obtain ⟨e, he, heid⟩ : ∃ e ∈ Pass.pending q₀.stage, e.id = δ := by
        cases hstage : q₀.stage <;>
          simp only [hstage, Pass.recording, Option.some.injEq, reduceCtorEq] at hrec₀
        all_goals exact ⟨_, List.mem_cons_self, hrec₀⟩
      have := ((hw.accurate j q₀ hq₀).row e he).1
      rw [heid, hnone] at this
      simp at this

/-- A step of a pass keeps the bookkeeping. -/
private theorem World.Counted.pass {cfg : Settings} {w : World} (hw : w.Counted) {pid : ℕ}
    {p : Pass} {s : PassStep} (hp : w.passes pid = some p)
    (hmoves : Pass.Moves cfg w.clock w.db p.notification p.stage s)
    (hsound : (w.afterPass pid s).Sound) : (w.afterPass pid s).Counted := by
  rcases hmoves.recording_cases (hw.accurate pid p hp) with
    ⟨f, l, ls, error, hstage, hrest, hdecision, rfl⟩ | ⟨f, l, error, hstage, rfl⟩ |
    ⟨hzero, hattempts, hkeep, hend⟩
  · exact hw.refuses hp hstage hrest hdecision hsound
  · exact hw.writesBack hp hstage hsound
  · exact hw.uncounted hp hzero hattempts hkeep hend hsound

/-- One action keeps the bookkeeping. -/
theorem World.Counted.step {cfg : Settings} {w w' : World} {a : Action} (hw : w.Counted)
    (h : Steps cfg w a w') (hs : w.Sends a) (hspares : w.WatchdogSpares a) : w'.Counted := by
  have hsound := hw.toSound.step h (hs.undisturbed hw.toClaimed hspares)
  rcases h.send_cases hs with ⟨pid, input, p, s, -, hp, hmoves, rfl⟩ | hapart
  · exact hw.pass hp hmoves hsound
  · obtain ⟨es, hes, hcalls⟩ := hapart.history
    have hcount : ∀ δ, calls false δ w'.history = calls false δ w.history := by
      intro δ
      rw [hes, calls_append, calls_of_no_call hcalls, Nat.zero_add]
    refine ⟨hsound, ?_, ?_, ?_, ?_⟩
    · intro δ hnone
      rw [hcount]
      exact hw.unknown δ (by rwa [hapart.deliveries] at hnone)
    · intro δ row hδ hnobody
      rw [hcount]
      rw [hapart.deliveries] at hδ
      exact hw.written δ row hδ fun i q hq => hnobody i q (hapart.kept i q hq)
    · intro i q δ row hq hrec hδ
      rw [hcount]
      rw [hapart.deliveries] at hδ
      rcases hapart.passes i q hq with hold | hstart
      · exact hw.unwritten i q δ row hold hrec hδ
      · simp [hstart, Pass.recording] at hrec
    · intro δ
      rw [hcount]
      exact hw.bounded δ

/-! ### Client requests between two claims -/

/-- The client requests that moved the notification to QUEUED since it was last claimed. -/
def clientQueuedSinceClaim (id : ℕ) : List Event → ℕ
  | [] => 0
  | .claimed m _ _ :: history => if m = id then 0 else clientQueuedSinceClaim id history
  | .queued m source _ :: history =>
    (if m = id ∧ source = .client then 1 else 0) + clientQueuedSinceClaim id history
  | _ :: history => clientQueuedSinceClaim id history

theorem clientQueuedSinceClaim_append {es : List Event}
    (h : ∀ e ∈ es, (∀ m source due, e ≠ .claimed m source due) ∧
      ∀ m source t, e ≠ .queued m source t) (id : ℕ) (history : List Event) :
    clientQueuedSinceClaim id (es ++ history) = clientQueuedSinceClaim id history := by
  induction es with
  | nil => rfl
  | cons e es ih =>
    obtain ⟨hclaimed, hqueued⟩ := h e List.mem_cons_self
    have htail := ih fun e' he' => h e' (List.mem_cons_of_mem _ he')
    cases e with
    | claimed m source due => exact absurd rfl (hclaimed m source due)
    | queued m source t => exact absurd rfl (hqueued m source t)
    | _ => exact htail

/-- No submission fails in this action. -/
def Action.brokerUp : Action → Bool
  | .advance _ input => input.brokerUp
  | _ => true

/-- A notification that a client queued since its last claim is still QUEUED, and was queued by
one request only. -/
structure World.QueuedOnce (w : World) : Prop where
  once : ∀ id, clientQueuedSinceClaim id w.history ≤ 1
  queued : ∀ id, 0 < clientQueuedSinceClaim id w.history →
    ∃ n, w.db.notifications.get? id = some n ∧ n.status = .queued
  submitted : ∀ rid r, w.processes rid = some (.queue r) → ∀ id status,
    r.stage ≠ .rollingBack id status

theorem World.Initial.queuedOnce {w : World} (hw : w.Initial) : w.QueuedOnce := by
  refine ⟨?_, ?_, ?_⟩ <;> simp [hw.history, hw.processes, clientQueuedSinceClaim]

/-- A row that is not QUEUED was not queued by a client since its last claim. -/
private theorem World.QueuedOnce.eq_zero {w : World} (hw : w.QueuedOnce) {id : ℕ}
    {n : Notification} (hn : w.db.notifications.get? id = some n) (hstatus : n.status ≠ .queued) :
    clientQueuedSinceClaim id w.history = 0 := by
  by_contra hne
  obtain ⟨m, hm, hqueued⟩ := hw.queued id (Nat.pos_of_ne_zero hne)
  obtain rfl := Option.some.inj (hn.symm.trans hm)
  exact hstatus hqueued

/-- A notification is moved to QUEUED from another status. -/
private theorem World.QueuedOnce.enqueue {w : World} (hw : w.QueuedOnce) {id : ℕ}
    {n : Notification} (hn : w.db.notifications.get? id = some n) (hstatus : n.status ≠ .queued)
    {f : Notification → Notification} (hf : ∀ r, pk (f r) = pk r)
    (hqueued : (f n).status = .queued) (source : Submitter) (t : Instant) :
    (∀ m, clientQueuedSinceClaim m (.queued id source t :: w.history) ≤ 1) ∧
    ∀ m, 0 < clientQueuedSinceClaim m (.queued id source t :: w.history) →
      ∃ row, (w.db.notifications.modify id f hf).get? m = some row ∧ row.status = .queued := by
  have hzero := hw.eq_zero hn hstatus
  constructor
  · intro m
    have := hw.once m
    simp only [clientQueuedSinceClaim]
    split
    · next hm => rw [← hm.1, hzero]
    · omega
  · intro m hpos
    by_cases hm : m = id
    · subst hm
      refine ⟨f n, ?_, hqueued⟩
      rw [Table.get?_modify_self, hn]
      rfl
    · obtain ⟨row, hrow, hstatus'⟩ := hw.queued m (by
        simpa [clientQueuedSinceClaim, Ne.symm hm] using hpos)
      exact ⟨row, (Table.get?_modify_of_ne _ _ _ hm).trans hrow, hstatus'⟩

/-- The requests and tasks keep the account of the client requests. -/
private theorem World.QueuedOnce.advance {w : World} (hw : w.QueuedOnce) {rid : ℕ}
    {input : TaskInput} {p : Process} {s : TaskStep Process} (hp : w.processes rid = some p)
    (hsending : p.isSending = true) (hbroker : input.brokerUp = true)
    (h : Process.Moves w.clock w.db.notifications input p s) :
    (∀ id, clientQueuedSinceClaim id (s.events.reverse ++ w.history) ≤ 1) ∧
    (∀ id, 0 < clientQueuedSinceClaim id (s.events.reverse ++ w.history) →
      ∃ n, s.notifications.get? id = some n ∧ n.status = .queued) ∧
    ∀ r, s.next = some (.queue r) → ∀ id status, r.stage ≠ .rollingBack id status := by
  cases h with
  | queued r id status n hr hn hstatus =>
    have hne : n.status ≠ .queued := by
      have := status.2
      rintro heq
      rw [← hstatus, heq] at this
      simp [allowedNotificationStatusesToQueue] at this
    obtain ⟨honce, hqueued⟩ :=
      hw.enqueue hn hne pk_queueNotification rfl .client w.clock
    exact ⟨honce, hqueued, by simp⟩
  | dispatched id ids n hn hdue =>
    have hne : n.status ≠ .queued := by
      intro heq
      simp [scheduledDue, heq] at hdue
    obtain ⟨honce, hqueued⟩ :=
      hw.enqueue hn hne pk_queueNotification rfl .dispatcher w.clock
    exact ⟨honce, hqueued, by simp⟩
  | requeued cutoff id ids n hn hstuck =>
    have hne : n.status ≠ .queued := by
      intro heq
      simp [stuckProcessing, heq] at hstuck
    obtain ⟨honce, hqueued⟩ :=
      hw.enqueue hn hne pk_requeueNotification rfl .watchdog w.clock
    exact ⟨honce, hqueued, by simp⟩
  | queueRolledBack r id status hr => exact absurd hr (hw.submitted rid r hp id status)
  | queueNotSubmitted r id status hr hdown => simp [hbroker] at hdown
  | patchRefused | patchValid | patched | patchGone => simp [Process.isSending] at hsending
  | _ => exact ⟨hw.once, hw.queued, by simp [QueueRequest.answered]⟩

/-- One action keeps the account of the client requests. -/
theorem World.QueuedOnce.step {cfg : Settings} {w w' : World} {a : Action} (hw : w.QueuedOnce)
    (hclaimed : w.Claimed) (h : Steps cfg w a w') (hs : w.Sends a) (hup : a.brokerUp = true) :
    w'.QueuedOnce := by
  cases h with
  | tick duration => exact ⟨hw.once, hw.queued, hw.submitted⟩
  | notClaimed pid task rowLocked htask hpid hnone => exact ⟨hw.once, hw.queued, hw.submitted⟩
  | claimed pid task n htask hpid hn hstatus =>
    refine ⟨fun id => ?_, fun id hpos => ?_, hw.submitted⟩
    · simp only [clientQueuedSinceClaim]
      split
      · exact Nat.zero_le 1
      · exact hw.once id
    · simp only [clientQueuedSinceClaim] at hpos
      split at hpos
      · simp at hpos
      · next hne =>
        obtain ⟨row, hrow, hqueued⟩ := hw.queued id hpos
        exact ⟨row, (Table.get?_modify_of_ne _ _ (pk_acquire w.clock) (Ne.symm hne)).trans hrow,
          hqueued⟩
  | pass pid input p s hp hmoves =>
    have hcount : ∀ id, clientQueuedSinceClaim id (w.afterPass pid s).history =
        clientQueuedSinceClaim id w.history := by
      intro id
      refine clientQueuedSinceClaim_append (fun e he => ?_) id w.history
      obtain ⟨-, hc, hq, -, -⟩ := hmoves.events (List.mem_reverse.mp he)
      exact ⟨hc, hq⟩
    refine ⟨fun id => by rw [hcount]; exact hw.once id, fun id hpos => ?_, hw.submitted⟩
    rw [hcount] at hpos
    obtain ⟨row, hrow, hqueued⟩ := hw.queued id hpos
    -- the row of the pass is PROCESSING, so it is another one
    have hne : id ≠ p.notification.id := by
      rintro rfl
      obtain rfl := Option.some.inj ((hclaimed.row pid p hp).symm.trans hrow)
      rw [hclaimed.processing pid p hp] at hqueued
      cases hqueued
    refine ⟨row, ?_, hqueued⟩
    change s.db.notifications.get? id = some row
    rcases hmoves.notifications with hn | ⟨-, f, hf, hn, -⟩ <;> rw [hn]
    · exact hrow
    · exact (Table.get?_modify_of_ne _ _ _ hne).trans hrow
  | crash pid p hp => exact hs.elim
  | request rid r hrid =>
    have hstage : ∀ q, (r.begin cfg w.clock w.db).next = some (.queue q) → ∀ id status,
        q.stage ≠ .rollingBack id status := by
      intro q hq id status
      cases r with
      | send caller ids =>
        simp only [Request.begin, Outcome.goesOn, Option.some.injEq, Process.queue.injEq] at hq
        simp [← hq]
      | dispatchScheduled | retryPending | requeueStuck =>
        simp [Request.begin, Outcome.goesOn] at hq
      | createDeviceQuietPeriod | updateDeviceQuietPeriod | deleteDeviceQuietPeriod =>
        simp [Request.begin, Outcome.done] at hq
      | _ => simp [Sends, Request.isSending, Request.isDeviceQuietPeriod] at hs
    have hsubmitted : ∀ j q, (w.afterProcess rid (r.begin cfg w.clock w.db)).processes j =
        some (.queue q) → ∀ id status, q.stage ≠ .rollingBack id status := by
      intro j q hq
      rcases Pool.set_eq_some.mp hq with ⟨-, hnext⟩ | ⟨-, hold⟩
      · exact hstage q hnext
      · exact hw.submitted j q hold
    rcases hs with hr | hr
    · obtain ⟨hdb, -, hevents⟩ := Request.begin_sending cfg w.clock w.db hr
      refine ⟨?_, ?_, hsubmitted⟩ <;> simp only [afterProcess, hdb, hevents]
      · exact hw.once
      · exact hw.queued
    · obtain ⟨Q, hdb, -, -, hevents⟩ := Request.begin_deviceQuietPeriod cfg w.clock w.db hr
      have hcount : ∀ id, clientQueuedSinceClaim id
          (w.afterProcess rid (r.begin cfg w.clock w.db)).history =
          clientQueuedSinceClaim id w.history := by
        refine fun id => clientQueuedSinceClaim_append (fun e he => ?_) id w.history
        obtain ⟨q, owner, rfl⟩ := hevents e (List.mem_reverse.mp he)
        simp
      refine ⟨fun id => by rw [hcount]; exact hw.once id, fun id hpos => ?_, hsubmitted⟩
      rw [hcount] at hpos
      simpa only [afterProcess, hdb] using hw.queued id hpos
  | advance rid input p hp =>
    obtain ⟨s, hmoves, hadv⟩ := Process.advance_moves w.clock input w.db
      (Process.writesNotifications_of_isSending (hs p hp))
    rw [hadv]
    obtain ⟨honce, hqueued, hstage⟩ := hw.advance hp (hs p hp) hup hmoves
    refine ⟨honce, hqueued, ?_⟩
    intro j q hq
    rcases Pool.set_eq_some.mp hq with ⟨-, hnext⟩ | ⟨-, hold⟩
    · exact hstage q hnext
    · exact hw.submitted j q hold

/-! ### Runs -/

/-- At most one pass runs for each notification. -/
def World.WorkersExcluded (w : World) : Prop :=
  Pool.Exclusive (fun p : Pass => p.notification.id) w.passes

/-- At most `maxDeliveryAttempts` calls failed for a delivery, and the counter of its row is the
number of those written back: all of them, or all but the one a pass is writing back. -/
def World.AttemptsCounted (w : World) : Prop :=
  (∀ δ, calls false δ w.history ≤ maxDeliveryAttempts) ∧
  ∀ δ row, w.db.deliveries.get? δ = some row →
    ((∀ pid p, w.passes pid = some p → Pass.recording p.stage ≠ some δ) →
      row.attemptCount = calls false δ w.history) ∧
    ∀ pid p, w.passes pid = some p → Pass.recording p.stage = some δ →
      row.attemptCount + 1 = calls false δ w.history

/-- Along the send path, with timely passes. -/
def World.SendsTimely (cfg : Settings) (w : World) (a : Action) : Prop :=
  w.Sends a ∧ w.Timely cfg

theorem preserves_counted (cfg : Settings) :
    (server cfg).Preserves (World.SendsTimely cfg)
      fun w => w.CutoffsPast cfg ∧ w.Counted := by
  intro w a w' hw hok hs
  have hstep := World.step_cases hs
  exact ⟨hw.1.step hstep hok.1,
    hw.2.step hstep hok.1 (hok.2.watchdogSpares hw.2.toClaimed hw.1 a)⟩

/-- When every pass ends before the threshold of the watchdog, at most one worker is inside a
pass of a notification and at most `maxDeliveryAttempts` provider calls fail for a delivery, all
of them counted; and as long as no submission fails, at most one client request queues a
notification between two of its claims. -/
theorem workers_exclude_each_other {cfg : Settings} {w₀ : World} (h₀ : w₀.Initial)
    (hfresh : ∀ d ∈ w₀.db.deliveries.rows, d.attemptCount = 0) :
    (∀ w, (server cfg).Reach (World.SendsTimely cfg) w₀ w →
      w.WorkersExcluded ∧ w.AttemptsCounted) ∧
    ∀ w, (server cfg).Reach (fun w a => w.SendsTimely cfg a ∧ a.brokerUp = true) w₀ w →
      ∀ id, clientQueuedSinceClaim id w.history ≤ 1 := by
  have hstart : w₀.CutoffsPast cfg ∧ w₀.Counted :=
    ⟨by simp [World.CutoffsPast, h₀.processes], h₀.counted hfresh⟩
  constructor
  · intro w hreach
    obtain ⟨-, hw⟩ := System.Reach.invariant (preserves_counted cfg) hreach hstart
    refine ⟨hw.exclusive, hw.bounded, fun δ row hδ => ⟨fun hnobody => ?_, fun pid p hp hrec => ?_⟩⟩
    · exact (hw.written δ row hδ hnobody).symm
    · exact (hw.unwritten pid p δ row hp hrec hδ).symm
  · intro w hreach
    have hpres := System.Preserves.and
      ((preserves_counted cfg).mono fun w a
        (h : w.SendsTimely cfg a ∧ a.brokerUp = true) => h.1)
      (J := World.QueuedOnce) fun u a v hu hq hok hs =>
        hq.step hu.2.toClaimed (World.step_cases hs) hok.1.1 hok.2
    exact (System.Reach.invariant hpres hreach ⟨hstart, h₀.queuedOnce⟩).2.once

/-- The three properties, for every run of the sample server. -/
theorem sample_workers_exclude_each_other :
    (∀ w, (server .default).Reach (World.SendsTimely .default) Sample.world w →
      w.WorkersExcluded ∧ w.AttemptsCounted) ∧
    ∀ w, (server .default).Reach (fun w a => w.SendsTimely .default a ∧ a.brokerUp = true)
      Sample.world w → ∀ id, clientQueuedSinceClaim id w.history ≤ 1 :=
  workers_exclude_each_other Sample.world_initial (by decide)

end PushIT
