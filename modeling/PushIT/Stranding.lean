import Mathlib.Data.List.Dedup
import PushIT.Treatment

/-!
# No stranded delivery

When a notification has a status a pass ends with, each of its deliveries is SENT, or FAILED
without a retry date, or PENDING with one, so that the retry sweep selects every delivery that is
not final.

Each branch of the send loop leaves a delivery in one of these three shapes.  The branch that
waits for a retry date and the one that finds the attempts used up write nothing; they rely on
what earlier passes left.  A delivery that no pass has treated yet has none of the shapes.  Such a
delivery belongs to a notification no pass has ended, or to one whose running pass still has to
treat it, and no request has read a status it could put back.

## Main definitions

* `NotificationDelivery.Tended`, `NotificationDelivery.Regular`: the three shapes, and the shape
  of an untreated delivery beside them.
* `Process.recalls`: a request holds an ended status of a notification.
* `World.Tending`: the invariant.

## Main results

* `no_stranded_delivery`: the three shapes in every run, and the sweep that selects.
-/

namespace PushIT

open Relational Transition

/-! ### The shapes of a delivery -/

/-- The delivery is final, or it waits for a retry. -/
def NotificationDelivery.Tended (d : NotificationDelivery) : Prop :=
  d.status = .sent ∨ d.status = .failed ∧ d.nextRetryAt = none ∨
    d.status = .pending ∧ d.nextRetryAt ≠ none

instance (d : NotificationDelivery) : Decidable d.Tended :=
  inferInstanceAs (Decidable (_ ∨ _ ∧ _ ∨ _ ∧ _))

/-- The delivery is tended, or no pass has treated it. -/
def NotificationDelivery.Regular (d : NotificationDelivery) : Prop :=
  d.Tended ∨ d.status = .pending ∧ d.nextRetryAt = none ∧ d.attemptCount < maxDeliveryAttempts

theorem NotificationDelivery.Fresh.regular {d : NotificationDelivery} (h : d.Fresh) :
    d.Regular := by
  obtain ⟨hstatus, hattempts, hdate⟩ := h
  exact Or.inr ⟨hstatus, hdate, by rw [hattempts]; decide⟩

theorem tended_markDeliveryAsFailed (now : Instant) (error : String) (d : NotificationDelivery) :
    (markDeliveryAsFailed now error d).Tended := by
  unfold NotificationDelivery.Tended
  simp only [markDeliveryAsFailed]
  split
  · exact Or.inr (Or.inl ⟨rfl, rfl⟩)
  · exact Or.inr (Or.inr ⟨rfl, by simp⟩)

/-- Every branch of the loop leaves a tended delivery. -/
theorem NotificationDelivery.treatment_tended :
    Pass.Treatment (fun _ d => d.Tended) NotificationDelivery.Regular where
  mono := fun c d h => ⟨h, h, h, h, h⟩
  skipped := fun c d hsent => Or.inl hsent
  cancelled := fun now reason c d => Or.inr (Or.inl ⟨rfl, rfl⟩)
  waited := by
    intro now c d hregular hsent hwait
    rcases hregular with h | ⟨-, hdate, -⟩
    · exact h
    · simp [shouldWaitForRetry, hdate] at hwait
  deferred := fun now retryAt c d => Or.inr (Or.inr ⟨rfl, by simp [markDeliveryAsDeferred]⟩)
  exhausted := by
    intro c d hregular hsent hattempts
    rcases hregular with h | ⟨-, -, hlt⟩
    · exact h
    · omega
  sent := fun now m c d => Or.inl rfl
  failed := fun now error c d => tended_markDeliveryAsFailed now error d

/-- A marker of a pass leaves a tended delivery. -/
theorem Pass.Moves.Marks.tended {cfg : Settings} {now : Instant} {stage : Stage}
    {d : NotificationDelivery} {f : NotificationDelivery → NotificationDelivery}
    (h : Marks cfg now stage d f) (r : NotificationDelivery) : (f r).Tended := by
  cases h with
  | lapsed | cancelled => exact Or.inr (Or.inl ⟨rfl, rfl⟩)
  | deferred => exact Or.inr (Or.inr ⟨rfl, by simp [markDeliveryAsDeferred]⟩)
  | sent => exact Or.inl rfl
  | failed f l error => exact tended_markDeliveryAsFailed now error.text r

/-- The pass has left the stages at which a quiet period of the application can put the
notification off. -/
def Pass.isLate : Stage → Bool
  | .entitlement | .applicationQuiet | .postponing _ => false
  | _ => true

theorem Pass.Moves.isLate {cfg : Settings} {now : Instant} {db : Db} {n : Notification}
    {stage : Stage} {s : PassStep} {p' : Pass} (h : Moves cfg now db n stage s)
    (hlate : Pass.isLate stage = true) (hnext : s.next = some p') :
    Pass.isLate p'.stage = true := by
  cases h with
  | paid | unpaid | quiet | notQuiet | postponed => simp [Pass.isLate] at hlate
  | _ =>
    simp only [on, ended, reduceCtorEq, Option.some.injEq] at hnext
    try (subst hnext; rfl)

/-- A delivery that is not tended after a step of a pass is an old one, or the pass just created
it. -/
theorem Pass.Moves.untended {cfg : Settings} {now : Instant} {db : Db} {n : Notification}
    {stage : Stage} {s : PassStep} (h : Moves cfg now db n stage s) {d : NotificationDelivery}
    (hd : d ∈ s.db.deliveries.rows) (hnot : ¬d.Tended) :
    d ∈ db.deliveries.rows ∨ d.notificationId = n.id ∧ d.Fresh ∧
      ∃ p', s.next = some p' ∧ Pass.isLate p'.stage = true := by
  rcases h.deliveries with hs | ⟨e, f, hm, hs⟩ | ⟨ids, rfl, hs⟩
  · rw [hs] at hd
    exact Or.inl hd
  · rw [hs] at hd
    obtain ⟨r, hr, rfl⟩ := Table.mem_modify.mp hd
    by_cases hpk : pk r = e.id
    · rw [if_pos hpk] at hnot
      exact absurd (hm.tended r) hnot
    · rw [if_neg hpk]
      exact Or.inl hr
  · cases h with
    | materialized _ hn hdevices =>
      rcases Table.mem_insertAll hd with hold | ⟨k, -, -, hnew⟩
      · exact Or.inl hold
      · rw [hnew]
        exact Or.inr ⟨rfl, ⟨rfl, rfl, rfl⟩, _, rfl, rfl⟩
    | notMaterialized => exact Or.inl hd

/-! ### Ended notifications -/

/-- The statuses a pass ends with. -/
def NotificationStatus.isEnded : NotificationStatus → Bool
  | .sent | .failed | .partially | .noTarget => true
  | .draft | .scheduled | .queued | .processing => false

theorem Notification.Fresh.isEnded {n : Notification} (h : n.Fresh) :
    n.status.isEnded = false := by
  rcases h with h | h <;> rw [h] <;> rfl

/-- The instance shows the notification with an ended status. -/
def LoadedNotification.recalls (id : ℕ) (l : LoadedNotification) : Bool :=
  l.notification.id == id && l.notification.status.isEnded

/-- The stage of a request is to put an ended status of the notification back. -/
def QueueStage.recalls (id : ℕ) : QueueStage → Bool
  | .updating k status | .submitting k status | .rollingBack k status =>
    k == id && status.val.isEnded
  | .choosing | .conflicting _ => false

/-- A request holds an ended status of the notification. -/
def Process.recalls (id : ℕ) : Process → Bool
  | .queue r => r.found.any (LoadedNotification.recalls id) || r.stage.recalls id
  | _ => false

/-- The notification of an instance a request looked up is the one it asked for. -/
private theorem lookup_spec {r : QueueRequest} {id : ℕ} {l : LoadedNotification}
    (h : r.lookup id = some l) : l ∈ r.found ∧ l.notification.id = id :=
  ⟨List.mem_of_find?_eq_some h, by simpa using List.find?_some h⟩

private theorem status_of_queueCheck {now : Instant} {l : LoadedNotification}
    {status : QueueableStatus} (h : queueCheck now l = .ok status) :
    status.val = l.notification.status := by
  simp only [queueCheck] at h
  split at h
  · simp at h
  · split at h
    · simp at h
    · split at h
      · obtain rfl := Except.ok.inj h
        rfl
      · simp at h

/-- A request recalls nothing it did not recall before. -/
theorem Process.Moves.recalls {now : Instant} {T : Table Notification} {input : TaskInput}
    {p p' : Process} {s : TaskStep Process} (h : Moves now T input p s)
    (hnext : s.next = some p') {id : ℕ} (hrecalls : p'.recalls id = true) :
    p.recalls id = true := by
  cases h with
  | queueChosen r k ids l status hr htodo hl hcheck =>
    obtain rfl := Option.some.inj hnext
    simp only [Process.recalls, Bool.or_eq_true, QueueStage.recalls] at hrecalls ⊢
    rcases hrecalls with hfound | hstage
    · exact Or.inl hfound
    · obtain ⟨hmem, hid⟩ := lookup_spec hl
      refine Or.inl (List.any_eq_true.mpr ⟨l, hmem, ?_⟩)
      rw [status_of_queueCheck hcheck] at hstage
      simpa [LoadedNotification.recalls, hid] using hstage
  | queued r k status n hr hn hstatus hinput =>
    obtain rfl := Option.some.inj hnext
    simp only [Process.recalls, Bool.or_eq_true, hr] at hrecalls ⊢
    rcases hrecalls with hfound | hstage
    · left
      simp only [QueueRequest.markFound, List.any_map, List.any_eq_true, Function.comp_apply]
        at hfound ⊢
      obtain ⟨l, hmem, hl⟩ := hfound
      refine ⟨l, hmem, ?_⟩
      split at hl
      · simp [LoadedNotification.recalls, queueNotification, NotificationStatus.isEnded] at hl
      · exact hl
    · exact Or.inr hstage
  | queueNotSubmitted r k status hr hbroker =>
    obtain rfl := Option.some.inj hnext
    simpa [Process.recalls, hr, QueueStage.recalls] using hrecalls
  | queueRefused | queueInterrupted | queueConflict | queueConflictAnswered | queueSubmitted
  | queueRolledBack =>
    obtain rfl := Option.some.inj hnext
    simp only [Process.recalls, QueueRequest.answered, QueueStage.recalls, Bool.or_false,
      Bool.or_eq_true] at hrecalls ⊢
    exact Or.inl hrecalls
  | _ =>
    simp only [Option.some.injEq, reduceCtorEq] at hnext
    try (subst hnext; simp [Process.recalls] at hrecalls)

/-- What a request recalls when it begins it has just read. -/
theorem Request.begin_recalls {cfg : Settings} {w : World} {rid : ℕ} {r : Request}
    (h : w.Delivers (.request rid r)) {p : Process}
    (hnext : (r.begin cfg w.clock w.db).next = some p) {id : ℕ} (hrecalls : p.recalls id = true) :
    ∃ n ∈ w.db.notifications.rows, n.id = id ∧ n.status.isEnded = true := by
  have hqueue : ∀ (found : List LoadedNotification) (todo : List ℕ),
      p = .queue { found, todo } → ∃ l ∈ found, l.recalls id = true := by
    rintro found todo rfl
    simpa [Process.recalls, QueueStage.recalls] using hrecalls
  cases r with
  | send caller ids =>
    obtain ⟨l, hl, hid⟩ := hqueue _ _ (Option.some.inj hnext).symm
    obtain ⟨n, hn, rfl⟩ := List.mem_map.mp hl
    simp only [LoadedNotification.recalls, Bool.and_eq_true, beq_iff_eq] at hid
    exact ⟨n, (Table.mem_select.mp hn).1, hid⟩
  | sendNow user applicationId deviceIds data =>
    simp only [begin, Outcome.done] at hnext
    split at hnext
    · simp at hnext
    · split at hnext
      · simp at hnext
      · obtain ⟨l, hl, hid⟩ := hqueue _ _ (Option.some.inj hnext).symm
        obtain rfl := List.mem_singleton.mp hl
        have hfresh := (Db.Grows.fresh_newNotification w.clock applicationId data
          (w.db.notifications.seq + 1)).isEnded
        simp [LoadedNotification.recalls, hfresh] at hid
  | dispatchScheduled | retryPending | requeueStuck =>
    obtain rfl := Option.some.inj hnext
    simp [Process.recalls] at hrecalls
  | link user data applicationId =>
    simp only [begin, Outcome.done] at hnext
    split at hnext
    · obtain rfl := Option.some.inj hnext
      simp [Process.recalls] at hrecalls
    · simp at hnext
  | unlink user pushToken applicationId source =>
    obtain ⟨l, -, rfl⟩ := Option.map_eq_some_iff.mp hnext
    simp [Process.recalls] at hrecalls
  | evict user applicationId deviceId =>
    obtain ⟨l, -, rfl⟩ := Option.map_eq_some_iff.mp hnext
    simp [Process.recalls] at hrecalls
  | createDeviceQuietPeriod user deviceId values =>
    simp only [begin, Outcome.done] at hnext
    simp at hnext
  | patch | destroy | hide | destroyDevice | purge | deleteAccount =>
    simp [World.Delivers, isSending, isQuietPeriod, isDeviceQuietPeriod, isApplicationQuietPeriod,
      isCreation, isLinking] at h
  | _ => simp [begin, Outcome.done] at hnext

/-! ### The invariant -/

/-- An untreated delivery belongs to a notification that is not ended; and when a request holds
an ended status of its notification, a pass is about to treat it. -/
structure World.Tending (w : World) : Prop extends w.Sound where
  intact : w.db.Intact
  regular : ∀ d ∈ w.db.deliveries.rows, d.Regular
  treated : ∀ pid p, w.passes pid = some p → p.Treated (fun _ d => d.Tended) w.db
  ended : ∀ d ∈ w.db.deliveries.rows, ¬d.Tended → ∀ n ∈ w.db.notifications.rows,
    n.id = d.notificationId → n.status.isEnded = false
  recalled : ∀ rid q, w.processes rid = some q → ∀ id, q.recalls id = true →
    id ≤ w.db.notifications.seq ∧
      ((∃ pid p, w.passes pid = some p ∧ p.notification.id = id ∧ Pass.isLate p.stage = true) ∨
        ∀ d ∈ w.db.deliveries.rows, d.notificationId = id → d.Tended)

/-- When a pass ends, its deliveries are tended, or a quiet period put its notification off. -/
theorem World.Tending.tended_of_end {cfg : Settings} {w : World} (hw : w.Tending) {pid : ℕ}
    {p : Pass} {s : PassStep} (hp : w.passes pid = some p)
    (hmoves : Pass.Moves cfg w.clock w.db p.notification p.stage s) (hnext : s.next = none) :
    (∀ d ∈ s.db.deliveries.rows, d.notificationId = p.notification.id → d.Tended) ∨
      ∃ q, p.stage = .postponing q ∧
        s.db = w.db.updateNotification p.notification.id (postponeNotification q)
          (pk_postponeNotification q) := by
  rcases hmoves.closes (hw.accurate pid p hp) hw.intact (hw.row pid p hp) (hw.treated pid p hp)
    hnext with ⟨status, ⟨-, hnone⟩ | ⟨c, -, hrows⟩, hdb⟩ | ⟨q, hstage, hdb⟩ | ⟨hnone, hdb⟩
  · refine Or.inl fun d hd hid => ?_
    rw [hdb] at hd
    exact absurd hid (hnone d hd)
  · refine Or.inl fun d hd hid => ?_
    rw [hdb] at hd
    exact hrows d hd hid
  · exact Or.inr ⟨q, hstage, hdb⟩
  · refine Or.inl fun d hd hid => ?_
    rw [hdb] at hd
    exact absurd hid (hnone d hd)

/-- A step of a pass ends no notification with an untreated delivery. -/
theorem World.Tending.ended_pass {cfg : Settings} {w : World} (hw : w.Tending) {pid : ℕ}
    {p : Pass} {s : PassStep} (hp : w.passes pid = some p)
    (hmoves : Pass.Moves cfg w.clock w.db p.notification p.stage s) :
    ∀ d ∈ s.db.deliveries.rows, ¬d.Tended → ∀ n ∈ s.db.notifications.rows,
      n.id = d.notificationId → n.status.isEnded = false := by
  intro d hd hnot n hn hid
  have hrow := (Table.get?_eq_some.mp (hw.row pid p hp)).1
  by_cases hown : d.notificationId = p.notification.id
  · cases hnext : s.next with
    | some p' =>
      rw [hmoves.notifications_of_next hnext] at hn
      obtain rfl : n = p.notification := Table.eq_of_pk hn hrow (hid.trans hown)
      rw [hw.processing pid p hp]
      rfl
    | none =>
      rcases hw.tended_of_end hp hmoves hnext with htended | ⟨q, -, hdb⟩
      · exact absurd (htended d hd hown) hnot
      · rw [hdb] at hn
        change n ∈ (w.db.notifications.modify p.notification.id (postponeNotification q)
          (pk_postponeNotification q)).rows at hn
        obtain ⟨r, hr, rfl⟩ := Table.mem_modify.mp hn
        by_cases hpk : pk r = p.notification.id
        · rw [if_pos hpk]
          rfl
        · rw [if_neg hpk] at hid
          exact absurd (hid.trans hown) hpk
  · have hold := hmoves.mem_delivery_of_ne (hw.accurate pid p hp) hd hown
    rcases hmoves.notifications with hs | ⟨-, f, hf, hs, -⟩ <;> rw [hs] at hn
    · exact hw.ended d hold hnot n hn hid
    · obtain ⟨r, hr, rfl⟩ := Table.mem_modify.mp hn
      by_cases hpk : pk r = p.notification.id
      · rw [if_pos hpk] at hid
        have : pk (f r) = d.notificationId := hid
        rw [hf, hpk] at this
        exact absurd this.symm hown
      · rw [if_neg hpk] at hid ⊢
        exact hw.ended d hold hnot r hr hid

/-- A step of a pass treats what the requests recall. -/
theorem World.Tending.recalled_pass {cfg : Settings} {w : World} (hw : w.Tending) {pid : ℕ}
    {p : Pass} {s : PassStep} (hp : w.passes pid = some p)
    (hmoves : Pass.Moves cfg w.clock w.db p.notification p.stage s) {rid : ℕ} {q : Process}
    (hq : w.processes rid = some q) {id : ℕ} (hrecalls : q.recalls id = true) :
    id ≤ s.db.notifications.seq ∧
      ((∃ j p', w.passes.set pid s.next j = some p' ∧ p'.notification.id = id ∧
          Pass.isLate p'.stage = true) ∨
        ∀ d ∈ s.db.deliveries.rows, d.notificationId = id → d.Tended) := by
  obtain ⟨hle, hcases⟩ := hw.recalled rid q hq id hrecalls
  have hseq : s.db.notifications.seq = w.db.notifications.seq := by
    rcases hmoves.notifications with hs | ⟨-, f, hf, hs, -⟩ <;> rw [hs]
    rfl
  refine ⟨hseq ▸ hle, ?_⟩
  -- a pass that goes on late serves the left side
  have hgoes : ∀ p', s.next = some p' → p.notification.id = id → Pass.isLate p'.stage = true →
      ∃ j p', w.passes.set pid s.next j = some p' ∧ p'.notification.id = id ∧
        Pass.isLate p'.stage = true := fun p' hnext hid hlate =>
    ⟨pid, p', by rw [Pool.set_self, hnext], by rw [hmoves.notification_eq hnext, hid], hlate⟩
  rcases hcases with ⟨j, r, hr, hid, hlate⟩ | htended
  · by_cases hj : j = pid
    · subst hj
      obtain rfl := Option.some.inj (hp.symm.trans hr)
      cases hnext : s.next with
      | some p' =>
        rw [← hnext]
        exact Or.inl (hgoes p' hnext hid (hmoves.isLate hlate hnext))
      | none =>
        rcases hw.tended_of_end hp hmoves hnext with htended | ⟨q, hstage, -⟩
        · exact Or.inr fun d hd hdid => htended d hd (hdid.trans hid.symm)
        · simp [hstage, Pass.isLate] at hlate
    · exact Or.inl ⟨j, r, by rw [Pool.set_of_ne _ _ hj, hr], hid, hlate⟩
  · by_cases hall : ∀ d ∈ s.db.deliveries.rows, d.notificationId = id → d.Tended
    · exact Or.inr hall
    · simp only [not_forall] at hall
      obtain ⟨d, hd, hdid, hnot⟩ := hall
      rcases hmoves.untended hd hnot with hold | ⟨hown, -, p', hnext, hlate⟩
      · exact absurd (htended d hold hdid) hnot
      · exact Or.inl (hgoes p' hnext (hown.symm.trans hdid) hlate)

/-- A request or task that moves notifications ends none with an untreated delivery. -/
theorem World.Tending.ended_moves {w : World} (hw : w.Tending) {rid : ℕ} {input : TaskInput}
    {q : Process} {s : TaskStep Process} (hq : w.processes rid = some q)
    (hdelivering : q.isDelivering = true)
    (hmoves : Process.Moves w.clock w.db.notifications input q s) :
    ∀ d ∈ w.db.deliveries.rows, ¬d.Tended → ∀ n ∈ s.notifications.rows,
      n.id = d.notificationId → n.status.isEnded = false := by
  intro d hd hnot
  have hqueued : ∀ id f hf, (∀ n : Notification, (f n).status = .queued) →
      ∀ n ∈ (w.db.notifications.modify id f hf).rows, n.id = d.notificationId →
        n.status.isEnded = false := by
    intro id f hf hstatus n hn hid
    obtain ⟨r, hr, rfl⟩ := Table.mem_modify.mp hn
    split
    · rw [hstatus]
      rfl
    · next hpk =>
      rw [if_neg hpk] at hid
      exact hw.ended d hd hnot r hr hid
  cases hmoves with
  | queued => exact hqueued _ _ pk_queueNotification fun _ => rfl
  | dispatched => exact hqueued _ _ pk_queueNotification fun _ => rfl
  | requeued => exact hqueued _ _ pk_requeueNotification fun _ => rfl
  | patched => simp [Process.isDelivering] at hdelivering
  | queueRolledBack r id status hr =>
    intro n hn hid
    change n ∈ (w.db.notifications.update _ _ (pk_restoreStatus status.val)).rows at hn
    obtain ⟨m, hm, rfl⟩ := Table.mem_update.mp hn
    by_cases hback : (m.id == id && m.status == .queued) = true
    · rw [if_pos hback] at hid ⊢
      simp only [Bool.and_eq_true, beq_iff_eq] at hback
      obtain ⟨rfl, hstatus⟩ := hback
      by_contra hended
      have hrecalls : Process.recalls m.id (.queue r) = true := by
        simp only [Process.recalls, hr, QueueStage.recalls, Bool.or_eq_true, beq_self_eq_true,
          Bool.true_and]
        exact Or.inr (by simpa [restoreStatus] using hended)
      rcases (hw.recalled rid _ hq m.id hrecalls).2 with ⟨pid, p, hp, hpid, -⟩ | htended
      · -- a notification that is being sent is not QUEUED
        obtain rfl : m = p.notification :=
          Table.eq_of_pk hm (Table.get?_eq_some.mp (hw.row pid p hp)).1 hpid.symm
        simp [hw.processing pid p hp] at hstatus
      · exact hnot (htended d hd hid.symm)
    · rw [if_neg hback] at hid ⊢
      exact hw.ended d hd hnot m hm hid
  | _ => exact fun n hn hid => hw.ended d hd hnot n hn hid

/-- Rows are added: the new deliveries belong to new notifications. -/
theorem World.Tending.ended_grows {w : World} (hw : w.Tending) {db' : Db}
    (hgrows : w.db.Grows db') :
    ∀ d ∈ db'.deliveries.rows, ¬d.Tended → ∀ n ∈ db'.notifications.rows,
      n.id = d.notificationId → n.status.isEnded = false := by
  intro d hd hnot n hn hid
  rcases hgrows.created n hn with hold | ⟨-, hfresh, -⟩
  · exact hw.ended d (hgrows.mem_deliveries hold hd hid.symm) hnot n hold hid
  · exact hfresh.isEnded

/-- Nothing is added to a notification that a request recalls. -/
theorem World.Tending.recalled_grows {w : World} (hw : w.Tending) {db' : Db}
    (hgrows : w.db.Grows db') {rid : ℕ} {q : Process} (hq : w.processes rid = some q) {id : ℕ}
    (hrecalls : q.recalls id = true) :
    id ≤ db'.notifications.seq ∧
      ((∃ pid p, w.passes pid = some p ∧ p.notification.id = id ∧ Pass.isLate p.stage = true) ∨
        ∀ d ∈ db'.deliveries.rows, d.notificationId = id → d.Tended) := by
  obtain ⟨hle, hcases⟩ := hw.recalled rid q hq id hrecalls
  refine ⟨hle.trans hgrows.seq, hcases.imp (fun h => h) fun htended d hd hid => ?_⟩
  rcases hgrows.added d hd with hold | ⟨hlt, -, -⟩
  · exact htended d hold hid
  · omega

/-- One action keeps the invariant. -/
theorem World.Tending.step {cfg : Settings} {w w' : World} {a : Action} (hw : w.Tending)
    (h : Steps cfg w a w') (hs : w.Delivers a) : w'.Tending := by
  have hsound := hs.sound hw.toSound h
  have hintact := hs.intact hw.intact h
  have htreated := hs.treated NotificationDelivery.treatment_tended hw.toSound hw.intact hw.regular
    (fun _ _ _ _ _ _ d _ _ hsent => Or.inl hsent) hw.treated h
  have hregular : ∀ {db' : Db}, w.db.Grows db' → ∀ d ∈ db'.deliveries.rows, d.Regular := by
    intro db' hgrows d hd
    rcases hgrows.added d hd with hold | ⟨-, hfresh, -⟩
    · exact hw.regular d hold
    · exact hfresh.regular
  cases h with
  | tick duration =>
    exact ⟨hsound, hintact, hw.regular, htreated, hw.ended, hw.recalled⟩
  | notClaimed => exact ⟨hsound, hintact, hw.regular, htreated, hw.ended, hw.recalled⟩
  | claimed pid task n htask hpid hn hstatus =>
    refine ⟨hsound, hintact, hw.regular, htreated, ?_, ?_⟩
    · intro d hd hnot m hm hid
      change m ∈ (w.db.notifications.modify n.id (acquire w.clock) (pk_acquire w.clock)).rows at hm
      obtain ⟨r, hr, rfl⟩ := Table.mem_modify.mp hm
      by_cases hpk : pk r = n.id
      · rw [if_pos hpk]
        rfl
      · rw [if_neg hpk] at hid ⊢
        exact hw.ended d hd hnot r hr hid
    · intro rid q hq id hrecalls
      obtain ⟨hle, hcases⟩ := hw.recalled rid q hq id hrecalls
      refine ⟨hle, hcases.imp (fun ⟨j, p, hp, hid, hlate⟩ => ⟨j, p, ?_, hid, hlate⟩) fun h => h⟩
      have hne : j ≠ pid := by
        rintro rfl
        simp [hpid] at hp
      exact (Pool.set_of_ne _ _ hne).trans hp
  | pass pid input p s hp hmoves =>
    refine ⟨hsound, hintact, ?_, htreated, hw.ended_pass hp hmoves, ?_⟩
    · intro d hd
      by_cases htended : d.Tended
      · exact Or.inl htended
      · rcases hmoves.untended hd htended with hold | ⟨-, hfresh, -⟩
        · exact hw.regular d hold
        · exact hfresh.regular
    · exact fun rid q hq id hrecalls => hw.recalled_pass hp hmoves hq hrecalls
  | crash pid p hp => exact hs.elim
  | request rid r hrid =>
    have hgrows := Request.begin_grows cfg hs
    refine ⟨hsound, hintact, hregular hgrows, htreated, hw.ended_grows hgrows, ?_⟩
    intro j q hq id hrecalls
    rcases Pool.set_eq_some.mp hq with ⟨-, hnext⟩ | ⟨-, hold⟩
    · obtain ⟨n, hn, rfl, hended⟩ := Request.begin_recalls hs hnext hrecalls
      refine ⟨(w.db.notifications.bounded n hn).trans hgrows.seq, Or.inr fun d hd hid => ?_⟩
      by_contra hnot
      have := hw.ended d (hgrows.mem_deliveries hn hd hid) hnot n hn hid.symm
      simp [hended] at this
    · exact hw.recalled_grows hgrows hold hrecalls
  | advance rid input q hq =>
    rcases Process.advance_delivering w.clock w.db input (hs q hq) with
      ⟨-, s, hmoves, hadv⟩ | ⟨hnone, hgrows, -⟩
    · rw [hadv] at hsound hintact htreated ⊢
      refine ⟨hsound, hintact, hw.regular, htreated, hw.ended_moves hq (hs q hq) hmoves, ?_⟩
      have hseq : s.notifications.seq = w.db.notifications.seq := by
        rcases hmoves.notifications with hT | ⟨p, f, hf, hT, -⟩ <;> rw [hT]
        rfl
      intro j q' hq' id hrecalls
      change id ≤ s.notifications.seq ∧ _
      rw [hseq]
      rcases Pool.set_eq_some.mp hq' with ⟨-, hnext⟩ | ⟨-, hold⟩
      · exact hw.recalled rid q hq id (hmoves.recalls hnext hrecalls)
      · exact hw.recalled j q' hold id hrecalls
    · refine ⟨hsound, hintact, hregular hgrows, htreated, hw.ended_grows hgrows, ?_⟩
      intro j q' hq' id hrecalls
      rcases Pool.set_eq_some.mp hq' with ⟨-, hnext⟩ | ⟨-, hold⟩
      · simp [hnone] at hnext
      · exact hw.recalled_grows hgrows hold hrecalls

/-! ### Runs -/

/-- Notifications and deliveries as they are created. -/
structure Db.Fresh (db : Db) : Prop where
  notifications : ∀ n ∈ db.notifications.rows, n.Fresh
  deliveries : ∀ d ∈ db.deliveries.rows, d.Fresh

theorem World.Initial.tending {w : World} (hw : w.Initial) (hintact : w.db.Intact)
    (hfresh : w.db.Fresh) : w.Tending where
  toSound := hw.sound
  intact := hintact
  regular := fun d hd => (hfresh.deliveries d hd).regular
  treated := by simp [hw.passes]
  ended := fun d hd hnot n hn hid => (hfresh.notifications n hn).isEnded
  recalled := by simp [hw.processes]

/-- The deliveries of the ended notifications are tended, and the retry sweep selects each one
that is not final as soon as its retry date has come and as long as it stays as it is. -/
structure World.AllTended (w : World) : Prop where
  tended : ∀ n ∈ w.db.notifications.rows, n.status.isEnded = true →
    ∀ d ∈ w.db.deliveries.rows, d.notificationId = n.id → d.Tended
  selected : ∀ n ∈ w.db.notifications.rows, n.status.isEnded = true →
    ∀ d ∈ w.db.deliveries.rows, d.notificationId = n.id → d.status ≠ .sent →
      d.status ≠ .failed → ∃ t, d.nextRetryAt = some t ∧ ∀ (w' : World),
        d ∈ w'.db.deliveries.rows → t ≤ w'.clock → n.id ∈ dueRetries w'.db w'.clock

/-- The sweep selects a delivery whose retry date has come. -/
theorem mem_dueRetries {db : Db} {now t : Instant} {d : NotificationDelivery}
    (hd : d ∈ db.deliveries.rows) (hstatus : d.status = .pending) (hdate : d.nextRetryAt = some t)
    (ht : t ≤ now) : d.notificationId ∈ dueRetries db now := by
  refine List.mem_dedup.mpr (List.mem_map_of_mem (Table.mem_select.mpr ⟨hd, ?_⟩))
  simp [retryDue, hstatus, hdate, ht]

theorem World.Tending.allTended {w : World} (hw : w.Tending) : w.AllTended := by
  have htended : ∀ n ∈ w.db.notifications.rows, n.status.isEnded = true →
      ∀ d ∈ w.db.deliveries.rows, d.notificationId = n.id → d.Tended := by
    intro n hn hended d hd hid
    by_contra hnot
    simp [hw.ended d hd hnot n hn hid.symm] at hended
  refine ⟨htended, fun n hn hended d hd hid hsent hfailed => ?_⟩
  rcases htended n hn hended d hd hid with h | ⟨h, -⟩ | ⟨hpending, hdate⟩
  · exact absurd h hsent
  · exact absurd h hfailed
  · obtain ⟨t, ht⟩ := Option.ne_none_iff_exists'.mp hdate
    exact ⟨t, ht, fun w' hd' hle => hid ▸ mem_dueRetries hd' hpending ht hle⟩

/-- In every run that starts with freshly created notifications, no delivery is stranded. -/
theorem no_stranded_delivery {cfg : Settings} {w₀ w : World} (h₀ : w₀.Initial)
    (hintact : w₀.db.Intact) (hfresh : w₀.db.Fresh)
    (h : (server cfg).Reach World.Delivers w₀ w) : w.AllTended := by
  have hpres : (server cfg).Preserves World.Delivers World.Tending :=
    fun _ _ _ hw hok hs => hw.step (World.step_cases hs) hok
  exact (System.Reach.invariant hpres h (h₀.tending hintact hfresh)).allTended

namespace Sample

/-- The sample server before its notification is sent. -/
def draftWorld : World :=
  { clock := 0, db := { db with notifications := single { notification with status := .draft } } }

end Sample

/-- The push of the only delivery is refused for now: the notification is FAILED, and the
delivery waits for its retry. -/
theorem sample_no_stranded_delivery : ∃ w,
    (server .default).Reach World.Delivers Sample.draftWorld w ∧
    (∃ n ∈ w.db.notifications.rows, n.status = .failed) ∧
    (∃ d ∈ w.db.deliveries.rows, d.status = .pending) ∧ w.AllTended := by
  obtain ⟨w, hreach, hrows⟩ := System.exists_reach_of_guardedRun (server .default)
    World.Delivers Sample.draftWorld
    ([.request 1 (.send (.user 1) [1]), .advance 1 {}, .advance 1 {}, .advance 1 {}] ++
      Sample.failingPass 1 ⟨1, .client⟩)
    (fun w => (w.db.notifications.rows.any fun n => decide (n.status = .failed)) &&
      w.db.deliveries.rows.any fun d => decide (d.status = .pending)) (by decide)
  obtain ⟨hfailed, hpending⟩ := Bool.and_eq_true_iff.mp hrows
  exact ⟨w, hreach, by simpa using hfailed, by simpa using hpending,
    no_stranded_delivery ⟨rfl, rfl, rfl⟩ ⟨by decide, by decide⟩
      ⟨fun n hn => Or.inl (by rw [List.mem_singleton.mp hn]),
        fun d hd => by rw [List.mem_singleton.mp hd]; exact ⟨rfl, rfl, rfl⟩⟩ hreach⟩

end PushIT
