import PushIT.Vanishing

/-!
# What one send pass does

A pass that no other process disturbs, on a clock that stands still: the owner has paid, no quiet
period of the application holds and the notification has deliveries, or devices to create some
for.  Whatever the provider answers, such a pass ends; it calls the provider once for each
delivery that may be pushed and for no other, and its last write sums up the rows it leaves.

The loop is followed with an invariant that splits the loaded deliveries into those it has done
and those it has still to do.  The counters count the deliveries done, by what their rows say now
and by what the loop decided about them.

## Main definitions

* `Eligible`, `ToPush`, `Postponed`: what the rows say about a delivery, apart from the loop.
* `Db.withTargets`: the rows a pass starts from.
* `Pass.Looped`: the invariant of the loop; `Pass.Stands`: where an undisturbed pass stands.
* `World.Specified`: what a pass leaves.

## Main results

* `Pass.verdict_eq_push_iff`, `Pass.postpones_verdict_iff`: the decisions of the loop.
* `Pass.Stands.moves`: one step of the pass.
* `send_pass_specified`: the whole pass.
-/

namespace PushIT

open Relational Transition

/-! ### What the rows say about a delivery -/

/-- The application is active, an active link joins it to the device, and the device is ACTIVE
and `is_active`. -/
structure Eligible (db : Db) (applicationId : ℕ) (d : NotificationDelivery) : Prop where
  application : ∃ a, db.applications.get? applicationId = some a ∧ a.isActive = true
  link : ∃ l ∈ db.links.rows, l.applicationId = applicationId ∧ l.deviceId = d.deviceId ∧
    l.isActive = true
  device : ∃ k, db.devices.get? d.deviceId = some k ∧ k.pushTokenStatus = .active ∧
    k.isActive = true

/-- The delivery waits for a retry date. -/
def NotificationDelivery.Waits (now : Instant) (d : NotificationDelivery) : Prop :=
  ∃ t, d.nextRetryAt = some t ∧ now < t

/-- The device is in one of its quiet periods. -/
def Db.DeviceQuiet (tz : TimeZone) (now : Instant) (db : Db) (deviceId : ℕ) : Prop :=
  ∃ q ∈ db.deviceQuietPeriods.rows, q.deviceId = deviceId ∧
    (getQuietPeriodEndForPeriod tz q.toAbstractQuietPeriod (.utc now)).isSome = true

/-- The delivery has to be pushed. -/
structure ToPush (tz : TimeZone) (now : Instant) (db : Db) (applicationId : ℕ)
    (d : NotificationDelivery) : Prop extends Eligible db applicationId d where
  unsent : d.status ≠ .sent
  due : ¬d.Waits now
  awake : ¬db.DeviceQuiet tz now d.deviceId
  attempts : d.attemptCount < maxDeliveryAttempts

/-- The delivery has to be put off: it waits for a retry date, or its device is in a quiet
period. -/
structure Postponed (tz : TimeZone) (now : Instant) (db : Db) (applicationId : ℕ)
    (d : NotificationDelivery) : Prop extends Eligible db applicationId d where
  unsent : d.status ≠ .sent
  later : d.Waits now ∨ db.DeviceQuiet tz now d.deviceId

/-- The rows a pass starts from: a notification without deliveries gets one for each target
device. -/
def Db.withTargets (db : Db) (n : Notification) : Db :=
  if (db.deliveriesOf n.id).isEmpty then
    db.createDeliveries n.id ((targetDevices db n.applicationId).map (·.id))
  else db

/-- The decision puts the delivery off. -/
def Decision.postpones : Decision → Bool
  | .wait | .defer _ => true
  | _ => false

namespace Pass

variable {tz : TimeZone} {now : Instant} {db : Db} {n : Notification} {f : LoopFrame}
  {l : LoadedDelivery}

/-! ### The decisions of the loop -/

theorem ineligibilityReason_eq_none_iff {active : Bool} {device : Device} {linked : List ℕ} :
    ineligibilityReason active device linked = none ↔
      active = true ∧ device.id ∈ linked ∧ device.pushTokenStatus = .active ∧
        device.isActive = true := by
  unfold ineligibilityReason
  cases active with
  | false => simp
  | true =>
    by_cases hlinked : device.id ∈ linked
    · by_cases hdevice : device.pushTokenStatus = .active <;> simp [hlinked, hdevice]
    · simp [hlinked]

theorem shouldWaitForRetry_iff {d : NotificationDelivery} :
    shouldWaitForRetry now d = true ↔ d.Waits now := by
  simp [shouldWaitForRetry, NotificationDelivery.Waits, Option.any_eq_true]

/-- The loop pushes a delivery when every test of the loop lets it through. -/
theorem deliveryDecision_eq_push_iff :
    deliveryDecision tz now f l = .push ↔
      l.delivery.status ≠ .sent ∧
      ineligibilityReason f.applicationIsActive l.device f.linkedDeviceIds = none ∧
      shouldWaitForRetry now l.delivery = false ∧
      getCurrentDeviceQuietPeriodEnd tz l.quietPeriods now = none ∧
      l.delivery.attemptCount < maxDeliveryAttempts := by
  unfold deliveryDecision
  by_cases hsent : l.delivery.status = .sent
  · simp [shouldSkipDelivery, hsent]
  · cases hreason : ineligibilityReason f.applicationIsActive l.device f.linkedDeviceIds with
    | some reason => simp [shouldSkipDelivery, hsent]
    | none =>
      cases hwait : shouldWaitForRetry now l.delivery with
      | true => simp [shouldSkipDelivery, hsent]
      | false =>
        cases hquiet : getCurrentDeviceQuietPeriodEnd tz l.quietPeriods now with
        | some quietPeriodEnd => simp [shouldSkipDelivery, hsent]
        | none => simp [shouldSkipDelivery, canRetryDelivery, hsent]

/-- The loop puts a delivery off when it may be sent but not now. -/
theorem postpones_deliveryDecision_iff :
    (deliveryDecision tz now f l).postpones = true ↔
      l.delivery.status ≠ .sent ∧
      ineligibilityReason f.applicationIsActive l.device f.linkedDeviceIds = none ∧
      (shouldWaitForRetry now l.delivery = true ∨
        getCurrentDeviceQuietPeriodEnd tz l.quietPeriods now ≠ none) := by
  unfold deliveryDecision
  by_cases hsent : l.delivery.status = .sent
  · simp [shouldSkipDelivery, hsent, Decision.postpones]
  · cases hreason : ineligibilityReason f.applicationIsActive l.device f.linkedDeviceIds with
    | some reason => simp [shouldSkipDelivery, hsent, Decision.postpones]
    | none =>
      cases hwait : shouldWaitForRetry now l.delivery with
      | true => simp [shouldSkipDelivery, hsent, Decision.postpones]
      | false =>
        cases hquiet : getCurrentDeviceQuietPeriodEnd tz l.quietPeriods now with
        | some quietPeriodEnd => simp [shouldSkipDelivery, hsent, Decision.postpones]
        | none =>
          by_cases hattempts : l.delivery.attemptCount < maxDeliveryAttempts <;>
            simp [shouldSkipDelivery, canRetryDelivery, hsent, hattempts, Decision.postpones]

/-- The loaded quiet periods are those of the device row. -/
theorem quietPeriods_of_mem (hl : l ∈ loadDeliveries db n.id) :
    l.quietPeriods = deviceQuietPeriodsOf db l.delivery.deviceId := by
  simp only [loadDeliveries, List.mem_filterMap, Option.map_eq_some_iff] at hl
  obtain ⟨d, -, device, hdevice, rfl⟩ := hl
  exact congrArg (deviceQuietPeriodsOf db) (Table.get?_eq_some.mp hdevice).2

theorem getCurrentDeviceQuietPeriodEnd_eq_none_iff {deviceId : ℕ} :
    getCurrentDeviceQuietPeriodEnd tz (deviceQuietPeriodsOf db deviceId) now = none ↔
      ¬db.DeviceQuiet tz now deviceId := by
  have hempty : ∀ ds : List Datetime, Datetime.max? ds = none ↔ ds = [] := by
    intro ds
    refine ⟨Datetime.max?_eq_none, ?_⟩
    rintro rfl
    rfl
  rw [getCurrentDeviceQuietPeriodEnd, Option.map_eq_none_iff, getQuietPeriodEndFromIterable,
    hempty, List.filterMap_eq_nil_iff]
  simp only [deviceQuietPeriodsOf, List.mem_map, Table.mem_select, beq_iff_eq, Db.DeviceQuiet]
  constructor
  · rintro h ⟨q, hq, hdevice, hsome⟩
    rw [h _ ⟨q, ⟨hq, hdevice⟩, rfl⟩] at hsome
    simp at hsome
  · rintro h _ ⟨q, ⟨hq, hdevice⟩, rfl⟩
    by_contra hne
    exact h ⟨q, hq, hdevice, Option.isSome_iff_ne_none.mpr hne⟩

theorem mem_linkedDeviceIdsOf {applicationId k : ℕ} {ls : List LoadedDelivery} :
    k ∈ linkedDeviceIdsOf db applicationId ls ↔
      (∃ x ∈ ls, x.delivery.deviceId = k) ∧
        ∃ r ∈ db.links.rows, r.applicationId = applicationId ∧ r.deviceId = k ∧
          r.isActive = true := by
  simp only [linkedDeviceIdsOf, List.mem_map, Table.mem_select, Bool.and_eq_true, beq_iff_eq,
    List.any_eq_true]
  constructor
  · rintro ⟨r, ⟨hr, ⟨happlication, hactive⟩, x, hx, hdevice⟩, rfl⟩
    exact ⟨⟨x, hx, hdevice⟩, r, hr, happlication, rfl, hactive⟩
  · rintro ⟨⟨x, hx, rfl⟩, r, hr, happlication, hdevice, hactive⟩
    exact ⟨r, ⟨hr, ⟨happlication, hactive⟩, x, hx, hdevice.symm⟩, hdevice⟩

/-- The application and the links as the loop finds them. -/
def loopFrame (db : Db) (n : Notification) : LoopFrame where
  applicationIsActive := (db.applications.get? n.applicationId).any (·.isActive)
  linkedDeviceIds := linkedDeviceIdsOf db n.applicationId (loadDeliveries db n.id)
  remaining := []

/-- What the loop decides about a loaded delivery. -/
def verdict (tz : TimeZone) (now : Instant) (db : Db) (n : Notification) (l : LoadedDelivery) :
    Decision :=
  deliveryDecision tz now (loopFrame db n) l

theorem eligible_iff (hl : l ∈ loadDeliveries db n.id) :
    ineligibilityReason (loopFrame db n).applicationIsActive l.device
      (loopFrame db n).linkedDeviceIds = none ↔ Eligible db n.applicationId l.delivery := by
  obtain ⟨-, -, hdevice⟩ := mem_loadDeliveries hl
  have hid : l.device.id = l.delivery.deviceId := (Table.get?_eq_some.mp hdevice).2
  rw [ineligibilityReason_eq_none_iff, hid]
  simp only [loopFrame, mem_linkedDeviceIdsOf, Option.any_eq_true]
  constructor
  · rintro ⟨happlication, ⟨-, hlink⟩, hstatus, hactive⟩
    exact ⟨happlication, hlink, l.device, hdevice, hstatus, hactive⟩
  · rintro ⟨happlication, hlink, k, hk, hstatus, hactive⟩
    obtain rfl := Option.some.inj (hdevice.symm.trans hk)
    exact ⟨happlication, ⟨⟨l, hl, rfl⟩, hlink⟩, hstatus, hactive⟩

/-- The loop pushes the deliveries that have to be pushed. -/
theorem verdict_eq_push_iff (hl : l ∈ loadDeliveries db n.id) :
    verdict tz now db n l = .push ↔ ToPush tz now db n.applicationId l.delivery := by
  rw [verdict, deliveryDecision_eq_push_iff, eligible_iff hl, quietPeriods_of_mem hl,
    getCurrentDeviceQuietPeriodEnd_eq_none_iff, ← Bool.not_eq_true, shouldWaitForRetry_iff]
  constructor
  · rintro ⟨hsent, heligible, hdue, hawake, hattempts⟩
    exact ⟨heligible, hsent, hdue, hawake, hattempts⟩
  · intro h
    exact ⟨h.unsent, h.toEligible, h.due, h.awake, h.attempts⟩

/-- The loop puts off the deliveries that have to be put off. -/
theorem postpones_verdict_iff (hl : l ∈ loadDeliveries db n.id) :
    (verdict tz now db n l).postpones = true ↔
      Postponed tz now db n.applicationId l.delivery := by
  have hquiet : getCurrentDeviceQuietPeriodEnd tz (deviceQuietPeriodsOf db l.delivery.deviceId) now
      ≠ none ↔ db.DeviceQuiet tz now l.delivery.deviceId := by
    rw [Ne, getCurrentDeviceQuietPeriodEnd_eq_none_iff, not_not]
  rw [verdict, postpones_deliveryDecision_iff, eligible_iff hl, quietPeriods_of_mem hl, hquiet,
    shouldWaitForRetry_iff]
  constructor
  · rintro ⟨hsent, heligible, hlater⟩
    exact ⟨heligible, hsent, hlater⟩
  · intro h
    exact ⟨h.unsent, h.toEligible, h.later⟩

end Pass

/-! ### The loop -/

/-- The deliveries the counters have counted. -/
def Counts.total (c : Counts) : ℕ := c.sent + c.failed + c.skipped + c.deferred + c.waiting

/-- One more delivery is counted: as a success or not, as put off or not. -/
structure Counts.Adds (c : Counts) (success postponed : Bool) (c' : Counts) : Prop where
  total : c'.total = c.total + 1
  successes : c'.sent + c'.skipped = c.sent + c.skipped + success.toNat
  postponed : c'.deferred + c'.waiting = c.deferred + c.waiting + postponed.toNat

namespace Counts

theorem adds_addSent (c : Counts) : c.Adds true false c.addSent := by
  constructor <;> simp only [Counts.total, addSent, Bool.toNat_true, Bool.toNat_false] <;> omega

theorem adds_addSkipped (c : Counts) : c.Adds true false c.addSkipped := by
  constructor <;> simp only [Counts.total, addSkipped, Bool.toNat_true, Bool.toNat_false] <;> omega

theorem adds_addFailed (c : Counts) : c.Adds false false c.addFailed := by
  constructor <;> simp only [Counts.total, addFailed, Bool.toNat_false] <;> omega

theorem adds_addDeferred (c : Counts) : c.Adds false true c.addDeferred := by
  constructor <;> simp only [Counts.total, addDeferred, Bool.toNat_true, Bool.toNat_false] <;> omega

theorem adds_addWaiting (c : Counts) : c.Adds false true c.addWaiting := by
  constructor <;> simp only [Counts.total, addWaiting, Bool.toNat_true, Bool.toNat_false] <;> omega

end Counts

/-- The number of calls of the provider for a delivery, however they ended. -/
def providerCalls (delivery : ℕ) (history : List Event) : ℕ :=
  calls true delivery history + calls false delivery history

theorem providerCalls_append (delivery : ℕ) (es history : List Event) :
    providerCalls delivery (es ++ history) =
      providerCalls delivery es + providerCalls delivery history := by
  simp only [providerCalls, calls_append]
  omega

theorem providerCalls_called (answer : Bool) (delivery n d k : ℕ) (token : String) :
    providerCalls delivery [.called n d k token answer] = (d == delivery).toNat := by
  rw [providerCalls, calls_called, calls_called]
  by_cases hd : d = delivery
  · cases answer <;> simp [hd]
  · simp [hd, beq_eq_false_iff_ne.mpr hd]

theorem providerCalls_of_no_call {es : List Event} (h : ∀ e ∈ es, e.isCall = false)
    (delivery : ℕ) : providerCalls delivery es = 0 := by
  rw [providerCalls, calls_of_no_call h, calls_of_no_call h]

namespace Pass

variable {cfg : Settings} {tz : TimeZone} {now : Instant} {base db : Db} {n : Notification}
  {done todo : List LoadedDelivery} {l : LoadedDelivery} {c c' : Counts}
  {before history : List Event}

/-- The row of a loaded delivery is SENT. -/
def isSent (db : Db) (l : LoadedDelivery) : Bool :=
  (db.deliveries.get? l.delivery.id).any (·.status == .sent)

/-- The loop has done the deliveries `done`, with the counters `c`, and has `todo` to do.  `base`
is the database it loaded them from. -/
structure Looped (tz : TimeZone) (now : Instant) (base : Db) (n : Notification)
    (done todo : List LoadedDelivery) (c : Counts) (db : Db) : Prop where
  split : loadDeliveries base n.id = done ++ todo
  notifications : db.notifications = base.notifications
  devices : ∀ k, (base.devices.get? k).isSome → (db.devices.get? k).isSome
  other : ∀ id, id ∉ done.map (·.delivery.id) →
    db.deliveries.get? id = base.deliveries.get? id
  own : ∀ l ∈ done, ∃ r, db.deliveries.get? l.delivery.id = some r ∧ r.notificationId = n.id
  total : c.total = done.length
  successes : c.sent + c.skipped = done.countP (isSent db)
  postponed : c.deferred + c.waiting =
    done.countP fun l => (verdict tz now base n l).postpones

namespace Looped

/-- The loop turns to no delivery twice. -/
theorem not_mem_done (h : Looped tz now base n done (l :: todo) c db) :
    l.delivery.id ∉ done.map (·.delivery.id) := by
  have hnodup := nodup_loadDeliveries base n.id
  rw [h.split, List.map_append, List.map_cons, List.nodup_append] at hnodup
  intro hmem
  exact hnodup.2.2 _ hmem _ List.mem_cons_self rfl

/-- The row of the delivery the loop turns to is the loaded one. -/
theorem row (h : Looped tz now base n done (l :: todo) c db) :
    db.deliveries.get? l.delivery.id = some l.delivery ∧ l.delivery.notificationId = n.id := by
  have hl : l ∈ loadDeliveries base n.id := by simp [h.split]
  obtain ⟨hmem, hid, -⟩ := mem_loadDeliveries hl
  exact ⟨(h.other _ h.not_mem_done).trans (Table.get?_pk hmem), hid⟩

/-- The device rows of the deliveries stay. -/
theorem device (h : Looped tz now base n done todo c db)
    (hl : l ∈ done ++ todo) : (db.devices.get? l.device.id).isSome := by
  obtain ⟨-, -, hdevice⟩ := mem_loadDeliveries (h.split ▸ hl : l ∈ loadDeliveries base n.id)
  have hid : l.device.id = l.delivery.deviceId := (Table.get?_eq_some.mp hdevice).2
  exact h.devices _ (by rw [hid, hdevice]; rfl)

/-- Writing a device row leaves the loop where it is. -/
theorem withDevice (h : Looped tz now base n done todo c db) (k : ℕ) (g : Device → Device)
    (hg : ∀ d, pk (g d) = pk d) : Looped tz now base n done todo c (withDevice db k g hg) where
  split := h.split
  notifications := h.notifications
  devices := by
    intro j hj
    change ((db.devices.modify k g hg).get? j).isSome
    rw [Table.get?_modify, Option.isSome_map]
    exact h.devices j hj
  other := h.other
  own := h.own
  total := h.total
  successes := h.successes
  postponed := h.postponed

/-- The loop is done with a delivery, whose row alone it may have written. -/
theorem next (h : Looped tz now base n done (l :: todo) c db) {T : Table NotificationDelivery}
    {r : NotificationDelivery} (hother : ∀ id, id ≠ l.delivery.id →
      T.get? id = db.deliveries.get? id)
    (hrow : T.get? l.delivery.id = some r) (hid : r.notificationId = n.id)
    (hadds : c.Adds (r.status == .sent) (verdict tz now base n l).postpones c') :
    Looped tz now base n (done ++ [l]) todo c' { db with deliveries := T } := by
  have hne : ∀ x ∈ done, x.delivery.id ≠ l.delivery.id := fun x hx heq =>
    h.not_mem_done (heq ▸ List.mem_map_of_mem hx)
  have hsent : done.countP (isSent { db with deliveries := T }) = done.countP (isSent db) :=
    List.countP_congr fun x hx => by simp only [isSent, hother _ (hne x hx)]
  refine ⟨by simp [h.split], h.notifications, h.devices, ?_, ?_, ?_, ?_, ?_⟩
  · intro id hnot
    simp only [List.map_append, List.mem_append, List.map_cons, List.map_nil,
      List.mem_singleton, not_or] at hnot
    exact (hother id hnot.2).trans (h.other id hnot.1)
  · intro x hx
    rcases List.mem_append.mp hx with hx | hx
    · obtain ⟨s, hs, hsid⟩ := h.own x hx
      exact ⟨s, (hother _ (hne x hx)).trans hs, hsid⟩
    · obtain rfl := List.mem_singleton.mp hx
      exact ⟨r, hrow, hid⟩
  · rw [hadds.total, h.total, List.length_append, List.length_singleton]
  · rw [hadds.successes, h.successes, List.countP_append, hsent, List.countP_singleton]
    simp [isSent, hrow, Bool.toNat, Bool.cond_eq_ite]
  · rw [hadds.postponed, h.postponed, List.countP_append, List.countP_singleton]
    simp [Bool.toNat, Bool.cond_eq_ite]

/-- The loop is done with a delivery without writing anything. -/
theorem pass (h : Looped tz now base n done (l :: todo) c db)
    (hadds : c.Adds (l.delivery.status == .sent) (verdict tz now base n l).postpones c') :
    Looped tz now base n (done ++ [l]) todo c' db :=
  h.next (fun _ _ => rfl) h.row.1 h.row.2 hadds

/-- The loop is done with a delivery once a marker has written its row. -/
theorem mark (h : Looped tz now base n done (l :: todo) c db)
    (g : NotificationDelivery → NotificationDelivery) (hg : ∀ d, pk (g d) = pk d)
    (hid : (g l.delivery).notificationId = l.delivery.notificationId)
    (hadds : c.Adds ((g l.delivery).status == .sent) (verdict tz now base n l).postpones c') :
    Looped tz now base n (done ++ [l]) todo c' (withDelivery db l.delivery.id g hg) := by
  refine h.next (fun id hne => Table.get?_modify_of_ne _ g hg hne) ?_ (hid.trans h.row.2) hadds
  rw [Table.get?_modify_self, h.row.1]
  rfl

end Looped

/-- The calls since `before` are those for the deliveries of `done` that had to be pushed. -/
def Called (tz : TimeZone) (now : Instant) (base : Db) (n : Notification) (before : List Event)
    (done : List LoadedDelivery) (history : List Event) : Prop :=
  ∀ δ, providerCalls δ history = providerCalls δ before +
    done.countP fun l => l.delivery.id == δ && verdict tz now base n l == .push

namespace Called

theorem start : Called tz now base n before [] before := fun _ => rfl

theorem append (h : Called tz now base n before done history) (es : List Event)
    (hes : ∀ e ∈ es, e.isCall = false) : Called tz now base n before done (es ++ history) := by
  intro δ
  rw [providerCalls_append, providerCalls_of_no_call hes, Nat.zero_add]
  exact h δ

/-- The loop turned to a delivery without a call. -/
theorem next (h : Called tz now base n before done history)
    (hl : verdict tz now base n l ≠ .push) :
    Called tz now base n before (done ++ [l]) history := by
  intro δ
  rw [h δ, List.countP_append, List.countP_singleton]
  simp [hl]

/-- The loop called the provider. -/
theorem push (h : Called tz now base n before done history)
    (hl : verdict tz now base n l = .push) (answer : Bool) (m k : ℕ) (token : String) :
    Called tz now base n before (done ++ [l])
      (.called m l.delivery.id k token answer :: history) := by
  intro δ
  have hcall := providerCalls_append δ [.called m l.delivery.id k token answer] history
  rw [List.singleton_append, providerCalls_called, h δ] at hcall
  rw [hcall, List.countP_append, List.countP_singleton]
  by_cases hδ : l.delivery.id = δ
  · simp only [hδ, hl, BEq.rfl, Bool.toNat_true, Bool.and_self, if_true]
    omega
  · simp [hδ]

end Called

/-! ### An undisturbed pass -/

/-- The frame of the loop holds what was read before the loop. -/
def Frames (base : Db) (n : Notification) (f : LoopFrame) : Prop :=
  f.applicationIsActive = (loopFrame base n).applicationIsActive ∧
    f.linkedDeviceIds = (loopFrame base n).linkedDeviceIds

/-- Where a pass that started on `start` stands when nothing disturbs it.  The owner has paid, the
application is not quiet and there are deliveries, so that it stands at no other stage before its
last statement. -/
def Stands (tz : TimeZone) (now : Instant) (start : Db) (n : Notification) (before : List Event)
    (stage : Stage) (db : Db) (history : List Event) : Prop :=
  let base := start.withTargets n
  match stage with
  | .entitlement | .applicationQuiet | .listing =>
    db = start ∧ Called tz now base n before [] history
  | .targeting =>
    db = start ∧ loadDeliveries start n.id = [] ∧ Called tz now base n before [] history
  | .materializing deviceIds =>
    db = start ∧ loadDeliveries start n.id = [] ∧
      deviceIds = (targetDevices start n.applicationId).map (·.id) ∧
      Called tz now base n before [] history
  | .relisting => db = base ∧ Called tz now base n before [] history
  | .refreshing ls =>
    db = base ∧ ls = loadDeliveries base n.id ∧ Called tz now base n before [] history
  | .linking active ls =>
    db = base ∧ ls = loadDeliveries base n.id ∧ active = (loopFrame base n).applicationIsActive ∧
      Called tz now base n before [] history
  | .looping f =>
    Frames base n f ∧ ∃ done, Looped tz now base n done f.remaining f.counts db ∧
      Called tz now base n before done history
  | .marking f l _ | .counting f l _ | .invalidating f l _ | .rereading f l _
  | .failing f l _ =>
    Frames base n f ∧ verdict tz now base n l = .push ∧
      ∃ done, Looped tz now base n done (l :: f.remaining) f.counts db ∧
        Called tz now base n before (done ++ [l]) history
  | .settling f l =>
    Frames base n f ∧ ∃ done, Looped tz now base n (done ++ [l]) f.remaining f.counts.addSent db ∧
      Called tz now base n before (done ++ [l]) history
  | .lapsed | .cancelling _ | .postponing _ | .closing _ => False

variable {start : Db}

theorem Frames.decision {f : LoopFrame} (h : Frames base n f) (ls : List LoadedDelivery) :
    deliveryDecision tz now (f.rest ls) l = verdict tz now base n l := by
  simp only [verdict, deliveryDecision, LoopFrame.rest, h.1, h.2]

/-- A delivery row without its device is not loaded, but there is none. -/
theorem loadDeliveries_eq_nil_iff (hintact : db.Intact) :
    loadDeliveries db n.id = [] ↔ db.deliveriesOf n.id = [] := by
  have hperm := perm_loadDeliveries hintact n.id
  constructor
  · intro h
    rw [h] at hperm
    exact hperm.nil_eq.symm
  · intro h
    rw [h] at hperm
    exact List.map_eq_nil_iff.mp hperm.eq_nil

theorem withTargets_of_loaded (hintact : start.Intact) (h : loadDeliveries start n.id ≠ []) :
    start.withTargets n = start := by
  rw [Ne, loadDeliveries_eq_nil_iff hintact] at h
  simp [Db.withTargets, h]

theorem withTargets_of_not_loaded (hintact : start.Intact)
    (h : loadDeliveries start n.id = []) : start.withTargets n =
      start.createDeliveries n.id ((targetDevices start n.applicationId).map (·.id)) := by
  rw [loadDeliveries_eq_nil_iff hintact] at h
  simp [Db.withTargets, h]

/-- The tables but that of the deliveries are as the pass found them. -/
theorem withTargets_tables (start : Db) (n : Notification) :
    (start.withTargets n).notifications = start.notifications ∧
      (start.withTargets n).applications = start.applications ∧
      (start.withTargets n).devices = start.devices ∧
      (start.withTargets n).links = start.links := by
  unfold Db.withTargets
  split <;> exact ⟨rfl, rfl, rfl, rfl⟩

/-- What a pass starts on: valid foreign keys, its own row, no quiet period of the application,
and deliveries. -/
structure Sendable (tz : TimeZone) (now : Instant) (start : Db) (n : Notification) : Prop where
  intact : start.Intact
  row : start.notifications.get? n.id = some n
  awake : getCurrentQuietPeriodEnd tz start n.applicationId now = none
  targets : (start.withTargets n).deliveriesOf n.id ≠ []

/-- Target devices exist. -/
theorem isSome_of_targetDevices (start : Db) (n : Notification) :
    ∀ k ∈ (targetDevices start n.applicationId).map (·.id), (start.devices.get? k).isSome := by
  intro k hk
  obtain ⟨d, hd, rfl⟩ := List.mem_map.mp hk
  rw [show start.devices.get? d.id = some d from Table.get?_pk (Table.mem_select.mp hd).1]
  rfl

namespace Sendable

theorem base_intact (h : Sendable tz now start n) : (start.withTargets n).Intact := by
  by_cases hload : loadDeliveries start n.id = []
  · rw [withTargets_of_not_loaded h.intact hload]
    have hrow : (start.notifications.get? n.id).isSome := by
      rw [h.row]
      rfl
    have hmoves : Moves { timeZone := tz } now start n _ _ :=
      .materialized _ hrow (isSome_of_targetDevices start n)
    exact hmoves.intact h.intact
  · rw [withTargets_of_loaded h.intact hload]
    exact h.intact

theorem loaded (h : Sendable tz now start n) :
    loadDeliveries (start.withTargets n) n.id ≠ [] := by
  rw [Ne, loadDeliveries_eq_nil_iff h.base_intact]
  exact h.targets

end Sendable

/-- The loop turns to the next delivery. -/
theorem Stands.turns {f : LoopFrame} {ls : List LoadedDelivery} {decision : Decision}
    (hI : Stands tz now start n before (.looping f) db history) (hrest : f.remaining = l :: ls)
    (hdecision : deliveryDecision tz now (f.rest ls) l = decision) :
    Frames (start.withTargets n) n f ∧ verdict tz now (start.withTargets n) n l = decision ∧
      ∃ done, Looped tz now (start.withTargets n) n done (l :: ls) f.counts db ∧
        Called tz now (start.withTargets n) n before done history := by
  obtain ⟨hframe, done, hlooped, hcalled⟩ := hI
  rw [hrest] at hlooped
  rw [hframe.decision] at hdecision
  exact ⟨hframe, hdecision, done, hlooped, hcalled⟩

/-- One step of an undisturbed pass. -/
theorem Stands.moves (hstart : Sendable cfg.timeZone now start n) {stage : Stage} {s : PassStep}
    (h : Moves cfg now db n stage s)
    (hI : Stands cfg.timeZone now start n before stage db history)
    (hpaid : ∀ p, s.next = some p → p.stage ≠ .lapsed)
    (hmore : ∀ f, stage = .looping f → f.remaining ≠ []) :
    ∃ stage', s.next = some ⟨n, stage'⟩ ∧
      Stands cfg.timeZone now start n before stage' s.db (s.events.reverse ++ history) := by
  cases h with
  | paid =>
    obtain ⟨rfl, hcalled⟩ := hI
    exact ⟨_, rfl, rfl, hcalled⟩
  | unpaid => exact absurd rfl (hpaid _ rfl)
  | lapsed | lapsedClosed | lapsedCancelled | lapsedGone | postponed | closed => exact hI.elim
  | quiet quietPeriodEnd hquiet =>
    obtain ⟨rfl, -⟩ := hI
    rw [hstart.awake] at hquiet
    simp at hquiet
  | notQuiet hquiet =>
    obtain ⟨rfl, hcalled⟩ := hI
    exact ⟨_, rfl, rfl, hcalled⟩
  | listedNone hload =>
    obtain ⟨rfl, hcalled⟩ := hI
    exact ⟨_, rfl, rfl, hload, hcalled⟩
  | listed l ls hload =>
    obtain ⟨rfl, hcalled⟩ := hI
    have hbase := withTargets_of_loaded (n := n) hstart.intact (by simp [hload])
    exact ⟨_, rfl, hbase.symm, by rw [hbase, hload], hcalled⟩
  | untargeted htargets =>
    obtain ⟨rfl, hload, -⟩ := hI
    have hbase := withTargets_of_not_loaded hstart.intact hload
    rw [htargets] at hbase
    have hloaded := hstart.loaded
    rw [hbase] at hloaded
    exact absurd hload hloaded
  | targeted d ds htargets =>
    obtain ⟨rfl, hload, hcalled⟩ := hI
    exact ⟨_, rfl, rfl, hload, by rw [htargets], hcalled⟩
  | materialized ids hn hdevices =>
    obtain ⟨rfl, hload, rfl, hcalled⟩ := hI
    refine ⟨_, rfl, (withTargets_of_not_loaded hstart.intact hload).symm, hcalled.append _ ?_⟩
    intro e he
    simp only [on, deliveriesAttached, List.mem_reverse, List.mem_map] at he
    obtain ⟨d, -, rfl⟩ := he
    rfl
  | notMaterialized ids hnot =>
    obtain ⟨rfl, -, rfl, -⟩ := hI
    refine absurd ⟨?_, isSome_of_targetDevices db n⟩ hnot
    rw [hstart.row]
    rfl
  | relistedNone hload =>
    obtain ⟨rfl, -⟩ := hI
    exact absurd hload hstart.loaded
  | relisted l ls hload =>
    obtain ⟨rfl, hcalled⟩ := hI
    exact ⟨_, rfl, rfl, hload.symm, hcalled⟩
  | refreshed ls a ha =>
    obtain ⟨rfl, rfl, hcalled⟩ := hI
    refine ⟨_, rfl, rfl, rfl, ?_, hcalled⟩
    simp [loopFrame, ha]
  | applicationGone ls hgone =>
    obtain ⟨rfl, -, -⟩ := hI
    have hsome := hstart.intact.application n (Table.get?_eq_some.mp hstart.row).1
    rw [(withTargets_tables start n).2.1] at hgone
    rw [hgone] at hsome
    simp at hsome
  | linked active ls =>
    obtain ⟨rfl, rfl, rfl, hcalled⟩ := hI
    refine ⟨_, rfl, ⟨rfl, rfl⟩, [], ?_, hcalled⟩
    exact ⟨rfl, rfl, fun _ h => h, fun _ _ => rfl, by simp, rfl, rfl, rfl⟩
  | finished f hnil => exact absurd hnil (hmore f rfl)
  | skipped f l ls hrest hdecision =>
    obtain ⟨hframe, hdecision, done, hlooped, hcalled⟩ := hI.turns hrest hdecision
    obtain ⟨hsent⟩ := decides_of_eq hdecision
    refine ⟨_, rfl, hframe, done ++ [l], hlooped.pass ?_, hcalled.next (by simp [hdecision])⟩
    rw [hdecision, hsent]
    exact f.counts.adds_addSkipped
  | cancelled f l ls reason row hrest hdecision hrow =>
    obtain ⟨hframe, hdecision, done, hlooped, hcalled⟩ := hI.turns hrest hdecision
    refine ⟨_, rfl, hframe, done ++ [l], hlooped.mark _ (pk_cancelDelivery now reason) rfl ?_,
      hcalled.next (by simp [hdecision])⟩
    rw [hdecision]
    exact f.counts.adds_addFailed
  | waited f l ls hrest hdecision =>
    obtain ⟨hframe, hdecision, done, hlooped, hcalled⟩ := hI.turns hrest hdecision
    have hsent := not_sent_of_decision (by rw [← verdict, hdecision]; simp)
    refine ⟨_, rfl, hframe, done ++ [l], hlooped.pass ?_, hcalled.next (by simp [hdecision])⟩
    rw [hdecision, beq_eq_false_iff_ne.mpr hsent]
    exact f.counts.adds_addWaiting
  | deferred f l ls quietPeriodEnd row hrest hdecision hrow =>
    obtain ⟨hframe, hdecision, done, hlooped, hcalled⟩ := hI.turns hrest hdecision
    refine ⟨_, rfl, hframe, done ++ [l],
      hlooped.mark _ (pk_markDeliveryAsDeferred now quietPeriodEnd) rfl ?_,
      (hcalled.next (by simp [hdecision])).append [_] (by simp [Event.isCall])⟩
    rw [hdecision]
    exact f.counts.adds_addDeferred
  | exhausted f l ls hrest hdecision =>
    obtain ⟨hframe, hdecision, done, hlooped, hcalled⟩ := hI.turns hrest hdecision
    have hsent := not_sent_of_decision (by rw [← verdict, hdecision]; simp)
    refine ⟨_, rfl, hframe, done ++ [l], hlooped.pass ?_, hcalled.next (by simp [hdecision])⟩
    rw [hdecision, beq_eq_false_iff_ne.mpr hsent]
    exact f.counts.adds_addFailed
  | deliveryGone f l ls hrest hgone =>
    obtain ⟨-, done, hlooped, -⟩ := hI
    rw [hrest] at hlooped
    rw [hlooped.row.1] at hgone
    simp at hgone
  | accepted f l ls providerMessageId hrest hdecision
  | refused f l ls error hrest hdecision =>
    obtain ⟨hframe, hdecision, done, hlooped, hcalled⟩ := hI.turns hrest hdecision
    exact ⟨_, rfl, hframe, hdecision, done, hlooped, hcalled.push hdecision _ _ _ _⟩
  | sentToSettle f l m row hcount hrow =>
    obtain ⟨hframe, hdecision, done, hlooped, hcalled⟩ := hI
    refine ⟨_, rfl, hframe, done, hlooped.mark _ (pk_markDeliveryAsSent now m) rfl ?_, hcalled⟩
    rw [hdecision]
    exact f.counts.adds_addSent
  | sent f l m row hcount hrow =>
    obtain ⟨hframe, hdecision, done, hlooped, hcalled⟩ := hI
    refine ⟨_, rfl, hframe, done ++ [l], hlooped.mark _ (pk_markDeliveryAsSent now m) rfl ?_,
      hcalled⟩
    rw [hdecision]
    exact f.counts.adds_addSent
  | settled f l row hrow =>
    obtain ⟨hframe, done, hlooped, hcalled⟩ := hI
    exact ⟨_, rfl, hframe, done ++ [l], hlooped.withDevice _ _ pk_resetFailures, hcalled⟩
  | notSettled f l hgone =>
    obtain ⟨-, done, hlooped, -⟩ := hI
    have hsome := hlooped.device (l := l) (by simp)
    simp [hgone] at hsome
  | countedInvalid f l error herror | counted f l error herror =>
    obtain ⟨hframe, hdecision, done, hlooped, hcalled⟩ := hI
    exact ⟨_, rfl, hframe, hdecision, done, hlooped.withDevice _ _ pk_countFailure, hcalled⟩
  | invalidated f l error row hrow =>
    obtain ⟨hframe, hdecision, done, hlooped, hcalled⟩ := hI
    exact ⟨_, rfl, hframe, hdecision, done, hlooped.withDevice _ _ (pk_invalidate now),
      hcalled.append [_] (by simp [Event.isCall])⟩
  | reread f l error row hrow =>
    obtain ⟨hframe, hdecision, done, hlooped, hcalled⟩ := hI
    exact ⟨_, rfl, hframe, hdecision, done, hlooped, hcalled⟩
  | notInvalidated f l error hgone | notReread f l error hgone =>
    obtain ⟨-, -, done, hlooped, -⟩ := hI
    have hsome := hlooped.device (l := l) (by simp)
    simp [hgone] at hsome
  | failed f l error row hrow =>
    obtain ⟨hframe, hdecision, done, hlooped, hcalled⟩ := hI
    have hunsent : (markDeliveryAsFailed now error.text l.delivery).status ≠ .sent := by
      simp only [markDeliveryAsFailed]
      split <;> simp
    refine ⟨_, rfl, hframe, done ++ [l],
      hlooped.mark _ (pk_markDeliveryAsFailed now error.text) rfl ?_, hcalled⟩
    rw [hdecision, beq_eq_false_iff_ne.mpr hunsent]
    exact f.counts.adds_addFailed
  | notSent f l m hgone | notFailed f l error hgone =>
    obtain ⟨-, -, done, hlooped, -⟩ := hI
    rw [hlooped.row.1] at hgone
    simp at hgone

/-! ### The end of the loop -/

/-- After a loop over some delivery the status is SENT when every delivery counts as a success. -/
theorem finalStatus_eq_sent_iff (h : 0 < c.total) :
    (finalStatus c).val = .sent ↔ c.sent + c.skipped = c.total := by
  unfold finalStatus
  split_ifs <;> simp only [false_iff, true_iff, Counts.total] at * <;> omega

/-- It is FAILED when none does and none is put off. -/
theorem finalStatus_eq_failed_iff (h : 0 < c.total) :
    (finalStatus c).val = .failed ↔ c.sent + c.skipped = 0 ∧ c.deferred + c.waiting = 0 := by
  unfold finalStatus
  split_ifs <;> simp only [false_iff, true_iff, Counts.total] at * <;> omega

theorem finalStatus_cases (c : Counts) :
    (finalStatus c).val = .sent ∨ (finalStatus c).val = .failed ∨
      (finalStatus c).val = .partially := by
  unfold finalStatus
  split_ifs <;> simp

namespace Looped

/-- The rows of the notification are those of the deliveries done. -/
theorem mem_deliveriesOf (h : Looped tz now base n done [] c db) (hintact : base.Intact)
    {d : NotificationDelivery} :
    d ∈ db.deliveriesOf n.id ↔ ∃ l ∈ done, db.deliveries.get? l.delivery.id = some d := by
  rw [Db.deliveriesOf, Table.mem_select, beq_iff_eq]
  constructor
  · rintro ⟨hd, hid⟩
    have hrow : db.deliveries.get? d.id = some d := Table.get?_pk hd
    by_cases hmem : d.id ∈ done.map (·.delivery.id)
    · obtain ⟨l, hl, hlid⟩ := List.mem_map.mp hmem
      exact ⟨l, hl, hlid ▸ hrow⟩
    · -- an untouched row was there when the deliveries were loaded
      rw [h.other _ hmem] at hrow
      have hbase := (Table.get?_eq_some.mp hrow).1
      obtain ⟨device, hdevice⟩ := Option.isSome_iff_exists.mp (hintact.device d hbase)
      obtain ⟨l, hl, rfl⟩ := exists_mem_loadDeliveries hbase hid hdevice
      rw [h.split, List.append_nil] at hl
      exact absurd (List.mem_map_of_mem hl) hmem
  · rintro ⟨l, hl, hrow⟩
    obtain ⟨r, hr, hid⟩ := h.own l hl
    obtain rfl := Option.some.inj (hr.symm.trans hrow)
    exact ⟨(Table.get?_eq_some.mp hr).1, hid⟩

theorem mem_base (h : Looped tz now base n done [] c db) (hintact : base.Intact)
    {d : NotificationDelivery} :
    d ∈ base.deliveriesOf n.id ↔ ∃ l ∈ done, l.delivery = d := by
  rw [← (perm_loadDeliveries hintact n.id).mem_iff, h.split, List.append_nil, List.mem_map]

/-- What holds of the rows of the deliveries done holds of those of the notification. -/
theorem forall_isSent_iff (h : Looped tz now base n done [] c db) (hintact : base.Intact)
    (P : Bool → Prop) :
    (∀ l ∈ done, P (isSent db l)) ↔ ∀ d ∈ db.deliveriesOf n.id, P (d.status == .sent) := by
  constructor
  · intro hall d hd
    obtain ⟨l, hl, hrow⟩ := (h.mem_deliveriesOf hintact).mp hd
    simpa [isSent, hrow] using hall l hl
  · intro hall l hl
    obtain ⟨r, hr, -⟩ := h.own l hl
    simpa [isSent, hr] using hall r ((h.mem_deliveriesOf hintact).mpr ⟨l, hl, hr⟩)

theorem all_sent_iff (h : Looped tz now base n done [] c db) (hintact : base.Intact) :
    c.sent + c.skipped = c.total ↔ ∀ d ∈ db.deliveriesOf n.id, d.status = .sent := by
  rw [h.successes, h.total, List.countP_eq_length, h.forall_isSent_iff hintact (· = true)]
  simp only [beq_iff_eq]

theorem none_sent_iff (h : Looped tz now base n done [] c db) (hintact : base.Intact) :
    c.sent + c.skipped = 0 ↔ ∀ d ∈ db.deliveriesOf n.id, d.status ≠ .sent := by
  rw [h.successes, List.countP_eq_zero, h.forall_isSent_iff hintact (¬ · = true)]
  simp only [beq_iff_eq, ne_eq]

theorem none_postponed_iff (h : Looped tz now base n done [] c db) (hintact : base.Intact) :
    c.deferred + c.waiting = 0 ↔
      ∀ d ∈ base.deliveriesOf n.id, ¬Postponed tz now base n.applicationId d := by
  have hload : ∀ l ∈ done, l ∈ loadDeliveries base n.id := by simp [h.split]
  rw [h.postponed, List.countP_eq_zero]
  constructor
  · intro hall d hd
    obtain ⟨l, hl, rfl⟩ := (h.mem_base hintact).mp hd
    rw [← postpones_verdict_iff (hload l hl)]
    exact hall l hl
  · intro hall l hl
    rw [postpones_verdict_iff (hload l hl)]
    exact hall _ ((h.mem_base hintact).mpr ⟨l, hl, rfl⟩)

/-- Each delivery that had to be pushed was, once. -/
theorem called (h : Looped tz now base n done [] c db) (hintact : base.Intact)
    (hcalled : Called tz now base n before done history) {d : NotificationDelivery}
    (hd : d ∈ base.deliveriesOf n.id) (hpush : ToPush tz now base n.applicationId d) :
    providerCalls d.id history = providerCalls d.id before + 1 := by
  obtain ⟨l, hl, rfl⟩ := (h.mem_base hintact).mp hd
  obtain ⟨as, bs, hsplit⟩ := List.append_of_mem hl
  have hload : l ∈ loadDeliveries base n.id := by simp [h.split, hl]
  have hnodup := nodup_loadDeliveries base n.id
  rw [h.split, List.append_nil, hsplit, List.map_append, List.map_cons,
    List.nodup_middle, List.nodup_cons, ← List.map_append] at hnodup
  have hrest : ∀ x ∈ as ++ bs, x.delivery.id ≠ l.delivery.id := fun x hx heq =>
    hnodup.1 (heq ▸ List.mem_map_of_mem hx)
  have hothers : (as ++ bs).countP (fun x => x.delivery.id == l.delivery.id &&
      verdict tz now base n x == .push) = 0 :=
    List.countP_eq_zero.mpr fun x hx => by simp [hrest x hx]
  rw [hcalled, hsplit, List.countP_append, List.countP_cons, (verdict_eq_push_iff hload).mpr hpush]
  rw [List.countP_append] at hothers
  simp only [BEq.rfl, Bool.and_self, if_true]
  omega

/-- And no other. -/
theorem not_called (h : Looped tz now base n done [] c db) (hintact : base.Intact)
    (hcalled : Called tz now base n before done history) {δ : ℕ}
    (hnot : ∀ d ∈ base.deliveriesOf n.id, d.id = δ → ¬ToPush tz now base n.applicationId d) :
    providerCalls δ history = providerCalls δ before := by
  have hnone : done.countP (fun l => l.delivery.id == δ && verdict tz now base n l == .push) = 0 := by
    refine List.countP_eq_zero.mpr fun l hl hcount => ?_
    simp only [Bool.and_eq_true, beq_iff_eq] at hcount
    have hload : l ∈ loadDeliveries base n.id := by simp [h.split, hl]
    exact hnot _ ((h.mem_base hintact).mpr ⟨l, hl, rfl⟩) hcount.1
      ((verdict_eq_push_iff hload).mp hcount.2)
  rw [hcalled, hnone, Nat.add_zero]

end Looped

/-- A pass whose owner has paid cancels nothing for a lapsed subscription. -/
theorem stage_ne_lapsed {input : PassInput} (hpaid : input.ownerPaid = true) (p : Pass) :
    ∀ p', (p.advance cfg now db input).next = some p' → p'.stage ≠ .lapsed := by
  intro p' hp'
  by_cases hstage : p.stage = .entitlement
  · rw [advance, hstage, hpaid] at hp'
    obtain rfl := Option.some.inj hp'
    simp
  · have hmoves : Moves cfg now db p.notification p.stage (p.advance cfg now db input) :=
      advance_moves p
    generalize p.advance cfg now db input = s at hmoves hp'
    generalize p.stage = stage at hmoves hstage
    cases hmoves with
    | unpaid => exact absurd rfl hstage
    | _ =>
      simp only [on, ended, reduceCtorEq, Option.some.injEq] at hp'
      try (rw [← hp']; simp)

end Pass

/-! ### The whole pass -/

/-- What a pass for `n` that starts in the world `w` leaves. -/
structure World.Specified (tz : TimeZone) (w : World) (n : Notification) (w' : World) : Prop where
  called : ∀ d ∈ (w.db.withTargets n).deliveriesOf n.id,
    ToPush tz w.clock (w.db.withTargets n) n.applicationId d →
      providerCalls d.id w'.history = providerCalls d.id w.history + 1
  notCalled : ∀ δ, (∀ d ∈ (w.db.withTargets n).deliveriesOf n.id, d.id = δ →
      ¬ToPush tz w.clock (w.db.withTargets n) n.applicationId d) →
    providerCalls δ w'.history = providerCalls δ w.history
  status : ∃ r, w'.db.notifications.get? n.id = some r ∧ r.processingStartedAt = none ∧
    (r.status = .sent ↔ ∀ d ∈ w'.db.deliveriesOf n.id, d.status = .sent) ∧
    (r.status = .failed ↔ (∀ d ∈ w'.db.deliveriesOf n.id, d.status ≠ .sent) ∧
      ∀ d ∈ (w.db.withTargets n).deliveriesOf n.id,
        ¬Postponed tz w.clock (w.db.withTargets n) n.applicationId d) ∧
    (r.status = .sent ∨ r.status = .failed ∨ r.status = .partially) ∧
    r.sentAt = if r.status = .sent then some w.clock else none
  notifications : ∀ m, m ≠ n.id → w'.db.notifications.get? m = w.db.notifications.get? m
  deliveries : ∀ d, d.notificationId ≠ n.id →
    (d ∈ w'.db.deliveries.rows ↔ d ∈ w.db.deliveries.rows)

namespace Pass

variable {cfg : Settings} {tz : TimeZone} {now : Instant} {start db : Db} {n : Notification}
  {done : List LoadedDelivery} {c : Counts} {w w' : World} {pid : ℕ}

/-- Only deliveries of the notification are created for it. -/
theorem mem_withTargets_of_ne {d : NotificationDelivery} (hd : d.notificationId ≠ n.id) :
    d ∈ (start.withTargets n).deliveries.rows ↔ d ∈ start.deliveries.rows := by
  unfold Db.withTargets
  split
  · constructor
    · intro hmem
      rcases Table.mem_insertAll hmem with hold | ⟨k, -, -, hnew⟩
      · exact hold
      · exact absurd (congrArg NotificationDelivery.notificationId hnew) hd
    · exact fun hmem => Table.mem_insertAll_of_mem hmem
  · exact Iff.rfl

/-- The loop writes no delivery of another notification. -/
theorem Looped.mem_of_ne {base : Db} {todo : List LoadedDelivery}
    (h : Looped tz now base n done todo c db) {d : NotificationDelivery}
    (hd : d.notificationId ≠ n.id) :
    d ∈ db.deliveries.rows ↔ d ∈ base.deliveries.rows := by
  have hrow : ∀ T : Table NotificationDelivery, d ∈ T.rows ↔ T.get? d.id = some d := fun T =>
    ⟨fun hmem => Table.get?_pk hmem, fun hget => (Table.get?_eq_some.mp hget).1⟩
  rw [hrow, hrow]
  by_cases hmem : d.id ∈ done.map (·.delivery.id)
  · -- the row with this key is one of the notification, in both tables
    obtain ⟨l, hl, hid⟩ := List.mem_map.mp hmem
    obtain ⟨r, hr, hrid⟩ := h.own l hl
    have hload : l ∈ loadDeliveries base n.id := by simp [h.split, hl]
    obtain ⟨hbase, hlid, -⟩ := mem_loadDeliveries hload
    have hget : base.deliveries.get? l.delivery.id = some l.delivery := Table.get?_pk hbase
    rw [← hid, hr, hget]
    constructor
    · rintro ⟨⟩
      exact absurd hrid hd
    · rintro ⟨⟩
      exact absurd hlid hd
  · rw [h.other _ hmem]

/-- The last statement of the pass leaves what the specification says. -/
theorem Looped.specified (hstart : Sendable tz w.clock w.db n)
    (h : Looped tz w.clock (w.db.withTargets n) n done [] c db)
    (hcalled : Called tz w.clock (w.db.withTargets n) n w.history done w'.history)
    (hdb : w'.db = db.updateNotification n.id
      (closeNotification w.clock (finalStatus c).val)
      (pk_closeNotification w.clock (finalStatus c).val)) : w.Specified tz n w' := by
  have hintact := hstart.base_intact
  have htotal : 0 < c.total := by
    rw [h.total, List.length_pos_iff_ne_nil]
    have hloaded := hstart.loaded
    rwa [h.split, List.append_nil] at hloaded
  have hnotifications : db.notifications = w.db.notifications :=
    h.notifications.trans (withTargets_tables w.db n).1
  have hdeliveries : w'.db.deliveries = db.deliveries := by rw [hdb]; rfl
  have hown : w'.db.deliveriesOf n.id = db.deliveriesOf n.id := by
    rw [Db.deliveriesOf, hdeliveries]
    rfl
  have hrow : w'.db.notifications.get? n.id =
      some (closeNotification w.clock (finalStatus c).val n) := by
    rw [hdb, Db.updateNotification, Table.get?_modify_self, hnotifications, hstart.row]
    rfl
  refine ⟨fun d hd hpush => h.called hintact hcalled hd hpush,
    fun δ hnot => h.not_called hintact hcalled hnot,
    ⟨_, hrow, rfl, ?_, ?_, finalStatus_cases c, rfl⟩, ?_, ?_⟩
  · rw [hown, ← h.all_sent_iff hintact]
    exact finalStatus_eq_sent_iff htotal
  · rw [hown, ← h.none_sent_iff hintact, ← h.none_postponed_iff hintact]
    exact finalStatus_eq_failed_iff htotal
  · intro m hm
    rw [hdb, Db.updateNotification, Table.get?_modify_of_ne _ _ _ hm, hnotifications]
  · intro d hd
    rw [hdeliveries, h.mem_of_ne hd, mem_withTargets_of_ne hd]

end Pass

/-- The pass `pid` is under way since `w` and nothing else has happened. -/
def World.Alone (cfg : Settings) (pid : ℕ) (n : Notification) (w w' : World) : Prop :=
  w'.clock = w.clock ∧ ∃ stage, w'.passes pid = some ⟨n, stage⟩ ∧
    Pass.Stands cfg.timeZone w.clock w.db n w.history stage w'.db w'.history

/-- The loop of the pass `pid` has nothing more to do. -/
def World.LoopDone (pid : ℕ) (n : Notification) (w : World) : Prop :=
  ∃ f, w.passes pid = some ⟨n, .looping f⟩ ∧ f.remaining = []

/-- How far the pass `pid` is from its end. -/
def World.passRank (pid : ℕ) (w : World) : ℕ ×ₗ ℕ :=
  ((w.passes pid).map fun p => Pass.rank p.stage).getD (toLex (0, 0))

/-- A statement of an undisturbed pass whose loop is not done. -/
theorem World.Alone.step {cfg : Settings} {pid : ℕ} {n : Notification} {w w' : World}
    (hstart : Pass.Sendable cfg.timeZone w.clock w.db n) (h : w.Alone cfg pid n w')
    (hmore : ¬w'.LoopDone pid n) {input : PassInput} (hpaid : input.ownerPaid = true) :
    ∃ w'', w'.step cfg (.pass pid input) = some w'' ∧ w.Alone cfg pid n w'' ∧
      w''.passRank pid < w'.passRank pid := by
  obtain ⟨hclock, stage, hpass, hstands⟩ := h
  have hmoves : Pass.Moves cfg w'.clock w'.db n stage
      (Pass.advance cfg w'.clock w'.db input ⟨n, stage⟩) := Pass.advance_moves ⟨n, stage⟩
  rw [hclock] at hmoves
  obtain ⟨stage', hnext, hstands'⟩ := hstands.moves hstart hmoves
    (Pass.stage_ne_lapsed hpaid ⟨n, stage⟩)
    (by rintro f rfl hnil; exact hmore ⟨f, hpass, hnil⟩)
  refine ⟨w'.afterPass pid (Pass.advance cfg w.clock w'.db input ⟨n, stage⟩), ?_,
    ⟨hclock, stage', ?_, hstands'⟩, ?_⟩
  · rw [World.step, hpass, hclock]
    rfl
  · simp [World.afterPass, hnext]
  · have hlt := hmoves.rank_lt hnext
    simpa [World.passRank, World.afterPass, hpass, hnext] using hlt

/-- The last two statements of an undisturbed pass. -/
theorem World.Alone.close {cfg : Settings} {pid : ℕ} {n : Notification} {w loop : World}
    (hstart : Pass.Sendable cfg.timeZone w.clock w.db n) (h : w.Alone cfg pid n loop)
    {f : LoopFrame} (hpass : loop.passes pid = some ⟨n, .looping f⟩) (hnil : f.remaining = [])
    (inputs : ℕ → PassInput) :
    f.counts.total = ((w.db.withTargets n).deliveriesOf n.id).length ∧
      ∃ final, (server cfg).runFor (fun i => .pass pid (inputs i)) 2 loop = some final ∧
        final.passes pid = none ∧ w.Specified cfg.timeZone n final := by
  obtain ⟨hclock, stage, hstage, hstands⟩ := h
  obtain rfl : stage = .looping f := by
    rw [hpass] at hstage
    exact (congrArg Pass.stage (Option.some.inj hstage)).symm
  obtain ⟨-, done, hlooped, hcalled⟩ := hstands
  rw [hnil] at hlooped
  have hlength : f.counts.total = ((w.db.withTargets n).deliveriesOf n.id).length := by
    rw [hlooped.total, ← (Pass.perm_loadDeliveries hstart.base_intact n.id).length_eq,
      hlooped.split, List.append_nil, List.length_map]
  -- the loop sums up, then the status is written
  have hsum : (server cfg).step loop (.pass pid (inputs 0)) =
      some (loop.afterPass pid (Pass.on n (.closing (finalStatus f.counts)) loop.db)) := by
    simp [server, World.step, hpass, Pass.advance, hnil, Pass.goto, Pass.on]
  have hwrite : (server cfg).step
      (loop.afterPass pid (Pass.on n (.closing (finalStatus f.counts)) loop.db))
      (.pass pid (inputs 1)) = some
        ((loop.afterPass pid (Pass.on n (.closing (finalStatus f.counts)) loop.db)).afterPass pid
          (Pass.ended (loop.db.updateNotification n.id
            (closeNotification loop.clock (finalStatus f.counts).val)
            (pk_closeNotification loop.clock (finalStatus f.counts).val)))) := by
    simp [server, World.step, World.afterPass, Pass.advance, Pass.on]
  refine ⟨hlength, _, (System.runFor_succ _ 1 hsum).trans (System.runFor_succ _ 0 hwrite), ?_, ?_⟩
  · simp [World.afterPass, Pass.ended]
  · rw [hclock]
    exact hlooped.specified hstart hcalled rfl

/-- The whole pass. -/
theorem send_pass_specified {cfg : Settings} {w : World} {pid : ℕ} {n : Notification}
    {inputs : ℕ → PassInput} (hpass : w.passes pid = some { notification := n })
    (hstart : Pass.Sendable cfg.timeZone w.clock w.db n)
    (hpaid : ∀ i, (inputs i).ownerPaid = true) :
    ∃ k loop f final,
      (server cfg).runFor (fun i => .pass pid (inputs i)) k w = some loop ∧
      loop.passes pid = some ⟨n, .looping f⟩ ∧ f.remaining = [] ∧
      f.counts.total = ((w.db.withTargets n).deliveriesOf n.id).length ∧
      (server cfg).runFor (fun i => .pass pid (inputs i)) (k + 2) w = some final ∧
      final.passes pid = none ∧ w.Specified cfg.timeZone n final := by
  have hbegin : w.Alone cfg pid n w := ⟨rfl, .entitlement, hpass, rfl, .start⟩
  obtain ⟨k, loop, hrun, halone, f, hloop, hnil⟩ :=
    (server cfg).exists_runFor_of_rank (w.Alone cfg pid n) (World.LoopDone pid n)
      (fun a => ∃ input, a = Action.pass pid input ∧ input.ownerPaid = true) (World.passRank pid)
      (by rintro s _ h hmore ⟨input, rfl, hinput⟩; exact h.step hstart hmore hinput)
      (fun i => ⟨inputs i, rfl, hpaid i⟩) hbegin
  obtain ⟨htotal, final, hclose, hended, hspecified⟩ :=
    halone.close hstart hloop hnil fun i => inputs (k + i)
  refine ⟨k, loop, f, final, hrun, hloop, hnil, htotal, ?_, hended, hspecified⟩
  rw [System.runFor_add, hrun]
  exact hclose

namespace Sample

theorem claimedPair_sendable :
    Pass.Sendable Settings.default.timeZone claimedPair.world.clock claimedPair.world.db
      (acquire 0 notification) :=
  ⟨claimedPair_intact, rfl, by decide, by decide⟩

/-- The provider answers the second push with a temporary error. -/
def secondRefused (i : ℕ) : PassInput :=
  if i = 7 then { push := .raised (.temporaryPushProvider "unavailable") } else {}

theorem toPush_delivery :
    ToPush Settings.default.timeZone 0 (claimedPair.world.db.withTargets (acquire 0 notification))
      1 delivery where
  application := ⟨application, rfl, rfl⟩
  link := ⟨link, by decide, rfl, rfl, rfl⟩
  device := ⟨device, rfl, rfl, rfl⟩
  unsent := by decide
  due := by simp [NotificationDelivery.Waits, delivery]
  awake := by
    rintro ⟨q, hq, -⟩
    exact absurd hq List.not_mem_nil
  attempts := by decide

end Sample

/-- The pass that gets one push accepted and one refused ends; the first delivery was pushed
once. -/
theorem sample_send_pass_specified : ∃ k final,
    (server .default).runFor (fun i => .pass 1 (Sample.secondRefused i)) k
      Sample.claimedPair.world = some final ∧ final.passes 1 = none ∧
    Sample.claimedPair.world.Specified Settings.default.timeZone
      (acquire 0 Sample.notification) final ∧ providerCalls 1 final.history = 1 := by
  have hpass : Sample.claimedPair.world.passes 1 =
      some { notification := acquire 0 Sample.notification } := rfl
  have hpaid : ∀ i, (Sample.secondRefused i).ownerPaid = true := by
    intro i
    unfold Sample.secondRefused
    split <;> rfl
  obtain ⟨k, loop, f, final, -, -, -, -, hrun, hended, hspecified⟩ :=
    send_pass_specified hpass Sample.claimedPair_sendable hpaid
  exact ⟨k + 2, final, hrun, hended, hspecified,
    hspecified.called Sample.delivery (by decide) Sample.toPush_delivery⟩

end PushIT
