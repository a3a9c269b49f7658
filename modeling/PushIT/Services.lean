import Mathlib.Data.List.Sort
import PushIT.Scheduling

/-!
# The send pass

`notifications/services.py`: one call of `send_notification` is a process that advances by one
database statement, or one provider call, at a time.  Between two steps any other process may
run; the pass works on the rows it loaded, which are kept in its local state exactly as the
source keeps them in its instances.

Each marker (`_mark_delivery_as_sent`, `_mark_delivery_as_deferred`, `_mark_delivery_as_failed`,
`_cancel_delivery`) is one step: the statements inside a marker concern a single delivery row.
Saving an instance whose row is gone raises, which ends the pass without a final status unless
the source catches the exception.  Metrics, log lines and the webhook task that follows the
final status are left out.

## Main definitions

* `acquire`: what a worker writes when it claims a notification.
* `deliveryDecision`: what the send loop does with one delivery.
* `Pass`, `Pass.advance`: a running pass and its next step.
-/

namespace PushIT

open Relational

/-! ### Deliveries -/

def maxDeliveryAttempts : ℕ := 3

/-- `ALLOWED_NOTIFICATION_STATUSES_TO_START`. -/
def allowedNotificationStatusesToStart : List NotificationStatus :=
  [.draft, .queued, .failed, .partially]

/-- `_can_retry_delivery`. -/
def canRetryDelivery (d : NotificationDelivery) : Bool :=
  if d.status = .sent then false else decide (d.attemptCount < maxDeliveryAttempts)

/-- `_compute_next_retry`: 1, 5, then 15 minutes. -/
def computeNextRetry (now : Instant) (attemptCount : ℕ) : Instant :=
  now + minutes (match attemptCount with
    | 1 => 1
    | 2 => 5
    | 3 => 15
    | _ => 30)

/-- `_should_skip_delivery`. -/
def shouldSkipDelivery (d : NotificationDelivery) : Bool := decide (d.status = .sent)

/-- `_should_wait_for_retry`. -/
def shouldWaitForRetry (now : Instant) (d : NotificationDelivery) : Bool :=
  d.nextRetryAt.any fun t => decide (t > now)

/-- `_mark_delivery_as_sent`. -/
def markDeliveryAsSent (now : Instant) (providerMessageId : String) (d : NotificationDelivery) :
    NotificationDelivery :=
  { d with
    status := .sent
    providerMessageId := providerMessageId
    errorMessage := ""
    sentAt := some now
    lastAttemptAt := some now
    nextRetryAt := none }

/-- `_mark_delivery_as_deferred`. -/
def markDeliveryAsDeferred (now retryAt : Instant) (d : NotificationDelivery) :
    NotificationDelivery :=
  { d with
    status := .pending
    lastAttemptAt := some now
    errorMessage := "Deferred by device quiet period."
    nextRetryAt := some retryAt }

theorem pk_markDeliveryAsSent (now : Instant) (providerMessageId : String)
    (d : NotificationDelivery) : pk (markDeliveryAsSent now providerMessageId d) = pk d := rfl

theorem pk_markDeliveryAsDeferred (now retryAt : Instant) (d : NotificationDelivery) :
    pk (markDeliveryAsDeferred now retryAt d) = pk d := rfl

/-- Why a delivery is cancelled at send time, before any push. -/
inductive CancelReason
  | applicationInactive
  | deviceUnlinked
  | pushTokenInactive
  | subscriptionRequired
  deriving DecidableEq, Repr

/-- The reason codes stored in `error_message`. -/
def CancelReason.code : CancelReason → String
  | .applicationInactive => "application_inactive"
  | .deviceUnlinked => "device_unlinked"
  | .pushTokenInactive => "push_token_inactive"
  | .subscriptionRequired => "subscription_required"

/-- `_cancel_delivery`: no attempt is counted and no retry is left. -/
def cancelDelivery (now : Instant) (reason : CancelReason) (d : NotificationDelivery) :
    NotificationDelivery :=
  { d with
    status := .failed
    errorMessage := "Cancelled: " ++ reason.code ++ "."
    lastAttemptAt := some now
    nextRetryAt := none }

theorem pk_cancelDelivery (now : Instant) (reason : CancelReason) (d : NotificationDelivery) :
    pk (cancelDelivery now reason d) = pk d := rfl

/-- `_ineligibility_reason`. -/
def ineligibilityReason (applicationIsActive : Bool) (device : Device)
    (linkedDeviceIds : List ℕ) : Option CancelReason :=
  if !applicationIsActive then some .applicationInactive
  else if device.id ∉ linkedDeviceIds then some .deviceUnlinked
  else if device.pushTokenStatus ≠ .active ∨ !device.isActive then some .pushTokenInactive
  else none

/-- `_mark_delivery_as_failed`, on the stored row: the counter is incremented in the database
and read back, then the retry date or the failure is written. -/
def markDeliveryAsFailed (now : Instant) (error : String) (d : NotificationDelivery) :
    NotificationDelivery :=
  { d with
    attemptCount := d.attemptCount + 1
    lastAttemptAt := some now
    errorMessage := error
    status := if d.attemptCount + 1 ≥ maxDeliveryAttempts then .failed else .pending
    nextRetryAt := if d.attemptCount + 1 ≥ maxDeliveryAttempts then none
      else some (computeNextRetry now (d.attemptCount + 1)) }

theorem pk_markDeliveryAsFailed (now : Instant) (error : String) (d : NotificationDelivery) :
    pk (markDeliveryAsFailed now error d) = pk d := rfl

/-! ### The provider -/

/-- The exceptions the send loop catches. -/
inductive PushError
  | invalidPushToken (error : String)
  | temporaryPushProvider (error : String)
  | pushProvider (error : String)
  | unexpected (error : String)
  deriving DecidableEq, Repr

def PushError.text : PushError → String
  | .invalidPushToken e | .temporaryPushProvider e | .pushProvider e | .unexpected e => e

/-- `invalidate_token`: only a permanent refusal of the token invalidates the device. -/
def PushError.invalidateToken : PushError → Bool
  | .invalidPushToken _ => true
  | _ => false

/-- How a call of `send_push_to_device` ends. -/
inductive PushResult
  | accepted (providerMessageId : String)
  | raised (error : PushError)
  deriving DecidableEq, Repr

def PushResult.isAccepted : PushResult → Bool
  | .accepted _ => true
  | .raised _ => false

/-- What the environment answers to one step of a pass: `user_is_paid` for the owner and the
provider. -/
structure PassInput where
  ownerPaid : Bool := true
  push : PushResult := .accepted ""

/-- `failure_count = F("failure_count") + 1`. -/
def countFailure (d : Device) : Device := { d with failureCount := d.failureCount + 1 }

/-- The device answered: the failure counter starts again. -/
def resetFailures (d : Device) : Device := { d with failureCount := 0 }

/-- The fields `_record_delivery_failure` saves when the token was refused for good. -/
def invalidate (now : Instant) (d : Device) : Device :=
  { d with
    pushTokenStatus := .invalid
    isActive := false
    invalidatedAt := some now
    invalidationReason := "invalid_token" }

theorem pk_countFailure (d : Device) : pk (countFailure d) = pk d := rfl

theorem pk_resetFailures (d : Device) : pk (resetFailures d) = pk d := rfl

theorem pk_invalidate (now : Instant) (d : Device) : pk (invalidate now d) = pk d := rfl

/-! ### Loaded rows -/

/-- A delivery instance with its `select_related` device and the device's prefetched quiet
periods. -/
structure LoadedDelivery where
  delivery : NotificationDelivery
  device : Device
  quietPeriods : List AbstractQuietPeriod

/-- `device.quiet_periods.all()`. -/
def deviceQuietPeriodsOf (db : Db) (deviceId : ℕ) : List AbstractQuietPeriod :=
  (db.deviceQuietPeriods.select fun q => q.deviceId == deviceId).map (·.toAbstractQuietPeriod)

/-- `get_current_quiet_period_end`, as the instant that is then stored. -/
def getCurrentQuietPeriodEnd (tz : TimeZone) (db : Db) (applicationId : ℕ) (now : Instant) :
    Option Instant :=
  (getQuietPeriodEndForApplication tz db applicationId (.utc now)).map (·.instant)

/-- `get_current_device_quiet_period_end` on the prefetched quiet periods, as the instant that is
then stored. -/
def getCurrentDeviceQuietPeriodEnd (tz : TimeZone) (quietPeriods : List AbstractQuietPeriod)
    (now : Instant) : Option Instant :=
  (getQuietPeriodEndFromIterable tz quietPeriods (.utc now)).map (·.instant)

/-- The rows of `notification.deliveries.select_related("device")` ordered by device. -/
def loadDeliveries (db : Db) (notificationId : ℕ) : List LoadedDelivery :=
  ((db.deliveries.select fun d => d.notificationId == notificationId).insertionSort
      fun a b => a.deviceId ≤ b.deviceId).filterMap fun d =>
    (db.devices.get? d.deviceId).map fun device =>
      ⟨d, device, deviceQuietPeriodsOf db device.id⟩

/-- `get_target_devices_for_notification`, in primary key order. -/
def targetDevices (db : Db) (applicationId : ℕ) : List Device :=
  db.devices.select fun d =>
    d.pushTokenStatus == .active && db.links.rows.any fun l =>
      l.deviceId == d.id && l.applicationId == applicationId && l.isActive

/-- The `linked_device_ids` of the send loop: the loaded devices that have an active link. -/
def linkedDeviceIdsOf (db : Db) (applicationId : ℕ) (ls : List LoadedDelivery) : List ℕ :=
  (db.links.select fun l =>
    l.applicationId == applicationId && l.isActive &&
      ls.any fun x => x.delivery.deviceId == l.deviceId).map (·.deviceId)

/-- The rows `bulk_create(..., ignore_conflicts=True)` inserts: one for each device that has no
delivery of the notification yet. -/
def missingDevices (db : Db) (notificationId : ℕ) (deviceIds : List ℕ) : List ℕ :=
  deviceIds.filter fun k => !db.deliveries.rows.any fun d =>
    d.notificationId == notificationId && d.deviceId == k

/-- A fresh delivery row. -/
def newDelivery (notificationId deviceId id : ℕ) : NotificationDelivery :=
  { id, notificationId, deviceId }

/-- `bulk_create` of pending deliveries, skipping the devices that have one. -/
def Db.createDeliveries (db : Db) (notificationId : ℕ) (deviceIds : List ℕ) : Db :=
  { db with
    deliveries :=
      db.deliveries.insertAll (newDelivery notificationId) (fun _ _ => rfl)
        (missingDevices db notificationId deviceIds) }

/-- The owner of a device row, `none` too when the row is gone. -/
def Db.ownerOf (db : Db) (deviceId : ℕ) : Option ℕ :=
  (db.devices.get? deviceId).bind (·.userId)

/-- The history left by creating deliveries: one entry for each new row. -/
def deliveriesAttached (before after : Db) : List Event :=
  (after.deliveries.select fun d => decide (before.deliveries.seq < d.id)).map fun d =>
    .attached (.delivery d.id) (after.ownerOf d.deviceId)

/-- `delivery.save(update_fields=...)`: `none` when the row is gone. -/
def Db.saveDelivery (db : Db) (id : ℕ) (f : NotificationDelivery → NotificationDelivery)
    (hf : ∀ d, pk (f d) = pk d) : Option Db :=
  if (db.deliveries.get? id).isSome then
    some { db with deliveries := db.deliveries.modify id f hf }
  else none

/-- `device.save(update_fields=...)`: `none` when the row is gone. -/
def Db.saveDevice (db : Db) (id : ℕ) (f : Device → Device) (hf : ∀ d, pk (f d) = pk d) :
    Option Db :=
  if (db.devices.get? id).isSome then
    some { db with devices := db.devices.modify id f hf }
  else none

/-- `Notification.objects.filter(id=...).update(...)`. -/
def Db.updateNotification (db : Db) (id : ℕ) (f : Notification → Notification)
    (hf : ∀ n, pk (f n) = pk n) : Db :=
  { db with notifications := db.notifications.modify id f hf }

/-! ### The pass -/

/-- The counters of the send loop. -/
structure Counts where
  sent : ℕ := 0
  failed : ℕ := 0
  skipped : ℕ := 0
  deferred : ℕ := 0
  waiting : ℕ := 0
  deriving DecidableEq, Repr

/-- A status a pass may end with. -/
abbrev FinalStatus :=
  { s : NotificationStatus // s ∈ [.sent, .failed, .partially, .noTarget] }

/-- The status the loop ends with. -/
def finalStatus (c : Counts) : FinalStatus :=
  if c.deferred > 0 ∨ c.waiting > 0 then ⟨.partially, by decide⟩
  else if c.failed = 0 ∧ c.sent + c.skipped > 0 then ⟨.sent, by decide⟩
  else if c.sent + c.skipped = 0 ∧ c.failed > 0 then ⟨.failed, by decide⟩
  else ⟨.partially, by decide⟩

/-- The status of a pass that found no target. -/
def noTarget : FinalStatus := ⟨.noTarget, by decide⟩

/-- The local variables of the send loop; `remaining` are the deliveries it has not taken yet. -/
structure LoopFrame where
  applicationIsActive : Bool
  linkedDeviceIds : List ℕ
  remaining : List LoadedDelivery
  counts : Counts := {}

/-- The counters, after one delivery. -/
def LoopFrame.count (f : LoopFrame) (count : Counts → Counts) : LoopFrame :=
  { f with counts := count f.counts }

/-- The loop takes the delivery at its head. -/
def LoopFrame.rest (f : LoopFrame) (remaining : List LoadedDelivery) : LoopFrame :=
  { f with remaining }

def Counts.addSent (c : Counts) : Counts := { c with sent := c.sent + 1 }
def Counts.addFailed (c : Counts) : Counts := { c with failed := c.failed + 1 }
def Counts.addSkipped (c : Counts) : Counts := { c with skipped := c.skipped + 1 }
def Counts.addDeferred (c : Counts) : Counts := { c with deferred := c.deferred + 1 }
def Counts.addWaiting (c : Counts) : Counts := { c with waiting := c.waiting + 1 }

/-- Where a pass stands: the statement it performs next. -/
inductive Stage
  /-- `user_is_paid(notification.application.owner)`. -/
  | entitlement
  /-- `_fail_for_lapsed_subscription` reads the deliveries that are not sent. -/
  | lapsed
  /-- `_fail_for_lapsed_subscription` cancels them, then fails the notification. -/
  | cancelling (pending : List NotificationDelivery)
  /-- The quiet periods of the application. -/
  | applicationQuiet
  /-- The notification goes back to SCHEDULED. -/
  | postponing (quietPeriodEnd : Instant)
  /-- The first query of `get_target_deliveries_for_notification`. -/
  | listing
  /-- `get_target_devices_for_notification`, when there was no delivery row. -/
  | targeting
  /-- `bulk_create` of the missing deliveries. -/
  | materializing (deviceIds : List ℕ)
  /-- The second query of `get_target_deliveries_for_notification`. -/
  | relisting
  /-- `application.refresh_from_db(fields=["is_active"])`. -/
  | refreshing (deliveries : List LoadedDelivery)
  /-- The active links of the loaded devices. -/
  | linking (applicationIsActive : Bool) (deliveries : List LoadedDelivery)
  /-- The head of the loop. -/
  | looping (frame : LoopFrame)
  /-- The provider accepted: `_mark_delivery_as_sent`. -/
  | marking (frame : LoopFrame) (current : LoadedDelivery) (providerMessageId : String)
  /-- The delivery is sent: the failure counter of the device is reset. -/
  | settling (frame : LoopFrame) (current : LoadedDelivery)
  /-- `_record_delivery_failure` increments the failure counter of the device. -/
  | counting (frame : LoopFrame) (current : LoadedDelivery) (error : PushError)
  /-- `_record_delivery_failure` invalidates the device row. -/
  | invalidating (frame : LoopFrame) (current : LoadedDelivery) (error : PushError)
  /-- `device.refresh_from_db(fields=["failure_count"])`. -/
  | rereading (frame : LoopFrame) (current : LoadedDelivery) (error : PushError)
  /-- `_mark_delivery_as_failed`. -/
  | failing (frame : LoopFrame) (current : LoadedDelivery) (error : PushError)
  /-- The final status of the notification. -/
  | closing (status : FinalStatus)

/-- A running pass: the instance `_acquire_notification_for_processing` returned and the stage. -/
structure Pass where
  notification : Notification
  stage : Stage := .entitlement

/-- What `_acquire_notification_for_processing` writes. -/
def acquire (now : Instant) (n : Notification) : Notification :=
  { n with status := .processing, processingStartedAt := some now }

theorem pk_acquire (now : Instant) (n : Notification) : pk (acquire now n) = pk n := rfl

/-- What the send loop does with a delivery. -/
inductive Decision
  | skip
  | cancel (reason : CancelReason)
  | wait
  | defer (quietPeriodEnd : Instant)
  | exhausted
  | push
  deriving DecidableEq, Repr

/-- The tests of the send loop, in the order of the source, on the loaded instances. -/
def deliveryDecision (tz : TimeZone) (now : Instant) (f : LoopFrame) (l : LoadedDelivery) :
    Decision :=
  if shouldSkipDelivery l.delivery then .skip
  else match ineligibilityReason f.applicationIsActive l.device f.linkedDeviceIds with
    | some reason => .cancel reason
    | none =>
      if shouldWaitForRetry now l.delivery then .wait
      else match getCurrentDeviceQuietPeriodEnd tz l.quietPeriods now with
        | some quietPeriodEnd => .defer quietPeriodEnd
        | none => if !canRetryDelivery l.delivery then .exhausted else .push

/-- The outcome of a step of a pass; `next` is `none` when the pass has returned or raised. -/
structure PassStep where
  next : Option Pass
  db : Db
  events : List Event := []

/-- The final write of a pass: `sent_at` is set only with SENT. -/
def closeNotification (now : Instant) (status : NotificationStatus) (n : Notification) :
    Notification :=
  { n with
    status := status
    sentAt := if status = .sent then some now else none
    processingStartedAt := none }

/-- The write of a pass that falls into a quiet period of the application. -/
def postponeNotification (quietPeriodEnd : Instant) (n : Notification) : Notification :=
  { n with
    status := .scheduled
    scheduledFor := some quietPeriodEnd
    sentAt := none
    processingStartedAt := none }

theorem pk_closeNotification (now : Instant) (status : NotificationStatus) (n : Notification) :
    pk (closeNotification now status n) = pk n := rfl

theorem pk_postponeNotification (quietPeriodEnd : Instant) (n : Notification) :
    pk (postponeNotification quietPeriodEnd n) = pk n := rfl

namespace Pass

/-- The pass goes on at another stage. -/
def goto (p : Pass) (stage : Stage) (db : Db) (events : List Event := []) : PassStep :=
  ⟨some { p with stage }, db, events⟩

/-- The pass has returned, or an exception left it. -/
def ended (db : Db) (events : List Event := []) : PassStep :=
  ⟨none, db, events⟩

/-- The loop with the current delivery counted. -/
def counted (p : Pass) (frame : LoopFrame) (count : Counts → Counts) (db : Db)
    (events : List Event := []) : PassStep :=
  p.goto (.looping (frame.count count)) db events

/-- One turn of the send loop, up to the provider's answer. -/
def turn (cfg : Settings) (now : Instant) (db : Db) (input : PassInput) (p : Pass)
    (frame : LoopFrame) (l : LoadedDelivery) : PassStep :=
  match deliveryDecision cfg.timeZone now frame l with
  | .skip => p.counted frame .addSkipped db
  | .cancel reason =>
    match db.saveDelivery l.delivery.id (cancelDelivery now reason)
      (pk_cancelDelivery now reason) with
    | some db' => p.counted frame .addFailed db'
    | none => ended db
  | .wait => p.counted frame .addWaiting db
  | .defer quietPeriodEnd =>
    match db.saveDelivery l.delivery.id (markDeliveryAsDeferred now quietPeriodEnd)
        (pk_markDeliveryAsDeferred now quietPeriodEnd) with
    | some db' => p.counted frame .addDeferred db'
        [.deferred p.notification.id l.delivery.id]
    | none => ended db
  | .exhausted => p.counted frame .addFailed db
  | .push =>
    p.goto
      (match input.push with
        | .accepted providerMessageId => .marking frame l providerMessageId
        | .raised error => .counting frame l error) db
      [.called p.notification.id l.delivery.id l.device.id l.device.pushToken
        input.push.isAccepted]

/-- The message of the exception Django raises for a save that hits no row. -/
def saveFailed : PushError := .unexpected "Save with update_fields did not affect any rows."

/-- The next step of a pass. -/
def advance (cfg : Settings) (now : Instant) (db : Db) (input : PassInput) (p : Pass) :
    PassStep :=
  match p.stage with
  | .entitlement => p.goto (if input.ownerPaid then .applicationQuiet else .lapsed) db
  | .lapsed =>
    p.goto (.cancelling (db.deliveries.select fun d =>
      d.notificationId == p.notification.id && !decide (d.status = .sent))) db
  | .cancelling [] =>
    ended (db.updateNotification p.notification.id (closeNotification now .failed)
      (pk_closeNotification now .failed))
  | .cancelling (d :: pending) =>
    match db.saveDelivery d.id (cancelDelivery now .subscriptionRequired)
      (pk_cancelDelivery now .subscriptionRequired) with
    | some db' => p.goto (.cancelling pending) db'
    | none => ended db
  | .applicationQuiet =>
    match getCurrentQuietPeriodEnd cfg.timeZone db p.notification.applicationId now with
    | some quietPeriodEnd => p.goto (.postponing quietPeriodEnd) db
    | none => p.goto .listing db
  | .postponing quietPeriodEnd =>
    ended (db.updateNotification p.notification.id (postponeNotification quietPeriodEnd)
      (pk_postponeNotification quietPeriodEnd)) [.postponed p.notification.id]
  | .listing =>
    match loadDeliveries db p.notification.id with
    | [] => p.goto .targeting db
    | l :: ls => p.goto (.refreshing (l :: ls)) db
  | .targeting =>
    match targetDevices db p.notification.applicationId with
    | [] => p.goto (.closing noTarget) db
    | d :: ds => p.goto (.materializing ((d :: ds).map (·.id))) db
  | .materializing deviceIds =>
    -- a vanished notification or device violates the foreign key
    if (db.notifications.get? p.notification.id).isSome ∧
        ∀ k ∈ deviceIds, (db.devices.get? k).isSome then
      let db' := db.createDeliveries p.notification.id deviceIds
      p.goto .relisting db' (deliveriesAttached db db')
    else ended db
  | .relisting =>
    match loadDeliveries db p.notification.id with
    | [] => p.goto (.closing noTarget) db
    | l :: ls => p.goto (.refreshing (l :: ls)) db
  | .refreshing ls =>
    match db.applications.get? p.notification.applicationId with
    | some a => p.goto (.linking a.isActive ls) db
    | none => ended db
  | .linking applicationIsActive ls =>
    p.goto (.looping
      { applicationIsActive
        linkedDeviceIds := linkedDeviceIdsOf db p.notification.applicationId ls
        remaining := ls }) db
  | .looping frame =>
    match frame.remaining with
    | [] => p.goto (.closing (finalStatus frame.counts)) db
    | l :: ls => p.turn cfg now db input (frame.rest ls) l
  | .marking frame l providerMessageId =>
    match db.saveDelivery l.delivery.id (markDeliveryAsSent now providerMessageId)
        (pk_markDeliveryAsSent now providerMessageId) with
    | some db' =>
      if l.device.failureCount ≠ 0 then p.goto (.settling frame l) db'
      else p.counted frame .addSent db'
    -- the exception is raised inside the `try` of the loop
    | none => p.goto (.counting frame l saveFailed) db
  | .settling frame l =>
    match db.saveDevice l.device.id resetFailures pk_resetFailures with
    | some db' => p.counted frame .addSent db'
    | none => p.goto (.counting frame l saveFailed) db
  | .counting frame l error =>
    p.goto (if error.invalidateToken then .invalidating frame l error
        else .rereading frame l error)
      { db with devices := db.devices.modify l.device.id countFailure pk_countFailure }
  | .invalidating frame l error =>
    match db.devices.get? l.device.id with
    | some d =>
      p.goto (.rereading frame l error)
        { db with devices := db.devices.modify l.device.id (invalidate now) (pk_invalidate now) }
        [.invalidated l.device.id l.device.pushToken d.pushToken]
    | none => ended db
  | .rereading frame l error =>
    match db.devices.get? l.device.id with
    | some _ => p.goto (.failing frame l error) db
    | none => ended db
  | .failing frame l error =>
    match db.saveDelivery l.delivery.id (markDeliveryAsFailed now error.text)
      (pk_markDeliveryAsFailed now error.text) with
    | some db' => p.counted frame .addFailed db'
    | none => ended db
  | .closing status =>
    ended (db.updateNotification p.notification.id (closeNotification now status.val)
      (pk_closeNotification now status.val))

end Pass

end PushIT
