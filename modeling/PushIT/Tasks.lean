import PushIT.Services

/-!
# The periodic tasks

`notifications/tasks.py`: the dispatcher of scheduled notifications, the retry sweep and the
watchdog of stuck notifications.  Each reads the ids it will treat once and then treats them one
by one; the status change of a row and the submission of its send task are two steps.  A broker
that refuses a submission raises, which ends the task.

## Main definitions

* `dueRetries`, `dueScheduled`, `stuckProcessing`: the selections of the three tasks.
* `DispatchRun.advance`, `retryAdvance`, `WatchdogRun.advance`: their steps.
-/

namespace PushIT

open Relational

/-- What the environment answers to one step of a task or request: whether another transaction
holds the row lock (`skip_locked`), whether the broker takes a submission, and whether an
`OperationalError` interrupts an UPDATE. -/
structure TaskInput where
  rowLocked : Bool := false
  brokerUp : Bool := true
  updateFails : Bool := false

/-- The outcome of a step of a task; `next` is `none` when it has returned or raised. -/
structure TaskStep (L : Type) where
  next : Option L
  notifications : Table Notification
  submitted : List SendTask := []
  events : List Event := []

/-! ### Retries -/

/-- A delivery the retry sweep selects. -/
def retryDue (now : Instant) (d : NotificationDelivery) : Bool :=
  d.status == .pending && d.nextRetryAt.any fun t => decide (t ≤ now)

/-- The ids `retry_pending_deliveries_task` submits, without repetition. -/
def dueRetries (db : Db) (now : Instant) : List ℕ :=
  ((db.deliveries.select (retryDue now)).map (·.notificationId)).dedup

/-- One turn of the loop of `retry_pending_deliveries_task` over the remaining ids. -/
def retryAdvance (notifications : Table Notification) (input : TaskInput) :
    List ℕ → TaskStep (List ℕ)
  | [] => ⟨none, notifications, [], []⟩
  | id :: ids =>
    if input.brokerUp then ⟨some ids, notifications, [⟨id, .retrySweep⟩], []⟩
    else ⟨none, notifications, [], []⟩

/-! ### Scheduled notifications -/

/-- The test of `dispatch_scheduled_notifications_task`, made once to select the rows and again
under the row lock. -/
def scheduledDue (now : Instant) (n : Notification) : Bool :=
  n.status == .scheduled && n.scheduledFor.any fun t => decide (t ≤ now)

/-- The ids `dispatch_scheduled_notifications_task` goes through. -/
def dueScheduled (db : Db) (now : Instant) : List ℕ :=
  (db.notifications.select (scheduledDue now)).map (·.id)

/-- `status = QUEUED`. -/
def queueNotification (n : Notification) : Notification := { n with status := .queued }

theorem pk_queueNotification (n : Notification) : pk (queueNotification n) = pk n := rfl

/-- A running `dispatch_scheduled_notifications_task`. -/
inductive DispatchRun
  /-- The ids still to treat. -/
  | scanning (ids : List ℕ)
  /-- The row is committed as QUEUED; its send task is submitted next. -/
  | submitting (id : ℕ) (ids : List ℕ)

/-- One step of the dispatcher; the row is re-checked under its lock. -/
def DispatchRun.advance (now : Instant) (notifications : Table Notification)
    (input : TaskInput) : DispatchRun → TaskStep DispatchRun
  | .scanning [] => ⟨none, notifications, [], []⟩
  | .scanning (id :: ids) =>
    if !input.rowLocked && (notifications.get? id).any (scheduledDue now) then
      ⟨some (.submitting id ids),
        notifications.modify id queueNotification pk_queueNotification, [],
        [.queued id .dispatcher now]⟩
    else ⟨some (.scanning ids), notifications, [], []⟩
  | .submitting id ids =>
    if input.brokerUp then ⟨some (.scanning ids), notifications, [⟨id, .dispatcher⟩], []⟩
    else ⟨none, notifications, [], []⟩

/-! ### Stuck notifications -/

/-- PROCESSING since before the cutoff. -/
def stuckProcessing (cutoff : Instant) (n : Notification) : Bool :=
  n.status == .processing && n.processingStartedAt.any fun t => decide (t < cutoff)

/-- The write of the watchdog. -/
def requeueNotification (n : Notification) : Notification :=
  { n with status := .queued, processingStartedAt := none }

theorem pk_requeueNotification (n : Notification) : pk (requeueNotification n) = pk n := rfl

/-- A running `requeue_stuck_processing_notifications_task`, with its cutoff. -/
inductive WatchdogRun
  | scanning (cutoff : Instant) (ids : List ℕ)
  | submitting (cutoff : Instant) (id : ℕ) (ids : List ℕ)

/-- `cutoff = timezone.now() - timedelta(minutes=stuck_minutes)`. -/
def watchdogCutoff (cfg : Settings) (now : Instant) : Instant :=
  now - minutes cfg.notificationProcessingStuckMinutes

/-- The scan of the watchdog. -/
def WatchdogRun.start (cfg : Settings) (now : Instant) (db : Db) : WatchdogRun :=
  let cutoff := watchdogCutoff cfg now
  .scanning cutoff ((db.notifications.select (stuckProcessing cutoff)).map (·.id))

/-- One step of the watchdog: the conditional UPDATE, then the submission. -/
def WatchdogRun.advance (now : Instant) (notifications : Table Notification)
    (input : TaskInput) : WatchdogRun → TaskStep WatchdogRun
  | .scanning _ [] => ⟨none, notifications, [], []⟩
  | .scanning cutoff (id :: ids) =>
    if (notifications.get? id).any (stuckProcessing cutoff) then
      ⟨some (.submitting cutoff id ids),
        notifications.modify id requeueNotification pk_queueNotification, [],
        [.queued id .watchdog now]⟩
    else ⟨some (.scanning cutoff ids), notifications, [], []⟩
  | .submitting cutoff id ids =>
    if input.brokerUp then ⟨some (.scanning cutoff ids), notifications, [⟨id, .watchdog⟩], []⟩
    else ⟨none, notifications, [], []⟩

end PushIT
