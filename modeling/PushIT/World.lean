import PushIT.Creation
import PushIT.Library.Transition

/-!
# The server and its environment

A world is the clock, the database, the send tasks waiting in the broker, the send passes that
are running and the other requests and tasks that are under way.  One action lets time pass, or
lets a single process perform its next statement, so that a run is an interleaving of the
processes.  The history is written by the actions and read by none of them.

## Main definitions

* `Process`, `Process.advance`: what is under way besides the passes.
* `Request`, `Request.begin`: the API requests and periodic tasks, and what they do first.
* `World`, `World.step`, `server`: the transition system.
-/

namespace PushIT

open Relational Transition

/-! ### Processes -/

/-- A request or periodic task between two of its statements. -/
inductive Process
  /-- A send or bulk-send request. -/
  | queue (request : QueueRequest)
  /-- `dispatch_scheduled_notifications_task`. -/
  | dispatch (run : DispatchRun)
  /-- `retry_pending_deliveries_task`, with the ids still to submit. -/
  | retry (ids : List ℕ)
  /-- `requeue_stuck_processing_notifications_task`. -/
  | watchdog (run : WatchdogRun)
  /-- A PATCH of a future notification. -/
  | patch (request : PatchRequest)
  /-- A DELETE of a future notification, which `get_object` returned. -/
  | destroy (notification : ℕ)
  /-- A link request after its upsert. -/
  | link (deviceId applicationId : ℕ)
  /-- An unlinking request that found an active link. -/
  | unlink (linkId : ℕ) (source : UnlinkSource)

/-- The outcome of a statement of a process; `next` is `none` when the process has ended. -/
structure Outcome where
  next : Option Process
  db : Db
  submitted : List SendTask := []
  events : List Event := []

/-- The outcome of a step that writes no table but the notifications. -/
def TaskStep.outcome {L : Type} (s : TaskStep L) (db : Db) (wrap : L → Process) : Outcome where
  next := s.next.map wrap
  db := { db with notifications := s.notifications }
  submitted := s.submitted
  events := s.events

/-- The next statement of a process. -/
def Process.advance (now : Instant) (db : Db) (input : TaskInput) : Process → Outcome
  | .queue r => (r.advance now db.notifications input).outcome db .queue
  | .dispatch r => (r.advance now db.notifications input).outcome db .dispatch
  | .retry ids => (retryAdvance db.notifications input ids).outcome db .retry
  | .watchdog r => (r.advance now db.notifications input).outcome db .watchdog
  | .patch r => (r.advance now db.notifications).outcome db .patch
  | .destroy id =>
    { next := none
      db := db.deleteNotifications fun n => n.id == id
      events := ((db.notifications.get? id).map fun n => .removed id n.status).toList }
  | .link deviceId applicationId =>
    let (db', events) := getOrCreateLink now db deviceId applicationId
    { next := none, db := db', events }
  | .unlink linkId source => { next := none, db := db.saveUnlinked now source linkId }

/-! ### Requests -/

/-- What can begin: an API request with its validated data, or a periodic task. -/
inductive Request
  | send (caller : Caller) (ids : List ℕ)
  | sendNow (user applicationId : ℕ) (deviceIds : List ℕ) (data : NotificationData)
  | dispatchScheduled
  | retryPending
  | requeueStuck
  | patch (user id : ℕ) (data : PatchData)
  | destroy (user id : ℕ)
  | hide (user id : ℕ)
  | create (user applicationId : ℕ) (deviceIds : List ℕ) (data : NotificationData)
  | broadcast (applicationId : ℕ) (data : NotificationData)
  | identify (user : ℕ) (data : DeviceData)
  | link (user : ℕ) (data : DeviceData) (applicationId : ℕ)
  | unlink (user : ℕ) (pushToken : String) (applicationId : ℕ) (source : UnlinkSource)
  | evict (user applicationId deviceId : ℕ)
  | createDeviceQuietPeriod (user deviceId : ℕ) (values : AbstractQuietPeriod)
  | updateDeviceQuietPeriod (user id : ℕ) (values : AbstractQuietPeriod)
  | deleteDeviceQuietPeriod (user id : ℕ)
  | createApplicationQuietPeriod (user applicationId : ℕ) (values : AbstractQuietPeriod)
  | updateApplicationQuietPeriod (user id : ℕ) (values : AbstractQuietPeriod)
  | deleteApplicationQuietPeriod (user id : ℕ)
  | activateApplication (user applicationId : ℕ) (isActive : Bool)
  | destroyDevice (user deviceId : ℕ)
  | purge
  | deleteAccount (user : ℕ)

namespace Outcome

/-- The request ends after its only transaction. -/
def done (db : Db) (events : List Event := []) : Outcome :=
  { next := none, db, events }

/-- The request read what it needs and goes on. -/
def goesOn (db : Db) (next : Option Process) : Outcome :=
  { next, db }

end Outcome

/-- The instance a send-now request queues, freshly created for an active application. -/
def freshQueueRequest (now : Instant) (applicationId : ℕ) (data : NotificationData) (id : ℕ) :
    QueueRequest :=
  { found := [⟨newNotification now applicationId data id, true⟩], todo := [id] }

/-- The first statements of a request or task. -/
def Request.begin (cfg : Settings) (now : Instant) (db : Db) : Request → Outcome
  | .send caller ids =>
    .goesOn db (some (.queue { found := fetchNotifications db caller ids, todo := ids }))
  | .sendNow user applicationId deviceIds data =>
    if data.scheduledFor.isSome then .done db
    else
      let (db', events) := createNotification now db user applicationId deviceIds data
      if events.isEmpty then .done db
      else
        { next := some (.queue (freshQueueRequest now applicationId data
            (db.notifications.seq + 1)))
          db := db'
          events }
  | .dispatchScheduled => .goesOn db (some (.dispatch (.scanning (dueScheduled db now))))
  | .retryPending => .goesOn db (some (.retry (dueRetries db now)))
  | .requeueStuck => .goesOn db (some (.watchdog (.start cfg now db)))
  | .patch user id data =>
    .goesOn db ((futureNotification db now user id).map fun n => .patch (.loaded n data))
  | .destroy user id =>
    .goesOn db ((futureNotification db now user id).map fun n => .destroy n.id)
  | .hide user id => .done (hideNotification db user id)
  | .create user applicationId deviceIds data =>
    let (db', events) := createNotification now db user applicationId deviceIds data
    .done db' events
  | .broadcast applicationId data => .done (createBroadcast now db applicationId data)
  | .identify user data =>
    let u := upsertAuthenticatedDevice now db user data
    .done u.db u.events
  | .link user data applicationId =>
    -- the enrolment code resolves to an active application before the upsert
    if (db.applications.get? applicationId).any (·.isActive) then
      let u := upsertAuthenticatedDevice now db user data
      { next := some (.link u.deviceId applicationId), db := u.db, events := u.events }
    else .done db
  | .unlink user pushToken applicationId source =>
    .goesOn db ((ownActiveLink db user pushToken applicationId).map fun l =>
      .unlink l.id source)
  | .evict user applicationId deviceId =>
    .goesOn db ((subscriberLink db user applicationId deviceId).map fun l =>
      .unlink l.id .ownerEviction)
  | .createDeviceQuietPeriod user deviceId values =>
    let (db', events) := db.createDeviceQuietPeriod user deviceId values
    .done db' events
  | .updateDeviceQuietPeriod user id values => .done (db.updateDeviceQuietPeriod user id values)
  | .deleteDeviceQuietPeriod user id => .done (db.deleteDeviceQuietPeriod user id)
  | .createApplicationQuietPeriod user applicationId values =>
    .done
      (if db.applicationOwner applicationId = some user then
        { db with
          applicationQuietPeriods := db.applicationQuietPeriods.insert
            (fun id => { values with id, applicationId }) (fun _ => rfl) }
      else db)
  | .updateApplicationQuietPeriod user id values =>
    .done
      { db with
        applicationQuietPeriods := db.applicationQuietPeriods.update
          (fun q => q.id == id && db.applicationOwner q.applicationId == some user)
          (fun q => { q with toAbstractQuietPeriod := values }) (fun _ => rfl) }
  | .deleteApplicationQuietPeriod user id =>
    .done
      { db with
        applicationQuietPeriods := db.applicationQuietPeriods.delete fun q =>
          q.id == id && db.applicationOwner q.applicationId == some user }
  | .activateApplication user applicationId isActive =>
    .done
      { db with
        applications := db.applications.update
          (fun a => a.id == applicationId && a.ownerId == user)
          (fun a => { a with isActive }) (fun _ => rfl) }
  | .destroyDevice user deviceId => .done (db.destroyDevice user deviceId)
  | .purge => .done (purgeExpiredPersonalData cfg now db)
  | .deleteAccount user => .done (deleteUserAccount db user)

/-! ### The transition system -/

structure World where
  clock : Instant
  db : Db
  broker : List SendTask := []
  passes : Pool Pass := .idle
  processes : Pool Process := .idle
  /-- The newest event comes first. -/
  history : List Event := []

/-- What can happen next. -/
inductive Action
  /-- Time passes. -/
  | tick (duration : ℕ)
  /-- A worker takes a send task and tries to claim its notification. -/
  | claim (pid : ℕ) (task : SendTask) (rowLocked : Bool)
  /-- A running pass performs its next statement. -/
  | pass (pid : ℕ) (input : PassInput)
  /-- The worker of a running pass dies. -/
  | crash (pid : ℕ)
  /-- A request arrives, or a periodic task starts. -/
  | request (rid : ℕ) (request : Request)
  /-- A request or periodic task performs its next statement. -/
  | advance (rid : ℕ) (input : TaskInput)

/-- The row `_acquire_notification_for_processing` gets: it exists, is not locked by another
transaction and its status allows a start. -/
def claimable (db : Db) (id : ℕ) (rowLocked : Bool) : Option Notification :=
  if rowLocked then none
  else (db.notifications.get? id).filter fun n =>
    allowedNotificationStatusesToStart.contains n.status

/-- A retry of some delivery of the notification is due. -/
def retryIsDue (db : Db) (now : Instant) (id : ℕ) : Bool :=
  db.deliveries.rows.any fun d => d.notificationId == id && retryDue now d

namespace World

/-- The task leaves the broker; when the claim succeeds a pass starts. -/
def claim (w : World) (pid : ℕ) (task : SendTask) (rowLocked : Bool) : World :=
  let w' := { w with broker := w.broker.erase task }
  match claimable w.db task.notification rowLocked with
  | none => w'
  | some n =>
    { w' with
      db := w.db.updateNotification n.id (acquire w.clock) (pk_acquire w.clock)
      passes := w.passes.set pid (some { notification := acquire w.clock n })
      history := .claimed n.id task.source (retryIsDue w.db w.clock n.id) :: w.history }

/-- A pass performed a statement. -/
def afterPass (w : World) (pid : ℕ) (s : PassStep) : World :=
  { w with
    db := s.db
    passes := w.passes.set pid s.next
    history := s.events.reverse ++ w.history }

/-- A process performed a statement. -/
def afterProcess (w : World) (rid : ℕ) (o : Outcome) : World :=
  { w with
    db := o.db
    broker := w.broker ++ o.submitted
    processes := w.processes.set rid o.next
    history := o.events.reverse ++ w.history }

/-- One action; `none` when nothing can perform it. -/
def step (cfg : Settings) (w : World) : Action → Option World
  | .tick duration => some { w with clock := w.clock + duration }
  | .claim pid task rowLocked =>
    if task ∈ w.broker ∧ (w.passes pid).isNone then some (w.claim pid task rowLocked) else none
  | .pass pid input =>
    (w.passes pid).map fun p => w.afterPass pid (p.advance cfg w.clock w.db input)
  | .crash pid => (w.passes pid).map fun _ => { w with passes := w.passes.set pid none }
  | .request rid r =>
    if (w.processes rid).isNone then some (w.afterProcess rid (r.begin cfg w.clock w.db))
    else none
  | .advance rid input =>
    (w.processes rid).map fun p => w.afterProcess rid (p.advance w.clock w.db input)

/-- Nothing is under way and nothing has happened. -/
structure Initial (w : World) : Prop where
  passes : w.passes = .idle
  processes : w.processes = .idle
  history : w.history = []

end World

/-- The server as a transition system. -/
def server (cfg : Settings) : System World Action := ⟨World.step cfg⟩

end PushIT
