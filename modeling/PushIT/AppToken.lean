import PushIT.Fingerprint
import PushIT.Views
import PushIT.World

/-!
# The app-token endpoints

`create_notification_with_optional_idempotency` and the two endpoints of
`notifications/api_views_app_token.py` that call it, on a database with row locks: the insertion
runs in a savepoint, and a call that loses a race reads the winner's row afterwards.  The calls
and requests run beside the server, whose processes may perform any step between two of theirs.

## Main definitions

* `CreationCall.insert`, `CreationCall.find`: the two statements of a call.
* `AppTokenRequest.begin`, `ApiProcess.advance`: the endpoints.
* `Api`, `Api.step`, `api`: the server with its app-token endpoints.
-/

namespace PushIT

open Relational Transition

/-! ### Idempotent creation -/

/-- `NotificationCreationOutcome`. -/
structure NotificationCreationOutcome where
  notification : Notification
  created : Bool
  conflict : Bool
  deriving DecidableEq, Repr

namespace CreationCall

/-- The row a call inserts. -/
def newNotification (now : Instant) (c : CreationCall) (id : ℕ) : Notification :=
  { id
    applicationId := c.applicationId
    title := c.title
    message := c.message
    status := buildStatusFromScheduledFor c.scheduledFor
    createdAt := now
    scheduledFor := c.scheduledFor
    idempotencyKey := c.idempotencyKey
    requestFingerprint := c.requestFingerprint }

theorem pk_newNotification (now : Instant) (c : CreationCall) (id : ℕ) :
    pk (c.newNotification now id) = id := rfl

/-- The row carries the application and the key of the call. -/
def matches_ (c : CreationCall) (n : Notification) : Bool :=
  n.applicationId == c.applicationId && n.idempotencyKey == c.idempotencyKey

/-- `Notification.objects.get(application=application, idempotency_key=idempotency_key)`. -/
def find (c : CreationCall) (notifications : Table Notification) : Option Notification :=
  notifications.rows.find? c.matches_

/-- The insertion breaks the foreign key, or the unique constraint on application and key. -/
def violates (c : CreationCall) (db : Db) : Bool :=
  (db.applications.get? c.applicationId).isNone ||
    (c.idempotencyKey != "" && (c.find db.notifications).isSome)

/-- `Notification.objects.create` in its savepoint. -/
def insert (now : Instant) (c : CreationCall) (db : Db) : Db :=
  { db with
    notifications := db.notifications.insert (c.newNotification now) (c.pk_newNotification now) }

end CreationCall

/-- How a call ends. -/
inductive CreationResult
  | returned (outcome : NotificationCreationOutcome)
  | raised
  deriving DecidableEq, Repr

/-- The statement a call performs next. -/
inductive CreationStage
  | inserting
  /-- The insertion was rolled back: the row with the key is read. -/
  | reading
  deriving DecidableEq, Repr

/-- A step of a call: the database, and the result or the next statement. -/
structure CreationStep where
  db : Db
  next : Except CreationResult CreationStage

/-- The next statement of a call. -/
def CreationCall.advance (now : Instant) (db : Db) (c : CreationCall) :
    CreationStage → CreationStep
  | .inserting =>
    if c.violates db then
      ⟨db, if c.idempotencyKey = "" then .error .raised else .ok .reading⟩
    else
      ⟨c.insert now db, .error (.returned
        { notification := c.newNotification now (db.notifications.seq + 1)
          created := true
          conflict := false })⟩
  | .reading =>
    match c.find db.notifications with
    | none => ⟨db, .error .raised⟩
    | some n =>
      ⟨db, .error (.returned
        { notification := n
          created := false
          conflict := n.requestFingerprint != c.requestFingerprint })⟩

/-! ### The endpoints -/

/-- What the endpoints depend on: the settings, the hash function and the treatment of dates. -/
structure ApiConfig where
  settings : Settings
  sha256 : ByteArray → String
  dates : DateTimes

inductive Endpoint
  | create
  | send
  deriving DecidableEq, Repr

/-- A request whose token stands for an application; a missing header is the empty key. -/
structure AppTokenRequest where
  endpoint : Endpoint
  applicationId : ℕ
  idempotencyKey : String
  payload : CreatePayload
  deriving DecidableEq, Repr

/-- The answer of an endpoint. -/
inductive AppTokenAnswer
  | notification (httpStatus : ℕ) (body : NotificationRead)
  | error (httpStatus : ℕ) (code detail : String)
  | invalid (errors : ValidationErrors)
  | raised
  deriving DecidableEq

def idempotencyKeyMaxLength : ℕ := 255

def appTokenInvalid : AppTokenAnswer := .error 401 "app_token_invalid" "Invalid app token."

def appTokenInactive : AppTokenAnswer := .error 401 "app_token_inactive" "Inactive application."

def subscriptionRequired : AppTokenAnswer :=
  .error 402 "subscription_required"
    "Un abonnement actif est nécessaire pour envoyer des notifications."

def sendsImmediately : AppTokenAnswer :=
  .error 400 "validation_error"
    ("This endpoint sends immediately; use /notifications/app/create/ with scheduled_for " ++
      "to schedule.")

def idempotencyKeyMissing : AppTokenAnswer :=
  .error 400 "idempotency_key_missing" "Missing Idempotency-Key header."

def idempotencyKeyInvalid : AppTokenAnswer :=
  .error 400 "idempotency_key_invalid"
    ("Idempotency-Key must be at most " ++ toString idempotencyKeyMaxLength ++ " characters.")

def idempotencyConflict : AppTokenAnswer :=
  .error 409 "idempotency_conflict"
    "This idempotency key has already been used with a different payload."

/-- A request after its validation, with the application instance it authenticated as. -/
structure AcceptedRequest where
  request : AppTokenRequest
  application : Application
  call : CreationCall

/-- The part of both endpoints before the creation. -/
def AppTokenRequest.begin (cfg : ApiConfig) (now : Instant) (db : Db)
    (templates : Table NotificationTemplate) (paid : ℕ → Bool) (r : AppTokenRequest) :
    Except AppTokenAnswer AcceptedRequest :=
  match db.applications.get? r.applicationId with
  | none => .error appTokenInvalid
  | some a =>
    if !a.isActive then .error appTokenInactive
    else if !paid a.ownerId then .error subscriptionRequired
    else
      match r.payload.validate cfg.dates templates r.applicationId now with
      | .error errors => .error (.invalid errors)
      | .ok v =>
        let key := strip r.idempotencyKey
        if r.endpoint = .send ∧ v.scheduledFor.join.isSome then .error sendsImmediately
        else if key = "" then .error idempotencyKeyMissing
        else if key.length > idempotencyKeyMaxLength then .error idempotencyKeyInvalid
        else .ok ⟨r, a, v.creation cfg.sha256 cfg.dates.encode r.applicationId key⟩

/-- The body of an answer that shows a notification. -/
def shownNotification (cfg : ApiConfig) (db : Db) (a : Application) (n : Notification) :
    NotificationRead :=
  notificationRead cfg.settings.timeZone db a n (deliveriesOf db n.id)

/-- What is under way: a call on behalf of a request, a call of the mailbox reader, or a request
that queues the notification it created.  `decided` is the stored status after the last statement
of `_try_queue_notification` on the row. -/
inductive ApiProcess
  | creating (request : AcceptedRequest) (stage : CreationStage)
  | ingesting (call : CreationCall) (stage : CreationStage)
  | queueing (request : AcceptedRequest) (notification : ℕ) (run : QueueRequest)
    (decided : Option NotificationStatus)

/-- The `_try_queue_notification` of the notification a send request just created. -/
def sendRun (n : Notification) : QueueRequest :=
  { found := [⟨n, true⟩], todo := [n.id] }

/-- The stored status the queueing goes by after a step. -/
def decidedStatus (notifications : Table Notification) (id : ℕ)
    (decided : Option NotificationStatus) : QueueStage → Option NotificationStatus
  | .submitting _ _ => decided
  | _ => (notifications.get? id).map (·.status)

/-- An answer as the history keeps it: the stored status the queueing went by, and whether a
send task had been submitted for the notification. -/
structure AnswerRecord where
  request : AppTokenRequest
  answer : AppTokenAnswer
  decided : Option NotificationStatus := none
  handed : Bool := false

/-! ### The system -/

/-- The server with its app-token endpoints.  `submitted`, `answers` and `outcomes` are history:
the notifications for which a send task was submitted, the answers given and the results of the
creation calls, the newest first. -/
structure Api where
  world : World
  templates : Table NotificationTemplate := .empty
  paid : ℕ → Bool := fun _ => true
  processes : Pool ApiProcess := .idle
  submitted : List ℕ := []
  answers : List AnswerRecord := []
  outcomes : List (CreationCall × CreationResult) := []

inductive ApiAction
  | server (a : Action)
  /-- Templates are created, changed or deleted. -/
  | editTemplates (templates : Table NotificationTemplate)
  /-- A user's subscription starts or ends. -/
  | subscribe (user : ℕ) (paid : Bool)
  | request (rid : ℕ) (r : AppTokenRequest)
  /-- The mailbox reader creates a notification from a message. -/
  | ingest (rid : ℕ) (c : CreationCall)
  | advance (rid : ℕ) (input : TaskInput)

namespace Api

/-- The notifications of the tasks a step of the server put at the end of the broker's queue. -/
def newlySubmitted (w w' : World) : List ℕ :=
  (w'.broker.drop w.broker.length).map (·.notification)

/-- A process goes on, or ends. -/
def setProcess (s : Api) (rid : ℕ) (p : Option ApiProcess) : Api :=
  { s with processes := s.processes.set rid p }

def setDb (s : Api) (db : Db) : Api := { s with world := { s.world with db } }

/-- An endpoint answers. -/
def answered (s : Api) (rid : ℕ) (record : AnswerRecord) : Api :=
  { s with processes := s.processes.set rid none, answers := record :: s.answers }

/-- A call ended. -/
def recorded (s : Api) (c : CreationCall) (result : CreationResult) : Api :=
  { s with outcomes := (c, result) :: s.outcomes }

/-- The application of the instance a creation returned: a row that was read again loads it. -/
def applicationOf (s : Api) (q : AcceptedRequest) (o : NotificationCreationOutcome) :
    Application :=
  if o.created then q.application
  else (s.world.db.applications.get? o.notification.applicationId).getD q.application

/-- The notification is shown after the creation of a request. -/
def showCreated (cfg : ApiConfig) (s : Api) (rid : ℕ) (q : AcceptedRequest)
    (o : NotificationCreationOutcome) : Api :=
  s.answered rid
    { request := q.request
      answer := .notification (if o.created then 201 else 200)
        (shownNotification cfg s.world.db (s.applicationOf q o) o.notification)
      decided := some o.notification.status
      handed := s.submitted.contains o.notification.id }

/-- The part of both endpoints after the creation. -/
def afterCreation (cfg : ApiConfig) (s : Api) (rid : ℕ) (q : AcceptedRequest) :
    CreationResult → Api
  | .raised => s.answered rid { request := q.request, answer := .raised }
  | .returned o =>
    if o.conflict then s.answered rid { request := q.request, answer := idempotencyConflict }
    else if q.request.endpoint = .send ∧ o.created then
      s.setProcess rid (some (.queueing q o.notification.id (sendRun o.notification) none))
    else s.showCreated cfg rid q o

/-- A statement of the queueing of a created notification. -/
def queueStep (cfg : ApiConfig) (s : Api) (rid : ℕ) (q : AcceptedRequest) (id : ℕ)
    (run : QueueRequest) (decided : Option NotificationStatus) (input : TaskInput) : Api :=
  let o := run.advance s.world.clock s.world.db.notifications input
  let s' : Api :=
    { s with
      world :=
        { s.world with
          db := { s.world.db with notifications := o.notifications }
          broker := s.world.broker ++ o.submitted
          history := o.events.reverse ++ s.world.history }
      submitted := o.submitted.map (·.notification) ++ s.submitted }
  match o.next with
  | some run' =>
    s'.setProcess rid (some (.queueing q id run' (decidedStatus o.notifications id decided
      run.stage)))
  | none =>
    -- the result of the queueing is not looked at
    s'.answered rid
      { request := q.request
        answer := ((run.lookup id).map fun l => AppTokenAnswer.notification 201
          (shownNotification cfg s'.world.db q.application l.notification)).getD .raised
        decided
        handed := s'.submitted.contains id }

/-- The next statement of a process. -/
def advance (cfg : ApiConfig) (s : Api) (rid : ℕ) (input : TaskInput) : ApiProcess → Api
  | .creating q stage =>
    let step := q.call.advance s.world.clock s.world.db stage
    match step.next with
    | .ok stage' => (s.setDb step.db).setProcess rid (some (.creating q stage'))
    | .error result =>
      ((s.setDb step.db).recorded q.call result).afterCreation cfg rid q result
  | .ingesting c stage =>
    let step := c.advance s.world.clock s.world.db stage
    match step.next with
    | .ok stage' => (s.setDb step.db).setProcess rid (some (.ingesting c stage'))
    | .error result => ((s.setDb step.db).recorded c result).setProcess rid none
  | .queueing q id run decided => s.queueStep cfg rid q id run decided input

/-- One action; `none` when nothing can perform it. -/
def step (cfg : ApiConfig) (s : Api) : ApiAction → Option Api
  | .server a => (s.world.step cfg.settings a).map fun w =>
      { s with world := w, submitted := newlySubmitted s.world w ++ s.submitted }
  | .editTemplates templates => some { s with templates }
  | .subscribe user paid =>
    some { s with paid := fun u => if u = user then paid else s.paid u }
  | .request rid r =>
    if (s.processes rid).isNone then
      match r.begin cfg s.world.clock s.world.db s.templates s.paid with
      | .error answer => some (s.answered rid { request := r, answer })
      | .ok q => some (s.setProcess rid (some (.creating q .inserting)))
    else none
  | .ingest rid c =>
    if (s.processes rid).isNone then some (s.setProcess rid (some (.ingesting c .inserting)))
    else none
  | .advance rid input => (s.processes rid).map (s.advance cfg rid input)

end Api

/-- The server and its app-token endpoints as a transition system. -/
def api (cfg : ApiConfig) : System Api ApiAction := ⟨Api.step cfg⟩

end PushIT
