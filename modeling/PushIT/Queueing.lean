import PushIT.Tasks

/-!
# Client requests on notifications

`notifications/api_views.py` and the write serializers of `notifications/serializers.py`: the
send and bulk-send requests, which go through `_try_queue_notification`, and PATCH, DELETE and
soft delete.  A request that reads a row and writes it later is a process with the loaded row in
its local state.

## Main definitions

* `QueueRequest.advance`: a send or bulk-send request.
* `PatchRequest.advance`: a PATCH of a future notification.
* `futureNotification`: the queryset of the future detail view.
-/

namespace PushIT

open Relational

/-! ### Send and bulk send -/

/-- Whose notifications a request may touch: `application__owner=user` on the JWT endpoints,
`application=app` on the app-token endpoints. -/
inductive Caller
  | user (id : ℕ)
  | application (id : ℕ)
  deriving DecidableEq, Repr

/-- The owner of an application row. -/
def Db.applicationOwner (db : Db) (applicationId : ℕ) : Option ℕ :=
  (db.applications.get? applicationId).map (·.ownerId)

/-- The filter a caller's queries carry. -/
def Caller.owns (db : Db) (n : Notification) : Caller → Bool
  | .user id => db.applicationOwner n.applicationId == some id
  | .application id => n.applicationId == id

/-- `ALLOWED_NOTIFICATION_STATUSES_TO_QUEUE`. -/
def allowedNotificationStatusesToQueue : List NotificationStatus :=
  [.draft, .failed, .partially, .scheduled]

/-- A status from which a client may queue a notification. -/
abbrev QueueableStatus := { s : NotificationStatus // s ∈ allowedNotificationStatusesToQueue }

/-- The stored text of a status. -/
def NotificationStatus.value : NotificationStatus → String
  | .draft => "draft"
  | .scheduled => "scheduled"
  | .queued => "queued"
  | .processing => "processing"
  | .sent => "sent"
  | .failed => "failed"
  | .partially => "partial"
  | .noTarget => "no_target"

/-- An entry of the answer: the queued id, or the error with its code and text. -/
inductive QueueResult
  | queued (id : ℕ)
  | error (id : ℕ) (code detail : String)
  deriving DecidableEq, Repr

def notificationNotFound (id : ℕ) : QueueResult :=
  .error id "notification_not_found" "Notification not found."

def applicationInactive (id : ℕ) : QueueResult :=
  .error id "application_inactive"
    "The application is inactive; its notifications cannot be sent."

def notificationNotSendable (id : ℕ) (status : NotificationStatus) : QueueResult :=
  .error id "notification_not_sendable"
    ("Notification " ++ toString id ++ " cannot be queued from status '" ++ status.value ++ "'.")

def notificationQueueUnavailable (id : ℕ) : QueueResult :=
  .error id "notification_queue_unavailable" "Send queue is temporarily unavailable."

/-- A notification instance with its `select_related` application flag. -/
structure LoadedNotification where
  notification : Notification
  applicationIsActive : Bool

/-- The statement `_try_queue_notification` performs next. -/
inductive QueueStage
  /-- The loop takes the next id and checks the loaded instance. -/
  | choosing
  /-- The conditional UPDATE from the status the instance had. -/
  | updating (id : ℕ) (previousStatus : QueueableStatus)
  /-- The UPDATE hit no row: the current status is read for the answer. -/
  | conflicting (id : ℕ)
  /-- The row is QUEUED: the send task is submitted. -/
  | submitting (id : ℕ) (previousStatus : QueueableStatus)
  /-- The submission raised: the status is rolled back. -/
  | rollingBack (id : ℕ) (previousStatus : QueueableStatus)

/-- A send request (one id) or a bulk-send request: the instances found at its start, the ids
still to treat and the entries of the answer so far. -/
structure QueueRequest where
  found : List LoadedNotification
  todo : List ℕ
  stage : QueueStage := .choosing
  results : List QueueResult := []

/-- The rows `_fetch_notification` and the bulk endpoints load: visible rows of the caller. -/
def fetchNotifications (db : Db) (caller : Caller) (ids : List ℕ) : List LoadedNotification :=
  (db.notifications.select fun n => n.isVisible && caller.owns db n && ids.contains n.id).map
    fun n => ⟨n, (db.applications.get? n.applicationId).any (·.isActive)⟩

/-- The checks `_try_queue_notification` makes on the instance before its UPDATE: the refusal,
or the status the UPDATE starts from. -/
def queueCheck (now : Instant) (l : LoadedNotification) : Except QueueResult QueueableStatus :=
  let n := l.notification
  if !l.applicationIsActive then .error (applicationInactive n.id)
  else if n.status = .scheduled ∧ n.scheduledFor.any (fun t => decide (t > now)) then
    .error (notificationNotSendable n.id n.status)
  else if h : n.status ∈ allowedNotificationStatusesToQueue then .ok ⟨n.status, h⟩
  else .error (notificationNotSendable n.id n.status)

/-- The roll-back of a notification whose send task could not be submitted. -/
def restoreStatus (status : NotificationStatus) (n : Notification) : Notification :=
  { n with status }

theorem pk_restoreStatus (status : NotificationStatus) (n : Notification) :
    pk (restoreStatus status n) = pk n := rfl

namespace QueueRequest

/-- The instance `found[nid]`. -/
def lookup (r : QueueRequest) (id : ℕ) : Option LoadedNotification :=
  r.found.find? fun l => l.notification.id == id

/-- The request goes on. -/
def goto (r : QueueRequest) (notifications : Table Notification)
    (submitted : List SendTask := []) (events : List Event := []) : TaskStep QueueRequest :=
  ⟨some r, notifications, submitted, events⟩

/-- The entry of an id is known: take the next one. -/
def answered (r : QueueRequest) (result : QueueResult) : QueueRequest :=
  { r with stage := .choosing, results := r.results ++ [result] }

/-- `notification.status = QUEUED` on the instance in memory. -/
def markFound (r : QueueRequest) (id : ℕ) : QueueRequest :=
  { r with found := r.found.map fun l =>
      if l.notification.id = id then ⟨queueNotification l.notification, l.applicationIsActive⟩
      else l }

/-- One step of a send or bulk-send request. -/
def advance (now : Instant) (notifications : Table Notification) (input : TaskInput)
    (r : QueueRequest) : TaskStep QueueRequest :=
  match r.stage with
  | .choosing =>
    match r.todo with
    | [] => ⟨none, notifications, [], []⟩
    | id :: ids =>
      let r' := { r with todo := ids }
      match r.lookup id with
      | none => (r'.answered (notificationNotFound id)).goto notifications
      | some l =>
        match queueCheck now l with
        | .error result => (r'.answered result).goto notifications
        | .ok status => { r' with stage := .updating id status }.goto notifications
  | .updating id previousStatus =>
    if input.updateFails then
      (r.answered (notificationNotSendable id previousStatus.val)).goto notifications
    else if (notifications.get? id).any fun n => n.status == previousStatus.val then
      { r.markFound id with stage := .submitting id previousStatus }.goto
        (notifications.modify id queueNotification pk_queueNotification) []
        [.queued id .client now]
    else { r with stage := .conflicting id }.goto notifications
  | .conflicting id =>
    match notifications.get? id with
    | none => (r.answered (notificationNotFound id)).goto notifications
    | some n => (r.answered (notificationNotSendable id n.status)).goto notifications
  | .submitting id previousStatus =>
    if input.brokerUp then (r.answered (.queued id)).goto notifications [⟨id, .client⟩]
    else { r with stage := .rollingBack id previousStatus }.goto notifications
  | .rollingBack id previousStatus =>
    (r.answered (notificationQueueUnavailable id)).goto
      (notifications.update (fun n => n.id == id && n.status == .queued)
        (restoreStatus previousStatus.val) (pk_restoreStatus previousStatus.val))

end QueueRequest

/-! ### Future notifications -/

/-- The characters `str.strip` removes. -/
def isPythonSpace (c : Char) : Bool :=
  let k := c.toNat
  (0x09 ≤ k && k ≤ 0x0D) || (0x1C ≤ k && k ≤ 0x20) || k == 0x85 || k == 0xA0 || k == 0x1680 ||
    (0x2000 ≤ k && k ≤ 0x200A) || k == 0x2028 || k == 0x2029 || k == 0x202F || k == 0x205F ||
    k == 0x3000

/-- `str.strip`. -/
def strip (s : String) : String :=
  String.ofList (((s.toList.dropWhile isPythonSpace).reverse.dropWhile isPythonSpace).reverse)

def notificationTitleMaxLength : ℕ := 255
def notificationMessageMaxLength : ℕ := 5000

/-- The body of a PATCH; a field that is not sent is `none`, and a date sent as null is
`some none`. -/
structure PatchData where
  title : Option String := none
  message : Option String := none
  scheduledFor : Option (Option Instant) := none

/-- `validate_title`, after the field trimmed the value. -/
def validTitle (title : String) : Bool :=
  strip title ≠ "" && (strip title).length ≤ notificationTitleMaxLength

/-- `validate_message`, after the field trimmed the value. -/
def validMessage (message : String) : Bool :=
  strip message ≠ "" && (strip message).length ≤ notificationMessageMaxLength

/-- `validate_scheduled_for`. -/
def validScheduledFor (now : Instant) (scheduledFor : Option Instant) : Bool :=
  scheduledFor.all fun t => decide (t > now)

/-- The field validators of the write serializer, on the fields that were sent. -/
def PatchData.valid (now : Instant) (d : PatchData) : Bool :=
  d.title.all validTitle && d.message.all validMessage &&
    d.scheduledFor.all (validScheduledFor now)

/-- The queryset of `NotificationFutureDetailApiView`: scheduled rows of the user whose date is
still ahead. -/
def futureNotification (db : Db) (now : Instant) (user id : ℕ) : Option Notification :=
  (db.notifications.get? id).filter fun n =>
    (Caller.user user).owns db n && n.status == .scheduled &&
      n.scheduledFor.any fun t => decide (t > now)

/-- A PATCH request between its read and its write. -/
inductive PatchRequest
  /-- `get_object` returned the instance; the body is validated next. -/
  | loaded (notification : Notification) (data : PatchData)
  /-- The instance carries the new values, with the date it is saved with. -/
  | saving (notification : Notification) (scheduledFor : Instant)

/-- The row the request holds. -/
def PatchRequest.held : PatchRequest → ℕ
  | .loaded n _ => n.id
  | .saving n _ => n.id

/-- `NotificationFutureUpdateSerializer.update` sets the fields that were sent. -/
def PatchData.apply (d : PatchData) (n : Notification) : Notification :=
  { n with
    title := (d.title.map strip).getD n.title
    message := (d.message.map strip).getD n.message
    scheduledFor := d.scheduledFor.getD n.scheduledFor
    status := .scheduled }

/-- `instance.save(update_fields=["title", "message", "scheduled_for", "status"])`. -/
def saveFuture (instance_ n : Notification) : Notification :=
  { n with
    title := instance_.title
    message := instance_.message
    scheduledFor := instance_.scheduledFor
    status := instance_.status }

theorem pk_saveFuture (instance_ n : Notification) : pk (saveFuture instance_ n) = pk n := rfl

/-- One step of a PATCH request: the validation, then the unconditional write by primary key. -/
def PatchRequest.advance (now : Instant) (notifications : Table Notification) :
    PatchRequest → TaskStep PatchRequest
  | .loaded n data =>
    if data.valid now then
      match (data.apply n).scheduledFor with
      | some d => ⟨some (.saving (data.apply n) d), notifications, [], []⟩
      | none => ⟨none, notifications, [], []⟩
    else ⟨none, notifications, [], []⟩
  | .saving n d =>
    match notifications.get? n.id with
    | some row =>
      ⟨none, notifications.modify n.id (saveFuture n) (pk_saveFuture n), [],
        [.edited n.id row.status d]⟩
    | none => ⟨none, notifications, [], []⟩

/-! ### Soft delete -/

/-- `PENDING_STATUSES` of `NotificationDetailApiView`. -/
def pendingStatuses : List NotificationStatus := [.scheduled, .queued, .processing]

/-- The conditional UPDATE of `NotificationDetailApiView.destroy`. -/
def hideNotification (db : Db) (user id : ℕ) : Db :=
  { db with
    notifications := db.notifications.update
      (fun n => n.id == id && n.isVisible && (Caller.user user).owns db n &&
        !pendingStatuses.contains n.status)
      (fun n => { n with isVisible := false }) (fun _ => rfl) }

end PushIT
