import PushIT.Devices

/-!
# Creating notifications

`NotificationCreateSerializer` stores the devices the creator selected as delivery rows; the
app-token endpoints create a notification without rows, which is a broadcast.

## Main definitions

* `createNotification`: creation through the JWT API, with an explicit list of devices.
* `createBroadcast`: creation through the app-token API, without an idempotency key.
-/

namespace PushIT

open Relational

/-- The text and date of a new notification. -/
structure NotificationData where
  title : String
  message : String
  scheduledFor : Option Instant := none

/-- The field validators of the write serializers. -/
def NotificationData.valid (now : Instant) (data : NotificationData) : Bool :=
  validTitle data.title && validMessage data.message && validScheduledFor now data.scheduledFor

/-- `build_status_from_scheduled_for`. -/
def buildStatusFromScheduledFor (scheduledFor : Option Instant) : NotificationStatus :=
  if scheduledFor.isSome then .scheduled else .draft

/-- A new notification row. -/
def newNotification (now : Instant) (applicationId : ℕ) (data : NotificationData) (id : ℕ) :
    Notification :=
  { id
    applicationId
    title := strip data.title
    message := strip data.message
    status := buildStatusFromScheduledFor data.scheduledFor
    createdAt := now
    scheduledFor := data.scheduledFor }

theorem pk_newNotification (now : Instant) (applicationId : ℕ) (data : NotificationData)
    (id : ℕ) : pk (newNotification now applicationId data id) = id := rfl

/-- The application as the serializer looks it up: owned by the caller and active. -/
def ownActiveApplication (db : Db) (user applicationId : ℕ) : Bool :=
  (db.applications.get? applicationId).any fun a => a.ownerId == user && a.isActive

/-- A device `NotificationCreateSerializer` accepts as a target. -/
def isTargetable (db : Db) (applicationId deviceId : ℕ) : Bool :=
  ((db.devices.get? deviceId).any fun d => d.pushTokenStatus == .active && d.isActive) &&
    db.links.rows.any fun l =>
      l.deviceId == deviceId && l.applicationId == applicationId && l.isActive

/-- The checks of `NotificationCreateSerializer.validate` on the list of devices, and the list
without its repetitions. -/
def normalizedDeviceIds (db : Db) (applicationId : ℕ) (deviceIds : List ℕ) : Option (List ℕ) :=
  let ids := deviceIds.eraseDups
  if ids ≠ [] ∧ ∀ k ∈ ids, isTargetable db applicationId k = true then some ids else none

theorem isSome_of_normalizedDeviceIds {db : Db} {applicationId : ℕ} {deviceIds ids : List ℕ}
    (h : normalizedDeviceIds db applicationId deviceIds = some ids) :
    ∀ k ∈ ids, (db.devices.get? k).isSome := by
  unfold normalizedDeviceIds at h
  simp only [Option.ite_none_right_eq_some, Option.some.injEq] at h
  obtain ⟨⟨-, hall⟩, rfl⟩ := h
  intro k hk
  have htargetable := hall k hk
  simp only [isTargetable, Bool.and_eq_true] at htargetable
  obtain ⟨d, hd, -⟩ := (Option.any_eq_true _ _).mp htargetable.1
  simp [hd]

/-- `NotificationCreateSerializer.create`: the notification and its deliveries in one
transaction. -/
def Db.insertTargeted (db : Db) (now : Instant) (applicationId : ℕ) (deviceIds : List ℕ)
    (data : NotificationData) : Db :=
  { db with
    notifications := db.notifications.insert (newNotification now applicationId data)
      (pk_newNotification now applicationId data)
    deliveries := db.deliveries.insertAll (newDelivery (db.notifications.seq + 1))
      (fun _ _ => rfl) deviceIds }

/-- A create request on the JWT API; a refused one leaves the database as it is. -/
def createNotification (now : Instant) (db : Db) (user applicationId : ℕ) (deviceIds : List ℕ)
    (data : NotificationData) : Db × List Event :=
  if ownActiveApplication db user applicationId && data.valid now then
    match normalizedDeviceIds db applicationId deviceIds with
    | some ids =>
      let db' := db.insertTargeted now applicationId ids data
      (db', .created (db.notifications.seq + 1) ids :: deliveriesAttached db db')
    | none => (db, [])
  else (db, [])

/-- A create request is refused, or inserts the notification with its deliveries. -/
theorem createNotification_cases (now : Instant) (db : Db) (user applicationId : ℕ)
    (deviceIds : List ℕ) (data : NotificationData) :
    createNotification now db user applicationId deviceIds data = (db, []) ∨
    ∃ ids, normalizedDeviceIds db applicationId deviceIds = some ids ∧
      createNotification now db user applicationId deviceIds data =
        (db.insertTargeted now applicationId ids data,
          .created (db.notifications.seq + 1) ids ::
            deliveriesAttached db (db.insertTargeted now applicationId ids data)) := by
  unfold createNotification
  split
  · cases h : normalizedDeviceIds db applicationId deviceIds with
    | none => exact Or.inl rfl
    | some ids => exact Or.inr ⟨ids, rfl, rfl⟩
  · exact Or.inl rfl

/-- The notifications after a creation: the old ones and the new one. -/
theorem mem_notifications_insertTargeted {db : Db} {now : Instant} {applicationId : ℕ}
    {deviceIds : List ℕ} {data : NotificationData} {n : Notification} :
    n ∈ (db.insertTargeted now applicationId deviceIds data).notifications.rows ↔
      n ∈ db.notifications.rows ∨
        n = newNotification now applicationId data (db.notifications.seq + 1) := by
  change n ∈ (db.notifications.insert (newNotification now applicationId data)
    (pk_newNotification now applicationId data)).rows ↔ _
  exact Table.mem_insert

/-- A create request on the app-token API, without an idempotency key. -/
def createBroadcast (now : Instant) (db : Db) (applicationId : ℕ) (data : NotificationData) :
    Db :=
  if ((db.applications.get? applicationId).any (·.isActive)) && data.valid now then
    { db with
      notifications := db.notifications.insert (newNotification now applicationId data)
        (pk_newNotification now applicationId data) }
  else db

end PushIT
