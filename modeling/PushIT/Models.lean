import PushIT.Library.Table

/-!
# The data model

The rows of the applications `applications`, `devices` and `notifications`, with the fields the
modelled code reads or writes, and the database they make up.  Text fields keep the empty string
where the source leaves them blank, nullable columns are options, and every row type carries its
primary key.

Deleting a row deletes the rows that refer to it (`on_delete=CASCADE`), which is what
`Db.deleteNotifications`, `Db.deleteDevices` and `Db.deleteApplications` do.
-/

namespace PushIT

open Relational

/-- Instants, in microseconds since the epoch. -/
abbrev Instant := ℤ

/-- The number of microseconds in `m` minutes. -/
def minutes (m : ℕ) : Instant := m * 60000000

/-- The number of microseconds in `d` days. -/
def days (d : ℕ) : Instant := d * 86400000000

/-- `datetime.time`, in microseconds since midnight. -/
abbrev TimeOfDay := Fin 86400000000

instance TimeOfDay.neZero : NeZero 86400000000 := ⟨by decide⟩

/-- The day, counted from the epoch, and the time of day of a clock that counts microseconds. -/
def dayAndTime (reading : ℤ) : ℤ × TimeOfDay :=
  (reading / 86400000000, ⟨(reading % 86400000000).toNat, by omega⟩)

/-- The current time zone: `timezone.localtime` and `timezone.make_aware`.  A local time with
`fold=1` stands for another instant where the clock shows it twice or skips it. -/
structure TimeZone where
  localtime : Instant → ℤ × TimeOfDay
  makeAware : ℤ → TimeOfDay → Instant
  makeAwareFolded : ℤ → TimeOfDay → Instant := makeAware

/-! ### Choices -/

inductive DeliveryStatus
  | pending
  | sent
  | failed
  deriving DecidableEq, Repr

/-- `NotificationStatus`; `partially` is the source's `PARTIAL`. -/
inductive NotificationStatus
  | draft
  | scheduled
  | queued
  | processing
  | sent
  | failed
  | partially
  | noTarget
  deriving DecidableEq, Repr

inductive DeviceTokenStatus
  | active
  | invalid
  | revoked
  deriving DecidableEq, Repr

inductive DevicePlatform
  | android
  | ios
  deriving DecidableEq, Repr

inductive UnlinkSource
  | deviceButton
  | inbox
  | takeover
  | ownerEviction
  deriving DecidableEq, Repr

inductive QuietPeriodType
  | once
  | recurring
  deriving DecidableEq, Repr

/-! ### Rows -/

structure Application where
  id : ℕ
  ownerId : ℕ
  name : String := ""
  description : String := ""
  isActive : Bool := true
  logo : String := ""
  deriving DecidableEq, Repr

/-- The columns application and device quiet periods share.  Weekday `0` is Monday. -/
structure AbstractQuietPeriod where
  name : String := ""
  periodType : QuietPeriodType := .once
  startAt : Option Instant := none
  endAt : Option Instant := none
  recurrenceDays : List ℕ := []
  startTime : Option TimeOfDay := none
  endTime : Option TimeOfDay := none
  isActive : Bool := true
  deriving DecidableEq, Repr

structure ApplicationQuietPeriod extends AbstractQuietPeriod where
  id : ℕ
  applicationId : ℕ
  deriving DecidableEq, Repr

structure DeviceQuietPeriod extends AbstractQuietPeriod where
  id : ℕ
  deviceId : ℕ
  deriving DecidableEq, Repr

structure Device where
  id : ℕ
  userId : Option ℕ := none
  deviceName : String := ""
  platform : DevicePlatform := .android
  pushToken : String
  pushTokenStatus : DeviceTokenStatus := .active
  lastSeenAt : Option Instant := none
  createdAt : Instant := 0
  isActive : Bool := true
  invalidatedAt : Option Instant := none
  invalidationReason : String := ""
  failureCount : ℕ := 0
  deriving DecidableEq, Repr

/-- `unlinkSource` is `none` where the source stores a blank. -/
structure DeviceApplicationLink where
  id : ℕ
  deviceId : ℕ
  applicationId : ℕ
  isActive : Bool := true
  linkedAt : Instant := 0
  unlinkedAt : Option Instant := none
  unlinkSource : Option UnlinkSource := none
  deriving DecidableEq, Repr

structure Notification where
  id : ℕ
  applicationId : ℕ
  title : String := ""
  message : String := ""
  status : NotificationStatus := .draft
  createdAt : Instant := 0
  scheduledFor : Option Instant := none
  sentAt : Option Instant := none
  processingStartedAt : Option Instant := none
  idempotencyKey : String := ""
  requestFingerprint : String := ""
  isVisible : Bool := true
  deriving DecidableEq, Repr

structure NotificationDelivery where
  id : ℕ
  notificationId : ℕ
  deviceId : ℕ
  status : DeliveryStatus := .pending
  providerMessageId : String := ""
  errorMessage : String := ""
  sentAt : Option Instant := none
  deliveredAt : Option Instant := none
  openedAt : Option Instant := none
  attemptCount : ℕ := 0
  lastAttemptAt : Option Instant := none
  nextRetryAt : Option Instant := none
  deriving DecidableEq, Repr

instance : Keyed Application := ⟨Application.id⟩
instance : Keyed ApplicationQuietPeriod := ⟨ApplicationQuietPeriod.id⟩
instance : Keyed Device := ⟨Device.id⟩
instance : Keyed DeviceQuietPeriod := ⟨DeviceQuietPeriod.id⟩
instance : Keyed DeviceApplicationLink := ⟨DeviceApplicationLink.id⟩
instance : Keyed Notification := ⟨Notification.id⟩
instance : Keyed NotificationDelivery := ⟨NotificationDelivery.id⟩

@[simp] theorem pk_notification (n : Notification) : pk n = n.id := rfl
@[simp] theorem pk_delivery (d : NotificationDelivery) : pk d = d.id := rfl
@[simp] theorem pk_device (d : Device) : pk d = d.id := rfl
@[simp] theorem pk_link (l : DeviceApplicationLink) : pk l = l.id := rfl
@[simp] theorem pk_application (a : Application) : pk a = a.id := rfl
@[simp] theorem pk_deviceQuietPeriod (q : DeviceQuietPeriod) : pk q = q.id := rfl
@[simp] theorem pk_applicationQuietPeriod (q : ApplicationQuietPeriod) : pk q = q.id := rfl

/-! ### The database -/

structure Db where
  applications : Table Application := .empty
  applicationQuietPeriods : Table ApplicationQuietPeriod := .empty
  devices : Table Device := .empty
  deviceQuietPeriods : Table DeviceQuietPeriod := .empty
  links : Table DeviceApplicationLink := .empty
  notifications : Table Notification := .empty
  deliveries : Table NotificationDelivery := .empty

namespace Db

/-- `Notification.objects.filter(p).delete()`: the deliveries go with their notification. -/
def deleteNotifications (db : Db) (p : Notification → Bool) : Db :=
  { db with
    notifications := db.notifications.delete p
    deliveries := db.deliveries.delete fun d =>
      (db.notifications.get? d.notificationId).any p }

/-- `Device.objects.filter(p).delete()`: links, deliveries and quiet periods go with their
device. -/
def deleteDevices (db : Db) (p : Device → Bool) : Db :=
  { db with
    devices := db.devices.delete p
    links := db.links.delete fun l => (db.devices.get? l.deviceId).any p
    deliveries := db.deliveries.delete fun d => (db.devices.get? d.deviceId).any p
    deviceQuietPeriods := db.deviceQuietPeriods.delete fun q =>
      (db.devices.get? q.deviceId).any p }

/-- The cascade of deleting applications: their notifications with the deliveries, their links
and their quiet periods. -/
def deleteApplications (db : Db) (p : Application → Bool) : Db :=
  let gone : ℕ → Bool := fun a => (db.applications.get? a).any p
  let db' := db.deleteNotifications fun n => gone n.applicationId
  { db' with
    applications := db.applications.delete p
    links := db.links.delete fun l => gone l.applicationId
    applicationQuietPeriods := db.applicationQuietPeriods.delete fun q => gone q.applicationId }

end Db

/-! ### Settings, send tasks and the history -/

/-- The settings the modelled code reads. -/
structure Settings where
  timeZone : TimeZone
  notificationProcessingStuckMinutes : ℕ := 15
  retentionNotificationDays : ℕ := 365
  retentionInvalidDeviceDays : ℕ := 30

/-- Who submitted a send task. -/
inductive Submitter
  | client
  | dispatcher
  | retrySweep
  | watchdog
  deriving DecidableEq, Repr

/-- A `send_notification_task` message waiting in the broker. -/
structure SendTask where
  notification : ℕ
  source : Submitter
  deriving DecidableEq, Repr

/-- A row through which a device shows or receives something. -/
inductive Entry
  | link (id : ℕ)
  | delivery (id : ℕ)
  | quietPeriod (id : ℕ)
  deriving DecidableEq, Repr

/-- What a step leaves in the history of a run.  The code keeps no such record: it is what the
properties of whole runs are stated about. -/
inductive Event
  /-- A notification was created with an explicit list of devices. -/
  | created (notification : ℕ) (deviceIds : List ℕ)
  /-- A worker claimed the notification; `due` says whether a retry of it was due. -/
  | claimed (notification : ℕ) (source : Submitter) (due : Bool)
  /-- The provider was called for a delivery, with the token of the loaded device row. -/
  | called (notification delivery device : ℕ) (pushToken : String) (accepted : Bool)
  /-- A delivery was deferred to the end of a device quiet period. -/
  | deferred (notification delivery : ℕ)
  /-- The notification was put back to SCHEDULED by a quiet period of its application. -/
  | postponed (notification : ℕ)
  /-- A device row holding the token `current` was invalidated because the provider rejected
  the token `rejected`. -/
  | invalidated (device : ℕ) (rejected current : String)
  /-- The notification was moved to QUEUED at the given time. -/
  | queued (notification : ℕ) (source : Submitter) (at_ : Instant)
  /-- A PATCH of a future notification was written with this date over a row that had the status
  `found`. -/
  | edited (notification : ℕ) (found : NotificationStatus) (scheduledFor : Instant)
  /-- A DELETE of a future notification removed a row that had the status `found`. -/
  | removed (notification : ℕ) (found : NotificationStatus)
  /-- A device row was merged into another one. -/
  | merged (source target : ℕ)
  /-- The entry was created, or the link activated, while the device row had this owner. -/
  | attached (entry : Entry) (owner : Option ℕ)
  deriving DecidableEq, Repr

end PushIT
