import PushIT.Queueing

/-!
# Devices

`devices/api_views_app_token.py`, `devices/api_views.py` and the requests of the other
applications that write devices, links or quiet periods.  The upsert of a device runs in one
transaction that locks the device rows it reads, so it is one step; linking adds a second
transaction, and the unlinking endpoints read a link before they write it.

## Main definitions

* `upsertAuthenticatedDevice`: identification, takeover, token rotation and merge.
* `getOrCreateLink`, `ownActiveLink`, `subscriberLink`: linking, unlinking and eviction.
* `purgeExpiredPersonalData`, `deleteUserAccount`: the bulk deletions.
-/

namespace PushIT

open Relational

/-! ### Identification -/

/-- The validated body of an identify or link request. -/
structure DeviceData where
  pushToken : String
  previousPushToken : String := ""
  deviceName : String := ""
  platform : DevicePlatform := .android
  pushToken_length : 20 ≤ pushToken.length ∧ pushToken.length ≤ 512
  previousPushToken_length : previousPushToken.length ≤ 512 := by decide
  deviceName_length : deviceName.length ≤ 120 := by decide

theorem DeviceData.blank_previousPushToken : "".length ≤ 512 := by decide

theorem DeviceData.blank_deviceName : "".length ≤ 120 := by decide

/-- `_select_existing_device`. -/
def selectExistingDevice (db : Db) (pushToken : String) : Option Device :=
  db.devices.rows.find? fun d => d.pushToken == pushToken

/-- The fields `_apply_device_fields` sets on the device. -/
def applyDeviceFields (now : Instant) (user : ℕ) (data : DeviceData) (d : Device) : Device :=
  { d with
    userId := some user
    deviceName := data.deviceName
    platform := data.platform
    pushTokenStatus := .active
    isActive := true
    invalidatedAt := none
    invalidationReason := ""
    failureCount := 0
    lastSeenAt := some now }

theorem pk_applyDeviceFields (now : Instant) (user : ℕ) (data : DeviceData) (d : Device) :
    pk (applyDeviceFields now user data d) = pk d := rfl

/-- A link that is switched off, with its audit. -/
def deactivateLink (now : Instant) (source : UnlinkSource) (l : DeviceApplicationLink) :
    DeviceApplicationLink :=
  { l with isActive := false, unlinkedAt := some now, unlinkSource := some source }

/-- A link that is switched on again carries no audit. -/
def activateLink (l : DeviceApplicationLink) : DeviceApplicationLink :=
  { l with isActive := true, unlinkedAt := none, unlinkSource := none }

/-- The device belongs to a user, and to another one than `user`. -/
def Device.isForeign (d : Device) (user : ℕ) : Bool := d.userId.any fun u => u != user

/-- The links `_apply_device_fields` switches off when the device changes hands. -/
def Db.takeOverLinks (db : Db) (now : Instant) (user : ℕ) (d : Device) : Db :=
  if d.isForeign user then
    { db with
      links := db.links.update (fun l => l.deviceId == d.id && l.isActive)
        (deactivateLink now .takeover) (fun _ => rfl) }
  else db

/-- `_apply_device_fields` and the save of a device that exists. -/
def Db.refreshDevice (db : Db) (now : Instant) (user : ℕ) (data : DeviceData) (d : Device) : Db :=
  let db' := db.takeOverLinks now user d
  { db' with devices := db'.devices.modify d.id (applyDeviceFields now user data) (fun _ => rfl) }

section RefreshDevice

variable (db : Db) (now : Instant) (user : ℕ) (data : DeviceData) (d : Device)

@[simp] theorem Db.seq_devices_refreshDevice :
    (db.refreshDevice now user data d).devices.seq = db.devices.seq := by
  unfold refreshDevice takeOverLinks
  split <;> rfl

@[simp] theorem Db.deliveries_refreshDevice :
    (db.refreshDevice now user data d).deliveries = db.deliveries := by
  unfold refreshDevice takeOverLinks
  split <;> rfl

@[simp] theorem Db.notifications_refreshDevice :
    (db.refreshDevice now user data d).notifications = db.notifications := by
  unfold refreshDevice takeOverLinks
  split <;> rfl

@[simp] theorem Db.deviceQuietPeriods_refreshDevice :
    (db.refreshDevice now user data d).deviceQuietPeriods = db.deviceQuietPeriods := by
  unfold refreshDevice takeOverLinks
  split <;> rfl

end RefreshDevice

/-! ### Merging -/

/-- The link of `source` goes to `target`, which has none to the application. -/
def linkMoves (db : Db) (source target : ℕ) (l : DeviceApplicationLink) : Bool :=
  l.deviceId == source && !db.links.rows.any fun t =>
    t.deviceId == target && t.applicationId == l.applicationId

/-- The link of `target` is switched on because that of `source` was. -/
def linkRevives (db : Db) (source target : ℕ) (t : DeviceApplicationLink) : Bool :=
  t.deviceId == target && !t.isActive && db.links.rows.any fun l =>
    l.deviceId == source && l.isActive && l.applicationId == t.applicationId

/-- The delivery of `source` goes to `target`, which has none of the notification. -/
def deliveryMoves (db : Db) (source target : ℕ) (d : NotificationDelivery) : Bool :=
  d.deviceId == source && !db.deliveries.rows.any fun t =>
    t.deviceId == target && t.notificationId == d.notificationId

/-- A link after the merge of `source` into `target`. -/
def mergeLink (db : Db) (source target : ℕ) (l : DeviceApplicationLink) : DeviceApplicationLink :=
  if linkMoves db source target l then { l with deviceId := target } else activateLink l

theorem pk_moveDelivery (target : ℕ) (d : NotificationDelivery) :
    pk { d with deviceId := target } = pk d :=
  rfl

theorem pk_moveDeviceQuietPeriod (target : ℕ) (q : DeviceQuietPeriod) :
    pk { q with deviceId := target } = pk q :=
  rfl

/-- The part of `_merge_device_into` before `source.delete()`. -/
def Db.moveDependents (db : Db) (source target : ℕ) : Db :=
  { db with
    links := db.links.update
      (fun l => linkMoves db source target l || linkRevives db source target l)
      (mergeLink db source target) (fun l => by
        unfold mergeLink
        split <;> rfl)
    deliveries := db.deliveries.update (deliveryMoves db source target)
      (fun d => { d with deviceId := target }) (pk_moveDelivery target)
    deviceQuietPeriods := db.deviceQuietPeriods.update (fun q => q.deviceId == source)
      (fun q => { q with deviceId := target }) (pk_moveDeviceQuietPeriod target) }

/-- `_merge_device_into`. -/
def Db.mergeDeviceInto (db : Db) (source target : ℕ) : Db :=
  (db.moveDependents source target).deleteDevices fun d => d.id == source

/-- The history of a merge: the rows that became one, and the links it switched on. -/
def mergeEvents (db : Db) (source target : ℕ) : List Event :=
  .merged source target ::
    (db.links.select (linkRevives db source target)).map fun t =>
      .attached (.link t.id) (db.ownerOf target)

/-! ### Rotation and upsert -/

/-- What an upsert leaves: the database, the device and whether it is new. -/
structure Upsert where
  db : Db
  deviceId : ℕ
  created : Bool := false
  events : List Event := []

/-- The device a rotation writes. -/
def rotateDevice (now : Instant) (user : ℕ) (data : DeviceData) (d : Device) : Device :=
  { applyDeviceFields now user data d with pushToken := data.pushToken }

theorem pk_rotateDevice (now : Instant) (user : ℕ) (data : DeviceData) (d : Device) :
    pk (rotateDevice now user data d) = pk d := rfl

/-- The save at the end of `_rotate_push_token`. -/
def Db.saveRotated (db : Db) (now : Instant) (user : ℕ) (data : DeviceData) (id : ℕ) : Db :=
  { db with devices := db.devices.modify id (rotateDevice now user data) (fun _ => rfl) }

/-- `_rotate_push_token`. -/
def rotatePushToken (now : Instant) (db : Db) (user : ℕ) (data : DeviceData) : Option Upsert :=
  if data.previousPushToken = "" ∨ data.previousPushToken = data.pushToken then none
  else match selectExistingDevice db data.previousPushToken with
    | none => none
    | some old =>
      if old.userId ≠ some user then none
      else match selectExistingDevice db data.pushToken with
        | none => some { db := db.saveRotated now user data old.id, deviceId := old.id }
        | some clash =>
          if clash.isForeign user then none
          else some
            { db := (db.mergeDeviceInto clash.id old.id).saveRotated now user data old.id
              deviceId := old.id
              events := mergeEvents db clash.id old.id }

/-- A device created for a push token. -/
def newDevice (now : Instant) (user : ℕ) (data : DeviceData) (id : ℕ) : Device :=
  applyDeviceFields now user data { id, pushToken := data.pushToken, createdAt := now }

theorem pk_newDevice (now : Instant) (user : ℕ) (data : DeviceData) (id : ℕ) :
    pk (newDevice now user data id) = id := rfl

/-- `_upsert_authenticated_device`. -/
def upsertAuthenticatedDevice (now : Instant) (db : Db) (user : ℕ) (data : DeviceData) : Upsert :=
  match rotatePushToken now db user data with
  | some rotated => rotated
  | none =>
    match selectExistingDevice db data.pushToken with
    | some d => { db := db.refreshDevice now user data d, deviceId := d.id }
    | none =>
      { db := { db with devices := db.devices.insert (newDevice now user data) (fun _ => rfl) }
        deviceId := db.devices.seq + 1
        created := true }

/-! ### Links -/

/-- A fresh active link. -/
def newLink (now : Instant) (deviceId applicationId id : ℕ) : DeviceApplicationLink :=
  { id, deviceId, applicationId, linkedAt := now }

/-- The second transaction of a link request: `get_or_create`, then the reactivation.  A device
or application that is gone by then violates the foreign key. -/
def getOrCreateLink (now : Instant) (db : Db) (deviceId applicationId : ℕ) : Db × List Event :=
  match db.links.rows.find? fun l => l.deviceId == deviceId && l.applicationId == applicationId with
  | some l =>
    if l.isActive then (db, [])
    else ({ db with links := db.links.modify l.id activateLink (fun _ => rfl) },
      [.attached (.link l.id) (db.ownerOf deviceId)])
  | none =>
    if (db.devices.get? deviceId).isSome && (db.applications.get? applicationId).isSome then
      ({ db with links := db.links.insert (newLink now deviceId applicationId) (fun _ => rfl) },
        [.attached (.link (db.links.seq + 1)) (db.ownerOf deviceId)])
    else (db, [])

/-- The active link the two unlink endpoints find for a push token of the caller. -/
def ownActiveLink (db : Db) (user : ℕ) (pushToken : String) (applicationId : ℕ) :
    Option DeviceApplicationLink :=
  (db.devices.rows.find? fun d => d.pushToken == pushToken && d.userId == some user).bind fun d =>
    db.links.rows.find? fun l =>
      l.deviceId == d.id && l.applicationId == applicationId && l.isActive

/-- The active link `ApplicationDeviceEvictApiView` finds for an application of the caller. -/
def subscriberLink (db : Db) (user applicationId deviceId : ℕ) : Option DeviceApplicationLink :=
  if db.applicationOwner applicationId = some user then
    (db.links.rows.find? fun l =>
      l.deviceId == deviceId && l.applicationId == applicationId).filter (·.isActive)
  else none

/-- The save of an unlinking request, by the primary key of the link it read. -/
def Db.saveUnlinked (db : Db) (now : Instant) (source : UnlinkSource) (linkId : ℕ) : Db :=
  { db with links := db.links.modify linkId (deactivateLink now source) (fun _ => rfl) }

/-! ### Quiet periods -/

/-- Whether a user owns a device row. -/
def Db.ownsDevice (db : Db) (user deviceId : ℕ) : Bool :=
  (db.devices.get? deviceId).any fun d => d.userId == some user

/-- A quiet period created on a device of the caller. -/
def Db.createDeviceQuietPeriod (db : Db) (user deviceId : ℕ) (q : AbstractQuietPeriod) :
    Db × List Event :=
  if db.ownsDevice user deviceId then
    ({ db with
        deviceQuietPeriods := db.deviceQuietPeriods.insert
          (fun id => { q with id, deviceId }) (fun _ => rfl) },
      [.attached (.quietPeriod (db.deviceQuietPeriods.seq + 1)) (some user)])
  else (db, [])

/-- The values a PATCH of a device quiet period saves. -/
def Db.updateDeviceQuietPeriod (db : Db) (user id : ℕ) (q : AbstractQuietPeriod) : Db :=
  { db with
    deviceQuietPeriods := db.deviceQuietPeriods.update
      (fun r => r.id == id && db.ownsDevice user r.deviceId)
      (fun r => { r with toAbstractQuietPeriod := q }) (fun _ => rfl) }

/-- The deletion of a quiet period of a device of the caller. -/
def Db.deleteDeviceQuietPeriod (db : Db) (user id : ℕ) : Db :=
  { db with
    deviceQuietPeriods := db.deviceQuietPeriods.delete fun r =>
      r.id == id && db.ownsDevice user r.deviceId }

/-! ### Deletions -/

/-- `DELETE` of a device by its owner. -/
def Db.destroyDevice (db : Db) (user id : ℕ) : Db :=
  db.deleteDevices fun d => d.id == id && d.userId == some user

/-- A notification `purge_expired_personal_data` deletes. -/
def notificationExpired (cfg : Settings) (now : Instant) (n : Notification) : Bool :=
  decide (n.createdAt < now - days cfg.retentionNotificationDays) &&
    !pendingStatuses.contains n.status

/-- A device `purge_expired_personal_data` deletes. -/
def deviceExpired (cfg : Settings) (now : Instant) (d : Device) : Bool :=
  (d.pushTokenStatus == .invalid || d.pushTokenStatus == .revoked) &&
    match d.invalidatedAt with
    | some t => decide (t < now - days cfg.retentionInvalidDeviceDays)
    | none => decide (d.createdAt < now - days cfg.retentionInvalidDeviceDays)

/-- `purge_expired_personal_data`. -/
def purgeExpiredPersonalData (cfg : Settings) (now : Instant) (db : Db) : Db :=
  (db.deleteNotifications (notificationExpired cfg now)).deleteDevices (deviceExpired cfg now)

/-- `delete_user_account`: the devices, then the applications by the cascade from the user. -/
def deleteUserAccount (db : Db) (user : ℕ) : Db :=
  (db.deleteDevices fun d => d.userId == some user).deleteApplications fun a => a.ownerId == user

end PushIT
