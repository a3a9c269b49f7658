import PushIT.Views
import PushIT.Sending

/-!
# What the console shows of subscribers

The owner of an application sees the devices linked to it, with the links to their own
applications and the notifications these sent to the device.  The querysets join the links,
notifications and deliveries of all owners, and what an owner reads of a device of somebody else
does not depend on the rows of other owners.

## Main definitions

* `SameForOwner`: two databases that differ in the rows of other owners.
* `ConsoleViewsAgree`: an owner gets the same answers from both.

## Main results

* `console_views_agree`: they do.
-/

namespace PushIT

open Relational

/-- The link is to an application of the user. -/
def Db.ownsLink (db : Db) (user : ℕ) (l : DeviceApplicationLink) : Bool :=
  db.applicationOwner l.applicationId == some user

/-- The delivery is of a notification of the user. -/
def Db.ownsDelivery (db : Db) (user : ℕ) (d : NotificationDelivery) : Bool :=
  (db.notifications.get? d.notificationId).any fun n => (Caller.user user).owns db n

/-- The databases differ at most in the applications of other owners, and the links to these,
their notifications and the deliveries of these. -/
structure SameForOwner (user : ℕ) (db db' : Db) : Prop where
  devices : db'.devices = db.devices
  applications : db'.applications.select (fun a => a.ownerId == user) =
    db.applications.select fun a => a.ownerId == user
  links : db'.links.select (db'.ownsLink user) = db.links.select (db.ownsLink user)
  notifications : db'.notifications.select (fun n => (Caller.user user).owns db' n) =
    db.notifications.select fun n => (Caller.user user).owns db n
  deliveries : db'.deliveries.select (db'.ownsDelivery user) =
    db.deliveries.select (db.ownsDelivery user)

/-- The entry, without its links if the device is the user's own. -/
def DeviceRead.maskMine (x : DeviceRead) : DeviceRead :=
  if x.isMine then { x with applicationIds := [], unlinkedApplications := [] } else x

/-- What an answer says about devices of others. -/
def ViewResponse.maskMine : ViewResponse → ViewResponse
  | .devices l => .devices (l.map DeviceRead.maskMine)
  | r => r

/-- An owner gets the same answers about the devices of others. -/
structure ConsoleViewsAgree (tz : TimeZone) (lower : String → String) (now : Instant)
    (user : ℕ) (db db' : Db) : Prop where
  devices : ∀ page, ((ViewRequest.devices user page).respond tz lower now db').maskMine =
    ((ViewRequest.devices user page).respond tz lower now db).maskMine
  device : ∀ id, (∀ d, db.devices.get? id = some d → d.userId ≠ some user) →
    (ViewRequest.device user id).respond tz lower now db' =
      (ViewRequest.device user id).respond tz lower now db
  deviceNotifications : ∀ id applicationId page,
    (ViewRequest.deviceNotifications user id applicationId page).respond tz lower now db' =
      (ViewRequest.deviceNotifications user id applicationId page).respond tz lower now db

/-! ### Rows of the owner -/

namespace SameForOwner

variable {user : ℕ} {db db' : Db}

/-- The look-up of an application of the owner. -/
theorem application (h : SameForOwner user db db') (id : ℕ) :
    (db'.applications.get? id).filter (fun a => a.ownerId == user) =
      (db.applications.get? id).filter fun a => a.ownerId == user := by
  rw [Table.filter_get?, Table.filter_get?, h.applications]

/-- An application of the owner is the same row in both. -/
theorem get?_application (h : SameForOwner user db db') {id : ℕ}
    (howner : db.applicationOwner id = some user) :
    db'.applications.get? id = db.applications.get? id := by
  obtain ⟨a, ha, howner⟩ := Option.map_eq_some_iff.mp howner
  have happlication := h.application id
  rw [ha, Option.filter_some, if_pos (by simpa using howner)] at happlication
  rw [ha, (Option.filter_eq_some_iff.mp happlication).1]

theorem applicationOwner (h : SameForOwner user db db') (id : ℕ) :
    (db'.applicationOwner id == some user) = (db.applicationOwner id == some user) := by
  have howner : ∀ e : Db, (e.applicationOwner id == some user) =
      ((e.applications.get? id).filter fun a => a.ownerId == user).isSome := by
    intro e
    unfold Db.applicationOwner
    cases e.applications.get? id with
    | none => rfl
    | some a => by_cases hown : a.ownerId = user <;> simp [hown, Option.filter]
  rw [howner, howner, h.application]

theorem ownsLink (h : SameForOwner user db db') : db'.ownsLink user = db.ownsLink user :=
  funext fun l => h.applicationOwner l.applicationId

theorem owns (h : SameForOwner user db db') :
    (fun n => (Caller.user user).owns db' n) = fun n => (Caller.user user).owns db n :=
  funext fun n => h.applicationOwner n.applicationId

/-- A selection of links to applications of the owner. -/
theorem selectLinks (h : SameForOwner user db db') {p : DeviceApplicationLink → Bool}
    (hp : ∀ l, p l = true → db.ownsLink user l = true) :
    db'.links.select p = db.links.select p :=
  Table.select_congr h.links (fun _ _ => rfl) (fun l _ => hp l)
    fun l _ hl => by rw [h.ownsLink]; exact hp l hl

theorem deviceAccess (h : SameForOwner user db db') :
    deviceAccess db' user = deviceAccess db user := by
  funext d
  have hany : ∀ e : Db, e.links.rows.any (fun l => l.deviceId == d.id && l.isActive &&
        e.applicationOwner l.applicationId == some user) =
      (e.links.select fun l => l.deviceId == d.id && l.isActive &&
        e.ownsLink user l).any fun _ => true :=
    fun e => Table.any_rows e.links _
  unfold PushIT.deviceAccess
  rw [hany, hany, h.ownsLink, h.selectLinks fun l hl => (Bool.and_eq_true_iff.mp hl).2]

/-- The links an owner sees of the device of somebody else. -/
theorem visibleLinks (h : SameForOwner user db db') {d : Device} (hd : d.userId ≠ some user) :
    visibleLinks db' user d = visibleLinks db user d := by
  have hlinks : ∀ e : Db, e.ownsLink user = db.ownsLink user →
      (applicationLinksOf e d.id).filter (fun l => l.application.ownerId == user) =
        (e.links.select fun l => db.ownsLink user l && l.deviceId == d.id).filterMap fun l =>
          ((e.applications.get? l.applicationId).filter fun a => a.ownerId == user).map
            fun a => ⟨l, a⟩ := by
    intro e howns
    have hselect : e.links.select (fun l => e.ownsLink user l && l.deviceId == d.id) =
        (e.links.select fun l => l.deviceId == d.id).filter fun l =>
          e.ownsLink user l && l.deviceId == d.id :=
      Table.select_of_select fun l _ hl => (Bool.and_eq_true_iff.mp hl).2
    rw [← howns, hselect, applicationLinksOf, List.filter_filterMap, List.filterMap_filter]
    refine List.filterMap_congr fun l hl => ?_
    have hdevice : (l.deviceId == d.id) = true := (Table.mem_select.mp hl).2
    simp only [Db.ownsLink, Db.applicationOwner, hdevice]
    cases e.applications.get? l.applicationId with
    | none => rfl
    | some a => by_cases hown : a.ownerId = user <;> simp [hown, Option.filter]
  unfold PushIT.visibleLinks
  rw [if_neg hd, if_neg hd, hlinks db' h.ownsLink, hlinks db rfl,
    h.selectLinks fun l hl => (Bool.and_eq_true_iff.mp hl).1]
  simp only [h.application]

theorem ownerNotifications (h : SameForOwner user db db') :
    ownerNotifications db' user = ownerNotifications db user := by
  unfold PushIT.ownerNotifications
  rw [Table.select_congr h.notifications (fun n _ => by rw [congrFun h.owns n])
    (fun n _ hn => (Bool.and_eq_true_iff.mp hn).2) fun n _ hn => (Bool.and_eq_true_iff.mp hn).2]

/-- The deliveries of a notification of the owner. -/
theorem deliveriesOf (h : SameForOwner user db db') {n : Notification}
    (hn : n ∈ PushIT.ownerNotifications db user) :
    deliveriesOf db' n.id = deliveriesOf db n.id := by
  have howns : ∀ e : Db, n ∈ PushIT.ownerNotifications e user →
      ∀ d : NotificationDelivery, (d.notificationId == n.id) = true →
        e.ownsDelivery user d = true := by
    intro e hmem d hd
    obtain ⟨hrow, hp⟩ := Table.mem_select.mp (List.mem_reverse.mp hmem)
    have hget : e.notifications.get? d.notificationId = some n :=
      Table.get?_eq_some.mpr ⟨hrow, (by simpa using hd : d.notificationId = n.id).symm⟩
    simp [Db.ownsDelivery, hget, (Bool.and_eq_true_iff.mp hp).2]
  exact Table.select_congr h.deliveries (fun _ _ => rfl) (fun d _ => howns db hn d)
    fun d _ => howns db' (h.ownerNotifications.symm ▸ hn) d

/-- The notifications of the owner have the same applications. -/
theorem withApplications (h : SameForOwner user db db') {ns : List Notification}
    (hns : ∀ n ∈ ns, n ∈ PushIT.ownerNotifications db user) :
    withApplications db' ns = withApplications db ns := by
  refine List.filterMap_congr fun n hn => ?_
  obtain ⟨-, hp⟩ := Table.mem_select.mp (List.mem_reverse.mp (hns n hn))
  have howner : db.applicationOwner n.applicationId = some user := by
    simpa [Caller.owns] using (Bool.and_eq_true_iff.mp hp).2
  rw [h.get?_application howner]

end SameForOwner

/-! ### Answers -/

section Answers

variable {tz : TimeZone} {lower : String → String} {now : Instant} {user : ℕ} {db db' : Db}

/-- An entry about the device of somebody else. -/
theorem SameForOwner.deviceRead (h : SameForOwner user db db') {d : Device}
    (hd : d.userId ≠ some user) :
    PushIT.deviceRead lower db' user d = PushIT.deviceRead lower db user d := by
  unfold PushIT.deviceRead
  rw [h.visibleLinks hd]

theorem SameForOwner.maskMine_deviceRead (h : SameForOwner user db db') (d : Device) :
    (PushIT.deviceRead lower db' user d).maskMine =
      (PushIT.deviceRead lower db user d).maskMine := by
  by_cases hd : d.userId = some user
  · simp [DeviceRead.maskMine, PushIT.deviceRead, hd]
  · rw [h.deviceRead hd]

theorem SameForOwner.accessibleDevices (h : SameForOwner user db db') :
    PushIT.accessibleDevices db' user = PushIT.accessibleDevices db user := by
  unfold PushIT.accessibleDevices
  rw [h.devices, h.deviceAccess]

theorem SameForOwner.accessibleDevice (h : SameForOwner user db db') (id : ℕ) :
    PushIT.accessibleDevice db' user id = PushIT.accessibleDevice db user id := by
  unfold PushIT.accessibleDevice
  rw [h.devices, h.deviceAccess]

/-- The notifications of the owner that were delivered to a device. -/
theorem SameForOwner.deviceNotifications (h : SameForOwner user db db') (device : Device)
    (applicationId : Option ℕ) :
    PushIT.deviceNotifications db' user device applicationId =
      PushIT.deviceNotifications db user device applicationId := by
  unfold PushIT.deviceNotifications
  rw [h.ownerNotifications]
  refine List.filter_congr fun n hn => ?_
  rw [deviceDeliveries, deviceDeliveries, h.deliveriesOf hn]

theorem SameForOwner.deviceNotificationsResponse (h : SameForOwner user db db') (id : ℕ)
    (applicationId : Option ℕ) (page : PageNumber) :
    PushIT.deviceNotificationsResponse db' user id applicationId page =
      PushIT.deviceNotificationsResponse db user id applicationId page := by
  unfold PushIT.deviceNotificationsResponse
  rw [h.accessibleDevice]
  cases PushIT.accessibleDevice db user id with
  | none => rfl
  | some device =>
    have hmem : ∀ n ∈ PushIT.deviceNotifications db user device applicationId,
        n ∈ PushIT.ownerNotifications db user := fun n hn => List.mem_of_mem_filter hn
    simp only [h.deviceNotifications, h.withApplications hmem]
    refine congrArg (fun rows => ViewResponse.deviceNotifications (paginate _ page rows)) ?_
    refine List.map_congr_left fun ⟨a, n⟩ hpair => ?_
    obtain ⟨n', hn, hmap⟩ := List.mem_filterMap.mp hpair
    obtain ⟨a', -, heq⟩ := Option.map_eq_some_iff.mp hmap
    obtain ⟨rfl, rfl⟩ := Prod.mk.inj heq
    simp only [deviceDeliveries, h.deliveriesOf (hmem n' hn)]

end Answers

/-- Two databases that differ in the rows of other owners give an owner the same answers about
the devices of others. -/
theorem console_views_agree (tz : TimeZone) (lower : String → String) (now : Instant)
    {user : ℕ} {db db' : Db} (h : SameForOwner user db db') :
    ConsoleViewsAgree tz lower now user db db' where
  devices page := by
    simp only [ViewRequest.respond, ViewResponse.maskMine, ← OptionalPage.apply_map,
      List.map_map, h.accessibleDevices]
    refine congrArg (fun rows => ViewResponse.devices (page.apply rows)) ?_
    exact List.map_congr_left fun d _ => h.maskMine_deviceRead d
  device id hforeign := by
    simp only [ViewRequest.respond, h.accessibleDevice]
    cases hd : accessibleDevice db user id with
    | none => rfl
    | some d =>
      have hne := hforeign d (Option.filter_eq_some_iff.mp hd).1
      simp only [h.deviceRead hne]
  deviceNotifications id applicationId page := h.deviceNotificationsResponse id applicationId page

namespace Sample

/-- The subscriber also follows an application of another owner, which sent a notification. -/
def twoOwners : Db where
  applications := pair application { id := 2, ownerId := 9 } rfl rfl
  devices := single device
  links := pair link { id := 2, deviceId := 1, applicationId := 2 } rfl rfl
  notifications := pair notification { id := 2, applicationId := 2 } rfl rfl
  deliveries :=
    pair delivery { id := 2, notificationId := 2, deviceId := 1 } (pk_delivery delivery) rfl

end Sample

/-- The owner of the first application learns nothing about the second. -/
theorem console_views_agree_other_owner :
    ConsoleViewsAgree utc id 0 1 Sample.db Sample.twoOwners :=
  console_views_agree utc id 0 ⟨rfl, by decide, by decide, by decide, by decide⟩

end PushIT
