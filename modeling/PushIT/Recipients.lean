import PushIT.Views
import PushIT.Sending

/-!
# What recipients see of each other

A recipient reads the notifications delivered to their devices, from the inbox of a device and
from the detail of a notification.  The detail prefetches the deliveries to the devices of the
recipient only.  The inbox prefetches all deliveries, and its `device_ids` name the devices of
every other recipient of the notification.

## Main definitions

* `SameForRecipient`: two databases that differ in the deliveries to devices of others.
* `RecipientViewsAgree`: a recipient gets the same answers from both.
* `SameAddressees`: the notifications of the inbox are addressed to the same devices.

## Main results

* `recipient_views_agree_iff`: the answers agree exactly when the addressees do.
* `recipient_views_differ`: two databases that a recipient tells apart.
-/

namespace PushIT

open Relational

/-- The delivery is to a device of the user. -/
def Db.isOwnDelivery (db : Db) (user : ℕ) (d : NotificationDelivery) : Bool :=
  (db.devices.get? d.deviceId).any fun device => device.userId == some user

/-- The databases differ at most in the deliveries that are not to devices of the user. -/
structure SameForRecipient (user : ℕ) (db db' : Db) : Prop where
  applications : db'.applications = db.applications
  applicationQuietPeriods : db'.applicationQuietPeriods = db.applicationQuietPeriods
  devices : db'.devices = db.devices
  deviceQuietPeriods : db'.deviceQuietPeriods = db.deviceQuietPeriods
  links : db'.links = db.links
  notifications : db'.notifications = db.notifications
  deliveries : db'.deliveries.select (db'.isOwnDelivery user) =
    db.deliveries.select (db.isOwnDelivery user)

/-- The notifications an inbox request lists. -/
def inboxShown (db : Db) (user : ℕ) (pushToken : String) (sentSince : SentSince) :
    List Notification :=
  if strip pushToken = "" then []
  else
    match ownDevice db user (strip pushToken), sentSince with
    | none, _ | some _, .invalid => []
    | some device, .absent => (inboxNotifications db device none).take maxInboxRows
    | some device, .since t => (inboxNotifications db device (some t)).take maxInboxRows

/-- The application of the notification has another owner. -/
def Db.isForeign (db : Db) (user : ℕ) (n : Notification) : Prop :=
  ∃ owner, db.applicationOwner n.applicationId = some owner ∧ owner ≠ user

/-- The entry, without its device ids if it is about an application of the user. -/
def NotificationRead.maskOwn (db : Db) (user : ℕ) (x : NotificationRead) : NotificationRead :=
  if db.applicationOwner x.applicationId = some user then { x with deviceIds := [] } else x

/-- What an answer says about applications of others. -/
def ViewResponse.maskOwn (db : Db) (user : ℕ) : ViewResponse → ViewResponse
  | .notifications l => .notifications (l.map (NotificationRead.maskOwn db user))
  | r => r

/-- A recipient gets the same answers about applications of others. -/
structure RecipientViewsAgree (tz : TimeZone) (lower : String → String) (now : Instant)
    (user : ℕ) (db db' : Db) : Prop where
  detail : ∀ id, (∀ n, db.notifications.get? id = some n → db.isForeign user n) →
    (ViewRequest.notification user id).respond tz lower now db' =
      (ViewRequest.notification user id).respond tz lower now db
  inbox : ∀ pushToken sentSince,
    ((ViewRequest.inbox user pushToken sentSince).respond tz lower now db').maskOwn db' user =
      ((ViewRequest.inbox user pushToken sentSince).respond tz lower now db).maskOwn db user

/-- Each notification of another owner that an inbox lists is addressed to the same devices. -/
def SameAddressees (user : ℕ) (db db' : Db) : Prop :=
  ∀ pushToken sentSince, ∀ n ∈ inboxShown db user pushToken sentSince, db.isForeign user n →
    ((deliveriesOf db' n.id).map (·.deviceId)).Perm ((deliveriesOf db n.id).map (·.deviceId))

/-! ### Deliveries to devices of the user -/

namespace SameForRecipient

variable {user : ℕ} {db db' : Db}

theorem isOwnDelivery (h : SameForRecipient user db db') :
    db'.isOwnDelivery user = db.isOwnDelivery user := by
  funext d
  simp only [Db.isOwnDelivery, h.devices]

/-- A selection of deliveries to devices of the user. -/
theorem select (h : SameForRecipient user db db') {p : NotificationDelivery → Bool}
    (hp : ∀ d, p d = true → db.isOwnDelivery user d = true) :
    db'.deliveries.select p = db.deliveries.select p :=
  Table.select_congr h.deliveries (fun _ _ => rfl) (fun d _ => hp d)
    fun d _ hd => by rw [h.isOwnDelivery]; exact hp d hd

/-- Whether a notification was delivered to one of some devices of the user. -/
theorem deliveredTo (h : SameForRecipient user db db') {p : Device → Bool}
    (hp : ∀ k d, db.devices.get? k = some d → p d = true → d.userId = some user)
    (n : Notification) : deliveredTo db' p n = deliveredTo db p n := by
  have hown : ∀ d : NotificationDelivery,
      (d.notificationId == n.id && (db.devices.get? d.deviceId).any p) = true →
        db.isOwnDelivery user d = true := by
    intro d hd
    obtain ⟨-, hany⟩ := Bool.and_eq_true_iff.mp hd
    obtain ⟨device, hdevice, hpd⟩ := (Option.any_eq_true _ _).mp hany
    simp [Db.isOwnDelivery, hdevice, hp _ device hdevice hpd]
  unfold PushIT.deliveredTo
  rw [h.devices, Table.any_rows, Table.any_rows, h.select hown]

theorem ownDeliveries (h : SameForRecipient user db db') (id : ℕ) :
    ownDeliveries db' user id = ownDeliveries db user id := by
  have hselect : ∀ e : Db, PushIT.ownDeliveries e user id =
      e.deliveries.select fun d => e.isOwnDelivery user d && d.notificationId == id :=
    fun e => List.filter_filter
  rw [hselect, hselect, h.isOwnDelivery]
  exact h.select fun d hd => (Bool.and_eq_true_iff.mp hd).1

theorem ownDevice (h : SameForRecipient user db db') (pushToken : String) :
    ownDevice db' user pushToken = ownDevice db user pushToken := by
  unfold PushIT.ownDevice
  rw [h.devices]

theorem inboxNotifications (h : SameForRecipient user db db') {device : Device}
    {pushToken : String} (hdevice : PushIT.ownDevice db user pushToken = some device)
    (since : Option Instant) :
    inboxNotifications db' device since = inboxNotifications db device since := by
  have hmem := List.mem_reverse.mp (List.mem_of_head? hdevice)
  obtain ⟨hmem, howner⟩ := Table.mem_select.mp hmem
  have howner : device.userId = some user := by
    simpa using (Bool.and_eq_true_iff.mp howner).1
  have hdelivered := h.deliveredTo (p := fun d => d.id == device.id) fun k d hget hid => by
    obtain ⟨hd, -⟩ := Table.get?_eq_some.mp hget
    rw [Table.eq_of_pk hd hmem (by simpa using hid)]
    exact howner
  unfold PushIT.inboxNotifications
  rw [h.notifications]
  simp only [hdelivered]

theorem inboxShown (h : SameForRecipient user db db') (pushToken : String)
    (sentSince : SentSince) :
    inboxShown db' user pushToken sentSince = inboxShown db user pushToken sentSince := by
  unfold PushIT.inboxShown
  rw [h.ownDevice]
  split
  · rfl
  · cases hdevice : PushIT.ownDevice db user (strip pushToken) with
    | none => rfl
    | some device =>
      cases sentSince with
      | invalid => rfl
      | absent => simp only [h.inboxNotifications hdevice]
      | since t => simp only [h.inboxNotifications hdevice]

end SameForRecipient

/-! ### Answers -/

section Answers

variable {tz : TimeZone} {lower : String → String} {now : Instant} {user : ℕ} {db db' : Db}

/-- The sorted device ids are the same for the same devices. -/
theorem deviceIdsOf_eq_iff {ds ds' : List NotificationDelivery} :
    deviceIdsOf ds' = deviceIdsOf ds ↔ (ds'.map (·.deviceId)).Perm (ds.map (·.deviceId)) := by
  unfold deviceIdsOf
  constructor
  · intro h
    have hperm := List.perm_insertionSort (· ≤ ·) (ds'.map (·.deviceId))
    rw [h] at hperm
    exact hperm.symm.trans (List.perm_insertionSort _ _)
  · intro h
    refine List.Perm.eq_of_pairwise' (List.pairwise_insertionSort _ _)
      (List.pairwise_insertionSort _ _) ?_
    exact (List.perm_insertionSort _ _).trans (h.trans (List.perm_insertionSort _ _).symm)

/-- Two serializations of a notification differ in the device ids at most. -/
theorem notificationRead_eq_iff (h : SameForRecipient user db db') (a : Application)
    (n : Notification) (ds ds' : List NotificationDelivery) :
    notificationRead tz db' a n ds' = notificationRead tz db a n ds ↔
      (ds'.map (·.deviceId)).Perm (ds.map (·.deviceId)) := by
  have heffective : effectiveScheduledFor tz db' n = effectiveScheduledFor tz db n := by
    unfold effectiveScheduledFor applicationQuietPeriodsOf
    rw [h.applicationQuietPeriods]
  rw [← deviceIdsOf_eq_iff]
  simp [notificationRead, heffective]

/-- The answer of the inbox is its listing, serialized. -/
theorem inboxResponse_eq (tz : TimeZone) (db : Db) (user : ℕ) (pushToken : String)
    (sentSince : SentSince) :
    inboxResponse tz db user pushToken sentSince =
      if strip pushToken ≠ "" ∧ (ownDevice db user (strip pushToken)).isSome ∧
          sentSince = .invalid then
        .validationError "sent_since" "Invalid datetime; expected ISO 8601."
      else .notifications (.array
        (notificationReads tz db (inboxShown db user pushToken sentSince))) := by
  unfold inboxResponse inboxShown
  by_cases hstrip : strip pushToken = ""
  · simp [hstrip, notificationReads, withApplications]
  · cases ownDevice db user (strip pushToken) with
    | none => simp [hstrip, notificationReads, withApplications]
    | some device => cases sentSince <;> simp [hstrip]

/-- The detail of a notification of another owner shows the deliveries to own devices. -/
theorem SameForRecipient.detail (h : SameForRecipient user db db') {id : ℕ}
    (hforeign : ∀ n, db.notifications.get? id = some n → db.isForeign user n) :
    notificationDetailResponse tz db' user id = notificationDetailResponse tz db user id := by
  have hnotOwned : ∀ e : Db, e.notifications = db.notifications →
      e.applications = db.applications → ownedNotification e user id = none := by
    intro e hn ha
    unfold ownedNotification
    rw [hn, Option.filter_eq_none_iff]
    intro n hget
    obtain ⟨owner, howner, hne⟩ := hforeign n hget
    have howner : e.applicationOwner n.applicationId = some owner := by
      simpa only [Db.applicationOwner, ha] using howner
    simp [Caller.owns, howner, hne]
  have hreceived : receivedNotification db' user id = receivedNotification db user id := by
    unfold receivedNotification
    rw [h.notifications]
    refine congrArg (fun p => (db.notifications.get? id).filter p) (funext fun n => ?_)
    rw [h.deliveredTo fun k d _ hd => by simpa using hd]
  have hdetail : ∀ a n, notificationDetail tz db' a n (PushIT.ownDeliveries db' user n.id) =
      notificationDetail tz db a n (PushIT.ownDeliveries db user n.id) := by
    intro a n
    unfold notificationDetail deliveryReads
    rw [h.ownDeliveries, h.devices, (notificationRead_eq_iff h a n _ _).mpr (List.Perm.refl _)]
  unfold notificationDetailResponse
  rw [hnotOwned db rfl rfl, hnotOwned db' h.notifications h.applications, hreceived]
  simp only [Option.bind_none, hdetail, h.applications]

/-- Two serializations of a notification agree up to the device ids of own applications. -/
theorem SameForRecipient.maskOwn_eq_iff (h : SameForRecipient user db db') {a : Application}
    {n : Notification} (ha : db.applications.get? n.applicationId = some a)
    (ds ds' : List NotificationDelivery) :
    (notificationRead tz db' a n ds').maskOwn db' user =
        (notificationRead tz db a n ds).maskOwn db user ↔
      (db.isForeign user n → (ds'.map (·.deviceId)).Perm (ds.map (·.deviceId))) := by
  have hid : a.id = n.applicationId := (Table.get?_eq_some.mp ha).2
  have howner : ∀ e : Db, e.applications = db.applications →
      e.applicationOwner a.id = some a.ownerId := by
    intro e he
    simp [Db.applicationOwner, he, hid, ha]
  have hforeign : db.isForeign user n ↔ a.ownerId ≠ user := by
    simp [Db.isForeign, ← hid, howner db rfl]
  unfold NotificationRead.maskOwn
  rw [show (notificationRead tz db' a n ds').applicationId = a.id from rfl,
    show (notificationRead tz db a n ds).applicationId = a.id from rfl,
    howner db rfl, howner db' h.applications, hforeign]
  by_cases hown : a.ownerId = user
  · have heq : notificationRead tz db' a n ds = notificationRead tz db a n ds :=
      (notificationRead_eq_iff h a n ds ds).mpr (List.Perm.refl _)
    simp only [notificationRead, NotificationRead.mk.injEq] at heq ⊢
    simp [hown, heq]
  · simpa [hown] using notificationRead_eq_iff h a n ds ds'

/-- The listings of the inbox agree exactly when the addressees do. -/
theorem SameForRecipient.notificationReads_iff (h : SameForRecipient user db db')
    (ns : List Notification) :
    (notificationReads tz db' ns).map (NotificationRead.maskOwn db' user) =
        (notificationReads tz db ns).map (NotificationRead.maskOwn db user) ↔
      ∀ n ∈ ns, db.isForeign user n →
        ((deliveriesOf db' n.id).map (·.deviceId)).Perm
          ((deliveriesOf db n.id).map (·.deviceId)) := by
  have hjoined : withApplications db' ns = withApplications db ns := by
    unfold withApplications
    rw [h.applications]
  have hmem : ∀ a n, (a, n) ∈ withApplications db ns ↔
      n ∈ ns ∧ db.applications.get? n.applicationId = some a := by
    intro a n
    simp [withApplications]
  unfold notificationReads
  rw [hjoined, List.map_map, List.map_map, List.map_inj_left]
  constructor
  · intro hreads n hn hforeign
    obtain ⟨owner, howner, -⟩ := id hforeign
    obtain ⟨a, ha, -⟩ := Option.map_eq_some_iff.mp howner
    exact (h.maskOwn_eq_iff ha _ _).mp (hreads (a, n) ((hmem a n).mpr ⟨hn, ha⟩)) hforeign
  · rintro hperm ⟨a, n⟩ hpair
    obtain ⟨hn, ha⟩ := (hmem a n).mp hpair
    exact (h.maskOwn_eq_iff ha _ _).mpr (hperm n hn)

end Answers

/-- Two databases that differ in the deliveries to devices of others give a recipient the same
answers exactly when every notification of another owner that their inbox lists is addressed to
the same devices in both.  The detail of a notification never differs. -/
theorem recipient_views_agree_iff (tz : TimeZone) (lower : String → String) (now : Instant)
    {user : ℕ} {db db' : Db} (h : SameForRecipient user db db') :
    RecipientViewsAgree tz lower now user db db' ↔ SameAddressees user db db' := by
  have hinbox : ∀ pushToken sentSince,
      (inboxResponse tz db' user pushToken sentSince).maskOwn db' user =
          (inboxResponse tz db user pushToken sentSince).maskOwn db user ↔
        (notificationReads tz db' (inboxShown db user pushToken sentSince)).map
            (NotificationRead.maskOwn db' user) =
          (notificationReads tz db (inboxShown db user pushToken sentSince)).map
            (NotificationRead.maskOwn db user) := by
    intro pushToken sentSince
    rw [inboxResponse_eq, inboxResponse_eq, h.inboxShown, h.ownDevice]
    split
    · next hinvalid =>
      obtain ⟨hstrip, hdevice, rfl⟩ := hinvalid
      obtain ⟨device, hdevice⟩ := Option.isSome_iff_exists.mp hdevice
      simp [inboxShown, hstrip, hdevice, notificationReads, withApplications,
        ViewResponse.maskOwn]
    · simp [ViewResponse.maskOwn, Listing.map]
  constructor
  · intro hagree pushToken sentSince
    exact (h.notificationReads_iff _).mp ((hinbox pushToken sentSince).mp
      (hagree.inbox pushToken sentSince))
  · intro hsame
    refine ⟨fun id hforeign => h.detail hforeign, fun pushToken sentSince => ?_⟩
    exact (hinbox pushToken sentSince).mpr
      ((h.notificationReads_iff _).mpr (hsame pushToken sentSince))

/-! ### Two recipients -/

namespace Sample

/-- The device of another recipient. -/
def otherDevice : Device := { id := 2, userId := some 3, pushToken := "bbbbbbbbbbbbbbbbbbbb" }

/-- The server with two recipients, and one delivery. -/
def oneAddressee : Db := { db with devices := pair device otherDevice rfl rfl }

/-- Its notification also goes to the other recipient. -/
def twoAddressees (status : DeliveryStatus) : Db :=
  { oneAddressee with
    deliveries := pair delivery
      { id := 2, notificationId := 1, deviceId := 2, status := status } (pk_delivery delivery) rfl }

end Sample

/-- The delivery to the other recipient was sent in one of the databases. -/
theorem recipient_views_agree_sent :
    RecipientViewsAgree utc id 0 2 (Sample.twoAddressees .pending)
      (Sample.twoAddressees .sent) := by
  have hsame : SameForRecipient 2 (Sample.twoAddressees .pending)
      (Sample.twoAddressees .sent) := ⟨rfl, rfl, rfl, rfl, rfl, rfl, by decide⟩
  refine (recipient_views_agree_iff utc id 0 hsame).mpr fun pushToken sentSince n _ _ => ?_
  have hids : ∀ status, (deliveriesOf (Sample.twoAddressees status) n.id).map (·.deviceId) =
      (deliveriesOf (Sample.twoAddressees .pending) n.id).map (·.deviceId) := by
    intro status
    by_cases hid : 1 = n.id <;>
      simp [deliveriesOf, Sample.twoAddressees, Sample.pair, Sample.delivery, Table.select, hid]
  rw [hids]

/-- The inbox tells a recipient that a notification also went to the device of another user. -/
theorem recipient_views_differ :
    SameForRecipient 2 Sample.oneAddressee (Sample.twoAddressees .sent) ∧
      ¬RecipientViewsAgree utc id 0 2 Sample.oneAddressee (Sample.twoAddressees .sent) := by
  refine ⟨⟨rfl, rfl, rfl, rfl, rfl, rfl, by decide⟩, fun hagree => ?_⟩
  exact absurd (hagree.inbox "aaaaaaaaaaaaaaaaaaaa" .absent) (by decide)

end PushIT
