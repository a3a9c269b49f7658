import PushIT.EffectiveListing

/-!
# What the read endpoints answer

The listing and detail endpoints of `notifications/api_views.py`,
`notifications/api_views_app_token.py` and `devices/api_views.py`, with their querysets, filters,
pagination and serializers.  A row whose application is missing is in no answer: every queryset
joins the application.

## Main definitions

* `paginate`, `OptionalPage.apply`: the two pagination classes.
* `effectiveRows`: the filters on the effective date.
* `notificationRead`, `notificationDetail`, `deviceNotificationRead`, `deviceRead`: the serializers.
* `ViewRequest.respond`: the endpoints.
-/

namespace PushIT

open Relational

/-! ### Pagination -/

/-- The `page` query parameter. -/
inductive PageNumber
  | number (n : ℕ)
  | last
  deriving DecidableEq

/-- The number meant, among so many pages. -/
def PageNumber.value (pages : ℕ) : PageNumber → ℕ
  | number n => n
  | last => pages

/-- The envelope of a paginated answer, with the page numbers of its links. -/
structure Page (α : Type) where
  count : ℕ
  next : Option ℕ
  previous : Option ℕ
  results : List α
  deriving DecidableEq

/-- A listing is a bare array, a page, or the refusal of a page number. -/
inductive Listing (α : Type)
  | array (items : List α)
  | page (p : Page α)
  | invalidPage
  deriving DecidableEq

namespace Listing

variable {α : Type}

/-- The rows a listing shows. -/
def items : Listing α → List α
  | array items => items
  | page p => p.results
  | invalidPage => []

/-- The listing with every row rewritten. -/
def map {β : Type} (f : α → β) : Listing α → Listing β
  | array items => array (items.map f)
  | page p => page { p with results := p.results.map f }
  | invalidPage => invalidPage

end Listing

/-- `PAGE_SIZE`. -/
def defaultPageSize : ℕ := 50

/-- `OptionalPageNumberPagination.max_page_size`. -/
def maxPageSize : ℕ := 200

section Pagination

variable {α : Type}

/-- `PageNumberPagination` with pages of `size` rows. -/
def paginate (size : ℕ) (number : PageNumber) (rows : List α) : Listing α :=
  let pages := max 1 ((rows.length + size - 1) / size)
  let n := number.value pages
  if 1 ≤ n ∧ n ≤ pages then
    .page
      { count := rows.length
        next := if n < pages then some (n + 1) else none
        previous := if 1 < n then some (n - 1) else none
        results := (rows.drop ((n - 1) * size)).take size }
  else .invalidPage

/-- The `page` and `page_size` parameters of `OptionalPageNumberPagination`. -/
structure OptionalPage where
  page : Option PageNumber := none
  pageSize : Option ℕ := none
  deriving DecidableEq

/-- `get_page_size`: a page size that is not positive is ignored. -/
def OptionalPage.size (o : OptionalPage) : ℕ :=
  match o.pageSize with
  | some size => if size = 0 then defaultPageSize else min size maxPageSize
  | none => defaultPageSize

/-- `OptionalPageNumberPagination`: without either parameter the answer is a bare array. -/
def OptionalPage.apply (o : OptionalPage) (rows : List α) : Listing α :=
  if o.page.isNone ∧ o.pageSize.isNone then .array rows
  else paginate o.size (o.page.getD (.number 1)) rows

theorem paginate_map {β : Type} (f : α → β) (size : ℕ) (number : PageNumber) (rows : List α) :
    paginate size number (rows.map f) = (paginate size number rows).map f := by
  unfold paginate
  dsimp only
  rw [List.length_map]
  split <;> simp [Listing.map]

theorem OptionalPage.apply_map {β : Type} (o : OptionalPage) (f : α → β) (rows : List α) :
    o.apply (rows.map f) = (o.apply rows).map f := by
  unfold apply
  split
  · rfl
  · exact paginate_map f _ _ _

theorem mem_items_paginate {size : ℕ} {number : PageNumber} {rows : List α} {x : α}
    (h : x ∈ (paginate size number rows).items) : x ∈ rows := by
  unfold paginate at h
  dsimp only at h
  split at h
  · exact List.mem_of_mem_drop (List.mem_of_mem_take h)
  · simp [Listing.items] at h

/-- A listing shows rows of its queryset only. -/
theorem OptionalPage.mem_items {o : OptionalPage} {rows : List α} {x : α}
    (h : x ∈ (o.apply rows).items) : x ∈ rows := by
  unfold apply at h
  split at h
  · exact h
  · exact mem_items_paginate h

end Pagination

/-! ### Filters -/

/-- The validated filters of a listing; `descending` is the `ordering` parameter. -/
structure ListFilter where
  applicationId : Option ℕ := none
  deviceId : Option ℕ := none
  status : Option NotificationStatus := none
  effectiveScheduledFrom : Option Instant := none
  effectiveScheduledTo : Option Instant := none
  hasQuietPeriodShift : Option Bool := none
  descending : Option Bool := none
  deriving DecidableEq

/-- The effective date of a notification, from the quiet periods of its application. -/
def effectiveScheduledFor (tz : TimeZone) (db : Db) (n : Notification) : Option Instant :=
  computeEffectiveScheduledFor tz (applicationQuietPeriodsOf db n.applicationId) n.scheduledFor

/-- The validated filters on the effective date: the bounds are in the current time zone. -/
def ListFilter.effectiveFilterData (tz : TimeZone) (f : ListFilter) : EffectiveFilterData where
  effectiveScheduledFrom := f.effectiveScheduledFrom.map fun t => ⟨t, some (tz.localtime t)⟩
  effectiveScheduledTo := f.effectiveScheduledTo.map fun t => ⟨t, some (tz.localtime t)⟩
  hasQuietPeriodShift := f.hasQuietPeriodShift
  ordering := f.descending.map fun descending =>
    if descending then "-effective_scheduled_for" else "effective_scheduled_for"

/-- The parameters a listing reads from the query itself. -/
def ListFilter.queryParams (f : ListFilter) : List String :=
  if f.hasQuietPeriodShift.isSome then ["has_quiet_period_shift"] else []

/-- The rows of a listing, which goes through `apply_effective_schedule_filters` only if a filter
needs the effective dates. -/
def effectiveRows (tz : TimeZone) (db : Db) (f : ListFilter) (ns : List Notification) :
    List Notification :=
  if notificationFilterNeedsEffective f.queryParams (f.effectiveFilterData tz) then
    (applyEffectiveScheduleFilters tz (applicationQuietPeriodsOf db) f.queryParams
      (f.effectiveFilterData tz) ns).getD []
  else ns

section EffectiveRows

variable {tz : TimeZone} {db : Db} {f : ListFilter} {ns : List Notification}

/-- The look-ups of a listing succeed, and the endpoints may leave the filters out when none is
given. -/
theorem effectiveRows_eq (hids : (ns.map (·.id)).Nodup) :
    effectiveRows tz db f ns =
      listed tz (applicationQuietPeriodsOf db) f.queryParams (f.effectiveFilterData tz) ns := by
  unfold effectiveRows
  split
  · rw [applyEffectiveScheduleFilters_eq hids, Option.getD_some]
  · next h => rw [listed_of_not_needed (Bool.eq_false_iff.mpr h)]

theorem mem_of_mem_effectiveRows {n : Notification} (h : n ∈ effectiveRows tz db f ns) :
    n ∈ ns := by
  unfold effectiveRows at h
  split at h
  · cases hresult : applyEffectiveScheduleFilters tz (applicationQuietPeriodsOf db)
        f.queryParams (f.effectiveFilterData tz) ns with
    | none =>
      rw [hresult] at h
      exact absurd h List.not_mem_nil
    | some result =>
      rw [hresult] at h
      exact mem_of_mem_applyEffectiveScheduleFilters hresult h
  · exact h

end EffectiveRows

/-! ### Serializers -/

/-- `NotificationReadSerializer`. -/
structure NotificationRead where
  id : ℕ
  applicationId : ℕ
  applicationName : String
  applicationLogo : String
  deviceIds : List ℕ
  title : String
  message : String
  status : NotificationStatus
  createdAt : Instant
  scheduledFor : Option Instant
  effectiveScheduledFor : Option Instant
  sentAt : Option Instant
  deriving DecidableEq

/-- `NotificationDeliverySerializer`. -/
structure DeliveryRead where
  deviceId : ℕ
  deviceName : String
  status : DeliveryStatus
  sentAt : Option Instant
  deliveredAt : Option Instant
  openedAt : Option Instant
  attemptCount : ℕ
  deriving DecidableEq

/-- `NotificationDetailSerializer`. -/
structure NotificationDetail extends NotificationRead where
  deliveries : List DeliveryRead
  deriving DecidableEq

/-- `DeviceNotificationSerializer`. -/
structure DeviceNotificationRead where
  id : ℕ
  applicationId : ℕ
  applicationName : String
  applicationLogo : String
  title : String
  message : String
  status : NotificationStatus
  createdAt : Instant
  sentAt : Option Instant
  deliveryStatus : Option DeliveryStatus
  deliverySentAt : Option Instant
  deliveryAttemptCount : ℕ
  deriving DecidableEq

/-- `DeviceUnlinkedApplicationSerializer`. -/
structure UnlinkedApplication where
  applicationId : ℕ
  applicationName : String
  unlinkedAt : Option Instant
  unlinkSource : Option UnlinkSource
  deriving DecidableEq

/-- `DeviceReadSerializer`. -/
structure DeviceRead where
  id : ℕ
  deviceName : String
  platform : DevicePlatform
  pushTokenStatus : DeviceTokenStatus
  lastSeenAt : Option Instant
  createdAt : Instant
  applicationIds : List ℕ
  unlinkedApplications : List UnlinkedApplication
  isMine : Bool
  deriving DecidableEq

/-- The deliveries of a notification, in primary key order. -/
def deliveriesOf (db : Db) (notificationId : ℕ) : List NotificationDelivery :=
  db.deliveries.select fun d => d.notificationId == notificationId

/-- `get_device_ids`, on the prefetched deliveries. -/
def deviceIdsOf (deliveries : List NotificationDelivery) : List ℕ :=
  (deliveries.map (·.deviceId)).insertionSort (· ≤ ·)

/-- `NotificationReadSerializer`, with the prefetched deliveries. -/
def notificationRead (tz : TimeZone) (db : Db) (a : Application) (n : Notification)
    (deliveries : List NotificationDelivery) : NotificationRead where
  id := n.id
  applicationId := a.id
  applicationName := a.name
  applicationLogo := a.logo
  deviceIds := deviceIdsOf deliveries
  title := n.title
  message := n.message
  status := n.status
  createdAt := n.createdAt
  scheduledFor := n.scheduledFor
  effectiveScheduledFor := effectiveScheduledFor tz db n
  sentAt := n.sentAt

/-- `NotificationDeliverySerializer`, with the joined device. -/
def deliveryRead (device : Device) (d : NotificationDelivery) : DeliveryRead where
  deviceId := d.deviceId
  deviceName := device.deviceName
  status := d.status
  sentAt := d.sentAt
  deliveredAt := d.deliveredAt
  openedAt := d.openedAt
  attemptCount := d.attemptCount

/-- `get_deliveries`: the deliveries by device, joined with their devices. -/
def deliveryReads (db : Db) (deliveries : List NotificationDelivery) : List DeliveryRead :=
  (deliveries.insertionSort fun a b => a.deviceId ≤ b.deviceId).filterMap fun d =>
    (db.devices.get? d.deviceId).map fun device => deliveryRead device d

/-- `NotificationDetailSerializer`. -/
def notificationDetail (tz : TimeZone) (db : Db) (a : Application) (n : Notification)
    (deliveries : List NotificationDelivery) : NotificationDetail where
  toNotificationRead := notificationRead tz db a n deliveries
  deliveries := deliveryReads db deliveries

/-- `DeviceNotificationSerializer`, with the deliveries of the device. -/
def deviceNotificationRead (a : Application) (n : Notification)
    (deviceDeliveries : List NotificationDelivery) : DeviceNotificationRead where
  id := n.id
  applicationId := a.id
  applicationName := a.name
  applicationLogo := a.logo
  title := n.title
  message := n.message
  status := n.status
  createdAt := n.createdAt
  sentAt := n.sentAt
  deliveryStatus := deviceDeliveries.head?.map (·.status)
  deliverySentAt := deviceDeliveries.head?.bind (·.sentAt)
  deliveryAttemptCount := (deviceDeliveries.head?.map (·.attemptCount)).getD 0

/-- A link with its application. -/
structure LinkedApplication where
  link : DeviceApplicationLink
  application : Application

/-- The prefetch `application_links__application` of a device. -/
def applicationLinksOf (db : Db) (deviceId : ℕ) : List LinkedApplication :=
  (db.links.select fun l => l.deviceId == deviceId).filterMap fun l =>
    (db.applications.get? l.applicationId).map fun a => ⟨l, a⟩

/-- `_visible_links`. -/
def visibleLinks (db : Db) (user : ℕ) (d : Device) : List LinkedApplication :=
  if d.userId = some user then applicationLinksOf db d.id
  else (applicationLinksOf db d.id).filter fun l => l.application.ownerId == user

/-- `get_unlinked_applications`; `lower` is Python's `str.lower`. -/
def unlinkedApplications (lower : String → String) (links : List LinkedApplication) :
    List UnlinkedApplication :=
  ((links.filter fun l => !l.link.isActive).insertionSort fun a b =>
      lower a.application.name ≤ lower b.application.name).map fun l =>
    { applicationId := l.link.applicationId
      applicationName := l.application.name
      unlinkedAt := l.link.unlinkedAt
      unlinkSource := l.link.unlinkSource }

/-- `DeviceReadSerializer`, for the requesting user. -/
def deviceRead (lower : String → String) (db : Db) (user : ℕ) (d : Device) : DeviceRead where
  id := d.id
  deviceName := d.deviceName
  platform := d.platform
  pushTokenStatus := d.pushTokenStatus
  lastSeenAt := d.lastSeenAt
  createdAt := d.createdAt
  applicationIds := ((visibleLinks db user d).filter (·.link.isActive)).map (·.link.applicationId)
  unlinkedApplications := unlinkedApplications lower (visibleLinks db user d)
  isMine := d.userId == some user

/-! ### Querysets -/

/-- The rows of a queryset with their applications, which it joins. -/
def withApplications (db : Db) (ns : List Notification) : List (Application × Notification) :=
  ns.filterMap fun n => (db.applications.get? n.applicationId).map fun a => (a, n)

/-- The notification was delivered to a device that meets `p`. -/
def deliveredTo (db : Db) (p : Device → Bool) (n : Notification) : Bool :=
  db.deliveries.rows.any fun d =>
    d.notificationId == n.id && (db.devices.get? d.deviceId).any p

/-- `visible().filter(application__owner=user).order_by("-id")`. -/
def ownerNotifications (db : Db) (user : ℕ) : List Notification :=
  (db.notifications.select fun n => n.isVisible && (Caller.user user).owns db n).reverse

/-- The queryset of `NotificationListWithAppTokenApiView`. -/
def applicationNotifications (db : Db) (applicationId : ℕ) : List Notification :=
  (db.notifications.select fun n =>
    n.isVisible && (Caller.application applicationId).owns db n).reverse

/-- `order_by("scheduled_for", "id")` on rows with a date. -/
def scheduledLe (a b : Notification) : Bool :=
  match a.scheduledFor, b.scheduledFor with
  | some s, some t => decide (s < t ∨ s = t ∧ a.id ≤ b.id)
  | _, _ => true

/-- The queryset of `NotificationFutureListApiView`, by date. -/
def futureNotifications (db : Db) (now : Instant) (user : ℕ) : List Notification :=
  (db.notifications.select fun n => (futureNotification db now user n.id).isSome).insertionSort
    fun a b => scheduledLe a b

/-- The filters `NotificationListCreateApiView.list` adds to its queryset. -/
def ListFilter.keeps (f : ListFilter) (db : Db) (n : Notification) : Bool :=
  f.applicationId.all (fun a => n.applicationId == a) &&
    f.deviceId.all (fun k => db.deliveries.rows.any fun d =>
      d.notificationId == n.id && d.deviceId == k) &&
    f.status.all fun s => n.status == s

/-- `Device.objects.filter(user=user, push_token=push_token).first()`. -/
def ownDevice (db : Db) (user : ℕ) (pushToken : String) : Option Device :=
  (db.devices.select fun d => d.userId == some user && d.pushToken == pushToken).reverse.head?

/-- `_device_access_filter` for reads. -/
def deviceAccess (db : Db) (user : ℕ) (d : Device) : Bool :=
  d.userId == some user || db.links.rows.any fun l =>
    l.deviceId == d.id && l.isActive && db.applicationOwner l.applicationId == some user

/-- The devices `DeviceListApiView` lists. -/
def accessibleDevices (db : Db) (user : ℕ) : List Device :=
  (db.devices.select (deviceAccess db user)).reverse

/-- `UserOwnedDeviceMixin.get_device`, for reads. -/
def accessibleDevice (db : Db) (user deviceId : ℕ) : Option Device :=
  (db.devices.get? deviceId).filter (deviceAccess db user)

/-- The deliveries of a notification to one device. -/
def deviceDeliveries (db : Db) (notificationId deviceId : ℕ) : List NotificationDelivery :=
  (deliveriesOf db notificationId).filter fun d => d.deviceId == deviceId

/-- The queryset of `DeviceNotificationsApiView`. -/
def deviceNotifications (db : Db) (user : ℕ) (device : Device) (applicationId : Option ℕ) :
    List Notification :=
  (ownerNotifications db user).filter fun n =>
    !(deviceDeliveries db n.id device.id).isEmpty &&
      applicationId.all fun a => n.applicationId == a

/-- `NotificationsForDeviceApiView.MAX_INBOX_ROWS`. -/
def maxInboxRows : ℕ := 200

/-- The `sent_since` parameter after `parse_datetime`. -/
inductive SentSince
  | absent
  | invalid
  | since (t : Instant)
  deriving DecidableEq

/-- The queryset of the inbox of a device, before its cap. -/
def inboxNotifications (db : Db) (device : Device) (since : Option Instant) :
    List Notification :=
  (db.notifications.select fun n =>
    n.isVisible && deliveredTo db (fun d => d.id == device.id) n &&
      since.all fun t => n.sentAt.any fun s => decide (t ≤ s)).reverse

/-! ### Endpoints -/

/-- The read requests; the user, or the application of an app token, is authenticated. -/
inductive ViewRequest
  | notifications (user : ℕ) (filter : ListFilter) (page : OptionalPage)
  | applicationNotifications (applicationId : ℕ) (filter : ListFilter) (page : PageNumber)
  | futureNotifications (user : ℕ) (filter : ListFilter) (page : OptionalPage)
  | futureNotification (user id : ℕ)
  | notification (user id : ℕ)
  | inbox (user : ℕ) (pushToken : String) (sentSince : SentSince)
  | devices (user : ℕ) (page : OptionalPage)
  | device (user deviceId : ℕ)
  | deviceNotifications (user deviceId : ℕ) (applicationId : Option ℕ) (page : PageNumber)

inductive ViewResponse
  | notifications (listing : Listing NotificationRead)
  | notification (n : NotificationRead)
  | notificationDetail (n : NotificationDetail)
  | deviceNotifications (listing : Listing DeviceNotificationRead)
  | devices (listing : Listing DeviceRead)
  | device (d : DeviceRead)
  | validationError (field detail : String)
  | notFound (code detail : String)
  deriving DecidableEq

/-- The notifications an answer shows. -/
def ViewResponse.notificationIds : ViewResponse → List ℕ
  | .notifications l => l.items.map (·.id)
  | .notification n => [n.id]
  | .notificationDetail n => [n.id]
  | .deviceNotifications l => l.items.map (·.id)
  | .devices _ | .device _ | .validationError _ _ | .notFound _ _ => []

section Endpoints

variable (tz : TimeZone) (lower : String → String) (now : Instant) (db : Db)

/-- The listing serialized with `device_ids_prefetch`. -/
def notificationReads (ns : List Notification) : List NotificationRead :=
  (withApplications db ns).map fun (a, n) => notificationRead tz db a n (deliveriesOf db n.id)

/-- `NotificationDetailApiView.get_queryset` for one row. -/
def ownedNotification (user id : ℕ) : Option Notification :=
  (db.notifications.get? id).filter fun n => n.isVisible && (Caller.user user).owns db n

/-- `_recipient_queryset` for one row. -/
def receivedNotification (user id : ℕ) : Option Notification :=
  (db.notifications.get? id).filter fun n =>
    n.isVisible && deliveredTo db (fun d => d.userId == some user) n

/-- The prefetch of `_recipient_queryset`: the deliveries to the devices of the user. -/
def ownDeliveries (user id : ℕ) : List NotificationDelivery :=
  (deliveriesOf db id).filter fun d =>
    (db.devices.get? d.deviceId).any fun device => device.userId == some user

def notificationNotFoundResponse : ViewResponse :=
  .notFound "notification_not_found" "Notification not found."

/-- `NotificationDetailApiView.retrieve`: as the owner, else as a recipient. -/
def notificationDetailResponse (user id : ℕ) : ViewResponse :=
  match (ownedNotification db user id).bind fun n =>
      (db.applications.get? n.applicationId).map fun a =>
        notificationDetail tz db a n (deliveriesOf db n.id) with
  | some detail => .notificationDetail detail
  | none =>
    match (receivedNotification db user id).bind fun n =>
        (db.applications.get? n.applicationId).map fun a =>
          notificationDetail tz db a n (ownDeliveries db user n.id) with
    | some detail => .notificationDetail detail
    | none => notificationNotFoundResponse

/-- `NotificationsForDeviceApiView.list`. -/
def inboxResponse (user : ℕ) (pushToken : String) (sentSince : SentSince) : ViewResponse :=
  if strip pushToken = "" then .notifications (.array [])
  else
    match ownDevice db user (strip pushToken) with
    | none => .notifications (.array [])
    | some device =>
      match sentSince with
      | .invalid => .validationError "sent_since" "Invalid datetime; expected ISO 8601."
      | .absent =>
        .notifications (.array (notificationReads tz db
          ((inboxNotifications db device none).take maxInboxRows)))
      | .since t =>
        .notifications (.array (notificationReads tz db
          ((inboxNotifications db device (some t)).take maxInboxRows)))

def deviceNotFoundResponse : ViewResponse :=
  .notFound "device_not_found" "Device not found."

/-- `DeviceNotificationsApiView.list`. -/
def deviceNotificationsResponse (user deviceId : ℕ) (applicationId : Option ℕ)
    (page : PageNumber) : ViewResponse :=
  match accessibleDevice db user deviceId with
  | none => deviceNotFoundResponse
  | some device =>
    .deviceNotifications (paginate defaultPageSize page
      ((withApplications db (deviceNotifications db user device applicationId)).map
        fun (a, n) => deviceNotificationRead a n (deviceDeliveries db n.id device.id)))

/-- A listing with the effective-date filters applied to its queryset. -/
def effectiveListing (f : ListFilter) (ns : List Notification) : List NotificationRead :=
  notificationReads tz db (effectiveRows tz db f ns)

/-- The answer to a read request. -/
def ViewRequest.respond : ViewRequest → ViewResponse
  | .notifications user f page =>
    .notifications (page.apply (effectiveListing tz db f
      ((PushIT.ownerNotifications db user).filter (f.keeps db))))
  | .applicationNotifications applicationId f page =>
    .notifications (paginate defaultPageSize page (effectiveListing tz db f
      ((PushIT.applicationNotifications db applicationId).filter fun n =>
        f.status.all fun s => n.status == s)))
  | .futureNotifications user f page =>
    .notifications (page.apply (effectiveListing tz db f
      (PushIT.futureNotifications db now user)))
  | .futureNotification user id =>
    match (PushIT.futureNotification db now user id).bind fun n =>
        (db.applications.get? n.applicationId).map fun a =>
          notificationRead tz db a n (deliveriesOf db n.id) with
    | some n => .notification n
    | none => .notFound "notification_future_not_found" "Future notification not found."
  | .notification user id => notificationDetailResponse tz db user id
  | .inbox user pushToken sentSince => inboxResponse tz db user pushToken sentSince
  | .devices user page =>
    .devices (page.apply ((accessibleDevices db user).map (deviceRead lower db user)))
  | .device user deviceId =>
    match accessibleDevice db user deviceId with
    | none => deviceNotFoundResponse
    | some d => .device (deviceRead lower db user d)
  | .deviceNotifications user deviceId applicationId page =>
    deviceNotificationsResponse db user deviceId applicationId page

end Endpoints

end PushIT
