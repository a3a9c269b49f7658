import PushIT.AppTokenSteps
import PushIT.Library.References
import PushIT.Merging

/-!
# The constraints of the schema

The tables declare foreign keys and unique columns.  No step of the server and of its app-token
endpoints leaves a state that breaks one of them: a request that meets a vanished row or a taken
value writes nothing, deletions take what refers to the deleted rows with them, and the merge of
two devices moves only what the target may have and deletes the source before its token goes to
the target.

## Main definitions

* `Db.WellFormed`: the foreign keys and the unique columns of devices, links and deliveries.
* `World.Integral`: the database is well formed, and the passes hold distinct targets.

## Main results

* `World.integral_preserves`: one action of the server keeps the constraints.
* `constraints_hold`: the constraints along every run of the server and its endpoints.
-/

namespace PushIT

open Relational Transition

/-- The foreign keys, the unique push token, `uniq_device_application` and
`uniq_notification_device`. -/
structure Db.WellFormed (db : Db) : Prop where
  notificationApplication : db.notifications.References Notification.applicationId db.applications
  deliveryNotification :
    db.deliveries.References NotificationDelivery.notificationId db.notifications
  deliveryDevice : db.deliveries.References NotificationDelivery.deviceId db.devices
  linkDevice : db.links.References DeviceApplicationLink.deviceId db.devices
  linkApplication : db.links.References DeviceApplicationLink.applicationId db.applications
  quietPeriodDevice : db.deviceQuietPeriods.References DeviceQuietPeriod.deviceId db.devices
  quietPeriodApplication :
    db.applicationQuietPeriods.References ApplicationQuietPeriod.applicationId db.applications
  pushTokens : db.devices.Unique (fun _ => True) Device.pushToken
  links : db.links.Unique (fun _ => True) fun l => (l.deviceId, l.applicationId)
  deliveries : db.deliveries.Unique (fun _ => True) fun d => (d.notificationId, d.deviceId)

namespace Db.WellFormed

variable {db : Db}

theorem constrained (h : db.WellFormed) : db.Constrained where
  tokens d hd d' hd' htoken := h.pushTokens d hd d' hd' trivial trivial htoken
  links l hl l' hl' hdevice happlication :=
    h.links l hl l' hl' trivial trivial (Prod.ext hdevice happlication)
  deliveries d hd d' hd' hnotification hdevice :=
    h.deliveries d hd d' hd' trivial trivial (Prod.ext hnotification hdevice)

/-! ### Rewritings -/

theorem updateNotifications (h : db.WellFormed) {q : Notification → Bool}
    {f : Notification → Notification} (hf : ∀ n, pk (f n) = pk n)
    (happlication : ∀ n, (f n).applicationId = n.applicationId) :
    WellFormed { db with notifications := db.notifications.update q f hf } :=
  { h with
    notificationApplication := h.notificationApplication.update_of_eq hf happlication
    deliveryNotification := h.deliveryNotification.update_target q f hf }

theorem updateDevices (h : db.WellFormed) {q : Device → Bool} {f : Device → Device}
    (hf : ∀ d, pk (f d) = pk d) (htoken : ∀ d, (f d).pushToken = d.pushToken) :
    WellFormed { db with devices := db.devices.update q f hf } :=
  { h with
    deliveryDevice := h.deliveryDevice.update_target q f hf
    linkDevice := h.linkDevice.update_target q f hf
    quietPeriodDevice := h.quietPeriodDevice.update_target q f hf
    pushTokens := h.pushTokens.update_of_eq hf (fun _ _ => trivial) htoken }

theorem updateDeliveries (h : db.WellFormed) {q : NotificationDelivery → Bool}
    {f : NotificationDelivery → NotificationDelivery} (hf : ∀ d, pk (f d) = pk d)
    (hkeeps : ∀ d, (f d).notificationId = d.notificationId ∧ (f d).deviceId = d.deviceId) :
    WellFormed { db with deliveries := db.deliveries.update q f hf } :=
  { h with
    deliveryNotification := h.deliveryNotification.update_of_eq hf fun d => (hkeeps d).1
    deliveryDevice := h.deliveryDevice.update_of_eq hf fun d => (hkeeps d).2
    deliveries := h.deliveries.update_of_eq hf (fun _ _ => trivial)
      fun d => Prod.ext (hkeeps d).1 (hkeeps d).2 }

theorem updateLinks (h : db.WellFormed) {q : DeviceApplicationLink → Bool}
    {f : DeviceApplicationLink → DeviceApplicationLink} (hf : ∀ l, pk (f l) = pk l)
    (hkeeps : ∀ l, (f l).deviceId = l.deviceId ∧ (f l).applicationId = l.applicationId) :
    WellFormed { db with links := db.links.update q f hf } :=
  { h with
    linkDevice := h.linkDevice.update_of_eq hf fun l => (hkeeps l).1
    linkApplication := h.linkApplication.update_of_eq hf fun l => (hkeeps l).2
    links := h.links.update_of_eq hf (fun _ _ => trivial)
      fun l => Prod.ext (hkeeps l).1 (hkeeps l).2 }

theorem updateApplications (h : db.WellFormed) {q : Application → Bool}
    {f : Application → Application} (hf : ∀ a, pk (f a) = pk a) :
    WellFormed { db with applications := db.applications.update q f hf } :=
  { h with
    notificationApplication := h.notificationApplication.update_target q f hf
    linkApplication := h.linkApplication.update_target q f hf
    quietPeriodApplication := h.quietPeriodApplication.update_target q f hf }

theorem updateDeviceQuietPeriods (h : db.WellFormed) {q : DeviceQuietPeriod → Bool}
    {f : DeviceQuietPeriod → DeviceQuietPeriod} (hf : ∀ r, pk (f r) = pk r)
    (hdevice : ∀ r, (f r).deviceId = r.deviceId) :
    WellFormed { db with deviceQuietPeriods := db.deviceQuietPeriods.update q f hf } :=
  { h with quietPeriodDevice := h.quietPeriodDevice.update_of_eq hf hdevice }

theorem updateApplicationQuietPeriods (h : db.WellFormed) {q : ApplicationQuietPeriod → Bool}
    {f : ApplicationQuietPeriod → ApplicationQuietPeriod} (hf : ∀ r, pk (f r) = pk r)
    (happlication : ∀ r, (f r).applicationId = r.applicationId) :
    WellFormed { db with applicationQuietPeriods := db.applicationQuietPeriods.update q f hf } :=
  { h with quietPeriodApplication := h.quietPeriodApplication.update_of_eq hf happlication }

/-! ### Insertions -/

/-- A notification is created for an application that exists. -/
theorem insertNotification (h : db.WellFormed) {mk : ℕ → Notification} (hmk : ∀ k, pk (mk k) = k)
    (happlication : ∀ k, (db.applications.get? (mk k).applicationId).isSome) :
    WellFormed { db with notifications := db.notifications.insert mk hmk } :=
  { h with
    notificationApplication := h.notificationApplication.insert hmk happlication
    deliveryNotification := h.deliveryNotification.insert_target mk hmk }

/-- Deliveries of a notification for devices that have none of it. -/
theorem insertDeliveries (h : db.WellFormed) {notificationId : ℕ} {deviceIds : List ℕ}
    (hnotification : (db.notifications.get? notificationId).isSome)
    (hdevices : ∀ k ∈ deviceIds, (db.devices.get? k).isSome) (hnodup : deviceIds.Nodup)
    (hmissing : ∀ k ∈ deviceIds, ∀ d ∈ db.deliveries.rows,
      d.notificationId = notificationId → d.deviceId ≠ k) :
    WellFormed { db with
      deliveries := db.deliveries.insertAll (newDelivery notificationId) (fun _ _ => rfl)
        deviceIds } :=
  { h with
    deliveryNotification := h.deliveryNotification.insertAll _ fun _ _ _ => hnotification
    deliveryDevice := h.deliveryDevice.insertAll _ fun k hk _ => hdevices k hk
    deliveries := h.deliveries.insertAll (fun _ _ => rfl) Prod.snd (fun _ _ => rfl) hnodup
      fun k hk _ d hd _ hkey =>
        hmissing k hk d hd (congrArg Prod.fst hkey) (congrArg Prod.snd hkey) }

theorem createDeliveries (h : db.WellFormed) {notificationId : ℕ} {deviceIds : List ℕ}
    (hnotification : (db.notifications.get? notificationId).isSome)
    (hdevices : ∀ k ∈ deviceIds, (db.devices.get? k).isSome) (hnodup : deviceIds.Nodup) :
    (db.createDeliveries notificationId deviceIds).WellFormed := by
  refine h.insertDeliveries hnotification (fun k hk => hdevices k (List.mem_filter.mp hk).1)
    (hnodup.filter _) fun k hk d hd hnotification hdevice => ?_
  have hnone := (List.mem_filter.mp hk).2
  simp only [Bool.not_eq_true', List.any_eq_false, Bool.and_eq_true, beq_iff_eq] at hnone
  exact hnone d hd ⟨hnotification, hdevice⟩

/-- A notification is created with deliveries for distinct devices. -/
theorem insertTargeted (h : db.WellFormed) (now : Instant) {applicationId : ℕ}
    {deviceIds : List ℕ} (data : NotificationData)
    (happlication : (db.applications.get? applicationId).isSome)
    (hdevices : ∀ k ∈ deviceIds, (db.devices.get? k).isSome) (hnodup : deviceIds.Nodup) :
    (db.insertTargeted now applicationId deviceIds data).WellFormed := by
  have hinserted := h.insertNotification (pk_newNotification now applicationId data)
    fun _ => happlication
  refine hinserted.insertDeliveries ?_ hdevices hnodup fun k _ d hd hnew => ?_
  · have hmem : newNotification now applicationId data (db.notifications.seq + 1) ∈
        (db.insertTargeted now applicationId deviceIds data).notifications.rows :=
      mem_notifications_insertTargeted.mpr (Or.inr rfl)
    exact Option.isSome_of_mem (Table.get?_pk hmem)
  · -- no delivery names a notification that is not there yet
    obtain ⟨n, hn⟩ := Option.isSome_iff_exists.mp (h.deliveryNotification d hd)
    rw [Table.get?_of_seq_lt (by rw [hnew]; exact Nat.lt_succ_self _)] at hn
    cases hn

theorem insertDevice (h : db.WellFormed) {mk : ℕ → Device} (hmk : ∀ k, pk (mk k) = k)
    (hfresh : ∀ d ∈ db.devices.rows, d.pushToken ≠ (mk (db.devices.seq + 1)).pushToken) :
    WellFormed { db with devices := db.devices.insert mk hmk } :=
  { h with
    deliveryDevice := h.deliveryDevice.insert_target mk hmk
    linkDevice := h.linkDevice.insert_target mk hmk
    quietPeriodDevice := h.quietPeriodDevice.insert_target mk hmk
    pushTokens := h.pushTokens.insert hmk fun _ d hd _ => hfresh d hd }

theorem insertLink (h : db.WellFormed) (now : Instant) {deviceId applicationId : ℕ}
    (hdevice : (db.devices.get? deviceId).isSome)
    (happlication : (db.applications.get? applicationId).isSome)
    (hfresh : ∀ l ∈ db.links.rows, l.deviceId = deviceId → l.applicationId ≠ applicationId) :
    WellFormed { db with
      links := db.links.insert (newLink now deviceId applicationId) (fun _ => rfl) } :=
  { h with
    linkDevice := h.linkDevice.insert (fun _ => rfl) fun _ => hdevice
    linkApplication := h.linkApplication.insert (fun _ => rfl) fun _ => happlication
    links := h.links.insert (fun _ => rfl) fun _ l hl _ hkey =>
      hfresh l hl (congrArg Prod.fst hkey) (congrArg Prod.snd hkey) }

/-! ### Deletions -/

theorem deleteNotifications (h : db.WellFormed) (p : Notification → Bool) :
    (db.deleteNotifications p).WellFormed :=
  { h with
    notificationApplication := h.notificationApplication.shrinks (Table.shrinks_delete _ _)
    deliveryNotification := h.deliveryNotification.cascade p
    deliveryDevice := h.deliveryDevice.shrinks (Table.shrinks_delete _ _)
    deliveries := h.deliveries.shrinks (Table.shrinks_delete _ _) }

theorem deleteDevices (h : db.WellFormed) (p : Device → Bool) : (db.deleteDevices p).WellFormed :=
  { h with
    deliveryNotification := h.deliveryNotification.shrinks (Table.shrinks_delete _ _)
    deliveryDevice := h.deliveryDevice.cascade p
    linkDevice := h.linkDevice.cascade p
    linkApplication := h.linkApplication.shrinks (Table.shrinks_delete _ _)
    quietPeriodDevice := h.quietPeriodDevice.cascade p
    pushTokens := h.pushTokens.shrinks (Table.shrinks_delete _ _)
    links := h.links.shrinks (Table.shrinks_delete _ _)
    deliveries := h.deliveries.shrinks (Table.shrinks_delete _ _) }

theorem deleteApplications (h : db.WellFormed) (p : Application → Bool) :
    (db.deleteApplications p).WellFormed :=
  { h.deleteNotifications fun n => (db.applications.get? n.applicationId).any p with
    notificationApplication := h.notificationApplication.cascade p
    linkDevice := h.linkDevice.shrinks (Table.shrinks_delete _ _)
    linkApplication := h.linkApplication.cascade p
    quietPeriodApplication := h.quietPeriodApplication.cascade p
    links := h.links.shrinks (Table.shrinks_delete _ _) }

/-! ### Upserts -/

/-- A device gets a token that no other device has. -/
theorem rotate (h : db.WellFormed) (now : Instant) (user : ℕ) (data : DeviceData) {id : ℕ}
    (hfresh : ∀ d ∈ db.devices.rows, d.id ≠ id → d.pushToken ≠ data.pushToken) :
    (db.saveRotated now user data id).WellFormed :=
  { h with
    deliveryDevice := h.deliveryDevice.modify_target id _ (pk_rotateDevice now user data)
    linkDevice := h.linkDevice.modify_target id _ (pk_rotateDevice now user data)
    quietPeriodDevice := h.quietPeriodDevice.modify_target id _ (pk_rotateDevice now user data)
    pushTokens := h.pushTokens.modify_of_fresh (pk_rotateDevice now user data)
      fun _ _ d hd hid _ => hfresh d hd hid }

/-- What is left of the source of a merge names the target, which exists. -/
theorem mergeDeviceInto (h : db.WellFormed) {source target : Device}
    (hsource : db.devices.get? source.id = some source)
    (htarget : db.devices.get? target.id = some target) (hne : source.id ≠ target.id) :
    (db.mergeDeviceInto source.id target.id).WellFormed := by
  have htarget : (db.devices.get? target.id).isSome := by simp [htarget]
  have hkeeps : ∀ l, (mergeLink db source.id target.id l).applicationId = l.applicationId := by
    intro l
    unfold mergeLink
    split <;> rfl
  have hdeliveries : (db.mergeDeviceInto source.id target.id).UniqueDeliveries :=
    Db.UniqueDeliveries.merged h.constrained.deliveries hsource hne
  refine { h with
    deliveryNotification := ?_, deliveryDevice := ?_, linkDevice := ?_, linkApplication := ?_
    quietPeriodDevice := ?_, pushTokens := ?_, links := ?_, deliveries := ?_ }
  · exact (h.deliveryNotification.update_of_eq (pk_moveDelivery target.id) fun _ => rfl).shrinks
      (Table.shrinks_delete _ _)
  · exact (h.deliveryDevice.update (pk_moveDelivery target.id) fun _ _ _ => htarget).cascade _
  · refine (h.linkDevice.update (pk_mergeLink db source.id target.id) fun l hl _ => ?_).cascade _
    unfold mergeLink
    split
    · exact htarget
    · exact h.linkDevice l hl
  · exact (h.linkApplication.update_of_eq (pk_mergeLink db source.id target.id) hkeeps).shrinks
      (Table.shrinks_delete _ _)
  · exact (h.quietPeriodDevice.update (pk_moveDeviceQuietPeriod target.id) fun _ _ _ =>
      htarget).cascade _
  · exact h.pushTokens.shrinks (Table.shrinks_delete _ _)
  · exact fun l hl l' hl' _ _ hkey => h.constrained.links_merged hsource hne l hl l' hl'
      (congrArg Prod.fst hkey) (congrArg Prod.snd hkey)
  · exact fun d hd d' hd' _ _ hkey => hdeliveries d hd d' hd'
      (congrArg Prod.fst hkey) (congrArg Prod.snd hkey)

/-- An upsert gives no token to a second device. -/
theorem upserted (h : db.WellFormed) {now : Instant} {user : ℕ} {data : DeviceData} {u : Upsert}
    (hu : Upserted now db user data u) : u.db.WellFormed := by
  have hunused : selectExistingDevice db data.pushToken = none →
      ∀ d ∈ db.devices.rows, d.pushToken ≠ data.pushToken := by
    intro hnone d hd htoken
    simpa [htoken] using List.find?_eq_none.mp hnone d hd
  cases hu with
  | rotated old hne hold howner hnone =>
    exact h.rotate now user data fun d hd _ => hunused hnone d hd
  | merged old clash hne hold howner hclash hforeign =>
    obtain ⟨holdmem, -⟩ := selectExistingDevice_eq_some hold
    obtain ⟨hclashmem, hclashtoken⟩ := selectExistingDevice_eq_some hclash
    have hdistinct : clash.id ≠ old.id := id_ne_of_pushToken_ne hclash hold hne.symm
    have hmerged := h.mergeDeviceInto (Table.get?_pk hclashmem) (Table.get?_pk holdmem) hdistinct
    refine hmerged.rotate now user data fun d hd _ htoken => ?_
    -- the only device that had the new token was the source
    obtain ⟨hd, hgone⟩ := Table.mem_delete.mp hd
    have heq : d = clash :=
      h.constrained.tokens d hd clash hclashmem (htoken.trans hclashtoken.symm)
    simp [heq] at hgone
  | refreshed d hd =>
    have htaken : (db.takeOverLinks now user d).WellFormed := by
      unfold takeOverLinks
      split
      · exact h.updateLinks _ fun _ => ⟨rfl, rfl⟩
      · exact h
    exact htaken.updateDevices _ fun _ => rfl
  | created hnone => exact h.insertDevice _ (hunused hnone)

/-- A link is created when both of its ends exist and there is none. -/
theorem getOrCreateLink (h : db.WellFormed) (now : Instant) (deviceId applicationId : ℕ) :
    (getOrCreateLink now db deviceId applicationId).1.WellFormed := by
  unfold PushIT.getOrCreateLink
  split
  · split
    · exact h
    · exact h.updateLinks _ fun _ => ⟨rfl, rfl⟩
  · next hnone =>
    split
    · next hboth =>
      obtain ⟨hdevice, happlication⟩ := Bool.and_eq_true_iff.mp hboth
      refine h.insertLink now hdevice happlication fun l hl hdevice happlication => ?_
      have := List.find?_eq_none.mp hnone l hl
      simp [hdevice, happlication] at this
    · exact h

end Db.WellFormed

/-! ### The steps of the server -/

/-- The constraints hold, and a pass that is about to create deliveries has distinct targets. -/
structure World.Integral (w : World) : Prop where
  db : w.db.WellFormed
  targets : ∀ pid p, w.passes pid = some p → ∀ ids, p.stage = .materializing ids → ids.Nodup

variable {now : Instant} {db : Db}

theorem nodup_targetDevices (db : Db) (applicationId : ℕ) :
    ((targetDevices db applicationId).map (·.id)).Nodup :=
  List.Pairwise.map _ (fun _ _ hne => hne) (db.devices.pairwise_pk_ne.filter _)

/-- A pass writes within the constraints. -/
theorem Pass.Moves.wellFormed {cfg : Settings} {n : Notification} {stage : Stage} {s : PassStep}
    (h : Moves cfg now db n stage s) (hdb : db.WellFormed)
    (hnodup : ∀ ids, stage = .materializing ids → ids.Nodup) : s.db.WellFormed := by
  cases h with
  | lapsedClosed | postponed | closed => exact hdb.updateNotifications _ fun _ => rfl
  | lapsedCancelled | cancelled | deferred | sentToSettle | sent | failed =>
    exact hdb.updateDeliveries _ fun _ => ⟨rfl, rfl⟩
  | settled | countedInvalid | counted | invalidated => exact hdb.updateDevices _ fun _ => rfl
  | materialized ids hn hdevices => exact hdb.createDeliveries hn hdevices (hnodup ids rfl)
  | _ => exact hdb

/-- The targets of a pass are the devices it selected. -/
theorem Pass.Moves.nodup_materializing {cfg : Settings} {n : Notification} {stage : Stage}
    {s : PassStep} (h : Moves cfg now db n stage s) {p : Pass} (hp : s.next = some p)
    {ids : List ℕ} (hids : p.stage = .materializing ids) : ids.Nodup := by
  cases h with
  | targeted d ds htargets =>
    obtain rfl := Option.some.inj hp
    obtain rfl := Stage.materializing.inj hids
    rw [← htargets]
    exact nodup_targetDevices db n.applicationId
  | _ =>
    simp only [on, ended, reduceCtorEq, Option.some.injEq] at hp
    try (subst hp; simp at hids)

/-- A request or task under way writes within the constraints. -/
theorem Process.wellFormed_advance (hdb : db.WellFormed) (input : TaskInput) (p : Process) :
    (p.advance now db input).db.WellFormed := by
  cases hp : p.writesNotifications with
  | true =>
    obtain ⟨s, hs, h⟩ := advance_moves now input db hp
    rw [h]
    rcases hs.notifications with hT | ⟨q, f, hf, hT, hkeep⟩
    · rw [hT]
      exact hdb
    · rw [hT]
      exact hdb.updateNotifications hf hkeep
  | false =>
    cases p with
    | destroy id => exact hdb.deleteNotifications _
    | link deviceId applicationId => exact hdb.getOrCreateLink now deviceId applicationId
    | unlink linkId source => exact hdb.updateLinks _ fun _ => ⟨rfl, rfl⟩
    | _ => simp [writesNotifications] at hp

/-- The first occurrences of the elements of a list are distinct. -/
theorem nodup_eraseDups (ids : List ℕ) : ids.eraseDups.Nodup := by
  obtain ⟨k, hk⟩ : ∃ k, ids.length = k := ⟨_, rfl⟩
  induction k using Nat.strong_induction_on generalizing ids with
  | _ k ih =>
    cases ids with
    | nil => exact List.nodup_nil
    | cons id ids =>
      rw [List.eraseDups_cons, List.nodup_cons]
      have hshorter : (ids.filter fun b => !b == id).length < k :=
        hk ▸ Nat.lt_succ_of_le (List.length_filter_le _ _)
      exact ⟨by simp [List.mem_eraseDups], ih _ hshorter _ rfl⟩

/-- The devices of a creation are distinct and exist, as its application does. -/
theorem wellFormed_createNotification (hdb : db.WellFormed) (now : Instant)
    (user applicationId : ℕ) (deviceIds : List ℕ) (data : NotificationData) :
    (createNotification now db user applicationId deviceIds data).1.WellFormed := by
  unfold createNotification
  split
  · next hvalid =>
    split
    · next ids hids =>
      have hnodup : ids.Nodup := by
        unfold normalizedDeviceIds at hids
        simp only [Option.ite_none_right_eq_some, Option.some.injEq] at hids
        rw [← hids.2]
        exact nodup_eraseDups deviceIds
      refine hdb.insertTargeted now data ?_ (isSome_of_normalizedDeviceIds hids) hnodup
      simp only [Bool.and_eq_true, ownActiveApplication] at hvalid
      obtain ⟨a, ha, -⟩ := (Option.any_eq_true _ _).mp hvalid.1
      simp [ha]
    · exact hdb
  · exact hdb

/-- A request begins within the constraints. -/
theorem Request.wellFormed_begin (cfg : Settings) (hdb : db.WellFormed) (r : Request) :
    (r.begin cfg now db).db.WellFormed := by
  cases r with
  | sendNow user applicationId deviceIds data =>
    simp only [begin]
    split
    · exact hdb
    · split
      · exact hdb
      · exact wellFormed_createNotification hdb now user applicationId deviceIds data
  | create user applicationId deviceIds data =>
    exact wellFormed_createNotification hdb now user applicationId deviceIds data
  | hide user id => exact hdb.updateNotifications _ fun _ => rfl
  | broadcast applicationId data =>
    simp only [begin, createBroadcast, Outcome.done]
    split
    · next hvalid =>
      obtain ⟨a, ha, -⟩ := (Option.any_eq_true _ _).mp (Bool.and_eq_true_iff.mp hvalid).1
      exact hdb.insertNotification _ fun _ => by simp [newNotification, ha]
    · exact hdb
  | identify user data => exact hdb.upserted (upsert_cases now db user data)
  | link user data applicationId =>
    simp only [begin]
    split
    · exact hdb.upserted (upsert_cases now db user data)
    · exact hdb
  | createDeviceQuietPeriod user deviceId values =>
    simp only [begin, Db.createDeviceQuietPeriod, Outcome.done]
    split
    · next howner =>
      obtain ⟨d, hd, -⟩ := (Option.any_eq_true _ _).mp howner
      exact { hdb with quietPeriodDevice := hdb.quietPeriodDevice.insert _ fun _ => by simp [hd] }
    · exact hdb
  | updateDeviceQuietPeriod user id values =>
    exact hdb.updateDeviceQuietPeriods _ fun _ => rfl
  | deleteDeviceQuietPeriod user id =>
    exact { hdb with
      quietPeriodDevice := hdb.quietPeriodDevice.shrinks (Table.shrinks_delete _ _) }
  | createApplicationQuietPeriod user applicationId values =>
    simp only [begin, Outcome.done]
    split
    · next howner =>
      obtain ⟨a, ha, -⟩ := Option.map_eq_some_iff.mp howner
      exact { hdb with
        quietPeriodApplication := hdb.quietPeriodApplication.insert _ fun _ => by simp [ha] }
    · exact hdb
  | updateApplicationQuietPeriod user id values =>
    exact hdb.updateApplicationQuietPeriods _ fun _ => rfl
  | deleteApplicationQuietPeriod user id =>
    exact { hdb with
      quietPeriodApplication := hdb.quietPeriodApplication.shrinks (Table.shrinks_delete _ _) }
  | activateApplication user applicationId isActive => exact hdb.updateApplications _
  | destroyDevice user deviceId => exact hdb.deleteDevices _
  | purge => exact (hdb.deleteNotifications _).deleteDevices _
  | deleteAccount user => exact (hdb.deleteDevices _).deleteApplications _
  | _ => exact hdb

/-- Every action of the server keeps the constraints. -/
theorem World.integral_preserves (cfg : Settings) :
    (server cfg).Preserves (fun _ _ => True) World.Integral := by
  intro w a w' hw _ hs
  cases World.step_cases hs with
  | tick | notClaimed => exact ⟨hw.db, hw.targets⟩
  | claimed pid task n =>
    refine ⟨hw.db.updateNotifications _ fun _ => rfl, Pool.forall_set hw.targets fun p hp => ?_⟩
    obtain rfl := Option.some.inj hp
    simp
  | pass pid input p s hp hmoves =>
    refine ⟨hmoves.wellFormed hw.db (hw.targets pid p hp), Pool.forall_set hw.targets ?_⟩
    exact fun p' hnext ids hids => hmoves.nodup_materializing hnext hids
  | crash pid => exact ⟨hw.db, Pool.forall_set hw.targets (by simp)⟩
  | request rid r => exact ⟨r.wellFormed_begin cfg hw.db, hw.targets⟩
  | advance rid input p => exact ⟨p.wellFormed_advance hw.db input, hw.targets⟩

/-! ### The steps of the endpoints -/

/-- A call inserts its row for an application that exists. -/
theorem CreationCall.Advances.wellFormed {c : CreationCall} {stage : CreationStage}
    {step : CreationStep} (h : c.Advances now db stage step) (hdb : db.WellFormed) :
    step.db.WellFormed := by
  cases h with
  | inserted happlication hfree =>
    exact hdb.insertNotification (c.pk_newNotification now) fun _ => happlication
  | _ => exact hdb

/-- No action gives two notifications of an application the same idempotency key. -/
theorem Api.Steps.uniqueKeys {cfg : ApiConfig} {s s' : Api} {a : ApiAction} (h : s.Steps cfg a s')
    (hs : s.world.db.UniqueKeys) : s'.world.db.UniqueKeys := by
  let keyed : Notification → Prop := fun n => n.idempotencyKey ≠ ""
  let key : Notification → ℕ × String := fun n => (n.applicationId, n.idempotencyKey)
  have hunique : s.world.db.notifications.Unique keyed key := fun n hn m hm hkeyed _ hkey =>
    hs n hn m hm (congrArg Prod.fst hkey) (congrArg Prod.snd hkey) hkeyed
  have hunique' : s'.world.db.notifications.Unique keyed key := by
    refine hunique.of_origin fun n' hn' hkeyed => ?_
    cases h.row hn' with
    | old n hn horigin =>
      obtain ⟨hid, happlication, hkey, -⟩ := horigin
      exact Or.inl ⟨n, hn, hid.symm, fun hblank => hkeyed (hkey.trans hblank),
        Prod.ext happlication.symm hkey.symm⟩
    | blank _ hblank => exact absurd hblank hkeyed
    | inserted c hc hfree =>
      refine Or.inr fun m' hm' hkeyed' hsame => ?_
      cases h.row hm' with
      | old m hm horigin =>
        -- the call saw no row with its key
        obtain ⟨hid, happlication, hkey, -⟩ := horigin
        have hnone := (hfree.resolve_left fun hblank => hkeyed (by rw [hc]; exact hblank)) m hm
        have happlication : m.applicationId = c.applicationId :=
          happlication.symm.trans ((congrArg Prod.fst hsame).trans (by rw [hc]; rfl))
        have hkey : m.idempotencyKey = c.idempotencyKey :=
          hkey.symm.trans ((congrArg Prod.snd hsame).trans (by rw [hc]; rfl))
        simp [CreationCall.matches_, happlication, hkey] at hnone
      | blank _ hblank => exact absurd hblank hkeyed'
      | inserted d hd =>
        rw [hc, hd]
        rfl
  intro n hn m hm happlication hkey hkeyed
  have hkeyed' : keyed m := fun hblank => hkeyed (hkey.trans hblank)
  exact hunique' n hn m hm hkeyed hkeyed' (Prod.ext happlication hkey)

/-- The constraints of the schema and what keeps them. -/
structure Api.Integral (s : Api) : Prop where
  world : s.world.Integral
  keys : s.world.db.UniqueKeys

/-- Every action of the server and its endpoints keeps the constraints. -/
theorem Api.integral_preserves (cfg : ApiConfig) :
    (api cfg).Preserves (fun _ _ => True) Api.Integral := by
  intro s a s' hs _ hstep
  have h := Api.step_cases hstep
  refine ⟨?_, h.uniqueKeys hs.keys⟩
  cases h with
  | server a w hw => exact World.integral_preserves cfg.settings hs.world trivial hw
  | created rid input q stage db result hp hcall =>
    rw [(Api.afterCreation_frame cfg ((s.setDb db).recorded q.call result) rid q result).1]
    exact ⟨hcall.wellFormed hs.world.db, hs.world.targets⟩
  | ingested rid input c stage db result hp hcall =>
    exact ⟨hcall.wellFormed hs.world.db, hs.world.targets⟩
  | queueing rid input q id run decided hp =>
    have hdb := (Api.queueStep_frame cfg s rid q id run decided input).1
    have hpasses : (s.queueStep cfg rid q id run decided input).world.passes = s.world.passes := by
      simp only [Api.queueStep]
      split <;> rfl
    refine ⟨?_, hpasses ▸ hs.world.targets⟩
    rw [hdb]
    rcases run.advance_notifications s.world.clock s.world.db.notifications input with
      hT | ⟨p, status, hT⟩
    · rw [hT]
      exact hs.world.db
    · rw [hT]
      exact hs.world.db.updateNotifications _ fun _ => rfl
  | _ => exact hs.world

/-- From a database that satisfies the constraints of its schema, every run of the server and of
its app-token endpoints leads to such databases only: no interleaving of sends, creations,
upserts with their merges, links, deletions with their cascades and purges breaks a foreign key
or a unique column. -/
theorem constraints_hold {cfg : ApiConfig} {s₀ s : Api} (h₀ : s₀.world.Initial)
    (hdb : s₀.world.db.WellFormed) (hkeys : s₀.world.db.UniqueKeys)
    (h : (api cfg).Reach (fun _ _ => True) s₀ s) :
    s.world.db.WellFormed ∧ s.world.db.UniqueKeys := by
  have hintegral : s₀.Integral := ⟨⟨hdb, by simp [h₀.passes]⟩, hkeys⟩
  have hs := h.invariant (Api.integral_preserves cfg) hintegral
  exact ⟨hs.world.db, hs.keys⟩

namespace Sample

/-- Two devices of a user, with a link and a delivery each. -/
def twoDeviceApi : Api := { world := { clock := 0, db := twoRows } }

theorem twoRows_wellFormed : twoRows.WellFormed :=
  ⟨by decide, by decide, by decide, by decide, by decide, by decide, by decide, by decide,
    by decide, by decide⟩

theorem twoRows_uniqueKeys : twoRows.UniqueKeys := by
  unfold Db.UniqueKeys
  decide

end Sample

/-- The devices become one. -/
theorem sample_constraints_hold : ∃ s,
    (api Sample.apiConfig).Reach (fun _ _ => True) Sample.twoDeviceApi s ∧
      s.world.db.devices.rows.length = 1 ∧ s.world.db.WellFormed ∧ s.world.db.UniqueKeys := by
  have hstep : (api Sample.apiConfig).step Sample.twoDeviceApi
    (.server (.request 0 (.identify 2 Sample.renewal))) = some _ := rfl
  have hreach : (api Sample.apiConfig).Reach (fun _ _ => True) Sample.twoDeviceApi _ :=
    (System.Reach.refl _).tail trivial hstep
  exact ⟨_, hreach, by decide, constraints_hold ⟨rfl, rfl, rfl⟩ Sample.twoRows_wellFormed
    Sample.twoRows_uniqueKeys hreach⟩

end PushIT
