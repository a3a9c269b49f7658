import PushIT.ProcessSteps

/-!
# What requests do to the tables

Every request or periodic task begins with one of a few effects: it deletes rows, it writes
notifications, it writes quiet periods of devices, it creates a notification, or it upserts a
device.  The upsert itself has four branches.  The processes that are not about notifications
delete one, write links, or do nothing.

## Main definitions

* `Db.Shrinks`: rows are deleted, and no key is freed.
* `Upserted`, `Request.Begins`, `Process.Advances`: the branches with their effects.

## Main results

* `upsert_cases`, `Request.begin_cases`, `Process.advance_cases`: nothing else happens.
-/

namespace PushIT

open Relational Transition

/-! ### Deletions -/

/-- Rows of the tables about devices and notifications are deleted. -/
structure Db.Shrinks (db db' : Db) : Prop where
  devices : db.devices.Shrinks db'.devices
  deviceQuietPeriods : db.deviceQuietPeriods.Shrinks db'.deviceQuietPeriods
  links : db.links.Shrinks db'.links
  notifications : db.notifications.Shrinks db'.notifications
  deliveries : db.deliveries.Shrinks db'.deliveries

namespace Db.Shrinks

theorem refl (db : Db) : Shrinks db db := ⟨.refl _, .refl _, .refl _, .refl _, .refl _⟩

theorem trans {a b c : Db} (h : Shrinks a b) (h' : Shrinks b c) : Shrinks a c where
  devices := h.devices.trans h'.devices
  deviceQuietPeriods := h.deviceQuietPeriods.trans h'.deviceQuietPeriods
  links := h.links.trans h'.links
  notifications := h.notifications.trans h'.notifications
  deliveries := h.deliveries.trans h'.deliveries

theorem deleteNotifications (db : Db) (p : Notification → Bool) :
    Shrinks db (db.deleteNotifications p) :=
  ⟨.refl _, .refl _, .refl _, Table.shrinks_delete _ _, Table.shrinks_delete _ _⟩

theorem deleteDevices (db : Db) (p : Device → Bool) : Shrinks db (db.deleteDevices p) :=
  ⟨Table.shrinks_delete _ _, Table.shrinks_delete _ _, Table.shrinks_delete _ _, .refl _,
    Table.shrinks_delete _ _⟩

theorem deleteApplications (db : Db) (p : Application → Bool) :
    Shrinks db (db.deleteApplications p) :=
  (deleteNotifications db fun n => (db.applications.get? n.applicationId).any p).trans
    ⟨.refl _, .refl _, Table.shrinks_delete _ _, .refl _, .refl _⟩

end Db.Shrinks

/-! ### Upserts -/

theorem selectExistingDevice_eq_some {db : Db} {pushToken : String} {d : Device}
    (h : selectExistingDevice db pushToken = some d) :
    d ∈ db.devices.rows ∧ d.pushToken = pushToken :=
  ⟨List.mem_of_find?_eq_some h, by simpa using List.find?_some h⟩

/-- The rows of two tokens are two rows. -/
theorem id_ne_of_pushToken_ne {db : Db} {a b : String} {d e : Device}
    (hd : selectExistingDevice db a = some d) (he : selectExistingDevice db b = some e)
    (h : a ≠ b) : d.id ≠ e.id := by
  obtain ⟨hdmem, hda⟩ := selectExistingDevice_eq_some hd
  obtain ⟨hemem, heb⟩ := selectExistingDevice_eq_some he
  intro heq
  obtain rfl := Table.eq_of_pk hdmem hemem heq
  exact h (hda.symm.trans heb)

theorem pk_mergeLink (db : Db) (source target : ℕ) (l : DeviceApplicationLink) :
    pk (mergeLink db source target l) = pk l := by
  unfold mergeLink
  split <;> rfl

/-- After a merge nothing refers to the source: its rows went to the target, or with it. -/
private theorem get?_any_source {db : Db} {source : ℕ} {s : Device}
    (hs : db.devices.get? source = some s) {k : ℕ}
    (h : ((db.devices.get? k).any fun d => d.id == source) = false) : k ≠ source := by
  rintro rfl
  simp [hs, (Table.get?_eq_some.mp hs).2, ← pk_device] at h

/-- The links after a merge. -/
theorem mem_links_mergeDeviceInto {db : Db} {source target : ℕ} {s : Device}
    (hs : db.devices.get? source = some s) {l' : DeviceApplicationLink}
    (hl' : l' ∈ (db.mergeDeviceInto source target).links.rows) :
    ∃ l ∈ db.links.rows,
      (l' = l ∧ l.deviceId ≠ source ∧ linkRevives db source target l = false) ∨
      (l' = { l with deviceId := target } ∧ l.deviceId = source) ∨
      (l' = activateLink l ∧ l.deviceId = target ∧ linkRevives db source target l = true) := by
  change l' ∈ ((db.links.update (fun l => linkMoves db source target l ||
      linkRevives db source target l) (mergeLink db source target)
        (pk_mergeLink db source target)).delete
      fun l => (db.devices.get? l.deviceId).any fun d => d.id == source).rows at hl'
  obtain ⟨hmem, hgone⟩ := Table.mem_delete.mp hl'
  obtain ⟨l, hl, rfl⟩ := Table.mem_update.mp hmem
  have hne := get?_any_source hs hgone
  refine ⟨l, hl, ?_⟩
  by_cases hmoves : linkMoves db source target l = true
  · right; left
    simp only [hmoves, Bool.true_or, if_true, mergeLink] at hne ⊢
    simp only [linkMoves, Bool.and_eq_true, beq_iff_eq] at hmoves
    exact ⟨trivial, hmoves.1⟩
  · by_cases hrevives : linkRevives db source target l = true
    · right; right
      simp only [Bool.not_eq_true] at hmoves
      simp only [hmoves, hrevives, Bool.false_or, if_true, mergeLink, Bool.false_eq_true, if_false]
      simp only [linkRevives, Bool.and_eq_true, beq_iff_eq] at hrevives
      exact ⟨trivial, hrevives.1.1, trivial⟩
    · left
      simp only [Bool.not_eq_true] at hmoves hrevives
      simp only [hmoves, hrevives, Bool.or_self, Bool.false_eq_true, if_false] at hne ⊢
      exact ⟨trivial, hne, trivial⟩

/-- The deliveries after a merge. -/
theorem mem_deliveries_mergeDeviceInto {db : Db} {source target : ℕ} {s : Device}
    (hs : db.devices.get? source = some s) {d' : NotificationDelivery}
    (hd' : d' ∈ (db.mergeDeviceInto source target).deliveries.rows) :
    ∃ d ∈ db.deliveries.rows, (d' = d ∧ d.deviceId ≠ source) ∨
      (d' = { d with deviceId := target } ∧ d.deviceId = source) := by
  change d' ∈ ((db.deliveries.update (deliveryMoves db source target)
      (fun d => { d with deviceId := target }) (fun _ => rfl)).delete
      fun d => (db.devices.get? d.deviceId).any fun d => d.id == source).rows at hd'
  obtain ⟨hmem, hgone⟩ := Table.mem_delete.mp hd'
  obtain ⟨d, hd, rfl⟩ := Table.mem_update.mp hmem
  have hne := get?_any_source hs hgone
  refine ⟨d, hd, ?_⟩
  split at hne
  · next hmoves =>
    rw [if_pos hmoves]
    simp only [deliveryMoves, Bool.and_eq_true, beq_iff_eq] at hmoves
    exact Or.inr ⟨rfl, hmoves.1⟩
  · next hmoves =>
    rw [if_neg hmoves]
    exact Or.inl ⟨rfl, hne⟩

/-- The quiet periods after a merge. -/
theorem mem_deviceQuietPeriods_mergeDeviceInto {db : Db} {source target : ℕ} {s : Device}
    (hs : db.devices.get? source = some s) {q' : DeviceQuietPeriod}
    (hq' : q' ∈ (db.mergeDeviceInto source target).deviceQuietPeriods.rows) :
    ∃ q ∈ db.deviceQuietPeriods.rows, (q' = q ∧ q.deviceId ≠ source) ∨
      (q' = { q with deviceId := target } ∧ q.deviceId = source) := by
  change q' ∈ ((db.deviceQuietPeriods.update (fun q => q.deviceId == source)
      (fun q => { q with deviceId := target }) (fun _ => rfl)).delete
      fun q => (db.devices.get? q.deviceId).any fun d => d.id == source).rows at hq'
  obtain ⟨hmem, hgone⟩ := Table.mem_delete.mp hq'
  obtain ⟨q, hq, rfl⟩ := Table.mem_update.mp hmem
  have hne := get?_any_source hs hgone
  refine ⟨q, hq, ?_⟩
  split at hne
  · next hsource =>
    rw [if_pos hsource]
    exact Or.inr ⟨rfl, by simpa using hsource⟩
  · next hsource =>
    rw [if_neg hsource]
    exact Or.inl ⟨rfl, hne⟩

/-- The branches of an upsert: the token of an own device is replaced, the device that has the
new token already is merged into the own one, the device with the token is refreshed, or a device
is created. -/
inductive Upserted (now : Instant) (db : Db) (user : ℕ) (data : DeviceData) : Upsert → Prop
  | rotated (old) (hne : data.previousPushToken ≠ data.pushToken)
      (hold : selectExistingDevice db data.previousPushToken = some old)
      (howner : old.userId = some user) (hnone : selectExistingDevice db data.pushToken = none) :
      Upserted now db user data
        { db := db.saveRotated now user data old.id, deviceId := old.id }
  | merged (old clash) (hne : data.previousPushToken ≠ data.pushToken)
      (hold : selectExistingDevice db data.previousPushToken = some old)
      (howner : old.userId = some user)
      (hclash : selectExistingDevice db data.pushToken = some clash)
      (hforeign : clash.isForeign user = false) :
      Upserted now db user data
        { db := (db.mergeDeviceInto clash.id old.id).saveRotated now user data old.id
          deviceId := old.id
          events := mergeEvents db clash.id old.id }
  | refreshed (d) (hd : selectExistingDevice db data.pushToken = some d) :
      Upserted now db user data { db := db.refreshDevice now user data d, deviceId := d.id }
  | created (hnone : selectExistingDevice db data.pushToken = none) :
      Upserted now db user data
        { db := { db with devices := db.devices.insert (newDevice now user data) (fun _ => rfl) }
          deviceId := db.devices.seq + 1
          created := true }

/-- An upsert takes one of these branches. -/
theorem upsert_cases (now : Instant) (db : Db) (user : ℕ) (data : DeviceData) :
    Upserted now db user data (upsertAuthenticatedDevice now db user data) := by
  unfold upsertAuthenticatedDevice
  split
  · next rotated hrotated =>
    unfold rotatePushToken at hrotated
    split at hrotated
    · simp at hrotated
    · next hprevious =>
      have hne : data.previousPushToken ≠ data.pushToken := fun h => hprevious (Or.inr h)
      split at hrotated
      · simp at hrotated
      · next old hold =>
        split at hrotated
        · simp at hrotated
        · next howner =>
          split at hrotated
          · next hnone =>
            obtain rfl := Option.some.inj hrotated
            exact .rotated old hne hold (not_not.mp howner) hnone
          · next clash hclash =>
            split at hrotated
            · simp at hrotated
            · next hforeign =>
              obtain rfl := Option.some.inj hrotated
              exact .merged old clash hne hold (not_not.mp howner) hclash (by simpa using hforeign)
  · split
    · next d hd => exact .refreshed d hd
    · next hnone => exact .created hnone

/-- The devices after an upsert: the one it wrote, with the owner and the token of the request,
and the others as they were. -/
theorem Upserted.device_cases {now : Instant} {db : Db} {user : ℕ} {data : DeviceData}
    {u : Upsert} (hu : Upserted now db user data u) {d' : Device}
    (hd' : d' ∈ u.db.devices.rows) :
    (d' ∈ db.devices.rows ∧ d'.id ≠ u.deviceId) ∨
      (d'.id = u.deviceId ∧ d'.userId = some user ∧ d'.pushToken = data.pushToken) := by
  cases hu with
  | rotated old hne hold howner hnone =>
    change d' ∈ (db.devices.modify old.id (rotateDevice now user data)
      (pk_rotateDevice now user data)).rows at hd'
    obtain ⟨d, hd, rfl⟩ := Table.mem_modify.mp hd'
    split
    · next hid => exact Or.inr ⟨hid, rfl, rfl⟩
    · next hid => exact Or.inl ⟨hd, hid⟩
  | merged old clash hne hold howner hclash hforeign =>
    change d' ∈ ((db.devices.delete fun d => d.id == clash.id).modify old.id
      (rotateDevice now user data) (pk_rotateDevice now user data)).rows at hd'
    obtain ⟨d, hd, rfl⟩ := Table.mem_modify.mp hd'
    split
    · next hid => exact Or.inr ⟨hid, rfl, rfl⟩
    · next hid => exact Or.inl ⟨(Table.mem_delete.mp hd).1, hid⟩
  | refreshed r hr =>
    have hdevices : (db.takeOverLinks now user r).devices = db.devices := by
      unfold Db.takeOverLinks
      split <;> rfl
    change d' ∈ ((db.takeOverLinks now user r).devices.modify r.id
      (applyDeviceFields now user data) (pk_applyDeviceFields now user data)).rows at hd'
    rw [hdevices] at hd'
    obtain ⟨d, hd, rfl⟩ := Table.mem_modify.mp hd'
    obtain ⟨hmem, htoken⟩ := selectExistingDevice_eq_some hr
    split
    · next hid =>
      obtain rfl := Table.eq_of_pk hd hmem hid
      exact Or.inr ⟨hid, rfl, htoken⟩
    · next hid => exact Or.inl ⟨hd, hid⟩
  | created hnone =>
    change d' ∈ (db.devices.insert (newDevice now user data) (pk_newDevice now user data)).rows
      at hd'
    rcases Table.mem_insert.mp hd' with hd | rfl
    · exact Or.inl ⟨hd, (Nat.lt_succ_of_le (db.devices.bounded d' hd)).ne⟩
    · exact Or.inr ⟨rfl, rfl, rfl⟩

/-- An upsert writes a device that exists, or a new one. -/
theorem Upserted.deviceId_cases {now : Instant} {db : Db} {user : ℕ} {data : DeviceData}
    {u : Upsert} (hu : Upserted now db user data u) :
    (∃ d ∈ db.devices.rows, d.id = u.deviceId) ∨ u.deviceId = db.devices.seq + 1 := by
  cases hu with
  | rotated old hne hold => exact Or.inl ⟨old, (selectExistingDevice_eq_some hold).1, rfl⟩
  | merged old clash hne hold => exact Or.inl ⟨old, (selectExistingDevice_eq_some hold).1, rfl⟩
  | refreshed d hd => exact Or.inl ⟨d, (selectExistingDevice_eq_some hd).1, rfl⟩
  | created hnone => exact Or.inr rfl

/-- An upsert hands out at most one new key. -/
theorem Upserted.seq_devices {now : Instant} {db : Db} {user : ℕ} {data : DeviceData}
    {u : Upsert} (hu : Upserted now db user data u) :
    db.devices.seq ≤ u.db.devices.seq := by
  cases hu with
  | rotated | merged => exact le_rfl
  | refreshed r hr => exact (db.seq_devices_refreshDevice now user data r).ge
  | created hnone => exact Nat.le_succ _

/-! ### Requests -/

/-- What a request does when it begins. -/
inductive Request.Begins (now : Instant) (db : Db) : Request → Outcome → Prop
  | shrinks (r o) (h : db.Shrinks o.db) (hevents : o.events = []) : Begins now db r o
  | hides (r o p hp)
      (h : o.db = { db with
        notifications := db.notifications.update p (fun n => { n with isVisible := false }) hp })
      (hevents : o.events = []) (hr : ∃ user id, r = .hide user id)
      (hpending : ∀ n, p n = true → n.status ∉ pendingStatuses) : Begins now db r o
  | broadcasts (applicationId data hp) (o : Outcome)
      (h : o.db = { db with
        notifications := db.notifications.insert (newNotification now applicationId data) hp })
      (hevents : o.events = []) : Begins now db (.broadcast applicationId data) o
  | creates (r o applicationId deviceIds data)
      (h : o.db = db.insertTargeted now applicationId deviceIds data)
      (hevents : o.events = .created (db.notifications.seq + 1) deviceIds ::
        deliveriesAttached db (db.insertTargeted now applicationId deviceIds data))
      (hdevices : ∀ k ∈ deviceIds, (db.devices.get? k).isSome) : Begins now db r o
  | upserts (r o user data u) (hu : Upserted now db user data u) (h : o.db = u.db)
      (hevents : o.events = u.events)
      (hr : r = .identify user data ∨ ∃ applicationId, r = .link user data applicationId) :
      Begins now db r o
  | silences (user deviceId values hp) (o : Outcome) (howner : db.ownsDevice user deviceId = true)
      (h : o.db = { db with
        deviceQuietPeriods := db.deviceQuietPeriods.insert
          (fun id => { values with id, deviceId }) hp })
      (hevents : o.events =
        [.attached (.quietPeriod (db.deviceQuietPeriods.seq + 1)) (some user)]) :
      Begins now db (.createDeviceQuietPeriod user deviceId values) o
  | adjusts (user id values hp) (o : Outcome)
      (h : o.db = { db with
        deviceQuietPeriods := db.deviceQuietPeriods.update
          (fun r => r.id == id && db.ownsDevice user r.deviceId)
          (fun r => { r with toAbstractQuietPeriod := values }) hp })
      (hevents : o.events = []) : Begins now db (.updateDeviceQuietPeriod user id values) o

/-- Nothing else happens when a request begins. -/
theorem Request.begin_cases (cfg : Settings) (now : Instant) (db : Db) (r : Request) :
    Begins now db r (r.begin cfg now db) := by
  cases r with
  | send caller ids => exact .shrinks _ _ (.refl _) rfl
  | dispatchScheduled | retryPending | requeueStuck => exact .shrinks _ _ (.refl _) rfl
  | patch user id data | destroy user id => exact .shrinks _ _ (.refl _) rfl
  | unlink user pushToken applicationId source => exact .shrinks _ _ (.refl _) rfl
  | evict user applicationId deviceId => exact .shrinks _ _ (.refl _) rfl
  | sendNow user applicationId deviceIds data =>
    simp only [begin]
    split
    · exact .shrinks _ _ (.refl _) rfl
    · rcases createNotification_cases now db user applicationId deviceIds data with
        h | ⟨ids, hids, h⟩ <;> rw [h]
      · exact .shrinks _ _ (.refl _) rfl
      · exact .creates _ _ applicationId ids data rfl rfl (isSome_of_normalizedDeviceIds hids)
  | create user applicationId deviceIds data =>
    simp only [begin]
    rcases createNotification_cases now db user applicationId deviceIds data with
      h | ⟨ids, hids, h⟩ <;> rw [h]
    · exact .shrinks _ _ (.refl _) rfl
    · exact .creates _ _ applicationId ids data rfl rfl (isSome_of_normalizedDeviceIds hids)
  | hide user id =>
    refine .hides _ _ _ (fun _ => rfl) rfl rfl ⟨user, id, rfl⟩ fun n hn => ?_
    simp only [Bool.and_eq_true, Bool.not_eq_true', List.contains_eq_mem,
      decide_eq_false_iff_not] at hn
    exact hn.2
  | broadcast applicationId data =>
    simp only [begin, createBroadcast]
    split
    · exact .broadcasts _ _ (pk_newNotification now applicationId data) _ rfl rfl
    · exact .shrinks _ _ (.refl _) rfl
  | identify user data =>
    exact .upserts _ _ user data _ (upsert_cases now db user data) rfl rfl (Or.inl rfl)
  | link user data applicationId =>
    simp only [begin]
    split
    · exact .upserts _ _ user data _ (upsert_cases now db user data) rfl rfl
        (Or.inr ⟨applicationId, rfl⟩)
    · exact .shrinks _ _ (.refl _) rfl
  | createDeviceQuietPeriod user deviceId values =>
    simp only [begin, Db.createDeviceQuietPeriod]
    split
    · next howner => exact .silences _ _ _ (fun _ => rfl) _ howner rfl rfl
    · exact .shrinks _ _ (.refl _) rfl
  | updateDeviceQuietPeriod user id values => exact .adjusts _ _ _ (fun _ => rfl) _ rfl rfl
  | deleteDeviceQuietPeriod user id =>
    exact .shrinks _ _ ⟨.refl _, Table.shrinks_delete _ _, .refl _, .refl _, .refl _⟩ rfl
  | createApplicationQuietPeriod user applicationId values =>
    simp only [begin, Outcome.done]
    split
    · exact .shrinks _ _ ⟨.refl _, .refl _, .refl _, .refl _, .refl _⟩ rfl
    · exact .shrinks _ _ (.refl _) rfl
  | updateApplicationQuietPeriod user id values =>
    exact .shrinks _ _ ⟨.refl _, .refl _, .refl _, .refl _, .refl _⟩ rfl
  | deleteApplicationQuietPeriod user id =>
    exact .shrinks _ _ ⟨.refl _, .refl _, .refl _, .refl _, .refl _⟩ rfl
  | activateApplication user applicationId isActive =>
    exact .shrinks _ _ ⟨.refl _, .refl _, .refl _, .refl _, .refl _⟩ rfl
  | destroyDevice user deviceId => exact .shrinks _ _ (.deleteDevices db _) rfl
  | purge =>
    exact .shrinks _ _ ((Db.Shrinks.deleteNotifications db _).trans (.deleteDevices _ _)) rfl
  | deleteAccount user =>
    exact .shrinks _ _ ((Db.Shrinks.deleteDevices db _).trans (.deleteApplications _ _)) rfl

/-! ### Processes -/

/-- What a step of a process does. -/
inductive Process.Advances (now : Instant) (db : Db) (input : TaskInput) :
    Process → Outcome → Prop
  | moves (p s) (h : Moves now db.notifications input p s) :
      Advances now db input p
        { next := s.next
          db := { db with notifications := s.notifications }
          submitted := s.submitted
          events := s.events }
  | destroyed (id) :
      Advances now db input (.destroy id)
        { next := none
          db := db.deleteNotifications fun n => n.id == id
          events := ((db.notifications.get? id).map fun n => .removed id n.status).toList }
  | linkKept (deviceId applicationId) :
      Advances now db input (.link deviceId applicationId) { next := none, db := db }
  | linkActivated (deviceId applicationId l hf) (hl : l ∈ db.links.rows)
      (hdevice : l.deviceId = deviceId) :
      Advances now db input (.link deviceId applicationId)
        { next := none
          db := { db with links := db.links.modify l.id activateLink hf }
          events := [.attached (.link l.id) (db.ownerOf deviceId)] }
  | linkCreated (deviceId applicationId hmk) :
      Advances now db input (.link deviceId applicationId)
        { next := none
          db := { db with links := db.links.insert (newLink now deviceId applicationId) hmk }
          events := [.attached (.link (db.links.seq + 1)) (db.ownerOf deviceId)] }
  | unlinked (linkId source hf) :
      Advances now db input (.unlink linkId source)
        { next := none
          db := { db with links := db.links.modify linkId (deactivateLink now source) hf } }

/-- A process does nothing else. -/
theorem Process.advance_cases (now : Instant) (db : Db) (input : TaskInput) (p : Process) :
    Advances now db input p (p.advance now db input) := by
  cases hp : p.writesNotifications with
  | true =>
    obtain ⟨s, hs, h⟩ := advance_moves now input db hp
    rw [h]
    exact .moves p s hs
  | false =>
    cases p with
    | destroy id => exact .destroyed id
    | link deviceId applicationId =>
      simp only [advance, getOrCreateLink]
      split
      · next l hl =>
        have hmem := List.mem_of_find?_eq_some hl
        have hdevice : l.deviceId = deviceId := by
          have := List.find?_some hl
          simp only [Bool.and_eq_true, beq_iff_eq] at this
          exact this.1
        split
        · exact .linkKept deviceId applicationId
        · exact .linkActivated deviceId applicationId l (fun _ => rfl) hmem hdevice
      · split
        · exact .linkCreated deviceId applicationId (fun _ => rfl)
        · exact .linkKept deviceId applicationId
    | unlink linkId source => exact .unlinked linkId source (fun _ => rfl)
    | _ => simp [writesNotifications] at hp

/-! ### Keys -/

/-- The events of the processes are queueings, edits, removals and links. -/
theorem Process.Advances.events {now : Instant} {db : Db} {input : TaskInput} {p : Process}
    {o : Outcome} (h : Advances now db input p o) {e : Event} (he : e ∈ o.events) :
    (∃ id source, e = .queued id source now) ∨ (∃ id found d, e = .edited id found d) ∨
      (∃ id found, e = .removed id found) ∨ ∃ l owner, e = .attached (.link l) owner := by
  cases h with
  | moves p s hmoves => exact (hmoves.events he).imp id Or.inl
  | destroyed id =>
    obtain ⟨n, -, rfl⟩ := Option.map_eq_some_iff.mp (Option.mem_toList.mp he)
    exact Or.inr (Or.inr (Or.inl ⟨id, n.status, rfl⟩))
  | linkActivated | linkCreated =>
    exact Or.inr (Or.inr (Or.inr ⟨_, _, List.mem_singleton.mp he⟩))
  | _ => simp at he

/-- The processes leave the devices and their quiet periods alone, add no delivery and number no
notification. -/
theorem Process.Advances.frame {now : Instant} {db : Db} {input : TaskInput} {p : Process}
    {o : Outcome} (h : Advances now db input p o) :
    o.db.devices = db.devices ∧ o.db.deviceQuietPeriods = db.deviceQuietPeriods ∧
      db.deliveries.Shrinks o.db.deliveries ∧
      o.db.notifications.seq = db.notifications.seq := by
  cases h with
  | moves p s hmoves =>
    refine ⟨rfl, rfl, .refl _, ?_⟩
    rcases hmoves.notifications with hT | ⟨q, f, hf, hT, -⟩ <;> simp only [hT]
    rfl
  | destroyed id => exact ⟨rfl, rfl, Table.shrinks_delete _ _, rfl⟩
  | _ => exact ⟨rfl, rfl, .refl _, rfl⟩

/-- The sequences of a request only grow. -/
theorem Request.Begins.seq_le {now : Instant} {db : Db} {r : Request} {o : Outcome}
    (h : Begins now db r o) :
    db.devices.seq ≤ o.db.devices.seq ∧ db.notifications.seq ≤ o.db.notifications.seq := by
  cases h with
  | shrinks r o h hevents => exact ⟨h.devices.seq.ge, h.notifications.seq.ge⟩
  | upserts r o user data u hu h =>
    rw [h]
    refine ⟨hu.seq_devices, ?_⟩
    cases hu with
    | refreshed d hd => rw [Db.notifications_refreshDevice]
    | _ => exact le_rfl
  | hides r o p hp h | broadcasts applicationId data hp o h | creates r o applicationId ids data h
  | silences user deviceId values hp o howner h | adjusts user id values hp o h =>
    rw [h]
    exact ⟨le_rfl, by simp [Db.insertTargeted]⟩

/-- A request creates no device under an old key. -/
theorem Request.Begins.get?_device_eq_none {now : Instant} {db : Db} {r : Request} {o : Outcome}
    (h : Begins now db r o) {k : ℕ} (hk : k ≤ db.devices.seq) (hnone : db.devices.get? k = none) :
    o.db.devices.get? k = none := by
  have hrows := Table.get?_eq_none.mp hnone
  refine Table.get?_eq_none.mpr fun d hd => ?_
  cases h with
  | shrinks r o h hevents => exact hrows d (h.devices.rows d hd)
  | upserts r o user data u hu h =>
    rw [h] at hd
    rcases hu.device_cases hd with ⟨hold, -⟩ | ⟨hid, -, -⟩
    · exact hrows d hold
    · rintro rfl
      rcases hu.deviceId_cases with ⟨d₀, hd₀, heq⟩ | heq
      · exact hrows d₀ hd₀ (heq.trans hid.symm)
      · have : d.id = db.devices.seq + 1 := hid.trans heq
        simp only [pk_device] at hk
        omega
  | hides r o p hp h | broadcasts applicationId data hp o h | creates r o applicationId ids data h
  | silences user deviceId values hp o howner h | adjusts user id values hp o h =>
    rw [h] at hd
    exact hrows d hd

end PushIT
