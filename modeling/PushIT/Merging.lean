import PushIT.RequestSteps
import PushIT.Sending

/-!
# Merging two devices of a user

A rotation whose new push token is already that of another device of the user merges that device,
the source, into the one with the previous token, the target.  Links, deliveries and quiet periods
are moved with three different rules for what the target has already, and what is left on the
source is deleted with it.

## Main definitions

* `Db.Constrained`: the uniqueness constraints on devices, links and deliveries.
* `Db.MergedInto`: what a merge without loss leaves.

## Main results

* `mem_links_merged_iff`, `mem_deliveries_merged_iff`, `mem_deviceQuietPeriods_merged_iff`: the rows
  after the merge.
* `merge_is_lossless`: the rotation leaves what it should.
-/

namespace PushIT

open Relational

/-- The unique push token, `uniq_device_application` and `uniq_notification_device`. -/
structure Db.Constrained (db : Db) : Prop where
  tokens : ∀ d ∈ db.devices.rows, ∀ d' ∈ db.devices.rows, d.pushToken = d'.pushToken → d = d'
  links : ∀ l ∈ db.links.rows, ∀ l' ∈ db.links.rows, l.deviceId = l'.deviceId →
    l.applicationId = l'.applicationId → l = l'
  deliveries : ∀ d ∈ db.deliveries.rows, ∀ d' ∈ db.deliveries.rows,
    d.notificationId = d'.notificationId → d.deviceId = d'.deviceId → d = d'

/-- The device rows have one delivery of a notification at most: `uniq_notification_device`. -/
def Db.UniqueDeliveries (db : Db) : Prop :=
  ∀ d ∈ db.deliveries.rows, ∀ d' ∈ db.deliveries.rows, d.notificationId = d'.notificationId →
    d.deviceId = d'.deviceId → d = d'

/-- The device has an active link to the application. -/
def Db.ActivelyLinked (db : Db) (deviceId applicationId : ℕ) : Prop :=
  ∃ l ∈ db.links.rows, l.deviceId = deviceId ∧ l.applicationId = applicationId ∧ l.isActive = true

/-- The device has a delivery of the notification. -/
def Db.HasDelivery (db : Db) (deviceId notificationId : ℕ) : Prop :=
  ∃ d ∈ db.deliveries.rows, d.deviceId = deviceId ∧ d.notificationId = notificationId

/-- Nothing is lost when `source` becomes part of `target`, which then carries `pushToken`. -/
structure Db.MergedInto (db db' : Db) (source target : ℕ) (pushToken : String) : Prop where
  token : ∃ t ∈ db'.devices.rows, t.id = target ∧ t.pushToken = pushToken ∧
    ∀ d ∈ db'.devices.rows, d.pushToken = pushToken → d = t
  sourceGone : db'.devices.get? source = none
  applications : ∀ a, db'.ActivelyLinked target a ↔
    db.ActivelyLinked source a ∨ db.ActivelyLinked target a
  notifications : ∀ n, db'.HasDelivery target n ↔ db.HasDelivery source n ∨ db.HasDelivery target n
  quietPeriods : ∀ q : DeviceQuietPeriod, q ∈ db'.deviceQuietPeriods.rows ∧ q.deviceId = target ↔
    ∃ p ∈ db.deviceQuietPeriods.rows, (p.deviceId = source ∨ p.deviceId = target) ∧
      q = { p with deviceId := target }
  constrained : db'.Constrained
  otherDevices : ∀ d : Device, d.id ≠ source → d.id ≠ target →
    (d ∈ db'.devices.rows ↔ d ∈ db.devices.rows)
  otherLinks : ∀ l : DeviceApplicationLink, l.deviceId ≠ source → l.deviceId ≠ target →
    (l ∈ db'.links.rows ↔ l ∈ db.links.rows)
  otherDeliveries : ∀ d : NotificationDelivery, d.deviceId ≠ source → d.deviceId ≠ target →
    (d ∈ db'.deliveries.rows ↔ d ∈ db.deliveries.rows)
  otherQuietPeriods : ∀ q : DeviceQuietPeriod, q.deviceId ≠ source → q.deviceId ≠ target →
    (q ∈ db'.deviceQuietPeriods.rows ↔ q ∈ db.deviceQuietPeriods.rows)

variable {db : Db} {source target : ℕ} {s : Device}

/-! ### The rows after the merge -/

/-- The cascade takes what refers to the source. -/
private theorem any_source_iff (hs : db.devices.get? source = some s) {k : ℕ} :
    ((db.devices.get? k).any fun d => d.id == source) = false ↔ k ≠ source := by
  constructor
  · rintro h rfl
    simp [hs, (Table.get?_eq_some.mp hs).2, ← pk_device] at h
  · intro hne
    cases hd : db.devices.get? k with
    | none => rfl
    | some d =>
      have hid : d.id = k := (Table.get?_eq_some.mp hd).2
      simpa [hid] using hne

theorem linkMoves_eq_true {l : DeviceApplicationLink} :
    linkMoves db source target l = true ↔ l.deviceId = source ∧ ∀ t ∈ db.links.rows,
      t.deviceId = target → t.applicationId ≠ l.applicationId := by
  simp [linkMoves]

theorem linkRevives_eq_true {t : DeviceApplicationLink} :
    linkRevives db source target t = true ↔ t.deviceId = target ∧ t.isActive = false ∧
      ∃ l ∈ db.links.rows, l.deviceId = source ∧ l.isActive = true ∧
        l.applicationId = t.applicationId := by
  simp [linkRevives, and_assoc]

theorem linkRevives_of_active {t : DeviceApplicationLink} (h : t.isActive = true) :
    linkRevives db source target t = false :=
  Bool.eq_false_iff.mpr fun hrevives => by
    rw [(linkRevives_eq_true.mp hrevives).2.1] at h
    cases h

theorem deliveryMoves_eq_true {d : NotificationDelivery} :
    deliveryMoves db source target d = true ↔ d.deviceId = source ∧ ∀ t ∈ db.deliveries.rows,
      t.deviceId = target → t.notificationId ≠ d.notificationId := by
  simp [deliveryMoves]

/-- The links: those of other devices and those of the target that stay as they are, those that
move, and those that are switched on again. -/
theorem mem_links_merged_iff (hs : db.devices.get? source = some s) (hne : source ≠ target)
    {l' : DeviceApplicationLink} :
    l' ∈ (db.mergeDeviceInto source target).links.rows ↔
      ∃ l ∈ db.links.rows,
        (l' = l ∧ l.deviceId ≠ source ∧ linkRevives db source target l = false) ∨
        (l' = { l with deviceId := target } ∧ linkMoves db source target l = true) ∨
        (l' = activateLink l ∧ linkRevives db source target l = true) := by
  change l' ∈ ((db.links.update (fun l => linkMoves db source target l ||
      linkRevives db source target l) (mergeLink db source target)
        (pk_mergeLink db source target)).delete
      fun l => (db.devices.get? l.deviceId).any fun d => d.id == source).rows ↔ _
  rw [Table.mem_delete, any_source_iff hs, Table.mem_update, ← exists_and_right]
  refine exists_congr fun l => ?_
  rw [and_assoc]
  refine and_congr_right fun _ => ?_
  unfold mergeLink
  cases hmoves : linkMoves db source target l with
  | true =>
    have hfrom := (linkMoves_eq_true.mp hmoves).1
    have hnever : linkRevives db source target l = false :=
      Bool.eq_false_iff.mpr fun h => hne (hfrom.symm.trans (linkRevives_eq_true.mp h).1)
    simp only [hnever, Bool.or_false, if_true, Bool.false_eq_true, hfrom, ne_eq,
      not_true_eq_false, and_false, or_false, false_or, and_true]
    constructor
    · exact fun h => h.1
    · rintro rfl
      exact ⟨rfl, hne.symm⟩
  | false =>
    cases hrevives : linkRevives db source target l with
    | true =>
      have hon := (linkRevives_eq_true.mp hrevives).1
      simp only [Bool.false_or, if_true, Bool.false_eq_true, if_false, Bool.true_eq_false,
        and_false, false_or, and_true]
      constructor
      · exact fun h => h.1
      · rintro rfl
        exact ⟨rfl, hon ▸ hne.symm⟩
    | false =>
      simp only [Bool.or_self, Bool.false_eq_true, if_false, and_false, or_false, and_true]
      constructor
      · rintro ⟨rfl, h⟩
        exact ⟨rfl, h⟩
      · rintro ⟨rfl, h⟩
        exact ⟨rfl, h⟩

/-- Of a table whose rows refer to devices, the rows of the source that do not move are deleted. -/
private theorem mem_moved_iff {R : Type} [Keyed R] {t : Table R} {moves : R → Bool} {f : R → R}
    (hf : ∀ r, pk (f r) = pk r) {deviceId : R → ℕ} (hs : db.devices.get? source = some s)
    (hne : source ≠ target) (hfrom : ∀ r, moves r = true → deviceId r = source)
    (hto : ∀ r, deviceId (f r) = target) {r' : R} :
    r' ∈ ((t.update moves f hf).delete
        fun r => (db.devices.get? (deviceId r)).any fun d => d.id == source).rows ↔
      ∃ r ∈ t.rows, (r' = r ∧ deviceId r ≠ source) ∨ (r' = f r ∧ moves r = true) := by
  rw [Table.mem_delete, any_source_iff hs, Table.mem_update, ← exists_and_right]
  refine exists_congr fun r => ?_
  rw [and_assoc]
  refine and_congr_right fun _ => ?_
  cases hmoves : moves r with
  | true =>
    simp only [if_true, hfrom r hmoves, ne_eq, not_true_eq_false, and_false, false_or, and_true]
    constructor
    · exact fun h => h.1
    · rintro rfl
      exact ⟨rfl, hto r ▸ hne.symm⟩
  | false =>
    simp only [Bool.false_eq_true, if_false, and_false, or_false]
    exact and_congr_right fun h => h ▸ Iff.rfl

/-- The deliveries: those of the other devices, and those of the source that move. -/
theorem mem_deliveries_merged_iff (hs : db.devices.get? source = some s) (hne : source ≠ target)
    {d' : NotificationDelivery} :
    d' ∈ (db.mergeDeviceInto source target).deliveries.rows ↔
      ∃ d ∈ db.deliveries.rows, (d' = d ∧ d.deviceId ≠ source) ∨
        (d' = { d with deviceId := target } ∧ deliveryMoves db source target d = true) :=
  mem_moved_iff (pk_moveDelivery target) hs hne (fun _ h => (deliveryMoves_eq_true.mp h).1)
    fun _ => rfl

/-- The quiet periods: those of the other devices, and all of the source. -/
theorem mem_deviceQuietPeriods_merged_iff (hs : db.devices.get? source = some s)
    (hne : source ≠ target) {q' : DeviceQuietPeriod} :
    q' ∈ (db.mergeDeviceInto source target).deviceQuietPeriods.rows ↔
      ∃ q ∈ db.deviceQuietPeriods.rows, (q' = q ∧ q.deviceId ≠ source) ∨
        (q' = { q with deviceId := target } ∧ q.deviceId = source) := by
  refine (mem_moved_iff (pk_moveDeviceQuietPeriod target) hs hne (fun _ h => beq_iff_eq.mp h)
    fun _ => rfl).trans ?_
  simp only [beq_iff_eq]

theorem mem_devices_rotated_iff {now : Instant} {user : ℕ} {data : DeviceData} {d' : Device} :
    d' ∈ ((db.mergeDeviceInto source target).saveRotated now user data target).devices.rows ↔
      ∃ d ∈ db.devices.rows, d.id ≠ source ∧
        d' = if d.id = target then rotateDevice now user data d else d := by
  change d' ∈ ((db.devices.delete fun d => d.id == source).modify target
    (rotateDevice now user data) (pk_rotateDevice now user data)).rows ↔ _
  simp only [Table.mem_modify, Table.mem_delete, beq_eq_false_iff_ne, pk_device, and_assoc]

/-! ### Nothing is lost -/

/-- The target is actively linked to what the source or the target was. -/
theorem activelyLinked_merged (hs : db.devices.get? source = some s) (hne : source ≠ target)
    (a : ℕ) : (db.mergeDeviceInto source target).ActivelyLinked target a ↔
      db.ActivelyLinked source a ∨ db.ActivelyLinked target a := by
  constructor
  · rintro ⟨l', hl', hdevice, happlication, hactive⟩
    obtain ⟨l, hl, ⟨rfl, -, -⟩ | ⟨rfl, hmoves⟩ | ⟨rfl, hrevives⟩⟩ :=
      (mem_links_merged_iff hs hne).mp hl'
    · exact Or.inr ⟨_, hl, hdevice, happlication, hactive⟩
    · exact Or.inl ⟨l, hl, (linkMoves_eq_true.mp hmoves).1, happlication, hactive⟩
    · obtain ⟨-, -, t, ht, hfrom, htactive, happ⟩ := linkRevives_eq_true.mp hrevives
      exact Or.inl ⟨t, ht, hfrom, happ.trans happlication, htactive⟩
  · rintro (⟨l, hl, hdevice, happlication, hactive⟩ | ⟨l, hl, hdevice, happlication, hactive⟩)
    · by_cases hhas : ∃ t ∈ db.links.rows, t.deviceId = target ∧ t.applicationId = l.applicationId
      · obtain ⟨t, ht, hon, happ⟩ := hhas
        cases htactive : t.isActive with
        | true =>
          exact ⟨t, (mem_links_merged_iff hs hne).mpr
            ⟨t, ht, Or.inl ⟨rfl, hon ▸ hne.symm, linkRevives_of_active htactive⟩⟩, hon,
            happ.trans happlication, htactive⟩
        | false =>
          have hrevives : linkRevives db source target t = true :=
            linkRevives_eq_true.mpr ⟨hon, htactive, l, hl, hdevice, hactive, happ.symm⟩
          exact ⟨activateLink t, (mem_links_merged_iff hs hne).mpr
            ⟨t, ht, Or.inr (Or.inr ⟨rfl, hrevives⟩)⟩, hon, happ.trans happlication, rfl⟩
      · push Not at hhas
        have hmoves : linkMoves db source target l = true :=
          linkMoves_eq_true.mpr ⟨hdevice, hhas⟩
        exact ⟨{ l with deviceId := target }, (mem_links_merged_iff hs hne).mpr
          ⟨l, hl, Or.inr (Or.inl ⟨rfl, hmoves⟩)⟩, rfl, happlication, hactive⟩
    · exact ⟨l, (mem_links_merged_iff hs hne).mpr
        ⟨l, hl, Or.inl ⟨rfl, hdevice ▸ hne.symm, linkRevives_of_active hactive⟩⟩,
        hdevice, happlication, hactive⟩

/-- The target has deliveries of the notifications the source or the target had deliveries of. -/
theorem hasDelivery_merged (hs : db.devices.get? source = some s) (hne : source ≠ target) (n : ℕ) :
    (db.mergeDeviceInto source target).HasDelivery target n ↔
      db.HasDelivery source n ∨ db.HasDelivery target n := by
  constructor
  · rintro ⟨d', hd', hdevice, hnotification⟩
    obtain ⟨d, hd, ⟨rfl, -⟩ | ⟨rfl, hmoves⟩⟩ := (mem_deliveries_merged_iff hs hne).mp hd'
    · exact Or.inr ⟨_, hd, hdevice, hnotification⟩
    · exact Or.inl ⟨d, hd, (deliveryMoves_eq_true.mp hmoves).1, hnotification⟩
  · rintro (⟨d, hd, hdevice, hnotification⟩ | ⟨d, hd, hdevice, hnotification⟩)
    · by_cases hhas : ∃ t ∈ db.deliveries.rows, t.deviceId = target ∧
          t.notificationId = d.notificationId
      · obtain ⟨t, ht, hon, heq⟩ := hhas
        exact ⟨t, (mem_deliveries_merged_iff hs hne).mpr ⟨t, ht, Or.inl ⟨rfl, hon ▸ hne.symm⟩⟩, hon,
          heq.trans hnotification⟩
      · push Not at hhas
        have hmoves : deliveryMoves db source target d = true :=
          deliveryMoves_eq_true.mpr ⟨hdevice, hhas⟩
        exact ⟨{ d with deviceId := target }, (mem_deliveries_merged_iff hs hne).mpr
          ⟨d, hd, Or.inr ⟨rfl, hmoves⟩⟩, rfl, hnotification⟩
    · exact ⟨d, (mem_deliveries_merged_iff hs hne).mpr ⟨d, hd, Or.inl ⟨rfl, hdevice ▸ hne.symm⟩⟩,
        hdevice, hnotification⟩

theorem mem_deviceQuietPeriods_target_iff (hs : db.devices.get? source = some s)
    (hne : source ≠ target) {q : DeviceQuietPeriod} :
    q ∈ (db.mergeDeviceInto source target).deviceQuietPeriods.rows ∧ q.deviceId = target ↔
      ∃ p ∈ db.deviceQuietPeriods.rows, (p.deviceId = source ∨ p.deviceId = target) ∧
        q = { p with deviceId := target } := by
  rw [mem_deviceQuietPeriods_merged_iff hs hne]
  constructor
  · rintro ⟨⟨p, hp, ⟨rfl, -⟩ | ⟨rfl, hfrom⟩⟩, hon⟩
    · exact ⟨q, hp, Or.inr hon, hon ▸ rfl⟩
    · exact ⟨p, hp, Or.inl hfrom, rfl⟩
  · rintro ⟨p, hp, hfrom | hon, rfl⟩
    · exact ⟨⟨p, hp, Or.inr ⟨rfl, hfrom⟩⟩, rfl⟩
    · exact ⟨⟨p, hp, Or.inl ⟨by rw [← hon], hon ▸ hne.symm⟩⟩, rfl⟩

/-! ### The constraints -/

/-- A link after the merge is that of its device before, or one the target did not have. -/
private theorem link_origin (hs : db.devices.get? source = some s) (hne : source ≠ target)
    {l' : DeviceApplicationLink} (hl' : l' ∈ (db.mergeDeviceInto source target).links.rows) :
    ∃ l ∈ db.links.rows, l.id = l'.id ∧ l.applicationId = l'.applicationId ∧
      (l.deviceId = l'.deviceId ∨
        l.deviceId = source ∧ l'.deviceId = target ∧ ∀ t ∈ db.links.rows, t.deviceId = target →
          t.applicationId ≠ l.applicationId) := by
  obtain ⟨l, hl, ⟨rfl, -, -⟩ | ⟨rfl, hmoves⟩ | ⟨rfl, -⟩⟩ := (mem_links_merged_iff hs hne).mp hl'
  · exact ⟨_, hl, rfl, rfl, Or.inl rfl⟩
  · obtain ⟨hfrom, hnone⟩ := linkMoves_eq_true.mp hmoves
    exact ⟨l, hl, rfl, rfl, Or.inr ⟨hfrom, rfl, hnone⟩⟩
  · exact ⟨l, hl, rfl, rfl, Or.inl rfl⟩

private theorem delivery_origin (hs : db.devices.get? source = some s) (hne : source ≠ target)
    {d' : NotificationDelivery}
    (hd' : d' ∈ (db.mergeDeviceInto source target).deliveries.rows) :
    ∃ d ∈ db.deliveries.rows, d.id = d'.id ∧ d.notificationId = d'.notificationId ∧
      (d.deviceId = d'.deviceId ∨
        d.deviceId = source ∧ d'.deviceId = target ∧ ∀ t ∈ db.deliveries.rows,
          t.deviceId = target → t.notificationId ≠ d.notificationId) := by
  obtain ⟨d, hd, ⟨rfl, -⟩ | ⟨rfl, hmoves⟩⟩ := (mem_deliveries_merged_iff hs hne).mp hd'
  · exact ⟨_, hd, rfl, rfl, Or.inl rfl⟩
  · obtain ⟨hfrom, hnone⟩ := deliveryMoves_eq_true.mp hmoves
    exact ⟨d, hd, rfl, rfl, Or.inr ⟨hfrom, rfl, hnone⟩⟩

/-- Rows that are unique for a device and a key are so still when each is that of its device
before, or one the target did not have. -/
private theorem unique_of_origin {R : Type} [Keyed R] {t t' : Table R} (deviceId key : R → ℕ)
    (h : ∀ a ∈ t.rows, ∀ b ∈ t.rows, key a = key b → deviceId a = deviceId b → a = b)
    (horigin : ∀ r' ∈ t'.rows, ∃ r ∈ t.rows, pk r = pk r' ∧ key r = key r' ∧
      (deviceId r = deviceId r' ∨ deviceId r = source ∧ deviceId r' = target ∧
        ∀ x ∈ t.rows, deviceId x = target → key x ≠ key r)) :
    ∀ a ∈ t'.rows, ∀ b ∈ t'.rows, key a = key b → deviceId a = deviceId b → a = b := by
  intro a' ha' b' hb' hkey' hdevice
  obtain ⟨a, ha, hida, hkeya, hfroma⟩ := horigin a' ha'
  obtain ⟨b, hb, hidb, hkeyb, hfromb⟩ := horigin b' hb'
  have hkey : key a = key b := hkeya.trans (hkey'.trans hkeyb.symm)
  have hsame : a = b := by
    rcases hfroma with hfroma | ⟨hfroma, hona, hnonea⟩
    · rcases hfromb with hfromb | ⟨hfromb, honb, hnoneb⟩
      · exact h a ha b hb hkey (hfroma.trans (hdevice.trans hfromb.symm))
      · exact absurd hkey (hnoneb a ha (hfroma.trans (hdevice.trans honb)))
    · rcases hfromb with hfromb | ⟨hfromb, honb, hnoneb⟩
      · exact absurd hkey.symm (hnonea b hb (hfromb.trans (hdevice.symm.trans hona)))
      · exact h a ha b hb hkey (hfroma.trans hfromb.symm)
  exact Table.eq_of_pk ha' hb' (hida.symm.trans (hsame ▸ hidb))

theorem Db.Constrained.links_merged (h : db.Constrained) (hs : db.devices.get? source = some s)
    (hne : source ≠ target) :
    ∀ a ∈ (db.mergeDeviceInto source target).links.rows,
      ∀ b ∈ (db.mergeDeviceInto source target).links.rows, a.deviceId = b.deviceId →
        a.applicationId = b.applicationId → a = b := by
  intro a ha b hb hdevice happlication
  refine unique_of_origin DeviceApplicationLink.deviceId DeviceApplicationLink.applicationId ?_
    (fun l' hl' => link_origin hs hne hl') a ha b hb happlication hdevice
  exact fun x hx y hy happ hdev => h.links x hx y hy hdev happ

theorem Db.UniqueDeliveries.merged (h : db.UniqueDeliveries)
    (hs : db.devices.get? source = some s) (hne : source ≠ target) :
    (db.mergeDeviceInto source target).UniqueDeliveries :=
  unique_of_origin NotificationDelivery.deviceId NotificationDelivery.notificationId h
    fun _ hd' => delivery_origin hs hne hd'

/-! ### The rotation -/

/-- A rotation whose new token is that of another device of the user, or of nobody's device. -/
structure MergesInto (db : Db) (user : ℕ) (data : DeviceData) (source target : Device) :
    Prop where
  named : data.previousPushToken ≠ ""
  new : data.previousPushToken ≠ data.pushToken
  previous : selectExistingDevice db data.previousPushToken = some target
  owned : target.userId = some user
  clash : selectExistingDevice db data.pushToken = some source
  notForeign : source.isForeign user = false

namespace MergesInto

variable {user : ℕ} {data : DeviceData} {target source : Device}

theorem upsert_eq (h : MergesInto db user data source target) (now : Instant) :
    upsertAuthenticatedDevice now db user data =
      { db := (db.mergeDeviceInto source.id target.id).saveRotated now user data target.id
        deviceId := target.id
        events := mergeEvents db source.id target.id } := by
  have hrotated : rotatePushToken now db user data = some
      { db := (db.mergeDeviceInto source.id target.id).saveRotated now user data target.id
        deviceId := target.id
        events := mergeEvents db source.id target.id } := by
    unfold rotatePushToken
    rw [if_neg (not_or.mpr ⟨h.named, h.new⟩), h.previous]
    simp only
    rw [if_neg (not_not.mpr h.owned), h.clash]
    simp [h.notForeign]
  rw [upsertAuthenticatedDevice, hrotated]

theorem ne (h : MergesInto db user data source target) : source.id ≠ target.id :=
  id_ne_of_pushToken_ne h.clash h.previous h.new.symm

end MergesInto

/-- A rotation onto the token of another device of the user loses nothing: one row carries the new
token, the other is gone, and the links, the deliveries and the quiet periods of the two devices
are united under the constraints of their tables. -/
theorem merge_is_lossless (now : Instant) {db : Db} {user : ℕ} {data : DeviceData}
    {source target : Device} (hmerges : MergesInto db user data source target)
    (hconstrained : db.Constrained) :
    (upsertAuthenticatedDevice now db user data).deviceId = target.id ∧
      db.MergedInto (upsertAuthenticatedDevice now db user data).db source.id target.id
        data.pushToken := by
  have hne := hmerges.ne
  obtain ⟨hsource, hstoken⟩ := selectExistingDevice_eq_some hmerges.clash
  obtain ⟨htarget, httoken⟩ := selectExistingDevice_eq_some hmerges.previous
  have hs : db.devices.get? source.id = some source := Table.get?_pk hsource
  rw [hmerges.upsert_eq now]
  refine ⟨rfl, ?_⟩
  -- only the source had the new token, so the target is the only one to have it afterwards
  have htoken : ∀ d ∈ ((db.mergeDeviceInto source.id target.id).saveRotated now user data
      target.id).devices.rows, d.pushToken = data.pushToken →
        d = rotateDevice now user data target := by
    intro d' hd' htoken
    obtain ⟨d, hd, hnotSource, rfl⟩ := mem_devices_rotated_iff.mp hd'
    split_ifs at htoken ⊢ with hid
    · rw [Table.eq_of_pk hd htarget hid]
    · exact absurd (congrArg Device.id
        (hconstrained.tokens d hd source hsource (htoken.trans hstoken.symm))) hnotSource
  have hmem : rotateDevice now user data target ∈ ((db.mergeDeviceInto source.id
      target.id).saveRotated now user data target.id).devices.rows :=
    mem_devices_rotated_iff.mpr ⟨target, htarget, hne.symm, by rw [if_pos rfl]⟩
  constructor
  · exact ⟨_, hmem, rfl, rfl, htoken⟩
  · refine Table.get?_eq_none.mpr fun d' hd' => ?_
    obtain ⟨d, hd, hnotSource, rfl⟩ := mem_devices_rotated_iff.mp hd'
    split_ifs
    · exact hnotSource
    · exact hnotSource
  · exact activelyLinked_merged hs hne
  · exact hasDelivery_merged hs hne
  · exact fun q => mem_deviceQuietPeriods_target_iff hs hne
  · constructor
    · intro d' hd' e' he' heq
      by_cases hnew : d'.pushToken = data.pushToken
      · rw [htoken d' hd' hnew, htoken e' he' (heq.symm.trans hnew)]
      · obtain ⟨d, hd, -, rfl⟩ := mem_devices_rotated_iff.mp hd'
        obtain ⟨e, he, -, rfl⟩ := mem_devices_rotated_iff.mp he'
        have hd : d.id ≠ target.id := fun hid => hnew (by rw [if_pos hid]; rfl)
        have he : e.id ≠ target.id := fun hid => hnew (heq.trans (by rw [if_pos hid]; rfl))
        rw [if_neg hd, if_neg he] at heq ⊢
        exact hconstrained.tokens d ‹_› e ‹_› heq
    · exact hconstrained.links_merged hs hne
    · exact Db.UniqueDeliveries.merged hconstrained.deliveries hs hne
  · intro d hnotSource hnotTarget
    rw [mem_devices_rotated_iff]
    constructor
    · rintro ⟨r, hr, -, rfl⟩
      split_ifs at hnotTarget ⊢ with hid
      · exact absurd hid hnotTarget
      · exact hr
    · exact fun hd => ⟨d, hd, hnotSource, by rw [if_neg hnotTarget]⟩
  · intro l hnotSource hnotTarget
    refine (mem_links_merged_iff hs hne).trans ⟨?_, fun hl => ?_⟩
    · rintro ⟨r, hr, ⟨rfl, -, -⟩ | ⟨rfl, -⟩ | ⟨rfl, hrevives⟩⟩
      · exact hr
      · exact absurd rfl hnotTarget
      · exact absurd (linkRevives_eq_true.mp hrevives).1 hnotTarget
    · have hstays : linkRevives db source.id target.id l = false :=
        Bool.eq_false_iff.mpr fun h => hnotTarget (linkRevives_eq_true.mp h).1
      exact ⟨l, hl, Or.inl ⟨rfl, hnotSource, hstays⟩⟩
  · intro d hnotSource hnotTarget
    refine (mem_deliveries_merged_iff hs hne).trans ⟨?_, fun hd => ?_⟩
    · rintro ⟨r, hr, ⟨rfl, -⟩ | ⟨rfl, -⟩⟩
      · exact hr
      · exact absurd rfl hnotTarget
    · exact ⟨d, hd, Or.inl ⟨rfl, hnotSource⟩⟩
  · intro q hnotSource hnotTarget
    refine (mem_deviceQuietPeriods_merged_iff hs hne).trans ⟨?_, fun hq => ?_⟩
    · rintro ⟨r, hr, ⟨rfl, -⟩ | ⟨rfl, -⟩⟩
      · exact hr
      · exact absurd rfl hnotTarget
    · exact ⟨q, hq, Or.inl ⟨rfl, hnotSource⟩⟩

namespace Sample

/-- The device of the sample with the token it had, and the row an older client made for the new
one. -/
def twoRows : Db where
  applications := single application
  devices := pair { id := 1, userId := some 2, pushToken := "aaaaaaaaaaaaaaaaaaaa" }
    { id := 2, userId := some 2, pushToken := "bbbbbbbbbbbbbbbbbbbb" } rfl rfl
  links := pair { id := 1, deviceId := 1, applicationId := 1, isActive := false }
    { id := 2, deviceId := 2, applicationId := 1 } rfl rfl
  notifications := single notification
  deliveries := pair { id := 1, notificationId := 1, deviceId := 1 }
    { id := 2, notificationId := 1, deviceId := 2, status := .sent } rfl rfl

/-- The client reports its new token together with the previous one. -/
def renewal : DeviceData where
  pushToken := "bbbbbbbbbbbbbbbbbbbb"
  previousPushToken := "aaaaaaaaaaaaaaaaaaaa"
  pushToken_length := secondToken_length
  previousPushToken_length := firstToken_le
  deviceName_length := DeviceData.blank_deviceName

end Sample

theorem sample_merge_is_lossless :
    (upsertAuthenticatedDevice 5 Sample.twoRows 2 Sample.renewal).deviceId = 1 ∧
      Sample.twoRows.MergedInto
        (upsertAuthenticatedDevice 5 Sample.twoRows 2 Sample.renewal).db 2 1
        "bbbbbbbbbbbbbbbbbbbb" := by
  have hmerges : MergesInto Sample.twoRows 2 Sample.renewal
      { id := 2, userId := some 2, pushToken := "bbbbbbbbbbbbbbbbbbbb" }
      { id := 1, userId := some 2, pushToken := "aaaaaaaaaaaaaaaaaaaa" } :=
    ⟨by decide, by decide, by decide, rfl, by decide, rfl⟩
  have hconstrained : Sample.twoRows.Constrained := ⟨by decide, by decide, by decide⟩
  exact merge_is_lossless 5 hmerges hconstrained

end PushIT
