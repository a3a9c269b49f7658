import PushIT.Takeover
import PushIT.Wariness

/-!
# Sends after a merge

A rotation that merges two devices of a user drops the source's delivery of a notification the
target has one of.  When the source's was SENT and the target's is not, the phone has the message
and the surviving row says that it has not: the next pass pushes it again.

## Main definitions

* `Db.KeepsSent`: what a merge owes; `Db.MergeAgrees`: the devices whose merge keeps it.
* `World.Settled`: the device has received the notification.

## Main results

* `merge_keeps_sent_iff`: which merges keep what was sent.
* `World.Settled.step`: what one action preserves.
* `merges_never_resend`: what such a merge guarantees from then on.
* `merge_resends`: a merge after which the pass pushes again.
-/

namespace PushIT

open Relational Transition

/-- The provider is called for the notification on the device. -/
def Event.isPushTo (notification device : ℕ) : Event → Bool
  | .called n _ k _ _ => n == notification && k == device
  | _ => false

/-- The number of provider calls for the notification on the device. -/
def pushesTo (notification device : ℕ) (history : List Event) : ℕ :=
  history.countP (Event.isPushTo notification device)

/-- The deliveries of the notification on two devices. -/
def Db.deliveriesOn (db : Db) (source target notification : ℕ) : List NotificationDelivery :=
  db.deliveries.select fun d =>
    d.notificationId == notification && (d.deviceId == source || d.deviceId == target)

/-- `x` is the earliest of the times that the rows carry. -/
structure IsEarliest (rows : List NotificationDelivery)
    (time : NotificationDelivery → Option Instant) (x : Option Instant) : Prop where
  le : ∀ d ∈ rows, ∀ y ∈ time d, ∃ z ∈ x, z ≤ y
  attained : ∀ z ∈ x, ∃ d ∈ rows, z ∈ time d

/-- The delivery that is left of those of a notification on two devices: SENT, with the earliest
receipts. -/
structure Db.Survives (db db' : Db) (source target notification : ℕ) (d : NotificationDelivery) :
    Prop where
  mem : d ∈ db'.deliveries.rows
  ofNotification : d.notificationId = notification
  onTarget : d.deviceId = target
  only : ∀ e ∈ db'.deliveries.rows, e.notificationId = notification → e.deviceId = target → e = d
  sent : d.status = .sent
  delivered : IsEarliest (db.deliveriesOn source target notification) (·.deliveredAt) d.deliveredAt
  opened : IsEarliest (db.deliveriesOn source target notification) (·.openedAt) d.openedAt

/-- A merge keeps what was SENT on one of the two devices. -/
def Db.KeepsSent (db db' : Db) (source target : ℕ) : Prop :=
  ∀ s ∈ db.deliveries.rows, s.deviceId = source ∨ s.deviceId = target → s.status = .sent →
    ∃ d, db.Survives db' source target s.notificationId d

/-- Where both devices have a delivery of a notification and one of the two is SENT, the target's
is, and its receipts are not later than the source's. -/
def Db.MergeAgrees (db : Db) (source target : ℕ) : Prop :=
  ∀ s ∈ db.deliveries.rows, ∀ t ∈ db.deliveries.rows, s.deviceId = source → t.deviceId = target →
    t.notificationId = s.notificationId → s.status = .sent ∨ t.status = .sent →
      t.status = .sent ∧ (∀ y ∈ s.deliveredAt, ∃ z ∈ t.deliveredAt, z ≤ y) ∧
        ∀ y ∈ s.openedAt, ∃ z ∈ t.openedAt, z ≤ y

/-- The action merges the device `source` into the device `target`. -/
def World.Merges (w : World) (a : Action) (source target : Device) : Prop :=
  ∃ rid r user data, a = .request rid r ∧ r.upsertOf w.db = some (user, data) ∧
    MergesInto w.db user data source target

/-- From `w'` on, what was SENT in `w` on one of the two devices is not pushed to the target. -/
def World.NeverResends (cfg : Settings) (w w' : World) (source target : ℕ) : Prop :=
  ∀ s ∈ w.db.deliveries.rows, s.deviceId = source ∨ s.deviceId = target → s.status = .sent →
    ∀ v, (server cfg).Reach (fun w a => w.Rotates a ∧ w.WatchdogSpares a) w' v →
      pushesTo s.notificationId target v.history = pushesTo s.notificationId target w'.history

/-! ### What a merge leaves -/

section Merge

variable {db : Db} {source target : ℕ} {s : Device}

theorem mem_deliveriesOn {notification : ℕ} {d : NotificationDelivery} :
    d ∈ db.deliveriesOn source target notification ↔ d ∈ db.deliveries.rows ∧
      d.notificationId = notification ∧ (d.deviceId = source ∨ d.deviceId = target) := by
  simp [Db.deliveriesOn, Table.mem_select]

/-- A time that is set on one row and not later there than on the others is the earliest. -/
theorem isEarliest_of_mem {rows : List NotificationDelivery}
    {time : NotificationDelivery → Option Instant} {t : NotificationDelivery} (ht : t ∈ rows)
    (hle : ∀ d ∈ rows, d ≠ t → ∀ y ∈ time d, ∃ z ∈ time t, z ≤ y) :
    IsEarliest rows time (time t) where
  le := by
    intro d hd y hy
    by_cases heq : d = t
    · exact ⟨y, heq ▸ hy, le_rfl⟩
    · exact hle d hd heq y hy
  attained := fun z hz => ⟨t, ht, hz⟩

/-- The target's delivery survives a merge of devices that agree. -/
theorem survives_of_target (hunique : db.UniqueDeliveries) (hs : db.devices.get? source = some s)
    (hne : source ≠ target) (hagrees : db.MergeAgrees source target) {t : NotificationDelivery}
    (ht : t ∈ db.deliveries.rows) (hon : t.deviceId = target) (hsent : t.status = .sent) :
    db.Survives (db.mergeDeviceInto source target) source target t.notificationId t := by
  have hmem : t ∈ (db.mergeDeviceInto source target).deliveries.rows :=
    (mem_deliveries_merged_iff hs hne).mpr ⟨t, ht, Or.inl ⟨rfl, hon ▸ hne.symm⟩⟩
  have hrows : t ∈ db.deliveriesOn source target t.notificationId :=
    mem_deliveriesOn.mpr ⟨ht, rfl, Or.inr hon⟩
  -- the other row is that of the source
  have hother : ∀ d ∈ db.deliveriesOn source target t.notificationId, d ≠ t →
      d ∈ db.deliveries.rows ∧ d.deviceId = source ∧ t.notificationId = d.notificationId := by
    intro d hd hdt
    obtain ⟨hdmem, hdn, hfrom | hdon⟩ := mem_deliveriesOn.mp hd
    · exact ⟨hdmem, hfrom, hdn.symm⟩
    · exact absurd (hunique d hdmem t ht hdn (hdon.trans hon.symm)) hdt
  refine ⟨hmem, rfl, hon, fun e he hen hetarget =>
    hunique.merged hs hne e he t hmem hen (hetarget.trans hon.symm), hsent,
    isEarliest_of_mem hrows fun d hd hdt => ?_, isEarliest_of_mem hrows fun d hd hdt => ?_⟩
  · obtain ⟨hdmem, hfrom, hn⟩ := hother d hd hdt
    exact (hagrees d hdmem t ht hfrom hon hn (Or.inr hsent)).2.1
  · obtain ⟨hdmem, hfrom, hn⟩ := hother d hd hdt
    exact (hagrees d hdmem t ht hfrom hon hn (Or.inr hsent)).2.2

/-- The source's delivery of a notification the target has none of survives a merge. -/
theorem survives_of_source (hunique : db.UniqueDeliveries) (hs : db.devices.get? source = some s)
    (hne : source ≠ target) {d : NotificationDelivery} (hd : d ∈ db.deliveries.rows)
    (hfrom : d.deviceId = source) (hnone : ¬db.HasDelivery target d.notificationId)
    (hsent : d.status = .sent) :
    db.Survives (db.mergeDeviceInto source target) source target d.notificationId
      { d with deviceId := target } := by
  have hmoves : deliveryMoves db source target d = true :=
    deliveryMoves_eq_true.mpr ⟨hfrom, fun t ht hon hn => hnone ⟨t, ht, hon, hn⟩⟩
  have hmem : { d with deviceId := target } ∈
      (db.mergeDeviceInto source target).deliveries.rows :=
    (mem_deliveries_merged_iff hs hne).mpr ⟨d, hd, Or.inr ⟨rfl, hmoves⟩⟩
  have hrows : d ∈ db.deliveriesOn source target d.notificationId :=
    mem_deliveriesOn.mpr ⟨hd, rfl, Or.inl hfrom⟩
  have honly : ∀ e ∈ db.deliveriesOn source target d.notificationId, e = d := by
    intro e he
    obtain ⟨hemem, hen, hefrom | heon⟩ := mem_deliveriesOn.mp he
    · exact hunique e hemem d hd hen (hefrom.trans hfrom.symm)
    · exact absurd ⟨e, hemem, heon, hen⟩ hnone
  have hearliest : ∀ time : NotificationDelivery → Option Instant,
      IsEarliest (db.deliveriesOn source target d.notificationId) time (time d) :=
    fun time => isEarliest_of_mem hrows fun e he hed => absurd (honly e he) hed
  exact ⟨hmem, rfl, rfl, fun e he hen hetarget => hunique.merged hs hne e he _ hmem hen hetarget,
    hsent, hearliest (·.deliveredAt), hearliest (·.openedAt)⟩

/-- A merge keeps what was SENT exactly when the two devices agree. -/
theorem mergeDeviceInto_keeps_sent_iff (hunique : db.UniqueDeliveries)
    (hs : db.devices.get? source = some s) (hne : source ≠ target) :
    db.KeepsSent (db.mergeDeviceInto source target) source target ↔
      db.MergeAgrees source target := by
  constructor
  · intro hkeeps d hd t ht hfrom hon hn hsent
    -- the row that is left is the target's
    obtain ⟨e, he⟩ : ∃ e, db.Survives (db.mergeDeviceInto source target) source target
        d.notificationId e := by
      rcases hsent with hsent | hsent
      · exact hkeeps d hd (Or.inl hfrom) hsent
      · exact hn ▸ hkeeps t ht (Or.inr hon) hsent
    have hmem : t ∈ (db.mergeDeviceInto source target).deliveries.rows :=
      (mem_deliveries_merged_iff hs hne).mpr ⟨t, ht, Or.inl ⟨rfl, hon ▸ hne.symm⟩⟩
    obtain rfl := he.only t hmem hn hon
    have hrow : d ∈ db.deliveriesOn source target d.notificationId :=
      mem_deliveriesOn.mpr ⟨hd, rfl, Or.inl hfrom⟩
    exact ⟨he.sent, he.delivered.le d hrow, he.opened.le d hrow⟩
  · intro hagrees d hd hdevice hsent
    by_cases hhas : db.HasDelivery target d.notificationId
    · obtain ⟨t, ht, hon, hn⟩ := hhas
      have htsent : t.status = .sent := by
        rcases hdevice with hfrom | hdon
        · exact (hagrees d hd t ht hfrom hon hn (Or.inl hsent)).1
        · rw [← hunique d hd t ht hn.symm (hdon.trans hon.symm)]
          exact hsent
      exact ⟨t, hn ▸ survives_of_target hunique hs hne hagrees ht hon htsent⟩
    · rcases hdevice with hfrom | hon
      · exact ⟨_, survives_of_source hunique hs hne hd hfrom hhas hsent⟩
      · exact absurd ⟨d, hd, hon, rfl⟩ hhas

theorem Db.KeepsSent.of_eq {db' db'' : Db} (h : db.KeepsSent db' source target)
    (hdeliveries : db''.deliveries = db'.deliveries) : db.KeepsSent db'' source target := by
  intro d hd hdevice hsent
  obtain ⟨e, he⟩ := h d hd hdevice hsent
  exact ⟨e, hdeliveries ▸ he.mem, he.ofNotification, he.onTarget, hdeliveries ▸ he.only, he.sent,
    he.delivered, he.opened⟩

/-- A rotation that merges two devices keeps what was SENT on them exactly when they agree. -/
theorem merge_keeps_sent_iff (now : Instant) {user : ℕ} {data : DeviceData}
    {source target : Device} (hmerges : MergesInto db user data source target)
    (hunique : db.UniqueDeliveries) :
    db.KeepsSent (upsertAuthenticatedDevice now db user data).db source.id target.id ↔
      db.MergeAgrees source.id target.id := by
  have hs : db.devices.get? source.id = some source :=
    Table.get?_pk (selectExistingDevice_eq_some hmerges.clash).1
  rw [hmerges.upsert_eq now, ← mergeDeviceInto_keeps_sent_iff hunique hs hmerges.ne]
  -- the rotation itself writes no delivery
  exact ⟨fun h => h.of_eq rfl, fun h => h.of_eq rfl⟩

end Merge

/-! ### One delivery for each notification and device -/

/-- No device has two deliveries of a notification, and no pass is about to create two. -/
structure World.Single (w : World) : Prop where
  deliveries : w.db.UniqueDeliveries
  targets : ∀ pid p ids, w.passes pid = some p → p.stage = .materializing ids → ids.Nodup

theorem Db.UniqueDeliveries.of_eq {db db' : Db} (h : db.UniqueDeliveries)
    (hdeliveries : db'.deliveries = db.deliveries) : db'.UniqueDeliveries := by
  unfold UniqueDeliveries
  rwa [hdeliveries]

theorem Upserted.uniqueDeliveries {now : Instant} {db : Db} {user : ℕ} {data : DeviceData}
    {u : Upsert} (hu : Upserted now db user data u) (h : db.UniqueDeliveries) :
    u.db.UniqueDeliveries := by
  cases hu with
  | rotated old hne hold howner hnone => exact h.of_eq rfl
  | merged old clash hne hold howner hclash hforeign =>
    obtain ⟨hmem, -⟩ := selectExistingDevice_eq_some hclash
    have hdistinct : clash.id ≠ old.id := id_ne_of_pushToken_ne hclash hold hne.symm
    exact (h.merged (Table.get?_pk hmem) hdistinct).of_eq rfl
  | refreshed r hr => exact h.of_eq (db.deliveries_refreshDevice now user data r)
  | created hnone => exact h.of_eq rfl

namespace Pass

variable {cfg : Settings} {now : Instant} {db : Db} {n : Notification} {stage : Stage}
  {s : PassStep}

/-- A pass creates deliveries only for devices without one. -/
theorem Moves.uniqueDeliveries (h : Moves cfg now db n stage s) (hunique : db.UniqueDeliveries)
    (hids : ∀ ids, stage = .materializing ids → ids.Nodup) : s.db.UniqueDeliveries := by
  rcases h.deliveries with hs | ⟨e, f, hm, hs⟩ | ⟨ids, hstage, hs⟩
  · exact hunique.of_eq hs
  · intro a' ha' b' hb' hnotification hdevice
    rw [hs] at ha' hb'
    obtain ⟨a, ha, rfl⟩ := Table.mem_modify.mp ha'
    obtain ⟨b, hb, rfl⟩ := Table.mem_modify.mp hb'
    rw [(hm.keeps_ite a).1, (hm.keeps_ite b).1] at hnotification
    rw [(hm.keeps_ite a).2, (hm.keeps_ite b).2] at hdevice
    rw [hunique a ha b hb hnotification hdevice]
  · -- two rows of one device are old, or new, since only missing ones are created
    have hmissing : ∀ a ∈ db.deliveries.rows, ∀ k ∈ missingDevices db n.id ids,
        a.notificationId = n.id → a.deviceId ≠ k := fun a ha k hk hnotification hdevice =>
      (not_hasDelivery_of_missing hk).2 ⟨a, ha, hdevice, hnotification⟩
    intro a ha b hb hnotification hdevice
    rw [hs] at ha hb
    rcases Table.mem_insertAll ha with haold | ⟨j, hj, hanew, haeq⟩
    · rcases Table.mem_insertAll hb with hbold | ⟨k, hk, hbnew, hbeq⟩
      · exact hunique a haold b hbold hnotification hdevice
      · rw [hbeq] at hnotification hdevice
        exact absurd hdevice (hmissing a haold k hk hnotification)
    · rcases Table.mem_insertAll hb with hbold | ⟨k, hk, hbnew, hbeq⟩
      · rw [haeq] at hnotification hdevice
        exact absurd hdevice.symm (hmissing b hbold j hj hnotification.symm)
      · exact Table.insertAll_unique NotificationDelivery.deviceId (fun _ _ => rfl)
          ((hids ids hstage).filter _) ha hb hanew hbnew hdevice

/-- The devices a pass creates deliveries for are the rows it selected. -/
theorem Moves.targets_nodup (h : Moves cfg now db n stage s) {p' : Pass} (hp : s.next = some p')
    {ids : List ℕ} (hids : p'.stage = .materializing ids) : ids.Nodup := by
  cases h with
  | targeted d ds htargets =>
    obtain rfl := Option.some.inj hp
    obtain rfl := Stage.materializing.inj hids
    rw [← htargets, List.Nodup, List.pairwise_map]
    exact db.devices.pairwise_pk_ne.filter _
  | _ =>
    simp only [on, ended, reduceCtorEq, Option.some.injEq] at hp
    try (subst hp; simp at hids)

/-- What the loop has not turned to it had not turned to before, or it is loaded now. -/
theorem Moves.upcoming (h : Moves cfg now db n stage s) {p' : Pass} (hp : s.next = some p')
    {l : LoadedDelivery} (hl : l ∈ Pass.upcoming p'.stage) :
    l ∈ Pass.upcoming stage ∨ l ∈ loadDeliveries db n.id := by
  cases h with
  | listed x xs hload | relisted x xs hload =>
    obtain rfl := Option.some.inj hp
    exact Or.inr (hload ▸ hl)
  | skipped f x xs h | cancelled f x xs _ _ h | waited f x xs h | deferred f x xs _ _ h
  | exhausted f x xs h | accepted f x xs _ h | refused f x xs _ h =>
    obtain rfl := Option.some.inj hp
    have hmem : l ∈ f.remaining := h ▸ List.mem_cons_of_mem x hl
    exact Or.inl hmem
  | refreshed | linked | settled | notSettled | countedInvalid | counted | invalidated | reread
  | failed | sentToSettle | sent | notSent =>
    obtain rfl := Option.some.inj hp
    exact Or.inl hl
  | _ =>
    simp only [on, ended, reduceCtorEq, Option.some.injEq] at hp
    try (subst hp; simp [Pass.upcoming] at hl)

/-- A pass that is wary leaves a SENT row SENT. -/
theorem Wary.marks_sent {p : Pass} (hp : p.Wary db) {e r : NotificationDelivery}
    {f : NotificationDelivery → NotificationDelivery} (hm : Moves.Marks cfg now p.stage e f)
    (hr : db.deliveries.get? e.id = some r) (hsent : r.status = .sent) : (f r).status = .sent := by
  obtain ⟨n, stage⟩ := p
  cases hm with
  | sent f l m => rfl
  | lapsed d ds =>
    exact absurd (hp.known _ List.mem_cons_self r hr hsent) (hp.unsent _ List.mem_cons_self)
  | cancelled f l ls reason h hd | deferred f l ls quietPeriodEnd h hd =>
    have hmem : l.delivery ∈ sure (.looping f) := by simp [sure, due, held, h]
    exact absurd (hp.known _ hmem r hr hsent) (not_sent_of_decision (by rw [hd]; simp))
  | failed f l error =>
    exact absurd (hp.known _ List.mem_cons_self r hr hsent) (hp.unsent _ List.mem_cons_self)

end Pass

theorem World.Initial.single {w : World} (hw : w.Initial) (h : w.db.UniqueDeliveries) :
    w.Single :=
  ⟨h, by simp [hw.passes]⟩

theorem World.Single.step {cfg : Settings} {w w' : World} {a : Action} (hw : w.Single)
    (h : Steps cfg w a w') (hs : w.Rotates a) : w'.Single := by
  rcases h.rotate_cases hs with ⟨pid, input, p, s, -, hp, hmoves, rfl⟩ | hbeside |
    ⟨user, data, u, hu, hdb, hpasses, -⟩
  · refine ⟨hmoves.uniqueDeliveries hw.deliveries fun ids => hw.targets pid p ids hp, ?_⟩
    intro j q ids hq hids
    rcases Pool.set_eq_some.mp hq with ⟨-, hnext⟩ | ⟨-, hq⟩
    · exact hmoves.targets_nodup hnext hids
    · exact hw.targets j q ids hq hids
  · refine ⟨hw.deliveries.of_eq hbeside.deliveries, fun pid p ids hp hids => ?_⟩
    rcases hbeside.passes pid p hp with hp | hstage
    · exact hw.targets pid p ids hp hids
    · simp [hstage] at hids
  · refine ⟨by rw [hdb]; exact hu.uniqueDeliveries hw.deliveries, ?_⟩
    rw [hpasses]
    exact hw.targets

/-! ### A device that has received a notification -/

/-- The device has received the notification: it has a delivery of it as long as it exists, all it
has are SENT, and no pass is going to turn to one that it loaded as not SENT. -/
structure World.Settled (notification device : ℕ) (w : World) : Prop where
  known : device ≤ w.db.devices.seq
  kept : (w.db.devices.get? device).isSome → w.db.HasDelivery device notification
  sent : ∀ d ∈ w.db.deliveries.rows, d.notificationId = notification → d.deviceId = device →
    d.status = .sent
  passes : ∀ pid p, w.passes pid = some p → p.notification.id = notification →
    ∀ l ∈ Pass.upcoming p.stage, l.device.id = device → l.delivery.status = .sent

namespace World.Settled

variable {cfg : Settings} {w w' : World} {notification device : ℕ}

/-- A step of a pass. -/
theorem pass (hw : w.Settled notification device) (hg : w.Guarded) {pid : ℕ} {p : Pass}
    {s : PassStep} (hp : w.passes pid = some p)
    (h : Pass.Moves cfg w.clock w.db p.notification p.stage s) :
    (w.afterPass pid s).Settled notification device := by
  refine ⟨hw.known.trans h.seq_devices.ge, fun hk => ?_, fun d' hd' hn hk => ?_, ?_⟩
  · obtain ⟨d, hd, hon, hof⟩ := hw.kept (h.isSome_device_iff.mp hk)
    obtain ⟨d', hd', hn', hk'⟩ := h.delivery_kept (Table.get?_pk hd)
    exact ⟨d', (Table.get?_eq_some.mp hd').1, hk'.trans hon, hn'.trans hof⟩
  · rcases h.delivery_cases (Table.get?_pk hd') with hold | ⟨e, f, r, hm, hid, hr, rfl⟩ |
      ⟨-, hnew, hsome, hnone⟩
    · exact hw.sent d' (Table.get?_eq_some.mp hold).1 hn hk
    · -- the marker meets a row that is SENT already
      obtain ⟨hkeepn, hkeepk⟩ := hm.keeps r
      have hsent := hw.sent r (Table.get?_eq_some.mp hr).1 (hkeepn ▸ hn) (hkeepk ▸ hk)
      exact (hg.wary pid p hp).marks_sent hm (hid ▸ hr) hsent
    · -- the device has a delivery, so that none is created for it
      rw [hk] at hsome hnone
      rw [← hnew, hn] at hnone
      exact absurd (hw.kept hsome) hnone
  · intro j q hq hn l hl hk
    rcases Pool.set_eq_some.mp hq with ⟨rfl, hnext⟩ | ⟨-, hq⟩
    · rw [h.notification_eq hnext] at hn
      rcases h.upcoming hnext hl with hbefore | hloaded
      · exact hw.passes j p hp hn l hbefore hk
      · obtain ⟨hmem, hof, hrow⟩ := Pass.mem_loadDeliveries hloaded
        have hid : l.device.id = l.delivery.deviceId := (Table.get?_eq_some.mp hrow).2
        exact hw.sent l.delivery hmem (hof.trans hn) (hid.symm.trans hk)
    · exact hw.passes j q hq hn l hl hk

/-- A pass turns to nothing on the device that it would push. -/
theorem not_pushed (hw : w.Settled notification device) {pid : ℕ} {p : Pass} {s : PassStep}
    (hp : w.passes pid = some p)
    (h : Pass.Moves cfg w.clock w.db p.notification p.stage s) :
    ∀ e ∈ s.events, e.isPushTo notification device = false := by
  intro e he
  cases e with
  | called m δ k token accepted =>
    obtain ⟨rfl, f, l, ls, hstage, hf, rfl, rfl, rfl, hdecision⟩ := h.called he
    by_contra hpush
    have hof : p.notification.id = notification ∧ l.device.id = device := by
      simpa [Event.isPushTo] using hpush
    have hmem : l ∈ Pass.upcoming p.stage := by
      simp [hstage, Pass.upcoming, hf]
    have hsent := hw.passes pid p hp hof.1 l hmem hof.2
    exact Pass.not_sent_of_decision (by rw [hdecision]; simp) hsent
  | _ => rfl

/-- An upsert. -/
theorem upserted (hw : w.Settled notification device) {user : ℕ} {data : DeviceData} {u : Upsert}
    (hu : Upserted w.clock w.db user data u) (hdb : w'.db = u.db) (hpasses : w'.passes = w.passes) :
    w'.Settled notification device := by
  refine ⟨?_, fun hk => ?_, fun d' hd' hn hk => ?_, by rw [hpasses]; exact hw.passes⟩
  · rw [hdb]
    exact hw.known.trans hu.seq_devices
  · rw [hdb] at hk ⊢
    obtain ⟨d, hd, hon, hof⟩ := hw.kept (hu.isSome_devices hw.known hk)
    exact ⟨d, hu.mem_deliveries hd (by rwa [hon]), hon, hof⟩
  · rw [hdb] at hd'
    rcases hu.delivery_origin hd' with hold | ⟨hsome, hnone⟩
    · exact hw.sent d' hold hn hk
    · rw [hk] at hsome hnone
      rw [hn] at hnone
      exact absurd (hw.kept hsome) hnone

/-- What leaves the rows and the running passes alone. -/
theorem beside (hw : w.Settled notification device) (h : w.Beside w') :
    w'.Settled notification device := by
  refine ⟨?_, ?_, ?_, fun pid p hp hn l hl hk => ?_⟩
  · rw [h.devices]
    exact hw.known
  · unfold Db.HasDelivery
    rw [h.devices, h.deliveries]
    exact hw.kept
  · rw [h.deliveries]
    exact hw.sent
  · rcases h.passes pid p hp with hp | hstage
    · exact hw.passes pid p hp hn l hl hk
    · simp [hstage, Pass.upcoming] at hl

/-- One action leaves the device with the notification, and pushes it there no more. -/
theorem step (hw : w.Settled notification device) (hg : w.Guarded) {a : Action}
    (h : Steps cfg w a w') (hs : w.Rotates a) :
    w'.Settled notification device ∧
      pushesTo notification device w'.history = pushesTo notification device w.history := by
  have hcount : ∀ es : List Event, (∀ e ∈ es, e.isPushTo notification device = false) →
      pushesTo notification device (es ++ w.history) = pushesTo notification device w.history := by
    intro es hes
    have hzero : es.countP (Event.isPushTo notification device) = 0 :=
      List.countP_eq_zero.mpr fun e he => by simp [hes e he]
    simp [pushesTo, hzero]
  have hcalls : ∀ e : Event, e.isCall = false → e.isPushTo notification device = false := by
    intro e he
    cases e with
    | called => simp [Event.isCall] at he
    | _ => rfl
  rcases h.rotate_cases hs with ⟨pid, input, p, s, -, hp, hmoves, rfl⟩ | hbeside |
    ⟨user, data, u, hu, hdb, hpasses, hhistory⟩
  · exact ⟨hw.pass hg hp hmoves,
      hcount _ fun e he => hw.not_pushed hp hmoves e (List.mem_reverse.mp he)⟩
  · obtain ⟨es, hhistory, hes⟩ := hbeside.history
    rw [hhistory]
    exact ⟨hw.beside hbeside, hcount es fun e he => hcalls e (hes e he)⟩
  · rw [hhistory]
    exact ⟨hw.upserted hu hdb hpasses,
      hcount _ fun e he => hcalls e (hu.tables.2.2 e (List.mem_reverse.mp he))⟩

end World.Settled

/-- What the guarded actions preserve. -/
theorem preserves_guarded (cfg : Settings) :
    (server cfg).Preserves (fun w a => w.Rotates a ∧ w.WatchdogSpares a)
      fun w => w.Guarded ∧ w.Single :=
  fun _ _ _ hw hok hs =>
    ⟨hw.1.step (World.step_cases hs) hok.1 hok.2, hw.2.step (World.step_cases hs) hok.1⟩

/-- A settled device is pushed the notification no more. -/
theorem World.Settled.never_pushed {cfg : Settings} {w w' : World} {notification device : ℕ}
    (hw : w.Settled notification device) (hg : w.Guarded ∧ w.Single)
    (h : (server cfg).Reach (fun w a => w.Rotates a ∧ w.WatchdogSpares a) w w') :
    pushesTo notification device w'.history = pushesTo notification device w.history := by
  have hpreserves := System.Preserves.and (J := World.Settled notification device)
    (preserves_guarded cfg) fun _ _ _ hu hsettled hok hs =>
      (hsettled.step hu.1 (World.step_cases hs) hok.1).1
  refine System.Reach.relation (R := fun u v : World =>
    pushesTo notification device v.history = pushesTo notification device u.history) hpreserves
    (fun _ => rfl) (fun _ _ _ huv hvt => hvt.trans huv) ?_ h ⟨hg, hw⟩
  exact fun u a v hu hok hs => (hu.2.step hu.1.1 (World.step_cases hs) hok.1).2

/-! ### Merging runs -/

/-- A request that upserts a device. -/
theorem World.Steps.upsert_eq {cfg : Settings} {w w' : World} {rid user : ℕ} {r : Request}
    {data : DeviceData} (h : Steps cfg w (.request rid r) w')
    (hr : r.upsertOf w.db = some (user, data)) :
    w'.db = (upsertAuthenticatedDevice w.clock w.db user data).db ∧ w'.passes = w.passes := by
  cases h with
  | request _ _ hrid =>
    cases r with
    | identify user' data' =>
      obtain ⟨rfl, rfl⟩ := Prod.mk.inj (Option.some.inj hr)
      exact ⟨rfl, rfl⟩
    | link user' data' applicationId =>
      simp only [Request.upsertOf] at hr
      split at hr
      · next hactive =>
        obtain ⟨rfl, rfl⟩ := Prod.mk.inj (Option.some.inj hr)
        simp [afterProcess, Request.begin, hactive]
      · simp at hr
    | _ => simp [Request.upsertOf] at hr

/-- After a merge of devices that agree, the target has received what was SENT on one of them. -/
theorem World.Guarded.settled_of_merge {w w' : World} (hg : w.Guarded) (hs : w.Single)
    {user : ℕ} {data : DeviceData} {source target : Device}
    (hmerges : MergesInto w.db user data source target)
    (hdb : w'.db = (upsertAuthenticatedDevice w.clock w.db user data).db)
    (hpasses : w'.passes = w.passes) (hagrees : w.db.MergeAgrees source.id target.id)
    {d : NotificationDelivery} (hd : d ∈ w.db.deliveries.rows)
    (hdevice : d.deviceId = source.id ∨ d.deviceId = target.id) (hsent : d.status = .sent) :
    w'.Settled d.notificationId target.id := by
  obtain ⟨htarget, -⟩ := selectExistingDevice_eq_some hmerges.previous
  obtain ⟨e, he⟩ := (merge_keeps_sent_iff w.clock hmerges hs.deliveries).mpr hagrees d hd hdevice
    hsent
  rw [← hdb] at he
  refine ⟨?_, fun _ => ⟨e, he.mem, he.onTarget, he.ofNotification⟩, fun x hx hn hk => ?_, ?_⟩
  · rw [hdb]
    exact (w.db.devices.bounded target htarget).trans
      (upsert_cases w.clock w.db user data).seq_devices
  · rw [he.only x hx hn hk]
    exact he.sent
  · intro pid p hp hn l hl hk
    rw [hpasses] at hp
    have hwary := hg.wary pid p hp
    -- the instance is that of the target's row, which is SENT
    have hsome : (w.db.devices.get? l.device.id).isSome := by
      rw [hk, show w.db.devices.get? target.id = some target from Table.get?_pk htarget]
      rfl
    obtain ⟨r, hr, hon⟩ := hwary.device l hl hsome
    obtain ⟨hmem, -⟩ := Table.get?_eq_some.mp hr
    have hof : r.notificationId = d.notificationId :=
      (hwary.own _ (Pass.held_subset_due (Pass.upcoming_subset_held _ l hl)) r hr).trans hn
    have hrsent : r.status = .sent := by
      rcases hdevice with hfrom | htarget
      · exact (hagrees d hd r hmem hfrom (hon.trans hk) hof (Or.inl hsent)).1
      · rw [hs.deliveries r hmem d hd hof (hon.trans (hk.trans htarget.symm))]
        exact hsent
    exact hwary.known _ (Pass.upcoming_subset_sure _ l hl) r hr hrsent

/-- In every run in which the watchdog spares the notifications that are being sent, a merge keeps
what was SENT on the two devices, and leads to no other push of it, exactly when the deliveries
they both have agree. -/
theorem merges_never_resend {cfg : Settings} {w₀ w w' : World} {a : Action}
    {source target : Device} (h₀ : w₀.Initial) (hunique : w₀.db.UniqueDeliveries)
    (h : (server cfg).Reach (fun w a => w.Rotates a ∧ w.WatchdogSpares a) w₀ w)
    (hmerges : w.Merges a source target) (hstep : (server cfg).step w a = some w') :
    w.db.KeepsSent w'.db source.id target.id ∧ w.NeverResends cfg w' source.id target.id ↔
      w.db.MergeAgrees source.id target.id := by
  obtain ⟨hg, hs⟩ := System.Reach.invariant (preserves_guarded cfg) h
    ⟨h₀.guarded, h₀.single hunique⟩
  obtain ⟨rid, r, user, data, rfl, hr, hinto⟩ := hmerges
  have hsteps : World.Steps cfg w (.request rid r) w' := World.step_cases hstep
  obtain ⟨hdb, hpasses⟩ := hsteps.upsert_eq hr
  have hrotation : r.isRotation = true := by
    cases r with
    | identify | link => rfl
    | _ => simp [Request.upsertOf] at hr
  have hok : w.Rotates (.request rid r) := Or.inr hrotation
  have hspares : w.WatchdogSpares (.request rid r) := World.watchdogSpares_of_not_advance rfl
  have hkeeps := merge_keeps_sent_iff w.clock hinto hs.deliveries
  rw [← hdb] at hkeeps
  constructor
  · exact fun hboth => hkeeps.mp hboth.1
  · intro hagrees
    refine ⟨hkeeps.mpr hagrees, fun d hd hdevice hsent v hv => ?_⟩
    have hsettled := hg.settled_of_merge hs hinto hdb hpasses hagrees hd hdevice hsent
    exact hsettled.never_pushed ⟨hg.step hsteps hok hspares, hs.step hsteps hok⟩ hv

namespace Sample

/-- The sample in which the device that stays has the message, and has opened it. -/
def agreeing : Db := { twoRows with
  deliveries := pair { id := 1, notificationId := 1, deviceId := 1, status := .sent,
                       deliveredAt := some 1, openedAt := some 1 }
    { id := 2, notificationId := 1, deviceId := 2 } rfl rfl }

/-- The server with these two devices, and a send task of the notification in the broker. -/
def rotating (db : Db) : World := { clock := 2, db := db, broker := [⟨1, .client⟩] }

theorem rotating_initial (db : Db) : (rotating db).Initial := ⟨rfl, rfl, rfl⟩

end Sample

/-- The device that stays is not pushed the message it has. -/
theorem sample_merges_never_resend : ∃ w',
    (server .default).step (Sample.rotating Sample.agreeing)
      (.request 1 (.identify 2 Sample.renewal)) = some w' ∧
    Sample.agreeing.KeepsSent w'.db 2 1 ∧
    (Sample.rotating Sample.agreeing).NeverResends .default w' 2 1 := by
  have hinto : MergesInto Sample.agreeing 2 Sample.renewal
      { id := 2, userId := some 2, pushToken := "bbbbbbbbbbbbbbbbbbbb" }
      { id := 1, userId := some 2, pushToken := "aaaaaaaaaaaaaaaaaaaa" } :=
    ⟨by decide, by decide, by decide, rfl, by decide, rfl⟩
  have hmerges : (Sample.rotating Sample.agreeing).Merges (.request 1 (.identify 2 Sample.renewal))
      { id := 2, userId := some 2, pushToken := "bbbbbbbbbbbbbbbbbbbb" }
      { id := 1, userId := some 2, pushToken := "aaaaaaaaaaaaaaaaaaaa" } :=
    ⟨1, _, 2, Sample.renewal, rfl, rfl, hinto⟩
  have hunique : Sample.agreeing.UniqueDeliveries := by unfold Db.UniqueDeliveries; decide
  have hagrees : Sample.agreeing.MergeAgrees 2 1 := by unfold Db.MergeAgrees; decide
  obtain ⟨w', hstep⟩ := Option.isSome_iff_exists.mp (show ((server .default).step
    (Sample.rotating Sample.agreeing) (.request 1 (.identify 2 Sample.renewal))).isSome from rfl)
  exact ⟨w', hstep, (merges_never_resend (Sample.rotating_initial _) hunique (.refl _) hmerges
    hstep).mpr hagrees⟩

/-- The device of the new token has the message, the one that stays has not: the merge drops the
delivery that says so, and the next pass pushes the message to the phone again. -/
theorem merge_resends : ¬∀ (cfg : Settings) (w₀ w w' : World) (a : Action) (source target : Device),
    w₀.Initial → w₀.db.UniqueDeliveries →
    (server cfg).Reach (fun w a => w.Rotates a ∧ w.WatchdogSpares a) w₀ w →
    w.Merges a source target → (server cfg).step w a = some w' →
    w.db.KeepsSent w'.db source.id target.id ∧ w.NeverResends cfg w' source.id target.id := by
  intro hclaim
  have hinto : MergesInto Sample.twoRows 2 Sample.renewal
      { id := 2, userId := some 2, pushToken := "bbbbbbbbbbbbbbbbbbbb" }
      { id := 1, userId := some 2, pushToken := "aaaaaaaaaaaaaaaaaaaa" } :=
    ⟨by decide, by decide, by decide, rfl, by decide, rfl⟩
  have hunique : Sample.twoRows.UniqueDeliveries := by unfold Db.UniqueDeliveries; decide
  -- the merge, and then a pass to the push of the row that is left
  have hrun : ((server .default).step (Sample.rotating Sample.twoRows)
      (.request 1 (.identify 2 Sample.renewal))).any (fun w' => pushesTo 1 1 w'.history == 0 &&
        ((server .default).guardedRun (fun w a => w.Rotates a ∧ a.isAdvance = false) w'
          (Sample.toLoop 1 ⟨1, .client⟩ ++ [.pass 1 {}])).any
            fun v => pushesTo 1 1 v.history == 1) = true := by
    decide
  obtain ⟨w', hstep, hrest⟩ := (Option.any_eq_true _ _).mp hrun
  obtain ⟨hbefore, hlater⟩ := Bool.and_eq_true_iff.mp hrest
  obtain ⟨v, hv, hafter⟩ := System.exists_reach_of_guardedRun _ _ _ _ _ hlater
  have hreach := hv.mono (fun w a => w.Rotates a ∧ w.WatchdogSpares a)
    fun w a h => ⟨h.1, World.watchdogSpares_of_not_advance h.2⟩
  have hnever := (hclaim .default _ _ w' _ _ _ (Sample.rotating_initial _) hunique (.refl _)
    ⟨1, _, 2, Sample.renewal, rfl, rfl, hinto⟩ hstep).2
  have hsame : pushesTo 1 1 v.history = pushesTo 1 1 w'.history :=
    hnever { id := 2, notificationId := 1, deviceId := 2, status := .sent } (by decide)
      (Or.inl rfl) rfl v hreach
  simp only [beq_iff_eq] at hbefore hafter
  omega

end PushIT
