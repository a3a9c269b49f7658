import PushIT.Exhaustion
import PushIT.RequestSteps

/-!
# What a pass does with every delivery

Runs in which notifications are created and sent, devices are linked and unlinked, quiet periods
and subscriptions change, and no row is deleted.  In such a run a pass meets every delivery row
of its notification: each one still lies ahead of the pass or has been treated by one branch of
the send loop, and the counters tell which branches were taken.

## Main definitions

* `World.Serves`, `World.Delivers`: the actions of such runs, without and with the creation of
  notifications and the changes of links.
* `Db.Grows`: rows are added and none is lost.
* `Pass.Treatment`: a property that each branch of the loop gives to the delivery it treats.
* `Pass.Treated`, `Pass.Closes`: a pass in between, and at its end.

## Main results

* `World.Delivers.sound`, `World.Delivers.intact`: these actions keep the passes accurate and the
  foreign keys valid.
* `Pass.Moves.treated`: one step of a pass.
-/

namespace PushIT

open Relational Transition

/-! ### Actions -/

/-- The requests on the quiet periods of applications. -/
def Request.isApplicationQuietPeriod : Request → Bool
  | .createApplicationQuietPeriod _ _ _ | .updateApplicationQuietPeriod _ _ _
  | .deleteApplicationQuietPeriod _ _ => true
  | _ => false

/-- The requests on quiet periods. -/
def Request.isQuietPeriod (r : Request) : Bool :=
  r.isDeviceQuietPeriod || r.isApplicationQuietPeriod

/-- The requests that create a notification. -/
def Request.isCreation : Request → Bool
  | .create _ _ _ _ | .sendNow _ _ _ _ | .broadcast _ _ => true
  | _ => false

/-- The requests that change which devices an application reaches. -/
def Request.isLinking : Request → Bool
  | .identify _ _ | .link _ _ _ | .unlink _ _ _ _ | .evict _ _ _
  | .activateApplication _ _ _ => true
  | _ => false

/-- The request merges a device row into another one. -/
def Request.merges (now : Instant) (db : Db) : Request → Bool
  | .identify user data | .link user data _ =>
    !(upsertAuthenticatedDevice now db user data).events.isEmpty
  | _ => false

/-- The processes of these requests, and of those on the send path but the watchdog. -/
def Process.isDelivering : Process → Bool
  | .queue _ | .dispatch _ | .retry _ | .link _ _ | .unlink _ _ => true
  | .watchdog _ | .patch _ | .destroy _ => false

/-- The send path without the watchdog and without the death of a worker, with the changes of all
quiet periods.  Lapses and renewals of a subscription are answers to the passes. -/
def World.Serves (w : World) : Action → Prop
  | .request _ r => r.isSending = true ∧ (r matches .requeueStuck) = false ∨
      r.isQuietPeriod = true
  | .advance rid _ => ∀ p ∈ w.processes rid, p.isSending = true ∧ p.isWatchdog = false
  | a => w.Sends a

/-- The send path with the creation of notifications and the changes of links and applications
beside it; no device row is merged. -/
def World.Delivers (w : World) : Action → Prop
  | .request _ r => r.isSending = true ∧ (r matches .requeueStuck) = false ∨
      r.isQuietPeriod = true ∨ r.isCreation = true ∨
      r.isLinking = true ∧ r.merges w.clock w.db = false
  | .advance rid _ => ∀ p ∈ w.processes rid, p.isDelivering = true
  | a => w.Sends a

instance (w : World) (a : Action) : Decidable (w.Serves a) := by
  rcases a with _ | _ <;> unfold World.Serves <;> infer_instance

instance (w : World) (a : Action) : Decidable (w.Delivers a) := by
  rcases a with _ | _ <;> unfold World.Delivers <;> infer_instance

theorem World.Serves.delivers {w : World} {a : Action} (h : w.Serves a) : w.Delivers a := by
  cases a with
  | request rid r => exact h.imp id Or.inl
  | advance rid input =>
    intro p hp
    obtain ⟨hsending, hwatchdog⟩ := h p hp
    cases p <;> simp_all [Process.isSending, Process.isWatchdog, Process.isDelivering]
  | _ => exact h

/-! ### Growing tables -/

/-- A delivery nobody has treated yet. -/
def NotificationDelivery.Fresh (d : NotificationDelivery) : Prop :=
  d.status = .pending ∧ d.attemptCount = 0 ∧ d.nextRetryAt = none

/-- A notification as it is created. -/
def Notification.Fresh (n : Notification) : Prop :=
  n.status = .draft ∨ n.status = .scheduled

/-- No row is lost; the deliveries and notifications that are added are fresh, and the new
deliveries belong to new notifications. -/
structure Db.Grows (db db' : Db) : Prop where
  delivery : ∀ d ∈ db.deliveries.rows, d ∈ db'.deliveries.rows
  added : ∀ d ∈ db'.deliveries.rows, d ∈ db.deliveries.rows ∨
    db.notifications.seq < d.notificationId ∧ d.Fresh ∧ (db'.devices.get? d.deviceId).isSome
  notification : ∀ n ∈ db.notifications.rows, n ∈ db'.notifications.rows
  created : ∀ n ∈ db'.notifications.rows, n ∈ db.notifications.rows ∨
    db.notifications.seq < n.id ∧ n.Fresh ∧ (db'.applications.get? n.applicationId).isSome
  device : ∀ k, (db.devices.get? k).isSome → (db'.devices.get? k).isSome
  application : ∀ k, (db.applications.get? k).isSome → (db'.applications.get? k).isSome
  seq : db.notifications.seq ≤ db'.notifications.seq

namespace Db.Grows

variable {db db' : Db}

/-- Nothing is added to the deliveries and notifications. -/
theorem of_eq (hdeliveries : db'.deliveries = db.deliveries)
    (hnotifications : db'.notifications = db.notifications)
    (hdevice : ∀ k, (db.devices.get? k).isSome → (db'.devices.get? k).isSome)
    (happlication : ∀ k, (db.applications.get? k).isSome → (db'.applications.get? k).isSome) :
    db.Grows db' where
  delivery := fun d hd => by rwa [hdeliveries]
  added := fun d hd => Or.inl (hdeliveries ▸ hd)
  notification := fun n hn => by rwa [hnotifications]
  created := fun n hn => Or.inl (hnotifications ▸ hn)
  device := hdevice
  application := happlication
  seq := by rw [hnotifications]

theorem refl (db : Db) : db.Grows db :=
  of_eq rfl rfl (fun _ h => h) fun _ h => h

/-- Only links and quiet periods differ. -/
theorem of_tables (hdeliveries : db'.deliveries = db.deliveries)
    (hnotifications : db'.notifications = db.notifications) (hdevices : db'.devices = db.devices)
    (happlications : db'.applications = db.applications) : db.Grows db' :=
  of_eq hdeliveries hnotifications (fun k hk => by rwa [hdevices])
    fun k hk => by rwa [happlications]

theorem modify_devices (db : Db) (k : ℕ) (f : Device → Device) (hf : ∀ d, pk (f d) = pk d)
    (links : Table DeviceApplicationLink) :
    db.Grows { db with links := links, devices := db.devices.modify k f hf } := by
  refine of_eq rfl rfl (fun j hj => ?_) fun _ h => h
  rw [Table.get?_modify, Option.isSome_map]
  exact hj

theorem insert_devices (db : Db) (mk : ℕ → Device) (hmk : ∀ k, pk (mk k) = k) :
    db.Grows { db with devices := db.devices.insert mk hmk } := by
  refine of_eq rfl rfl (fun k hk => ?_) fun _ h => h
  obtain ⟨d, hd⟩ := Option.isSome_iff_exists.mp hk
  rw [Table.get?_insert_of_mem hd]
  rfl

/-- An upsert that merges nothing keeps every row. -/
theorem upsert {now : Instant} {user : ℕ} {data : DeviceData} {u : Upsert}
    (hu : Upserted now db user data u) (hevents : u.events = []) : db.Grows u.db := by
  cases hu with
  | rotated old hne hold howner hnone =>
    exact modify_devices db old.id (rotateDevice now user data) (pk_rotateDevice now user data)
      db.links
  | merged old clash hne hold howner hclash hforeign => simp [mergeEvents] at hevents
  | refreshed d hd =>
    unfold refreshDevice takeOverLinks
    split
    · exact modify_devices db d.id (applyDeviceFields now user data)
        (pk_applyDeviceFields now user data) _
    · exact modify_devices db d.id (applyDeviceFields now user data)
        (pk_applyDeviceFields now user data) db.links
  | created hnone => exact insert_devices db _ (pk_newDevice now user data)

theorem fresh_newNotification (now : Instant) (applicationId : ℕ) (data : NotificationData)
    (id : ℕ) : (newNotification now applicationId data id).Fresh := by
  simp only [Notification.Fresh, newNotification, buildStatusFromScheduledFor]
  split
  · exact Or.inr rfl
  · exact Or.inl rfl

/-- A notification is inserted with fresh deliveries. -/
theorem insertTargeted (db : Db) (now : Instant) (applicationId : ℕ) (deviceIds : List ℕ)
    (data : NotificationData) (happlication : (db.applications.get? applicationId).isSome)
    (hdevices : ∀ k ∈ deviceIds, (db.devices.get? k).isSome) :
    db.Grows (db.insertTargeted now applicationId deviceIds data) where
  delivery := fun d hd => Table.mem_insertAll_of_mem hd
  added := by
    intro d hd
    rcases Table.mem_insertAll hd with hold | ⟨k, hk, -, hnew⟩
    · exact Or.inl hold
    · rw [hnew]
      exact Or.inr ⟨Nat.lt_succ_self _, ⟨rfl, rfl, rfl⟩, hdevices k hk⟩
  notification := fun n hn => mem_notifications_insertTargeted.mpr (Or.inl hn)
  created := by
    intro n hn
    rcases mem_notifications_insertTargeted.mp hn with hold | rfl
    · exact Or.inl hold
    · exact Or.inr ⟨Nat.lt_succ_self _, fresh_newNotification _ _ _ _, happlication⟩
  device := fun _ h => h
  application := fun _ h => h
  seq := Nat.le_succ _

theorem isSome_of_any {applicationId : ℕ} {p : Application → Bool}
    (h : (db.applications.get? applicationId).any p = true) :
    (db.applications.get? applicationId).isSome := by
  obtain ⟨a, ha, -⟩ := (Option.any_eq_true _ _).mp h
  simp [ha]

theorem createNotification (now : Instant) (db : Db) (user applicationId : ℕ)
    (deviceIds : List ℕ) (data : NotificationData) :
    db.Grows (createNotification now db user applicationId deviceIds data).1 := by
  unfold PushIT.createNotification
  split
  · next hvalid =>
    split
    · next ids hids =>
      exact insertTargeted db now applicationId ids data
        (isSome_of_any (Bool.and_eq_true_iff.mp hvalid).1) (isSome_of_normalizedDeviceIds hids)
    · exact refl db
  · exact refl db

theorem createBroadcast (now : Instant) (db : Db) (applicationId : ℕ) (data : NotificationData) :
    db.Grows (createBroadcast now db applicationId data) := by
  unfold PushIT.createBroadcast
  split
  · next hvalid =>
    exact insertTargeted db now applicationId [] data
      (isSome_of_any (Bool.and_eq_true_iff.mp hvalid).1) (by simp)
  · exact refl db

/-- Growing tables keep the foreign keys. -/
theorem intact (h : db.Grows db') (hintact : db.Intact) : db'.Intact where
  device := by
    intro d hd
    rcases h.added d hd with hold | ⟨-, -, hdevice⟩
    · exact h.device _ (hintact.device d hold)
    · exact hdevice
  application := by
    intro n hn
    rcases h.created n hn with hold | ⟨-, -, happlication⟩
    · exact h.application _ (hintact.application n hold)
    · exact happlication

/-- The deliveries of an old notification are the old ones. -/
theorem mem_deliveries (h : db.Grows db') {n : Notification} (hn : n ∈ db.notifications.rows)
    {d : NotificationDelivery} (hd : d ∈ db'.deliveries.rows) (hid : d.notificationId = n.id) :
    d ∈ db.deliveries.rows := by
  rcases h.added d hd with hold | ⟨hlt, -, -⟩
  · exact hold
  · have := db.notifications.bounded n hn
    rw [pk_notification] at this
    omega

end Db.Grows

/-- A request of these runs loses no row. -/
theorem Request.begin_grows (cfg : Settings) {w : World} {rid : ℕ} {r : Request}
    (h : w.Delivers (.request rid r)) : w.db.Grows (r.begin cfg w.clock w.db).db := by
  rcases h with ⟨hr, -⟩ | hr | hr | ⟨hr, hmerges⟩
  · rw [(Request.begin_sending cfg w.clock w.db hr).1]
    exact .refl _
  · rcases Bool.or_eq_true_iff.mp hr with hr | hr
    · obtain ⟨Q, hdb, -⟩ := Request.begin_deviceQuietPeriod cfg w.clock w.db hr
      rw [hdb]
      exact .of_tables rfl rfl rfl rfl
    · cases r with
      | createApplicationQuietPeriod user applicationId values =>
        simp only [begin, Outcome.done]
        split
        · exact .of_tables rfl rfl rfl rfl
        · exact .refl _
      | updateApplicationQuietPeriod | deleteApplicationQuietPeriod =>
        exact .of_tables rfl rfl rfl rfl
      | _ => simp [isApplicationQuietPeriod] at hr
  · cases r with
    | create user applicationId deviceIds data =>
      exact .createNotification w.clock w.db user applicationId deviceIds data
    | sendNow user applicationId deviceIds data =>
      simp only [begin]
      split
      · exact .refl _
      · split
        · exact .refl _
        · exact .createNotification w.clock w.db user applicationId deviceIds data
    | broadcast applicationId data => exact .createBroadcast w.clock w.db applicationId data
    | _ => simp [isCreation] at hr
  · cases r with
    | identify user data =>
      exact .upsert (upsert_cases w.clock w.db user data) (by simpa [merges] using hmerges)
    | link user data applicationId =>
      simp only [begin]
      split
      · exact .upsert (upsert_cases w.clock w.db user data) (by simpa [merges] using hmerges)
      · exact .refl _
    | unlink | evict => exact .refl _
    | activateApplication user applicationId isActive =>
      refine .of_eq rfl rfl (fun _ h => h) fun k hk => ?_
      change ((w.db.applications.update _ (fun a => { a with isActive }) (fun _ => rfl)).get?
        k).isSome
      rw [Table.get?_update, Option.isSome_map]
      exact hk
    | _ => simp [isLinking] at hr

theorem Process.Moves.writes {now : Instant} {T : Table Notification} {input : TaskInput}
    {p : Process} {s : TaskStep Process} (h : Moves now T input p s) :
    p.writesNotifications = true := by
  cases h <;> rfl

/-- A process of these runs is a request or task on notifications, or it writes links. -/
theorem Process.advance_delivering (now : Instant) (db : Db) (input : TaskInput) {p : Process}
    (hp : p.isDelivering = true) :
    (p.isSending = true ∧ ∃ s, Moves now db.notifications input p s ∧ p.advance now db input =
      { next := s.next
        db := { db with notifications := s.notifications }
        submitted := s.submitted
        events := s.events }) ∨
    (p.advance now db input).next = none ∧ db.Grows (p.advance now db input).db ∧
      (p.advance now db input).db.notifications = db.notifications := by
  cases p with
  | queue r => exact Or.inl ⟨rfl, advance_moves now input db rfl⟩
  | dispatch r => exact Or.inl ⟨rfl, advance_moves now input db rfl⟩
  | retry ids => exact Or.inl ⟨rfl, advance_moves now input db rfl⟩
  | link deviceId applicationId =>
    right
    have h := advance_cases now db input (.link deviceId applicationId)
    generalize advance now db input (.link deviceId applicationId) = o at h ⊢
    cases h with
    | moves _ s hmoves => simpa [writesNotifications] using hmoves.writes
    | _ => exact ⟨rfl, .of_tables rfl rfl rfl rfl, rfl⟩
  | unlink linkId source => exact Or.inr ⟨rfl, .of_tables rfl rfl rfl rfl, rfl⟩
  | _ => simp [isDelivering] at hp

/-- The actions of these runs leave the running passes what they need. -/
theorem World.Delivers.leavesPasses {cfg : Settings} {w : World} {a : Action} (hw : w.Claimed)
    (h : w.Delivers a) : w.LeavesPasses cfg a := by
  have hspares : ∀ {o : Outcome}, w.db.Grows o.db → w.Leaves o := fun hgrows =>
    ⟨fun pid p hp => Table.get?_pk
      (hgrows.notification _ (Table.get?_eq_some.mp (hw.row pid p hp)).1),
      hgrows.delivery, hgrows.device⟩
  cases a with
  | request rid r => exact hspares (Request.begin_grows cfg h)
  | advance rid input =>
    intro p hp
    rcases Process.advance_delivering w.clock w.db input (h p hp) with
      ⟨-, s, hmoves, hadv⟩ | ⟨-, hgrows, -⟩
    · rw [hadv]
      refine ⟨fun pid q hq => ?_, fun _ hd => hd, fun _ hk => hk⟩
      refine hmoves.get?_processing (hw.row pid q hq) (hw.processing pid q hq) ?_ ?_
      · rintro cutoff ids rfl
        simpa [Process.isDelivering] using h _ hp
      · rintro m d rfl
        simpa [Process.isDelivering] using h _ hp
    · exact hspares hgrows
  | _ => trivial

theorem World.Delivers.sound {cfg : Settings} {w w' : World} {a : Action} (hw : w.Sound)
    (h : Steps cfg w a w') (hs : w.Delivers a) : w'.Sound :=
  hw.step_of_leaves h (hs.leavesPasses hw.toClaimed)

/-- The actions of these runs keep the foreign keys. -/
theorem World.Delivers.intact {cfg : Settings} {w w' : World} {a : Action}
    (hintact : w.db.Intact) (h : Steps cfg w a w') (hs : w.Delivers a) : w'.db.Intact := by
  have hupdate : ∀ (q : Notification → Bool) (f : Notification → Notification)
      (hf : ∀ r, pk (f r) = pk r), (∀ r, (f r).applicationId = r.applicationId) →
      ∀ n ∈ (w.db.notifications.update q f hf).rows,
        (w.db.applications.get? n.applicationId).isSome := by
    intro q f hf hkeep n hn
    obtain ⟨r, hr, rfl⟩ := Table.mem_update.mp hn
    split
    · rw [hkeep r]
      exact hintact.application r hr
    · exact hintact.application r hr
  cases h with
  | tick duration => exact hintact
  | notClaimed => exact hintact
  | claimed pid task n htask hpid hn hstatus =>
    exact ⟨hintact.device, hupdate _ _ (pk_acquire w.clock) fun _ => rfl⟩
  | pass pid input p s hp hmoves => exact hmoves.intact hintact
  | crash pid p hp => exact hs.elim
  | request rid r hrid => exact (Request.begin_grows cfg hs).intact hintact
  | advance rid input p hp =>
    rcases Process.advance_delivering w.clock w.db input (hs p hp) with
      ⟨-, s, hmoves, hadv⟩ | ⟨-, hgrows, -⟩
    · rw [hadv]
      refine ⟨hintact.device, ?_⟩
      rcases hmoves.notifications with hT | ⟨q, f, hf, hT, hkeep⟩
      · exact fun n hn => hintact.application n (hT ▸ hn)
      · exact fun n hn => hupdate q f hf hkeep n (hT ▸ hn)
    · exact hgrows.intact hintact

/-! ### Treated deliveries -/

namespace Pass

/-- A property `Q` that every branch of the send loop gives to the delivery it treats, with the
counters after it, and leaves to those treated before.  The branches may use the property `R` of
the delivery. -/
structure Treatment (Q : Counts → NotificationDelivery → Prop)
    (R : NotificationDelivery → Prop) : Prop where
  mono : ∀ c d, Q c d → Q c.addSent d ∧ Q c.addFailed d ∧ Q c.addSkipped d ∧
    Q c.addDeferred d ∧ Q c.addWaiting d
  skipped : ∀ (c : Counts) d, d.status = .sent → Q c.addSkipped d
  cancelled : ∀ now reason (c : Counts) d, Q c.addFailed (cancelDelivery now reason d)
  waited : ∀ now (c : Counts) d, R d → d.status ≠ .sent → shouldWaitForRetry now d = true →
    Q c.addWaiting d
  deferred : ∀ now retryAt (c : Counts) d, Q c.addDeferred (markDeliveryAsDeferred now retryAt d)
  exhausted : ∀ (c : Counts) d, R d → d.status ≠ .sent → maxDeliveryAttempts ≤ d.attemptCount →
    Q c.addFailed d
  sent : ∀ now providerMessageId (c : Counts) d,
    Q c.addSent (markDeliveryAsSent now providerMessageId d)
  failed : ∀ now error (c : Counts) d, Q c.addFailed (markDeliveryAsFailed now error d)

/-- The counters a stage has reached.  `_fail_for_lapsed_subscription` counts every delivery as
failed. -/
def tally : Stage → Counts
  | .cancelling _ => Counts.addFailed {}
  | .looping f | .marking f _ _ | .counting f _ _ | .invalidating f _ _ | .rereading f _ _
  | .failing f _ _ => f.counts
  | .settling f _ => f.counts.addSent
  | _ => {}

/-- The pass has read its deliveries and goes through them. -/
def isTreating : Stage → Bool
  | .cancelling _ | .refreshing _ | .linking _ _ | .looping _ | .marking _ _ _ | .settling _ _
  | .counting _ _ _ | .invalidating _ _ _ | .rereading _ _ _ | .failing _ _ _ => true
  | _ => false

/-- No delivery row belongs to the notification. -/
def Untargeted (db : Db) (id : ℕ) : Prop := ∀ d ∈ db.deliveries.rows, d.notificationId ≠ id

/-- What a status written at the end of a pass says: there is no delivery, or all were treated
and the status comes from the counters. -/
def Closes (Q : Counts → NotificationDelivery → Prop) (db : Db) (id : ℕ) (status : FinalStatus) :
    Prop :=
  status = noTarget ∧ Untargeted db id ∨
    ∃ c, status = finalStatus c ∧ ∀ d ∈ db.deliveries.rows, d.notificationId = id → Q c d

/-- Every delivery of the notification lies ahead of the pass or has been treated. -/
structure Treated (Q : Counts → NotificationDelivery → Prop) (db : Db) (p : Pass) : Prop where
  covered : isTreating p.stage = true → ∀ d ∈ db.deliveries.rows,
    d.notificationId = p.notification.id → d ∈ pending p.stage ∨ Q (tally p.stage) d
  absent : p.stage = .targeting ∨ (∃ ids, p.stage = .materializing ids) →
    Untargeted db p.notification.id
  closing : ∀ status, p.stage = .closing status → Closes Q db p.notification.id status

variable {Q : Counts → NotificationDelivery → Prop} {R : NotificationDelivery → Prop}
  {cfg : Settings} {now : Instant} {db : Db} {n : Notification} {stage : Stage} {s : PassStep}

/-- Another process that adds no delivery to the notification keeps what was treated. -/
theorem Treated.of_rows {db' : Db} {p : Pass} (hp : p.Treated Q db)
    (h : ∀ d ∈ db'.deliveries.rows, d.notificationId = p.notification.id →
      d ∈ db.deliveries.rows) : p.Treated Q db' where
  covered := fun ht d hd hid => hp.covered ht d (h d hd hid) hid
  absent := fun hstage d hd hid => hp.absent hstage d (h d hd hid) hid
  closing := by
    intro status hstage
    rcases hp.closing status hstage with ⟨hnone, hrows⟩ | ⟨c, hc, hrows⟩
    · exact Or.inl ⟨hnone, fun d hd hid => hrows d (h d hd hid) hid⟩
    · exact Or.inr ⟨c, hc, fun d hd hid => hrows d (h d hd hid) hid⟩

/-- A stage at which nothing has to be shown. -/
private theorem treated_early (hearly : isTreating stage = false) (hstage : stage ≠ .targeting)
    (hmat : ∀ ids, stage ≠ .materializing ids) (hclosing : ∀ status, stage ≠ .closing status) :
    Treated Q db ⟨n, stage⟩ where
  covered := by simp [hearly]
  absent := by
    rintro (h | ⟨ids, h⟩)
    · exact absurd h hstage
    · exact absurd h (hmat ids)
  closing := fun status h => absurd h (hclosing status)

/-- A stage of the loop. -/
private theorem treated_loop (ht : isTreating stage = true)
    (h : ∀ d ∈ db.deliveries.rows, d.notificationId = n.id →
      d ∈ pending stage ∨ Q (tally stage) d) :
    Treated Q db ⟨n, stage⟩ where
  covered := fun _ => h
  absent := by
    rintro (h | ⟨ids, h⟩) <;> simp only at h <;> simp [h, isTreating] at ht
  closing := by
    intro status h
    simp only at h
    simp [h, isTreating] at ht

/-- The pass goes on with the deliveries it had ahead. -/
private theorem Treated.go {db' : Db} {stage' : Stage} (hp : Treated Q db ⟨n, stage⟩)
    (hdb : db'.deliveries = db.deliveries) (ht : isTreating stage = true)
    (ht' : isTreating stage' = true) (hpending : pending stage' = pending stage)
    (htally : tally stage' = tally stage) : Treated Q db' ⟨n, stage'⟩ := by
  refine treated_loop ht' fun d hd hid => ?_
  rw [hdb] at hd
  rw [hpending, htally]
  exact hp.covered ht d hd hid

/-- The pass leaves the first delivery ahead as it is. -/
private theorem Treated.leave {stage' : Stage} {d : NotificationDelivery}
    (hp : Treated Q db ⟨n, stage⟩) (ht : isTreating stage = true) (ht' : isTreating stage' = true)
    (hpending : pending stage = d :: pending stage')
    (hmono : ∀ e, Q (tally stage) e → Q (tally stage') e) (hd : Q (tally stage') d) :
    Treated Q db ⟨n, stage'⟩ := by
  refine treated_loop ht' fun e he hid => ?_
  rcases hp.covered ht e he hid with hmem | hq
  · rw [hpending] at hmem
    rcases List.mem_cons.mp hmem with rfl | hmem
    · exact Or.inr hd
    · exact Or.inl hmem
  · exact Or.inr (hmono e hq)

/-- The pass writes the first delivery ahead. -/
private theorem Treated.mark {stage' : Stage} {d : NotificationDelivery}
    {f : NotificationDelivery → NotificationDelivery} {hf : ∀ d, pk (f d) = pk d}
    (hp : Treated Q db ⟨n, stage⟩) (hacc : Accurate db ⟨n, stage⟩) (ht : isTreating stage = true)
    (ht' : isTreating stage' = true) (hpending : pending stage = d :: pending stage')
    (hmono : ∀ e, Q (tally stage) e → Q (tally stage') e) (hd : Q (tally stage') (f d)) :
    Treated Q (withDelivery db d.id f hf) ⟨n, stage'⟩ := by
  obtain ⟨hrow, hnotification⟩ := hacc.row d (by simp [hpending])
  refine treated_loop ht' fun e he hid => ?_
  change e ∈ (db.deliveries.modify d.id f hf).rows at he
  obtain ⟨r, hr, rfl⟩ := Table.mem_modify.mp he
  by_cases hpk : pk r = d.id
  · obtain rfl : r = d := Table.eq_of_pk hr (Table.get?_eq_some.mp hrow).1 hpk
    rw [if_pos hpk]
    exact Or.inr hd
  · rw [if_neg hpk] at hid ⊢
    rcases hp.covered ht r hr hid with hmem | hq
    · rw [hpending] at hmem
      rcases List.mem_cons.mp hmem with rfl | hmem
      · exact absurd rfl hpk
      · exact Or.inl hmem
    · exact Or.inr (hmono r hq)

/-- Freshly loaded deliveries all lie ahead. -/
private theorem treated_load (hintact : db.Intact) {ls : List LoadedDelivery}
    (h : loadDeliveries db n.id = ls) : Treated Q db ⟨n, .refreshing ls⟩ := by
  refine treated_loop rfl fun d hd hid => Or.inl ?_
  obtain ⟨device, hdevice⟩ := Option.isSome_iff_exists.mp (hintact.device d hd)
  obtain ⟨l, hl, rfl⟩ := exists_mem_loadDeliveries hd hid hdevice
  exact List.mem_map_of_mem (h ▸ hl)

private theorem untargeted_of_load (hintact : db.Intact) (h : loadDeliveries db n.id = []) :
    Untargeted db n.id := by
  intro d hd hid
  obtain ⟨device, hdevice⟩ := Option.isSome_iff_exists.mp (hintact.device d hd)
  obtain ⟨l, hl, -⟩ := exists_mem_loadDeliveries hd hid hdevice
  simp [h] at hl

/-- One step of a pass keeps its deliveries treated. -/
theorem Moves.treated (ht : Treatment Q R) {p p' : Pass} (hacc : p.Accurate db)
    (hintact : db.Intact) (hR : ∀ d ∈ db.deliveries.rows, R d)
    (hlapse : p.stage = .lapsed → ∀ d ∈ db.deliveries.rows,
      d.notificationId = p.notification.id → d.status = .sent → Q (Counts.addFailed {}) d)
    (hp : p.Treated Q db) (h : Moves cfg now db p.notification p.stage s)
    (hnext : s.next = some p') : p'.Treated Q s.db := by
  obtain ⟨n, stage⟩ := p
  have hhead : ∀ d ∈ pending stage, R d := fun d hd =>
    hR d (Table.get?_eq_some.mp (hacc.row d hd).1).1
  cases h with
  | paid | unpaid | quiet | notQuiet | materialized =>
    obtain rfl := Option.some.inj hnext
    exact treated_early rfl (by simp) (by simp) (by simp)
  | lapsed =>
    obtain rfl := Option.some.inj hnext
    refine treated_loop rfl fun d hd hid => ?_
    by_cases hsent : d.status = .sent
    · exact Or.inr (hlapse rfl d hd hid hsent)
    · exact Or.inl (Table.mem_select.mpr ⟨hd, by simp [hid, hsent]⟩)
  | lapsedCancelled d ds row hrow =>
    obtain rfl := Option.some.inj hnext
    exact hp.mark hacc rfl rfl rfl (fun _ hq => hq) (ht.cancelled now .subscriptionRequired {} d)
  | listedNone hload =>
    obtain rfl := Option.some.inj hnext
    exact ⟨by simp [isTreating], fun _ => untargeted_of_load hintact hload, by simp⟩
  | listed l ls hload | relisted l ls hload =>
    obtain rfl := Option.some.inj hnext
    exact treated_load hintact hload
  | untargeted hnone =>
    obtain rfl := Option.some.inj hnext
    refine ⟨by simp [isTreating], by simp, ?_⟩
    rintro status ⟨⟩
    exact Or.inl ⟨rfl, hp.absent (Or.inl rfl)⟩
  | targeted d ds hdevices =>
    obtain rfl := Option.some.inj hnext
    exact ⟨by simp [isTreating], fun _ => hp.absent (Or.inl rfl), by simp⟩
  | relistedNone hload =>
    obtain rfl := Option.some.inj hnext
    refine ⟨by simp [isTreating], by simp, ?_⟩
    rintro status ⟨⟩
    exact Or.inl ⟨rfl, untargeted_of_load hintact hload⟩
  | refreshed ls a happlication =>
    obtain rfl := Option.some.inj hnext
    exact hp.go rfl rfl rfl rfl rfl
  | linked active ls =>
    obtain rfl := Option.some.inj hnext
    exact hp.go rfl rfl rfl rfl rfl
  | finished f hrest =>
    obtain rfl := Option.some.inj hnext
    refine ⟨by simp [isTreating], by simp, ?_⟩
    rintro status ⟨⟩
    refine Or.inr ⟨f.counts, rfl, fun d hd hid => ?_⟩
    rcases hp.covered rfl d hd hid with hmem | hq
    · simp [pending, hrest] at hmem
    · exact hq
  | skipped f l ls hrest hdecision =>
    obtain rfl := Option.some.inj hnext
    refine hp.leave (d := l.delivery) rfl rfl (by simp [pending, LoopFrame.rest, LoopFrame.count,
      hrest]) (fun e hq => (ht.mono f.counts e hq).2.2.1) ?_
    cases decides_of_eq hdecision with
    | skip hsent => exact ht.skipped f.counts l.delivery hsent
  | waited f l ls hrest hdecision =>
    obtain rfl := Option.some.inj hnext
    refine hp.leave (d := l.delivery) rfl rfl (by simp [pending, LoopFrame.rest, LoopFrame.count,
      hrest]) (fun e hq => (ht.mono f.counts e hq).2.2.2.2) ?_
    cases decides_of_eq hdecision with
    | wait hsent hwait =>
      exact ht.waited now f.counts l.delivery (hhead _ (by simp [pending, hrest])) hsent hwait
  | exhausted f l ls hrest hdecision =>
    obtain rfl := Option.some.inj hnext
    refine hp.leave (d := l.delivery) rfl rfl (by simp [pending, LoopFrame.rest, LoopFrame.count,
      hrest]) (fun e hq => (ht.mono f.counts e hq).2.1) ?_
    cases decides_of_eq hdecision with
    | exhausted hsent hattempts =>
      exact ht.exhausted f.counts l.delivery (hhead _ (by simp [pending, hrest])) hsent hattempts
  | cancelled f l ls reason row hrest hdecision hrow =>
    obtain rfl := Option.some.inj hnext
    exact hp.mark hacc rfl rfl (by simp [pending, LoopFrame.rest, LoopFrame.count, hrest])
      (fun e hq => (ht.mono f.counts e hq).2.1) (ht.cancelled now reason f.counts l.delivery)
  | deferred f l ls retryAt row hrest hdecision hrow =>
    obtain rfl := Option.some.inj hnext
    exact hp.mark hacc rfl rfl (by simp [pending, LoopFrame.rest, LoopFrame.count, hrest])
      (fun e hq => (ht.mono f.counts e hq).2.2.2.1) (ht.deferred now retryAt f.counts l.delivery)
  | accepted f l ls m hrest hdecision | refused f l ls error hrest hdecision =>
    obtain rfl := Option.some.inj hnext
    exact hp.go rfl rfl rfl (by simp [pending, LoopFrame.rest, hrest]) rfl
  | sentToSettle f l m row hcount hrow =>
    obtain rfl := Option.some.inj hnext
    exact hp.mark hacc rfl rfl rfl (fun e hq => (ht.mono f.counts e hq).1)
      (ht.sent now m f.counts l.delivery)
  | sent f l m row hcount hrow =>
    obtain rfl := Option.some.inj hnext
    exact hp.mark hacc rfl rfl rfl (fun e hq => (ht.mono f.counts e hq).1)
      (ht.sent now m f.counts l.delivery)
  | failed f l error row hrow =>
    obtain rfl := Option.some.inj hnext
    exact hp.mark hacc rfl rfl rfl (fun e hq => (ht.mono f.counts e hq).2.1)
      (ht.failed now error.text f.counts l.delivery)
  | settled f l row hrow =>
    obtain rfl := Option.some.inj hnext
    exact hp.go rfl rfl rfl rfl rfl
  | countedInvalid f l error herror =>
    obtain rfl := Option.some.inj hnext
    exact hp.go rfl rfl rfl rfl rfl
  | counted f l error herror =>
    obtain rfl := Option.some.inj hnext
    exact hp.go rfl rfl rfl rfl rfl
  | invalidated f l error row hrow =>
    obtain rfl := Option.some.inj hnext
    exact hp.go rfl rfl rfl rfl rfl
  | reread f l error row hrow =>
    obtain rfl := Option.some.inj hnext
    exact hp.go rfl rfl rfl rfl rfl
  | notSent f l m hrow =>
    have := (hacc.row l.delivery (by simp [pending])).1
    simp [hrow] at this
  | notSettled f l hrow =>
    have := hacc.device l (by simp [Pass.held])
    simp [hrow] at this
  | lapsedClosed | lapsedGone | postponed | notMaterialized | applicationGone | deliveryGone
  | notInvalidated | notReread | notFailed | closed => simp [ended] at hnext

/-- How a pass ends: with its last status, in a quiet period, or before it created a delivery. -/
theorem Moves.closes {p : Pass} (hacc : p.Accurate db) (hintact : db.Intact)
    (hrow : db.notifications.get? p.notification.id = some p.notification)
    (hp : p.Treated Q db) (h : Moves cfg now db p.notification p.stage s)
    (hnext : s.next = none) :
    (∃ status : FinalStatus, Closes Q db p.notification.id status ∧
      s.db = db.updateNotification p.notification.id (closeNotification now status.val)
        (pk_closeNotification now status.val)) ∨
    (∃ quietPeriodEnd, p.stage = .postponing quietPeriodEnd ∧
      s.db = db.updateNotification p.notification.id (postponeNotification quietPeriodEnd)
        (pk_postponeNotification quietPeriodEnd)) ∨
    Untargeted db p.notification.id ∧ s.db = db := by
  obtain ⟨n, stage⟩ := p
  have hdelivery : ∀ d ∈ pending stage, db.deliveries.get? d.id ≠ none := fun d hd => by
    rw [(hacc.row d hd).1]
    simp
  have hdevice : ∀ l ∈ Pass.held stage, db.devices.get? l.device.id ≠ none := fun l hl =>
    Option.isSome_iff_ne_none.mp (hacc.device l hl)
  cases h with
  | lapsedClosed =>
    refine Or.inl ⟨finalStatus (Counts.addFailed {}), Or.inr ⟨_, rfl, fun d hd hid => ?_⟩, rfl⟩
    rcases hp.covered rfl d hd hid with hmem | hq
    · simp [pending] at hmem
    · exact hq
  | closed status => exact Or.inl ⟨status, hp.closing status rfl, rfl⟩
  | postponed quietPeriodEnd => exact Or.inr (Or.inl ⟨quietPeriodEnd, rfl, rfl⟩)
  | notMaterialized ids hnot => exact Or.inr (Or.inr ⟨hp.absent (Or.inr ⟨ids, rfl⟩), rfl⟩)
  | applicationGone ls hnone =>
    have := hintact.application n (Table.get?_eq_some.mp hrow).1
    simp [hnone] at this
  | lapsedGone d ds hnone => exact absurd hnone (hdelivery d (by simp [pending]))
  | deliveryGone f l ls hrest hnone =>
    exact absurd hnone (hdelivery l.delivery (by simp [pending, hrest]))
  | notFailed f l error hnone => exact absurd hnone (hdelivery l.delivery (by simp [pending]))
  | notInvalidated f l error hnone | notReread f l error hnone =>
    exact absurd hnone (hdevice l (by simp [Pass.held]))
  | _ => simp [on] at hnext

/-- A pass touches no delivery of another notification. -/
theorem Moves.mem_delivery_of_ne {p : Pass} (hacc : p.Accurate db)
    (h : Moves cfg now db p.notification p.stage s) {d : NotificationDelivery}
    (hd : d ∈ s.db.deliveries.rows) (hne : d.notificationId ≠ p.notification.id) :
    d ∈ db.deliveries.rows := by
  rcases h.deliveries with hs | ⟨e, f, hm, hs⟩ | ⟨ids, -, hs⟩ <;> rw [hs] at hd
  · exact hd
  · obtain ⟨r, hr, rfl⟩ := Table.mem_modify.mp hd
    by_cases hpk : pk r = e.id
    · obtain ⟨hrow, hnotification⟩ := hacc.row e hm.mem_pending
      obtain rfl : r = e := Table.eq_of_pk hr (Table.get?_eq_some.mp hrow).1 hpk
      rw [if_pos hpk, (hm.keeps r).1] at hne
      exact absurd hnotification hne
    · rwa [if_neg hpk]
  · rcases Table.mem_insertAll hd with hold | ⟨k, -, -, hnew⟩
    · exact hold
    · rw [hnew] at hne
      exact absurd rfl hne

end Pass

/-- One action keeps the deliveries of every running pass treated. -/
theorem World.Delivers.treated {Q : Counts → NotificationDelivery → Prop}
    {R : NotificationDelivery → Prop} (ht : Pass.Treatment Q R) {cfg : Settings} {w w' : World}
    {a : Action} (hw : w.Sound) (hintact : w.db.Intact) (hR : ∀ d ∈ w.db.deliveries.rows, R d)
    (hlapse : ∀ pid input p, a = .pass pid input → w.passes pid = some p → p.stage = .lapsed →
      ∀ d ∈ w.db.deliveries.rows, d.notificationId = p.notification.id → d.status = .sent →
        Q (Counts.addFailed {}) d)
    (hp : ∀ pid p, w.passes pid = some p → p.Treated Q w.db) (h : Steps cfg w a w')
    (hs : w.Delivers a) : ∀ pid p, w'.passes pid = some p → p.Treated Q w'.db := by
  have hgrow : ∀ {db' : Db}, w.db.Grows db' → ∀ pid p, w.passes pid = some p →
      p.Treated Q db' := fun hgrows pid p hpid =>
    (hp pid p hpid).of_rows fun d hd hid =>
      hgrows.mem_deliveries (Table.get?_eq_some.mp (hw.row pid p hpid)).1 hd hid
  cases h with
  | tick duration => exact hp
  | notClaimed => exact hp
  | claimed pid task n htask hpid hn hstatus =>
    refine Pool.forall_set (fun j q hq => (hp j q hq).of_rows fun _ hd _ => hd) ?_
    rintro p ⟨⟩
    exact ⟨by simp [Pass.isTreating], by simp, by simp⟩
  | pass pid input p s hpid hmoves =>
    intro j q hq
    rcases Pool.set_eq_some.mp hq with ⟨rfl, hnext⟩ | ⟨hne, hq⟩
    · exact hmoves.treated ht (hw.accurate j p hpid) hintact hR
        (hlapse j input p rfl hpid) (hp j p hpid) hnext
    · refine (hp j q hq).of_rows fun d hd hid =>
        hmoves.mem_delivery_of_ne (hw.accurate pid p hpid) hd ?_
      exact fun heq => hne (hw.exclusive hq hpid (hid.symm.trans heq))
  | crash pid p hpid => exact hs.elim
  | request rid r hrid => exact hgrow (Request.begin_grows cfg hs)
  | advance rid input p hpid =>
    rcases Process.advance_delivering w.clock w.db input (hs p hpid) with
      ⟨-, s, hmoves, hadv⟩ | ⟨-, hgrows, -⟩
    · rw [hadv]
      exact fun j q hq => (hp j q hq).of_rows fun _ hd _ => hd
    · exact hgrow hgrows

end PushIT
