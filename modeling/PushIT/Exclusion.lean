import PushIT.ProcessSteps

/-!
# Exclusive and accurate passes

The row of a notification stays PROCESSING, exactly as the pass that claimed it wrote it, as long
as nobody but that pass writes it.  From this follow that two passes never run for one
notification, and that the delivery instances a pass still has to treat agree with their rows.

## Main definitions

* `World.Claimed`: the running passes and the notification rows.
* `Pass.Accurate`: a pass and its delivery rows.
* `World.Sound`: both, for every running pass.

## Main results

* `World.Claimed.step`, `World.Sound.step`: what the steps of the server keep.
* `Process.Moves.get?_processing`: which requests and tasks leave a PROCESSING row alone.
-/

namespace PushIT

open Relational Transition

/-! ### Claimed rows -/

/-- The passes and the notification rows agree. -/
structure World.Claimed (w : World) : Prop where
  exclusive : Pool.Exclusive (fun p : Pass => p.notification.id) w.passes
  row : ∀ pid p, w.passes pid = some p →
    w.db.notifications.get? p.notification.id = some p.notification
  processing : ∀ pid p, w.passes pid = some p → p.notification.status = .processing

theorem World.Initial.claimed {w : World} (hw : w.Initial) : w.Claimed where
  exclusive := by
    rw [hw.passes]
    exact Pool.exclusive_idle
  row := by simp [hw.passes]
  processing := by simp [hw.passes]

/-- What an outcome must not do to the row of a running pass. -/
def World.SparesClaims (w : World) (o : Outcome) : Prop :=
  ∀ pid p, w.passes pid = some p →
    o.db.notifications.get? p.notification.id = some p.notification

/-- The requests and tasks spare the claimed rows in this action. -/
def World.ClaimsSpared (cfg : Settings) (w : World) : Action → Prop
  | .request _ r => w.SparesClaims (r.begin cfg w.clock w.db)
  | .advance rid input =>
    ∀ p, w.processes rid = some p → w.SparesClaims (p.advance w.clock w.db input)
  | _ => True

theorem allowed_ne_processing {s : NotificationStatus}
    (h : s ∈ allowedNotificationStatusesToStart) : s ≠ .processing := by
  rintro rfl
  simp [allowedNotificationStatusesToStart] at h

/-- Claims stay exclusive, and the claimed rows stay as they were claimed. -/
theorem World.Claimed.step {cfg : Settings} {w w' : World} {a : Action} (hw : w.Claimed)
    (h : Steps cfg w a w') (hspared : w.ClaimsSpared cfg a) : w'.Claimed := by
  cases h with
  | tick duration => exact ⟨hw.exclusive, hw.row, hw.processing⟩
  | notClaimed pid task rowLocked htask hpid hnone =>
    exact ⟨hw.exclusive, hw.row, hw.processing⟩
  | claimed pid task n htask hpid hn hstatus =>
    -- nobody else holds the row: a held row is PROCESSING, which no claim accepts
    have hid : n.id = task.notification := (Table.get?_eq_some.mp hn).2
    have habs : ∀ j p, w.passes j = some p → p.notification.id ≠ n.id := by
      intro j p hp heq
      have hrow := hw.row j p hp
      rw [heq, hid, hn] at hrow
      refine allowed_ne_processing hstatus ?_
      rw [Option.some.inj hrow]
      exact hw.processing j p hp
    refine ⟨hw.exclusive.set_of_absent habs, ?_, ?_⟩
    · refine Pool.forall_set ?_ ?_
      · intro j p hp
        simp only [Db.updateNotification]
        rw [Table.get?_modify_of_ne _ _ _ (habs j p hp)]
        exact hw.row j p hp
      · intro p hp
        obtain rfl := Option.some.inj hp
        change (w.db.notifications.modify n.id _ (pk_acquire w.clock)).get? n.id = _
        rw [Table.get?_modify_self, hid, hn]
        rfl
    · refine Pool.forall_set hw.processing ?_
      intro p hp
      obtain rfl := Option.some.inj hp
      rfl
  | pass pid input p s hp hmoves =>
    have hkey : ∀ p', s.next = some p' → p'.notification = p.notification :=
      fun p' hp' => hmoves.notification_eq hp'
    refine ⟨hw.exclusive.set_of_key hp fun p' hp' => by rw [hkey p' hp'], ?_, ?_⟩
    · intro j q hq
      rcases Pool.set_eq_some.mp hq with ⟨rfl, hnext⟩ | ⟨hne, hq⟩
      · change s.db.notifications.get? q.notification.id = _
        rw [hmoves.notifications_of_next hnext, hkey q hnext]
        exact hw.row j p hp
      · have hother : q.notification.id ≠ p.notification.id :=
          fun heq => hne (hw.exclusive hq hp heq)
        change s.db.notifications.get? q.notification.id = _
        rcases hmoves.notifications with hs | ⟨-, f, hf, hs, -⟩ <;> rw [hs]
        · exact hw.row j q hq
        · rw [Table.get?_modify_of_ne _ _ _ hother]
          exact hw.row j q hq
    · refine Pool.forall_set hw.processing ?_
      intro p' hp'
      rw [hkey p' hp']
      exact hw.processing pid p hp
  | crash pid p hp =>
    refine ⟨hw.exclusive.set_of_key hp (by simp), ?_, ?_⟩
    · exact Pool.forall_set hw.row (by simp)
    · exact Pool.forall_set hw.processing (by simp)
  | request rid r hrid => exact ⟨hw.exclusive, hspared, hw.processing⟩
  | advance rid input p hp => exact ⟨hw.exclusive, hspared p hp, hw.processing⟩

/-! ### Who leaves a PROCESSING row alone -/

/-- The watchdog and a PATCH are the only ones that rewrite a PROCESSING row. -/
theorem Process.Moves.get?_processing {now : Instant} {T : Table Notification}
    {input : TaskInput} {p : Process} {s : TaskStep Process}
    (h : Moves now T input p s) {n : Notification} (hn : T.get? n.id = some n)
    (hp : n.status = .processing)
    (hwatchdog : ∀ cutoff ids, p = .watchdog (.scanning cutoff (n.id :: ids)) →
      stuckProcessing cutoff n = false)
    (hpatch : ∀ m d, p = .patch (.saving m d) → m.id ≠ n.id) :
    s.notifications.get? n.id = some n := by
  have hmodify : ∀ (id : ℕ) (f : Notification → Notification) (hf : ∀ r, pk (f r) = pk r),
      id ≠ n.id → (T.modify id f hf).get? n.id = some n :=
    fun id f hf hne => (Table.get?_modify_of_ne T f hf hne.symm).trans hn
  cases h with
  | queued r id status m hr hm hstatus =>
    refine hmodify id _ pk_queueNotification ?_
    rintro rfl
    obtain rfl := Option.some.inj (hm.symm.trans hn)
    have := status.2
    rw [← hstatus, hp] at this
    simp [allowedNotificationStatusesToQueue] at this
  | queueRolledBack r id status hr =>
    change (T.update _ _ (pk_restoreStatus status.val)).get? n.id = some n
    rw [Table.get?_update, hn]
    simp [hp]
  | dispatched id ids m hm hdue =>
    refine hmodify id _ pk_queueNotification ?_
    rintro rfl
    obtain rfl := Option.some.inj (hm.symm.trans hn)
    simp [scheduledDue, hp] at hdue
  | requeued cutoff id ids m hm hstuck =>
    refine hmodify id _ pk_requeueNotification ?_
    rintro rfl
    obtain rfl := Option.some.inj (hm.symm.trans hn)
    rw [hwatchdog cutoff ids rfl] at hstuck
    simp at hstuck
  | patched m d row hrow => exact hmodify m.id _ (pk_saveFuture m) (hpatch m d rfl)
  | _ => exact hn

/-! ### Accurate passes -/

namespace Pass

/-- The delivery instances whose rows a stage has not written yet. -/
def pending : Stage → List NotificationDelivery
  | .cancelling ds => ds
  | .refreshing ls | .linking _ ls => ls.map (·.delivery)
  | .looping f => f.remaining.map (·.delivery)
  | .marking f l _ | .counting f l _ | .invalidating f l _ | .rereading f l _
  | .failing f l _ => l.delivery :: f.remaining.map (·.delivery)
  | .settling f _ => f.remaining.map (·.delivery)
  | _ => []

/-- The delivery whose provider call is not written back yet. -/
def beingPushed : Stage → Option NotificationDelivery
  | .marking _ l _ | .counting _ l _ | .invalidating _ l _ | .rereading _ l _
  | .failing _ l _ => some l.delivery
  | _ => none

/-- The instances a pass has to treat agree with their rows, it treats none twice, and what it
pushed could be pushed. -/
structure Accurate (db : Db) (p : Pass) : Prop where
  nodup : ((pending p.stage).map (·.id)).Nodup
  row : ∀ d ∈ pending p.stage,
    db.deliveries.get? d.id = some d ∧ d.notificationId = p.notification.id
  device : ∀ l ∈ held p.stage, (db.devices.get? l.device.id).isSome
  pushable : ∀ d, beingPushed p.stage = some d →
    d.status ≠ .sent ∧ d.attemptCount < maxDeliveryAttempts
  unsent : ∀ ds, p.stage = .cancelling ds → ∀ d ∈ ds, d.status ≠ .sent

theorem mem_loadDeliveries {db : Db} {id : ℕ} {l : LoadedDelivery}
    (h : l ∈ loadDeliveries db id) :
    l.delivery ∈ db.deliveries.rows ∧ l.delivery.notificationId = id ∧
      db.devices.get? l.delivery.deviceId = some l.device := by
  simp only [loadDeliveries, List.mem_filterMap, List.mem_insertionSort, Table.mem_select,
    Option.map_eq_some_iff, beq_iff_eq] at h
  obtain ⟨d, ⟨hd, hid⟩, device, hdevice, rfl⟩ := h
  exact ⟨hd, hid, hdevice⟩

/-- Every delivery row of the notification whose device exists is loaded. -/
theorem exists_mem_loadDeliveries {db : Db} {id : ℕ} {d : NotificationDelivery} {device : Device}
    (hd : d ∈ db.deliveries.rows) (hid : d.notificationId = id)
    (hdevice : db.devices.get? d.deviceId = some device) :
    ∃ l ∈ loadDeliveries db id, l.delivery = d := by
  refine ⟨⟨d, device, deviceQuietPeriodsOf db device.id⟩, ?_, rfl⟩
  simp only [loadDeliveries, List.mem_filterMap, List.mem_insertionSort, Table.mem_select,
    Option.map_eq_some_iff, beq_iff_eq]
  exact ⟨d, ⟨hd, hid⟩, device, hdevice, rfl⟩

theorem nodup_loadDeliveries (db : Db) (id : ℕ) :
    ((loadDeliveries db id).map (·.delivery.id)).Nodup := by
  have hrows : (db.deliveries.select fun d => d.notificationId == id).Pairwise
      fun a b => a.id ≠ b.id := db.deliveries.pairwise_pk_ne.filter _
  have hsorted := ((List.perm_insertionSort (fun a b : NotificationDelivery =>
    a.deviceId ≤ b.deviceId) _).pairwise_iff (fun h => Ne.symm h)).mpr hrows
  rw [List.Nodup, List.pairwise_map]
  refine hsorted.filterMap _ fun a a' hne b hb b' hb' => ?_
  obtain ⟨device, -, rfl⟩ := Option.map_eq_some_iff.mp hb
  obtain ⟨device', -, rfl⟩ := Option.map_eq_some_iff.mp hb'
  exact hne

/-- Nothing that keeps the delivery rows of its notification and the device rows disturbs a
pass. -/
theorem Accurate.of_agree {db db' : Db} {p : Pass} (hp : p.Accurate db)
    (hrows : ∀ d, d.notificationId = p.notification.id → db.deliveries.get? d.id = some d →
      db'.deliveries.get? d.id = some d)
    (hdevices : ∀ k, (db.devices.get? k).isSome → (db'.devices.get? k).isSome) :
    p.Accurate db' where
  nodup := hp.nodup
  row := fun d hd => ⟨hrows d (hp.row d hd).2 (hp.row d hd).1, (hp.row d hd).2⟩
  device := fun l hl => hdevices _ (hp.device l hl)
  pushable := hp.pushable
  unsent := hp.unsent

variable {cfg : Settings} {now : Instant} {db : Db} {n : Notification}

theorem Moves.Marks.mem_pending {stage : Stage} {d : NotificationDelivery}
    {f : NotificationDelivery → NotificationDelivery} (h : Marks cfg now stage d f) :
    d ∈ pending stage := by
  cases h with
  | cancelled f l ls reason h hd => simp [pending, h]
  | deferred f l ls quietPeriodEnd h hd => simp [pending, h]
  | _ => simp [pending]

/-- A pass that is accurate writes rows of its own notification only. -/
theorem Moves.get?_delivery_of_ne {p : Pass} {s : PassStep} (hp : p.Accurate db)
    (h : Moves cfg now db p.notification p.stage s) {d : NotificationDelivery}
    (hd : db.deliveries.get? d.id = some d) (hne : d.notificationId ≠ p.notification.id) :
    s.db.deliveries.get? d.id = some d := by
  rcases h.deliveries with hs | ⟨e, f, hm, hs⟩ | ⟨ids, -, hs⟩ <;> rw [hs]
  · exact hd
  · obtain ⟨hrow, hnotification⟩ := hp.row e hm.mem_pending
    have hid : d.id ≠ e.id := by
      intro heq
      rw [heq, hrow] at hd
      exact hne (Option.some.inj hd ▸ hnotification)
    rw [Table.get?_modify_of_ne _ _ _ hid]
    exact hd
  · exact Table.get?_insertAll_of_mem hd

/-- What a decision of the send loop says about the loaded delivery. -/
inductive Decides (tz : TimeZone) (now : Instant) (f : LoopFrame) (l : LoadedDelivery) :
    Decision → Prop
  | skip (hsent : l.delivery.status = .sent) : Decides tz now f l .skip
  | cancel (reason) (hsent : l.delivery.status ≠ .sent)
      (hreason : ineligibilityReason f.applicationIsActive l.device f.linkedDeviceIds =
        some reason) : Decides tz now f l (.cancel reason)
  | wait (hsent : l.delivery.status ≠ .sent) (hwait : shouldWaitForRetry now l.delivery = true) :
      Decides tz now f l .wait
  | defer (q) (hsent : l.delivery.status ≠ .sent)
      (hwait : shouldWaitForRetry now l.delivery = false)
      (hquiet : getCurrentDeviceQuietPeriodEnd tz l.quietPeriods now = some q) :
      Decides tz now f l (.defer q)
  | exhausted (hsent : l.delivery.status ≠ .sent)
      (hattempts : maxDeliveryAttempts ≤ l.delivery.attemptCount) : Decides tz now f l .exhausted
  | push (hsent : l.delivery.status ≠ .sent)
      (hattempts : l.delivery.attemptCount < maxDeliveryAttempts) : Decides tz now f l .push

theorem deliveryDecision_decides (tz : TimeZone) (now : Instant) (f : LoopFrame)
    (l : LoadedDelivery) : Decides tz now f l (deliveryDecision tz now f l) := by
  unfold deliveryDecision
  split
  · next hskip => exact .skip (by simpa [shouldSkipDelivery] using hskip)
  · next hskip =>
    have hsent : l.delivery.status ≠ .sent := by simpa [shouldSkipDelivery] using hskip
    split
    · next reason hreason => exact .cancel reason hsent hreason
    · split
      · next hwait => exact .wait hsent hwait
      · next hwait =>
        split
        · next q hquiet => exact .defer q hsent (by simpa using hwait) hquiet
        · split
          · next hretry => exact .exhausted hsent (by simpa [canRetryDelivery, hsent] using hretry)
          · next hretry => exact .push hsent (by simpa [canRetryDelivery, hsent] using hretry)

theorem decides_of_eq {tz : TimeZone} {f : LoopFrame} {l : LoadedDelivery} {decision : Decision}
    (h : deliveryDecision tz now f l = decision) : Decides tz now f l decision :=
  h ▸ deliveryDecision_decides tz now f l

/-- A decision other than skipping means the delivery is not sent. -/
theorem not_sent_of_decision {tz : TimeZone} {f : LoopFrame} {l : LoadedDelivery}
    (h : deliveryDecision tz now f l ≠ .skip) : l.delivery.status ≠ .sent := by
  intro hsent
  simp [deliveryDecision, shouldSkipDelivery, hsent] at h

/-- A delivery that is pushed has attempts left. -/
theorem attempts_of_push {tz : TimeZone} {f : LoopFrame} {l : LoadedDelivery}
    (h : deliveryDecision tz now f l = .push) :
    l.delivery.attemptCount < maxDeliveryAttempts := by
  cases decides_of_eq h with
  | push _ hattempts => exact hattempts

/-! ### What a step does to its own pass -/

/-- A step that writes no delivery and goes on with some of the instances it had. -/
theorem Accurate.mono {p : Pass} (hp : p.Accurate db) (stage : Stage)
    (hpending : (pending stage).Sublist (pending p.stage))
    (hheld : ∀ l ∈ held stage, l ∈ held p.stage)
    (hpushable : ∀ d, beingPushed stage = some d →
      d.status ≠ .sent ∧ d.attemptCount < maxDeliveryAttempts)
    (hunsent : ∀ ds, stage = .cancelling ds → ∀ d ∈ ds, d.status ≠ .sent) :
    Accurate db ⟨p.notification, stage⟩ where
  nodup := hp.nodup.sublist (hpending.map _)
  row := fun d hd => hp.row d (hpending.subset hd)
  device := fun l hl => hp.device l (hheld l hl)
  pushable := hpushable
  unsent := hunsent

/-- A step that writes the row of the first instance it had to treat. -/
theorem Accurate.mark {p : Pass} (hp : p.Accurate db) {stage : Stage} {d : NotificationDelivery}
    {f : NotificationDelivery → NotificationDelivery} {hf : ∀ d, pk (f d) = pk d}
    (hpending : pending p.stage = d :: pending stage)
    (hheld : ∀ l ∈ held stage, l ∈ held p.stage) (hpushed : beingPushed stage = none)
    (hunsent : ∀ ds, stage = .cancelling ds → ∀ d ∈ ds, d.status ≠ .sent) :
    Accurate (withDelivery db d.id f hf) ⟨p.notification, stage⟩ := by
  have hnodup := hp.nodup
  rw [hpending, List.map_cons, List.nodup_cons] at hnodup
  refine ⟨hnodup.2, fun e he => ?_, fun l hl => hp.device l (hheld l hl), by simp [hpushed],
    hunsent⟩
  obtain ⟨hrow, hnotification⟩ := hp.row e (by simp [hpending, he])
  refine ⟨?_, hnotification⟩
  have hne : e.id ≠ d.id := fun heq => hnodup.1 (heq ▸ List.mem_map_of_mem he)
  exact (Table.get?_modify_of_ne db.deliveries f hf hne).trans hrow

/-- A device row is rewritten. -/
theorem Accurate.device_modify {p : Pass} (hp : p.Accurate db) {k : ℕ} {f : Device → Device}
    {hf : ∀ d, pk (f d) = pk d} : p.Accurate (withDevice db k f hf) := by
  refine hp.of_agree (fun d _ hd => hd) fun j hj => ?_
  change ((db.devices.modify k f hf).get? j).isSome
  rw [Table.get?_modify, Option.isSome_map]
  exact hj

/-- Freshly loaded rows are accurate. -/
theorem accurate_load {ls : List LoadedDelivery} (h : loadDeliveries db n.id = ls) :
    Accurate db ⟨n, .refreshing ls⟩ := by
  subst h
  refine ⟨?_, ?_, ?_, by simp [beingPushed], by simp⟩
  · rw [pending, List.map_map]
    exact nodup_loadDeliveries db n.id
  · intro d hd
    obtain ⟨l, hl, rfl⟩ := List.mem_map.mp hd
    obtain ⟨hmem, hid, -⟩ := mem_loadDeliveries hl
    exact ⟨Table.get?_pk hmem, hid⟩
  · intro l hl
    obtain ⟨-, -, hdevice⟩ := mem_loadDeliveries hl
    have hid : l.device.id = l.delivery.deviceId := (Table.get?_eq_some.mp hdevice).2
    simp [hid, hdevice]

/-- A pass stays accurate along its own steps. -/
theorem Accurate.moves {p p' : Pass} {s : PassStep} (hp : p.Accurate db)
    (h : Moves cfg now db p.notification p.stage s) (hnext : s.next = some p') :
    p'.Accurate s.db := by
  obtain ⟨n, stage⟩ := p
  cases h with
  | lapsed =>
    obtain rfl := Option.some.inj hnext
    refine ⟨?_, ?_, by simp [held], by simp [beingPushed], ?_⟩
    · rw [List.Nodup, List.pairwise_map]
      exact db.deliveries.pairwise_pk_ne.filter _
    · intro d hd
      obtain ⟨hmem, hd⟩ := Table.mem_select.mp hd
      exact ⟨Table.get?_pk hmem, by simpa using (Bool.and_eq_true_iff.mp hd).1⟩
    · rintro _ ⟨⟩ d hd
      simpa using (Bool.and_eq_true_iff.mp (Table.mem_select.mp hd).2).2
  | lapsedCancelled d ds row hrow =>
    obtain rfl := Option.some.inj hnext
    refine hp.mark rfl (by simp [held]) rfl ?_
    rintro _ ⟨⟩ e he
    exact hp.unsent _ rfl e (List.mem_cons_of_mem _ he)
  | listed l ls h =>
    obtain rfl := Option.some.inj hnext
    exact accurate_load h
  | relisted l ls h =>
    obtain rfl := Option.some.inj hnext
    exact accurate_load h
  | skipped f l ls h hd | waited f l ls h hd | exhausted f l ls h hd =>
    obtain rfl := Option.some.inj hnext
    refine hp.mono _ ?_ ?_ (by simp [beingPushed]) (by simp)
    · simp [pending, LoopFrame.count, LoopFrame.rest, h]
    · intro x hx
      simp only [held, LoopFrame.count, LoopFrame.rest, h] at hx ⊢
      exact List.mem_cons_of_mem _ hx
  | cancelled f l ls _ row h hd hrow | deferred f l ls _ row h hd hrow =>
    obtain rfl := Option.some.inj hnext
    refine hp.mark ?_ ?_ rfl (by simp)
    · simp [pending, LoopFrame.count, LoopFrame.rest, h]
    · intro x hx
      simp only [held, LoopFrame.count, LoopFrame.rest, h] at hx ⊢
      exact List.mem_cons_of_mem _ hx
  | accepted f l ls _ h hd | refused f l ls _ h hd =>
    obtain rfl := Option.some.inj hnext
    refine hp.mono _ ?_ ?_ ?_ (by simp)
    · simp [pending, LoopFrame.rest, h]
    · simp [held, LoopFrame.rest, h]
    · rintro d ⟨⟩
      exact ⟨not_sent_of_decision (by rw [hd]; simp), attempts_of_push hd⟩
  | sentToSettle f l m row hcount hrow =>
    obtain rfl := Option.some.inj hnext
    exact hp.mark rfl (fun x hx => hx) rfl (by simp)
  | sent f l m row hcount hrow =>
    obtain rfl := Option.some.inj hnext
    exact hp.mark rfl (fun x hx => List.mem_cons_of_mem _ hx) rfl (by simp)
  | notSent f l m hrow =>
    have := (hp.row l.delivery (by simp [pending])).1
    rw [hrow] at this
    simp at this
  | settled f l row hrow =>
    obtain rfl := Option.some.inj hnext
    refine Accurate.device_modify (hp.mono _ ?_ ?_ (by simp [beingPushed]) (by simp))
    · simp [pending, LoopFrame.count]
    · exact fun x hx => List.mem_cons_of_mem _ hx
  | notSettled f l hrow =>
    have := hp.device l (by simp [held])
    rw [hrow] at this
    simp at this
  | countedInvalid f l error he =>
    obtain rfl := Option.some.inj hnext
    exact (hp.mono (.invalidating f l error) (List.Sublist.refl _) (fun x hx => hx)
      hp.pushable (by simp)).device_modify
  | counted f l error he =>
    obtain rfl := Option.some.inj hnext
    exact (hp.mono (.rereading f l error) (List.Sublist.refl _) (fun x hx => hx)
      hp.pushable (by simp)).device_modify
  | invalidated f l error row hrow =>
    obtain rfl := Option.some.inj hnext
    exact (hp.mono (.rereading f l error) (List.Sublist.refl _) (fun x hx => hx)
      hp.pushable (by simp)).device_modify
  | reread f l error row hrow =>
    obtain rfl := Option.some.inj hnext
    exact hp.mono (.failing f l error) (List.Sublist.refl _) (fun x hx => hx) hp.pushable (by simp)
  | failed f l error row hrow =>
    obtain rfl := Option.some.inj hnext
    exact hp.mark rfl (fun x hx => List.mem_cons_of_mem _ hx) rfl (by simp)
  | refreshed ls a h | linked active ls =>
    obtain rfl := Option.some.inj hnext
    exact hp.mono _ (List.Sublist.refl _) (fun x hx => hx) (by simp [beingPushed]) (by simp)
  | lapsedClosed | lapsedGone | postponed | notMaterialized | applicationGone | deliveryGone
  | notInvalidated | notReread | notFailed | closed => simp [ended] at hnext
  | _ =>
    -- the stages without delivery instances
    obtain rfl := Option.some.inj hnext
    exact ⟨by simp [pending], by simp [pending], by simp [held], by simp [beingPushed], by simp⟩

end Pass

/-! ### Sound worlds -/

/-- Every running pass is the only one for its notification, and is accurate. -/
structure World.Sound (w : World) : Prop extends w.Claimed where
  accurate : ∀ pid p, w.passes pid = some p → p.Accurate w.db

theorem World.Initial.sound {w : World} (hw : w.Initial) : w.Sound :=
  ⟨hw.claimed, by simp [hw.passes]⟩

/-- What an outcome leaves to the running passes: their notification rows, the delivery rows and
every device. -/
structure World.Leaves (w : World) (o : Outcome) : Prop where
  claims : w.SparesClaims o
  deliveries : ∀ d ∈ w.db.deliveries.rows, d ∈ o.db.deliveries.rows
  devices : ∀ k, (w.db.devices.get? k).isSome → (o.db.devices.get? k).isSome

/-- The requests and tasks leave the running passes what they need in this action. -/
def World.LeavesPasses (cfg : Settings) (w : World) : Action → Prop
  | .request _ r => w.Leaves (r.begin cfg w.clock w.db)
  | .advance rid input =>
    ∀ p, w.processes rid = some p → w.Leaves (p.advance w.clock w.db input)
  | _ => True

theorem World.LeavesPasses.claimsSpared {cfg : Settings} {w : World} {a : Action}
    (h : w.LeavesPasses cfg a) : w.ClaimsSpared cfg a := by
  cases a with
  | request rid r => exact h.claims
  | advance rid input => exact fun p hp => (h p hp).claims
  | _ => trivial

/-- The steps of the server keep sound worlds sound. -/
theorem World.Sound.step_of_leaves {cfg : Settings} {w w' : World} {a : Action} (hw : w.Sound)
    (h : Steps cfg w a w') (hleaves : w.LeavesPasses cfg a) : w'.Sound := by
  refine ⟨hw.toClaimed.step h hleaves.claimsSpared, ?_⟩
  have hagree : ∀ {db' : Db}, (∀ d ∈ w.db.deliveries.rows, d ∈ db'.deliveries.rows) →
      (∀ k, (w.db.devices.get? k).isSome → (db'.devices.get? k).isSome) →
      ∀ pid p, w.passes pid = some p → p.Accurate db' := by
    intro db' hdeliveries hdevices pid p hp
    exact (hw.accurate pid p hp).of_agree
      (fun d _ hd => Table.get?_pk (hdeliveries d (Table.get?_eq_some.mp hd).1)) hdevices
  cases h with
  | tick duration => exact hw.accurate
  | notClaimed pid task rowLocked htask hpid hnone => exact hw.accurate
  | claimed pid task n htask hpid hn hstatus =>
    refine Pool.forall_set (hagree (fun _ h => h) fun _ h => h) ?_
    rintro p ⟨⟩
    exact ⟨by simp [Pass.pending], by simp [Pass.pending], by simp [Pass.held],
      by simp [Pass.beingPushed], by simp⟩
  | pass pid input p s hp hmoves =>
    intro j q hq
    rcases Pool.set_eq_some.mp hq with ⟨rfl, hnext⟩ | ⟨hne, hq⟩
    · exact (hw.accurate j p hp).moves hmoves hnext
    · have hother : q.notification.id ≠ p.notification.id :=
        fun heq => hne (hw.exclusive hq hp heq)
      refine (hw.accurate j q hq).of_agree (fun d hd hrow => ?_)
        fun k hk => hmoves.isSome_device_iff.mpr hk
      exact hmoves.get?_delivery_of_ne (hw.accurate pid p hp) hrow (hd ▸ hother)
  | crash pid p hp => exact Pool.forall_set hw.accurate (by simp)
  | request rid r hrid => exact hagree hleaves.deliveries hleaves.devices
  | advance rid input p hp => exact hagree (hleaves p hp).deliveries (hleaves p hp).devices

/-- The requests and tasks leave the delivery rows, the device rows and the claimed notification
rows alone in this action. -/
def World.Undisturbed (cfg : Settings) (w : World) (a : Action) : Prop :=
  (∀ rid r, a = .request rid r → w.SparesClaims (r.begin cfg w.clock w.db) ∧
    (r.begin cfg w.clock w.db).db.deliveries = w.db.deliveries ∧
    (r.begin cfg w.clock w.db).db.devices = w.db.devices) ∧
  ∀ rid input p, a = .advance rid input → w.processes rid = some p →
    w.SparesClaims (p.advance w.clock w.db input) ∧
    (p.advance w.clock w.db input).db.deliveries = w.db.deliveries ∧
    (p.advance w.clock w.db input).db.devices = w.db.devices

private theorem World.leaves_of_eq {w : World} {o : Outcome}
    (h : w.SparesClaims o ∧ o.db.deliveries = w.db.deliveries ∧ o.db.devices = w.db.devices) :
    w.Leaves o :=
  ⟨h.1, fun d hd => by rwa [h.2.1], fun k hk => by rwa [h.2.2]⟩

theorem World.Undisturbed.leavesPasses {cfg : Settings} {w : World} {a : Action}
    (h : w.Undisturbed cfg a) : w.LeavesPasses cfg a := by
  cases a with
  | request rid r => exact leaves_of_eq (h.1 rid r rfl)
  | advance rid input => exact fun p hp => leaves_of_eq (h.2 rid input p rfl hp)
  | _ => trivial

theorem World.Sound.step {cfg : Settings} {w w' : World} {a : Action} (hw : w.Sound)
    (h : Steps cfg w a w') (hother : w.Undisturbed cfg a) : w'.Sound :=
  hw.step_of_leaves h hother.leavesPasses

end PushIT
