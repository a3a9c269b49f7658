import PushIT.Sending

/-!
# Retries end

A delivery whose attempts are used up is FAILED without a retry date, and the retry sweep never
selects it again, in every run in which no pass defers such a delivery.  The send loop tests the
quiet periods of the device before it counts the attempts, so a pass during a quiet period gives
an exhausted delivery a new retry date, which no later pass takes away.

The passes that the retries of a notification cause are paid for one by one: a pass that finds a
retry due counts an attempt, settles the delivery, or is itself put off by a quiet period.

## Main definitions

* `armed`: a PENDING delivery with a retry date.
* `Pass.Owes`: the pass has a delivery ahead whose retry is due.
* `World.SparesExhausted`: no exhausted delivery is deferred.

## Main results

* `retries_end`: exhausted deliveries are never selected, and the passes of a notification are
  bounded.
* `exhausted_deferred`: a run that gives an exhausted delivery a new retry date.
-/

namespace PushIT

open Relational Transition

/-! ### Accounts -/

/-- The delivery is PENDING and carries a retry date. -/
def armed (d : NotificationDelivery) : Bool := d.status == .pending && d.nextRetryAt.isSome

theorem armed_of_retryDue {t : Instant} {d : NotificationDelivery} (h : retryDue t d = true) :
    armed d = true := by
  simp only [retryDue, Bool.and_eq_true, beq_iff_eq] at h
  obtain ⟨r, hr, -⟩ := (Option.any_eq_true _ _).mp h.2
  simp [armed, h.1, hr]

/-- A retry that is due stays due. -/
theorem retryDue_mono {t t' : Instant} (ht : t ≤ t') {d : NotificationDelivery}
    (h : retryDue t d = true) : retryDue t' d = true := by
  simp only [retryDue, Bool.and_eq_true, Option.any_eq_true, decide_eq_true_eq] at h ⊢
  obtain ⟨hstatus, r, hr, hle⟩ := h
  exact ⟨hstatus, r, hr, Int.le_trans hle ht⟩

/-- One for each armed delivery of the notification. -/
def armedOf (id : ℕ) (d : NotificationDelivery) : ℕ :=
  if d.notificationId = id ∧ armed d = true then 1 else 0

/-- The attempts of the deliveries of the notification. -/
def attemptsOf (id : ℕ) (d : NotificationDelivery) : ℕ :=
  if d.notificationId = id then d.attemptCount else 0

theorem armedOf_newDelivery (id n k j : ℕ) : armedOf id (newDelivery n k j) = 0 := by
  simp [armedOf, armed, newDelivery]

theorem attemptsOf_newDelivery (id n k j : ℕ) : attemptsOf id (newDelivery n k j) = 0 := by
  unfold attemptsOf
  split <;> rfl

/-- A worker claimed the notification while a retry of it was due. -/
def Event.isDueClaim (id : ℕ) : Event → Bool
  | .claimed m _ due => m == id && due
  | _ => false

/-- A pass the retry sweep caused, with a retry of the notification due at its claim. -/
def Event.isRetryPass (id : ℕ) : Event → Bool
  | .claimed m source due => m == id && due && source == .retrySweep
  | _ => false

/-- A quiet period put the notification off, or one of its deliveries. -/
def Event.isDelay (id : ℕ) : Event → Bool
  | .deferred m _ => m == id
  | .postponed m => m == id
  | _ => false

/-- The claims of the notification with a retry due. -/
def dueClaims (id : ℕ) (history : List Event) : ℕ := history.countP (Event.isDueClaim id)

/-- The passes the retry sweep caused for the notification with a retry due. -/
def retryPasses (id : ℕ) (history : List Event) : ℕ := history.countP (Event.isRetryPass id)

/-- The deferrals and postponements of the notification. -/
def delays (id : ℕ) (history : List Event) : ℕ := history.countP (Event.isDelay id)

theorem retryPasses_le_dueClaims (id : ℕ) (history : List Event) :
    retryPasses id history ≤ dueClaims id history := by
  refine List.countP_mono_left fun e _ he => ?_
  cases e <;> simp_all [Event.isRetryPass, Event.isDueClaim]

@[simp] theorem dueClaims_append (id : ℕ) (es history : List Event) :
    dueClaims id (es ++ history) = dueClaims id es + dueClaims id history :=
  List.countP_append

@[simp] theorem delays_append (id : ℕ) (es history : List Event) :
    delays id (es ++ history) = delays id es + delays id history :=
  List.countP_append

@[simp] theorem delays_reverse (id : ℕ) (es : List Event) :
    delays id es.reverse = delays id es :=
  List.countP_reverse

/-- Events that are neither due claims nor delays leave the accounts as they are. -/
theorem accounts_of_events (id : ℕ) (es : List Event)
    (h : ∀ e ∈ es, e.isDueClaim id = false ∧ e.isDelay id = false) (history : List Event) :
    dueClaims id (es.reverse ++ history) = dueClaims id history ∧
      delays id (es.reverse ++ history) = delays id history := by
  have hdue : dueClaims id es.reverse = 0 :=
    List.countP_eq_zero.mpr fun e he => by simp [(h e (List.mem_reverse.mp he)).1]
  have hdelay : delays id es.reverse = 0 :=
    List.countP_eq_zero.mpr fun e he => by simp [(h e (List.mem_reverse.mp he)).2]
  rw [dueClaims_append, delays_append, hdue, hdelay]
  omega

theorem dueClaims_eq_zero {es : List Event}
    (h : ∀ e ∈ es, ∀ m source due, e ≠ .claimed m source due) (id : ℕ) :
    dueClaims id es = 0 := by
  refine List.countP_eq_zero.mpr fun e he => ?_
  cases e with
  | claimed m source due => exact absurd rfl (h _ he m source due)
  | _ => simp [Event.isDueClaim]

/-! ### Rows that exist together -/

/-- The foreign keys of the deliveries and the notifications. -/
structure Db.Intact (db : Db) : Prop where
  device : ∀ d ∈ db.deliveries.rows, (db.devices.get? d.deviceId).isSome
  application : ∀ n ∈ db.notifications.rows, (db.applications.get? n.applicationId).isSome

/-! ### One step of a pass -/

namespace Pass

/-- The stages before the pass has read its deliveries. -/
def isEarly : Stage → Bool
  | .entitlement | .lapsed | .applicationQuiet | .postponing _ | .listing => true
  | _ => false

/-- A delivery whose retry is due lies ahead of the pass. -/
def Owes (db : Db) (now : Instant) (p : Pass) : Prop :=
  ∃ d ∈ db.deliveries.rows, d.notificationId = p.notification.id ∧ retryDue now d = true ∧
    (isEarly p.stage = true ∨ d ∈ pending p.stage)

variable {cfg : Settings} {now : Instant} {db : Db} {s : PassStep}

/-- What a step of a pass means for the accounts of its notification: it leaves the deliveries
alone and goes on to what lies ahead; or it writes the first delivery ahead, which is armed
afterwards only for one more attempt or one more deferral; or it creates deliveries; or it puts
the notification off. -/
inductive Pays (now : Instant) (db : Db) (p : Pass) (s : PassStep) : Prop
  | keeps (h : s.db.deliveries = db.deliveries)
      (hnext : p.Owes db now → ∃ p', s.next = some p' ∧ p'.Owes s.db now)
  | marks (d p') (f : NotificationDelivery → NotificationDelivery) (hf : ∀ r, pk (f r) = pk r)
      (h : s.db.deliveries = db.deliveries.modify d.id f hf) (hnext : s.next = some p')
      (hahead : pending p.stage = d :: pending p'.stage)
      (hkeep : ∀ r, (f r).notificationId = r.notificationId ∧ (f r).deviceId = r.deviceId)
      (hpaid : (if armed (f d) then 1 else 0) + d.attemptCount ≤
        (f d).attemptCount + delays p.notification.id s.events)
      (hattempts : (f d).attemptCount ≤ maxDeliveryAttempts ∧
        (armed (f d) = true → (f d).attemptCount < maxDeliveryAttempts))
  | creates (ids) (h : s.db = db.createDeliveries p.notification.id ids)
      (howes : ¬p.Owes db now) (hdevices : ∀ k ∈ ids, (db.devices.get? k).isSome)
  | putOff (h : s.db.deliveries = db.deliveries)
      (hdelay : 0 < delays p.notification.id s.events)

/-- A step that writes no delivery row, and after which every delivery that was ahead with its
retry due still is. -/
private theorem Pays.of_ahead {n : Notification} {stage stage' : Stage} {events : List Event}
    {db' : Db} (h : db'.deliveries = db.deliveries)
    (hahead : ∀ d ∈ db.deliveries.rows, d.notificationId = n.id → retryDue now d = true →
      isEarly stage = true ∨ d ∈ pending stage → isEarly stage' = true ∨ d ∈ pending stage') :
    Pays now db ⟨n, stage⟩ (on n stage' db' events) := by
  refine .keeps h ?_
  rintro ⟨d, hd, hid, hdue, hwhere⟩
  refine ⟨⟨n, stage'⟩, rfl, d, ?_, hid, hdue, hahead d hd hid hdue hwhere⟩
  change d ∈ db'.deliveries.rows
  rwa [h]

/-- A step after which no delivery is ahead, when none was before. -/
private theorem Pays.of_not_owes {p : Pass} (h : s.db.deliveries = db.deliveries)
    (howes : ¬p.Owes db now) : Pays now db p s :=
  .keeps h fun hp => absurd hp howes

private theorem not_owes {n : Notification} {stage : Stage} (hearly : isEarly stage = false)
    (hpending : pending stage = []) : ¬Owes db now ⟨n, stage⟩ := by
  rintro ⟨d, -, -, -, h | h⟩
  · simp [hearly] at h
  · simp [hpending] at h

/-- The loop drops a delivery whose retry is not due. -/
private theorem Pays.of_head {n : Notification} {f : LoopFrame} {l : LoadedDelivery}
    {ls : List LoadedDelivery} (hrest : f.remaining = l :: ls) (count : Counts → Counts)
    (hdue : retryDue now l.delivery = false) :
    Pays now db ⟨n, .looping f⟩ (on n (.looping ((f.rest ls).count count)) db) := by
  refine .of_ahead rfl fun d _ _ hd hwhere => Or.inr ?_
  rcases hwhere with hearly | hmem
  · simp [isEarly] at hearly
  · simp only [pending, hrest, List.map_cons, List.mem_cons] at hmem
    rcases hmem with rfl | hmem
    · simp [hdue] at hd
    · exact hmem

/-- What the decisions that write nothing say about the delivery. -/
theorem decision_skip {tz : TimeZone} {f : LoopFrame} {l : LoadedDelivery}
    (h : deliveryDecision tz now f l = .skip) : retryDue now l.delivery = false := by
  cases decides_of_eq h with
  | skip hsent => simp [retryDue, hsent]

theorem decision_wait {tz : TimeZone} {f : LoopFrame} {l : LoadedDelivery}
    (h : deliveryDecision tz now f l = .wait) : retryDue now l.delivery = false := by
  cases decides_of_eq h with
  | wait _ hwait =>
    obtain ⟨t, ht, hgt⟩ := (Option.any_eq_true _ _).mp hwait
    simp only [retryDue, ht, Option.any_some, Bool.and_eq_false_imp]
    intro _
    simpa using hgt

theorem decision_exhausted {tz : TimeZone} {f : LoopFrame} {l : LoadedDelivery}
    (h : deliveryDecision tz now f l = .exhausted) :
    maxDeliveryAttempts ≤ l.delivery.attemptCount := by
  cases decides_of_eq h with
  | exhausted _ hattempts => exact hattempts

/-- Every step of an accurate pass pays for the retries it meets, unless it defers an exhausted
delivery. -/
theorem Moves.pays {p : Pass} (hp : p.Accurate db) (hintact : db.Intact)
    (hrow : db.notifications.get? p.notification.id = some p.notification)
    (hattempts : ∀ d ∈ db.deliveries.rows, d.attemptCount ≤ maxDeliveryAttempts ∧
      (armed d = true → d.attemptCount < maxDeliveryAttempts))
    (hspares : ∀ f l ls q, p.stage = .looping f → f.remaining = l :: ls →
      deliveryDecision cfg.timeZone now (f.rest ls) l = .defer q →
      l.delivery.attemptCount < maxDeliveryAttempts)
    (h : Moves cfg now db p.notification p.stage s) : Pays now db p s := by
  obtain ⟨n, stage⟩ := p
  -- an instance ahead carries the bounds of its row
  have hbound : ∀ d ∈ pending stage, d.attemptCount ≤ maxDeliveryAttempts := fun d hd =>
    (hattempts d (Table.get?_eq_some.mp (hp.row d hd).1).1).1
  have hgone : ∀ d ∈ pending stage, db.deliveries.get? d.id ≠ none := fun d hd => by
    rw [(hp.row d hd).1]
    simp
  have hdevice : ∀ l ∈ Pass.held stage, db.devices.get? l.device.id ≠ none := fun l hl => by
    have := hp.device l hl
    rw [Option.isSome_iff_exists] at this
    obtain ⟨d, hd⟩ := this
    rw [hd]
    simp
  cases h with
  | paid | unpaid | quiet | notQuiet =>
    exact .of_ahead rfl fun d _ _ _ _ => Or.inl rfl
  | lapsed =>
    refine .of_ahead rfl fun d hd hid hdue _ => Or.inr (Table.mem_select.mpr ⟨hd, ?_⟩)
    have hpending : d.status = .pending := by
      simp only [retryDue, Bool.and_eq_true, beq_iff_eq] at hdue
      exact hdue.1
    simp [hid, hpending]
  | listed l ls hload | relisted l ls hload =>
    refine .of_ahead rfl fun d hd hid _ _ => Or.inr ?_
    obtain ⟨device, hdev⟩ := Option.isSome_iff_exists.mp (hintact.device d hd)
    obtain ⟨x, hx, rfl⟩ := exists_mem_loadDeliveries hd hid hdev
    exact List.mem_map_of_mem (hload ▸ hx)
  | listedNone hload =>
    refine .of_ahead rfl fun d hd hid _ _ => ?_
    obtain ⟨device, hdev⟩ := Option.isSome_iff_exists.mp (hintact.device d hd)
    obtain ⟨x, hx, rfl⟩ := exists_mem_loadDeliveries hd hid hdev
    simp [hload] at hx
  | untargeted | targeted | relistedNone | notMaterialized | closed | lapsedClosed =>
    exact .of_not_owes rfl (not_owes rfl rfl)
  | materialized ids hn hdevices => exact .creates ids rfl (not_owes rfl rfl) hdevices
  | postponed quietPeriodEnd => exact .putOff rfl (by simp [ended, delays, Event.isDelay])
  | applicationGone ls hnone =>
    have := hintact.application n (Table.get?_eq_some.mp hrow).1
    simp [hnone] at this
  | refreshed | linked => exact .of_ahead rfl fun d _ _ _ hwhere => hwhere
  | finished f hrest => exact .of_not_owes rfl (not_owes rfl (by simp [pending, hrest]))
  | skipped f l ls hrest hdecision =>
    exact .of_head hrest _ (decision_skip hdecision)
  | waited f l ls hrest hdecision => exact .of_head hrest _ (decision_wait hdecision)
  | exhausted f l ls hrest hdecision =>
    refine .of_head hrest _ ?_
    by_contra hdue
    have hmem : l.delivery ∈ pending (.looping f) := by simp [pending, hrest]
    have hlt := (hattempts l.delivery (Table.get?_eq_some.mp (hp.row _ hmem).1).1).2
      (armed_of_retryDue (by simpa using hdue))
    have := decision_exhausted hdecision
    omega
  | accepted f l ls m hrest hdecision | refused f l ls error hrest hdecision =>
    refine .of_ahead rfl fun d _ _ _ hwhere => ?_
    simpa [isEarly, pending, hrest, LoopFrame.rest] using hwhere
  | countedInvalid | counted | invalidated | reread | settled =>
    exact .of_ahead rfl fun d _ _ _ hwhere => hwhere
  | lapsedCancelled d ds row hd =>
    exact .marks d _ _ (pk_cancelDelivery now .subscriptionRequired) rfl rfl rfl
      (fun _ => ⟨rfl, rfl⟩)
      (by simp [armed, cancelDelivery])
      ⟨hbound d (by simp [pending]), by simp [armed, cancelDelivery]⟩
  | cancelled f l ls reason row hrest hdecision hd =>
    exact .marks l.delivery _ _ (pk_cancelDelivery now reason) rfl rfl
      (by simp [pending, LoopFrame.rest, LoopFrame.count, hrest]) (fun _ => ⟨rfl, rfl⟩)
      (by simp [armed, cancelDelivery])
      ⟨hbound l.delivery (by simp [pending, hrest]), by simp [armed, cancelDelivery]⟩
  | deferred f l ls q row hrest hdecision hd =>
    have hlt := hspares f l ls q rfl hrest hdecision
    refine .marks l.delivery _ _ (pk_markDeliveryAsDeferred now q) rfl rfl
      (by simp [pending, LoopFrame.rest, LoopFrame.count, hrest]) (fun _ => ⟨rfl, rfl⟩) ?_
      ⟨hlt.le, fun _ => hlt⟩
    simp [on, delays, Event.isDelay, markDeliveryAsDeferred, armed, Nat.add_comm]
  | sentToSettle f l m row hcount hd =>
    exact .marks l.delivery _ _ (pk_markDeliveryAsSent now m) rfl rfl rfl (fun _ => ⟨rfl, rfl⟩)
      (by simp [armed, markDeliveryAsSent])
      ⟨hbound l.delivery (by simp [pending]), by simp [armed, markDeliveryAsSent]⟩
  | sent f l m row hcount hd =>
    exact .marks l.delivery _ _ (pk_markDeliveryAsSent now m) rfl rfl rfl (fun _ => ⟨rfl, rfl⟩)
      (by simp [armed, markDeliveryAsSent])
      ⟨hbound l.delivery (by simp [pending]), by simp [armed, markDeliveryAsSent]⟩
  | failed f l error row hd =>
    have hlt := (hp.pushable l.delivery rfl).2
    refine .marks l.delivery _ _ (pk_markDeliveryAsFailed now error.text) rfl rfl rfl
      (fun _ => ⟨rfl, rfl⟩)
      ?_ ⟨hlt, fun harmed => ?_⟩
    · have : (if armed (markDeliveryAsFailed now error.text l.delivery) = true then 1 else 0) ≤
          1 := by
        split <;> omega
      simp only [markDeliveryAsFailed] at this ⊢
      omega
    · by_contra hge
      simp only [armed, markDeliveryAsFailed] at harmed hge
      rw [if_pos (by omega)] at harmed
      simp at harmed
  | lapsedGone d ds hnone => exact absurd hnone (hgone d (by simp [pending]))
  | deliveryGone f l ls hrest hnone =>
    exact absurd hnone (hgone l.delivery (by simp [pending, hrest]))
  | notSent f l m hnone | notFailed f l m hnone =>
    exact absurd hnone (hgone l.delivery (by simp [pending]))
  | notSettled f l hnone | notInvalidated f l error hnone | notReread f l error hnone =>
    exact absurd hnone (hdevice l (by simp [Pass.held]))

/-- What a pass that pays does to the bounds on the attempts. -/
theorem Pays.attempts {p : Pass} (h : Pays now db p s) (hp : p.Accurate db)
    (hattempts : ∀ d ∈ db.deliveries.rows, d.attemptCount ≤ maxDeliveryAttempts ∧
      (armed d = true → d.attemptCount < maxDeliveryAttempts)) :
    ∀ d ∈ s.db.deliveries.rows, d.attemptCount ≤ maxDeliveryAttempts ∧
      (armed d = true → d.attemptCount < maxDeliveryAttempts) := by
  cases h with
  | keeps h _ | putOff h _ => rwa [h]
  | marks d p' f hf h hnext hahead hkeep hpaid hbound =>
    intro e he
    rw [h] at he
    obtain ⟨r, hr, rfl⟩ := Table.mem_modify.mp he
    split
    · next hid =>
      have hrow := (hp.row d (by simp [hahead])).1
      obtain rfl : r = d := Table.eq_of_pk hr (Table.get?_eq_some.mp hrow).1 hid
      exact hbound
    · exact hattempts r hr
  | creates ids h howes hdevices =>
    intro e he
    rw [h] at he
    rcases Table.mem_insertAll he with hold | ⟨k, -, -, hnew⟩
    · exact hattempts e hold
    · rw [hnew]
      simp [newDelivery, armed, maxDeliveryAttempts]

/-- A pass keeps the foreign keys. -/
theorem Moves.intact {n : Notification} {stage : Stage} (h : Moves cfg now db n stage s)
    (hintact : db.Intact) : s.db.Intact where
  device := by
    have hold : ∀ d ∈ db.deliveries.rows, (s.db.devices.get? d.deviceId).isSome :=
      fun d hd => h.isSome_device_iff.mpr (hintact.device d hd)
    intro e he
    rcases h.deliveries with hs | ⟨d, f, hm, hs⟩ | ⟨ids, rfl, hs⟩
    · rw [hs] at he
      exact hold e he
    · rw [hs] at he
      obtain ⟨r, hr, rfl⟩ := Table.mem_modify.mp he
      split
      · rw [(hm.keeps r).2]
        exact hold r hr
      · exact hold r hr
    · cases h with
      | materialized _ hn hdevices =>
        rcases Table.mem_insertAll he with hmem | ⟨k, hk, -, hnew⟩
        · exact hold e hmem
        · rw [hnew]
          exact hdevices k (List.mem_filter.mp hk).1
      | notMaterialized => exact hold e he
  application := by
    intro m hm
    rw [h.frame.1]
    rcases h.notifications with hs | ⟨-, f, hf, hs, hkeep⟩ <;> rw [hs] at hm
    · exact hintact.application m hm
    · obtain ⟨r, hr, rfl⟩ := Table.mem_modify.mp hm
      split
      · rw [(hkeep r).1]
        exact hintact.application r hr
      · exact hintact.application r hr

/-- The accounts of the other notifications. -/
theorem Pays.sum_of_ne {p : Pass} (hpays : Pays now db p s) (hp : p.Accurate db) {id : ℕ}
    (hid : id ≠ p.notification.id) :
    s.db.deliveries.sum (armedOf id) = db.deliveries.sum (armedOf id) ∧
      s.db.deliveries.sum (attemptsOf id) = db.deliveries.sum (attemptsOf id) := by
  cases hpays with
  | keeps h _ | putOff h _ => rw [h]; exact ⟨rfl, rfl⟩
  | marks d p' f hf h hnext hahead hkeep hpaid hbound =>
    obtain ⟨hrow, hnotification⟩ := hp.row d (by simp [hahead])
    have hne : d.notificationId ≠ id := by
      rw [hnotification]
      exact Ne.symm hid
    have hne' : (f d).notificationId ≠ id := by rwa [(hkeep d).1]
    have harmed := Table.sum_modify hrow f hf (armedOf id)
    have hattempts := Table.sum_modify hrow f hf (attemptsOf id)
    simp only [armedOf, hne, hne', false_and, if_false, Nat.add_zero] at harmed
    simp only [attemptsOf, hne, hne', if_false, Nat.add_zero] at hattempts
    rw [h]
    exact ⟨harmed, hattempts⟩
  | creates ids h _ _ =>
    rw [h]
    exact ⟨Table.sum_insertAll (armedOf_newDelivery _ _), Table.sum_insertAll
      (attemptsOf_newDelivery _ _)⟩

end Pass

/-! ### The invariant -/

/-- The due claims of a notification and its armed deliveries are paid for by attempts and
delays, up to one claim that its running pass still owes. -/
def World.Paid (w : World) (id : ℕ) : Prop :=
  dueClaims id w.history + w.db.deliveries.sum (armedOf id) ≤
      w.db.deliveries.sum (attemptsOf id) + delays id w.history ∨
  dueClaims id w.history + w.db.deliveries.sum (armedOf id) ≤
      w.db.deliveries.sum (attemptsOf id) + delays id w.history + 1 ∧
    ∃ pid p, w.passes pid = some p ∧ p.notification.id = id ∧ p.Owes w.db w.clock

/-- Exhausted deliveries are not armed, and every retry is paid for. -/
structure World.Retried (w : World) : Prop extends w.Sound where
  intact : w.db.Intact
  attempts : ∀ d ∈ w.db.deliveries.rows, d.attemptCount ≤ maxDeliveryAttempts ∧
    (armed d = true → d.attemptCount < maxDeliveryAttempts)
  paid : ∀ id, w.Paid id

def Decision.isDefer : Decision → Bool
  | .defer _ => true
  | _ => false

/-- The next step of the pass defers a delivery whose attempts are used up. -/
def Pass.defersExhausted (tz : TimeZone) (now : Instant) (p : Pass) : Bool :=
  match p.stage with
  | .looping f =>
    match f.remaining with
    | l :: ls => decide (maxDeliveryAttempts ≤ l.delivery.attemptCount) &&
        (deliveryDecision tz now (f.rest ls) l).isDefer
    | [] => false
  | _ => false

/-- No pass defers, in this action, a delivery whose attempts are used up. -/
def World.SparesExhausted (cfg : Settings) (w : World) : Action → Prop
  | .pass pid _ => ∀ p ∈ w.passes pid, p.defersExhausted cfg.timeZone w.clock = false
  | _ => True

instance (cfg : Settings) (w : World) (a : Action) : Decidable (w.SparesExhausted cfg a) := by
  rcases a with _ | _ <;> unfold World.SparesExhausted <;> infer_instance

theorem Pass.attempts_of_defer {tz : TimeZone} {now : Instant} {p : Pass}
    (h : p.defersExhausted tz now = false) {f : LoopFrame} {l : LoadedDelivery}
    {ls : List LoadedDelivery} {q : Instant} (hstage : p.stage = .looping f)
    (hrest : f.remaining = l :: ls) (hdecision : deliveryDecision tz now (f.rest ls) l = .defer q) :
    l.delivery.attemptCount < maxDeliveryAttempts := by
  by_contra hge
  simp [defersExhausted, hstage, hrest, hdecision, Decision.isDefer] at h
  omega

/-- Only the running pass of a notification can owe a claim for it. -/
private theorem World.Retried.paid_own {w : World} (hw : w.Retried) {pid : ℕ} {p : Pass}
    (hp : w.passes pid = some p) {id : ℕ} (hid : id = p.notification.id) :
    dueClaims id w.history + w.db.deliveries.sum (armedOf id) ≤
      w.db.deliveries.sum (attemptsOf id) + delays id w.history ∨
    dueClaims id w.history + w.db.deliveries.sum (armedOf id) ≤
      w.db.deliveries.sum (attemptsOf id) + delays id w.history + 1 ∧ p.Owes w.db w.clock := by
  rcases hw.paid id with h | ⟨h, i, q, hq, hkey, howes⟩
  · exact Or.inl h
  · obtain rfl : i = pid := hw.exclusive hq hp (hkey.trans hid)
    exact Or.inr ⟨h, Option.some.inj (hp.symm.trans hq) ▸ howes⟩

/-- A pass that writes the first delivery ahead still owes for what lies ahead of it, or owed for
that one. -/
private theorem Pass.Owes.marks {db db' : Db} {now : Instant} {p p' : Pass} (howes : p.Owes db now)
    (hacc : p.Accurate db) {d : NotificationDelivery}
    {f : NotificationDelivery → NotificationDelivery} (hf : ∀ r, pk (f r) = pk r)
    (hdb : db'.deliveries = db.deliveries.modify d.id f hf)
    (hahead : Pass.pending p.stage = d :: Pass.pending p'.stage)
    (hkey : p'.notification.id = p.notification.id) : retryDue now d = true ∨ p'.Owes db' now := by
  obtain ⟨e, he, hid, hdue, hwhere⟩ := howes
  have hmem : e ∈ d :: Pass.pending p'.stage := by
    rcases hwhere with hearly | hmem
    · cases hstage : p.stage <;> simp_all [Pass.isEarly, Pass.pending]
    · rwa [hahead] at hmem
  rcases List.mem_cons.mp hmem with rfl | hmem
  · exact Or.inl hdue
  · refine Or.inr ⟨e, ?_, by rw [hkey, hid], hdue, Or.inr hmem⟩
    have hne : e.id ≠ d.id := by
      have hnodup := hacc.nodup
      rw [hahead, List.map_cons, List.nodup_cons] at hnodup
      exact fun heq => hnodup.1 (heq ▸ List.mem_map_of_mem hmem)
    have hrow' : db'.deliveries.get? e.id = some e := by
      rw [hdb, Table.get?_modify_of_ne _ _ _ hne]
      exact Table.get?_pk he
    exact (Table.get?_eq_some.mp hrow').1

/-- A step of a pass leaves every retry paid for. -/
theorem World.Retried.pass {cfg : Settings} {w : World} (hw : w.Retried) {pid : ℕ} {p : Pass}
    {s : PassStep} (hp : w.passes pid = some p)
    (hmoves : Pass.Moves cfg w.clock w.db p.notification p.stage s)
    (hpays : Pass.Pays w.clock w.db p s) (id : ℕ) : (w.afterPass pid s).Paid id := by
  have hacc := hw.accurate pid p hp
  have hdue : dueClaims id (w.afterPass pid s).history = dueClaims id w.history := by
    simp only [afterPass, dueClaims_append]
    rw [dueClaims_eq_zero (fun e he => (hmoves.events (List.mem_reverse.mp he)).2.1), Nat.zero_add]
  have hdelay : delays id (w.afterPass pid s).history =
      delays id s.events + delays id w.history := by
    simp only [afterPass, delays_append, delays_reverse]
  unfold Paid
  rw [hdue, hdelay]
  change dueClaims id w.history + s.db.deliveries.sum (armedOf id) ≤
      s.db.deliveries.sum (attemptsOf id) + (delays id s.events + delays id w.history) ∨
    dueClaims id w.history + s.db.deliveries.sum (armedOf id) ≤
      s.db.deliveries.sum (attemptsOf id) + (delays id s.events + delays id w.history) + 1 ∧
    ∃ i q, w.passes.set pid s.next i = some q ∧ q.notification.id = id ∧ q.Owes s.db w.clock
  by_cases hid : id = p.notification.id
  · have hpaid := hw.paid_own hp hid
    cases hpays with
    | keeps hs hnext =>
      rw [hs]
      rcases hpaid with h | ⟨h, howes⟩
      · left
        omega
      · obtain ⟨p', hp', howes'⟩ := hnext howes
        exact Or.inr ⟨by omega, pid, p', by rw [Pool.set_self, hp'],
          by rw [hmoves.notification_eq hp', hid], howes'⟩
    | putOff hs hpos =>
      subst hid
      rw [hs]
      left
      rcases hpaid with h | ⟨h, -⟩ <;> omega
    | creates ids hs howes _ =>
      left
      have harmed : s.db.deliveries.sum (armedOf id) = w.db.deliveries.sum (armedOf id) := by
        rw [hs]
        exact Table.sum_insertAll (armedOf_newDelivery _ _)
      have hattempts : s.db.deliveries.sum (attemptsOf id) =
          w.db.deliveries.sum (attemptsOf id) := by
        rw [hs]
        exact Table.sum_insertAll (attemptsOf_newDelivery _ _)
      rcases hpaid with h | ⟨-, h⟩
      · omega
      · exact absurd h howes
    | marks d p' f hf hs hnext hahead hkeep hpay hbound =>
      subst hid
      obtain ⟨hrow, hnotification⟩ := hacc.row d (by simp [hahead])
      have harmed := Table.sum_modify hrow f hf (armedOf p.notification.id)
      have hattempts := Table.sum_modify hrow f hf (attemptsOf p.notification.id)
      simp only [armedOf, attemptsOf, hnotification, (hkeep d).1, true_and, if_true]
        at harmed hattempts
      rw [← hs] at harmed hattempts
      have hkey : p'.notification.id = p.notification.id := by rw [hmoves.notification_eq hnext]
      rcases hpaid with h | ⟨h, howes⟩
      · left
        omega
      · rcases howes.marks hacc hf hs hahead hkey with hretry | howes'
        · left
          rw [if_pos (armed_of_retryDue hretry)] at harmed
          omega
        · exact Or.inr ⟨by omega, pid, p', by rw [Pool.set_self, hnext], hkey, howes'⟩
  · obtain ⟨harmed, hattempts⟩ := hpays.sum_of_ne hacc hid
    rcases hw.paid id with h | ⟨h, i, q, hq, hkey, d, hd, hdid, hdue, hwhere⟩
    · left
      omega
    · have hi : i ≠ pid := by
        rintro rfl
        exact hid (by rw [← hkey, Option.some.inj (hp.symm.trans hq)])
      refine Or.inr ⟨by omega, i, q, by rw [Pool.set_of_ne _ _ hi, hq], hkey, d, ?_, hdid, hdue,
        hwhere⟩
      exact (Table.get?_eq_some.mp (hmoves.get?_delivery_of_ne hacc (Table.get?_pk hd)
        (by rw [hdid, hkey]; exact hid))).1

/-! ### The other actions -/

def Process.isWatchdog : Process → Bool
  | .watchdog _ => true
  | _ => false

/-- The actions of the send path without the watchdog. -/
def World.Retries (w : World) : Action → Prop
  | .request _ r => r.isSending = true ∧ (r matches .requeueStuck) = false ∨
      r.isDeviceQuietPeriod = true
  | .advance rid _ => ∀ p ∈ w.processes rid, p.isSending = true ∧ p.isWatchdog = false
  | a => w.Sends a

instance (w : World) (a : Action) : Decidable (w.Retries a) := by
  rcases a with _ | _ <;> unfold World.Retries <;> infer_instance

theorem World.Retries.sends {w : World} {a : Action} (hs : w.Retries a) : w.Sends a := by
  cases a with
  | request rid r => exact hs.imp And.left id
  | advance rid input => exact fun p hp => (hs p hp).1
  | _ => exact hs

theorem World.Retries.watchdogSpares {w : World} {a : Action} (hs : w.Retries a) :
    w.WatchdogSpares a := by
  rintro rid input cutoff id ids n rfl hrun
  have := (hs _ hrun).2
  simp [Process.isWatchdog] at this

/-- An action that leaves the deliveries alone, lets the passes go on and makes no claim. -/
theorem World.Paid.mono {w w' : World} {id : ℕ} (hw : w.Paid id)
    (hdeliveries : w'.db.deliveries = w.db.deliveries) (hclock : w.clock ≤ w'.clock)
    (hpasses : w'.passes = w.passes)
    (hdue : dueClaims id w'.history = dueClaims id w.history)
    (hdelay : delays id w'.history = delays id w.history) : w'.Paid id := by
  unfold Paid
  rw [hdeliveries, hdue, hdelay, hpasses]
  rcases hw with h | ⟨h, pid, p, hp, hid, d, hd, hdid, hretry, hwhere⟩
  · exact Or.inl h
  · exact Or.inr ⟨h, pid, p, hp, hid, d, by rwa [hdeliveries], hdid, retryDue_mono hclock hretry,
      hwhere⟩

/-- A worker claims the notification; when a retry is due, its pass owes for it. -/
theorem World.Retried.claim {w w' : World} (hw : w.Retried) {pid : ℕ} {task : SendTask}
    {n : Notification} (hpid : w.passes pid = none)
    (hw' : w' = { w with
      broker := w.broker.erase task
      db := w.db.updateNotification n.id (acquire w.clock) (pk_acquire w.clock)
      passes := w.passes.set pid (some { notification := acquire w.clock n })
      history := .claimed n.id task.source (retryIsDue w.db w.clock n.id) :: w.history })
    (hexclusive : Pool.Exclusive (fun p : Pass => p.notification.id) w'.passes) (id : ℕ) :
    w'.Paid id := by
  have hself : w'.passes pid = some { notification := acquire w.clock n } := by
    rw [hw']
    exact Pool.set_self _ _ _
  have hother : ∀ i q, w.passes i = some q → w'.passes i = some q := by
    intro i q hq
    have hi : i ≠ pid := by
      rintro rfl
      simp [hpid] at hq
    rw [hw']
    exact (Pool.set_of_ne _ _ hi).trans hq
  have hdelay : delays id w'.history = delays id w.history := by
    rw [hw']
    simp [delays, Event.isDelay]
  have hdeliveries : w'.db.deliveries = w.db.deliveries := by rw [hw']; rfl
  have hclock : w'.clock = w.clock := by rw [hw']
  unfold Paid
  rw [hdelay, hdeliveries, hclock]
  by_cases hclaim : n.id = id ∧ retryIsDue w.db w.clock n.id = true
  · obtain ⟨rfl, hretry⟩ := hclaim
    have hdue : dueClaims n.id w'.history = dueClaims n.id w.history + 1 := by
      rw [hw']
      simp [dueClaims, Event.isDueClaim, hretry]
    rw [hdue]
    -- no other pass can owe for the notification
    rcases hw.paid n.id with h | ⟨-, i, q, hq, hkey, -⟩
    · right
      simp only [retryIsDue, List.any_eq_true, Bool.and_eq_true, beq_iff_eq] at hretry
      obtain ⟨d, hd, hdid, hdue⟩ := hretry
      exact ⟨by omega, pid, _, hself, rfl, d, by rwa [hdeliveries], hdid, hdue, Or.inl rfl⟩
    · have hi : i = pid := hexclusive (hother i q hq) hself hkey
      rw [hi, hpid] at hq
      simp at hq
  · have hdue : dueClaims id w'.history = dueClaims id w.history := by
      have hnot : Event.isDueClaim id (.claimed n.id task.source
          (retryIsDue w.db w.clock n.id)) = false := by
        simpa [Event.isDueClaim] using hclaim
      rw [hw']
      simp [dueClaims, hnot]
    rw [hdue]
    rcases hw.paid id with h | ⟨h, i, q, hq, hkey, d, hd, howes⟩
    · exact Or.inl h
    · exact Or.inr ⟨h, i, q, hother i q hq, hkey, d, by rwa [hdeliveries], howes⟩

/-- One action keeps the invariant. -/
theorem World.Retried.step {cfg : Settings} {w w' : World} {a : Action} (hw : w.Retried)
    (h : Steps cfg w a w') (hs : w.Retries a) (hspares : w.SparesExhausted cfg a) :
    w'.Retried := by
  have hsound := hw.toSound.step h (hs.sends.undisturbed hw.toClaimed hs.watchdogSpares)
  cases h with
  | tick duration =>
    exact ⟨hsound, hw.intact, hw.attempts, fun id => (hw.paid id).mono rfl
      (Int.le_add_of_nonneg_right (Int.natCast_nonneg _)) rfl rfl rfl⟩
  | notClaimed pid task rowLocked htask hpid hnone =>
    exact ⟨hsound, hw.intact, hw.attempts, fun id => (hw.paid id).mono rfl le_rfl rfl rfl rfl⟩
  | claimed pid task n htask hpid hn hstatus =>
    refine ⟨hsound, ⟨hw.intact.device, ?_⟩, hw.attempts,
      hw.claim hpid rfl hsound.exclusive⟩
    intro m hm
    change m ∈ (w.db.notifications.modify n.id (acquire w.clock) (pk_acquire w.clock)).rows at hm
    obtain ⟨r, hr, rfl⟩ := Table.mem_modify.mp hm
    split
    · exact hw.intact.application r hr
    · exact hw.intact.application r hr
  | pass pid input p s hp hmoves =>
    have hacc := hw.accurate pid p hp
    have hpays := hmoves.pays hacc hw.intact (hw.row pid p hp) hw.attempts
      fun f l ls q => Pass.attempts_of_defer (hspares p hp)
    exact ⟨hsound, hmoves.intact hw.intact, hpays.attempts hacc hw.attempts,
      hw.pass hp hmoves hpays⟩
  | crash pid p hp => exact hs.elim
  | request rid r hrid =>
    rcases hs with ⟨hr, -⟩ | hr
    · obtain ⟨hdb, -, hevents⟩ := Request.begin_sending cfg w.clock w.db hr
      unfold afterProcess at hsound ⊢
      rw [hdb, hevents] at hsound ⊢
      exact ⟨hsound, hw.intact, hw.attempts, fun id => (hw.paid id).mono rfl le_rfl rfl rfl rfl⟩
    · obtain ⟨Q, hdb, -, -, hevents⟩ := Request.begin_deviceQuietPeriod cfg w.clock w.db hr
      have haccounts := fun id => accounts_of_events id (r.begin cfg w.clock w.db).events
        (fun e he => by
          obtain ⟨q, owner, rfl⟩ := hevents e he
          exact ⟨rfl, rfl⟩) w.history
      unfold afterProcess at hsound ⊢
      rw [hdb] at hsound ⊢
      exact ⟨hsound, ⟨hw.intact.device, hw.intact.application⟩, hw.attempts, fun id =>
        (hw.paid id).mono rfl le_rfl rfl (haccounts id).1 (haccounts id).2⟩
  | advance rid input p hp =>
    obtain ⟨s, hmoves, hadv⟩ := Process.advance_moves w.clock input w.db
      (Process.writesNotifications_of_isSending (hs p hp).1)
    have haccounts := fun id => accounts_of_events id s.events (fun e he => by
      rcases hmoves.events he with ⟨m, source, rfl⟩ | ⟨m, found, d, rfl⟩ <;> exact ⟨rfl, rfl⟩)
      w.history
    rw [hadv] at hsound ⊢
    refine ⟨hsound, ⟨hw.intact.device, ?_⟩, hw.attempts, fun id =>
      (hw.paid id).mono rfl le_rfl rfl (haccounts id).1 (haccounts id).2⟩
    intro m hm
    rcases hmoves.notifications with hT | ⟨q, f, hf, hT, hkeep⟩
    · exact hw.intact.application m (hT ▸ hm)
    · change m ∈ s.notifications.rows at hm
      rw [hT] at hm
      obtain ⟨r, hr, rfl⟩ := Table.mem_update.mp hm
      split
      · rw [hkeep r]
        exact hw.intact.application r hr
      · exact hw.intact.application r hr

/-! ### Runs -/

/-- The deliveries of a notification. -/
def Db.deliveriesOf (db : Db) (id : ℕ) : List NotificationDelivery :=
  db.deliveries.select fun d => d.notificationId == id

/-- No exhausted delivery is PENDING with a retry date, so the retry sweep selects none at any
time; and the passes it causes for a notification with a retry due are bounded by the attempts of
its deliveries and the quiet periods that put them off. -/
structure World.RetriesEnd (w : World) : Prop where
  exhausted : ∀ d ∈ w.db.deliveries.rows, maxDeliveryAttempts ≤ d.attemptCount →
    ¬(d.status = .pending ∧ d.nextRetryAt ≠ none)
  selected : ∀ t, ∀ d ∈ w.db.deliveries.select (retryDue t), d.attemptCount < maxDeliveryAttempts
  bounded : ∀ id, retryPasses id w.history ≤
    maxDeliveryAttempts * (w.db.deliveriesOf id).length + delays id w.history + 1

theorem World.Retried.retriesEnd {w : World} (hw : w.Retried) : w.RetriesEnd where
  exhausted := by
    rintro d hd hge ⟨hstatus, hdate⟩
    have := (hw.attempts d hd).2 (by simp [armed, hstatus, Option.isSome_iff_ne_none, hdate])
    omega
  selected := by
    intro t d hd
    obtain ⟨hd, hdue⟩ := Table.mem_select.mp hd
    exact (hw.attempts d hd).2 (armed_of_retryDue hdue)
  bounded := by
    intro id
    have hattempts : w.db.deliveries.sum (attemptsOf id) ≤
        maxDeliveryAttempts * (w.db.deliveriesOf id).length := by
      refine Table.sum_le_mul_length (fun d hd _ => ?_) fun d hd => ?_
      · unfold attemptsOf
        split
        · exact (hw.attempts d hd).1
        · exact Nat.zero_le _
      · simp only [beq_eq_false_iff_ne] at hd
        simp [attemptsOf, hd]
    have hpasses := retryPasses_le_dueClaims id w.history
    rcases hw.paid id with h | ⟨h, -⟩ <;> omega

theorem World.Initial.retried {w : World} (hw : w.Initial) (hintact : w.db.Intact)
    (hfresh : ∀ d ∈ w.db.deliveries.rows,
      d.status = .pending ∧ d.attemptCount = 0 ∧ d.nextRetryAt = none) : w.Retried where
  toSound := hw.sound
  intact := hintact
  attempts := by
    intro d hd
    obtain ⟨-, hattempts, -⟩ := hfresh d hd
    rw [hattempts]
    exact ⟨Nat.zero_le _, fun _ => by decide⟩
  paid := by
    intro id
    have harmed : w.db.deliveries.sum (armedOf id) = 0 := by
      have := Table.sum_le_mul_length (T := w.db.deliveries) (p := fun _ => true)
        (m := armedOf id) (c := 0) (fun d hd _ => by
          obtain ⟨-, -, hdate⟩ := hfresh d hd
          simp [armedOf, armed, hdate]) (by simp)
      omega
    left
    rw [hw.history, harmed]
    exact Nat.zero_le _

namespace Sample

/-- A pass whose only push is refused for now, from its claim to its end. -/
def failingPass (pid : ℕ) (task : SendTask) : List Action :=
  toLoop pid task ++ .pass pid { push := .raised (.temporaryPushProvider "") } ::
    List.replicate 5 (.pass pid {})

/-- A retry sweep that finds the notification, and the pass it causes. -/
def retry (rid pid duration : ℕ) : List Action :=
  [.tick duration, .request rid .retryPending, .advance rid {}, .advance rid {}] ++
    failingPass pid ⟨1, .retrySweep⟩

theorem db_intact : db.Intact := ⟨by decide, by decide⟩

end Sample

end PushIT
