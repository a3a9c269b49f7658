import PushIT.World

/-!
# What a step of a pass can do

`Pass.Moves` lists the steps of a pass, one constructor for each branch of the code, with the
condition of the branch and its effect.  Everything proved about passes goes through it.

## Main results

* `Pass.advance_moves`: a pass does nothing else.
* `Pass.Moves.frame`, `Pass.Moves.marks`, `Pass.Moves.held`: which tables a pass writes, which
  marker it applies to which delivery row, and where the rows it holds come from.
-/

namespace PushIT

open Relational

theorem Db.saveDelivery_eq_some {db db' : Db} {id : ℕ}
    {f : NotificationDelivery → NotificationDelivery} {hf : ∀ d, pk (f d) = pk d}
    (h : db.saveDelivery id f hf = some db') :
    (∃ d, db.deliveries.get? id = some d) ∧
      db' = { db with deliveries := db.deliveries.modify id f hf } := by
  unfold saveDelivery at h
  split at h
  · rename_i hrow
    exact ⟨Option.isSome_iff_exists.mp hrow, (Option.some.inj h).symm⟩
  · simp at h

theorem Db.saveDelivery_eq_none {db : Db} {id : ℕ}
    {f : NotificationDelivery → NotificationDelivery} {hf : ∀ d, pk (f d) = pk d}
    (h : db.saveDelivery id f hf = none) : db.deliveries.get? id = none := by
  unfold saveDelivery at h
  split at h
  · simp at h
  · rename_i hrow
    simpa using hrow

theorem Db.saveDevice_eq_some {db db' : Db} {id : ℕ} {f : Device → Device}
    {hf : ∀ d, pk (f d) = pk d} (h : db.saveDevice id f hf = some db') :
    (∃ d, db.devices.get? id = some d) ∧
      db' = { db with devices := db.devices.modify id f hf } := by
  unfold saveDevice at h
  split at h
  · rename_i hrow
    exact ⟨Option.isSome_iff_exists.mp hrow, (Option.some.inj h).symm⟩
  · simp at h

theorem Db.saveDevice_eq_none {db : Db} {id : ℕ} {f : Device → Device}
    {hf : ∀ d, pk (f d) = pk d} (h : db.saveDevice id f hf = none) :
    db.devices.get? id = none := by
  unfold saveDevice at h
  split at h
  · simp at h
  · rename_i hrow
    simpa using hrow

namespace Pass

/-! ### The steps -/

/-- The step goes on at another stage. -/
def on (n : Notification) (stage : Stage) (db : Db) (events : List Event := []) : PassStep :=
  ⟨some ⟨n, stage⟩, db, events⟩

/-- The database with one delivery row rewritten. -/
def withDelivery (db : Db) (id : ℕ) (f : NotificationDelivery → NotificationDelivery)
    (hf : ∀ d, pk (f d) = pk d) : Db :=
  { db with deliveries := db.deliveries.modify id f hf }

/-- The database with one device row rewritten. -/
def withDevice (db : Db) (id : ℕ) (f : Device → Device) (hf : ∀ d, pk (f d) = pk d) : Db :=
  { db with devices := db.devices.modify id f hf }

/-- The steps of a pass for the notification `n`, by stage. -/
inductive Moves (cfg : Settings) (now : Instant) (db : Db) (n : Notification) :
    Stage → PassStep → Prop
  | paid : Moves cfg now db n .entitlement (on n .applicationQuiet db)
  | unpaid : Moves cfg now db n .entitlement (on n .lapsed db)
  | lapsed :
      Moves cfg now db n .lapsed
        (on n (.cancelling (db.deliveries.select fun d =>
          d.notificationId == n.id && !decide (d.status = .sent))) db)
  | lapsedClosed :
      Moves cfg now db n (.cancelling [])
        (ended (db.updateNotification n.id (closeNotification now .failed)
          (pk_closeNotification now .failed)))
  | lapsedCancelled (d ds row) (hrow : db.deliveries.get? d.id = some row) :
      Moves cfg now db n (.cancelling (d :: ds))
        (on n (.cancelling ds)
          (withDelivery db d.id (cancelDelivery now .subscriptionRequired)
            (pk_cancelDelivery now .subscriptionRequired)))
  | lapsedGone (d ds) (hrow : db.deliveries.get? d.id = none) :
      Moves cfg now db n (.cancelling (d :: ds)) (ended db)
  | quiet (quietPeriodEnd)
      (h : getCurrentQuietPeriodEnd cfg.timeZone db n.applicationId now = some quietPeriodEnd) :
      Moves cfg now db n .applicationQuiet (on n (.postponing quietPeriodEnd) db)
  | notQuiet
      (h : getCurrentQuietPeriodEnd cfg.timeZone db n.applicationId now = none) :
      Moves cfg now db n .applicationQuiet (on n .listing db)
  | postponed (quietPeriodEnd) :
      Moves cfg now db n (.postponing quietPeriodEnd)
        (ended (db.updateNotification n.id (postponeNotification quietPeriodEnd)
          (pk_postponeNotification quietPeriodEnd)) [.postponed n.id])
  | listedNone (h : loadDeliveries db n.id = []) :
      Moves cfg now db n .listing (on n .targeting db)
  | listed (l ls) (h : loadDeliveries db n.id = l :: ls) :
      Moves cfg now db n .listing (on n (.refreshing (l :: ls)) db)
  | untargeted (h : targetDevices db n.applicationId = []) :
      Moves cfg now db n .targeting (on n (.closing noTarget) db)
  | targeted (d ds) (h : targetDevices db n.applicationId = d :: ds) :
      Moves cfg now db n .targeting (on n (.materializing ((d :: ds).map (·.id))) db)
  | materialized (deviceIds) (hn : (db.notifications.get? n.id).isSome)
      (hdevices : ∀ k ∈ deviceIds, (db.devices.get? k).isSome) :
      Moves cfg now db n (.materializing deviceIds)
        (on n .relisting (db.createDeliveries n.id deviceIds)
          (deliveriesAttached db (db.createDeliveries n.id deviceIds)))
  | notMaterialized (deviceIds)
      (h : ¬((db.notifications.get? n.id).isSome ∧ ∀ k ∈ deviceIds, (db.devices.get? k).isSome)) :
      Moves cfg now db n (.materializing deviceIds) (ended db)
  | relistedNone (h : loadDeliveries db n.id = []) :
      Moves cfg now db n .relisting (on n (.closing noTarget) db)
  | relisted (l ls) (h : loadDeliveries db n.id = l :: ls) :
      Moves cfg now db n .relisting (on n (.refreshing (l :: ls)) db)
  | refreshed (ls a) (h : db.applications.get? n.applicationId = some a) :
      Moves cfg now db n (.refreshing ls) (on n (.linking a.isActive ls) db)
  | applicationGone (ls) (h : db.applications.get? n.applicationId = none) :
      Moves cfg now db n (.refreshing ls) (ended db)
  | linked (active ls) :
      Moves cfg now db n (.linking active ls)
        (on n (.looping
          { applicationIsActive := active
            linkedDeviceIds := linkedDeviceIdsOf db n.applicationId ls
            remaining := ls }) db)
  | finished (f) (h : f.remaining = []) :
      Moves cfg now db n (.looping f) (on n (.closing (finalStatus f.counts)) db)
  | skipped (f l ls) (h : f.remaining = l :: ls)
      (hdecision : deliveryDecision cfg.timeZone now (f.rest ls) l = .skip) :
      Moves cfg now db n (.looping f)
        (on n (.looping ((f.rest ls).count .addSkipped)) db)
  | cancelled (f l ls reason row) (h : f.remaining = l :: ls)
      (hdecision : deliveryDecision cfg.timeZone now (f.rest ls) l =
        .cancel reason)
      (hrow : db.deliveries.get? l.delivery.id = some row) :
      Moves cfg now db n (.looping f)
        (on n (.looping ((f.rest ls).count .addFailed))
          (withDelivery db l.delivery.id (cancelDelivery now reason)
            (pk_cancelDelivery now reason)))
  | waited (f l ls) (h : f.remaining = l :: ls)
      (hdecision : deliveryDecision cfg.timeZone now (f.rest ls) l = .wait) :
      Moves cfg now db n (.looping f)
        (on n (.looping ((f.rest ls).count .addWaiting)) db)
  | deferred (f l ls quietPeriodEnd row) (h : f.remaining = l :: ls)
      (hdecision : deliveryDecision cfg.timeZone now (f.rest ls) l =
        .defer quietPeriodEnd)
      (hrow : db.deliveries.get? l.delivery.id = some row) :
      Moves cfg now db n (.looping f)
        (on n (.looping ((f.rest ls).count .addDeferred))
          (withDelivery db l.delivery.id (markDeliveryAsDeferred now quietPeriodEnd)
            (pk_markDeliveryAsDeferred now quietPeriodEnd))
          [.deferred n.id l.delivery.id])
  | exhausted (f l ls) (h : f.remaining = l :: ls)
      (hdecision : deliveryDecision cfg.timeZone now (f.rest ls) l =
        .exhausted) :
      Moves cfg now db n (.looping f)
        (on n (.looping ((f.rest ls).count .addFailed)) db)
  | deliveryGone (f l ls) (h : f.remaining = l :: ls)
      (hrow : db.deliveries.get? l.delivery.id = none) :
      Moves cfg now db n (.looping f) (ended db)
  | accepted (f l ls providerMessageId) (h : f.remaining = l :: ls)
      (hdecision : deliveryDecision cfg.timeZone now (f.rest ls) l = .push) :
      Moves cfg now db n (.looping f)
        (on n (.marking (f.rest ls) l providerMessageId) db
          [.called n.id l.delivery.id l.device.id l.device.pushToken true])
  | refused (f l ls error) (h : f.remaining = l :: ls)
      (hdecision : deliveryDecision cfg.timeZone now (f.rest ls) l = .push) :
      Moves cfg now db n (.looping f)
        (on n (.counting (f.rest ls) l error) db
          [.called n.id l.delivery.id l.device.id l.device.pushToken false])
  | sentToSettle (f l providerMessageId row) (hcount : l.device.failureCount ≠ 0)
      (hrow : db.deliveries.get? l.delivery.id = some row) :
      Moves cfg now db n (.marking f l providerMessageId)
        (on n (.settling f l)
          (withDelivery db l.delivery.id (markDeliveryAsSent now providerMessageId)
            (pk_markDeliveryAsSent now providerMessageId)))
  | sent (f l providerMessageId row) (hcount : l.device.failureCount = 0)
      (hrow : db.deliveries.get? l.delivery.id = some row) :
      Moves cfg now db n (.marking f l providerMessageId)
        (on n (.looping (f.count .addSent))
          (withDelivery db l.delivery.id (markDeliveryAsSent now providerMessageId)
            (pk_markDeliveryAsSent now providerMessageId)))
  | notSent (f l providerMessageId) (hrow : db.deliveries.get? l.delivery.id = none) :
      Moves cfg now db n (.marking f l providerMessageId) (on n (.counting f l saveFailed) db)
  | settled (f l row) (hrow : db.devices.get? l.device.id = some row) :
      Moves cfg now db n (.settling f l)
        (on n (.looping (f.count .addSent))
          (withDevice db l.device.id resetFailures pk_resetFailures))
  | notSettled (f l) (hrow : db.devices.get? l.device.id = none) :
      Moves cfg now db n (.settling f l) (on n (.counting f l saveFailed) db)
  | countedInvalid (f l error) (h : error.invalidateToken = true) :
      Moves cfg now db n (.counting f l error)
        (on n (.invalidating f l error) (withDevice db l.device.id countFailure pk_countFailure))
  | counted (f l error) (h : error.invalidateToken = false) :
      Moves cfg now db n (.counting f l error)
        (on n (.rereading f l error) (withDevice db l.device.id countFailure pk_countFailure))
  | invalidated (f l error row) (hrow : db.devices.get? l.device.id = some row) :
      Moves cfg now db n (.invalidating f l error)
        (on n (.rereading f l error)
          (withDevice db l.device.id (invalidate now) (pk_invalidate now))
          [.invalidated l.device.id l.device.pushToken row.pushToken])
  | notInvalidated (f l error) (hrow : db.devices.get? l.device.id = none) :
      Moves cfg now db n (.invalidating f l error) (ended db)
  | reread (f l error row) (hrow : db.devices.get? l.device.id = some row) :
      Moves cfg now db n (.rereading f l error) (on n (.failing f l error) db)
  | notReread (f l error) (hrow : db.devices.get? l.device.id = none) :
      Moves cfg now db n (.rereading f l error) (ended db)
  | failed (f l error row) (hrow : db.deliveries.get? l.delivery.id = some row) :
      Moves cfg now db n (.failing f l error)
        (on n (.looping (f.count .addFailed))
          (withDelivery db l.delivery.id (markDeliveryAsFailed now error.text)
            (pk_markDeliveryAsFailed now error.text)))
  | notFailed (f l error) (hrow : db.deliveries.get? l.delivery.id = none) :
      Moves cfg now db n (.failing f l error) (ended db)
  | closed (status) :
      Moves cfg now db n (.closing status)
        (ended (db.updateNotification n.id (closeNotification now status.val)
          (pk_closeNotification now status.val)))

variable {cfg : Settings} {now : Instant} {db : Db} {input : PassInput}

private theorem turn_moves {p : Pass} {f : LoopFrame} {l : LoadedDelivery}
    {ls : List LoadedDelivery} (h : f.remaining = l :: ls) :
    Moves cfg now db p.notification (.looping f)
      (p.turn cfg now db input (f.rest ls) l) := by
  unfold turn
  split
  · next hd => exact .skipped f l ls h hd
  · next reason hd =>
    split
    · next db' hs =>
      obtain ⟨⟨row, hrow⟩, rfl⟩ := Db.saveDelivery_eq_some hs
      exact .cancelled f l ls reason row h hd hrow
    · next hs => exact .deliveryGone f l ls h (Db.saveDelivery_eq_none hs)
  · next hd => exact .waited f l ls h hd
  · next quietPeriodEnd hd =>
    split
    · next db' hs =>
      obtain ⟨⟨row, hrow⟩, rfl⟩ := Db.saveDelivery_eq_some hs
      exact .deferred f l ls quietPeriodEnd row h hd hrow
    · next hs => exact .deliveryGone f l ls h (Db.saveDelivery_eq_none hs)
  · next hd => exact .exhausted f l ls h hd
  · next hd =>
    cases hp : input.push with
    | accepted providerMessageId => exact .accepted f l ls providerMessageId h hd
    | raised error => exact .refused f l ls error h hd

/-- Every step of a pass is one of `Moves`. -/
theorem advance_moves (p : Pass) :
    Moves cfg now db p.notification p.stage (p.advance cfg now db input) := by
  obtain ⟨n, stage⟩ := p
  cases stage with
  | entitlement =>
    cases hp : input.ownerPaid with
    | true =>
      simp only [advance, hp]
      exact .paid
    | false =>
      simp only [advance, hp]
      exact .unpaid
  | lapsed => exact .lapsed
  | cancelling ds =>
    cases ds with
    | nil => exact .lapsedClosed
    | cons d ds =>
      simp only [advance]
      split
      · next db' hs =>
        obtain ⟨⟨row, hrow⟩, rfl⟩ := Db.saveDelivery_eq_some hs
        exact .lapsedCancelled d ds row hrow
      · next hs => exact .lapsedGone d ds (Db.saveDelivery_eq_none hs)
  | applicationQuiet =>
    simp only [advance]
    split
    · next quietPeriodEnd h => exact .quiet quietPeriodEnd h
    · next h => exact .notQuiet h
  | postponing quietPeriodEnd => exact .postponed quietPeriodEnd
  | listing =>
    simp only [advance]
    split
    · next h => exact .listedNone h
    · next l ls h => exact .listed l ls h
  | targeting =>
    simp only [advance]
    split
    · next h => exact .untargeted h
    · next d ds h => exact .targeted d ds h
  | materializing deviceIds =>
    simp only [advance]
    split
    · next h => exact .materialized deviceIds h.1 h.2
    · next h => exact .notMaterialized deviceIds h
  | relisting =>
    simp only [advance]
    split
    · next h => exact .relistedNone h
    · next l ls h => exact .relisted l ls h
  | refreshing ls =>
    simp only [advance]
    split
    · next a h => exact .refreshed ls a h
    · next h => exact .applicationGone ls h
  | linking active ls => exact .linked active ls
  | looping f =>
    simp only [advance]
    split
    · next h => exact .finished f h
    · next l ls h => exact turn_moves (p := ⟨n, .looping f⟩) h
  | marking f l providerMessageId =>
    simp only [advance]
    split
    · next db' hs =>
      obtain ⟨⟨row, hrow⟩, rfl⟩ := Db.saveDelivery_eq_some hs
      split
      · next hcount => exact .sentToSettle f l providerMessageId row hcount hrow
      · next hcount => exact .sent f l providerMessageId row (not_not.mp hcount) hrow
    · next hs => exact .notSent f l providerMessageId (Db.saveDelivery_eq_none hs)
  | settling f l =>
    simp only [advance]
    split
    · next db' hs =>
      obtain ⟨⟨row, hrow⟩, rfl⟩ := Db.saveDevice_eq_some hs
      exact .settled f l row hrow
    · next hs => exact .notSettled f l (Db.saveDevice_eq_none hs)
  | counting f l error =>
    cases he : error.invalidateToken with
    | true =>
      simp only [advance, he]
      exact .countedInvalid f l error he
    | false =>
      simp only [advance, he]
      exact .counted f l error he
  | invalidating f l error =>
    simp only [advance]
    split
    · next row h => exact .invalidated f l error row h
    · next h => exact .notInvalidated f l error h
  | rereading f l error =>
    simp only [advance]
    split
    · next row h => exact .reread f l error row h
    · next h => exact .notReread f l error h
  | failing f l error =>
    simp only [advance]
    split
    · next db' hs =>
      obtain ⟨⟨row, hrow⟩, rfl⟩ := Db.saveDelivery_eq_some hs
      exact .failed f l error row hrow
    · next hs => exact .notFailed f l error (Db.saveDelivery_eq_none hs)
  | closing status => exact .closed status

/-! ### The tables a pass writes -/

namespace Moves

variable {n : Notification} {stage : Stage} {s : PassStep}

/-- A pass keeps its notification. -/
theorem notification_eq (h : Moves cfg now db n stage s) {p' : Pass} (hp : s.next = some p') :
    p'.notification = n := by
  cases h <;> simp only [on, ended, reduceCtorEq, Option.some.injEq] at hp <;> rw [← hp]

/-- A pass leaves these tables alone. -/
theorem frame (h : Moves cfg now db n stage s) :
    s.db.applications = db.applications ∧ s.db.links = db.links ∧
      s.db.deviceQuietPeriods = db.deviceQuietPeriods ∧
      s.db.applicationQuietPeriods = db.applicationQuietPeriods := by
  cases h <;> exact ⟨rfl, rfl, rfl, rfl⟩

/-- A pass writes its notification when it returns, and leaves it in a status it ends with. -/
theorem notifications (h : Moves cfg now db n stage s) :
    s.db.notifications = db.notifications ∨
      s.next = none ∧ ∃ f hf, s.db.notifications = db.notifications.modify n.id f hf ∧
        ∀ r, (f r).applicationId = r.applicationId ∧ (f r).status ∈
          [NotificationStatus.sent, .failed, .partially, .noTarget, .scheduled] := by
  cases h with
  | lapsedClosed =>
    exact Or.inr ⟨rfl, closeNotification now .failed, pk_closeNotification now .failed, rfl,
      fun r => by simp [closeNotification]⟩
  | postponed quietPeriodEnd =>
    exact Or.inr ⟨rfl, postponeNotification quietPeriodEnd,
      pk_postponeNotification quietPeriodEnd, rfl,
      fun r => by simp [postponeNotification]⟩
  | closed status =>
    refine Or.inr ⟨rfl, closeNotification now status.val,
      pk_closeNotification now status.val, rfl, fun r => ⟨rfl, ?_⟩⟩
    have := status.2
    simp only [closeNotification, List.mem_cons, List.not_mem_nil, or_false] at this ⊢
    tauto
  | _ => exact Or.inl rfl

theorem notifications_of_next (h : Moves cfg now db n stage s) {p' : Pass}
    (hp : s.next = some p') : s.db.notifications = db.notifications := by
  rcases h.notifications with hn | ⟨hnone, -⟩
  · exact hn
  · rw [hnone] at hp
    simp at hp

/-- A pass keeps the token and the owner of every device row. -/
theorem devices (h : Moves cfg now db n stage s) :
    s.db.devices = db.devices ∨
      ∃ k f hf, s.db.devices = db.devices.modify k f hf ∧
        ∀ d, (f d).pushToken = d.pushToken ∧ (f d).userId = d.userId := by
  cases h with
  | settled f l row hrow =>
    exact Or.inr ⟨_, resetFailures, pk_resetFailures, rfl, fun _ => ⟨rfl, rfl⟩⟩
  | countedInvalid f l error he =>
    exact Or.inr ⟨_, countFailure, pk_countFailure, rfl, fun _ => ⟨rfl, rfl⟩⟩
  | counted f l error he =>
    exact Or.inr ⟨_, countFailure, pk_countFailure, rfl, fun _ => ⟨rfl, rfl⟩⟩
  | invalidated f l error row hrow =>
    exact Or.inr ⟨_, invalidate now, pk_invalidate now, rfl, fun _ => ⟨rfl, rfl⟩⟩
  | _ => exact Or.inl rfl

/-- The device rows after a step of a pass, with the token and owner they had. -/
theorem get?_device (h : Moves cfg now db n stage s) {k : ℕ} {d : Device}
    (hd : s.db.devices.get? k = some d) :
    ∃ d₀, db.devices.get? k = some d₀ ∧ d.pushToken = d₀.pushToken ∧ d.userId = d₀.userId := by
  rcases h.devices with hs | ⟨j, f, hf, hs, hkeep⟩
  · exact ⟨d, hs ▸ hd, rfl, rfl⟩
  · rw [hs, Table.get?_modify, Option.map_eq_some_iff] at hd
    obtain ⟨d₀, hd₀, rfl⟩ := hd
    refine ⟨d₀, hd₀, ?_⟩
    split
    · exact hkeep d₀
    · exact ⟨rfl, rfl⟩

/-- A pass neither deletes a device row nor creates one. -/
theorem isSome_device_iff (h : Moves cfg now db n stage s) {k : ℕ} :
    (s.db.devices.get? k).isSome ↔ (db.devices.get? k).isSome := by
  rcases h.devices with hs | ⟨j, f, hf, hs, -⟩ <;> rw [hs]
  rw [Table.get?_modify, Option.isSome_map]

@[simp] theorem seq_devices (h : Moves cfg now db n stage s) :
    s.db.devices.seq = db.devices.seq := by
  rcases h.devices with hs | ⟨j, f, hf, hs, -⟩ <;> rw [hs]
  rfl

/-! ### The markers -/

/-- The delivery instance a stage writes next and what it writes. -/
inductive Marks (cfg : Settings) (now : Instant) :
    Stage → NotificationDelivery → (NotificationDelivery → NotificationDelivery) → Prop
  | lapsed (d ds) :
      Marks cfg now (.cancelling (d :: ds)) d (cancelDelivery now .subscriptionRequired)
  | cancelled (f l ls reason) (h : f.remaining = l :: ls)
      (hdecision : deliveryDecision cfg.timeZone now (f.rest ls) l = .cancel reason) :
      Marks cfg now (.looping f) l.delivery (cancelDelivery now reason)
  | deferred (f l ls quietPeriodEnd) (h : f.remaining = l :: ls)
      (hdecision : deliveryDecision cfg.timeZone now (f.rest ls) l = .defer quietPeriodEnd) :
      Marks cfg now (.looping f) l.delivery (markDeliveryAsDeferred now quietPeriodEnd)
  | sent (f l providerMessageId) :
      Marks cfg now (.marking f l providerMessageId) l.delivery
        (markDeliveryAsSent now providerMessageId)
  | failed (f l error) :
      Marks cfg now (.failing f l error) l.delivery (markDeliveryAsFailed now error.text)

/-- A marker keeps the notification and the device of the row it writes. -/
theorem Marks.keeps {d : NotificationDelivery}
    {f : NotificationDelivery → NotificationDelivery} (h : Marks cfg now stage d f)
    (r : NotificationDelivery) :
    (f r).notificationId = r.notificationId ∧ (f r).deviceId = r.deviceId := by
  cases h <;> exact ⟨rfl, rfl⟩

theorem Marks.pk_eq {d : NotificationDelivery}
    {f : NotificationDelivery → NotificationDelivery} (h : Marks cfg now stage d f)
    (r : NotificationDelivery) : pk (f r) = pk r := by
  cases h <;> rfl

/-- What a pass does to the delivery rows: nothing, a marker, or the creation of the missing
ones. -/
theorem deliveries (h : Moves cfg now db n stage s) :
    s.db.deliveries = db.deliveries ∨
      (∃ d f, ∃ hm : Marks cfg now stage d f,
        s.db.deliveries = db.deliveries.modify d.id f hm.pk_eq) ∨
      ∃ ids, stage = .materializing ids ∧ s.db = db.createDeliveries n.id ids := by
  cases h with
  | lapsedCancelled d ds row hrow => exact Or.inr (Or.inl ⟨_, _, .lapsed d ds, rfl⟩)
  | cancelled f l ls reason row h hd hrow =>
    exact Or.inr (Or.inl ⟨_, _, .cancelled f l ls reason h hd, rfl⟩)
  | deferred f l ls quietPeriodEnd row h hd hrow =>
    exact Or.inr (Or.inl ⟨_, _, .deferred f l ls quietPeriodEnd h hd, rfl⟩)
  | sentToSettle f l m row hcount hrow => exact Or.inr (Or.inl ⟨_, _, .sent f l m, rfl⟩)
  | sent f l m row hcount hrow => exact Or.inr (Or.inl ⟨_, _, .sent f l m, rfl⟩)
  | failed f l error row hrow => exact Or.inr (Or.inl ⟨_, _, .failed f l error, rfl⟩)
  | materialized ids hn hdevices => exact Or.inr (Or.inr ⟨ids, rfl, rfl⟩)
  | _ => exact Or.inl rfl

/-! ### The history a pass writes -/

/-- The provider is called at the head of the loop, for a delivery that may be pushed. -/
theorem called (h : Moves cfg now db n stage s) {m δ k : ℕ} {token : String} {accepted : Bool}
    (he : .called m δ k token accepted ∈ s.events) :
    m = n.id ∧ ∃ f l ls, stage = .looping f ∧ f.remaining = l :: ls ∧ δ = l.delivery.id ∧
      k = l.device.id ∧ token = l.device.pushToken ∧
      deliveryDecision cfg.timeZone now (f.rest ls) l = .push := by
  cases h with
  | materialized ids hn hdevices => simp [on, deliveriesAttached] at he
  | accepted f l ls providerMessageId hl hdecision =>
    simp only [on, List.mem_singleton, Event.called.injEq] at he
    exact ⟨he.1, f, l, ls, rfl, hl, he.2.1, he.2.2.1, he.2.2.2.1, hdecision⟩
  | refused f l ls error hl hdecision =>
    simp only [on, List.mem_singleton, Event.called.injEq] at he
    exact ⟨he.1, f, l, ls, rfl, hl, he.2.1, he.2.2.1, he.2.2.2.1, hdecision⟩
  | _ => simp [on, ended] at he

/-- A pass invalidates the device it just counted a failure for. -/
theorem invalidated_event (h : Moves cfg now db n stage s) {k : ℕ} {rejected current : String}
    (he : .invalidated k rejected current ∈ s.events) :
    ∃ f l error row, stage = .invalidating f l error ∧ k = l.device.id ∧
      rejected = l.device.pushToken ∧ db.devices.get? l.device.id = some row ∧
      current = row.pushToken := by
  cases h with
  | materialized ids hn hdevices => simp [on, deliveriesAttached] at he
  | invalidated f l error row hrow =>
    simp only [on, List.mem_singleton, Event.invalidated.injEq] at he
    exact ⟨f, l, error, row, rfl, he.1, he.2.1, hrow, he.2.2⟩
  | _ => simp [on, ended] at he

/-- The entries a pass attaches are the deliveries it creates. -/
theorem attached (h : Moves cfg now db n stage s) {e : Entry} {owner : Option ℕ}
    (he : .attached e owner ∈ s.events) :
    ∃ ids, stage = .materializing ids ∧ s.db = db.createDeliveries n.id ids ∧
      .attached e owner ∈ deliveriesAttached db s.db := by
  cases h with
  | materialized ids hn hdevices => exact ⟨ids, rfl, rfl, he⟩
  | _ => simp [on, ended] at he

/-- The events of a pass are calls, deferrals, postponements, invalidations and attachments. -/
theorem events (h : Moves cfg now db n stage s) {e : Event} (he : e ∈ s.events) :
    (∀ m ids, e ≠ .created m ids) ∧ (∀ m source due, e ≠ .claimed m source due) ∧
      (∀ m source t, e ≠ .queued m source t) ∧ (∀ m found d, e ≠ .edited m found d) ∧
      (∀ a b, e ≠ .merged a b) ∧ ∀ m found, e ≠ .removed m found := by
  cases h with
  | materialized ids hn hdevices =>
    simp only [on, deliveriesAttached, List.mem_map] at he
    obtain ⟨d, -, rfl⟩ := he
    simp
  | _ =>
    simp only [on, ended, List.mem_singleton, List.not_mem_nil] at he
    try (subst he; simp)

end Moves

/-! ### The rows a pass holds -/

/-- The delivery instances a stage still works with. -/
def held : Stage → List LoadedDelivery
  | .refreshing ls | .linking _ ls => ls
  | .looping f => f.remaining
  | .marking f l _ | .settling f l | .counting f l _ | .invalidating f l _ | .rereading f l _
  | .failing f l _ => l :: f.remaining
  | _ => []

/-- What a pass holds after a step it held before, or it has just loaded it. -/
theorem Moves.held {n : Notification} {stage : Stage} {s : PassStep}
    (h : Moves cfg now db n stage s) {p' : Pass} (hp : s.next = some p') {l : LoadedDelivery}
    (hl : l ∈ held p'.stage) :
    l ∈ Pass.held stage ∨ l ∈ loadDeliveries db n.id ∧ s.db = db := by
  cases h with
  | listed x xs hload =>
    obtain rfl := Option.some.inj hp
    exact Or.inr ⟨hload ▸ hl, rfl⟩
  | relisted x xs hload =>
    obtain rfl := Option.some.inj hp
    exact Or.inr ⟨hload ▸ hl, rfl⟩
  | refreshed | linked | settled | notSettled | countedInvalid | counted | invalidated | reread
  | failed | sentToSettle | sent | notSent =>
    obtain rfl := Option.some.inj hp
    left
    simp only [Pass.held, LoopFrame.count, List.mem_cons] at hl ⊢
    tauto
  | skipped f x xs h | cancelled f x xs _ _ h | waited f x xs h | deferred f x xs _ _ h
  | exhausted f x xs h | accepted f x xs _ h | refused f x xs _ h =>
    obtain rfl := Option.some.inj hp
    left
    simp only [Pass.held, LoopFrame.count, LoopFrame.rest, List.mem_cons, h] at hl ⊢
    tauto
  | _ =>
    simp only [on, ended, reduceCtorEq, Option.some.injEq] at hp
    try (subst hp; simp [Pass.held] at hl)

end Pass

end PushIT
