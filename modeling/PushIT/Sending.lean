import PushIT.Exclusion

/-!
# Runs of the send path

The actions that belong to sending: passes, send requests, the three periodic tasks, the quiet
periods of devices and the passing of time.  Apart from the passes none of them writes a delivery
row, and apart from the watchdog none of them rewrites a PROCESSING row.

## Main results

* `World.Sends.undisturbed`: such actions do not disturb the passes that run, unless the watchdog
  requeues a notification that is still being sent.
* `World.Steps.send_cases`: what the actions other than the steps of a pass leave alone.
-/

namespace PushIT

open Relational Transition

/-- The send requests and the periodic tasks. -/
def Process.isSending : Process → Bool
  | .queue _ | .dispatch _ | .retry _ | .watchdog _ => true
  | .patch _ | .destroy _ | .link _ _ | .unlink _ _ => false

theorem Process.writesNotifications_of_isSending {p : Process} (hp : p.isSending = true) :
    p.writesNotifications = true := by
  cases p <;> simp_all [isSending, writesNotifications]

/-- The actions of the send path, without the death of a worker. -/
def World.Sends (w : World) : Action → Prop
  | .tick _ | .claim _ _ _ | .pass _ _ => True
  | .crash _ => False
  | .request _ r => r.isSending = true ∨ r.isDeviceQuietPeriod = true
  | .advance rid _ => ∀ p ∈ w.processes rid, p.isSending = true

instance (w : World) (a : Action) : Decidable (w.Sends a) := by
  rcases a with _ | _ <;> unfold World.Sends <;> infer_instance

/-- The watchdog does not requeue, in this action, a notification for which a pass is running. -/
def World.WatchdogSpares (w : World) (a : Action) : Prop :=
  ∀ rid input cutoff id ids n, a = .advance rid input →
    w.processes rid = some (.watchdog (.scanning cutoff (id :: ids))) →
    w.db.notifications.get? id = some n → stuckProcessing cutoff n = true →
    ∀ pid p, w.passes pid = some p → p.notification.id ≠ id

/-- A step of a request or periodic task. -/
def Action.isAdvance : Action → Bool
  | .advance _ _ => true
  | _ => false

theorem World.watchdogSpares_of_not_advance {w : World} {a : Action} (h : a.isAdvance = false) :
    w.WatchdogSpares a := by
  rintro rid input cutoff id ids n rfl
  simp [Action.isAdvance] at h

/-- A requeue leaves the claimed rows alone when no pass is running for its notification. -/
theorem World.Claimed.spares {w : World} (hw : w.Claimed) {rid : ℕ} {input : TaskInput}
    {p : Process} {s : TaskStep Process} (hp : w.processes rid = some p)
    (hsending : p.isSending = true) (hspares : w.WatchdogSpares (.advance rid input))
    (h : Process.Moves w.clock w.db.notifications input p s) :
    ∀ pid q, w.passes pid = some q →
      s.notifications.get? q.notification.id = some q.notification := by
  intro pid q hq
  refine h.get?_processing (hw.row pid q hq) (hw.processing pid q hq) ?_ ?_
  · rintro cutoff ids rfl
    by_contra hstuck
    exact hspares rid input cutoff q.notification.id ids q.notification rfl hp
      (hw.row pid q hq) (by simpa using hstuck) pid q hq rfl
  · rintro m d rfl
    simp [Process.isSending] at hsending

/-- The actions of the send path do not disturb the running passes. -/
theorem World.Sends.undisturbed {cfg : Settings} {w : World} {a : Action} (hw : w.Claimed)
    (hs : w.Sends a) (hspares : w.WatchdogSpares a) : w.Undisturbed cfg a := by
  constructor
  · rintro rid r rfl
    rcases hs with hr | hr
    · obtain ⟨hdb, -, -⟩ := Request.begin_sending cfg w.clock w.db hr
      unfold SparesClaims
      rw [hdb]
      exact ⟨hw.row, rfl, rfl⟩
    · obtain ⟨Q, hdb, -, -, -⟩ :=
        Request.begin_deviceQuietPeriod cfg w.clock w.db hr
      unfold SparesClaims
      rw [hdb]
      exact ⟨hw.row, rfl, rfl⟩
  · rintro rid input p rfl hp
    have hsending := hs p hp
    obtain ⟨s, hmoves, hadv⟩ := Process.advance_moves w.clock input w.db
      (Process.writesNotifications_of_isSending hsending)
    unfold SparesClaims
    rw [hadv]
    exact ⟨hw.spares hp hsending hspares hmoves, rfl, rfl⟩

/-! ### Events -/

/-- The provider is called. -/
def Event.isCall : Event → Bool
  | .called _ _ _ _ _ => true
  | _ => false

/-- The provider is called for the delivery, and accepts the push or not. -/
def Event.isCallOf (accepted : Bool) (delivery : ℕ) : Event → Bool
  | .called _ d _ _ answer => answer == accepted && d == delivery
  | _ => false

/-- The number of provider calls for a delivery that ended so. -/
def calls (accepted : Bool) (delivery : ℕ) (history : List Event) : ℕ :=
  history.countP (Event.isCallOf accepted delivery)

@[simp] theorem calls_append (accepted : Bool) (delivery : ℕ) (es history : List Event) :
    calls accepted delivery (es ++ history) =
      calls accepted delivery es + calls accepted delivery history :=
  List.countP_append

@[simp] theorem calls_reverse (accepted : Bool) (delivery : ℕ) (es : List Event) :
    calls accepted delivery es.reverse = calls accepted delivery es :=
  List.countP_reverse

theorem calls_called (accepted answer : Bool) (delivery n d k : ℕ) (token : String) :
    calls accepted delivery [.called n d k token answer] =
      if answer = accepted ∧ d = delivery then 1 else 0 := by
  simp [calls, Event.isCallOf, List.countP_singleton]

theorem calls_of_no_call {es : List Event} (h : ∀ e ∈ es, e.isCall = false) (accepted : Bool)
    (delivery : ℕ) : calls accepted delivery es = 0 := by
  refine List.countP_eq_zero.mpr fun e he => ?_
  have := h e he
  cases e <;> simp_all [Event.isCall, Event.isCallOf]

/-- A step of a pass pushes the delivery at the head of its loop and gets the push accepted, or
refused, or it calls no provider. -/
theorem Pass.Moves.call_cases {cfg : Settings} {now : Instant} {db : Db} {n : Notification}
    {stage : Stage} {s : PassStep} (h : Moves cfg now db n stage s) :
    (∃ f l ls m, stage = .looping f ∧ f.remaining = l :: ls ∧
      deliveryDecision cfg.timeZone now (f.rest ls) l = .push ∧
      s = on n (.marking (f.rest ls) l m) db
        [.called n.id l.delivery.id l.device.id l.device.pushToken true]) ∨
    (∃ f l ls error, stage = .looping f ∧ f.remaining = l :: ls ∧
      deliveryDecision cfg.timeZone now (f.rest ls) l = .push ∧
      s = on n (.counting (f.rest ls) l error) db
        [.called n.id l.delivery.id l.device.id l.device.pushToken false]) ∨
    ∀ accepted delivery, calls accepted delivery s.events = 0 := by
  cases h with
  | accepted f l ls m hl hd => exact Or.inl ⟨f, l, ls, m, rfl, hl, hd, rfl⟩
  | refused f l ls error hl hd => exact Or.inr (Or.inl ⟨f, l, ls, error, rfl, hl, hd, rfl⟩)
  | materialized ids hn hdevices =>
    refine Or.inr (Or.inr (calls_of_no_call fun e he => ?_))
    obtain ⟨d, -, rfl⟩ := List.mem_map.mp he
    rfl
  | _ => exact Or.inr (Or.inr fun _ _ => rfl)

/-- What an action other than a step of a pass leaves alone. -/
structure World.Apart (w w' : World) : Prop where
  deliveries : w'.db.deliveries = w.db.deliveries
  devices : w'.db.devices = w.db.devices
  /-- A pass that runs afterwards ran before, or has just started. -/
  passes : ∀ pid p, w'.passes pid = some p → w.passes pid = some p ∨ p.stage = .entitlement
  /-- The passes go on. -/
  kept : ∀ pid p, w.passes pid = some p → w'.passes pid = some p
  history : ∃ es, w'.history = es ++ w.history ∧ ∀ e ∈ es, e.isCall = false

/-- Along the send path an action is a step of a pass, or it leaves the delivery rows, the device
rows and the running passes alone and calls no provider. -/
theorem World.Steps.send_cases {cfg : Settings} {w w' : World} {a : Action}
    (h : Steps cfg w a w') (hs : w.Sends a) :
    (∃ pid input p s, a = .pass pid input ∧ w.passes pid = some p ∧
      Pass.Moves cfg w.clock w.db p.notification p.stage s ∧ w' = w.afterPass pid s) ∨
    w.Apart w' := by
  cases h with
  | tick duration =>
    exact Or.inr ⟨rfl, rfl, fun _ _ hp => Or.inl hp, fun _ _ hp => hp, [], rfl, by simp⟩
  | notClaimed pid task rowLocked htask hpid hnone =>
    exact Or.inr ⟨rfl, rfl, fun _ _ hp => Or.inl hp, fun _ _ hp => hp, [], rfl, by simp⟩
  | claimed pid task n htask hpid hn hstatus =>
    refine Or.inr ⟨rfl, rfl, ?_, ?_, [_], rfl, by simp [Event.isCall]⟩
    · intro j p hp
      rcases Pool.set_eq_some.mp hp with ⟨-, hp⟩ | ⟨-, hp⟩
      · obtain rfl := Option.some.inj hp
        exact Or.inr rfl
      · exact Or.inl hp
    · intro j p hp
      have hne : j ≠ pid := by
        rintro rfl
        simp [hpid] at hp
      exact Pool.set_eq_some.mpr (Or.inr ⟨hne, hp⟩)
  | pass pid input p s hp hmoves => exact Or.inl ⟨pid, input, p, s, rfl, hp, hmoves, rfl⟩
  | crash pid p hp => exact hs.elim
  | request rid r hrid =>
    right
    rcases hs with hr | hr
    · obtain ⟨hdb, -, hevents⟩ := Request.begin_sending cfg w.clock w.db hr
      refine ⟨?_, ?_, fun _ _ hp => Or.inl hp, fun _ _ hp => hp, [], ?_, by simp⟩ <;>
        simp [afterProcess, hdb, hevents]
    · obtain ⟨Q, hdb, -, -, hevents⟩ :=
        Request.begin_deviceQuietPeriod cfg w.clock w.db hr
      refine ⟨?_, ?_, fun _ _ hp => Or.inl hp, fun _ _ hp => hp, _, rfl, ?_⟩
      · simp [afterProcess, hdb]
      · simp [afterProcess, hdb]
      · intro e he
        obtain ⟨q, owner, rfl⟩ := hevents e (List.mem_reverse.mp he)
        rfl
  | advance rid input p hp =>
    right
    obtain ⟨s, hmoves, hadv⟩ := Process.advance_moves w.clock input w.db
      (Process.writesNotifications_of_isSending (hs p hp))
    rw [hadv]
    refine ⟨rfl, rfl, fun _ _ hp => Or.inl hp, fun _ _ hp => hp, _, rfl, ?_⟩
    intro e he
    rcases hmoves.events (List.mem_reverse.mp he) with
      ⟨id, source, rfl⟩ | ⟨id, found, d, rfl⟩ <;> rfl

/-! ### A small server

One application with one subscribed device and one queued notification, whose send task waits in
the broker.  The counterexamples and instances of this development run on it. -/

/-- The time zone without an offset. -/
def utc : TimeZone where
  localtime := dayAndTime
  makeAware day time := day * days 1 + time

def Settings.default : Settings := { timeZone := utc }

namespace Sample

def application : Application := { id := 1, ownerId := 1 }

def device : Device := { id := 1, userId := some 2, pushToken := "aaaaaaaaaaaaaaaaaaaa" }

def link : DeviceApplicationLink := { id := 1, deviceId := 1, applicationId := 1 }

def notification : Notification := { id := 1, applicationId := 1, status := .queued }

def delivery : NotificationDelivery := { id := 1, notificationId := 1, deviceId := 1 }

/-- The table of one row. -/
def single {R : Type} [Keyed R] (r : R) : Table R where
  rows := [r]
  seq := pk r
  sorted := List.pairwise_singleton _ _
  bounded := by simp

/-- The table of two rows with the keys `1` and `2`. -/
def pair {R : Type} [Keyed R] (r s : R) (hr : pk r = 1) (hs : pk s = 2) : Table R where
  rows := [r, s]
  seq := 2
  sorted := by simp [hr, hs]
  bounded := by simp [hr, hs]

theorem pk_secondDevice :
    pk { device with id := 2, pushToken := "bbbbbbbbbbbbbbbbbbbb" } = 2 :=
  rfl

theorem pk_secondLink : pk { link with id := 2, deviceId := 2 } = 2 := rfl

theorem pk_secondDelivery : pk { delivery with id := 2, deviceId := 2 } = 2 := rfl

theorem firstToken_le : "aaaaaaaaaaaaaaaaaaaa".length ≤ 512 := by decide

theorem secondToken_le : "bbbbbbbbbbbbbbbbbbbb".length ≤ 512 := by decide

theorem firstToken_length :
    20 ≤ "aaaaaaaaaaaaaaaaaaaa".length ∧ "aaaaaaaaaaaaaaaaaaaa".length ≤ 512 :=
  ⟨by decide, firstToken_le⟩

theorem secondToken_length :
    20 ≤ "bbbbbbbbbbbbbbbbbbbb".length ∧ "bbbbbbbbbbbbbbbbbbbb".length ≤ 512 :=
  ⟨by decide, secondToken_le⟩

def db : Db where
  applications := single application
  devices := single device
  links := single link
  notifications := single notification
  deliveries := single delivery

def world : World := { clock := 0, db := db, broker := [⟨1, .client⟩] }

theorem world_initial : world.Initial := ⟨rfl, rfl, rfl⟩

def scheduled : Notification := { notification with status := .scheduled, scheduledFor := some 0 }

/-- The server with its notification scheduled for now, and nothing in the broker. -/
def scheduledWorld : World :=
  { clock := 0, db := { db with notifications := single scheduled } }

theorem scheduledWorld_initial : scheduledWorld.Initial := ⟨rfl, rfl, rfl⟩

/-- The statements of a pass from its claim to the head of its loop. -/
def toLoop (pid : ℕ) (task : SendTask) : List Action :=
  .claim pid task false :: List.replicate 5 (.pass pid {})

end Sample

end PushIT
