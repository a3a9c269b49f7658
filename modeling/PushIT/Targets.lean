import PushIT.RequestSteps
import PushIT.Sending

/-!
# Pushes to selected devices

The devices a creator selects are stored as delivery rows only, and a pass that finds no row for
its notification takes the notification for a broadcast.  As long as each such pass still finds a
row, every push of the notification is for a device that was selected, or for the device that a
selected one was merged into.  When the rows went away with their devices, the pass pushes to all
devices linked to the application.

## Main definitions

* `targets`: the selected devices of a notification, each replaced by what it was merged into.
* `standsFor`: the device row that stands for another one after the merges.
* `Confined`: every push of such a notification was for one of its targets.
* `World.StillListed`: a pass of such a notification finds a delivery row.

## Main results

* `pushes_confined`: pushes are confined along every such run.
* `pushed_beyond_selection`: the deletion of a selected device turns the selection into a
  broadcast.
-/

namespace PushIT

open Relational Transition

/-! ### Selected devices -/

/-- After the merge of `a` into `b` the row `b` stands for both. -/
def renamed (a b k : ℕ) : ℕ := if k = a then b else k

/-- The devices selected for a notification, with the merges since applied. -/
def targets (n : ℕ) : List Event → List ℕ
  | [] => []
  | .created m ids :: h => if m = n then ids else targets n h
  | .merged a b :: h => (targets n h).map (renamed a b)
  | _ :: h => targets n h

/-- The device row that stands for another one, with the merges applied. -/
def standsFor (k : ℕ) : List Event → ℕ
  | [] => k
  | .merged a b :: h => renamed a b (standsFor k h)
  | _ :: h => standsFor k h

/-- The notification was created with an explicit list of devices. -/
def explicit (n : ℕ) (h : List Event) : Bool :=
  h.any fun e => match e with
    | .created m _ => m == n
    | _ => false

/-- The device is one of the targets, if the notification has some. -/
def Targeted (h : List Event) (n k : ℕ) : Prop :=
  explicit n h = true → standsFor k h ∈ targets n h

/-- Every push was for a target of its notification at that time. -/
def Confined : List Event → Prop
  | [] => True
  | .called n _ k _ _ :: h => Targeted h n k ∧ Confined h
  | _ :: h => Confined h

/-- The event selects no device and merges none. -/
def Event.keepsTargets : Event → Bool
  | .created _ _ | .merged _ _ => false
  | _ => true

section History

variable {es h : List Event} {n k a b : ℕ}

theorem explicit_cons {e : Event} (he : e.keepsTargets = true) :
    explicit n (e :: h) = explicit n h := by
  cases e <;> simp_all [explicit, Event.keepsTargets]

theorem targeted_cons {e : Event} (he : e.keepsTargets = true) :
    Targeted (e :: h) n k ↔ Targeted h n k := by
  unfold Targeted
  rw [explicit_cons he]
  cases e <;> simp_all [targets, standsFor, Event.keepsTargets]

theorem targeted_append (hes : ∀ e ∈ es, e.keepsTargets = true) :
    Targeted (es ++ h) n k ↔ Targeted h n k := by
  induction es with
  | nil => rfl
  | cons e es ih =>
    rw [List.cons_append, targeted_cons (hes e List.mem_cons_self)]
    exact ih fun e' he' => hes e' (List.mem_cons_of_mem _ he')

theorem explicit_append (hes : ∀ e ∈ es, e.keepsTargets = true) :
    explicit n (es ++ h) = explicit n h := by
  induction es with
  | nil => rfl
  | cons e es ih =>
    rw [List.cons_append, explicit_cons (hes e List.mem_cons_self)]
    exact ih fun e' he' => hes e' (List.mem_cons_of_mem _ he')

/-- New events keep a history confined when their calls are. -/
theorem confined_append (hes : ∀ e ∈ es, e.keepsTargets = true)
    (hcalls : ∀ m δ k token accepted, .called m δ k token accepted ∈ es → Targeted h m k)
    (hh : Confined h) : Confined (es ++ h) := by
  induction es with
  | nil => exact hh
  | cons e es ih =>
    have hes' := fun e' he' => hes e' (List.mem_cons_of_mem _ he')
    have htail := ih hes' fun m δ k token accepted he =>
      hcalls m δ k token accepted (List.mem_cons_of_mem _ he)
    cases e with
    | called m δ k token accepted =>
      refine ⟨?_, htail⟩
      exact (targeted_append hes').mpr (hcalls m δ k token accepted List.mem_cons_self)
    | _ => exact htail

/-- A merge renames the targets and the devices alike. -/
theorem Targeted.merged (hk : Targeted h n k) : Targeted (.merged a b :: h) n k := by
  intro hexplicit
  exact List.mem_map_of_mem (hk (by simpa [explicit] using hexplicit))

/-- The creation of another notification changes nothing. -/
theorem Targeted.created {m : ℕ} {ids : List ℕ} (hk : Targeted h n k) (hne : m ≠ n) :
    Targeted (.created m ids :: h) n k := by
  intro hexplicit
  simp only [explicit, List.any_cons, beq_eq_false_iff_ne.mpr hne, Bool.false_or] at hexplicit
  simpa [targets, standsFor, hne] using hk hexplicit

/-- A device that was never merged into another one stands for itself. -/
theorem standsFor_of_not_merged (hk : ∀ b, .merged k b ∉ h) : standsFor k h = k := by
  induction h with
  | nil => rfl
  | cons e h ih =>
    have htail := ih fun b hb => hk b (List.mem_cons_of_mem _ hb)
    cases e with
    | merged a b =>
      have hne : k ≠ a := by
        rintro rfl
        exact hk b List.mem_cons_self
      simp [standsFor, htail, renamed, hne]
    | _ => exact htail

end History

/-! ### The invariant -/

namespace Pass

/-- The stages of a pass that treats its notification as a broadcast. -/
def isBroadcast : Stage → Bool
  | .targeting | .materializing _ | .relisting => true
  | _ => false

/-- The pass reads its deliveries for the first time. -/
def isListing : Stage → Bool
  | .listing => true
  | _ => false

/-- A pass becomes a broadcast when it lists no delivery. -/
theorem Moves.isBroadcast {cfg : Settings} {now : Instant} {db : Db} {n : Notification}
    {stage : Stage} {s : PassStep} (h : Moves cfg now db n stage s) {p' : Pass}
    (hnext : s.next = some p') (hp : Pass.isBroadcast p'.stage = true) :
    Pass.isBroadcast stage = true ∨ isListing stage = true ∧ loadDeliveries db n.id = [] := by
  cases h with
  | listedNone hload => exact Or.inr ⟨rfl, hload⟩
  | targeted | materialized => exact Or.inl rfl
  | lapsedClosed | lapsedGone | postponed | notMaterialized | applicationGone | deliveryGone
  | notInvalidated | notReread | notFailed | closed => simp [ended] at hnext
  | _ =>
    obtain rfl := Option.some.inj hnext
    simp [Pass.isBroadcast] at hp

end Pass

namespace World

/-- The rows and passes of a notification with explicit devices are about its targets. -/
structure OnTarget (w : World) : Prop where
  known : ∀ d ∈ w.db.deliveries.rows, d.notificationId ≤ w.db.notifications.seq
  numbered : ∀ pid p, w.passes pid = some p → p.notification.id ≤ w.db.notifications.seq
  gone : ∀ a b, .merged a b ∈ w.history → a ≤ w.db.devices.seq ∧ w.db.devices.get? a = none
  rows : ∀ d ∈ w.db.deliveries.rows, Targeted w.history d.notificationId d.deviceId
  held : ∀ pid p, w.passes pid = some p → ∀ l ∈ Pass.held p.stage,
    Targeted w.history p.notification.id l.device.id
  stage : ∀ pid p, w.passes pid = some p → explicit p.notification.id w.history = true →
    Pass.isBroadcast p.stage = false
  confined : Confined w.history

/-- A pass of a notification with explicit devices that reads its deliveries, in this action,
finds one. -/
def StillListed (w : World) : Action → Prop
  | .pass pid _ => ∀ p ∈ w.passes pid, explicit p.notification.id w.history = true →
      Pass.isListing p.stage = true → (loadDeliveries w.db p.notification.id).isEmpty = false
  | _ => True

instance (w : World) (a : Action) : Decidable (w.StillListed a) := by
  rcases a with _ | _ <;> unfold StillListed <;> infer_instance

/-- An action that merges no device and creates no notification. -/
theorem OnTarget.of_keeps {w w' : World} (hw : w.OnTarget) (es : List Event)
    (hhistory : w'.history = es ++ w.history) (hes : ∀ e ∈ es, e.keepsTargets = true)
    (hcalls : ∀ m δ k token accepted, .called m δ k token accepted ∈ es →
      Targeted w.history m k)
    (hnotifications : w.db.notifications.seq ≤ w'.db.notifications.seq)
    (hdevices : w.db.devices.seq ≤ w'.db.devices.seq)
    (hgone : ∀ k ≤ w.db.devices.seq, w.db.devices.get? k = none → w'.db.devices.get? k = none)
    (hrows : ∀ d ∈ w'.db.deliveries.rows, d.notificationId ≤ w.db.notifications.seq ∧
      Targeted w.history d.notificationId d.deviceId)
    (hpasses : ∀ pid p, w'.passes pid = some p → p.notification.id ≤ w.db.notifications.seq ∧
      (∀ l ∈ Pass.held p.stage, Targeted w.history p.notification.id l.device.id) ∧
      (explicit p.notification.id w.history = true → Pass.isBroadcast p.stage = false)) :
    w'.OnTarget where
  known := fun d hd => (hrows d hd).1.trans hnotifications
  numbered := fun pid p hp => (hpasses pid p hp).1.trans hnotifications
  gone := by
    intro a b he
    rw [hhistory] at he
    rcases List.mem_append.mp he with hnew | hold
    · have := hes _ hnew
      simp [Event.keepsTargets] at this
    · obtain ⟨hle, hnone⟩ := hw.gone a b hold
      exact ⟨hle.trans hdevices, hgone a hle hnone⟩
  rows := by
    intro d hd
    rw [hhistory, targeted_append hes]
    exact (hrows d hd).2
  held := by
    intro pid p hp l hl
    rw [hhistory, targeted_append hes]
    exact (hpasses pid p hp).2.1 l hl
  stage := by
    intro pid p hp
    rw [hhistory, explicit_append hes]
    exact (hpasses pid p hp).2.2
  confined := hhistory ▸ confined_append hes hcalls hw.confined

/-- What the invariant says about the running passes. -/
theorem OnTarget.passes {w : World} (hw : w.OnTarget) (pid : ℕ) (p : Pass)
    (hp : w.passes pid = some p) : p.notification.id ≤ w.db.notifications.seq ∧
      (∀ l ∈ Pass.held p.stage, Targeted w.history p.notification.id l.device.id) ∧
      (explicit p.notification.id w.history = true → Pass.isBroadcast p.stage = false) :=
  ⟨hw.numbered pid p hp, hw.held pid p hp, hw.stage pid p hp⟩

/-- A step of a pass that finds its deliveries pushes to targets only. -/
theorem OnTarget.pass {cfg : Settings} {w : World} (hw : w.OnTarget) {pid : ℕ}
    {input : PassInput} {p : Pass} {s : PassStep} (hp : w.passes pid = some p)
    (hmoves : Pass.Moves cfg w.clock w.db p.notification p.stage s)
    (hlisted : w.StillListed (.pass pid input)) : (w.afterPass pid s).OnTarget := by
  have hseq : s.db.notifications.seq = w.db.notifications.seq := by
    rcases hmoves.notifications with hs | ⟨-, f, hf, hs, -⟩ <;> rw [hs]
    rfl
  refine hw.of_keeps s.events.reverse rfl ?_ ?_ hseq.ge hmoves.seq_devices.ge ?_ ?_ ?_
  · intro e he
    obtain ⟨hcreated, -, -, -, hmerged, -⟩ := hmoves.events (List.mem_reverse.mp he)
    cases e with
    | created m ids => exact absurd rfl (hcreated m ids)
    | merged a b => exact absurd rfl (hmerged a b)
    | _ => rfl
  · intro m δ k token accepted he
    obtain ⟨rfl, f, l, ls, hstage, hrest, -, rfl, -, -⟩ := hmoves.called (List.mem_reverse.mp he)
    exact hw.held pid p hp l (by simp [hstage, Pass.held, hrest])
  · intro k _ hnone
    refine Table.get?_eq_none.mpr fun d hd hid => ?_
    obtain ⟨d₀, hd₀, -⟩ := hmoves.get?_device (Table.get?_eq_some.mpr ⟨hd, hid⟩)
    simp [hnone] at hd₀
  · intro d hd
    change d ∈ s.db.deliveries.rows at hd
    rcases hmoves.deliveries with hs | ⟨r, f, hm, hs⟩ | ⟨ids, hstage, hs⟩ <;> rw [hs] at hd
    · exact ⟨hw.known d hd, hw.rows d hd⟩
    · obtain ⟨d₀, hd₀, rfl⟩ := Table.mem_modify.mp hd
      split
      · rw [(hm.keeps d₀).1, (hm.keeps d₀).2]
        exact ⟨hw.known d₀ hd₀, hw.rows d₀ hd₀⟩
      · exact ⟨hw.known d₀ hd₀, hw.rows d₀ hd₀⟩
    · rcases Table.mem_insertAll hd with hold | ⟨k, hk, -, hnew⟩
      · exact ⟨hw.known d hold, hw.rows d hold⟩
      · -- a broadcast materializes its rows, and has no explicit devices
        rw [hnew]
        refine ⟨hw.numbered pid p hp, fun hexplicit => ?_⟩
        have := hw.stage pid p hp hexplicit
        simp [hstage, Pass.isBroadcast] at this
  · intro j q hq
    rcases Pool.set_eq_some.mp hq with ⟨-, hnext⟩ | ⟨-, hold⟩
    · have hkey : q.notification = p.notification := hmoves.notification_eq hnext
      rw [hkey]
      refine ⟨hw.numbered pid p hp, fun l hl => ?_, fun hexplicit => ?_⟩
      · rcases hmoves.held hnext hl with hheld | ⟨hload, -⟩
        · exact hw.held pid p hp l hheld
        · obtain ⟨hmem, hid, hdevice⟩ := Pass.mem_loadDeliveries hload
          have hdid : l.device.id = l.delivery.deviceId := (Table.get?_eq_some.mp hdevice).2
          rw [hdid, ← hid]
          exact hw.rows l.delivery hmem
      · by_contra hbroadcast
        rcases hmoves.isBroadcast hnext (by simpa using hbroadcast) with hstage | ⟨hlisting, hnone⟩
        · rw [hw.stage pid p hp hexplicit] at hstage
          simp at hstage
        · have hfound := hlisted p hp hexplicit hlisting
          rw [hnone] at hfound
          simp at hfound
    · exact hw.passes j q hold

/-- A notification is created with the devices that its creator selected. -/
theorem OnTarget.creates {w w' : World} (hw : w.OnTarget) (es : List Event)
    {now : Instant} {applicationId : ℕ} {ids : List ℕ} {data : NotificationData}
    (hids : ∀ k ∈ ids, (w.db.devices.get? k).isSome)
    (hdb : w'.db = w.db.insertTargeted now applicationId ids data)
    (hpasses : w'.passes = w.passes)
    (hes : ∀ e ∈ es, e.keepsTargets = true ∧ e.isCall = false)
    (hhistory : w'.history = es ++ .created (w.db.notifications.seq + 1) ids :: w.history) :
    w'.OnTarget := by
  have hkeeps := fun e he => (hes e he).1
  -- the older notifications have other numbers
  have hold : ∀ n ≤ w.db.notifications.seq, ∀ k, Targeted w.history n k →
      Targeted w'.history n k := by
    intro n hn k hk
    rw [hhistory, targeted_append hkeeps]
    exact hk.created (by omega)
  have hfresh : ∀ k ∈ ids, Targeted w'.history (w.db.notifications.seq + 1) k := by
    intro k hk
    rw [hhistory, targeted_append hkeeps]
    intro _
    have hstands : standsFor k w.history = k := by
      refine standsFor_of_not_merged fun b hb => ?_
      have := hids k hk
      simp [(hw.gone k b hb).2] at this
    simpa [targets, standsFor, hstands] using hk
  have hexplicit : ∀ n ≤ w.db.notifications.seq,
      explicit n w'.history = explicit n w.history := by
    intro n hn
    rw [hhistory, explicit_append hkeeps]
    have : w.db.notifications.seq + 1 ≠ n := by omega
    simp [explicit, this]
  refine ⟨?_, ?_, ?_, ?_, ?_, ?_, ?_⟩
  · intro d hd
    rw [hdb] at hd ⊢
    rcases Table.mem_insertAll hd with hmem | ⟨k, -, -, hnew⟩
    · exact (hw.known d hmem).trans (Nat.le_succ _)
    · rw [hnew]
      exact le_rfl
  · intro pid p hp
    rw [hpasses] at hp
    rw [hdb]
    exact (hw.numbered pid p hp).trans (Nat.le_succ _)
  · intro a b he
    rw [hdb]
    rw [hhistory] at he
    rcases List.mem_append.mp he with hnew | hmem
    · have := (hes _ hnew).1
      simp [Event.keepsTargets] at this
    · exact hw.gone a b ((List.mem_cons.mp hmem).resolve_left (by simp))
  · intro d hd
    rw [hdb] at hd
    rcases Table.mem_insertAll hd with hmem | ⟨k, hk, -, hnew⟩
    · exact hold _ (hw.known d hmem) _ (hw.rows d hmem)
    · rw [hnew]
      exact hfresh k hk
  · intro pid p hp l hl
    rw [hpasses] at hp
    exact hold _ (hw.numbered pid p hp) _ (hw.held pid p hp l hl)
  · intro pid p hp hexp
    rw [hpasses] at hp
    rw [hexplicit _ (hw.numbered pid p hp)] at hexp
    exact hw.stage pid p hp hexp
  · rw [hhistory]
    refine confined_append hkeeps (fun m δ k token accepted he => ?_) hw.confined
    have := (hes _ he).2
    simp [Event.isCall] at this

/-- A device row is merged into another one, and its deliveries with it. -/
theorem OnTarget.merges {w w' : World} (hw : w.OnTarget) (es : List Event) {a b : Device}
    (ha : w.db.devices.get? a.id = some a) (hb : w.db.devices.get? b.id = some b)
    (hne : a.id ≠ b.id) (hgone : w'.db.devices.get? a.id = none)
    (hnone : ∀ k ≤ w.db.devices.seq, w.db.devices.get? k = none → w'.db.devices.get? k = none)
    (hdevices : w'.db.devices.seq = w.db.devices.seq)
    (hnotifications : w'.db.notifications.seq = w.db.notifications.seq)
    (hdeliveries : w'.db.deliveries = (w.db.mergeDeviceInto a.id b.id).deliveries)
    (hpasses : w'.passes = w.passes)
    (hes : ∀ e ∈ es, e.keepsTargets = true ∧ e.isCall = false)
    (hhistory : w'.history = es ++ .merged a.id b.id :: w.history) : w'.OnTarget := by
  have hkeeps := fun e he => (hes e he).1
  have hold : ∀ n k, Targeted w.history n k → Targeted w'.history n k := by
    intro n k hk
    rw [hhistory, targeted_append hkeeps]
    exact hk.merged
  have hself : ∀ d : Device, w.db.devices.get? d.id = some d → standsFor d.id w.history = d.id := by
    intro d hd
    refine standsFor_of_not_merged fun c hc => ?_
    rw [(hw.gone d.id c hc).2] at hd
    simp at hd
  have hexplicit : ∀ n, explicit n w'.history = explicit n w.history := by
    intro n
    rw [hhistory, explicit_append hkeeps]
    simp [explicit]
  have hrow : ∀ d ∈ w'.db.deliveries.rows, d.notificationId ≤ w.db.notifications.seq ∧
      Targeted w'.history d.notificationId d.deviceId := by
    intro d' hd'
    rw [hdeliveries] at hd'
    obtain ⟨d, hd, ⟨rfl, -⟩ | ⟨rfl, hsource⟩⟩ := mem_deliveries_mergeDeviceInto ha hd'
    · exact ⟨hw.known _ hd, hold _ _ (hw.rows _ hd)⟩
    · -- the row went from `a` to `b`, and so did the target
      refine ⟨hw.known d hd, ?_⟩
      rw [hhistory, targeted_append hkeeps]
      intro hexp
      have hrow := hw.rows d hd (by simpa [explicit] using hexp)
      rw [hsource, hself a ha] at hrow
      refine List.mem_map.mpr ⟨a.id, hrow, ?_⟩
      simp [standsFor, hself b hb, renamed, Ne.symm hne]
  refine ⟨?_, ?_, ?_, fun d hd => (hrow d hd).2, ?_, ?_, ?_⟩
  · intro d hd
    rw [hnotifications]
    exact (hrow d hd).1
  · intro pid p hp
    rw [hpasses] at hp
    rw [hnotifications]
    exact hw.numbered pid p hp
  · intro x y he
    rw [hdevices]
    rw [hhistory] at he
    rcases List.mem_append.mp he with hnew | hmem
    · have := (hes _ hnew).1
      simp [Event.keepsTargets] at this
    · rcases List.mem_cons.mp hmem with heq | hmem
      · obtain ⟨rfl, rfl⟩ := Event.merged.inj heq
        exact ⟨w.db.devices.bounded _ (Table.get?_eq_some.mp ha).1, hgone⟩
      · obtain ⟨hle, hx⟩ := hw.gone x y hmem
        exact ⟨hle, hnone x hle hx⟩
  · intro pid p hp l hl
    rw [hpasses] at hp
    exact hold _ _ (hw.held pid p hp l hl)
  · intro pid p hp hexp
    rw [hpasses] at hp
    rw [hexplicit] at hexp
    exact hw.stage pid p hp hexp
  · rw [hhistory]
    refine confined_append hkeeps (fun m δ k token accepted he => ?_) hw.confined
    have := (hes _ he).2
    simp [Event.isCall] at this

/-- An action that deletes deliveries at most, and selects no device. -/
theorem OnTarget.of_shrinks {w w' : World} (hw : w.OnTarget) (es : List Event)
    (hhistory : w'.history = es ++ w.history)
    (hes : ∀ e ∈ es, e.keepsTargets = true ∧ e.isCall = false)
    (hnotifications : w.db.notifications.seq ≤ w'.db.notifications.seq)
    (hdevices : w.db.devices.seq ≤ w'.db.devices.seq)
    (hgone : ∀ k ≤ w.db.devices.seq, w.db.devices.get? k = none → w'.db.devices.get? k = none)
    (hrows : ∀ d ∈ w'.db.deliveries.rows, d ∈ w.db.deliveries.rows)
    (hpasses : ∀ pid p, w'.passes pid = some p → w.passes pid = some p ∨
      p.stage = .entitlement ∧ p.notification.id ≤ w.db.notifications.seq) : w'.OnTarget := by
  refine hw.of_keeps es hhistory (fun e he => (hes e he).1) ?_ hnotifications hdevices hgone ?_ ?_
  · intro m δ k token accepted he
    have := (hes _ he).2
    simp [Event.isCall] at this
  · exact fun d hd => ⟨hw.known d (hrows d hd), hw.rows d (hrows d hd)⟩
  · intro pid p hp
    rcases hpasses pid p hp with hold | ⟨hstage, hle⟩
    · exact hw.passes pid p hold
    · exact ⟨hle, by simp [hstage, Pass.held], by simp [hstage, Pass.isBroadcast]⟩

/-- A request keeps the notifications on their targets. -/
theorem OnTarget.request {cfg : Settings} {w : World} (hw : w.OnTarget) (rid : ℕ) (r : Request) :
    (w.afterProcess rid (r.begin cfg w.clock w.db)).OnTarget := by
  have hbegins := Request.begin_cases cfg w.clock w.db r
  generalize r.begin cfg w.clock w.db = o at hbegins
  obtain ⟨hdevices, hnotifications⟩ := hbegins.seq_le
  have hgone := fun k hk => hbegins.get?_device_eq_none (k := k) hk
  have hshrinks : (∀ d ∈ o.db.deliveries.rows, d ∈ w.db.deliveries.rows) →
      (∀ e ∈ o.events, e.keepsTargets = true ∧ e.isCall = false) →
      (w.afterProcess rid o).OnTarget := fun hrows hes =>
    hw.of_shrinks o.events.reverse rfl (fun e he => hes e (List.mem_reverse.mp he))
      hnotifications hdevices hgone hrows
      fun pid p hp => Or.inl hp
  cases hbegins with
  | shrinks r o h hevents => exact hshrinks h.deliveries.rows (by simp [hevents])
  | hides r o p hp h hevents | broadcasts applicationId data hp o h hevents
  | adjusts user id values hp o h hevents =>
    exact hshrinks (fun d hd => by rwa [h] at hd) (by simp [hevents])
  | silences user deviceId values hp o howner h hevents =>
    exact hshrinks (fun d hd => by rwa [h] at hd)
      (by simp [hevents, Event.keepsTargets, Event.isCall])
  | creates r o applicationId ids data h hevents hids =>
    refine hw.creates (deliveriesAttached w.db
      (w.db.insertTargeted w.clock applicationId ids data)).reverse hids h rfl ?_ ?_
    · intro e he
      obtain ⟨d, -, rfl⟩ := List.mem_map.mp (List.mem_reverse.mp he)
      exact ⟨rfl, rfl⟩
    · simp [afterProcess, hevents]
  | upserts r o user data u hu h hevents hr =>
    cases hu with
    | rotated old hne hold howner hnone =>
      exact hshrinks (fun d hd => by rwa [h] at hd) (by simp [hevents])
    | created hnone => exact hshrinks (fun d hd => by rwa [h] at hd) (by simp [hevents])
    | refreshed d hd =>
      refine hshrinks (fun x hx => ?_) (by simp [hevents])
      rwa [h, Db.deliveries_refreshDevice] at hx
    | merged old clash hne hold howner hclash hforeign =>
      obtain ⟨hmem, -⟩ := selectExistingDevice_eq_some hold
      obtain ⟨hmem', -⟩ := selectExistingDevice_eq_some hclash
      have hid : clash.id ≠ old.id := id_ne_of_pushToken_ne hclash hold hne.symm
      have hrow : w.db.devices.get? old.id = some old := Table.get?_pk hmem
      have hrow' : w.db.devices.get? clash.id = some clash := Table.get?_pk hmem'
      refine hw.merges ((w.db.links.select (linkRevives w.db clash.id old.id)).map fun t =>
        .attached (.link t.id) (w.db.ownerOf old.id)).reverse hrow' hrow hid ?_ hgone
        (congrArg (fun db => db.devices.seq) h) (congrArg (fun db => db.notifications.seq) h)
        (congrArg (fun db => db.deliveries) h) rfl ?_ ?_
      · change o.db.devices.get? clash.id = none
        rw [h]
        change ((w.db.devices.delete fun d => d.id == clash.id).modify old.id
          (rotateDevice w.clock user data) (pk_rotateDevice w.clock user data)).get? clash.id = none
        rw [Table.get?_modify_of_ne _ _ _ hid, Table.get?_delete, hrow']
        simp [Option.filter]
      · intro e he
        obtain ⟨t, -, rfl⟩ := List.mem_map.mp (List.mem_reverse.mp he)
        exact ⟨rfl, rfl⟩
      · simp [afterProcess, hevents, mergeEvents]

/-- One action keeps the notifications on their targets. -/
theorem OnTarget.step {cfg : Settings} {w w' : World} {a : Action} (hw : w.OnTarget)
    (h : Steps cfg w a w') (hlisted : w.StillListed a) : w'.OnTarget := by
  cases h with
  | tick duration =>
    exact hw.of_shrinks [] rfl (by simp) le_rfl le_rfl (fun _ _ h => h) (fun _ h => h)
      fun _ _ hp => Or.inl hp
  | notClaimed pid task rowLocked htask hpid hnone =>
    exact hw.of_shrinks [] rfl (by simp) le_rfl le_rfl (fun _ _ h => h) (fun _ h => h)
      fun _ _ hp => Or.inl hp
  | claimed pid task n htask hpid hn hstatus =>
    refine hw.of_shrinks [_] rfl (by simp [Event.keepsTargets, Event.isCall]) le_rfl le_rfl
      (fun _ _ h => h) (fun _ h => h) fun i p hp => ?_
    rcases Pool.set_eq_some.mp hp with ⟨-, hnext⟩ | ⟨-, hold⟩
    · obtain rfl := Option.some.inj hnext
      exact Or.inr ⟨rfl, w.db.notifications.bounded n (Table.get?_eq_some.mp hn).1⟩
    · exact Or.inl hold
  | pass pid input p s hp hmoves => exact hw.pass hp hmoves hlisted
  | crash pid p hp =>
    refine hw.of_shrinks [] rfl (by simp) le_rfl le_rfl (fun _ _ h => h) (fun _ h => h)
      fun i q hq => ?_
    rcases Pool.set_eq_some.mp hq with ⟨-, hnext⟩ | ⟨-, hold⟩
    · simp at hnext
    · exact Or.inl hold
  | request rid r hrid => exact hw.request rid r
  | advance rid input p hp =>
    have hadvances := Process.advance_cases w.clock w.db input p
    obtain ⟨hdevices, -, hdeliveries, hnotifications⟩ := hadvances.frame
    refine hw.of_shrinks (p.advance w.clock w.db input).events.reverse rfl ?_
      hnotifications.ge (hdevices ▸ le_rfl) (fun k _ hk => ?_) hdeliveries.rows
      fun _ _ hp => Or.inl hp
    · intro e he
      rcases hadvances.events (List.mem_reverse.mp he) with
        ⟨id, source, rfl⟩ | ⟨id, found, d, rfl⟩ | ⟨id, found, rfl⟩ | ⟨l, owner, rfl⟩ <;>
        exact ⟨rfl, rfl⟩
    · change (p.advance w.clock w.db input).db.devices.get? k = none
      rwa [hdevices]

end World

/-! ### Runs -/

theorem World.Initial.onTarget {w : World} (hw : w.Initial)
    (hknown : ∀ d ∈ w.db.deliveries.rows, d.notificationId ≤ w.db.notifications.seq) :
    w.OnTarget where
  known := hknown
  numbered := by simp [hw.passes]
  gone := by simp [hw.history]
  rows := by simp [hw.history, Targeted, explicit]
  held := by simp [hw.passes]
  stage := by simp [hw.passes]
  confined := by
    rw [hw.history]
    trivial

/-- Every push of a notification created with explicit devices is for one of its targets, in
every run of the server in which its passes still find a delivery row. -/
theorem pushes_confined {cfg : Settings} {w₀ w : World} (h₀ : w₀.Initial)
    (hknown : ∀ d ∈ w₀.db.deliveries.rows, d.notificationId ≤ w₀.db.notifications.seq)
    (h : (server cfg).Reach World.StillListed w₀ w) : Confined w.history := by
  have hpres : (server cfg).Preserves World.StillListed World.OnTarget :=
    fun _ _ _ hw hok hs => hw.step (World.step_cases hs) hok
  exact (System.Reach.invariant hpres h (h₀.onTarget hknown)).confined

namespace Sample

def secondDevice : Device := { id := 2, userId := some 3, pushToken := "cccccccccccccccccccc" }

/-- A server without notifications, with two devices linked to its application. -/
def twoDevices : World where
  clock := 0
  db :=
    { applications := single application
      devices := ⟨[device, secondDevice], 2, by decide, by decide⟩
      links := ⟨[link, { link with id := 2, deviceId := 2 }], 2, by decide, by decide⟩ }

/-- The creator selects the first device and sends the notification. -/
def createAndSend : List Action :=
  [.request 1 (.create 1 1 [1] { title := "t", message := "m" }),
    .request 2 (.send (.user 1) [1]), .advance 2 {}, .advance 2 {}, .advance 2 {}]

end Sample

/-- The notification of the sample server goes to its selected device. -/
theorem sample_pushes_confined : ∃ w,
    (server .default).Reach World.StillListed Sample.twoDevices w ∧
    (∃ δ token, .called 1 δ 1 token true ∈ w.history) ∧ Confined w.history := by
  obtain ⟨w, hreach, hcall⟩ := System.exists_reach_of_guardedRun (server .default)
    World.StillListed Sample.twoDevices
    (Sample.createAndSend ++ Sample.toLoop 1 ⟨1, .client⟩ ++ [.pass 1 {}])
    (fun w => decide (.called 1 1 1 "aaaaaaaaaaaaaaaaaaaa" true ∈ w.history)) (by decide)
  exact ⟨w, hreach, ⟨_, _, of_decide_eq_true hcall⟩,
    pushes_confined ⟨rfl, rfl, rfl⟩ (by decide) hreach⟩

/-- The owner of the selected device deletes it before the send: the pass finds no delivery row,
and pushes to the other device. -/
theorem pushed_beyond_selection : ¬∀ (cfg : Settings) (w₀ w : World), w₀.Initial →
    (∀ d ∈ w₀.db.deliveries.rows, d.notificationId ≤ w₀.db.notifications.seq) →
    (server cfg).Reach (fun _ _ => True) w₀ w → Confined w.history := by
  intro hclaim
  obtain ⟨w, hreach, hhistory⟩ := System.exists_reach_of_guardedRun (server .default)
    (fun _ _ => True) Sample.twoDevices
    (Sample.createAndSend ++ .request 3 (.destroyDevice 2 1) :: .claim 1 ⟨1, .client⟩ false ::
      List.replicate 9 (.pass 1 {}))
    (fun w => decide (explicit 1 w.history.tail = true ∧ targets 1 w.history.tail = [1] ∧
      standsFor 2 w.history.tail = 2 ∧
      w.history.head? = some (.called 1 2 2 "cccccccccccccccccccc" true))) (by decide)
  obtain ⟨hexplicit, htargets, hstands, hhead⟩ := of_decide_eq_true hhistory
  have hconfined := hclaim .default _ w ⟨rfl, rfl, rfl⟩ (by decide) hreach
  rw [← List.cons_head?_tail hhead] at hconfined
  have := hconfined.1 hexplicit
  simp [htargets, hstands] at this

end PushIT
