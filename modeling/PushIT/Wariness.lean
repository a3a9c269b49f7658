import PushIT.Merging
import PushIT.Vanishing

/-!
# Sends among rotations

Runs that interleave sends and rotations: a pass works on deliveries and devices that a merge may
have moved or deleted since it loaded them.  What it still knows is weaker than the accuracy of an
undisturbed pass: of the rows that are left, a SENT one is SENT in its instance.

## Main definitions

* `World.Rotates`: the actions of these runs.
* `Pass.Wary`: what a pass knows; `World.Guarded`: every pass is exclusive and wary.

## Main results

* `World.Steps.rotate_cases`: what one action does.
* `Pass.Wary.moves`, `Pass.Wary.beside`: a pass stays wary along its own steps and along those of
  the other passes.
* `World.Guarded.step`: what one action preserves.
-/

namespace PushIT

open Relational Transition

/-! ### Runs -/

/-- The requests that may rotate a token. -/
def Request.isRotation : Request → Bool
  | .identify _ _ | .link _ _ _ => true
  | _ => false

/-- The send path with rotations, and the death of workers. -/
def World.Rotates (w : World) : Action → Prop
  | .tick _ | .claim _ _ _ | .pass _ _ | .crash _ => True
  | .request _ r => r.isSending = true ∨ r.isRotation = true
  | .advance rid _ => ∀ p ∈ w.processes rid, p.isSending = true ∨ p.isLink = true

instance (w : World) (a : Action) : Decidable (w.Rotates a) := by
  rcases a with _ | _ <;> unfold World.Rotates <;> infer_instance

/-- What an action that neither advances a pass nor upserts a device leaves alone. -/
structure World.Beside (w w' : World) : Prop where
  deliveries : w'.db.deliveries = w.db.deliveries
  devices : w'.db.devices = w.db.devices
  passes : ∀ pid p, w'.passes pid = some p → w.passes pid = some p ∨ p.stage = .entitlement
  history : ∃ es, w'.history = es ++ w.history ∧ ∀ e ∈ es, e.isCall = false

/-- What an upsert does. -/
def World.Upserts (w w' : World) : Prop :=
  ∃ user data u, Upserted w.clock w.db user data u ∧ w'.db = u.db ∧ w'.passes = w.passes ∧
    w'.history = u.events.reverse ++ w.history

/-- The links are written, or nothing is. -/
theorem Process.Advances.beside {now : Instant} {db : Db} {input : TaskInput} {p : Process}
    {o : Outcome} (h : Process.Advances now db input p o) (hp : p.isLink = true) :
    o.db.deliveries = db.deliveries ∧ o.db.devices = db.devices ∧
      o.db.notifications = db.notifications ∧ ∀ e ∈ o.events, e.isCall = false := by
  cases h with
  | moves q s hs => cases hs <;> simp [isLink] at hp
  | destroyed | unlinked => simp [isLink] at hp
  | linkKept => exact ⟨rfl, rfl, rfl, by simp⟩
  | linkActivated deviceId applicationId l hf hl hdevice =>
    exact ⟨rfl, rfl, rfl, by simp [Event.isCall]⟩
  | linkCreated deviceId applicationId hmk => exact ⟨rfl, rfl, rfl, by simp [Event.isCall]⟩

/-- An action of such a run is a step of a pass, an upsert, or neither. -/
theorem World.Steps.rotate_cases {cfg : Settings} {w w' : World} {a : Action}
    (h : Steps cfg w a w') (hs : w.Rotates a) :
    (∃ pid input p s, a = .pass pid input ∧ w.passes pid = some p ∧
      Pass.Moves cfg w.clock w.db p.notification p.stage s ∧ w' = w.afterPass pid s) ∨
    w.Beside w' ∨ w.Upserts w' := by
  have hsend : w.Sends a → (∃ pid input p s, a = .pass pid input ∧ w.passes pid = some p ∧
      Pass.Moves cfg w.clock w.db p.notification p.stage s ∧ w' = w.afterPass pid s) ∨
      w.Beside w' ∨ w.Upserts w' := fun hsends =>
    (h.send_cases hsends).imp_right fun hapart =>
      Or.inl ⟨hapart.deliveries, hapart.devices, hapart.passes, hapart.history⟩
  cases h with
  | tick duration => exact hsend trivial
  | notClaimed pid task rowLocked htask hpid hnone => exact hsend trivial
  | claimed pid task n htask hpid hn hstatus => exact hsend trivial
  | pass pid input p s hp hmoves => exact hsend trivial
  | crash pid p hp =>
    refine Or.inr (Or.inl ⟨rfl, rfl, fun j q hq => ?_, [], rfl, by simp⟩)
    rcases Pool.set_eq_some.mp hq with ⟨-, hnone⟩ | ⟨-, hq⟩
    · simp at hnone
    · exact Or.inl hq
  | request rid r hrid =>
    rcases hs with hr | hr
    · exact hsend (Or.inl hr)
    · cases r with
      | identify user data =>
        exact Or.inr (Or.inr ⟨user, data, _, upsert_cases w.clock w.db user data, rfl, rfl, rfl⟩)
      | link user data applicationId =>
        by_cases hactive : (w.db.applications.get? applicationId).any (·.isActive) = true
        · refine Or.inr (Or.inr ⟨user, data, _, upsert_cases w.clock w.db user data, ?_, rfl, ?_⟩) <;>
            simp [afterProcess, Request.begin, hactive]
        · refine Or.inr (Or.inl ⟨?_, ?_, fun _ _ hq => Or.inl hq, [], ?_, by simp⟩) <;>
            simp [afterProcess, Request.begin, hactive, Outcome.done]
      | _ => simp [Request.isRotation] at hr
  | advance rid input p hp =>
    rcases hs p hp with hsending | hlink
    · refine hsend fun q hq => ?_
      obtain rfl := Option.some.inj (hp.symm.trans hq)
      exact hsending
    · obtain ⟨hdeliveries, hdevices, -, hevents⟩ :=
        (Process.advance_cases w.clock w.db input p).beside hlink
      exact Or.inr (Or.inl ⟨hdeliveries, hdevices, fun _ _ hq => Or.inl hq, _, rfl,
        fun e he => hevents e (List.mem_reverse.mp he)⟩)

/-! ### What a pass knows -/

namespace Pass

/-- The deliveries a pass holds. -/
def due : Stage → List NotificationDelivery
  | .cancelling ds => ds
  | stage => (held stage).map (·.delivery)

/-- The deliveries whose rows a pass may still write, if its devices are left alone. -/
def sure : Stage → List NotificationDelivery
  | .settling f _ | .counting f _ _ | .invalidating f _ _ | .rereading f _ _ =>
    f.remaining.map (·.delivery)
  | stage => due stage

/-- The delivery whose push failed, before `refresh_from_db` has found its device. -/
def current : Stage → Option LoadedDelivery
  | .counting _ l _ | .invalidating _ l _ | .rereading _ l _ => some l
  | _ => none

/-- The deliveries that were not SENT when the pass decided about them. -/
def decided : Stage → List NotificationDelivery
  | .cancelling ds => ds
  | .marking _ l _ | .settling _ l | .counting _ l _ | .invalidating _ l _ | .rereading _ l _
  | .failing _ l _ => [l.delivery]
  | _ => []

/-- The loaded deliveries the loop has not turned to. -/
def upcoming : Stage → List LoadedDelivery
  | .refreshing ls | .linking _ ls => ls
  | .looping f | .marking f _ _ | .settling f _ | .counting f _ _ | .invalidating f _ _
  | .rereading f _ _ | .failing f _ _ => f.remaining
  | _ => []

/-- The row of the instance is SENT only when the instance is. -/
def Informed (db : Db) (d : NotificationDelivery) : Prop :=
  ∀ r, db.deliveries.get? d.id = some r → r.status = .sent → d.status = .sent

/-- What a pass knows of the rows it loaded while devices are merged: what is left of them belongs
to its notification, is SENT only when its instance is, and stays on its device as long as that
device exists. -/
structure Wary (db : Db) (p : Pass) : Prop where
  nodup : ((due p.stage).map (·.id)).Nodup
  bounded : ∀ d ∈ due p.stage, d.id ≤ db.deliveries.seq
  own : ∀ d ∈ due p.stage, ∀ r, db.deliveries.get? d.id = some r →
    r.notificationId = p.notification.id
  known : ∀ d ∈ sure p.stage, Informed db d
  doubted : ∀ l, current p.stage = some l →
    Informed db l.delivery ∨ db.devices.get? l.device.id = none
  unsent : ∀ d ∈ decided p.stage, d.status ≠ .sent
  deviceBounded : ∀ l ∈ held p.stage, l.device.id ≤ db.devices.seq
  device : ∀ l ∈ upcoming p.stage, (db.devices.get? l.device.id).isSome →
    ∃ r, db.deliveries.get? l.delivery.id = some r ∧ r.deviceId = l.device.id

variable {cfg : Settings} {now : Instant} {db db' : Db} {n : Notification} {p p' q : Pass}
  {s : PassStep}

theorem sure_subset_due (stage : Stage) : ∀ d ∈ sure stage, d ∈ due stage := by
  intro d hd
  cases stage with
  | settling f l | counting f l error | invalidating f l error | rereading f l error =>
    exact List.mem_cons_of_mem _ hd
  | _ => exact hd

theorem current_mem_held {stage : Stage} {l : LoadedDelivery} (h : current stage = some l) :
    l ∈ held stage := by
  cases stage with
  | counting f x error | invalidating f x error | rereading f x error =>
    obtain rfl := Option.some.inj h
    exact List.mem_cons_self
  | _ => simp [current] at h

theorem upcoming_subset_held (stage : Stage) : ∀ l ∈ upcoming stage, l ∈ held stage := by
  intro l hl
  cases stage with
  | marking | settling | counting | invalidating | rereading | failing =>
    exact List.mem_cons_of_mem _ hl
  | _ => exact hl

theorem upcoming_subset_sure (stage : Stage) :
    ∀ l ∈ upcoming stage, l.delivery ∈ sure stage := by
  intro l hl
  cases stage with
  | settling | counting | invalidating | rereading | refreshing | linking | looping =>
    exact List.mem_map_of_mem hl
  | marking | failing => exact List.mem_map_of_mem (List.mem_cons_of_mem _ hl)
  | _ => simp [upcoming] at hl

theorem held_subset_due {stage : Stage} {l : LoadedDelivery} (h : l ∈ held stage) :
    l.delivery ∈ due stage := by
  cases stage with
  | cancelling ds => simp [held] at h
  | _ => exact List.mem_map_of_mem h

/-- The pass is as wary after rows were moved, deleted or added, as long as none of its rows turned
SENT. -/
theorem Wary.of_rows (hp : p.Wary db) (hseq : db.deliveries.seq ≤ db'.deliveries.seq)
    (hdevices : db.devices.seq ≤ db'.devices.seq)
    (hrow : ∀ d ∈ due p.stage, ∀ r', db'.deliveries.get? d.id = some r' →
      ∃ r, db.deliveries.get? d.id = some r ∧ r'.notificationId = r.notificationId ∧
        (r'.status = .sent → r.status = .sent))
    (hdevice : ∀ k ≤ db.devices.seq, (db'.devices.get? k).isSome →
      (db.devices.get? k).isSome ∧ ∀ id r, db.deliveries.get? id = some r → r.deviceId = k →
        ∃ r', db'.deliveries.get? id = some r' ∧ r'.deviceId = k) : p.Wary db' where
  nodup := hp.nodup
  bounded := fun d hd => (hp.bounded d hd).trans hseq
  own := by
    intro d hd r' hr'
    obtain ⟨r, hr, hnotification, -⟩ := hrow d hd r' hr'
    exact hnotification.trans (hp.own d hd r hr)
  known := by
    intro d hd r' hr' hsent
    obtain ⟨r, hr, -, hstatus⟩ := hrow d (sure_subset_due _ d hd) r' hr'
    exact hp.known d hd r hr (hstatus hsent)
  doubted := by
    intro l hl
    have hheld := current_mem_held hl
    rcases hp.doubted l hl with hinformed | hgone
    · left
      intro r' hr' hsent
      obtain ⟨r, hr, -, hstatus⟩ := hrow _ (held_subset_due hheld) r' hr'
      exact hinformed r hr (hstatus hsent)
    · right
      by_contra hne
      have hsome := (hdevice _ (hp.deviceBounded l hheld) (Option.isSome_iff_ne_none.mpr hne)).1
      simp [hgone] at hsome
  unsent := hp.unsent
  deviceBounded := fun l hl => (hp.deviceBounded l hl).trans hdevices
  device := by
    intro l hl hsome
    obtain ⟨hbefore, hrows⟩ :=
      hdevice _ (hp.deviceBounded l (upcoming_subset_held _ l hl)) hsome
    obtain ⟨r, hr, hid⟩ := hp.device l hl hbefore
    exact hrows _ r hr hid

theorem Wary.of_eq (hp : p.Wary db) (hdeliveries : db'.deliveries = db.deliveries)
    (hdevices : db'.devices = db.devices) : p.Wary db' := by
  refine hp.of_rows (by rw [hdeliveries]) (by rw [hdevices]) (fun d _ r' hr' => ?_)
    fun k _ hk => ⟨by rwa [hdevices] at hk, fun id r hr hid => ⟨r, by rw [hdeliveries, hr], hid⟩⟩
  rw [hdeliveries] at hr'
  exact ⟨r', hr', rfl, id⟩

/-- A pass that starts knows nothing. -/
theorem wary_start (db : Db) (n : Notification) : Wary db { notification := n } := by
  refine ⟨?_, ?_, ?_, ?_, ?_, ?_, ?_, ?_⟩ <;> simp [due, sure, current, decided, upcoming, held]

/-! ### One step of the pass itself -/

/-- A step that writes no row. -/
theorem Wary.mono (hp : p.Wary db) (stage : Stage) (hdue : (due stage).Sublist (due p.stage))
    (hheld : ∀ l ∈ held stage, l ∈ held p.stage)
    (hupcoming : ∀ l ∈ upcoming stage, l ∈ upcoming p.stage)
    (hknown : ∀ d ∈ sure stage, Informed db d)
    (hdoubted : ∀ l, current stage = some l →
      Informed db l.delivery ∨ db.devices.get? l.device.id = none)
    (hunsent : ∀ d ∈ decided stage, d.status ≠ .sent) : Wary db ⟨p.notification, stage⟩ where
  nodup := hp.nodup.sublist (hdue.map _)
  bounded := fun d hd => hp.bounded d (hdue.subset hd)
  own := fun d hd => hp.own d (hdue.subset hd)
  known := hknown
  doubted := hdoubted
  unsent := hunsent
  deviceBounded := fun l hl => hp.deviceBounded l (hheld l hl)
  device := fun l hl => hp.device l (hupcoming l hl)

/-- A step that writes the row of the delivery `e`, with which the pass is then done. -/
theorem Wary.written (hp : p.Wary db) (stage : Stage) {e : NotificationDelivery}
    {f : NotificationDelivery → NotificationDelivery} {hf : ∀ d, pk (f d) = pk d}
    (hkeep : ∀ r, (f r).notificationId = r.notificationId ∧ (f r).deviceId = r.deviceId)
    (hdue : (due stage).Sublist (due p.stage)) (hheld : ∀ l ∈ held stage, l ∈ held p.stage)
    (hupcoming : ∀ l ∈ upcoming stage, l ∈ upcoming p.stage)
    (hknown : ∀ d ∈ sure stage, d ∈ sure p.stage ∧ d.id ≠ e.id) (hcurrent : current stage = none)
    (hunsent : ∀ d ∈ decided stage, d.status ≠ .sent) :
    Wary (withDelivery db e.id f hf) ⟨p.notification, stage⟩ where
  nodup := hp.nodup.sublist (hdue.map _)
  bounded := fun d hd => hp.bounded d (hdue.subset hd)
  own := by
    intro d hd r' hr'
    simp only [withDelivery, Table.get?_modify, Option.map_eq_some_iff] at hr'
    obtain ⟨r, hr, rfl⟩ := hr'
    have hown := hp.own d (hdue.subset hd) r hr
    split
    · rw [(hkeep r).1, hown]
    · exact hown
  known := by
    intro d hd r hr hsent
    obtain ⟨hmem, hne⟩ := hknown d hd
    exact hp.known d hmem r ((Table.get?_modify_of_ne db.deliveries f hf hne).symm.trans hr) hsent
  doubted := by simp [hcurrent]
  unsent := hunsent
  deviceBounded := fun l hl => hp.deviceBounded l (hheld l hl)
  device := by
    intro l hl hsome
    obtain ⟨r, hr, hid⟩ := hp.device l (hupcoming l hl) hsome
    refine ⟨if pk r = e.id then f r else r, ?_, ?_⟩
    · simp only [withDelivery, Table.get?_modify, hr, Option.map_some]
    · split
      · rw [(hkeep r).2, hid]
      · exact hid

/-- A device row is rewritten. -/
theorem Wary.withDevice (hp : p.Wary db) (k : ℕ) (f : Device → Device)
    (hf : ∀ d, pk (f d) = pk d) : p.Wary (withDevice db k f hf) := by
  refine hp.of_rows le_rfl le_rfl (fun d _ r hr => ⟨r, hr, rfl, id⟩) fun j _ hj => ⟨?_, ?_⟩
  · change ((db.devices.modify k f hf).get? j).isSome at hj
    rwa [Table.get?_modify, Option.isSome_map] at hj
  · exact fun id r hr hid => ⟨r, hr, hid⟩

/-- Freshly loaded rows. -/
theorem wary_load {ls : List LoadedDelivery} (h : loadDeliveries db n.id = ls) :
    Wary db ⟨n, .refreshing ls⟩ := by
  subst h
  have hrow : ∀ d ∈ (loadDeliveries db n.id).map (·.delivery),
      d ∈ db.deliveries.rows ∧ d.notificationId = n.id := by
    intro d hd
    obtain ⟨l, hl, rfl⟩ := List.mem_map.mp hd
    obtain ⟨hmem, hid, -⟩ := mem_loadDeliveries hl
    exact ⟨hmem, hid⟩
  have hself : ∀ d ∈ (loadDeliveries db n.id).map (·.delivery), ∀ r,
      db.deliveries.get? d.id = some r → r = d := fun d hd r hr =>
    Option.some.inj (hr.symm.trans (Table.get?_pk (hrow d hd).1))
  refine ⟨?_, ?_, ?_, ?_, by simp [current], by simp [decided], ?_, ?_⟩
  · simp only [due, held, List.map_map]
    exact nodup_loadDeliveries db n.id
  · exact fun d hd => db.deliveries.bounded d (hrow d hd).1
  · intro d hd r hr
    rw [hself d hd r hr]
    exact (hrow d hd).2
  · intro d hd r hr hsent
    rwa [hself d hd r hr] at hsent
  · intro l hl
    obtain ⟨-, -, hdevice⟩ := mem_loadDeliveries hl
    exact db.devices.bounded _ (Table.get?_eq_some.mp hdevice).1
  · intro l hl _
    obtain ⟨hmem, -, hdevice⟩ := mem_loadDeliveries hl
    exact ⟨l.delivery, Table.get?_pk hmem, (Table.get?_eq_some.mp hdevice).2.symm⟩

/-- A pass stays wary along its own steps. -/
theorem Wary.moves (hp : p.Wary db) (h : Moves cfg now db p.notification p.stage s)
    (hnext : s.next = some p') : p'.Wary s.db := by
  obtain ⟨n, stage⟩ := p
  -- the ids of the deliveries behind the first one differ from its id
  have hne : ∀ {e : NotificationDelivery} {ds : List NotificationDelivery},
      due stage = e :: ds → ∀ d ∈ ds, d.id ≠ e.id := by
    intro e ds hdue d hd heq
    have hnodup := hp.nodup
    rw [hdue, List.map_cons, List.nodup_cons] at hnodup
    exact hnodup.1 (heq ▸ List.mem_map_of_mem hd)
  cases h with
  | lapsed =>
    obtain rfl := Option.some.inj hnext
    have hrow : ∀ d ∈ db.deliveries.select (fun d => d.notificationId == n.id &&
        !decide (d.status = .sent)), d ∈ db.deliveries.rows ∧ d.notificationId = n.id ∧
          d.status ≠ .sent := by
      intro d hd
      obtain ⟨hmem, hd⟩ := Table.mem_select.mp hd
      simp only [Bool.and_eq_true, beq_iff_eq, Bool.not_eq_true', decide_eq_false_iff_not] at hd
      exact ⟨hmem, hd⟩
    refine ⟨?_, fun d hd => db.deliveries.bounded d (hrow d hd).1, ?_, ?_, by simp [current],
      fun d hd => (hrow d hd).2.2, by simp [held], by simp [upcoming]⟩
    · rw [List.Nodup, List.pairwise_map]
      exact db.deliveries.pairwise_pk_ne.filter _
    · intro d hd r hr
      obtain rfl := Option.some.inj (hr.symm.trans (Table.get?_pk (hrow d hd).1))
      exact (hrow _ hd).2.1
    · intro d hd r hr hsent
      obtain rfl := Option.some.inj (hr.symm.trans (Table.get?_pk (hrow d hd).1))
      exact hsent
  | lapsedCancelled d ds row hrow =>
    obtain rfl := Option.some.inj hnext
    exact hp.written (.cancelling ds) (fun r => ⟨rfl, rfl⟩) (List.sublist_cons_self d ds)
      (by simp [held]) (by simp [upcoming])
      (fun e he => ⟨List.mem_cons_of_mem d he, hne rfl e he⟩) rfl
      fun e he => hp.unsent e (List.mem_cons_of_mem d he)
  | listed l ls h =>
    obtain rfl := Option.some.inj hnext
    exact wary_load h
  | relisted l ls h =>
    obtain rfl := Option.some.inj hnext
    exact wary_load h
  | refreshed ls a ha | linked active ls =>
    obtain rfl := Option.some.inj hnext
    exact hp.mono _ (List.Sublist.refl _) (fun _ h => h) (fun _ h => h) hp.known (by simp [current])
      (by simp [decided])
  | skipped f l ls h hd | waited f l ls h hd | exhausted f l ls h hd =>
    obtain rfl := Option.some.inj hnext
    have hsub : ∀ x ∈ ls, x ∈ f.remaining := fun x hx => h ▸ List.mem_cons_of_mem l hx
    refine hp.mono _ ?_ hsub hsub (fun d hd => hp.known d ?_) (by simp [current]) (by simp [decided])
    · simp [due, held, LoopFrame.count, LoopFrame.rest, h]
    · simp only [sure, due, held, LoopFrame.count, LoopFrame.rest, h, List.map_cons] at hd ⊢
      exact List.mem_cons_of_mem _ hd
  | cancelled f l ls reason row h hd hrow | deferred f l ls quietPeriodEnd row h hd hrow =>
    obtain rfl := Option.some.inj hnext
    have hsub : ∀ x ∈ ls, x ∈ f.remaining := fun x hx => h ▸ List.mem_cons_of_mem l hx
    have hdue : due (.looping f) = l.delivery :: ls.map (·.delivery) := by simp [due, held, h]
    refine hp.written _ (fun r => ⟨rfl, rfl⟩) ?_ hsub hsub (fun d hd => ⟨?_, hne hdue d hd⟩) rfl
      (by simp [decided])
    · rw [hdue]
      exact List.sublist_cons_self _ _
    · change d ∈ due (.looping f)
      rw [hdue]
      exact List.mem_cons_of_mem _ hd
  | accepted f l ls m h hd =>
    obtain rfl := Option.some.inj hnext
    have hheld : held (.looping f) = l :: ls := h
    have hsub : ∀ x ∈ ls, x ∈ f.remaining := fun x hx => h ▸ List.mem_cons_of_mem l hx
    refine hp.mono (.marking (f.rest ls) l m) ?_ (fun x hx => hheld ▸ hx) hsub (fun d hd => ?_)
      (by simp [current]) ?_
    · simp [due, held, h, LoopFrame.rest]
    · refine hp.known d ?_
      simpa [sure, due, held, h, LoopFrame.rest] using hd
    · intro d hmem
      obtain rfl := List.mem_singleton.mp hmem
      exact not_sent_of_decision (by rw [hd]; simp)
  | refused f l ls error h hd =>
    obtain rfl := Option.some.inj hnext
    have hheld : held (.looping f) = l :: ls := h
    have hsub : ∀ x ∈ ls, x ∈ f.remaining := fun x hx => h ▸ List.mem_cons_of_mem l hx
    refine hp.mono (.counting (f.rest ls) l error) ?_ (fun x hx => hheld ▸ hx) hsub
      (fun d hd => ?_) ?_ ?_
    · simp [due, held, h, LoopFrame.rest]
    · refine hp.known d ?_
      simp only [sure, due, held, h, LoopFrame.rest, List.map_cons] at hd ⊢
      exact List.mem_cons_of_mem _ hd
    · rintro x ⟨⟩
      refine Or.inl (hp.known _ ?_)
      simp [sure, due, held, h]
    · intro d hmem
      obtain rfl := List.mem_singleton.mp hmem
      exact not_sent_of_decision (by rw [hd]; simp)
  | sentToSettle f l m row hcount hrow =>
    obtain rfl := Option.some.inj hnext
    exact hp.written (.settling f l) (fun r => ⟨rfl, rfl⟩) (List.Sublist.refl _) (fun _ h => h)
      (fun _ h => h) (fun d hd => ⟨List.mem_cons_of_mem _ hd, hne rfl d hd⟩) rfl hp.unsent
  | sent f l m row hcount hrow =>
    obtain rfl := Option.some.inj hnext
    exact hp.written (.looping (f.count .addSent)) (fun r => ⟨rfl, rfl⟩)
      (List.sublist_cons_self _ _) (fun _ h => List.mem_cons_of_mem _ h) (fun _ h => h)
      (fun d hd => ⟨List.mem_cons_of_mem _ hd, hne rfl d hd⟩) rfl (by simp [decided])
  | notSent f l m hgone =>
    obtain rfl := Option.some.inj hnext
    refine hp.mono (.counting f l saveFailed) (List.Sublist.refl _) (fun _ h => h) (fun _ h => h)
      (fun d hd => hp.known d (List.mem_cons_of_mem _ hd)) ?_ hp.unsent
    rintro x ⟨⟩
    exact Or.inl (hp.known _ List.mem_cons_self)
  | settled f l row hrow =>
    obtain rfl := Option.some.inj hnext
    exact (hp.mono (.looping (f.count .addSent)) (List.sublist_cons_self _ _)
      (fun _ h => List.mem_cons_of_mem _ h) (fun _ h => h) hp.known (by simp [current])
      (by simp [decided])).withDevice _ _ _
  | notSettled f l hgone =>
    -- the row may be SENT on another device, but `refresh_from_db` will not find this one
    obtain rfl := Option.some.inj hnext
    refine hp.mono (.counting f l saveFailed) (List.Sublist.refl _) (fun _ h => h) (fun _ h => h)
      hp.known ?_ hp.unsent
    rintro x ⟨⟩
    exact Or.inr hgone
  | countedInvalid f l error he =>
    obtain rfl := Option.some.inj hnext
    exact (hp.mono (.invalidating f l error) (List.Sublist.refl _) (fun _ h => h) (fun _ h => h)
      hp.known hp.doubted hp.unsent).withDevice _ _ _
  | counted f l error he =>
    obtain rfl := Option.some.inj hnext
    exact (hp.mono (.rereading f l error) (List.Sublist.refl _) (fun _ h => h) (fun _ h => h)
      hp.known hp.doubted hp.unsent).withDevice _ _ _
  | invalidated f l error row hrow =>
    obtain rfl := Option.some.inj hnext
    exact (hp.mono (.rereading f l error) (List.Sublist.refl _) (fun _ h => h) (fun _ h => h)
      hp.known hp.doubted hp.unsent).withDevice _ _ _
  | reread f l error row hrow =>
    obtain rfl := Option.some.inj hnext
    refine hp.mono (.failing f l error) (List.Sublist.refl _) (fun _ h => h) (fun _ h => h)
      (fun d hd => ?_) (by simp [current]) hp.unsent
    rcases List.mem_cons.mp hd with rfl | hd
    · exact (hp.doubted l rfl).resolve_right (by simp [hrow])
    · exact hp.known d hd
  | failed f l error row hrow =>
    obtain rfl := Option.some.inj hnext
    exact hp.written (.looping (f.count .addFailed)) (fun r => ⟨rfl, rfl⟩)
      (List.sublist_cons_self _ _) (fun _ h => List.mem_cons_of_mem _ h) (fun _ h => h)
      (fun d hd => ⟨List.mem_cons_of_mem _ hd, hne rfl d hd⟩) rfl (by simp [decided])
  | lapsedClosed | lapsedGone | postponed | notMaterialized | applicationGone | deliveryGone
  | notInvalidated | notReread | notFailed | closed => simp [ended] at hnext
  | _ =>
    -- the stages without delivery instances
    obtain rfl := Option.some.inj hnext
    refine ⟨?_, ?_, ?_, ?_, ?_, ?_, ?_, ?_⟩ <;> simp [due, sure, current, decided, upcoming, held]

end Pass

/-! ### Upserts -/

namespace Upserted

variable {now : Instant} {db : Db} {user : ℕ} {data : DeviceData} {u : Upsert}

/-- An upsert leaves these alone, but for the deliveries that a merge moves or deletes. -/
theorem tables (hu : Upserted now db user data u) :
    u.db.notifications = db.notifications ∧ u.db.deliveries.seq = db.deliveries.seq ∧
      ∀ e ∈ u.events, e.isCall = false := by
  cases hu with
  | rotated old hne hold howner hnone => exact ⟨rfl, rfl, by simp⟩
  | merged old clash hne hold howner hclash hforeign =>
    refine ⟨rfl, rfl, fun e he => ?_⟩
    rcases List.mem_cons.mp he with rfl | he
    · rfl
    · obtain ⟨t, -, rfl⟩ := List.mem_map.mp he
      rfl
  | refreshed d hd => simp
  | created hnone => exact ⟨rfl, rfl, by simp⟩

/-- The device rows before and after. -/
theorem isSome_devices (hu : Upserted now db user data u) {k : ℕ} (hk : k ≤ db.devices.seq)
    (hsome : (u.db.devices.get? k).isSome) : (db.devices.get? k).isSome := by
  obtain ⟨d', hd'⟩ := Option.isSome_iff_exists.mp hsome
  obtain ⟨hmem, hid⟩ := Table.get?_eq_some.mp hd'
  rcases hu.device_cases hmem with ⟨hold, -⟩ | ⟨hwritten, -⟩
  · rw [show db.devices.get? k = some d' from Table.get?_eq_some.mpr ⟨hold, hid⟩]
    rfl
  · -- the device that is written exists, or has a new key
    rcases hu.deviceId_cases with ⟨d, hd, hdid⟩ | hnew
    · have hget : db.devices.get? k = some d :=
        Table.get?_eq_some.mpr ⟨hd, hdid.trans (hwritten.symm.trans hid)⟩
      rw [hget]
      rfl
    · have hkey : d'.id = k := hid
      omega

/-- The deliveries of a device that is still there stay as they are. -/
theorem mem_deliveries (hu : Upserted now db user data u) {d : NotificationDelivery}
    (hd : d ∈ db.deliveries.rows) (hsome : (u.db.devices.get? d.deviceId).isSome) :
    d ∈ u.db.deliveries.rows := by
  cases hu with
  | rotated old hne hold howner hnone => exact hd
  | merged old clash hne hold howner hclash hforeign =>
    obtain ⟨hmem, -⟩ := selectExistingDevice_eq_some hclash
    have hdistinct : clash.id ≠ old.id := id_ne_of_pushToken_ne hclash hold hne.symm
    refine (mem_deliveries_merged_iff (Table.get?_pk hmem) hdistinct).mpr
      ⟨d, hd, Or.inl ⟨rfl, fun heq => ?_⟩⟩
    obtain ⟨e, he⟩ := Option.isSome_iff_exists.mp hsome
    obtain ⟨hemem, heid⟩ := Table.get?_eq_some.mp he
    obtain ⟨e', -, hnot, rfl⟩ := mem_devices_rotated_iff.mp hemem
    rw [heq] at heid
    split at heid
    · exact hnot heid
    · exact hnot heid
  | refreshed r hr =>
    change d ∈ (db.refreshDevice now user data r).deliveries.rows
    rwa [Db.deliveries_refreshDevice]
  | created hnone => exact hd

/-- A delivery after an upsert is one before it, and on another device only when it moved to a
device without a delivery of its notification. -/
theorem delivery_origin (hu : Upserted now db user data u) {d' : NotificationDelivery}
    (hd' : d' ∈ u.db.deliveries.rows) :
    d' ∈ db.deliveries.rows ∨
      (db.devices.get? d'.deviceId).isSome ∧ ¬db.HasDelivery d'.deviceId d'.notificationId := by
  cases hu with
  | rotated old hne hold howner hnone => exact Or.inl hd'
  | merged old clash hne hold howner hclash hforeign =>
    obtain ⟨hmem, -⟩ := selectExistingDevice_eq_some hclash
    obtain ⟨hmem', -⟩ := selectExistingDevice_eq_some hold
    have hdistinct : clash.id ≠ old.id := id_ne_of_pushToken_ne hclash hold hne.symm
    obtain ⟨d, hd, ⟨rfl, -⟩ | ⟨rfl, hmoves⟩⟩ :=
      (mem_deliveries_merged_iff (Table.get?_pk hmem) hdistinct).mp hd'
    · exact Or.inl hd
    · refine Or.inr ⟨?_, ?_⟩
      · rw [show db.devices.get? old.id = some old from Table.get?_pk hmem']
        rfl
      · rintro ⟨t, ht, hdevice, hnotification⟩
        exact (deliveryMoves_eq_true.mp hmoves).2 t ht hdevice hnotification
  | refreshed r hr =>
    change d' ∈ (db.refreshDevice now user data r).deliveries.rows at hd'
    rw [Db.deliveries_refreshDevice] at hd'
    exact Or.inl hd'
  | created hnone => exact Or.inl hd'

end Upserted

/-! ### Guarded worlds -/

/-- The passes are exclusive and wary. -/
structure World.Guarded (w : World) : Prop extends w.Claimed where
  wary : ∀ pid p, w.passes pid = some p → p.Wary w.db

theorem World.Initial.guarded {w : World} (hw : w.Initial) : w.Guarded :=
  ⟨hw.claimed, by simp [hw.passes]⟩

/-- These actions leave the rows of running passes alone, but for the watchdog. -/
theorem World.Rotates.claimsSpared {cfg : Settings} {w : World} {a : Action} (hw : w.Claimed)
    (hs : w.Rotates a) (hspares : w.WatchdogSpares a) : w.ClaimsSpared cfg a := by
  have hsend : w.Sends a → w.ClaimsSpared cfg a := fun hsends =>
    (hsends.undisturbed hw hspares).leavesPasses.claimsSpared
  have hsame : ∀ o : Outcome, o.db.notifications = w.db.notifications → w.SparesClaims o :=
    fun o ho pid p hp => ho ▸ hw.row pid p hp
  cases a with
  | request rid r =>
    rcases hs with hr | hr
    · exact hsend (Or.inl hr)
    · refine hsame _ ?_
      cases r with
      | identify user data => exact (upsert_cases w.clock w.db user data).tables.1
      | link user data applicationId =>
        by_cases hactive : (w.db.applications.get? applicationId).any (·.isActive) = true
        · simpa [Request.begin, hactive] using (upsert_cases w.clock w.db user data).tables.1
        · simp [Request.begin, hactive, Outcome.done]
      | _ => simp [Request.isRotation] at hr
  | advance rid input =>
    intro p hp
    rcases hs p hp with hsending | hlink
    · refine hsend (fun q hq => ?_) p hp
      obtain rfl := Option.some.inj (hp.symm.trans hq)
      exact hsending
    · exact hsame _ ((Process.advance_cases w.clock w.db input p).beside hlink).2.2.1
  | _ => trivial

namespace Pass

variable {cfg : Settings} {now : Instant} {db : Db} {p q : Pass} {s : PassStep}

theorem Moves.Marks.mem_due {stage : Stage} {d : NotificationDelivery}
    {f : NotificationDelivery → NotificationDelivery} (h : Marks cfg now stage d f) :
    d ∈ due stage := by
  cases h with
  | cancelled f l ls reason h hd | deferred f l ls quietPeriodEnd h hd => simp [due, Pass.held, h]
  | lapsed d ds => exact List.mem_cons_self
  | _ => simp [due, Pass.held]

/-- A marker leaves a row with its notification and on its device. -/
theorem Moves.Marks.keeps_ite {stage : Stage} {d : NotificationDelivery}
    {f : NotificationDelivery → NotificationDelivery} (h : Marks cfg now stage d f)
    (r : NotificationDelivery) :
    (if pk r = d.id then f r else r).notificationId = r.notificationId ∧
      (if pk r = d.id then f r else r).deviceId = r.deviceId := by
  split
  · exact h.keeps r
  · exact ⟨rfl, rfl⟩

/-- The devices a pass creates deliveries for have none yet. -/
theorem not_hasDelivery_of_missing {notificationId k : ℕ} {ids : List ℕ}
    (h : k ∈ missingDevices db notificationId ids) :
    k ∈ ids ∧ ¬db.HasDelivery k notificationId := by
  obtain ⟨hlisted, hmissing⟩ := List.mem_filter.mp h
  refine ⟨hlisted, ?_⟩
  rintro ⟨d, hd, hdevice, hnotification⟩
  have hany : (db.deliveries.rows.any fun d =>
      d.notificationId == notificationId && d.deviceId == k) = true :=
    List.any_eq_true.mpr ⟨d, hd, by simp [hdevice, hnotification]⟩
  simp [hany] at hmissing

/-- A delivery row after a step: it was there, a marker wrote it, or it is new. -/
theorem Moves.delivery_cases {n : Notification} {stage : Stage} (h : Moves cfg now db n stage s)
    {k : ℕ} {r' : NotificationDelivery} (hr' : s.db.deliveries.get? k = some r') :
    db.deliveries.get? k = some r' ∨
      (∃ e f r, Marks cfg now stage e f ∧ e.id = k ∧ db.deliveries.get? k = some r ∧ r' = f r) ∨
      db.deliveries.seq < k ∧ r'.notificationId = n.id ∧
        (db.devices.get? r'.deviceId).isSome ∧ ¬db.HasDelivery r'.deviceId n.id := by
  rcases h.deliveries with hs | ⟨e, f, hm, hs⟩ | ⟨ids, rfl, hs⟩
  · exact Or.inl (hs ▸ hr')
  · rw [hs, Table.get?_modify, Option.map_eq_some_iff] at hr'
    obtain ⟨r, hr, rfl⟩ := hr'
    by_cases hid : pk r = e.id
    · rw [if_pos hid]
      exact Or.inr (Or.inl ⟨e, f, r, hm, hid.symm.trans (Table.get?_eq_some.mp hr).2, hr, rfl⟩)
    · rw [if_neg hid]
      exact Or.inl hr
  · cases h with
    | notMaterialized _ hnot => exact Or.inl hr'
    | materialized _ hn hdevices =>
      obtain ⟨hmem, rfl⟩ := Table.get?_eq_some.mp hr'
      rcases Table.mem_insertAll hmem with hold | ⟨a, ha, hlt, hnew⟩
      · exact Or.inl (Table.get?_pk hold)
      · obtain ⟨hlisted, hnone⟩ := not_hasDelivery_of_missing ha
        refine Or.inr (Or.inr ⟨hlt, by rw [hnew]; rfl, ?_, ?_⟩) <;> rw [hnew]
        · exact hdevices a hlisted
        · exact hnone

/-- A pass deletes no delivery row, and leaves each on its device. -/
theorem Moves.delivery_kept {n : Notification} {stage : Stage} (h : Moves cfg now db n stage s)
    {k : ℕ} {r : NotificationDelivery} (hr : db.deliveries.get? k = some r) :
    ∃ r', s.db.deliveries.get? k = some r' ∧ r'.notificationId = r.notificationId ∧
      r'.deviceId = r.deviceId := by
  rcases h.deliveries with hs | ⟨e, f, hm, hs⟩ | ⟨ids, -, hs⟩ <;> rw [hs]
  · exact ⟨r, hr, rfl, rfl⟩
  · exact ⟨_, by rw [Table.get?_modify, hr, Option.map_some], hm.keeps_ite r⟩
  · exact ⟨r, Table.get?_insertAll_of_mem hr, rfl, rfl⟩

theorem Moves.seq_deliveries {n : Notification} {stage : Stage} (h : Moves cfg now db n stage s) :
    db.deliveries.seq ≤ s.db.deliveries.seq := by
  rcases h.deliveries with hs | ⟨e, f, hm, hs⟩ | ⟨ids, -, hs⟩ <;> rw [hs]
  · rfl
  · exact Table.seq_le_insertAll _ _ _ _

/-- A pass is as wary after a step of a pass for another notification. -/
theorem Wary.beside (hq : q.Wary db) (hp : p.Wary db)
    (hne : q.notification.id ≠ p.notification.id)
    (h : Moves cfg now db p.notification p.stage s) : q.Wary s.db := by
  refine hq.of_rows h.seq_deliveries h.seq_devices.ge (fun d hd r' hr' => ?_)
    fun k _ hk => ⟨h.isSome_device_iff.mp hk, fun id r hr hid => ?_⟩
  · rcases h.delivery_cases hr' with hr | ⟨e, f, r, hm, hid, hr, rfl⟩ | ⟨hlt, -⟩
    · exact ⟨r', hr, rfl, id⟩
    · -- the row would belong to both notifications
      have hown := hq.own d hd r hr
      have hown' := hp.own e hm.mem_due r (by rw [hid, hr])
      exact absurd (hown.symm.trans hown') hne
    · exact absurd (hq.bounded d hd) (by omega)
  · obtain ⟨r', hr', -, hdevice⟩ := h.delivery_kept hr
    exact ⟨r', hr', hdevice.trans hid⟩

end Pass

/-- One action keeps the passes exclusive and wary. -/
theorem World.Guarded.step {cfg : Settings} {w w' : World} {a : Action} (hw : w.Guarded)
    (h : Steps cfg w a w') (hs : w.Rotates a) (hspares : w.WatchdogSpares a) : w'.Guarded := by
  refine ⟨hw.toClaimed.step h (hs.claimsSpared hw.toClaimed hspares), ?_⟩
  rcases h.rotate_cases hs with ⟨pid, input, p, s, -, hp, hmoves, rfl⟩ | hbeside |
    ⟨user, data, u, hu, hdb, hpasses, -⟩
  · intro j q hq
    rcases Pool.set_eq_some.mp hq with ⟨rfl, hnext⟩ | ⟨hne, hq⟩
    · exact (hw.wary j p hp).moves hmoves hnext
    · exact (hw.wary j q hq).beside (hw.wary pid p hp) (fun heq => hne (hw.exclusive hq hp heq))
        hmoves
  · intro pid p hp
    rcases hbeside.passes pid p hp with hp | hstage
    · exact (hw.wary pid p hp).of_eq hbeside.deliveries hbeside.devices
    · obtain ⟨n, stage⟩ := p
      obtain rfl : stage = .entitlement := hstage
      exact Pass.wary_start w'.db n
  · intro pid p hp
    rw [hpasses] at hp
    rw [hdb]
    obtain ⟨-, hseq, -⟩ := hu.tables
    refine (hw.wary pid p hp).of_rows hseq.ge hu.seq_devices (fun d _ r' hr' => ?_)
      fun k hk hsome => ⟨hu.isSome_devices hk hsome, fun id r hr hid => ?_⟩
    · obtain ⟨hmem, hid⟩ := Table.get?_eq_some.mp hr'
      obtain ⟨r, hr, hrid, hnotification, hstatus⟩ := (Db.Erases.upsert hu).delivery r' hmem
      exact ⟨r, Table.get?_eq_some.mpr ⟨hr, hrid.symm.trans hid⟩, hnotification,
        fun hsent => hstatus ▸ hsent⟩
    · obtain ⟨hmem, hrid⟩ := Table.get?_eq_some.mp hr
      exact ⟨r, Table.get?_eq_some.mpr ⟨hu.mem_deliveries hmem (hid ▸ hsome), hrid⟩, hid⟩

end PushIT
