import Mathlib.Data.Prod.Lex
import PushIT.Treatment

/-!
# Devices that vanish during a pass

A pass works on the rows it loaded.  While it runs, the retention purge, the deletion of accounts
and devices and the merges of token rotations delete device rows and the deliveries that hang on
them.  As long as the rows the next statement of the pass saves or refreshes are still there, the
pass takes each delivery once, writes a last status and loses no acceptance.  When such a row is
gone the statement raises; the handler of the loop catches the exception but refreshes the
vanished rows itself, so that the exception leaves the pass and the notification stays PROCESSING.

## Main definitions

* `World.Erases`: one pass, and the actions that delete devices.
* `Pass.Provided`: the rows the next statement of a pass needs exist.
* `Watched`, `watched`: the server with a record of what one pass does.

## Main results

* `vanished_devices_tolerated`: what the pass guarantees while it is provided for.
* `vanished_device_stops_pass`: a run in which a deletion stops the pass.
-/

namespace PushIT

open Relational Transition

/-! ### Deletions -/

/-- Rows are deleted, and the deliveries that stay may go to another device. -/
structure Db.Erases (db db' : Db) : Prop where
  delivery : ∀ d' ∈ db'.deliveries.rows, ∃ d ∈ db.deliveries.rows,
    d'.id = d.id ∧ d'.notificationId = d.notificationId ∧ d'.status = d.status
  intact : db.Intact → db'.Intact

namespace Db.Erases

theorem trans {a b c : Db} (h : a.Erases b) (h' : b.Erases c) : a.Erases c where
  delivery := by
    intro d hd
    obtain ⟨e, he, hid, hnotification, hstatus⟩ := h'.delivery d hd
    obtain ⟨f, hf, hid', hnotification', hstatus'⟩ := h.delivery e he
    exact ⟨f, hf, hid.trans hid', hnotification.trans hnotification', hstatus.trans hstatus'⟩
  intact := fun hintact => h'.intact (h.intact hintact)

/-- The deliveries that stay are as they were. -/
theorem of_subset {db db' : Db} (h : ∀ d ∈ db'.deliveries.rows, d ∈ db.deliveries.rows)
    (hintact : db.Intact → db'.Intact) : db.Erases db' :=
  ⟨fun d hd => ⟨d, h d hd, rfl, rfl, rfl⟩, hintact⟩

theorem of_grows {db db' : Db} (h : db.Grows db') (hdeliveries : db'.deliveries = db.deliveries) :
    db.Erases db' :=
  of_subset (fun _ hd => hdeliveries ▸ hd) h.intact

theorem deleteNotifications (db : Db) (p : Notification → Bool) :
    db.Erases (db.deleteNotifications p) :=
  of_subset (fun _ hd => (Table.mem_delete.mp hd).1) fun h =>
    ⟨fun d hd => h.device d (Table.mem_delete.mp hd).1,
      fun n hn => h.application n (Table.mem_delete.mp hn).1⟩

/-- A row that no condition of the deletion meets stays. -/
private theorem isSome_delete {R : Type*} [Keyed R] {T : Table R} {p : R → Bool} {k : ℕ}
    (hk : (T.get? k).isSome) (hp : ((T.get? k).any p) = false) :
    ((T.delete p).get? k).isSome := by
  obtain ⟨r, hr⟩ := Option.isSome_iff_exists.mp hk
  rw [hr] at hp
  rw [Table.get?_delete_of_not hr (by simpa using hp)]
  rfl

theorem deleteDevices (db : Db) (p : Device → Bool) : db.Erases (db.deleteDevices p) := by
  refine of_subset (fun d hd => (Table.mem_delete.mp hd).1) fun h => ⟨fun d hd => ?_, h.application⟩
  obtain ⟨hold, hgone⟩ := Table.mem_delete.mp hd
  exact isSome_delete (h.device d hold) hgone

theorem deleteApplications (db : Db) (p : Application → Bool) :
    db.Erases (db.deleteApplications p) := by
  refine of_subset (fun d hd => (Table.mem_delete.mp hd).1) fun h =>
    ⟨fun d hd => h.device d (Table.mem_delete.mp hd).1, fun n hn => ?_⟩
  obtain ⟨hold, hgone⟩ := Table.mem_delete.mp hn
  exact isSome_delete (h.application n hold) hgone

/-- An upsert keeps the foreign keys, also when it merges. -/
theorem upsert {now : Instant} {db : Db} {user : ℕ} {data : DeviceData} {u : Upsert}
    (hu : Upserted now db user data u) : db.Erases u.db := by
  have hkeeps : u.events = [] → u.db.deliveries = db.deliveries → db.Erases u.db :=
    fun hevents hdeliveries => of_grows (.upsert hu hevents) hdeliveries
  cases hu with
  | rotated => exact hkeeps rfl rfl
  | refreshed d hd => exact hkeeps rfl (db.deliveries_refreshDevice now user data d)
  | created => exact hkeeps rfl rfl
  | merged old clash hne hold howner hclash hforeign =>
    obtain ⟨hmem, -⟩ := selectExistingDevice_eq_some hclash
    obtain ⟨hmem', -⟩ := selectExistingDevice_eq_some hold
    have hsource : db.devices.get? clash.id = some clash := Table.get?_pk hmem
    -- the device that is merged away is not the one it is merged into
    have htarget : old.id ≠ clash.id := id_ne_of_pushToken_ne hold hclash hne
    have hsome : ∀ k, k ≠ clash.id → (db.devices.get? k).isSome →
        (((db.mergeDeviceInto clash.id old.id).saveRotated now user data old.id).devices.get?
          k).isSome := by
      intro k hk hrow
      change (((db.devices.delete fun d => d.id == clash.id).modify old.id
        (rotateDevice now user data) (pk_rotateDevice now user data)).get? k).isSome
      rw [Table.get?_modify, Option.isSome_map]
      refine isSome_delete hrow ?_
      obtain ⟨d, hd⟩ := Option.isSome_iff_exists.mp hrow
      have : d.id = k := (Table.get?_eq_some.mp hd).2
      simp [hd, this, hk]
    refine ⟨fun d' hd' => ?_, fun h => ⟨fun d' hd' => ?_, h.application⟩⟩
    · obtain ⟨d, hd, ⟨rfl, -⟩ | ⟨rfl, -⟩⟩ := mem_deliveries_mergeDeviceInto hsource hd'
      · exact ⟨d', hd, rfl, rfl, rfl⟩
      · exact ⟨d, hd, rfl, rfl, rfl⟩
    · obtain ⟨d, hd, ⟨rfl, hdevice⟩ | ⟨rfl, -⟩⟩ := mem_deliveries_mergeDeviceInto hsource hd'
      · exact hsome _ hdevice (h.device d' hd)
      · exact hsome _ htarget (Option.isSome_iff_exists.mpr ⟨old, Table.get?_pk hmem'⟩)

end Db.Erases

/-- The requests that delete devices or merge them. -/
def Request.isErasing : Request → Bool
  | .purge | .deleteAccount _ | .destroyDevice _ _ | .identify _ _ | .link _ _ _ => true
  | _ => false

theorem Request.begin_erases (cfg : Settings) (now : Instant) (db : Db) {r : Request}
    (hr : r.isErasing = true) : db.Erases (r.begin cfg now db).db := by
  cases r with
  | purge => exact (Db.Erases.deleteNotifications db _).trans (.deleteDevices _ _)
  | deleteAccount user => exact (Db.Erases.deleteDevices db _).trans (.deleteApplications _ _)
  | destroyDevice user deviceId => exact .deleteDevices db _
  | identify user data => exact .upsert (upsert_cases now db user data)
  | link user data applicationId =>
    simp only [begin]
    split
    · exact .upsert (upsert_cases now db user data)
    · exact .of_grows (.refl db) rfl
  | _ => simp [isErasing] at hr

def Process.isLink : Process → Bool
  | .link _ _ => true
  | _ => false

/-- The steps of one pass, and the deletions and merges of devices beside it. -/
def World.Erases (pid : ℕ) (w : World) : Action → Prop
  | .tick _ => True
  | .pass j _ => j = pid
  | .request _ r => r.isErasing = true
  | .advance rid _ => ∀ p ∈ w.processes rid, p.isLink = true
  | .claim _ _ _ | .crash _ => False

instance (pid : ℕ) (w : World) (a : Action) : Decidable (w.Erases pid a) := by
  rcases a with _ | _ <;> unfold World.Erases <;> infer_instance

/-! ### The rows a pass needs -/

/-- The rows that the next statement of a pass saves, refreshes or refers to exist. -/
def Pass.Provided (tz : TimeZone) (now : Instant) (db : Db) (p : Pass) : Prop :=
  match p.stage with
  | .cancelling [] | .postponing _ | .closing _ =>
    (db.notifications.get? p.notification.id).isSome = true
  | .cancelling (d :: _) => (db.deliveries.get? d.id).isSome = true
  | .materializing deviceIds => (db.notifications.get? p.notification.id).isSome = true ∧
      ∀ k ∈ deviceIds, (db.devices.get? k).isSome = true
  | .refreshing _ => (db.applications.get? p.notification.applicationId).isSome = true
  | .looping f =>
    match f.remaining with
    | [] => True
    | l :: ls =>
      match deliveryDecision tz now (f.rest ls) l with
      | .cancel _ | .defer _ => (db.deliveries.get? l.delivery.id).isSome = true
      | _ => True
  | .marking _ l _ | .failing _ l _ => (db.deliveries.get? l.delivery.id).isSome = true
  | .settling _ l | .invalidating _ l _ | .rereading _ l _ =>
    (db.devices.get? l.device.id).isSome = true
  | _ => True

instance (tz : TimeZone) (now : Instant) (db : Db) (p : Pass) :
    Decidable (p.Provided tz now db) := by
  unfold Pass.Provided
  split <;> try infer_instance
  split
  · infer_instance
  · split <;> infer_instance

/-! ### A pass that is watched -/

/-- The deliveries the pass has to handle, where its next statement reads them. -/
def Pass.meets (db : Db) (p : Pass) : Option (List ℕ) :=
  match p.stage with
  | .lapsed => some ((db.deliveries.select fun d =>
      d.notificationId == p.notification.id && !decide (d.status = .sent)).map (·.id))
  | .listing | .relisting => some ((db.deliveriesOf p.notification.id).map (·.id))
  | _ => none

/-- The delivery the pass turns to with its next statement. -/
def Pass.takes (p : Pass) : Option ℕ :=
  match p.stage with
  | .cancelling (d :: _) => some d.id
  | .looping f => f.remaining.head?.map (·.delivery.id)
  | _ => none

/-- The delivery whose push the provider accepted. -/
def Event.acceptance : Event → Option ℕ
  | .called _ delivery _ _ true => some delivery
  | _ => none

/-- The server, and what the pass `pid` has done: the deliveries it had to handle, those it turned
to and those whose push was accepted, and the status its last statement left. -/
structure Watched where
  world : World
  met : List ℕ := []
  taken : List ℕ := []
  accepted : List ℕ := []
  closed : Option NotificationStatus := none

namespace Watched

/-- The pass `p` performed the statement that led to the world `w`. -/
def note (x : Watched) (p : Pass) (s : PassStep) (w : World) : Watched where
  world := w
  met := (p.meets x.world.db).getD x.met
  taken := x.taken ++ p.takes.toList
  accepted := x.accepted ++ s.events.filterMap Event.acceptance
  closed :=
    if s.next.isNone then (s.db.notifications.get? p.notification.id).map (·.status)
    else x.closed

/-- A step of the server, noted when it is one of the pass. -/
def step (cfg : Settings) (pid : ℕ) (x : Watched) (a : Action) : Option Watched :=
  (x.world.step cfg a).map fun w =>
    match a with
    | .pass j input =>
      match x.world.passes j with
      | some p =>
        if j = pid then x.note p (p.advance cfg x.world.clock x.world.db input) w
        else { x with world := w }
      | none => { x with world := w }
    | _ => { x with world := w }

/-- The record of a pass that has just claimed its notification. -/
def Starts (pid : ℕ) (n : Notification) (x : Watched) : Prop :=
  x.world.passes pid = some { notification := n } ∧ x.met = [] ∧ x.taken = [] ∧
    x.accepted = [] ∧ x.closed = none

/-- The pass has ended well: it turned to every delivery it had to handle, it left a last status
or the new date of a quiet period, and every accepted push of a delivery that is still there is
recorded. -/
structure Done (x : Watched) : Prop where
  handled : x.taken.Perm x.met
  once : x.met.Nodup
  closed : ∃ status, x.closed = some status ∧
    status ∈ [NotificationStatus.sent, .failed, .partially, .noTarget, .scheduled]
  accepted : ∀ δ ∈ x.accepted, ∀ d ∈ x.world.db.deliveries.rows, d.id = δ → d.status = .sent

end Watched

/-- The server with a record of the pass `pid`. -/
def watched (cfg : Settings) (pid : ℕ) : System Watched Action := ⟨Watched.step cfg pid⟩

/-- A pass that performs a statement in this action finds the rows it needs. -/
def World.Provides (cfg : Settings) (w : World) : Action → Prop
  | .pass pid _ => ∀ p ∈ w.passes pid, p.Provided cfg.timeZone w.clock w.db
  | _ => True

instance (cfg : Settings) (w : World) (a : Action) : Decidable (w.Provides cfg a) := by
  rcases a with _ | _ <;> unfold World.Provides <;> infer_instance

/-- The actions of one pass and of the deletions beside it, where the pass finds the rows it
needs. -/
def Watched.Erases (cfg : Settings) (pid : ℕ) (x : Watched) (a : Action) : Prop :=
  x.world.Erases pid a ∧ x.world.Provides cfg a

instance (cfg : Settings) (pid : ℕ) (x : Watched) (a : Action) :
    Decidable (x.Erases cfg pid a) :=
  inferInstanceAs (Decidable (x.world.Erases pid a ∧ x.world.Provides cfg a))

/-! ### One step of the pass -/

namespace Pass

/-- The deliveries that lie ahead of a stage. -/
def ahead : Stage → List ℕ
  | .cancelling ds => ds.map (·.id)
  | .refreshing ls | .linking _ ls => ls.map (·.delivery.id)
  | .looping f | .marking f _ _ | .settling f _ | .counting f _ _ | .invalidating f _ _
  | .rereading f _ _ | .failing f _ _ => f.remaining.map (·.delivery.id)
  | _ => []

/-- The pass has read its deliveries. -/
def hasRead : Stage → Bool
  | .entitlement | .lapsed | .applicationQuiet | .postponing _ | .listing | .targeting
  | .materializing _ | .relisting => false
  | _ => true

/-- The delivery whose push was not accepted. -/
def refusedId : Stage → Option ℕ
  | .counting _ l _ | .invalidating _ l _ | .rereading _ l _ | .failing _ l _ =>
    some l.delivery.id
  | _ => none

/-- The delivery whose accepted push is not recorded yet. -/
def acceptedId : Stage → Option ℕ
  | .marking _ l _ => some l.delivery.id
  | _ => none

variable {cfg : Settings} {now : Instant} {db : Db} {s : PassStep} {n : Notification}
  {stage : Stage} {met taken accepted : List ℕ}

/-- What the record says about a running pass: the deliveries to handle are those it turned to and
those ahead, it pushed none twice, and the accepted pushes are recorded but the last. -/
structure Follows (met taken accepted : List ℕ) (db : Db) (stage : Stage) : Prop where
  split : (taken ++ ahead stage).Perm met
  nodup : met.Nodup
  early : hasRead stage = false → met = []
  subset : ∀ δ ∈ accepted, δ ∈ taken
  recorded : ∀ δ ∈ accepted, acceptedId stage = some δ ∨
    ∀ d ∈ db.deliveries.rows, d.id = δ → d.status = .sent
  refused : ∀ δ, refusedId stage = some δ → δ ∉ accepted

/-- Every delivery row is loaded, since its device exists. -/
theorem perm_loadDeliveries (hintact : db.Intact) (id : ℕ) :
    ((loadDeliveries db id).map (·.delivery)).Perm (db.deliveriesOf id) := by
  have hall : ∀ ds : List NotificationDelivery, (∀ d ∈ ds, d ∈ db.deliveries.rows) →
      ((ds.filterMap fun d => (db.devices.get? d.deviceId).map fun device =>
        (⟨d, device, deviceQuietPeriodsOf db device.id⟩ : LoadedDelivery)).map (·.delivery)) =
        ds := by
    intro ds
    induction ds with
    | nil => exact fun _ => rfl
    | cons d ds ih =>
      intro hds
      obtain ⟨device, hdevice⟩ :=
        Option.isSome_iff_exists.mp (hintact.device d (hds d List.mem_cons_self))
      simp [hdevice, ih fun e he => hds e (List.mem_cons_of_mem _ he)]
  rw [loadDeliveries, hall]
  · exact List.perm_insertionSort _ _
  · intro d hd
    rw [List.mem_insertionSort] at hd
    exact (Table.mem_select.mp hd).1

theorem nodup_select (db : Db) (p : NotificationDelivery → Bool) :
    ((db.deliveries.select p).map (·.id)).Nodup := by
  rw [List.Nodup, List.pairwise_map]
  exact db.deliveries.pairwise_pk_ne.filter _

/-- Before the pass has read its deliveries the record is empty. -/
private theorem Follows.eq_nil (h : Follows met taken accepted db stage)
    (hearly : hasRead stage = false) : met = [] ∧ taken = [] ∧ accepted = [] := by
  obtain rfl := h.early hearly
  obtain ⟨rfl, -⟩ := List.append_eq_nil_iff.mp (List.perm_nil.mp h.split)
  refine ⟨rfl, rfl, List.eq_nil_iff_forall_not_mem.mpr fun δ hδ => ?_⟩
  simpa using h.subset δ hδ

private theorem follows_nil (h : ahead stage = []) : Follows [] [] [] db stage where
  split := by rw [h]; exact List.Perm.refl _
  nodup := List.nodup_nil
  early := fun _ => rfl
  subset := by simp
  recorded := by simp
  refused := by simp

/-- The pass has just read its deliveries. -/
private theorem follows_load {ids : List ℕ} (hids : (ahead stage).Perm ids) (hnodup : ids.Nodup)
    (hread : hasRead stage = true) : Follows ids [] [] db stage where
  split := hids
  nodup := hnodup
  early := by simp [hread]
  subset := by simp
  recorded := by simp
  refused := by simp

/-- The pass goes on with the deliveries it had ahead. -/
private theorem Follows.go {db' : Db} {stage' : Stage} (h : Follows met taken accepted db stage)
    (hdb : db'.deliveries = db.deliveries) (hread : hasRead stage' = true)
    (hahead : ahead stage' = ahead stage) (haccepted : acceptedId stage' = acceptedId stage)
    (hrefused : ∀ δ, refusedId stage' = some δ → refusedId stage = some δ) :
    Follows met taken accepted db' stage' where
  split := hahead ▸ h.split
  nodup := h.nodup
  early := by simp [hread]
  subset := h.subset
  recorded := by rw [haccepted, hdb]; exact h.recorded
  refused := fun δ hδ => h.refused δ (hrefused δ hδ)

/-- The delivery at the head was not turned to before. -/
private theorem Follows.not_mem (h : Follows met taken accepted db stage) {δ : ℕ}
    {ids : List ℕ} (hahead : ahead stage = δ :: ids) : δ ∉ taken := by
  have hnodup := h.split.nodup_iff.mpr h.nodup
  rw [hahead] at hnodup
  exact fun hmem => (List.disjoint_of_nodup_append hnodup) hmem List.mem_cons_self

private theorem mem_of_withDelivery {k : ℕ} {f : NotificationDelivery → NotificationDelivery}
    {hf : ∀ d, pk (f d) = pk d} {d : NotificationDelivery}
    (hd : d ∈ (withDelivery db k f hf).deliveries.rows) (hne : d.id ≠ k) :
    d ∈ db.deliveries.rows := by
  change d ∈ (db.deliveries.modify k f hf).rows at hd
  obtain ⟨r, hr, rfl⟩ := Table.mem_modify.mp hd
  by_cases hpk : pk r = k
  · rw [if_pos hpk] at hne
    exact absurd ((hf r).trans hpk) hne
  · rwa [if_neg hpk]

/-- The pass turns to the delivery at the head and may write its row. -/
private theorem Follows.take {db' : Db} {stage' : Stage} {δ : ℕ}
    (h : Follows met taken accepted db stage) (hahead : ahead stage = δ :: ahead stage')
    (haccepted : acceptedId stage = none) (hread : hasRead stage' = true)
    (hrows : ∀ d ∈ db'.deliveries.rows, d.id ≠ δ → d ∈ db.deliveries.rows)
    (hrefused : ∀ ε, refusedId stage' = some ε → ε = δ) :
    Follows met (taken ++ [δ]) accepted db' stage' where
  split := by simpa [hahead] using h.split
  nodup := h.nodup
  early := by simp [hread]
  subset := fun ε hε => List.mem_append_left _ (h.subset ε hε)
  recorded := by
    intro ε hε
    have hne : ε ≠ δ := fun heq => h.not_mem hahead (heq ▸ h.subset ε hε)
    refine Or.inr fun d hd hid => ?_
    rcases h.recorded ε hε with hlast | hsent
    · simp [haccepted] at hlast
    · exact hsent d (hrows d hd (hid ▸ hne)) hid
  refused := by
    rintro ε hε hmem
    obtain rfl := hrefused ε hε
    exact h.not_mem hahead (h.subset ε hmem)

/-- The provider accepts the delivery at the head. -/
private theorem Follows.accept {stage' : Stage} {δ : ℕ} (h : Follows met taken accepted db stage)
    (hahead : ahead stage = δ :: ahead stage') (haccepted : acceptedId stage = none)
    (hread : hasRead stage' = true) (hlast : acceptedId stage' = some δ)
    (hrefused : refusedId stage' = none) :
    Follows met (taken ++ [δ]) (accepted ++ [δ]) db stage' where
  split := by simpa [hahead] using h.split
  nodup := h.nodup
  early := by simp [hread]
  subset := by
    intro ε hε
    rcases List.mem_append.mp hε with hε | hε
    · exact List.mem_append_left _ (h.subset ε hε)
    · exact List.mem_append_right _ hε
  recorded := by
    intro ε hε
    rcases List.mem_append.mp hε with hε | hε
    · rcases h.recorded ε hε with hold | hsent
      · simp [haccepted] at hold
      · exact Or.inr hsent
    · rw [List.mem_singleton.mp hε]
      exact Or.inl hlast
  refused := by simp [hrefused]

/-- The row of the delivery the pass has turned to is written; an accepted push is recorded. -/
private theorem Follows.write {stage' : Stage} {k : ℕ}
    {f : NotificationDelivery → NotificationDelivery} {hf : ∀ d, pk (f d) = pk d}
    (h : Follows met taken accepted db stage) (hahead : ahead stage' = ahead stage)
    (hread : hasRead stage' = true) (hrefused : refusedId stage' = none)
    (hwrite : k ∉ accepted ∧ acceptedId stage = none ∨
      acceptedId stage = some k ∧ ∀ d, (f d).status = .sent) :
    Follows met taken accepted (withDelivery db k f hf) stage' where
  split := hahead ▸ h.split
  nodup := h.nodup
  early := by simp [hread]
  subset := h.subset
  recorded := by
    refine fun δ hδ => Or.inr fun d hd hid => ?_
    change d ∈ (db.deliveries.modify k f hf).rows at hd
    obtain ⟨r, hr, rfl⟩ := Table.mem_modify.mp hd
    by_cases hpk : pk r = k
    · rw [if_pos hpk] at hid ⊢
      rcases hwrite with ⟨hnot, -⟩ | ⟨-, hsent⟩
      · have hid : pk (f r) = δ := hid
        rw [hf, hpk] at hid
        exact absurd (hid ▸ hδ) hnot
      · exact hsent r
    · rw [if_neg hpk] at hid ⊢
      rcases h.recorded δ hδ with hlast | hsent
      · rcases hwrite with ⟨-, hnone⟩ | ⟨hsome, -⟩
        · simp [hnone] at hlast
        · exact absurd (hid.trans (Option.some.inj (hlast.symm.trans hsome))) hpk
      · exact hsent r hr hid
  refused := by simp [hrefused]

/-- A loop that finds the rows it needs goes on. -/
theorem isSome_next_of_provided {f : LoopFrame} (input : PassInput)
    (h : Provided cfg.timeZone now db ⟨n, .looping f⟩) :
    ((⟨n, .looping f⟩ : Pass).advance cfg now db input).next.isSome = true := by
  simp only [Provided] at h
  simp only [advance]
  split
  · rfl
  · next l ls hrest =>
    simp only [hrest] at h
    simp only [turn]
    split
    · rfl
    · next reason hdecision =>
      rw [hdecision] at h
      simp only [Db.saveDelivery, h, if_true]
      rfl
    · rfl
    · next q hdecision =>
      rw [hdecision] at h
      simp only [Db.saveDelivery, h, if_true]
      rfl
    · rfl
    · rfl

/-- Only an accepted push leaves an acceptance in the history. -/
theorem acceptance_deliveriesAttached (db db' : Db) :
    (deliveriesAttached db db').filterMap Event.acceptance = [] := by
  simp [deliveriesAttached, List.filterMap_map, Function.comp_def, Event.acceptance]

/-- One step of a pass that is provided for, and goes on. -/
theorem Moves.follows {p p' : Pass} (hintact : db.Intact)
    (hp : Follows met taken accepted db p.stage) (hprovided : p.Provided cfg.timeZone now db)
    (h : Moves cfg now db p.notification p.stage s) (hnext : s.next = some p') :
    Follows ((p.meets db).getD met) (taken ++ p.takes.toList)
      (accepted ++ s.events.filterMap Event.acceptance) s.db p'.stage := by
  obtain ⟨n, stage⟩ := p
  have hperm := (perm_loadDeliveries hintact n.id).map fun d => d.id
  rw [List.map_map] at hperm
  cases h with
  | paid | unpaid | quiet | notQuiet | untargeted | targeted =>
    obtain rfl := Option.some.inj hnext
    obtain ⟨rfl, rfl, rfl⟩ := hp.eq_nil rfl
    exact follows_nil rfl
  | materialized ids hn hdevices =>
    obtain rfl := Option.some.inj hnext
    obtain ⟨rfl, rfl, rfl⟩ := hp.eq_nil rfl
    simp only [on, acceptance_deliveriesAttached]
    exact follows_nil rfl
  | listedNone hload | relistedNone hload =>
    obtain rfl := Option.some.inj hnext
    obtain ⟨rfl, rfl, rfl⟩ := hp.eq_nil rfl
    rw [hload] at hperm
    have hnone : (db.deliveriesOf n.id).map (·.id) = [] := List.perm_nil.mp hperm.symm
    simp only [meets, hnone]
    exact follows_nil rfl
  | lapsed =>
    obtain rfl := Option.some.inj hnext
    obtain ⟨rfl, rfl, rfl⟩ := hp.eq_nil rfl
    exact follows_load (List.Perm.refl _) (nodup_select db _) rfl
  | listed l ls hload | relisted l ls hload =>
    obtain rfl := Option.some.inj hnext
    obtain ⟨rfl, rfl, rfl⟩ := hp.eq_nil rfl
    exact follows_load (hload ▸ hperm) (nodup_select db _) rfl
  | lapsedCancelled d ds row hrow =>
    obtain rfl := Option.some.inj hnext
    simp only [on, List.filterMap_nil, List.append_nil]
    exact hp.take rfl rfl rfl (fun e he hne => mem_of_withDelivery he hne) (by simp [refusedId])
  | refreshed | linked =>
    obtain rfl := Option.some.inj hnext
    simp only [on, takes, Option.toList_none, List.filterMap_nil, List.append_nil]
    exact hp.go rfl rfl rfl rfl (by simp [refusedId])
  | finished f hrest =>
    obtain rfl := Option.some.inj hnext
    simp only [on, takes, hrest, List.head?_nil, Option.map_none, Option.toList_none,
      List.filterMap_nil, List.append_nil]
    exact hp.go rfl rfl (by simp [ahead, hrest]) rfl (by simp [refusedId])
  | skipped f l ls hrest hdecision | waited f l ls hrest hdecision
  | exhausted f l ls hrest hdecision =>
    obtain rfl := Option.some.inj hnext
    simp only [on, takes, hrest, List.head?_cons, Option.map_some, Option.toList_some,
      List.filterMap_nil, List.append_nil]
    exact hp.take (by simp [ahead, hrest, LoopFrame.rest, LoopFrame.count]) rfl rfl
      (fun e he _ => he) (by simp [refusedId])
  | cancelled f l ls reason row hrest hdecision hrow =>
    obtain rfl := Option.some.inj hnext
    simp only [on, takes, hrest, List.head?_cons, Option.map_some, Option.toList_some,
      List.filterMap_nil, List.append_nil]
    exact hp.take (by simp [ahead, hrest, LoopFrame.rest, LoopFrame.count]) rfl rfl
      (fun e he hne => mem_of_withDelivery he hne) (by simp [refusedId])
  | deferred f l ls q row hrest hdecision hrow =>
    obtain rfl := Option.some.inj hnext
    simp only [on, takes, hrest, List.head?_cons, Option.map_some, Option.toList_some,
      List.filterMap_cons, Event.acceptance, List.filterMap_nil, List.append_nil]
    exact hp.take (by simp [ahead, hrest, LoopFrame.rest, LoopFrame.count]) rfl rfl
      (fun e he hne => mem_of_withDelivery he hne) (by simp [refusedId])
  | accepted f l ls m hrest hdecision =>
    obtain rfl := Option.some.inj hnext
    simp only [on, takes, hrest, List.head?_cons, Option.map_some, Option.toList_some,
      List.filterMap_cons, Event.acceptance, List.filterMap_nil]
    exact hp.accept (by simp [ahead, hrest, LoopFrame.rest]) rfl rfl rfl rfl
  | refused f l ls error hrest hdecision =>
    obtain rfl := Option.some.inj hnext
    simp only [on, takes, hrest, List.head?_cons, Option.map_some, Option.toList_some,
      List.filterMap_cons, Event.acceptance, List.filterMap_nil, List.append_nil]
    exact hp.take (by simp [ahead, hrest, LoopFrame.rest]) rfl rfl (fun e he _ => he)
      (by simp [refusedId])
  | sentToSettle f l m row hcount hrow =>
    obtain rfl := Option.some.inj hnext
    simp only [on, takes, Option.toList_none, List.filterMap_nil, List.append_nil]
    exact hp.write rfl rfl rfl (Or.inr ⟨rfl, fun _ => rfl⟩)
  | sent f l m row hcount hrow =>
    obtain rfl := Option.some.inj hnext
    simp only [on, takes, Option.toList_none, List.filterMap_nil, List.append_nil]
    exact hp.write rfl rfl rfl (Or.inr ⟨rfl, fun _ => rfl⟩)
  | failed f l error row hrow =>
    obtain rfl := Option.some.inj hnext
    simp only [on, takes, Option.toList_none, List.filterMap_nil, List.append_nil]
    exact hp.write rfl rfl rfl (Or.inl ⟨hp.refused _ rfl, rfl⟩)
  | settled | reread =>
    obtain rfl := Option.some.inj hnext
    simp only [on, takes, Option.toList_none, List.filterMap_nil, List.append_nil]
    exact hp.go rfl rfl rfl rfl (by simp [refusedId])
  | countedInvalid | counted =>
    obtain rfl := Option.some.inj hnext
    simp only [on, takes, Option.toList_none, List.filterMap_nil, List.append_nil]
    exact hp.go rfl rfl rfl rfl fun _ h => h
  | invalidated =>
    obtain rfl := Option.some.inj hnext
    simp only [on, takes, Option.toList_none, List.filterMap_cons, Event.acceptance,
      List.filterMap_nil, List.append_nil]
    exact hp.go rfl rfl rfl rfl fun _ h => h
  | notSent f l m hrow => simp [Provided, hrow] at hprovided
  | notSettled f l hrow => simp [Provided, hrow] at hprovided
  | lapsedClosed | lapsedGone | postponed | notMaterialized | applicationGone | deliveryGone
  | notInvalidated | notReread | notFailed | closed => simp [ended] at hnext

/-- A pass that is provided for ends with its last statement. -/
theorem Moves.follows_end {p : Pass} {input : PassInput}
    (hp : Follows met taken accepted db p.stage) (hprovided : p.Provided cfg.timeZone now db)
    (h : Moves cfg now db p.notification p.stage s) (hs : p.advance cfg now db input = s)
    (hnext : s.next = none) :
    (taken ++ p.takes.toList).Perm ((p.meets db).getD met) ∧ ((p.meets db).getD met).Nodup ∧
      (∃ n, s.db.notifications.get? p.notification.id = some n ∧
        n.status ∈ [NotificationStatus.sent, .failed, .partially, .noTarget, .scheduled]) ∧
      s.events.filterMap Event.acceptance = [] ∧ s.db.deliveries = db.deliveries ∧
      acceptedId p.stage = none := by
  obtain ⟨n, stage⟩ := p
  have hwritten : ∀ f hf, (db.notifications.get? n.id).isSome = true →
      (∀ r, (f r).status ∈
        [NotificationStatus.sent, .failed, .partially, .noTarget, .scheduled]) →
      ∃ r, (db.notifications.modify n.id f hf).get? n.id = some r ∧
        r.status ∈ [NotificationStatus.sent, .failed, .partially, .noTarget, .scheduled] := by
    intro f hf hrow hstatus
    obtain ⟨r, hr⟩ := Option.isSome_iff_exists.mp hrow
    refine ⟨f r, ?_, hstatus r⟩
    rw [Table.get?_modify_self, hr]
    rfl
  cases h with
  | lapsedClosed =>
    refine ⟨by simpa [takes, meets, ahead] using hp.split, hp.nodup, ?_, rfl, rfl, rfl⟩
    exact hwritten _ (pk_closeNotification now .failed) hprovided fun r => by
      simp [closeNotification]
  | postponed q =>
    refine ⟨by simpa [takes, meets, ahead] using hp.split, hp.nodup, ?_, rfl, rfl, rfl⟩
    exact hwritten _ (pk_postponeNotification q) hprovided fun r => by
      simp [postponeNotification]
  | closed status =>
    refine ⟨by simpa [takes, meets, ahead] using hp.split, hp.nodup, ?_, rfl, rfl, rfl⟩
    refine hwritten _ (pk_closeNotification now status.val) hprovided fun r => ?_
    have := status.2
    simp only [closeNotification, List.mem_cons, List.not_mem_nil, or_false] at this ⊢
    tauto
  | lapsedGone d ds hrow => simp [Provided, hrow] at hprovided
  | notMaterialized ids hnot => exact absurd hprovided hnot
  | applicationGone ls hrow => simp [Provided, hrow] at hprovided
  | deliveryGone f l ls hrest hrow =>
    have := isSome_next_of_provided input hprovided
    rw [hs] at this
    simp [ended] at this
  | notInvalidated f l error hrow => simp [Provided, hrow] at hprovided
  | notReread f l error hrow => simp [Provided, hrow] at hprovided
  | notFailed f l error hrow => simp [Provided, hrow] at hprovided
  | _ => simp [on] at hnext

end Pass

/-! ### The invariant -/

/-- The running pass follows its record, or it has ended well. -/
structure Watched.Followed (pid : ℕ) (n : Notification) (x : Watched) : Prop where
  intact : x.world.db.Intact
  running : ∀ p, x.world.passes pid = some p → p.notification = n ∧
    Pass.Follows x.met x.taken x.accepted x.world.db p.stage
  ended : x.world.passes pid = none → x.Done

/-- A deletion beside the pass keeps what the record says. -/
private theorem Pass.Follows.of_erases {met taken accepted : List ℕ} {db db' : Db} {stage : Stage}
    (h : Follows met taken accepted db stage) (herases : db.Erases db') :
    Follows met taken accepted db' stage where
  split := h.split
  nodup := h.nodup
  early := h.early
  subset := h.subset
  recorded := by
    refine fun δ hδ => (h.recorded δ hδ).imp (fun h => h) fun hsent d hd hid => ?_
    obtain ⟨e, he, heq, -, hstatus⟩ := herases.delivery d hd
    rw [hstatus]
    exact hsent e he (heq.symm.trans hid)
  refused := h.refused

private theorem Watched.Followed.beside {pid : ℕ} {n : Notification} {x : Watched} {w : World}
    (hx : x.Followed pid n) (hpasses : w.passes = x.world.passes)
    (herases : x.world.db.Erases w.db) : Watched.Followed pid n { x with world := w } where
  intact := herases.intact hx.intact
  running := by
    intro p hp
    rw [hpasses] at hp
    exact ⟨(hx.running p hp).1, (hx.running p hp).2.of_erases herases⟩
  ended := by
    intro hnone
    rw [hpasses] at hnone
    obtain ⟨hhandled, honce, hclosed, haccepted⟩ := hx.ended hnone
    refine ⟨hhandled, honce, hclosed, fun δ hδ d hd hid => ?_⟩
    obtain ⟨e, he, heq, -, hstatus⟩ := herases.delivery d hd
    rw [hstatus]
    exact haccepted δ hδ e he (heq.symm.trans hid)

/-- One action keeps the invariant. -/
theorem Watched.Followed.step {cfg : Settings} {pid : ℕ} {n : Notification} {x y : Watched}
    {a : Action} (hx : x.Followed pid n) (hok : x.Erases cfg pid a)
    (hs : (watched cfg pid).step x a = some y) : y.Followed pid n := by
  obtain ⟨hok, hprovided⟩ := hok
  obtain ⟨w, hw, rfl⟩ := Option.map_eq_some_iff.mp hs
  cases World.step_cases hw with
  | tick duration => exact hx.beside rfl (.of_grows (.refl _) rfl)
  | notClaimed => exact hok.elim
  | claimed => exact hok.elim
  | crash => exact hok.elim
  | request rid r hrid => exact hx.beside rfl (Request.begin_erases cfg _ _ hok)
  | advance rid input q hq =>
    have hlink := hok q hq
    cases q with
    | link deviceId applicationId =>
      rcases Process.advance_delivering x.world.clock x.world.db input
        (p := .link deviceId applicationId) rfl with ⟨hsending, -⟩ | ⟨-, hgrows, -⟩
      · simp [Process.isSending] at hsending
      · refine hx.beside rfl (.of_grows hgrows ?_)
        have h := Process.advance_cases x.world.clock x.world.db input
          (.link deviceId applicationId)
        change (Process.advance x.world.clock x.world.db input
          (.link deviceId applicationId)).db.deliveries = _
        generalize Process.advance x.world.clock x.world.db input
          (.link deviceId applicationId) = o at h ⊢
        cases h with
        | moves _ s hmoves => rfl
        | _ => rfl
    | _ => simp [Process.isLink] at hlink
  | pass j input p s hp hmoves hadvance =>
    obtain rfl : j = pid := hok
    obtain ⟨rfl, hfollows⟩ := hx.running p hp
    have hprovided := hprovided p hp
    simp only [hp, if_true, hadvance]
    have hself : (x.world.afterPass j s).passes j = s.next := Pool.set_self _ _ _
    cases hnext : s.next with
    | some p' =>
      rw [hnext] at hself
      refine ⟨hmoves.intact hx.intact, fun q hq => ?_, fun hnone => ?_⟩
      · obtain rfl : p' = q := Option.some.inj (hself.symm.trans hq)
        exact ⟨hmoves.notification_eq hnext, hmoves.follows hx.intact hfollows hprovided hnext⟩
      · exact absurd (hself.symm.trans hnone) (by simp)
    | none =>
      rw [hnext] at hself
      refine ⟨hmoves.intact hx.intact, fun q hq => ?_, fun _ => ?_⟩
      · exact absurd (hself.symm.trans hq) (by simp)
      · obtain ⟨hhandled, honce, ⟨row, hrow, hstatus⟩, hnone, hdeliveries, hlast⟩ :=
          hmoves.follows_end hfollows hprovided hadvance hnext
        refine ⟨hhandled, honce, ⟨row.status, by simp [note, hnext, hrow], hstatus⟩, ?_⟩
        intro δ hδ d hd hid
        have hδ : δ ∈ x.accepted := by simpa [note, hnone] using hδ
        have hd : d ∈ s.db.deliveries.rows := hd
        rw [hdeliveries] at hd
        rcases hfollows.recorded δ hδ with hsome | hsent
        · simp [hlast] at hsome
        · exact hsent d hd hid

/-! ### The end of a pass -/

/-- How far a pass is from its end: the stages before the loop, then the deliveries ahead and the
statements left for the one being treated. -/
def Pass.rank : Stage → ℕ ×ₗ ℕ
  | .entitlement => toLex (9, 0)
  | .lapsed | .applicationQuiet => toLex (8, 0)
  | .listing => toLex (7, 0)
  | .targeting => toLex (6, 0)
  | .materializing _ => toLex (5, 0)
  | .relisting => toLex (4, 0)
  | .refreshing _ => toLex (3, 0)
  | .linking _ _ => toLex (2, 0)
  | .cancelling ds => toLex (1, ds.length)
  | .looping f => toLex (1, 7 * f.remaining.length)
  | .marking f _ _ => toLex (1, 7 * f.remaining.length + 6)
  | .settling f _ => toLex (1, 7 * f.remaining.length + 5)
  | .counting f _ _ => toLex (1, 7 * f.remaining.length + 4)
  | .invalidating f _ _ => toLex (1, 7 * f.remaining.length + 3)
  | .rereading f _ _ => toLex (1, 7 * f.remaining.length + 2)
  | .failing f _ _ => toLex (1, 7 * f.remaining.length + 1)
  | .postponing _ | .closing _ => toLex (0, 0)

/-- Every step brings a pass closer to its end. -/
theorem Pass.Moves.rank_lt {cfg : Settings} {now : Instant} {db : Db} {n : Notification}
    {stage : Stage} {s : PassStep} {p' : Pass} (h : Moves cfg now db n stage s)
    (hnext : s.next = some p') : Pass.rank p'.stage < Pass.rank stage := by
  cases h with
  | lapsedClosed | lapsedGone | postponed | notMaterialized | applicationGone | deliveryGone
  | notInvalidated | notReread | notFailed | closed => simp [ended] at hnext
  | skipped f l ls hrest | waited f l ls hrest | exhausted f l ls hrest
  | cancelled f l ls _ _ hrest | deferred f l ls _ _ hrest | accepted f l ls _ hrest
  | refused f l ls _ hrest =>
    obtain rfl := Option.some.inj hnext
    refine Prod.Lex.toLex_lt_toLex.mpr (Or.inr ⟨rfl, ?_⟩)
    simp only [LoopFrame.count, LoopFrame.rest, hrest, List.length_cons]
    omega
  | lapsedCancelled =>
    obtain rfl := Option.some.inj hnext
    exact Prod.Lex.toLex_lt_toLex.mpr (Or.inr ⟨rfl, Nat.lt_succ_self _⟩)
  | sentToSettle | sent | notSent | settled | notSettled | countedInvalid | counted | invalidated
  | reread | failed =>
    obtain rfl := Option.some.inj hnext
    refine Prod.Lex.toLex_lt_toLex.mpr (Or.inr ⟨rfl, ?_⟩)
    simp only [LoopFrame.count]
    omega
  | _ =>
    -- the stages around the loop follow each other
    obtain rfl := Option.some.inj hnext
    exact Prod.Lex.toLex_lt_toLex.mpr (Or.inl (by simp))

/-! ### Runs -/

def Action.isPassOf (pid : ℕ) : Action → Bool
  | .pass j _ => j == pid
  | _ => false

/-- Deletions beside a pass keep its stage. -/
private theorem Watched.step_stage {cfg : Settings} {pid : ℕ} {x y : Watched} {a : Action}
    (hok : x.Erases cfg pid a) (hs : (watched cfg pid).step x a = some y) :
    (∃ input p s, a = .pass pid input ∧ x.world.passes pid = some p ∧
      Pass.Moves cfg x.world.clock x.world.db p.notification p.stage s ∧
      y.world.passes pid = s.next) ∨
    a.isPassOf pid = false ∧ y.world.passes = x.world.passes := by
  obtain ⟨hok, -⟩ := hok
  obtain ⟨w, hw, rfl⟩ := Option.map_eq_some_iff.mp hs
  cases World.step_cases hw with
  | tick | request | advance => exact Or.inr ⟨rfl, rfl⟩
  | notClaimed | claimed | crash => exact hok.elim
  | pass j input p s hp hmoves hadvance =>
    obtain rfl : j = pid := hok
    refine Or.inl ⟨input, p, s, rfl, hp, hmoves, ?_⟩
    simp only [hp, if_true]
    exact Pool.set_self _ _ _

/-- A pass that is scheduled again and again ends. -/
theorem pass_ends {cfg : Settings} {pid : ℕ} {run : ℕ → Watched} {labels : ℕ → Action}
    (h : (watched cfg pid).InfiniteRun (Watched.Erases cfg pid) run labels)
    (hfair : ∀ N, ∃ i, N ≤ i ∧ (labels i).isPassOf pid = true) :
    ∃ N, (run N).world.passes pid = none := by
  let rank : Watched → ℕ ×ₗ ℕ := fun x =>
    ((x.world.passes pid).map fun p => Pass.rank p.stage).getD (toLex (0, 0))
  have hlt : ∀ ⦃x a y⦄, x.world.passes pid ≠ none → y.world.passes pid ≠ none →
      Watched.Erases cfg pid x a → (watched cfg pid).step x a = some y →
      a.isPassOf pid = true → rank y < rank x := by
    intro x a y hx hy hok hs hpass
    rcases Watched.step_stage hok hs with ⟨input, p, s, -, hp, hmoves, hnext⟩ | ⟨hnot, -⟩
    · obtain ⟨p', hp'⟩ := Option.ne_none_iff_exists'.mp hy
      simp only [rank, hp, hp', Option.map_some, Option.getD_some]
      exact hmoves.rank_lt (hnext.symm.trans hp')
    · simp [hnot] at hpass
  have hle : ∀ ⦃x a y⦄, x.world.passes pid ≠ none → y.world.passes pid ≠ none →
      Watched.Erases cfg pid x a → (watched cfg pid).step x a = some y → rank y ≤ rank x := by
    intro x a y hx hy hok hs
    by_cases hpass : a.isPassOf pid = true
    · exact (hlt hx hy hok hs hpass).le
    · rcases Watched.step_stage hok hs with ⟨input, p, s, rfl, -⟩ | ⟨-, hsame⟩
      · simp [Action.isPassOf] at hpass
      · simp only [rank, hsame]
        exact le_rfl
  obtain ⟨N, hN⟩ := h.exists_not_of_rank (fun x => x.world.passes pid ≠ none)
    (fun a => a.isPassOf pid = true) rank hle hlt hfair
  exact ⟨N, not_not.mp hN⟩

/-- The pass turns to no delivery twice, and when it has ended it has ended well. -/
structure Watched.Tolerates (pid : ℕ) (x : Watched) : Prop where
  once : x.taken.Nodup
  done : x.world.passes pid = none → x.Done

theorem Watched.Followed.tolerates {pid : ℕ} {n : Notification} {x : Watched}
    (hx : x.Followed pid n) : x.Tolerates pid where
  once := by
    cases hp : x.world.passes pid with
    | none => exact (hx.ended hp).handled.nodup_iff.mpr (hx.ended hp).once
    | some p =>
      obtain ⟨-, hfollows⟩ := hx.running p hp
      exact (List.nodup_append.mp (hfollows.split.nodup_iff.mpr hfollows.nodup)).1
  done := hx.ended

theorem Watched.Starts.followed {pid : ℕ} {n : Notification} {x : Watched}
    (hx : x.Starts pid n) (hintact : x.world.db.Intact) : x.Followed pid n := by
  obtain ⟨hpass, hmet, htaken, haccepted, -⟩ := hx
  refine ⟨hintact, fun p hp => ?_, fun hnone => ?_⟩
  · obtain rfl := Option.some.inj (hpass.symm.trans hp)
    rw [hmet, htaken, haccepted]
    exact ⟨rfl, Pass.follows_nil rfl⟩
  · simp [hpass] at hnone

/-- In every run of one pass with deletions and merges of devices beside it, in which the pass
finds the rows its statements need, it turns to every delivery once, writes a last status and
loses no acceptance; and it ends when it is scheduled again and again. -/
theorem vanished_devices_tolerated {cfg : Settings} {pid : ℕ} {n : Notification} {x₀ : Watched}
    (h₀ : x₀.Starts pid n) (hintact : x₀.world.db.Intact) :
    (∀ x, (watched cfg pid).Reach (Watched.Erases cfg pid) x₀ x → x.Tolerates pid) ∧
      ∀ (run : ℕ → Watched) (labels : ℕ → Action), run 0 = x₀ →
        (watched cfg pid).InfiniteRun (Watched.Erases cfg pid) run labels →
        (∀ N, ∃ i, N ≤ i ∧ (labels i).isPassOf pid = true) →
        ∃ N, (run N).world.passes pid = none := by
  have hpres : (watched cfg pid).Preserves (Watched.Erases cfg pid) (Watched.Followed pid n) :=
    fun _ _ _ hx hok hs => hx.step hok hs
  exact ⟨fun x h => (System.Reach.invariant hpres h (h₀.followed hintact)).tolerates,
    fun run labels _ h hfair => pass_ends h hfair⟩

namespace Sample

/-- A pass has claimed the notification of two devices that belong to different users. -/
def claimedPair : Watched where
  world :=
    { clock := 0
      db :=
        { db with
          devices := pair device { device with
            id := 2, userId := some 3, pushToken := "bbbbbbbbbbbbbbbbbbbb" } (pk_device device) rfl
          links := pair link { link with id := 2, deviceId := 2 } (pk_link link) pk_secondLink
          notifications := single (acquire 0 notification)
          deliveries := pair delivery { delivery with id := 2, deviceId := 2 }
            (pk_delivery delivery) pk_secondDelivery }
      passes := Pool.idle.set 1 (some { notification := acquire 0 notification }) }

theorem claimedPair_starts : claimedPair.Starts 1 (acquire 0 notification) :=
  ⟨rfl, rfl, rfl, rfl, rfl⟩

theorem claimedPair_intact : claimedPair.world.db.Intact := ⟨by decide, by decide⟩

end Sample

/-- The first user erases the account after the push to the first device was recorded: the pass
sends the second delivery and ends SENT. -/
theorem sample_vanished_devices_tolerated : ∃ x,
    (watched .default 1).Reach (Watched.Erases .default 1) Sample.claimedPair x ∧
    x.world.passes 1 = none ∧ x.taken = [1, 2] ∧ x.closed = some .sent ∧
    (x.world.db.deliveries.get? 1).isNone ∧ x.Tolerates 1 := by
  obtain ⟨x, hreach, hx⟩ := System.exists_reach_of_guardedRun (watched .default 1)
    (Watched.Erases .default 1) Sample.claimedPair
    (List.replicate 7 (.pass 1 {}) ++ .request 1 (.deleteAccount 2) ::
      List.replicate 4 (.pass 1 {}))
    (fun x => (x.world.passes 1).isNone && decide (x.taken = [1, 2] ∧ x.closed = some .sent ∧
      (x.world.db.deliveries.get? 1).isNone)) (by decide)
  obtain ⟨hpass, hrest⟩ := Bool.and_eq_true_iff.mp hx
  obtain ⟨htaken, hclosed, hgone⟩ := of_decide_eq_true hrest
  exact ⟨x, hreach, by simpa using hpass, htaken, hclosed, hgone,
    (vanished_devices_tolerated Sample.claimedPair_starts Sample.claimedPair_intact).1 x hreach⟩

/-- The first user erases the account between the push and its record: the pass raises, and the
second delivery is never handled. -/
theorem vanished_device_stops_pass : ¬∀ (cfg : Settings) (pid : ℕ) (n : Notification)
    (x₀ x : Watched), x₀.Starts pid n → x₀.world.db.Intact →
    (watched cfg pid).Reach (fun x a => x.world.Erases pid a) x₀ x → x.Tolerates pid := by
  intro hclaim
  obtain ⟨x, hreach, hx⟩ := System.exists_reach_of_guardedRun (watched .default 1)
    (fun x a => x.world.Erases 1 a) Sample.claimedPair
    (List.replicate 6 (.pass 1 {}) ++ .request 1 (.deleteAccount 2) ::
      List.replicate 3 (.pass 1 {}))
    (fun x => (x.world.passes 1).isNone && decide (x.closed = some .processing)) (by decide)
  obtain ⟨hpass, hclosed⟩ := Bool.and_eq_true_iff.mp hx
  obtain ⟨status, hstatus, hlast⟩ := ((hclaim .default 1 _ _ x Sample.claimedPair_starts
    Sample.claimedPair_intact hreach).done (by simpa using hpass)).closed
  rw [of_decide_eq_true hclosed] at hstatus
  obtain rfl := Option.some.inj hstatus
  simp at hlast

end PushIT
