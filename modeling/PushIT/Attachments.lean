import PushIT.RequestSteps
import PushIT.Exclusion

/-!
# Owners and the entries of their device rows

Links, deliveries and quiet periods are created for the owner that their device row has at the
time.  As long as a step attaches entries for the owners of the rows, or leaves what shows on a
row to the owner it had, every owner has only entries that were attached for them.

## Main definitions

* `attachedFor`: the owner a device row had when an entry of it was created.
* `World.Shows`: the entries that show on a device row.
* `World.Sealed`: all that shows on the row of a user was attached for that user.

## Main results

* `World.Sealed.of_accounts`: a step that accounts for all that shows after it.
* `World.Sealed.pass`, `World.Sealed.advance`: the steps of passes and processes.
-/

namespace PushIT

open Relational Transition

/-! ### Entries and their owners -/

/-- The owner of the device row at the last attachment of the entry. -/
def lastAttached (e : Entry) : List Event → Option (Option ℕ)
  | [] => none
  | .attached e' owner :: h => if e' = e then some owner else lastAttached e h
  | _ :: h => lastAttached e h

/-- The device row of an entry. -/
def Db.deviceOf (db : Db) : Entry → Option ℕ
  | .link id => (db.links.get? id).map (·.deviceId)
  | .delivery id => (db.deliveries.get? id).map (·.deviceId)
  | .quietPeriod id => (db.deviceQuietPeriods.get? id).map (·.deviceId)

/-- The owner the device row had when the entry was created, or the link activated.  The entries
a run starts with count as created for the owners of that time. -/
def attachedFor (start : Db) (h : List Event) (e : Entry) : Option ℕ :=
  (lastAttached e h).getD ((start.deviceOf e).bind start.ownerOf)

/-- The entries of the device rows have numbers that were given out. -/
structure Db.Known (db : Db) : Prop where
  links : ∀ l ∈ db.links.rows, l.deviceId ≤ db.devices.seq
  deliveries : ∀ d ∈ db.deliveries.rows, d.deviceId ≤ db.devices.seq
  quietPeriods : ∀ q ∈ db.deviceQuietPeriods.rows, q.deviceId ≤ db.devices.seq

/-! ### The history -/

section History

variable {es h : List Event} {e : Entry} {owner : Option ℕ}

theorem lastAttached_append_of_not_mem (hes : ∀ o, .attached e o ∉ es) :
    lastAttached e (es ++ h) = lastAttached e h := by
  induction es with
  | nil => rfl
  | cons x es ih =>
    have htail := ih fun o ho => hes o (List.mem_cons_of_mem _ ho)
    cases x with
    | attached e' o =>
      have hne : e' ≠ e := by
        rintro rfl
        exact hes o List.mem_cons_self
      simpa [lastAttached, hne] using htail
    | _ => exact htail

/-- All attachments of an entry within a step have one owner. -/
theorem lastAttached_append_of_mem (hmem : ∃ o, .attached e o ∈ es)
    (hes : ∀ o, .attached e o ∈ es → o = owner) : lastAttached e (es ++ h) = some owner := by
  induction es with
  | nil => simp at hmem
  | cons x es ih =>
    have htail : (∃ o, .attached e o ∈ es) → lastAttached e (es ++ h) = some owner :=
      fun hmem => ih hmem fun o ho => hes o (List.mem_cons_of_mem _ ho)
    obtain ⟨o, ho⟩ := hmem
    rcases List.mem_cons.mp ho with rfl | hin
    · simp [lastAttached, hes o List.mem_cons_self]
    · cases x with
      | attached e' o' =>
        by_cases he : e' = e
        · subst he
          simp [lastAttached, hes o' List.mem_cons_self]
        · simpa [lastAttached, he] using htail ⟨o, hin⟩
      | _ => exact htail ⟨o, hin⟩

end History

/-! ### What the device rows show -/

/-- An entry that shows on a device row: an active link, a delivery, also one that a pass has
loaded, or a quiet period. -/
inductive World.Shows (w : World) : Entry → ℕ → Prop
  | link (l) (hl : l ∈ w.db.links.rows) (hactive : l.isActive = true) :
      Shows w (.link l.id) l.deviceId
  | delivery (d) (hd : d ∈ w.db.deliveries.rows) : Shows w (.delivery d.id) d.deviceId
  | quietPeriod (q) (hq : q ∈ w.db.deviceQuietPeriods.rows) :
      Shows w (.quietPeriod q.id) q.deviceId
  | held (pid p l) (hp : w.passes pid = some p) (hl : l ∈ Pass.held p.stage) :
      Shows w (.delivery l.delivery.id) l.device.id

namespace World

/-- All that shows on the row of a user was attached for that user. -/
structure Sealed (start : Db) (w : World) : Prop where
  known : w.db.Known
  held : ∀ pid p, w.passes pid = some p → ∀ l ∈ Pass.held p.stage,
    l.device.id ≤ w.db.devices.seq ∧ l.delivery.id ≤ w.db.deliveries.seq
  shows : ∀ e k, w.Shows e k → ∀ user, w.db.ownerOf k = some user →
    attachedFor start w.history e = some user

/-- A step accounts for an entry on a row of the user: it attaches the entry for that user, or
the entry showed on a row of the user before. -/
def Accounts (w : World) (es : List Event) (e : Entry) (user : ℕ) : Prop :=
  ((∃ o, .attached e o ∈ es) ∧ ∀ o, .attached e o ∈ es → o = some user) ∨
    (∀ o, .attached e o ∉ es) ∧ ∃ k, w.Shows e k ∧ w.db.ownerOf k = some user

variable {start : Db} {w w' : World}

theorem Sealed.shows_le (hw : w.Sealed start) {e : Entry} {k : ℕ} (h : w.Shows e k) :
    k ≤ w.db.devices.seq := by
  cases h with
  | link l hl hactive => exact hw.known.links l hl
  | delivery d hd => exact hw.known.deliveries d hd
  | quietPeriod q hq => exact hw.known.quietPeriods q hq
  | held pid p l hp hl => exact (hw.held pid p hp l hl).1

theorem Sealed.delivery_le (hw : w.Sealed start) {id k : ℕ} (h : w.Shows (.delivery id) k) :
    id ≤ w.db.deliveries.seq := by
  cases h with
  | delivery d hd => exact w.db.deliveries.bounded d hd
  | held pid p l hp hl => exact (hw.held pid p hp l hl).2

/-- What a pass loads shows on the device rows. -/
theorem shows_of_mem_loadDeliveries {n : ℕ} {l : LoadedDelivery}
    (hl : l ∈ loadDeliveries w.db n) : w.Shows (.delivery l.delivery.id) l.device.id := by
  obtain ⟨hmem, -, hdevice⟩ := Pass.mem_loadDeliveries hl
  rw [show l.device.id = l.delivery.deviceId from (Table.get?_eq_some.mp hdevice).2]
  exact .delivery _ hmem

/-- A step that accounts for all that shows after it. -/
theorem Sealed.of_accounts (hw : w.Sealed start) (es : List Event)
    (hhistory : w'.history = es ++ w.history) (hknown : w'.db.Known)
    (hheld : ∀ pid p, w'.passes pid = some p → ∀ l ∈ Pass.held p.stage,
      l.device.id ≤ w'.db.devices.seq ∧ l.delivery.id ≤ w'.db.deliveries.seq)
    (hshows : ∀ e k, w'.Shows e k → ∀ user, w'.db.ownerOf k = some user →
      w.Accounts es e user) : w'.Sealed start := by
  refine ⟨hknown, hheld, fun e k hshow user howner => ?_⟩
  unfold attachedFor
  rw [hhistory]
  rcases hshows e k hshow user howner with ⟨hmem, hall⟩ | ⟨hnot, j, hold, howner⟩
  · rw [lastAttached_append_of_mem hmem hall]
    rfl
  · rw [lastAttached_append_of_not_mem hnot]
    exact hw.shows e j hold user howner

end World

/-! ### Steps that attach nothing -/

/-- Every entry after was one before, of the same row, and the rows keep their owners. -/
structure Db.Keeps (db db' : Db) : Prop where
  devices : db.devices.seq ≤ db'.devices.seq
  deliverySeq : db.deliveries.seq ≤ db'.deliveries.seq
  owners : ∀ k ≤ db.devices.seq, ∀ user, db'.ownerOf k = some user → db.ownerOf k = some user
  links : ∀ l' ∈ db'.links.rows, ∃ l ∈ db.links.rows,
    l.id = l'.id ∧ l.deviceId = l'.deviceId ∧ (l'.isActive = true → l.isActive = true)
  deliveries : ∀ d' ∈ db'.deliveries.rows, ∃ d ∈ db.deliveries.rows,
    d.id = d'.id ∧ d.deviceId = d'.deviceId
  quietPeriods : ∀ q' ∈ db'.deviceQuietPeriods.rows, ∃ q ∈ db.deviceQuietPeriods.rows,
    q.id = q'.id ∧ q.deviceId = q'.deviceId

theorem Db.Shrinks.ownerOf {db db' : Db} (h : db.Shrinks db') {k user : ℕ}
    (howner : db'.ownerOf k = some user) : db.ownerOf k = some user := by
  obtain ⟨d, hd, hownerd⟩ := Option.bind_eq_some_iff.mp howner
  exact Option.bind_eq_some_iff.mpr ⟨d, h.devices.get? hd, hownerd⟩

theorem Db.Shrinks.keeps {db db' : Db} (h : db.Shrinks db') : db.Keeps db' where
  devices := h.devices.seq.ge
  deliverySeq := h.deliveries.seq.ge
  owners _ _ _ howner := h.ownerOf howner
  links l hl := ⟨l, h.links.rows l hl, rfl, rfl, id⟩
  deliveries d hd := ⟨d, h.deliveries.rows d hd, rfl, rfl⟩
  quietPeriods q hq := ⟨q, h.deviceQuietPeriods.rows q hq, rfl, rfl⟩

/-- The rows of the devices and of their entries stay. -/
theorem Db.Keeps.of_eq {db db' : Db} (hdevices : db'.devices = db.devices)
    (hlinks : db'.links = db.links) (hdeliveries : db'.deliveries = db.deliveries)
    (hquiet : db'.deviceQuietPeriods = db.deviceQuietPeriods) : db.Keeps db' where
  devices := hdevices ▸ le_rfl
  deliverySeq := hdeliveries ▸ le_rfl
  owners k _ user howner := by simpa only [Db.ownerOf, hdevices] using howner
  links l hl := ⟨l, hlinks ▸ hl, rfl, rfl, id⟩
  deliveries d hd := ⟨d, hdeliveries ▸ hd, rfl, rfl⟩
  quietPeriods q hq := ⟨q, hquiet ▸ hq, rfl, rfl⟩

theorem Db.Known.of_keeps {db db' : Db} (hdb : db.Known) (h : db.Keeps db') : db'.Known where
  links l' hl' := by
    obtain ⟨l, hl, -, hdevice, -⟩ := h.links l' hl'
    exact hdevice ▸ (hdb.links l hl).trans h.devices
  deliveries d' hd' := by
    obtain ⟨d, hd, -, hdevice⟩ := h.deliveries d' hd'
    exact hdevice ▸ (hdb.deliveries d hd).trans h.devices
  quietPeriods q' hq' := by
    obtain ⟨q, hq, -, hdevice⟩ := h.quietPeriods q' hq'
    exact hdevice ▸ (hdb.quietPeriods q hq).trans h.devices

namespace World

variable {start : Db} {w w' : World}

/-- What shows after showed before, if the passes hold only what showed. -/
theorem shows_of_keeps (hdb : w.db.Keeps w'.db)
    (hheld : ∀ pid p, w'.passes pid = some p → ∀ l ∈ Pass.held p.stage,
      w.Shows (.delivery l.delivery.id) l.device.id) {e : Entry} {k : ℕ} (h : w'.Shows e k) :
    w.Shows e k := by
  cases h with
  | link l' hl' hactive =>
    obtain ⟨l, hl, hid, hdevice, himp⟩ := hdb.links l' hl'
    exact hid ▸ hdevice ▸ .link l hl (himp hactive)
  | delivery d' hd' =>
    obtain ⟨d, hd, hid, hdevice⟩ := hdb.deliveries d' hd'
    exact hid ▸ hdevice ▸ .delivery d hd
  | quietPeriod q' hq' =>
    obtain ⟨q, hq, hid, hdevice⟩ := hdb.quietPeriods q' hq'
    exact hid ▸ hdevice ▸ .quietPeriod q hq
  | held pid p l hp hl => exact hheld pid p hp l hl

/-- A step without attachments, whose passes hold only what showed. -/
theorem Sealed.of_keeps (hw : w.Sealed start) (es : List Event)
    (hhistory : w'.history = es ++ w.history) (hes : ∀ e o, .attached e o ∉ es)
    (hdb : w.db.Keeps w'.db)
    (hheld : ∀ pid p, w'.passes pid = some p → ∀ l ∈ Pass.held p.stage,
      w.Shows (.delivery l.delivery.id) l.device.id) : w'.Sealed start := by
  refine hw.of_accounts es hhistory (hw.known.of_keeps hdb) ?_ ?_
  · intro pid p hp l hl
    have hshow := hheld pid p hp l hl
    exact ⟨(hw.shows_le hshow).trans hdb.devices, (hw.delivery_le hshow).trans hdb.deliverySeq⟩
  · intro e k hshow user howner
    have hold := shows_of_keeps hdb hheld hshow
    exact Or.inr ⟨hes e, k, hold, hdb.owners k (hw.shows_le hold) user howner⟩

end World

/-! ### Steps that create deliveries -/

section Creation

variable {before after : Db}

theorem not_mem_deliveriesAttached {e : Entry}
    (he : ∀ id, e = .delivery id → id ≤ before.deliveries.seq) (o : Option ℕ) :
    .attached e o ∉ deliveriesAttached before after := by
  intro hmem
  obtain ⟨d, hd, heq⟩ := List.mem_map.mp hmem
  obtain ⟨rfl, -⟩ := Event.attached.inj heq
  have hnew : before.deliveries.seq < d.id := by simpa using (Table.mem_select.mp hd).2
  exact absurd (he d.id rfl) (Nat.not_le.mpr hnew)

/-- A new delivery is attached once, for the owner of its device. -/
theorem mem_deliveriesAttached {d : NotificationDelivery} (hd : d ∈ after.deliveries.rows)
    (hnew : before.deliveries.seq < d.id) {o : Option ℕ} :
    .attached (.delivery d.id) o ∈ deliveriesAttached before after ↔
      o = after.ownerOf d.deviceId := by
  constructor
  · intro hmem
    obtain ⟨d', hd', heq⟩ := List.mem_map.mp hmem
    obtain ⟨hid, rfl⟩ := Event.attached.inj heq
    rw [Table.eq_of_pk (Table.mem_select.mp hd').1 hd (Entry.delivery.inj hid)]
  · rintro rfl
    exact List.mem_map.mpr ⟨d, Table.mem_select.mpr ⟨hd, by simpa using hnew⟩, rfl⟩

end Creation

namespace World

variable {start : Db} {w w' : World}

/-- A step that creates deliveries to devices that exist. -/
theorem Sealed.of_deliveries (hw : w.Sealed start) {n : ℕ} {ids : List ℕ} (es : List Event)
    (hhistory : w'.history = es ++ w.history)
    (hes : ∀ e o, .attached e o ∈ es ↔ .attached e o ∈ deliveriesAttached w.db w'.db)
    (hids : ∀ k ∈ ids, (w.db.devices.get? k).isSome)
    (hdevices : w'.db.devices = w.db.devices) (hlinks : w'.db.links = w.db.links)
    (hquiet : w'.db.deviceQuietPeriods = w.db.deviceQuietPeriods)
    (hdeliveries : w'.db.deliveries =
      w.db.deliveries.insertAll (newDelivery n) (fun _ _ => rfl) ids)
    (hheld : ∀ pid p, w'.passes pid = some p → ∀ l ∈ Pass.held p.stage,
      w.Shows (.delivery l.delivery.id) l.device.id) : w'.Sealed start := by
  have hrows : ∀ d ∈ w'.db.deliveries.rows, d ∈ w.db.deliveries.rows ∨
      w.db.deliveries.seq < d.id ∧ (w.db.devices.get? d.deviceId).isSome := by
    intro d hd
    rw [hdeliveries] at hd
    rcases Table.mem_insertAll hd with hold | ⟨k, hk, hlt, hnew⟩
    · exact Or.inl hold
    · refine Or.inr ⟨hlt, ?_⟩
      rw [hnew]
      exact hids k hk
  have hseq : w.db.deliveries.seq ≤ w'.db.deliveries.seq := by
    rw [hdeliveries]
    exact Table.seq_le_insertAll _ _ _ _
  have howners : ∀ k, w'.db.ownerOf k = w.db.ownerOf k := fun k => by
    unfold Db.ownerOf
    rw [hdevices]
  -- an entry that showed before is not attached again
  have hkept : ∀ e k, w.Shows e k → ∀ user, w'.db.ownerOf k = some user →
      w.Accounts es e user := by
    intro e k hshow user howner
    refine Or.inr ⟨fun o ho => ?_, k, hshow, howners k ▸ howner⟩
    refine not_mem_deliveriesAttached (fun id he => ?_) o ((hes e o).mp ho)
    exact hw.delivery_le (he ▸ hshow)
  refine hw.of_accounts es hhistory ?_ ?_ ?_
  · refine ⟨hdevices ▸ hlinks ▸ hw.known.links, fun d hd => ?_,
      hdevices ▸ hquiet ▸ hw.known.quietPeriods⟩
    rw [hdevices]
    rcases hrows d hd with hold | ⟨-, hdevice⟩
    · exact hw.known.deliveries d hold
    · obtain ⟨device, hdevice⟩ := Option.isSome_iff_exists.mp hdevice
      obtain ⟨hmem, hid⟩ := Table.get?_eq_some.mp hdevice
      exact hid ▸ w.db.devices.bounded device hmem
  · intro pid p hp l hl
    have hshow := hheld pid p hp l hl
    exact ⟨hdevices ▸ hw.shows_le hshow, (hw.delivery_le hshow).trans hseq⟩
  · intro e k hshow user howner
    cases hshow with
    | link l hl hactive => exact hkept _ _ (.link l (hlinks ▸ hl) hactive) user howner
    | quietPeriod q hq => exact hkept _ _ (.quietPeriod q (hquiet ▸ hq)) user howner
    | held pid p l hp hl => exact hkept _ _ (hheld pid p hp l hl) user howner
    | delivery d hd =>
      rcases hrows d hd with hold | ⟨hlt, -⟩
      · exact hkept _ _ (.delivery d hold) user howner
      · left
        simp only [hes, mem_deliveriesAttached hd hlt, howner]
        exact ⟨⟨_, rfl⟩, fun _ ho => ho⟩

end World

/-! ### Passes -/

namespace Pass.Moves

variable {cfg : Settings} {now : Instant} {db : Db} {n : Notification} {stage : Stage}
  {s : PassStep}

/-- A step of a pass attaches nothing and keeps the entries, or materializes its deliveries. -/
theorem keeps_or_materialized (h : Moves cfg now db n stage s) :
    db.Keeps s.db ∧ (∀ e o, .attached e o ∉ s.events) ∨
      ∃ ids, (∀ k ∈ ids, (db.devices.get? k).isSome) ∧ s.db = db.createDeliveries n.id ids ∧
        s.events = deliveriesAttached db s.db := by
  have hkeeps : (s.db.deliveries = db.deliveries ∨ ∃ d f, ∃ hm : Marks cfg now stage d f,
      s.db.deliveries = db.deliveries.modify d.id f hm.pk_eq) → db.Keeps s.db := by
    intro hdeliveries
    obtain ⟨-, hlinks, hquiet, -⟩ := h.frame
    refine ⟨h.seq_devices.ge, ?_, ?_, ?_, ?_, ?_⟩
    · rcases hdeliveries with hs | ⟨d, f, hm, hs⟩ <;> rw [hs]
      simp
    · intro k _ user howner
      obtain ⟨d, hd, hownerd⟩ := Option.bind_eq_some_iff.mp howner
      obtain ⟨d₀, hd₀, -, huser⟩ := h.get?_device hd
      exact Option.bind_eq_some_iff.mpr ⟨d₀, hd₀, huser ▸ hownerd⟩
    · exact fun l hl => ⟨l, hlinks ▸ hl, rfl, rfl, id⟩
    · intro d' hd'
      rcases hdeliveries with hs | ⟨d, f, hm, hs⟩ <;> rw [hs] at hd'
      · exact ⟨d', hd', rfl, rfl⟩
      · obtain ⟨d₀, hd₀, rfl⟩ := Table.mem_modify.mp hd'
        refine ⟨d₀, hd₀, ?_⟩
        split
        · exact ⟨(hm.pk_eq d₀).symm, (hm.keeps d₀).2.symm⟩
        · exact ⟨rfl, rfl⟩
    · exact fun q hq => ⟨q, hquiet ▸ hq, rfl, rfl⟩
  have hsilent : (∀ ids, stage ≠ .materializing ids) → ∀ e o, .attached e o ∉ s.events := by
    intro hstage e o he
    obtain ⟨ids, heq, -⟩ := h.attached he
    exact hstage ids heq
  rcases h.deliveries with hs | hs | ⟨ids, rfl, hs⟩
  · cases h with
    | materialized ids hn hids => exact Or.inr ⟨ids, hids, rfl, rfl⟩
    | _ => exact Or.inl ⟨hkeeps (Or.inl hs), fun e o he => by simp [on, ended] at he⟩
  · refine Or.inl ⟨hkeeps (Or.inr hs), hsilent ?_⟩
    rintro ids rfl
    obtain ⟨d, f, hm, -⟩ := hs
    cases hm
  · cases h with
    | materialized _ hn hids => exact Or.inr ⟨ids, hids, rfl, rfl⟩
    | notMaterialized => exact Or.inl ⟨hkeeps (Or.inl rfl), fun e o he => by simp [ended] at he⟩

end Pass.Moves

namespace World

variable {start : Db} {w : World}

/-- A step of a pass. -/
theorem Sealed.pass {cfg : Settings} (hw : w.Sealed start) {pid : ℕ} {p : Pass} {s : PassStep}
    (hp : w.passes pid = some p)
    (hmoves : Pass.Moves cfg w.clock w.db p.notification p.stage s) :
    (w.afterPass pid s).Sealed start := by
  have hheld : ∀ i q, (w.afterPass pid s).passes i = some q → ∀ l ∈ Pass.held q.stage,
      w.Shows (.delivery l.delivery.id) l.device.id := by
    refine Pool.forall_set (fun i q hq l hl => .held i q l hq hl) fun q hnext l hl => ?_
    rcases hmoves.held hnext hl with hold | ⟨hload, -⟩
    · exact .held pid p l hp hold
    · exact shows_of_mem_loadDeliveries hload
  rcases hmoves.keeps_or_materialized with ⟨hdb, hsilent⟩ | ⟨ids, hids, hdb, hevents⟩
  · exact hw.of_keeps s.events.reverse rfl (fun e o he => hsilent e o (List.mem_reverse.mp he))
      hdb hheld
  · have hafter : (w.afterPass pid s).db = w.db.createDeliveries p.notification.id ids := hdb
    refine hw.of_deliveries s.events.reverse rfl (fun e o => ?_)
      (fun k hk => hids k (List.mem_of_mem_filter hk)) (by rw [hafter]; rfl)
      (by rw [hafter]; rfl) (by rw [hafter]; rfl) (by rw [hafter]; rfl) hheld
    rw [List.mem_reverse, hevents]
    rfl

end World

/-! ### Links -/

/-- A link is created for a device that exists. -/
theorem Process.advance_known (now : Instant) {db : Db} (input : TaskInput) (hdb : db.Known)
    (p : Process) : ∀ l ∈ (p.advance now db input).db.links.rows, l.deviceId ≤ db.devices.seq := by
  have hmodify : ∀ (id : ℕ) (f : DeviceApplicationLink → DeviceApplicationLink)
      (hf : ∀ l, pk (f l) = pk l), (∀ l, (f l).deviceId = l.deviceId) →
      ∀ l ∈ (db.links.modify id f hf).rows, l.deviceId ≤ db.devices.seq := by
    intro id f hf hkeep l hl
    obtain ⟨l₀, hl₀, rfl⟩ := Table.mem_modify.mp hl
    split
    · exact hkeep l₀ ▸ hdb.links l₀ hl₀
    · exact hdb.links l₀ hl₀
  cases p with
  | link deviceId applicationId =>
    simp only [advance, getOrCreateLink]
    split
    · next l hl =>
      split
      · exact hdb.links
      · exact hmodify l.id activateLink (fun _ => rfl) fun _ => rfl
    · split
      · next hexists =>
        intro l hl
        change l ∈ (db.links.insert (newLink now deviceId applicationId) (fun _ => rfl)).rows at hl
        rcases Table.mem_insert.mp hl with hl | rfl
        · exact hdb.links l hl
        · obtain ⟨hdevice, -⟩ := Bool.and_eq_true_iff.mp hexists
          obtain ⟨d, hd⟩ := Option.isSome_iff_exists.mp hdevice
          obtain ⟨hmem, hid⟩ := Table.get?_eq_some.mp hd
          exact hid ▸ db.devices.bounded d hmem
      · exact hdb.links
  | unlink linkId source =>
    exact hmodify linkId (deactivateLink now source) (fun _ => rfl) fun _ => rfl
  | _ => exact hdb.links

namespace World

variable {start : Db} {w : World}

/-- A step that attaches one entry, for the owner of its row. -/
theorem Sealed.of_attached {w' : World} (hw : w.Sealed start) {e₀ : Entry} {owner₀ : Option ℕ}
    (hhistory : w'.history = .attached e₀ owner₀ :: w.history) (hknown : w'.db.Known)
    (hdevices : w'.db.devices = w.db.devices)
    (hdeliveries : w'.db.deliveries = w.db.deliveries) (hpasses : w'.passes = w.passes)
    (hshows : ∀ e k, w'.Shows e k →
      e = e₀ ∧ w.db.ownerOf k = owner₀ ∨ e ≠ e₀ ∧ w.Shows e k) : w'.Sealed start := by
  refine hw.of_accounts [_] hhistory hknown
    (fun pid p hp => hdevices ▸ hdeliveries ▸ hw.held pid p (hpasses ▸ hp)) ?_
  intro e k hshow user howner
  have howner : w.db.ownerOf k = some user := by simpa only [Db.ownerOf, hdevices] using howner
  rcases hshows e k hshow with ⟨rfl, hattached⟩ | ⟨hne, hold⟩
  · left
    simp [← hattached, howner]
  · refine Or.inr ⟨fun o ho => hne ?_, k, hold, howner⟩
    exact (Event.attached.inj (List.mem_singleton.mp ho)).1

/-- A step that attaches a link, or activates it. -/
theorem Sealed.of_link {w' : World} (hw : w.Sealed start) {id deviceId : ℕ}
    (hhistory : w'.history = .attached (.link id) (w.db.ownerOf deviceId) :: w.history)
    (hdevices : w'.db.devices = w.db.devices) (hdeliveries : w'.db.deliveries = w.db.deliveries)
    (hquiet : w'.db.deviceQuietPeriods = w.db.deviceQuietPeriods)
    (hpasses : w'.passes = w.passes)
    (hknown : ∀ l ∈ w'.db.links.rows, l.deviceId ≤ w.db.devices.seq)
    (hlinks : ∀ l ∈ w'.db.links.rows, l.id = id ∧ l.deviceId = deviceId ∨
      l.id ≠ id ∧ l ∈ w.db.links.rows) : w'.Sealed start := by
  refine hw.of_attached hhistory ⟨hdevices ▸ hknown, hdevices ▸ hdeliveries ▸ hw.known.deliveries,
    hdevices ▸ hquiet ▸ hw.known.quietPeriods⟩ hdevices hdeliveries hpasses fun e k hshow => ?_
  cases hshow with
  | delivery d hd => exact Or.inr ⟨by simp, .delivery d (hdeliveries ▸ hd)⟩
  | quietPeriod q hq => exact Or.inr ⟨by simp, .quietPeriod q (hquiet ▸ hq)⟩
  | held pid p l hp hl => exact Or.inr ⟨by simp, .held pid p l (hpasses ▸ hp) hl⟩
  | link l hl hactive =>
    rcases hlinks l hl with ⟨rfl, rfl⟩ | ⟨hne, hold⟩
    · exact Or.inl ⟨rfl, rfl⟩
    · exact Or.inr ⟨by simpa using hne, .link l hold hactive⟩

/-- A request or task writes a link, or attaches nothing. -/
theorem Sealed.advance (hw : w.Sealed start) (rid : ℕ) (input : TaskInput) (p : Process) :
    (w.afterProcess rid (p.advance w.clock w.db input)).Sealed start := by
  have hadvances := Process.advance_cases w.clock w.db input p
  have hknown := Process.advance_known w.clock input hw.known p
  generalize p.advance w.clock w.db input = o at hadvances hknown
  have hkeeps : (∀ e owner, .attached e owner ∉ o.events) → w.db.Keeps o.db →
      (w.afterProcess rid o).Sealed start := fun hes hdb =>
    hw.of_keeps o.events.reverse rfl (fun e owner he => hes e owner (List.mem_reverse.mp he)) hdb
      fun pid q hq l hl => .held pid q l hq hl
  cases hadvances with
  | moves p s h =>
    refine hkeeps (fun e owner he => ?_) (.of_eq rfl rfl rfl rfl)
    rcases h.events he with ⟨id, source, heq⟩ | ⟨id, found, d, heq⟩ <;> cases heq
  | destroyed id =>
    refine hkeeps (fun e owner he => ?_) (Db.Shrinks.deleteNotifications _ _).keeps
    obtain ⟨n, -, heq⟩ := Option.map_eq_some_iff.mp (Option.mem_toList.mp he)
    cases heq
  | linkKept => exact hkeeps (by simp) (Db.Shrinks.refl _).keeps
  | linkActivated deviceId applicationId l hf hl hdevice =>
    refine hw.of_link rfl rfl rfl rfl rfl hknown fun l' hl' => ?_
    change l' ∈ (w.db.links.modify l.id activateLink hf).rows at hl'
    obtain ⟨l₀, hl₀, rfl⟩ := Table.mem_modify.mp hl'
    split
    · next hid =>
      obtain rfl := Table.eq_of_pk hl₀ hl hid
      exact Or.inl ⟨rfl, hdevice⟩
    · next hid => exact Or.inr ⟨hid, hl₀⟩
  | linkCreated deviceId applicationId hmk =>
    refine hw.of_link rfl rfl rfl rfl rfl hknown fun l' hl' => ?_
    change l' ∈ (w.db.links.insert (newLink w.clock deviceId applicationId) hmk).rows at hl'
    rcases Table.mem_insert.mp hl' with hold | rfl
    · exact Or.inr ⟨(Nat.lt_succ_of_le (w.db.links.bounded l' hold)).ne, hold⟩
    · exact Or.inl ⟨rfl, rfl⟩
  | unlinked linkId source hf =>
    refine hkeeps (by simp) ⟨le_rfl, le_rfl, fun _ _ _ h => h, ?_, fun d hd => ⟨d, hd, rfl, rfl⟩,
      fun q hq => ⟨q, hq, rfl, rfl⟩⟩
    intro l' hl'
    change l' ∈ (w.db.links.modify linkId (deactivateLink w.clock source) hf).rows at hl'
    obtain ⟨l, hl, rfl⟩ := Table.mem_modify.mp hl'
    refine ⟨l, hl, ?_⟩
    split
    · exact ⟨rfl, rfl, fun h => by simp [deactivateLink] at h⟩
    · exact ⟨rfl, rfl, id⟩

end World

end PushIT
