import PushIT.Attachments
import PushIT.Sending
import PushIT.Views

/-!
# Device rows that change hands

An app that identifies with a push token the server knows gets the device row of that token,
whoever owned it.  The takeover switches off the active links of the row, and leaves its
deliveries and quiet periods to the new owner, as well as the pushes of the passes that have
loaded them.  A row that carries none of these can be taken over without a trace.

## Main definitions

* `World.Private`: owners see and receive only what was created for them.
* `World.TakesClear`: a row that is taken over carries nothing the takeover leaves.

## Main results

* `takeover_private`: owners see only what is theirs along every such run.
* `takeover_shows_inbox`: a takeover shows the inbox of the owner before.
-/

namespace PushIT

open Relational Transition

/-- All that an owner reads or receives through a device row was created while the row was
theirs. -/
structure World.Private (cfg : Settings) (start : Db) (w : World) : Prop where
  links : ∀ d ∈ w.db.devices.rows, ∀ user, d.userId = some user →
    ∀ l ∈ applicationLinksOf w.db d.id, l.link.isActive = true →
      attachedFor start w.history (.link l.link.id) = some user
  inbox : ∀ d ∈ w.db.devices.rows, ∀ user, d.userId = some user →
    ∀ since, ∀ n ∈ inboxNotifications w.db d since, ∀ x ∈ deviceDeliveries w.db n.id d.id,
      attachedFor start w.history (.delivery x.id) = some user
  detail : ∀ user id n, receivedNotification w.db user id = some n →
    ∀ x ∈ ownDeliveries w.db user n.id,
      attachedFor start w.history (.delivery x.id) = some user
  quietPeriods : ∀ d ∈ w.db.devices.rows, ∀ user, d.userId = some user →
    ∀ q ∈ w.db.deviceQuietPeriods.rows, q.deviceId = d.id →
      attachedFor start w.history (.quietPeriod q.id) = some user
  pushes : ∀ pid p, w.passes pid = some p → ∀ input n delivery device token accepted,
    .called n delivery device token accepted ∈ (p.advance cfg w.clock w.db input).events →
      ∀ user, w.db.ownerOf device = some user →
        attachedFor start w.history (.delivery delivery) = some user

/-- The device row carries nothing that a takeover leaves to the new owner: no delivery and no
quiet period, none that a running pass has loaded, and no active link where nobody owned it. -/
structure World.Clear (w : World) (k : ℕ) : Prop where
  deliveries : ∀ d ∈ w.db.deliveries.rows, d.deviceId ≠ k
  quietPeriods : ∀ q ∈ w.db.deviceQuietPeriods.rows, q.deviceId ≠ k
  held : ∀ pid p, w.passes pid = some p → ∀ l ∈ Pass.held p.stage, l.device.id ≠ k
  links : w.db.ownerOf k = none → ∀ l ∈ w.db.links.rows, l.deviceId = k → l.isActive = false

/-- The upsert of a request; a link request needs an active application. -/
def Request.upsertOf (db : Db) : Request → Option (ℕ × DeviceData)
  | .identify user data => some (user, data)
  | .link user data applicationId =>
    if (db.applications.get? applicationId).any (·.isActive) then some (user, data) else none
  | _ => none

/-- A device row that goes to a user who did not own it is clear. -/
def World.TakesClear (w : World) : Action → Prop
  | .request _ r => ∀ user data, r.upsertOf w.db = some (user, data) →
      ∀ d, selectExistingDevice w.db data.pushToken = some d → d.userId ≠ some user →
        w.Clear d.id
  | _ => True

/-! ### Upserts -/

section Upserts

variable {now : Instant} {db : Db} {user : ℕ} {data : DeviceData} {u : Upsert}

/-- The owners after an upsert. -/
theorem Upserted.ownerOf_cases (hu : Upserted now db user data u) {k owner : ℕ}
    (h : u.db.ownerOf k = some owner) :
    k ≠ u.deviceId ∧ db.ownerOf k = some owner ∨ k = u.deviceId ∧ owner = user := by
  obtain ⟨d, hd, howner⟩ := Option.bind_eq_some_iff.mp h
  obtain ⟨hmem, rfl⟩ := Table.get?_eq_some.mp hd
  rcases hu.device_cases hmem with ⟨hold, hne⟩ | ⟨hid, huser, -⟩
  · exact Or.inl ⟨hne, Option.bind_eq_some_iff.mpr ⟨d, Table.get?_pk hold, howner⟩⟩
  · exact Or.inr ⟨hid, Option.some.inj (howner.symm.trans huser)⟩

/-- A takeover from another owner leaves no active link on the row. -/
theorem mem_links_takeOverLinks {d : Device} {l' : DeviceApplicationLink}
    (hl' : l' ∈ (db.takeOverLinks now user d).links.rows) :
    ∃ l ∈ db.links.rows, l.id = l'.id ∧ l.deviceId = l'.deviceId ∧
      (l'.isActive = true → l.isActive = true ∧
        (d.isForeign user = true → l.deviceId ≠ d.id)) := by
  unfold Db.takeOverLinks at hl'
  split at hl'
  · change l' ∈ (db.links.update (fun l => l.deviceId == d.id && l.isActive)
      (deactivateLink now .takeover) (fun _ => rfl)).rows at hl'
    obtain ⟨l, hl, rfl⟩ := Table.mem_update.mp hl'
    refine ⟨l, hl, ?_⟩
    split
    · exact ⟨rfl, rfl, fun h => by simp [deactivateLink] at h⟩
    · next hnot => exact ⟨rfl, rfl, fun h => ⟨h, fun _ hid => hnot (by simp [h, hid])⟩⟩
  · next hforeign => exact ⟨l', hl', rfl, rfl, fun h => ⟨h, fun hf => absurd hf hforeign⟩⟩

/-- The attachments of a merge are those of the links it revives. -/
theorem attached_mem_mergeEvents {source target : ℕ} {e : Entry} {o : Option ℕ} :
    .attached e o ∈ mergeEvents db source target ↔
      ∃ t ∈ db.links.rows, linkRevives db source target t = true ∧ e = .link t.id ∧
        o = db.ownerOf target := by
  simp only [mergeEvents, List.mem_cons, reduceCtorEq, List.mem_map, false_or, Table.mem_select,
    Event.attached.injEq]
  constructor
  · rintro ⟨t, ⟨ht, hrevives⟩, rfl, rfl⟩
    exact ⟨t, ht, hrevives, rfl, rfl⟩
  · rintro ⟨t, ht, hrevives, rfl, rfl⟩
    exact ⟨t, ⟨ht, hrevives⟩, rfl, rfl⟩

end Upserts

/-- What refers to a device refers to one that exists, also after a merge. -/
theorem Db.Known.mergeDeviceInto {db : Db} (hdb : db.Known) {source target : ℕ} {s : Device}
    (hs : db.devices.get? source = some s) (htarget : target ≤ db.devices.seq) :
    (db.mergeDeviceInto source target).Known where
  links l' hl' := by
    obtain ⟨l, hl, ⟨rfl, -⟩ | ⟨rfl, -⟩ | ⟨rfl, -⟩⟩ := mem_links_mergeDeviceInto hs hl'
    · exact hdb.links _ hl
    · exact htarget
    · exact hdb.links l hl
  deliveries d' hd' := by
    obtain ⟨d, hd, ⟨rfl, -⟩ | ⟨rfl, -⟩⟩ := mem_deliveries_mergeDeviceInto hs hd'
    · exact hdb.deliveries _ hd
    · exact htarget
  quietPeriods q' hq' := by
    obtain ⟨q, hq, ⟨rfl, -⟩ | ⟨rfl, -⟩⟩ := mem_deviceQuietPeriods_mergeDeviceInto hs hq'
    · exact hdb.quietPeriods _ hq
    · exact htarget

namespace World

variable {start : Db} {w w' : World} {user : ℕ} {data : DeviceData}

/-- Only active links of another owner may show on a clear row. -/
theorem Clear.not_shows {k : ℕ} (hk : w.Clear k) {e : Entry} (h : w.Shows e k)
    (hlink : ∀ id, e = .link id → w.db.ownerOf k = none) : False := by
  cases h with
  | link l hl hactive =>
    have := hk.links (hlink l.id rfl) l hl rfl
    simp [hactive] at this
  | delivery d hd => exact hk.deliveries d hd rfl
  | quietPeriod q hq => exact hk.quietPeriods q hq rfl
  | held pid p l hp hl => exact hk.held pid p hp l hl rfl

theorem ownerOf_of_selectExistingDevice {db : Db} {pushToken : String} {d : Device}
    (hd : selectExistingDevice db pushToken = some d) : db.ownerOf d.id = d.userId := by
  have hget : db.devices.get? d.id = some d := Table.get?_pk (selectExistingDevice_eq_some hd).1
  simp [Db.ownerOf, hget]

/-- The device with the token of the request was the user's, or is taken over. -/
theorem Sealed.refreshed (hw : w.Sealed start) {d : Device}
    (hd : selectExistingDevice w.db data.pushToken = some d)
    (hclear : d.userId ≠ some user → w.Clear d.id)
    (hdb : w'.db = w.db.refreshDevice w.clock user data d) (hhistory : w'.history = w.history)
    (hpasses : w'.passes = w.passes) : w'.Sealed start := by
  have howner := ownerOf_of_selectExistingDevice hd
  obtain ⟨hseq, hdeliveries, hquiet⟩ : w'.db.devices.seq = w.db.devices.seq ∧
      w'.db.deliveries = w.db.deliveries ∧
      w'.db.deviceQuietPeriods = w.db.deviceQuietPeriods := by
    simp [hdb]
  have hlinks : ∀ l' ∈ w'.db.links.rows, ∃ l ∈ w.db.links.rows, l.id = l'.id ∧
      l.deviceId = l'.deviceId ∧ (l'.isActive = true → l.isActive = true ∧
        (d.isForeign user = true → l.deviceId ≠ d.id)) := fun l' hl' => by
    rw [hdb] at hl'
    exact mem_links_takeOverLinks hl'
  have hshows : ∀ e k, w'.Shows e k → w.Shows e k ∧
      ((∃ id, e = .link id) → d.isForeign user = true → k ≠ d.id) := by
    intro e k hshow
    cases hshow with
    | link l' hl' hactive =>
      obtain ⟨l, hl, hid, hdevice, himp⟩ := hlinks l' hl'
      obtain ⟨hactive, hforeign⟩ := himp hactive
      exact ⟨hid ▸ hdevice ▸ .link l hl hactive, fun _ => hdevice ▸ hforeign⟩
    | delivery x hx => exact ⟨.delivery x (hdeliveries ▸ hx), by simp⟩
    | quietPeriod q hq => exact ⟨.quietPeriod q (hquiet ▸ hq), by simp⟩
    | held pid p l hp hl => exact ⟨.held pid p l (hpasses ▸ hp) hl, by simp⟩
  refine hw.of_accounts [] hhistory ?_ ?_ ?_
  · refine ⟨fun l' hl' => ?_, hseq ▸ hdeliveries ▸ hw.known.deliveries,
      hseq ▸ hquiet ▸ hw.known.quietPeriods⟩
    obtain ⟨l, hl, -, hdevice, -⟩ := hlinks l' hl'
    exact hdevice ▸ hseq ▸ hw.known.links l hl
  · exact fun pid p hp => hseq ▸ hdeliveries ▸ hw.held pid p (hpasses ▸ hp)
  · intro e k hshow owner hk
    obtain ⟨hold, hforeign⟩ := hshows e k hshow
    rw [hdb] at hk
    refine Or.inr ⟨by simp, k, hold, ?_⟩
    rcases Upserted.ownerOf_cases (Upserted.refreshed d hd) hk with ⟨-, h⟩ | ⟨rfl, rfl⟩
    · exact h
    · -- the row itself: it was the user's, or it was clear
      by_contra hne
      rw [howner] at hne
      refine (hclear hne).not_shows hold fun id he => ?_
      rw [howner]
      by_contra hsome
      obtain ⟨other, hother⟩ := Option.ne_none_iff_exists'.mp hsome
      refine hforeign ⟨id, he⟩ ?_ rfl
      rw [hother] at hne
      simpa [Device.isForeign, hother] using hne

/-- What shows after a merge: a link that it revived, what showed on the same row, or on the
source. -/
theorem shows_of_merged {source target : ℕ} {s : Device}
    (hs : w.db.devices.get? source = some s) (hne : source ≠ target)
    (hlinks : w'.db.links = (w.db.mergeDeviceInto source target).links)
    (hdeliveries : w'.db.deliveries = (w.db.mergeDeviceInto source target).deliveries)
    (hquiet : w'.db.deviceQuietPeriods =
      (w.db.mergeDeviceInto source target).deviceQuietPeriods)
    (hpasses : w'.passes = w.passes) {e : Entry} {k : ℕ} (hshow : w'.Shows e k) :
    (∃ o, .attached e o ∈ mergeEvents w.db source target) ∧ k = target ∨
      (∀ o, .attached e o ∉ mergeEvents w.db source target) ∧
        (w.Shows e k ∨ k = target ∧ w.Shows e source) := by
  have hnotLink : (∀ id, e ≠ .link id) → ∀ o, .attached e o ∉ mergeEvents w.db source target := by
    intro he o ho
    obtain ⟨t, -, -, rfl, -⟩ := attached_mem_mergeEvents.mp ho
    exact he t.id rfl
  have hnotRevived : ∀ l ∈ w.db.links.rows, linkRevives w.db source target l = false →
      ∀ o, .attached (.link l.id) o ∉ mergeEvents w.db source target := by
    intro l hl hnot o ho
    obtain ⟨t, ht, hrevives, hid, -⟩ := attached_mem_mergeEvents.mp ho
    rw [Table.eq_of_pk hl ht (Entry.link.inj hid), hrevives] at hnot
    simp at hnot
  cases hshow with
  | link l' hl' hactive =>
    obtain ⟨l, hl, ⟨rfl, -, hnot⟩ | ⟨rfl, hdevice⟩ | ⟨rfl, hdevice, hrevives⟩⟩ :=
      mem_links_mergeDeviceInto hs (hlinks ▸ hl')
    · exact Or.inr ⟨hnotRevived _ hl hnot, Or.inl (.link _ hl hactive)⟩
    · -- a link of the source does not revive one
      have hnot : linkRevives w.db source target l = false := by
        simp [linkRevives, hdevice, hne]
      exact Or.inr ⟨hnotRevived l hl hnot, Or.inr ⟨rfl, hdevice ▸ .link l hl hactive⟩⟩
    · exact Or.inl ⟨⟨_, attached_mem_mergeEvents.mpr ⟨l, hl, hrevives, rfl, rfl⟩⟩, hdevice⟩
  | delivery d' hd' =>
    obtain ⟨d, hd, ⟨rfl, -⟩ | ⟨rfl, hdevice⟩⟩ :=
      mem_deliveries_mergeDeviceInto hs (hdeliveries ▸ hd')
    · exact Or.inr ⟨hnotLink (by simp), Or.inl (.delivery _ hd)⟩
    · exact Or.inr ⟨hnotLink (by simp), Or.inr ⟨rfl, hdevice ▸ .delivery d hd⟩⟩
  | quietPeriod q' hq' =>
    obtain ⟨q, hq, ⟨rfl, -⟩ | ⟨rfl, hdevice⟩⟩ :=
      mem_deviceQuietPeriods_mergeDeviceInto hs (hquiet ▸ hq')
    · exact Or.inr ⟨hnotLink (by simp), Or.inl (.quietPeriod _ hq)⟩
    · exact Or.inr ⟨hnotLink (by simp), Or.inr ⟨rfl, hdevice ▸ .quietPeriod q hq⟩⟩
  | held pid p l hp hl =>
    exact Or.inr ⟨hnotLink (by simp), Or.inl (.held pid p l (hpasses ▸ hp) hl)⟩

/-- A device of the user, or of nobody, is merged into another one of the user. -/
theorem Sealed.merged (hw : w.Sealed start) {old clash : Device}
    (hne : data.previousPushToken ≠ data.pushToken)
    (hold : selectExistingDevice w.db data.previousPushToken = some old)
    (howner : old.userId = some user)
    (hclash : selectExistingDevice w.db data.pushToken = some clash)
    (hforeign : clash.isForeign user = false)
    (hclear : clash.userId ≠ some user → w.Clear clash.id)
    (hdb : w'.db = (w.db.mergeDeviceInto clash.id old.id).saveRotated w.clock user data old.id)
    (hhistory : w'.history = (mergeEvents w.db clash.id old.id).reverse ++ w.history)
    (hpasses : w'.passes = w.passes) : w'.Sealed start := by
  have hownerOld : w.db.ownerOf old.id = some user :=
    (ownerOf_of_selectExistingDevice hold).trans howner
  obtain ⟨hmemOld, -⟩ := selectExistingDevice_eq_some hold
  obtain ⟨hmem, -⟩ := selectExistingDevice_eq_some hclash
  have hget : w.db.devices.get? clash.id = some clash := Table.get?_pk hmem
  have hdistinct : clash.id ≠ old.id := id_ne_of_pushToken_ne hclash hold hne.symm
  -- what shows on the source was attached for the user
  have hsource : ∀ e, w.Shows e clash.id → w.db.ownerOf clash.id = some user := by
    intro e hshow
    rw [ownerOf_of_selectExistingDevice hclash]
    by_contra hother
    refine (hclear hother).not_shows hshow fun _ _ => ?_
    rw [ownerOf_of_selectExistingDevice hclash]
    cases hid : clash.userId with
    | none => rfl
    | some other =>
      rw [hid] at hother
      have : other = user := by simpa [Device.isForeign, hid] using hforeign
      exact absurd (congrArg some this) hother
  have howners : ∀ k owner, w'.db.ownerOf k = some owner → w.db.ownerOf k = some owner := by
    intro k owner hk
    rw [hdb] at hk
    rcases (Upserted.merged old clash hne hold howner hclash hforeign).ownerOf_cases hk with
      ⟨-, h⟩ | ⟨rfl, rfl⟩
    · exact h
    · exact hownerOld
  have hknown := hw.known.mergeDeviceInto hget (w.db.devices.bounded old hmemOld)
  have hseq : w'.db.devices.seq = w.db.devices.seq ∧
      w'.db.deliveries.seq = w.db.deliveries.seq := by
    rw [hdb]
    exact ⟨rfl, rfl⟩
  refine hw.of_accounts _ hhistory ?_
    (fun pid p hp => hseq.1 ▸ hseq.2 ▸ hw.held pid p (hpasses ▸ hp)) ?_
  · rw [hdb]
    exact ⟨hknown.links, hknown.deliveries, hknown.quietPeriods⟩
  · intro e k hshow owner hk
    have hkept := howners k owner hk
    rcases shows_of_merged hget hdistinct (by rw [hdb]; rfl) (by rw [hdb]; rfl)
      (by rw [hdb]; rfl) hpasses hshow with ⟨⟨o, ho⟩, rfl⟩ | ⟨hsilent, hold⟩
    · refine Or.inl ⟨⟨o, List.mem_reverse.mpr ho⟩, fun o ho => ?_⟩
      obtain ⟨t, -, -, -, rfl⟩ := attached_mem_mergeEvents.mp (List.mem_reverse.mp ho)
      exact hkept
    · refine Or.inr ⟨fun o ho => hsilent o (List.mem_reverse.mp ho), ?_⟩
      rcases hold with hold | ⟨rfl, hold⟩
      · exact ⟨k, hold, hkept⟩
      · obtain rfl : user = owner := Option.some.inj (hownerOld.symm.trans hkept)
        exact ⟨clash.id, hold, hsource e hold⟩

/-- An upsert that takes over clear rows only. -/
theorem Sealed.upserts (hw : w.Sealed start) {u : Upsert} (hu : Upserted w.clock w.db user data u)
    (hclear : ∀ d, selectExistingDevice w.db data.pushToken = some d → d.userId ≠ some user →
      w.Clear d.id)
    (hdb : w'.db = u.db) (hhistory : w'.history = u.events.reverse ++ w.history)
    (hpasses : w'.passes = w.passes) : w'.Sealed start := by
  have hkeeps : u.events = [] → w.db.Keeps u.db → w'.Sealed start := fun hevents hkeeps =>
    hw.of_keeps [] (by rw [hhistory, hevents]; rfl) (by simp) (hdb ▸ hkeeps)
      fun pid p hp l hl => .held pid p l (hpasses ▸ hp) hl
  have howners : ∀ k owner, u.db.ownerOf k = some owner → _ :=
    fun k owner hk => hu.ownerOf_cases hk
  cases hu with
  | rotated old hne hold howner hnone =>
    refine hkeeps rfl ⟨le_rfl, le_rfl, fun k _ owner hk => ?_, fun l hl => ⟨l, hl, rfl, rfl, id⟩,
      fun d hd => ⟨d, hd, rfl, rfl⟩, fun q hq => ⟨q, hq, rfl, rfl⟩⟩
    rcases howners k owner hk with ⟨-, h⟩ | ⟨rfl, rfl⟩
    · exact h
    · exact (ownerOf_of_selectExistingDevice hold).trans howner
  | created hnone =>
    refine hkeeps rfl ⟨Nat.le_succ _, le_rfl, fun k hk owner hown => ?_,
      fun l hl => ⟨l, hl, rfl, rfl, id⟩, fun d hd => ⟨d, hd, rfl, rfl⟩,
      fun q hq => ⟨q, hq, rfl, rfl⟩⟩
    rcases howners k owner hown with ⟨-, h⟩ | ⟨rfl, -⟩
    · exact h
    · exact absurd hk (Nat.not_succ_le_self _)
  | refreshed d hd => exact hw.refreshed hd (hclear d hd) hdb hhistory hpasses
  | merged old clash hne hold howner hclash hforeign =>
    exact hw.merged hne hold howner hclash hforeign (hclear clash hclash) hdb hhistory hpasses

/-! ### Requests -/

/-- A quiet period is created on a device of the user. -/
theorem Sealed.silenced (hw : w.Sealed start) {deviceId : ℕ} {values : AbstractQuietPeriod}
    (hp : ∀ id, pk ({ values with id, deviceId } : DeviceQuietPeriod) = id)
    (howner : w.db.ownsDevice user deviceId = true)
    (hdb : w'.db = { w.db with
      deviceQuietPeriods := w.db.deviceQuietPeriods.insert
        (fun id => { values with id, deviceId }) hp })
    (hhistory : w'.history = .attached (.quietPeriod (w.db.deviceQuietPeriods.seq + 1))
      (some user) :: w.history)
    (hpasses : w'.passes = w.passes) : w'.Sealed start := by
  obtain ⟨device, hdevice, huser⟩ := (Option.any_eq_true _ _).mp howner
  obtain ⟨hmem, hid⟩ := Table.get?_eq_some.mp hdevice
  obtain ⟨hdevices, hlinks, hdeliveries⟩ : w'.db.devices = w.db.devices ∧
      w'.db.links = w.db.links ∧ w'.db.deliveries = w.db.deliveries := by
    rw [hdb]
    exact ⟨rfl, rfl, rfl⟩
  have hquiet : ∀ q ∈ w'.db.deviceQuietPeriods.rows, q ∈ w.db.deviceQuietPeriods.rows ∨
      q.id = w.db.deviceQuietPeriods.seq + 1 ∧ q.deviceId = deviceId := by
    intro q hq
    rw [hdb] at hq
    rcases Table.mem_insert.mp hq with hold | rfl
    · exact Or.inl hold
    · exact Or.inr ⟨rfl, rfl⟩
  refine hw.of_attached hhistory ⟨hdevices ▸ hlinks ▸ hw.known.links,
    hdevices ▸ hdeliveries ▸ hw.known.deliveries, fun q hq => ?_⟩ hdevices hdeliveries hpasses
    fun e k hshow => ?_
  · rw [hdevices]
    rcases hquiet q hq with hold | ⟨-, rfl⟩
    · exact hw.known.quietPeriods q hold
    · exact hid ▸ w.db.devices.bounded device hmem
  · cases hshow with
    | link l hl hactive => exact Or.inr ⟨by simp, .link l (hlinks ▸ hl) hactive⟩
    | delivery d hd => exact Or.inr ⟨by simp, .delivery d (hdeliveries ▸ hd)⟩
    | held pid p l hp hl => exact Or.inr ⟨by simp, .held pid p l (hpasses ▸ hp) hl⟩
    | quietPeriod q hq =>
      rcases hquiet q hq with hold | ⟨hnew, rfl⟩
      · have hle : q.id ≤ w.db.deviceQuietPeriods.seq := w.db.deviceQuietPeriods.bounded q hold
        have hne : q.id ≠ w.db.deviceQuietPeriods.seq + 1 := by omega
        exact Or.inr ⟨by simpa using hne, .quietPeriod q hold⟩
      · left
        rw [hnew, Db.ownerOf, hdevice]
        exact ⟨rfl, by simpa using huser⟩

/-- A request that takes over clear rows only. -/
theorem Sealed.request {cfg : Settings} (hw : w.Sealed start) (rid : ℕ) (r : Request)
    (hclear : w.TakesClear (.request rid r)) :
    (w.afterProcess rid (r.begin cfg w.clock w.db)).Sealed start := by
  have hbegins := Request.begin_cases cfg w.clock w.db r
  generalize hbegin : r.begin cfg w.clock w.db = o at hbegins
  have hkeeps : o.events = [] → w.db.Keeps o.db → (w.afterProcess rid o).Sealed start :=
    fun hevents hdb =>
      hw.of_keeps o.events.reverse rfl (by simp [hevents]) hdb
        fun pid q hq l hl => .held pid q l hq hl
  cases hbegins with
  | shrinks r o h hevents => exact hkeeps hevents h.keeps
  | hides r o p hp h hevents | broadcasts applicationId data hp o h hevents =>
    exact hkeeps hevents (h ▸ .of_eq rfl rfl rfl rfl)
  | adjusts user id values hp o h hevents =>
    refine hkeeps hevents (h ▸ ⟨le_rfl, le_rfl, fun _ _ _ h => h,
      fun l hl => ⟨l, hl, rfl, rfl, fun h => h⟩, fun d hd => ⟨d, hd, rfl, rfl⟩, fun q' hq' => ?_⟩)
    change q' ∈ (w.db.deviceQuietPeriods.update
      (fun r => r.id == id && w.db.ownsDevice user r.deviceId)
      (fun r => { r with toAbstractQuietPeriod := values }) hp).rows at hq'
    obtain ⟨q, hq, rfl⟩ := Table.mem_update.mp hq'
    refine ⟨q, hq, ?_⟩
    split <;> exact ⟨rfl, rfl⟩
  | silences user deviceId values hp o howner h hevents =>
    exact hw.silenced hp howner h (by simp [afterProcess, hevents]) rfl
  | creates r o applicationId ids data h hevents hids =>
    refine hw.of_deliveries (n := w.db.notifications.seq + 1) o.events.reverse rfl
      (fun e owner => ?_) hids (by rw [afterProcess, h]; rfl) (by rw [afterProcess, h]; rfl)
      (by rw [afterProcess, h]; rfl) (by rw [afterProcess, h]; rfl)
      fun pid q hq l hl => .held pid q l hq hl
    rw [List.mem_reverse, hevents, List.mem_cons]
    simp only [reduceCtorEq, false_or]
    rw [← h]
    rfl
  | upserts r o user data u hu h hevents hr =>
    have hupserts : r.upsertOf w.db = some (user, data) → (w.afterProcess rid o).Sealed start :=
      fun hupsert => hw.upserts hu (hclear user data hupsert) h
        (by simp [afterProcess, hevents]) rfl
    rcases hr with rfl | ⟨applicationId, rfl⟩
    · exact hupserts rfl
    · by_cases hactive : (w.db.applications.get? applicationId).any (·.isActive) = true
      · exact hupserts (by simp [Request.upsertOf, hactive])
      · have ho : o = .done w.db := by
          rw [← hbegin]
          simp [Request.begin, hactive]
        rw [ho] at hkeeps ⊢
        exact hkeeps rfl (Db.Shrinks.refl _).keeps

/-- One action that takes over clear rows only. -/
theorem Sealed.step {cfg : Settings} {w' : World} {a : Action} (hw : w.Sealed start)
    (h : Steps cfg w a w') (hclear : w.TakesClear a) : w'.Sealed start := by
  have hkeeps : ∀ {x : World}, x.db = w.db → x.history = w.history →
      (∀ pid p, x.passes pid = some p → ∀ l ∈ Pass.held p.stage,
        w.Shows (.delivery l.delivery.id) l.device.id) → x.Sealed start :=
    fun hdb hhistory hheld => hw.of_keeps [] hhistory (by simp)
      (hdb ▸ (Db.Shrinks.refl w.db).keeps) hheld
  cases h with
  | tick duration => exact hkeeps rfl rfl fun pid p hp l hl => .held pid p l hp hl
  | notClaimed pid task rowLocked htask hpid hnone =>
    exact hkeeps rfl rfl fun pid p hp l hl => .held pid p l hp hl
  | claimed pid task n htask hpid hn hstatus =>
    refine hw.of_keeps [_] rfl (by simp) (.of_eq rfl rfl rfl rfl) ?_
    refine Pool.forall_set (fun i q hq l hl => .held i q l hq hl) fun q hq l hl => ?_
    obtain rfl := Option.some.inj hq
    simp [Pass.held] at hl
  | pass pid input p s hp hmoves => exact hw.pass hp hmoves
  | crash pid p hp =>
    exact hkeeps rfl rfl (Pool.forall_set (fun i q hq l hl => .held i q l hq hl) (by simp))
  | request rid r hrid => exact hw.request rid r hclear
  | advance rid input p hp => exact hw.advance rid input p

end World

/-! ### Runs -/

theorem World.Initial.sealed {w : World} (hw : w.Initial) (hknown : w.db.Known) :
    w.Sealed w.db where
  known := hknown
  held := by simp [hw.passes]
  shows := by
    intro e k hshow user howner
    rw [attachedFor, hw.history]
    cases hshow with
    | link l hl hactive =>
      have hget : w.db.links.get? l.id = some l := Table.get?_pk hl
      simpa [lastAttached, Db.deviceOf, hget] using howner
    | delivery d hd =>
      have hget : w.db.deliveries.get? d.id = some d := Table.get?_pk hd
      simpa [lastAttached, Db.deviceOf, hget] using howner
    | quietPeriod q hq =>
      have hget : w.db.deviceQuietPeriods.get? q.id = some q := Table.get?_pk hq
      simpa [lastAttached, Db.deviceOf, hget] using howner
    | held pid p l hp hl => simp [hw.passes] at hp

/-- What the answers show and the passes push is among what shows on the rows. -/
theorem World.Sealed.isPrivate {start : Db} {w : World} (hw : w.Sealed start) (cfg : Settings) :
    w.Private cfg start where
  links := by
    intro d hd user howner l hl hactive
    obtain ⟨row, hrow, hmap⟩ := List.mem_filterMap.mp hl
    obtain ⟨a, -, rfl⟩ := Option.map_eq_some_iff.mp hmap
    obtain ⟨hmem, hdevice⟩ := Table.mem_select.mp hrow
    have hdevice : row.deviceId = d.id := by simpa using hdevice
    refine hw.shows _ _ (.link row hmem hactive) user ?_
    rw [hdevice, Db.ownerOf, show w.db.devices.get? d.id = some d from Table.get?_pk hd]
    exact howner
  inbox := by
    intro d hd user howner since n hn x hx
    obtain ⟨hx, hdevice⟩ := List.mem_filter.mp hx
    have hdevice : x.deviceId = d.id := by simpa using hdevice
    refine hw.shows _ _ (.delivery x (Table.mem_select.mp hx).1) user ?_
    rw [hdevice, Db.ownerOf, show w.db.devices.get? d.id = some d from Table.get?_pk hd]
    exact howner
  detail := by
    intro user id n hn x hx
    obtain ⟨hx, howner⟩ := List.mem_filter.mp hx
    obtain ⟨d, hd, howner⟩ := (Option.any_eq_true _ _).mp howner
    refine hw.shows _ _ (.delivery x (Table.mem_select.mp hx).1) user ?_
    rw [Db.ownerOf, hd]
    simpa using howner
  quietPeriods := by
    intro d hd user howner q hq hdevice
    refine hw.shows _ _ (.quietPeriod q hq) user ?_
    rw [hdevice, Db.ownerOf, show w.db.devices.get? d.id = some d from Table.get?_pk hd]
    exact howner
  pushes := by
    intro pid p hp input n delivery device token accepted he user howner
    obtain ⟨-, f, l, ls, hstage, hrest, rfl, rfl, -, -⟩ :=
      (Pass.advance_moves p).called he
    exact hw.shows _ _ (.held pid p l hp (by simp [hstage, Pass.held, hrest])) user howner

/-- Owners see and receive through their device rows only what was created while the rows were
theirs, in every run in which a row that changes hands carries nothing that the takeover
leaves. -/
theorem takeover_private {cfg : Settings} {w₀ w : World} (h₀ : w₀.Initial)
    (hknown : w₀.db.Known) (h : (server cfg).Reach World.TakesClear w₀ w) :
    w.Private cfg w₀.db := by
  have hpres : (server cfg).Preserves World.TakesClear (World.Sealed w₀.db) :=
    fun _ _ _ hw hok hs => hw.step (World.step_cases hs) hok
  exact (System.Reach.invariant hpres h (h₀.sealed hknown)).isPrivate cfg

/-- The part of the condition that a run without takeovers has to meet. -/
def World.TakesOwn (w : World) : Action → Prop
  | .request _ r => (r.upsertOf w.db).all (fun (user, data) =>
      (selectExistingDevice w.db data.pushToken).all fun d => d.userId == some user) = true
  | _ => True

instance (w : World) (a : Action) : Decidable (w.TakesOwn a) := by
  rcases a with _ | _ <;> unfold World.TakesOwn <;> infer_instance

theorem World.TakesOwn.takesClear {w : World} {a : Action} (h : w.TakesOwn a) :
    w.TakesClear a := by
  cases a with
  | request rid r =>
    intro user data hupsert d hd hne
    simp only [TakesOwn, hupsert, Option.all_some, hd, beq_iff_eq] at h
    exact absurd h hne
  | _ => exact trivial

namespace Sample

/-- Another user identifies with the token of the sample device. -/
def takeover : DeviceData where
  pushToken := "aaaaaaaaaaaaaaaaaaaa"
  deviceName := ""
  pushToken_length := firstToken_length
  previousPushToken_length := DeviceData.blank_previousPushToken
  deviceName_length := DeviceData.blank_deviceName

/-- The sample server without its notification. -/
def subscribedWorld : World :=
  { clock := 0, db := { db with notifications := .empty, deliveries := .empty } }

/-- The sample device has changed hands. -/
def takenWorld : World :=
  subscribedWorld.afterProcess 1
    (Request.begin .default 0 subscribedWorld.db (.identify 3 takeover))

theorem subscribedWorld_takesClear :
    subscribedWorld.TakesClear (.request 1 (.identify 3 takeover)) := by
  intro user data _ d hd _
  obtain ⟨hmem, -⟩ := selectExistingDevice_eq_some hd
  obtain rfl : d = device := by simpa [subscribedWorld, db, single] using hmem
  exact ⟨by simp [subscribedWorld], by simp [subscribedWorld, db], by simp [subscribedWorld],
    by decide⟩

end Sample

/-- The device of the sample server is taken over, linked and notified for its new owner. -/
theorem sample_takeover_private : ∃ w,
    (server .default).Reach World.TakesClear Sample.subscribedWorld w ∧
    (∃ d ∈ w.db.devices.rows, d.userId = some 3 ∧ inboxNotifications w.db d none ≠ []) ∧
    w.Private .default Sample.subscribedWorld.db := by
  have htaken : (server .default).Reach World.TakesClear Sample.subscribedWorld Sample.takenWorld :=
    .tail (.refl _) Sample.subscribedWorld_takesClear rfl
  obtain ⟨w, hreach, hinbox⟩ := System.exists_reach_of_guardedRun (server .default)
    World.TakesOwn Sample.takenWorld [.request 1 (.link 3 Sample.takeover 1), .advance 1 {},
      .request 1 (.create 1 1 [1] { title := "t", message := "m" })]
    (fun w => decide (∃ d ∈ w.db.devices.rows, d.userId = some 3 ∧
      inboxNotifications w.db d none ≠ [])) (by decide)
  have hreach' := htaken.trans (hreach.mono World.TakesClear fun _ _ h => h.takesClear)
  exact ⟨w, hreach', of_decide_eq_true hinbox, takeover_private ⟨rfl, rfl, rfl⟩
    ⟨by decide, by decide, by decide⟩ hreach'⟩

/-- After a takeover the new owner reads the inbox of the owner before. -/
theorem takeover_shows_inbox : ¬∀ (cfg : Settings) (w₀ w : World), w₀.Initial → w₀.db.Known →
    (server cfg).Reach (fun _ _ => True) w₀ w → w.Private cfg w₀.db := by
  intro hclaim
  obtain ⟨w, hreach, hinbox⟩ := System.exists_reach_of_guardedRun (server .default)
    (fun _ _ => True) Sample.subscribedWorld
    [.request 1 (.create 1 1 [1] { title := "t", message := "m" }),
      .request 2 (.identify 3 Sample.takeover)]
    (fun w => decide (∃ d ∈ w.db.devices.rows, d.userId = some 3 ∧
      ∃ n ∈ inboxNotifications w.db d none, ∃ x ∈ deviceDeliveries w.db n.id d.id,
        attachedFor Sample.subscribedWorld.db w.history (.delivery x.id) = some 2)) (by decide)
  obtain ⟨d, hd, howner, n, hn, x, hx, hattached⟩ := of_decide_eq_true hinbox
  have hprivate := hclaim .default _ w ⟨rfl, rfl, rfl⟩ ⟨by decide, by decide, by decide⟩ hreach
  have hthree := hprivate.inbox d hd 3 howner none n hn x hx
  rw [hattached] at hthree
  exact absurd hthree (by decide)

end PushIT
