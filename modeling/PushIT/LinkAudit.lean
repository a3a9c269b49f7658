import Mathlib.Data.List.Induction
import PushIT.RequestSteps
import PushIT.Takeover

/-!
# The audit of links

A link that is switched off says when and by whom, an active one says neither, and a device has
one link to an application at most.  Six writers touch these fields: the link request, the two
unlinking requests, the eviction, the takeover and the merge of a token rotation.  The server
performs a merge in one step.  Its transaction locks the two devices and not their links, so
other requests may write links between its reads and its commit; here it is taken apart, and so
is a link request that switches an old link on again.

## Main definitions

* `Db.LinksConsistent`: the audit of every link, and one link for each device and application.
* `LinkTransaction`, `linkServer`: the server with the transactions that hold link rows.

## Main results

* `links_consistent`: consistency along every run.
* `LinkTransaction.uninterrupted`: a merge nobody interferes with is the one of the server.
-/

namespace PushIT

open Relational Transition

/-! ### Consistency -/

/-- The audit fields of a link are blank exactly while it is active. -/
def DeviceApplicationLink.IsAudited (l : DeviceApplicationLink) : Prop :=
  l.isActive = true ↔ l.unlinkedAt = none ∧ l.unlinkSource = none

instance (l : DeviceApplicationLink) : Decidable l.IsAudited :=
  inferInstanceAs (Decidable (l.isActive = true ↔ l.unlinkedAt = none ∧ l.unlinkSource = none))

theorem isAudited_activateLink (l : DeviceApplicationLink) : (activateLink l).IsAudited := by
  simp [activateLink, DeviceApplicationLink.IsAudited]

theorem isAudited_deactivateLink (now : Instant) (source : UnlinkSource)
    (l : DeviceApplicationLink) : (deactivateLink now source l).IsAudited := by
  simp [deactivateLink, DeviceApplicationLink.IsAudited]

theorem isAudited_newLink (now : Instant) (deviceId applicationId id : ℕ) :
    (newLink now deviceId applicationId id).IsAudited := by
  simp [newLink, DeviceApplicationLink.IsAudited]

/-- Every link is audited, and no device has two links to an application. -/
structure Db.LinksConsistent (db : Db) : Prop where
  audited : ∀ l ∈ db.links.rows, l.IsAudited
  unique : ∀ l ∈ db.links.rows, ∀ l' ∈ db.links.rows, l.deviceId = l'.deviceId →
    l.applicationId = l'.applicationId → l = l'

/-! ### Transactions on links -/

/-- A save of a merge, by the primary key of the link it loaded. -/
inductive LinkSave
  /-- `link.device = target`. -/
  | move (linkId : ℕ)
  /-- `existing.is_active = True`, without audit. -/
  | revive (linkId : ℕ)
  deriving DecidableEq

/-- What a merge does about a link of the source, given the links of the target.  The target has
one link to an application at most. -/
def linkSave (targetLinks : List DeviceApplicationLink) (l : DeviceApplicationLink) :
    Option LinkSave :=
  match targetLinks.find? fun t => t.applicationId == l.applicationId with
  | none => some (.move l.id)
  | some existing => if l.isActive && !existing.isActive then some (.revive existing.id) else none

/-- A link with another device. -/
def moveLink (target : ℕ) (l : DeviceApplicationLink) : DeviceApplicationLink :=
  { l with deviceId := target }

theorem pk_moveLink (target : ℕ) (l : DeviceApplicationLink) : pk (moveLink target l) = pk l := rfl

theorem pk_activateLink (l : DeviceApplicationLink) : pk (activateLink l) = pk l := rfl

/-- `target` exists, and has no other link to the application of `l`: the foreign key and
`uniq_device_application` allow the move. -/
def Db.admitsMove (db : Db) (target : ℕ) (l : DeviceApplicationLink) : Bool :=
  (db.devices.get? target).isSome && !db.links.rows.any fun t =>
    t.deviceId == target && t.applicationId == l.applicationId && t.id != l.id

/-- A save with `update_fields`; it raises when the row is gone or a constraint is violated. -/
def Db.saveLink (target : ℕ) (db : Db) : LinkSave → Option Db
  | .move linkId =>
    ((db.links.get? linkId).filter (db.admitsMove target)).map fun _ =>
      { db with links := db.links.modify linkId (moveLink target) (pk_moveLink target) }
  | .revive linkId =>
    (db.links.get? linkId).map fun _ =>
      { db with links := db.links.modify linkId activateLink pk_activateLink }

/-- The part of `_merge_device_into` after the loop over the links. -/
def Db.finishMerge (db : Db) (source target : ℕ) : Db :=
  { db with
    deliveries := db.deliveries.update (deliveryMoves db source target)
      (fun d => { d with deviceId := target }) (pk_moveDelivery target)
    deviceQuietPeriods := db.deviceQuietPeriods.update (fun q => q.deviceId == source)
      (fun q => { q with deviceId := target }) (pk_moveDeviceQuietPeriod target) }.deleteDevices
    fun d => d.id == source

/-- A transaction that has read links and not yet committed. -/
inductive LinkTransaction
  /-- A link request found an inactive link. -/
  | reactivate (linkId : ℕ)
  /-- A rotation locked the two devices and loaded the links of `target`. -/
  | rotate (user : ℕ) (data : DeviceData) (source target : ℕ)
      (targetLinks : List DeviceApplicationLink)
  /-- It has loaded the links of `source` as well. -/
  | merge (user : ℕ) (data : DeviceData) (source target : ℕ) (saves : List LinkSave)

/-- `device.application_links.all()`. -/
def linksOf (db : Db) (deviceId : ℕ) : List DeviceApplicationLink :=
  db.links.select fun l => l.deviceId == deviceId

/-- The rotation of `_rotate_push_token` up to the first statement of the merge; `none` when it
does not merge. -/
def beginRotation (db : Db) (user : ℕ) (data : DeviceData) : Option LinkTransaction :=
  if data.previousPushToken = "" ∨ data.previousPushToken = data.pushToken then none
  else match selectExistingDevice db data.previousPushToken with
    | none => none
    | some old =>
      if old.userId ≠ some user then none
      else match selectExistingDevice db data.pushToken with
        | none => none
        | some clash =>
          if clash.isForeign user then none
          else some (.rotate user data clash.id old.id (linksOf db old.id))

/-- The inactive link a link request has to lock before it switches it on. -/
def inactiveLink (db : Db) (deviceId applicationId : ℕ) : Option DeviceApplicationLink :=
  (db.links.rows.find? fun l =>
    l.deviceId == deviceId && l.applicationId == applicationId).filter fun l => !l.isActive

/-- The next statement of a transaction.  A merge writes when it commits: until then its rows are
locked and nobody sees what it wrote.  When one of its statements raises, nothing is written. -/
def LinkTransaction.advance (now : Instant) (db : Db) :
    LinkTransaction → Option LinkTransaction × Db
  | .reactivate linkId =>
    (none, match db.links.get? linkId with
      | none => db
      | some l =>
        if l.isActive then db
        else { db with links := db.links.modify l.id activateLink pk_activateLink })
  | .rotate user data source target targetLinks =>
    (some (.merge user data source target
      ((linksOf db source).filterMap (linkSave targetLinks))), db)
  | .merge user data source target saves =>
    (none, match saves.foldlM (Db.saveLink target) db with
      | none => db
      | some db' => (db'.finishMerge source target).saveRotated now user data target)

/-- The server, with the transactions on links that are under way. -/
structure LinkWorld where
  world : World
  transactions : Pool LinkTransaction := .idle

inductive LinkAction
  /-- An action of the server. -/
  | serve (a : Action)
  /-- The link request `rid` finds an inactive link. -/
  | reread (tid rid : ℕ)
  /-- A rotation that merges begins. -/
  | rotate (tid user : ℕ) (data : DeviceData)
  /-- A transaction performs its next statement. -/
  | advance (tid : ℕ)

namespace LinkWorld

/-- The inactive link that the link request `rid` finds. -/
def found (w : LinkWorld) (rid : ℕ) : Option DeviceApplicationLink :=
  (w.world.processes rid).bind fun
    | .link deviceId applicationId => inactiveLink w.world.db deviceId applicationId
    | _ => none

def step (cfg : Settings) (w : LinkWorld) : LinkAction → Option LinkWorld
  | .serve a => (w.world.step cfg a).map fun world => { w with world }
  | .reread tid rid =>
    if (w.transactions tid).isNone then
      (w.found rid).map fun l =>
        { world := { w.world with processes := w.world.processes.set rid none }
          transactions := w.transactions.set tid (some (.reactivate l.id)) }
    else none
  | .rotate tid user data =>
    if (w.transactions tid).isNone then
      (beginRotation w.world.db user data).map fun t =>
        { w with transactions := w.transactions.set tid (some t) }
    else none
  | .advance tid =>
    (w.transactions tid).map fun t =>
      let (next, db) := t.advance w.world.clock w.world.db
      { world := { w.world with db }, transactions := w.transactions.set tid next }

end LinkWorld

/-- The server and the transactions on links as a transition system. -/
def linkServer (cfg : Settings) : System LinkWorld LinkAction := ⟨LinkWorld.step cfg⟩

/-! ### What the writers keep -/

namespace Db.LinksConsistent

variable {db db' : Db}

/-- Rows that stay, or are rewritten with their device, application and audit. -/
theorem of_rows (h : db.LinksConsistent)
    (hrows : ∀ l' ∈ db'.links.rows, ∃ l ∈ db.links.rows, l'.id = l.id ∧
      l'.deviceId = l.deviceId ∧ l'.applicationId = l.applicationId ∧
        (l' = l ∨ l'.IsAudited)) : db'.LinksConsistent where
  audited l' hl' := by
    obtain ⟨l, hl, -, -, -, rfl | haudited⟩ := hrows l' hl'
    · exact h.audited _ hl
    · exact haudited
  unique a' ha' b' hb' hdevice happlication := by
    obtain ⟨a, ha, hida, hdevicea, happlicationa, -⟩ := hrows a' ha'
    obtain ⟨b, hb, hidb, hdeviceb, happlicationb, -⟩ := hrows b' hb'
    have heq : a = b := h.unique a ha b hb (by rw [← hdevicea, hdevice, hdeviceb])
      (by rw [← happlicationa, happlication, happlicationb])
    exact Table.eq_of_pk ha' hb' (hida.trans (heq ▸ hidb.symm))

theorem of_subset (h : db.LinksConsistent) (hrows : ∀ l ∈ db'.links.rows, l ∈ db.links.rows) :
    db'.LinksConsistent :=
  h.of_rows fun l hl => ⟨l, hrows l hl, rfl, rfl, rfl, Or.inl rfl⟩

theorem of_eq (h : db.LinksConsistent) (hlinks : db'.links = db.links) : db'.LinksConsistent :=
  h.of_subset fun _ hl => hlinks ▸ hl

/-- Links are rewritten with their device, their application and an audit. -/
theorem update (h : db.LinksConsistent) (p : DeviceApplicationLink → Bool)
    (f : DeviceApplicationLink → DeviceApplicationLink) (hf : ∀ l, pk (f l) = pk l)
    (hkeeps : ∀ l, (f l).deviceId = l.deviceId ∧ (f l).applicationId = l.applicationId)
    (haudited : ∀ l, (f l).IsAudited) (hlinks : db'.links = db.links.update p f hf) :
    db'.LinksConsistent := by
  refine h.of_rows fun l' hl' => ?_
  rw [hlinks] at hl'
  obtain ⟨l, hl, rfl⟩ := Table.mem_update.mp hl'
  refine ⟨l, hl, ?_⟩
  split
  · exact ⟨hf l, (hkeeps l).1, (hkeeps l).2, Or.inr (haudited l)⟩
  · exact ⟨rfl, rfl, rfl, Or.inl rfl⟩

/-- `link.is_active = True` with both audit fields. -/
theorem activate (h : db.LinksConsistent) (linkId : ℕ) (hf)
    (hlinks : db'.links = db.links.modify linkId activateLink hf) : db'.LinksConsistent :=
  h.update _ activateLink hf (fun _ => ⟨rfl, rfl⟩) isAudited_activateLink hlinks

/-- A link that a device does not have yet. -/
theorem insert (h : db.LinksConsistent) {now : Instant} {deviceId applicationId : ℕ} (hmk)
    (hnone : ∀ l ∈ db.links.rows, l.deviceId = deviceId → l.applicationId ≠ applicationId)
    (hlinks : db'.links = db.links.insert (newLink now deviceId applicationId) hmk) :
    db'.LinksConsistent := by
  have hmem : ∀ l ∈ db'.links.rows, l ∈ db.links.rows ∨
      l = newLink now deviceId applicationId (db.links.seq + 1) := by
    intro l hl
    rw [hlinks] at hl
    exact Table.mem_insert.mp hl
  constructor
  · intro l hl
    rcases hmem l hl with hold | rfl
    · exact h.audited l hold
    · exact isAudited_newLink now deviceId applicationId _
  · intro a ha b hb hdevice happlication
    rcases hmem a ha with ha | rfl <;> rcases hmem b hb with hb | rfl
    · exact h.unique a ha b hb hdevice happlication
    · exact absurd happlication (hnone a ha hdevice)
    · exact absurd happlication.symm (hnone b hb hdevice.symm)
    · rfl

/-- A link goes to a device that has none to its application. -/
theorem move (h : db.LinksConsistent) {target : ℕ} {l : DeviceApplicationLink}
    (hl : l ∈ db.links.rows) (hadmits : db.admitsMove target l = true)
    (hlinks : db'.links = db.links.modify l.id (moveLink target) (pk_moveLink target)) :
    db'.LinksConsistent := by
  have hmem : ∀ a ∈ db'.links.rows,
      (a ∈ db.links.rows ∧ a.id ≠ l.id) ∨ a = moveLink target l := by
    intro a ha
    rw [hlinks] at ha
    obtain ⟨r, hr, rfl⟩ := Table.mem_modify.mp ha
    split
    · next hid => exact Or.inr (Table.eq_of_pk hr hl hid ▸ rfl)
    · next hid => exact Or.inl ⟨hr, hid⟩
  have hother : ∀ a ∈ db.links.rows, a.id ≠ l.id → a.deviceId = target →
      a.applicationId ≠ l.applicationId := by
    intro a ha hne hdevice happlication
    simp only [Db.admitsMove, Bool.and_eq_true, Bool.not_eq_true', List.any_eq_false] at hadmits
    exact hadmits.2 a ha (by simp [hdevice, happlication, hne])
  constructor
  · intro a ha
    rcases hmem a ha with ⟨hold, -⟩ | rfl
    · exact h.audited a hold
    · exact h.audited l hl
  · intro a ha b hb hdevice happlication
    rcases hmem a ha with ⟨ha, hnea⟩ | rfl <;> rcases hmem b hb with ⟨hb, hneb⟩ | rfl
    · exact h.unique a ha b hb hdevice happlication
    · exact absurd happlication (hother a ha hnea hdevice)
    · exact absurd happlication.symm (hother b hb hneb hdevice.symm)
    · rfl

end Db.LinksConsistent

/-! ### The saves of a merge -/

/-- A link after the saves of a merge. -/
def savedLink (target : ℕ) (saves : List LinkSave) (l : DeviceApplicationLink) :
    DeviceApplicationLink :=
  if .move l.id ∈ saves then moveLink target l
  else if .revive l.id ∈ saves then activateLink l
  else l

theorem pk_savedLink (target : ℕ) (saves : List LinkSave) (l : DeviceApplicationLink) :
    pk (savedLink target saves l) = pk l := by
  unfold savedLink
  split
  · rfl
  · split <;> rfl

theorem savedLink_of_move {target : ℕ} {saves : List LinkSave} {l : DeviceApplicationLink}
    (h : .move l.id ∈ saves) : savedLink target saves l = moveLink target l := by
  rw [savedLink, if_pos h]

theorem savedLink_of_revive {target : ℕ} {saves : List LinkSave} {l : DeviceApplicationLink}
    (hmove : .move l.id ∉ saves) (h : .revive l.id ∈ saves) :
    savedLink target saves l = activateLink l := by
  rw [savedLink, if_neg hmove, if_pos h]

theorem savedLink_of_not {target : ℕ} {saves : List LinkSave} {l : DeviceApplicationLink}
    (hmove : .move l.id ∉ saves) (hrevive : .revive l.id ∉ saves) :
    savedLink target saves l = l := by
  rw [savedLink, if_neg hmove, if_neg hrevive]

/-- The saves keep the application of a link, and its device unless they move it. -/
theorem savedLink_keeps (target : ℕ) (saves : List LinkSave) (l : DeviceApplicationLink) :
    (savedLink target saves l).applicationId = l.applicationId ∧
      (.move l.id ∉ saves → (savedLink target saves l).deviceId = l.deviceId) := by
  unfold savedLink
  split
  · next hmove => exact ⟨rfl, fun hnot => absurd hmove hnot⟩
  · split <;> exact ⟨rfl, fun _ => rfl⟩

/-- A save is about one link. -/
theorem savedLink_append_of_ne {target : ℕ} {saves : List LinkSave} {s : LinkSave}
    {l : DeviceApplicationLink} (hmove : s ≠ .move l.id) (hrevive : s ≠ .revive l.id) :
    savedLink target (saves ++ [s]) l = savedLink target saves l := by
  simp [savedLink, hmove.symm, hrevive.symm]

/-- The links after the saves of a merge. -/
def Db.withSaves (db : Db) (target : ℕ) (saves : List LinkSave) : Db :=
  { db with
    links := db.links.update (fun _ => true) (savedLink target saves)
      (pk_savedLink target saves) }

/-- The saves fit the links: those of the source move when the target has none to the
application, and those of the target are switched on. -/
structure Db.Decides (db : Db) (source target : ℕ) (saves : List LinkSave) : Prop where
  move : ∀ l ∈ db.links.rows, .move l.id ∈ saves → l.deviceId = source ∧
    ∀ t ∈ db.links.rows, t.deviceId = target → t.applicationId ≠ l.applicationId
  revive : ∀ l ∈ db.links.rows, .revive l.id ∈ saves → l.deviceId = target
  exists_move : ∀ id, .move id ∈ saves → ∃ l ∈ db.links.rows, l.id = id
  exists_revive : ∀ id, .revive id ∈ saves → ∃ l ∈ db.links.rows, l.id = id

theorem Db.Decides.mono {db : Db} {source target : ℕ} {saves saves' : List LinkSave}
    (h : db.Decides source target saves) (hsub : ∀ s ∈ saves', s ∈ saves) :
    db.Decides source target saves' where
  move l hl hs := h.move l hl (hsub _ hs)
  revive l hl hs := h.revive l hl (hsub _ hs)
  exists_move id hs := h.exists_move id (hsub _ hs)
  exists_revive id hs := h.exists_revive id (hsub _ hs)

theorem Db.get?_withSaves {db : Db} {target : ℕ} {saves : List LinkSave}
    {l : DeviceApplicationLink} (hl : l ∈ db.links.rows) :
    (db.withSaves target saves).links.get? l.id = some (savedLink target saves l) := by
  change (db.links.update (fun _ => true) (savedLink target saves)
    (pk_savedLink target saves)).get? (pk l) = _
  rw [Table.get?_update, Table.get?_pk hl]
  rfl

/-- One more save. -/
theorem Db.saveLink_withSaves {db : Db} (hdb : db.LinksConsistent) {source target : ℕ}
    (hne : source ≠ target) (htarget : (db.devices.get? target).isSome)
    {saves : List LinkSave} {s : LinkSave} (h : db.Decides source target (saves ++ [s])) :
    (db.withSaves target saves).saveLink target s = some (db.withSaves target (saves ++ [s])) := by
  have hexclusive : ∀ l ∈ db.links.rows, .move l.id ∈ saves ++ [s] → .revive l.id ∉ saves ++ [s] :=
    fun l hl hmove hrevive => hne ((h.move l hl hmove).1.symm.trans (h.revive l hl hrevive))
  have hold : ∀ {a : LinkSave}, a ∈ saves → a ∈ saves ++ [s] := List.mem_append_left _
  cases s with
  | move id =>
    obtain ⟨l, hl, rfl⟩ := h.exists_move id (by simp)
    obtain ⟨hsource, hnone⟩ := h.move l hl (by simp)
    have hadmits : (db.withSaves target saves).admitsMove target (savedLink target saves l) := by
      simp only [Db.admitsMove, Bool.and_eq_true, Bool.not_eq_true', List.any_eq_false, bne_iff_ne,
        beq_iff_eq]
      refine ⟨htarget, ?_⟩
      rintro t' ht' ⟨⟨hdevice, happlication⟩, hid⟩
      obtain ⟨t, ht, rfl⟩ := List.mem_map.mp ht'
      simp only [if_true, (savedLink_keeps target saves _).1] at hdevice happlication
      by_cases hmove : LinkSave.move t.id ∈ saves
      · -- it is another link of the source to the application
        obtain rfl := hdb.unique t ht l hl ((h.move t ht (hold hmove)).1.trans hsource.symm)
          happlication
        exact hid rfl
      · rw [(savedLink_keeps target saves t).2 hmove] at hdevice
        exact hnone t ht hdevice happlication
    have hlinks : (db.withSaves target saves).links.modify l.id (moveLink target)
        (pk_moveLink target) = (db.withSaves target (saves ++ [.move l.id])).links := by
      refine Table.modify_update (pk_savedLink target saves) (pk_savedLink target _)
        (fun r hr hid => ?_) fun r hr hid => ?_
      · obtain rfl := Table.eq_of_pk hr hl hid
        simp only [if_true]
        rw [savedLink_of_move (List.mem_append_right saves (List.mem_singleton.mpr rfl))]
        by_cases hmove : LinkSave.move r.id ∈ saves
        · rw [savedLink_of_move hmove]
          rfl
        · rw [savedLink_of_not hmove fun hs => hexclusive r hr (by simp) (hold hs)]
      · have hid : l.id ≠ r.id := Ne.symm hid
        simp only [if_true]
        exact (savedLink_append_of_ne (by simpa using hid) (by simp)).symm
    simp only [Db.saveLink, Db.get?_withSaves hl, Option.filter, hadmits, if_true, Option.map_some,
      hlinks]
    rfl
  | revive id =>
    obtain ⟨l, hl, rfl⟩ := h.exists_revive id (by simp)
    have hlinks : (db.withSaves target saves).links.modify l.id activateLink
        pk_activateLink = (db.withSaves target (saves ++ [.revive l.id])).links := by
      refine Table.modify_update (pk_savedLink target saves) (pk_savedLink target _)
        (fun r hr hid => ?_) fun r hr hid => ?_
      · obtain rfl := Table.eq_of_pk hr hl hid
        have hmove : LinkSave.move r.id ∉ saves ++ [.revive r.id] := fun hs =>
          hexclusive r hr hs (by simp)
        simp only [if_true]
        rw [savedLink_of_revive hmove (by simp)]
        by_cases hrevive : LinkSave.revive r.id ∈ saves
        · rw [savedLink_of_revive (fun hs => hmove (hold hs)) hrevive]
          rfl
        · rw [savedLink_of_not (fun hs => hmove (hold hs)) hrevive]
      · have hid : l.id ≠ r.id := Ne.symm hid
        simp only [if_true]
        exact (savedLink_append_of_ne (by simp) (by simpa using hid)).symm
    simp only [Db.saveLink, Db.get?_withSaves hl, Option.map_some, hlinks]
    rfl

/-- The saves of a merge succeed, one after the other. -/
theorem Db.foldlM_saveLink {db : Db} (hdb : db.LinksConsistent) {source target : ℕ}
    (hne : source ≠ target) (htarget : (db.devices.get? target).isSome)
    {saves : List LinkSave} (h : db.Decides source target saves) :
    saves.foldlM (Db.saveLink target) db = some (db.withSaves target saves) := by
  induction saves using List.reverseRecOn with
  | nil =>
    have hlinks : (db.withSaves target []).links = db.links :=
      Table.eq_of_rows ((List.map_congr_left fun l _ => by simp [savedLink]).trans
        (List.map_id _)) rfl
    rw [show db.withSaves target [] = db from congrArg (fun T => { db with links := T }) hlinks]
    rfl
  | append_singleton saves s ih =>
    rw [List.foldlM_append, ih (h.mono fun _ hs => List.mem_append_left _ hs)]
    have hstep := Db.saveLink_withSaves hdb hne htarget h
    simp [hstep]

/-- The saves of a merge that reads all links at once. -/
def mergeSaves (db : Db) (source target : ℕ) : List LinkSave :=
  (linksOf db source).filterMap (linkSave (linksOf db target))

theorem mem_linksOf {db : Db} {deviceId : ℕ} {l : DeviceApplicationLink} :
    l ∈ linksOf db deviceId ↔ l ∈ db.links.rows ∧ l.deviceId = deviceId := by
  simp [linksOf, Table.mem_select]

theorem move_mem_mergeSaves {db : Db} {source target id : ℕ} :
    .move id ∈ mergeSaves db source target ↔
      ∃ l ∈ db.links.rows, l.id = id ∧ linkMoves db source target l = true := by
  have hfind : ∀ l : DeviceApplicationLink,
      ((linksOf db target).find? fun t => t.applicationId == l.applicationId) = none ↔
      (db.links.rows.any fun t => t.deviceId == target && t.applicationId == l.applicationId) =
        false := by
    intro l
    simp [List.find?_eq_none, mem_linksOf]
  simp only [mergeSaves, List.mem_filterMap, mem_linksOf, linkMoves, Bool.and_eq_true, beq_iff_eq,
    Bool.not_eq_true', ← hfind]
  constructor
  · rintro ⟨l, ⟨hl, hdevice⟩, hsave⟩
    unfold linkSave at hsave
    split at hsave
    · next hnone => exact ⟨l, hl, by simpa using hsave, hdevice, hnone⟩
    · split at hsave <;> simp at hsave
  · rintro ⟨l, hl, rfl, hdevice, hnone⟩
    exact ⟨l, ⟨hl, hdevice⟩, by simp [linkSave, hnone]⟩

theorem revive_mem_mergeSaves {db : Db} (hdb : db.LinksConsistent) {source target id : ℕ} :
    .revive id ∈ mergeSaves db source target ↔
      ∃ t ∈ db.links.rows, t.id = id ∧ linkRevives db source target t = true := by
  simp only [mergeSaves, List.mem_filterMap, mem_linksOf, linkRevives, Bool.and_eq_true, beq_iff_eq,
    Bool.not_eq_true', List.any_eq_true]
  constructor
  · rintro ⟨l, ⟨hl, hdevice⟩, hsave⟩
    unfold linkSave at hsave
    split at hsave
    · simp at hsave
    · next t ht =>
      obtain ⟨htmem, htarget⟩ := mem_linksOf.mp (List.mem_of_find?_eq_some ht)
      have happlication : t.applicationId = l.applicationId := by simpa using List.find?_some ht
      split at hsave
      · next hactive =>
        simp only [Bool.and_eq_true, Bool.not_eq_true'] at hactive
        exact ⟨t, htmem, by simpa using hsave, ⟨htarget, hactive.2⟩, l, hl,
          ⟨hdevice, hactive.1⟩, happlication.symm⟩
      · simp at hsave
  · rintro ⟨t, ht, rfl, ⟨htarget, hinactive⟩, l, hl, ⟨hdevice, hactive⟩, happlication⟩
    refine ⟨l, ⟨hl, hdevice⟩, ?_⟩
    have hfind : ((linksOf db target).find? fun t => t.applicationId == l.applicationId) =
        some t := by
      cases hfound : (linksOf db target).find? fun t => t.applicationId == l.applicationId with
      | none =>
        have := List.find?_eq_none.mp hfound t (mem_linksOf.mpr ⟨ht, htarget⟩)
        simp [happlication] at this
      | some u =>
        obtain ⟨hu, hutarget⟩ := mem_linksOf.mp (List.mem_of_find?_eq_some hfound)
        have huapplication : u.applicationId = l.applicationId := by
          simpa using List.find?_some hfound
        rw [hdb.unique u hu t ht (hutarget.trans htarget.symm)
          (huapplication.trans happlication)]
    simp [linkSave, hfind, hactive, hinactive]

theorem Db.decides_mergeSaves {db : Db} (hdb : db.LinksConsistent) (source target : ℕ) :
    db.Decides source target (mergeSaves db source target) where
  move l hl hs := by
    obtain ⟨m, hm, hid, hmoves⟩ := move_mem_mergeSaves.mp hs
    obtain rfl := Table.eq_of_pk hm hl hid
    simp only [linkMoves, Bool.and_eq_true, beq_iff_eq, Bool.not_eq_true',
      List.any_eq_false] at hmoves
    exact ⟨hmoves.1, fun t ht hdevice happlication => hmoves.2 t ht ⟨hdevice, happlication⟩⟩
  revive l hl hs := by
    obtain ⟨t, ht, hid, hrevives⟩ := (revive_mem_mergeSaves hdb).mp hs
    obtain rfl := Table.eq_of_pk ht hl hid
    simp only [linkRevives, Bool.and_eq_true, beq_iff_eq] at hrevives
    exact hrevives.1.1
  exists_move id hs := by
    obtain ⟨l, hl, hid, -⟩ := move_mem_mergeSaves.mp hs
    exact ⟨l, hl, hid⟩
  exists_revive id hs := by
    obtain ⟨l, hl, hid, -⟩ := (revive_mem_mergeSaves hdb).mp hs
    exact ⟨l, hl, hid⟩

/-- The saves and what follows them are the merge of the server. -/
theorem Db.finishMerge_withSaves {db : Db} (hdb : db.LinksConsistent) (source target : ℕ) :
    (db.withSaves target (mergeSaves db source target)).finishMerge source target =
      db.mergeDeviceInto source target := by
  have hlinks : (db.withSaves target (mergeSaves db source target)).links =
      (db.moveDependents source target).links := by
    refine Table.update_congr (pk_savedLink target _) (pk_mergeLink db source target) fun l hl => ?_
    have hmove : .move l.id ∈ mergeSaves db source target ↔
        linkMoves db source target l = true := by
      rw [move_mem_mergeSaves]
      refine ⟨fun ⟨m, hm, hid, h⟩ => ?_, fun h => ⟨l, hl, rfl, h⟩⟩
      exact Table.eq_of_pk hm hl hid ▸ h
    have hrevive : .revive l.id ∈ mergeSaves db source target ↔
        linkRevives db source target l = true := by
      rw [revive_mem_mergeSaves hdb]
      refine ⟨fun ⟨m, hm, hid, h⟩ => ?_, fun h => ⟨l, hl, rfl, h⟩⟩
      exact Table.eq_of_pk hm hl hid ▸ h
    simp only [if_true, savedLink, hmove, hrevive, mergeLink]
    by_cases hmoves : linkMoves db source target l = true
    · simp [hmoves, moveLink]
    · simp [hmoves]
  exact congrArg (fun T => Db.deleteDevices { db.moveDependents source target with links := T }
    fun d => d.id == source) hlinks

/-- A merge nobody interferes with is the one of the server. -/
theorem LinkTransaction.uninterrupted {now : Instant} {db : Db} (hdb : db.LinksConsistent)
    {user : ℕ} {data : DeviceData} {t : LinkTransaction}
    (h : beginRotation db user data = some t) :
    ∃ t', t.advance now db = (some t', db) ∧
      t'.advance now db = (none, (upsertAuthenticatedDevice now db user data).db) := by
  unfold beginRotation at h
  split at h
  · simp at h
  · next hprevious =>
    split at h
    · simp at h
    · next old hold =>
      split at h
      · simp at h
      · next howner =>
        split at h
        · simp at h
        · next clash hclash =>
          split at h
          · simp at h
          · next hforeign =>
            obtain rfl := Option.some.inj h
            obtain ⟨hmem, -⟩ := selectExistingDevice_eq_some hold
            obtain ⟨hmem', -⟩ := selectExistingDevice_eq_some hclash
            have hne : clash.id ≠ old.id :=
              id_ne_of_pushToken_ne hclash hold fun heq => hprevious (Or.inr heq.symm)
            have htarget : (db.devices.get? old.id).isSome :=
              Option.isSome_iff_exists.mpr ⟨old, Table.get?_pk hmem⟩
            refine ⟨_, rfl, ?_⟩
            have hsaves := Db.foldlM_saveLink hdb hne htarget
              (Db.decides_mergeSaves hdb clash.id old.id)
            simp only [mergeSaves] at hsaves
            simp only [advance, hsaves]
            rw [← mergeSaves, Db.finishMerge_withSaves hdb]
            simp [upsertAuthenticatedDevice, rotatePushToken, hprevious, hold, howner, hclash,
              hforeign]

/-! ### Every writer keeps consistency -/

namespace Db.LinksConsistent

variable {db db' : Db}

/-- A save that succeeds. -/
theorem saveLink (h : db.LinksConsistent) {target : ℕ} {s : LinkSave}
    (hs : db.saveLink target s = some db') : db'.LinksConsistent := by
  cases s with
  | move linkId =>
    obtain ⟨l, hl, rfl⟩ := Option.map_eq_some_iff.mp hs
    obtain ⟨hl, hadmits⟩ := Option.filter_eq_some_iff.mp hl
    obtain ⟨hmem, rfl⟩ := Table.get?_eq_some.mp hl
    exact h.move hmem hadmits rfl
  | revive linkId =>
    obtain ⟨l, -, rfl⟩ := Option.map_eq_some_iff.mp hs
    exact h.activate linkId pk_activateLink rfl

/-- The saves of a merge, whatever it had read. -/
theorem foldlM_saveLink (h : db.LinksConsistent) {target : ℕ} {saves : List LinkSave}
    (hs : saves.foldlM (Db.saveLink target) db = some db') : db'.LinksConsistent := by
  induction saves generalizing db with
  | nil => exact Option.some.inj hs ▸ h
  | cons s saves ih =>
    obtain ⟨db₁, hfirst, hrest⟩ := Option.bind_eq_some_iff.mp hs
    exact ih (h.saveLink hfirst) hrest

theorem finishMerge (h : db.LinksConsistent) (source target : ℕ) :
    (db.finishMerge source target).LinksConsistent :=
  h.of_subset fun _ hl => (Table.mem_delete.mp hl).1

theorem takeOverLinks (h : db.LinksConsistent) (now : Instant) (user : ℕ) (d : Device) :
    (db.takeOverLinks now user d).LinksConsistent := by
  unfold Db.takeOverLinks
  split
  · exact h.update _ (deactivateLink now .takeover) (fun _ => rfl) (fun _ => ⟨rfl, rfl⟩)
      (isAudited_deactivateLink now .takeover) rfl
  · exact h

/-- Identification, takeover, rotation and merge. -/
theorem upserted (h : db.LinksConsistent) {now : Instant} {user : ℕ} {data : DeviceData}
    {u : Upsert} (hu : Upserted now db user data u) : u.db.LinksConsistent := by
  cases hu with
  | rotated old hne hold howner hnone => exact h.of_eq rfl
  | merged old clash hne hold howner hclash hforeign =>
    obtain ⟨hmem, -⟩ := selectExistingDevice_eq_some hold
    obtain ⟨hmem', -⟩ := selectExistingDevice_eq_some hclash
    have hdistinct : clash.id ≠ old.id := id_ne_of_pushToken_ne hclash hold hne.symm
    have htarget : (db.devices.get? old.id).isSome :=
      Option.isSome_iff_exists.mpr ⟨old, Table.get?_pk hmem⟩
    have hsaves := Db.foldlM_saveLink h hdistinct htarget (Db.decides_mergeSaves h clash.id old.id)
    have hmerge := (h.foldlM_saveLink hsaves).finishMerge clash.id old.id
    rw [Db.finishMerge_withSaves h] at hmerge
    exact hmerge.of_eq rfl
  | refreshed d hd => exact (h.takeOverLinks now user d).of_eq rfl
  | created hnone => exact h.of_eq rfl

/-- The first statements of a request. -/
theorem begin (h : db.LinksConsistent) (cfg : Settings) (now : Instant) (r : Request) :
    (r.begin cfg now db).db.LinksConsistent := by
  cases Request.begin_cases cfg now db r with
  | shrinks r o hshrinks hevents => exact h.of_subset hshrinks.links.rows
  | upserts r o user data u hu hdb => exact hdb ▸ h.upserted hu
  | hides r o p hp hdb | broadcasts applicationId data hp o hdb
  | creates r o applicationId deviceIds data hdb | silences user deviceId values hp o howner hdb
  | adjusts user id values hp o hdb =>
    rw [hdb]
    exact h.of_eq rfl

/-- The second transaction of a link request. -/
theorem getOrCreateLink (h : db.LinksConsistent) (now : Instant) (deviceId applicationId : ℕ) :
    (getOrCreateLink now db deviceId applicationId).1.LinksConsistent := by
  unfold PushIT.getOrCreateLink
  split
  · split
    · exact h
    · next l hl _ => exact h.activate l.id (fun _ => rfl) rfl
  · next hnone =>
    split
    · refine h.insert (fun _ => rfl) (fun l hl hdevice happlication => ?_) rfl
      have := List.find?_eq_none.mp hnone l hl
      simp [hdevice, happlication] at this
    · exact h

/-- The later statements of a request or task. -/
theorem advance (h : db.LinksConsistent) (now : Instant) (input : TaskInput) (p : Process) :
    (p.advance now db input).db.LinksConsistent := by
  cases p with
  | link deviceId applicationId => exact h.getOrCreateLink now deviceId applicationId
  | unlink linkId source =>
    exact h.update _ (deactivateLink now source) (fun _ => rfl) (fun _ => ⟨rfl, rfl⟩)
      (isAudited_deactivateLink now source) rfl
  | queue | dispatch | retry | watchdog | patch | destroy => exact h.of_eq rfl

/-- The statements of the transactions that hold links. -/
theorem transaction (h : db.LinksConsistent) (now : Instant) (t : LinkTransaction) :
    (t.advance now db).2.LinksConsistent := by
  cases t with
  | reactivate linkId =>
    simp only [LinkTransaction.advance]
    split
    · exact h
    · next l hl =>
      split
      · exact h
      · exact h.activate l.id pk_activateLink rfl
  | rotate user data source target targetLinks => exact h
  | merge user data source target saves =>
    simp only [LinkTransaction.advance]
    split
    · exact h
    · next db' hsaves => exact ((h.foldlM_saveLink hsaves).finishMerge source target).of_eq rfl

end Db.LinksConsistent

/-! ### Runs -/

/-- One action of the server. -/
theorem World.linksConsistent_of_steps {cfg : Settings} {w w' : World} {a : Action}
    (hw : w.db.LinksConsistent) (h : Steps cfg w a w') : w'.db.LinksConsistent := by
  cases h with
  | tick | notClaimed | crash => exact hw
  | claimed => exact hw.of_eq rfl
  | pass pid input p s hp hmoves => exact hw.of_eq hmoves.frame.2.1
  | request rid r hrid => exact hw.begin cfg w.clock r
  | advance rid input p hp => exact hw.advance w.clock input p

/-- One action of the server or of a transaction. -/
theorem LinkWorld.linksConsistent_of_step {cfg : Settings} {w w' : LinkWorld} {a : LinkAction}
    (hw : w.world.db.LinksConsistent) (h : w.step cfg a = some w') :
    w'.world.db.LinksConsistent := by
  cases a with
  | serve a =>
    obtain ⟨world, hstep, rfl⟩ := Option.map_eq_some_iff.mp h
    exact World.linksConsistent_of_steps hw (World.step_cases hstep)
  | reread tid rid =>
    simp only [step] at h
    split at h
    · obtain ⟨l, -, rfl⟩ := Option.map_eq_some_iff.mp h
      exact hw
    · simp at h
  | rotate tid user data =>
    simp only [step] at h
    split at h
    · obtain ⟨t, -, rfl⟩ := Option.map_eq_some_iff.mp h
      exact hw
    · simp at h
  | advance tid =>
    obtain ⟨t, -, rfl⟩ := Option.map_eq_some_iff.mp h
    exact hw.transaction w.world.clock t

/-- In every run of the server and of the transactions that hold links, every link is active
exactly when its audit is blank, and no device has two links to an application. -/
theorem links_consistent {cfg : Settings} {w₀ w : LinkWorld} (h₀ : w₀.world.db.LinksConsistent)
    (h : (linkServer cfg).Reach (fun _ _ => True) w₀ w) : w.world.db.LinksConsistent := by
  have hpres : (linkServer cfg).Preserves (fun _ _ => True) fun w => w.world.db.LinksConsistent :=
    fun _ _ _ hw _ hs => LinkWorld.linksConsistent_of_step hw hs
  exact System.Reach.invariant hpres h h₀

namespace Sample

/-- Two devices of a user, with an active and an inactive link to the sample application. -/
def mergingWorld : LinkWorld where
  world :=
    { clock := 5
      db :=
        { db with
          devices := pair device { device with id := 2, pushToken := "bbbbbbbbbbbbbbbbbbbb" }
            (pk_device device) pk_secondDevice
          links := pair link (deactivateLink 3 .inbox { link with id := 2, deviceId := 2 })
            (pk_link link) rfl } }

/-- The second device reports the token of the first one. -/
def mergingRotation : DeviceData where
  pushToken := "aaaaaaaaaaaaaaaaaaaa"
  previousPushToken := "bbbbbbbbbbbbbbbbbbbb"
  pushToken_length := firstToken_length
  previousPushToken_length := secondToken_le
  deviceName_length := DeviceData.blank_deviceName

theorem mergingWorld_linksConsistent : mergingWorld.world.db.LinksConsistent :=
  ⟨by decide, by decide⟩

end Sample

/-- The owner evicts a device while it is merged into another one, which another user takes over
afterwards. -/
theorem sample_links_consistent : ∃ w,
    (linkServer .default).Reach (fun _ _ => True) Sample.mergingWorld w ∧
    (∃ l ∈ w.world.db.links.rows, l.deviceId = 2 ∧ l.unlinkSource = some .takeover) ∧
    w.world.db.LinksConsistent := by
  obtain ⟨w, hreach, hlink⟩ := System.exists_reach_of_guardedRun (linkServer .default)
    (fun _ _ => True) Sample.mergingWorld
    [.rotate 1 2 Sample.mergingRotation, .serve (.request 1 (.evict 1 1 1)), .advance 1,
      .serve (.advance 1 {}), .advance 1, .serve (.request 1 (.identify 3 Sample.takeover))]
    (fun w => decide (∃ l ∈ w.world.db.links.rows, l.deviceId = 2 ∧
      l.unlinkSource = some .takeover)) (by decide)
  exact ⟨w, hreach, of_decide_eq_true hlink,
    links_consistent Sample.mergingWorld_linksConsistent hreach⟩

end PushIT
