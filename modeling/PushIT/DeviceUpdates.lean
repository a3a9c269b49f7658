import PushIT.Invalidation
import PushIT.Library.LastSet

/-!
# Updates of devices beside the server

A PATCH or PUT of a device loads the row, sets the fields of the body and saves the whole
instance, in two statements between which the whole server may act.  Identification and rotation
set the token and its status, a pass that invalidates a device sets its status.  The update can
set the status but not the token; it puts back what it loaded of both, and undoes the other
requests unless the instance is still current.

## Main definitions

* `DevicePatch`, `DeviceServer`, `deviceServer`: the updates beside the server.
* `World.setsDevice`: the row whose token state an action of the server sets.
* `DeviceServer.SavesCurrent`: an update saves an instance that is still current.

## Main results

* `device_token_never_reverted`: every device shows the token and the status last set.
* `device_token_reverted`: without the assumption it does not.
-/

namespace PushIT

open Relational Transition

/-! ### Updates -/

/-- The validated body of a PATCH or PUT of a device; a field that is not sent is `none`. -/
structure DevicePatch where
  deviceName : Option String := none
  platform : Option DevicePlatform := none
  pushTokenStatus : Option DeviceTokenStatus := none
  deriving DecidableEq, Repr

/-- `ModelSerializer.update` sets the fields that were sent. -/
def DevicePatch.apply (data : DevicePatch) (d : Device) : Device :=
  { d with
    deviceName := data.deviceName.getD d.deviceName
    platform := data.platform.getD d.platform
    pushTokenStatus := data.pushTokenStatus.getD d.pushTokenStatus }

/-- The columns of the token state that a change sets. -/
inductive DeviceColumns
  | none
  | pushTokenStatus
  | tokenState
  deriving DecidableEq, Repr

/-- Copy the columns of an instance into a row. -/
def DeviceColumns.copy (c : DeviceColumns) (o row : Device) : Device :=
  match c with
  | none => row
  | pushTokenStatus => { row with pushTokenStatus := o.pushTokenStatus }
  | tokenState => { row with pushToken := o.pushToken, pushTokenStatus := o.pushTokenStatus }

/-- The columns an update explicitly sets. -/
def DevicePatch.columns (data : DevicePatch) : DeviceColumns :=
  if data.pushTokenStatus.isSome then .pushTokenStatus else .none

/-- The columns that must not be put back. -/
def Device.tokenState (d : Device) : String × DeviceTokenStatus :=
  (d.pushToken, d.pushTokenStatus)

/-- The upsert of a request, if it makes one. -/
def Request.upsert (now : Instant) (db : Db) : Request → Option Upsert
  | .identify user data => some (upsertAuthenticatedDevice now db user data)
  | .link user data applicationId =>
    if (db.applications.get? applicationId).any (·.isActive) then
      some (upsertAuthenticatedDevice now db user data)
    else none
  | _ => none

/-- The device row that the next statement of a pass invalidates. -/
def Pass.invalidates (p : Pass) : Option ℕ :=
  match p.stage with
  | .invalidating _ l _ => some l.device.id
  | _ => none

/-- The device row whose token state an action sets: the one an upsert writes, or the one a pass
invalidates. -/
def World.setsDevice (w : World) : Action → Option ℕ
  | .request _ r => (r.upsert w.clock w.db).map (·.deviceId)
  | .pass pid _ => (w.passes pid).bind Pass.invalidates
  | _ => none

/-- The server with the updates under way, each with its loaded instance and its body, and the
history of the explicit changes, the newest first. -/
structure DeviceServer where
  world : World
  updates : Pool (Device × DevicePatch) := .idle
  changes : List (Change DeviceColumns Device) := []

inductive DeviceAction
  | server (a : Action)
  /-- A PATCH or PUT loads the device, which the user owns. -/
  | load (rid user deviceId : ℕ) (data : DevicePatch)
  /-- `instance.save()`. -/
  | save (rid : ℕ)

namespace DeviceServer

/-- The change of the token state that an action of the server makes. -/
def serverChange (w w' : World) (a : Action) : List (Change DeviceColumns Device) :=
  match w.setsDevice a with
  | some k => ((w'.db.devices.get? k).map fun d => ⟨k, .tokenState, d⟩).toList
  | none => []

/-- Another row has the token, which is unique. -/
def tokenTaken (devices : Table Device) (d : Device) : Bool :=
  devices.rows.any fun r => r.id != d.id && r.pushToken == d.pushToken

/-- The save of an update: the whole instance. -/
def saved (s : DeviceServer) (rid : ℕ) (d : Device) (data : DevicePatch) : DeviceServer :=
  let s := { s with updates := s.updates.set rid none }
  let d := data.apply d
  if tokenTaken s.world.db.devices d then s
  else
    { s with
      world := { s.world with db := { s.world.db with devices := s.world.db.devices.put d } }
      changes := ⟨d.id, data.columns, d⟩ :: s.changes }

/-- One action; `none` when nothing can perform it. -/
def step (cfg : Settings) (s : DeviceServer) : DeviceAction → Option DeviceServer
  | .server a =>
    (s.world.step cfg a).map fun w =>
      { s with world := w, changes := serverChange s.world w a ++ s.changes }
  | .load rid user deviceId data =>
    if (s.updates rid).isNone then
      some { s with
        updates := s.updates.set rid
          (((s.world.db.devices.get? deviceId).filter fun d => d.userId == some user).map
            fun d => (d, data)) }
    else none
  | .save rid => (s.updates rid).map fun u => s.saved rid u.1 u.2

end DeviceServer

/-- The server with the updates of devices as a transition system. -/
def deviceServer (cfg : Settings) : System DeviceServer DeviceAction := ⟨DeviceServer.step cfg⟩

/-! ### What the server does to the token state -/

theorem DeviceColumns.respects_tokenState : Respects DeviceColumns.copy Device.tokenState := by
  intro c o r r' h
  obtain ⟨htoken, hstatus⟩ := Prod.mk.inj h
  cases c <;> simp [copy, Device.tokenState, htoken, hstatus]

/-- An update keeps the token, and the status when it does not send one. -/
theorem tokenState_apply {d row : Device} {data : DevicePatch}
    (h : (data.columns.copy d row).tokenState = d.tokenState) :
    (data.columns.copy (data.apply d) row).tokenState = (data.apply d).tokenState := by
  obtain ⟨htoken, hstatus⟩ := Prod.mk.inj h
  unfold DevicePatch.columns at htoken hstatus ⊢
  cases hdata : data.pushTokenStatus with
  | none =>
    simp only [hdata] at htoken hstatus ⊢
    simp only [Device.tokenState, DevicePatch.apply, hdata]
    exact Prod.ext htoken hstatus
  | some status =>
    simp only [hdata] at htoken hstatus ⊢
    exact Prod.ext htoken rfl

/-- A request without upsert adds no device row and changes none. -/
theorem Request.devices_of_upsert_eq_none (cfg : Settings) {now : Instant} {db : Db} {r : Request}
    (h : r.upsert now db = none) :
    ∀ d ∈ (r.begin cfg now db).db.devices.rows, d ∈ db.devices.rows := by
  intro d hd
  have hbegins := begin_cases cfg now db r
  generalize ho : r.begin cfg now db = o at hbegins hd
  cases hbegins with
  | shrinks r o hshrinks => exact hshrinks.devices.rows d hd
  | upserts r o user data u hu hdb hevents hr =>
    rcases hr with rfl | ⟨applicationId, rfl⟩
    · simp [upsert] at h
    · have hinactive : ¬(db.applications.get? applicationId).any (·.isActive) = true := by
        simpa [upsert] using h
      have hdone : (Request.link user data applicationId).begin cfg now db = .done db :=
        if_neg hinactive
      rw [← ho, hdone] at hd
      exact hd
  | hides r o p hp hdb | broadcasts applicationId data hp o hdb
  | creates r o applicationId ids data hdb
  | silences user deviceId values hp o howner hdb | adjusts user id values hp o hdb =>
    rw [hdb] at hd
    exact hd

/-- A request with an upsert leaves the rows of the upsert. -/
theorem Request.devices_of_upsert_eq_some (cfg : Settings) {now : Instant} {db : Db} {r : Request}
    {u : Upsert} (h : r.upsert now db = some u) :
    ∀ d ∈ (r.begin cfg now db).db.devices.rows, d.id ≠ u.deviceId → d ∈ db.devices.rows := by
  have hupsert : ∀ user data, upsertAuthenticatedDevice now db user data = u →
      ∀ d ∈ u.db.devices.rows, d.id ≠ u.deviceId → d ∈ db.devices.rows := by
    rintro user data rfl d hd hne
    rcases (upsert_cases now db user data).device_cases hd with ⟨hold, -⟩ | ⟨hid, -⟩
    · exact hold
    · exact absurd hid hne
  cases r with
  | identify user data =>
    obtain rfl := Option.some.inj h
    exact hupsert user data rfl
  | link user data applicationId =>
    simp only [upsert] at h
    split at h
    · next hactive =>
      simp only [begin, hactive, if_true]
      obtain rfl := Option.some.inj h
      exact hupsert user data rfl
    · simp at h
  | _ => simp [upsert] at h

/-- A pass changes the token state of a device only when it invalidates it. -/
theorem Pass.Moves.tokenState {cfg : Settings} {now : Instant} {db : Db} {n : Notification}
    {stage : Stage} {s : PassStep} (h : Moves cfg now db n stage s) {d' : Device}
    (hd' : d' ∈ s.db.devices.rows)
    (hkept : ∀ f l error, stage = .invalidating f l error → d'.id ≠ l.device.id) :
    ∃ d ∈ db.devices.rows, pk d = pk d' ∧ d'.tokenState = d.tokenState := by
  have hmodify : ∀ k f hf, (∀ d : Device, (f d).tokenState = d.tokenState) →
      d' ∈ (db.devices.modify k f hf).rows →
      ∃ d ∈ db.devices.rows, pk d = pk d' ∧ d'.tokenState = d.tokenState := by
    intro k f hf hkeep hmem
    obtain ⟨d, hd, rfl⟩ := Table.mem_modify.mp hmem
    refine ⟨d, hd, ?_⟩
    split
    · exact ⟨(hf d).symm, hkeep d⟩
    · exact ⟨rfl, rfl⟩
  cases h with
  | settled f l row hrow => exact hmodify _ resetFailures pk_resetFailures (fun _ => rfl) hd'
  | countedInvalid f l error he =>
    exact hmodify _ countFailure pk_countFailure (fun _ => rfl) hd'
  | counted f l error he => exact hmodify _ countFailure pk_countFailure (fun _ => rfl) hd'
  | invalidated f l error row hrow =>
    have hne : d'.id ≠ l.device.id := hkept f l error rfl
    change d' ∈ (db.devices.modify l.device.id (invalidate now) (pk_invalidate now)).rows at hd'
    obtain ⟨d, hd, rfl⟩ := Table.mem_modify.mp hd'
    split at hne
    · next hid => exact absurd hid hne
    · next hid => exact ⟨d, hd, by rw [if_neg hid], by rw [if_neg hid]⟩
  | _ => exact ⟨d', hd', rfl, rfl⟩

/-- An action of the server changes the token state of the row it sets, and of no other one. -/
theorem World.Steps.tokenState {cfg : Settings} {w w' : World} {a : Action}
    (h : w.Steps cfg a w') {d' : Device} (hd' : d' ∈ w'.db.devices.rows)
    (hkept : w.setsDevice a ≠ some d'.id) :
    ∃ d ∈ w.db.devices.rows, pk d = pk d' ∧ d'.tokenState = d.tokenState := by
  cases h with
  | tick | notClaimed | claimed | crash => exact ⟨d', hd', rfl, rfl⟩
  | pass pid input p s hp hmoves hs =>
    refine hmoves.tokenState hd' ?_
    intro f l error hstage hid
    simp [setsDevice, Pass.invalidates, hp, hstage, hid] at hkept
  | request rid r hrid =>
    cases hupsert : r.upsert w.clock w.db with
    | none => exact ⟨d', r.devices_of_upsert_eq_none cfg hupsert d' hd', rfl, rfl⟩
    | some u =>
      have hne : d'.id ≠ u.deviceId := by
        rintro hid
        simp [setsDevice, hupsert, hid] at hkept
      exact ⟨d', r.devices_of_upsert_eq_some cfg hupsert d' hd' hne, rfl, rfl⟩
  | advance rid input p hp =>
    have hdevices := (Process.advance_cases w.clock w.db input p).frame.1
    change d' ∈ (p.advance w.clock w.db input).db.devices.rows at hd'
    rw [hdevices] at hd'
    exact ⟨d', hd', rfl, rfl⟩

/-! ### Runs -/

namespace DeviceServer

/-- An update saves an instance that is still current. -/
def savesCurrent (s : DeviceServer) : DeviceAction → Bool
  | .save rid =>
    (s.updates rid).all fun u =>
      isCurrent DeviceColumns.copy Device.tokenState s.world.db.devices u.2.columns u.1
  | _ => true

def SavesCurrent (s : DeviceServer) (a : DeviceAction) : Prop := s.savesCurrent a = true

instance (s : DeviceServer) (a : DeviceAction) : Decidable (SavesCurrent s a) :=
  inferInstanceAs (Decidable (_ = true))

/-- Every device shows the token and the status last set since `initial`. -/
def NothingReverted (initial : Table Device) (s : DeviceServer) : Prop :=
  UpToDate DeviceColumns.copy Device.tokenState initial s.changes s.world.db.devices

variable {cfg : Settings} {initial : Table Device} {s t : DeviceServer}

/-- No action of the server reverts a token state. -/
private theorem NothingReverted.server {w' : World} {a : Action} (hs : s.NothingReverted initial)
    (h : s.world.Steps cfg a w') :
    UpToDate DeviceColumns.copy Device.tokenState initial
      (serverChange s.world w' a ++ s.changes) w'.db.devices := by
  unfold serverChange
  split
  · next k hk =>
    refine UpToDate.setRow hs (fun _ _ => rfl) k fun d' hd' hne => h.tokenState hd' ?_
    rw [hk]
    exact fun heq => hne (Option.some.inj heq).symm
  · next hnone =>
    refine UpToDate.keep hs fun d' hd' => h.tokenState hd' ?_
    simp [hnone]

/-- No action reverts a token state. -/
theorem NothingReverted.step {a : DeviceAction} (hs : s.NothingReverted initial)
    (hok : s.SavesCurrent a) (h : s.step cfg a = some t) : t.NothingReverted initial := by
  cases a with
  | server a =>
    obtain ⟨w', hw', rfl⟩ := Option.map_eq_some_iff.mp h
    exact hs.server (World.step_cases hw')
  | load rid user deviceId data =>
    simp only [DeviceServer.step] at h
    split at h
    · obtain rfl := Option.some.inj h
      exact hs
    · simp at h
  | save rid =>
    obtain ⟨⟨d, data⟩, hu, rfl⟩ := Option.map_eq_some_iff.mp h
    unfold saved
    dsimp only
    split
    · exact hs
    · have hcurrent : isCurrent DeviceColumns.copy Device.tokenState s.world.db.devices
          data.columns d = true := by
        simpa [SavesCurrent, savesCurrent, hu] using hok
      obtain ⟨row, hrow, hview⟩ := isCurrent_eq_true.mp hcurrent
      exact UpToDate.saveWhole hs DeviceColumns.respects_tokenState (o := data.apply d) hrow
        (tokenState_apply hview)

end DeviceServer

/-- In every run of the server and of updates of devices in which each update saves an instance
that is still current, every device has the token and the status that were last set: an update
puts back no token that a rotation or an identification replaced, and no status that a pass, an
identification or another update changed. -/
theorem device_token_never_reverted {cfg : Settings} {s t : DeviceServer} (h₀ : s.changes = [])
    (h : (deviceServer cfg).Reach DeviceServer.SavesCurrent s t) :
    UpToDate DeviceColumns.copy Device.tokenState s.world.db.devices t.changes
      t.world.db.devices := by
  have hpreserves : (deviceServer cfg).Preserves DeviceServer.SavesCurrent
      (DeviceServer.NothingReverted s.world.db.devices) :=
    fun _ _ _ hu hok hstep => hu.step hok hstep
  have hstart : s.NothingReverted s.world.db.devices := by
    unfold DeviceServer.NothingReverted
    rw [h₀]
    exact upToDate_nil _
  exact h.invariant hpreserves hstart

/-! ### Samples -/

namespace Sample

/-- The sample server without updates. -/
def deviceServer : DeviceServer where
  world := world

/-- A PATCH of the name. -/
def rename : DevicePatch where
  deviceName := some "New"

/-- Device `1` does not show what was last set. -/
def isReverted (s : DeviceServer) : Bool :=
  (s.world.db.devices.get? 1).any fun d =>
    (lastSet DeviceColumns.copy deviceServer.world.db.devices s.changes 1).any fun e =>
      d.tokenState != e.tokenState

theorem not_upToDate_of_isReverted {s : DeviceServer} (h : isReverted s = true) :
    ¬UpToDate DeviceColumns.copy Device.tokenState deviceServer.world.db.devices s.changes
      s.world.db.devices := by
  intro hdate
  obtain ⟨d, hd, h⟩ := (Option.any_eq_true _ _).mp h
  obtain ⟨e, he, hne⟩ := (Option.any_eq_true _ _).mp h
  obtain ⟨hmem, hid⟩ := Table.get?_eq_some.mp hd
  obtain ⟨e', hlast, hview⟩ := hdate d hmem
  rw [hid] at hlast
  obtain rfl := Option.some.inj (he.symm.trans hlast)
  simp [hview] at hne

end Sample

/-- A PATCH after a rotation keeps the new token. -/
theorem sample_device_token_never_reverted :
    ∃ t : DeviceServer,
      (t.world.db.devices.get? 1).any (fun d =>
        decide (d.pushToken = "bbbbbbbbbbbbbbbbbbbb" ∧ d.deviceName = "New")) = true ∧
      UpToDate DeviceColumns.copy Device.tokenState Sample.deviceServer.world.db.devices t.changes
        t.world.db.devices := by
  obtain ⟨t, hreach, ht⟩ := System.exists_reach_of_guardedRun (deviceServer .default)
    DeviceServer.SavesCurrent Sample.deviceServer
    [.server (.request 1 (.identify 2 Sample.rotation)), .load 1 2 1 Sample.rename, .save 1]
    (fun t => (t.world.db.devices.get? 1).any fun d =>
      decide (d.pushToken = "bbbbbbbbbbbbbbbbbbbb" ∧ d.deviceName = "New")) (by decide)
  exact ⟨t, ht, device_token_never_reverted rfl hreach⟩

/-- A PATCH of the name that loaded the device before a rotation puts the old token back, and one
that loaded it before a pass invalidated it makes it ACTIVE again. -/
theorem device_token_reverted :
    (∃ t : DeviceServer, (deviceServer .default).Reach (fun _ _ => True) Sample.deviceServer t ∧
      ¬UpToDate DeviceColumns.copy Device.tokenState Sample.deviceServer.world.db.devices
        t.changes t.world.db.devices ∧
      (t.world.db.devices.get? 1).map (·.pushToken) = some "aaaaaaaaaaaaaaaaaaaa") ∧
    ∃ t : DeviceServer, (deviceServer .default).Reach (fun _ _ => True) Sample.deviceServer t ∧
      ¬UpToDate DeviceColumns.copy Device.tokenState Sample.deviceServer.world.db.devices
        t.changes t.world.db.devices ∧
      (t.world.db.devices.get? 1).map (·.pushTokenStatus) = some .active := by
  constructor
  · obtain ⟨t, hreach, ht⟩ := System.exists_reach_of_guardedRun (deviceServer .default)
      (fun _ _ => True) Sample.deviceServer
      [.load 1 2 1 Sample.rename, .server (.request 1 (.identify 2 Sample.rotation)), .save 1]
      (fun t => Sample.isReverted t &&
        decide ((t.world.db.devices.get? 1).map (·.pushToken) = some "aaaaaaaaaaaaaaaaaaaa"))
      (by decide)
    rw [Bool.and_eq_true] at ht
    exact ⟨t, hreach, Sample.not_upToDate_of_isReverted ht.1, of_decide_eq_true ht.2⟩
  · obtain ⟨t, hreach, ht⟩ := System.exists_reach_of_guardedRun (deviceServer .default)
      (fun _ _ => True) Sample.deviceServer
      (.load 1 2 1 Sample.rename ::
        ((Sample.rejectedPass 1).map DeviceAction.server ++ [.server (.pass 1 {}), .save 1]))
      (fun t => Sample.isReverted t &&
        decide ((t.world.db.devices.get? 1).map (·.pushTokenStatus) = some .active))
      (by decide)
    rw [Bool.and_eq_true] at ht
    exact ⟨t, hreach, Sample.not_upToDate_of_isReverted ht.1, of_decide_eq_true ht.2⟩

end PushIT
