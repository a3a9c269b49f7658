import PushIT.DeviceUpdates

/-!
# The age of invalid devices

`purge_expired_personal_data` deletes a device that is INVALID or REVOKED once its
`invalidated_at`, or its `created_at` where that is null, is older than the retention.  The passes
set `invalidated_at` with the status and the upserts clear it; a PATCH or PUT sets the status
alone, and saves the `invalidated_at` of the instance it loaded.  Django reads the rows that a
filter finds before it deletes them by their ids.

## Main definitions

* `Device.since`: the instant the purge takes for the beginning of the invalid state.
* `Retention`: the server and the updates of devices beside a purge taken apart, with the instant
  since which each device is INVALID or REVOKED.
* `Retention.Meets`: the updates keep that instant, and no device changes under a purge.

## Main results

* `purge_keeps_live_devices`: only devices that were invalid for long enough are deleted.
* `fresh_revocation_purged`: a device that was revoked a moment before the purge.
-/

namespace PushIT

open Relational Transition

/-! ### The purge -/

/-- INVALID or REVOKED. -/
def Device.isDead (d : Device) : Bool :=
  d.pushTokenStatus == .invalid || d.pushTokenStatus == .revoked

/-- `invalidated_at`, or `created_at` where that is null. -/
def Device.since (d : Device) : Instant := d.invalidatedAt.getD d.createdAt

theorem deviceExpired_iff {cfg : Settings} {now : Instant} {d : Device} :
    deviceExpired cfg now d = true ↔
      d.isDead = true ∧ d.since < now - days cfg.retentionInvalidDeviceDays := by
  unfold deviceExpired Device.isDead Device.since
  cases d.invalidatedAt <;> simp

/-- The statement a purge performs next, with the instant at which it began. -/
inductive PurgeStage
  | reading (now : Instant)
  /-- The rows that the filter found are deleted by their ids. -/
  | deleting (now : Instant) (ids : List ℕ)
  deriving DecidableEq, Repr

def PurgeStage.now : PurgeStage → Instant
  | reading now | deleting now _ => now

/-- The rows that the filter found. -/
def PurgeStage.found : PurgeStage → List ℕ
  | reading _ => []
  | deleting _ ids => ids

/-- A device that a purge deleted, and since when it was INVALID or REVOKED. -/
structure PurgedDevice where
  deviceId : ℕ
  purgedAt : Instant
  deadSince : Option Instant
  deriving DecidableEq, Repr

/-! ### The system -/

/-- The server with the updates and the purges under way.  `deadSince` and `purged` are history:
since when each device is INVALID or REVOKED without interruption, and what was purged. -/
structure Retention where
  server : DeviceServer
  purges : Pool PurgeStage := .idle
  deadSince : ℕ → Option Instant := fun _ => none
  purged : List PurgedDevice := []

inductive RetentionAction
  | device (a : DeviceAction)
  /-- A purge begins. -/
  | purge (pid : ℕ)
  | advance (pid : ℕ)

/-- A purge in one step, which the statements of a purge replace. -/
def DeviceAction.isPurge : DeviceAction → Bool
  | server (.request _ .purge) => true
  | _ => false

namespace Retention

def devices (s : Retention) : Table Device := s.server.world.db.devices

def clock (s : Retention) : Instant := s.server.world.clock

/-- Since when a device is dead in a new state of the rows. -/
def track (s : Retention) (devices : Table Device) (k : ℕ) : Option Instant :=
  if (devices.get? k).any (·.isDead) then
    if (s.devices.get? k).any (·.isDead) then s.deadSince k else some s.clock
  else none

/-- The next statement of a purge, on the devices. -/
def advance (cfg : Settings) (s : Retention) (pid : ℕ) : PurgeStage → Retention
  | .reading now =>
    { s with
      purges := s.purges.set pid
        (some (.deleting now ((s.devices.select (deviceExpired cfg now)).map (·.id)))) }
  | .deleting _ ids =>
    let db := s.server.world.db.deleteDevices fun d => ids.contains d.id
    { server := { s.server with world := { s.server.world with db } }
      purges := s.purges.set pid none
      deadSince := s.track db.devices
      purged := ((s.devices.select fun d => ids.contains d.id).map fun d =>
        ⟨d.id, s.clock, s.deadSince d.id⟩) ++ s.purged }

def step (cfg : Settings) (s : Retention) : RetentionAction → Option Retention
  | .device a =>
    if a.isPurge then none
    else (s.server.step cfg a).map fun t =>
      { s with server := t, deadSince := s.track t.world.db.devices }
  | .purge pid =>
    if (s.purges pid).isNone then
      some { s with purges := s.purges.set pid (some (.reading s.clock)) }
    else none
  | .advance pid => (s.purges pid).map (s.advance cfg pid)

end Retention

/-- The purges beside the server as a transition system. -/
def retention (cfg : Settings) : System Retention RetentionAction := ⟨Retention.step cfg⟩

/-! ### What is to hold -/

/-- Every device that was purged had been INVALID or REVOKED for the time of the retention. -/
def Retention.KeepsLive (cfg : Settings) (s : Retention) : Prop :=
  ∀ p ∈ s.purged, ∃ t, p.deadSince = some t ∧
    t + days cfg.retentionInvalidDeviceDays ≤ p.purgedAt

/-! ### The condition -/

/-- An instance that is saved as INVALID or REVOKED counts from an instant at which the device was
so already, or from now. -/
def Retention.savesDate (s : Retention) (d : Device) : Bool :=
  !d.isDead ||
    if (s.devices.get? d.id).any (·.isDead) then
      (s.deadSince d.id).all fun t => decide (t ≤ d.since)
    else decide (s.clock ≤ d.since)

/-- The updates keep the beginning of the invalid state, and the devices that a purge found have
not changed so as to be kept when it deletes them. -/
def Retention.Meets (cfg : Settings) (s : Retention) : RetentionAction → Prop
  | .device (.save rid) => ∀ u ∈ s.server.updates rid, s.savesDate (u.2.apply u.1) = true
  | .advance pid => ∀ stage ∈ s.purges pid, ∀ d ∈ s.devices.rows, d.id ∈ stage.found →
      deviceExpired cfg stage.now d = true
  | _ => True

instance Retention.decidableMeets (cfg : Settings) (s : Retention) (a : RetentionAction) :
    Decidable (s.Meets cfg a) := by
  cases a with
  | device a => cases a <;> unfold Retention.Meets <;> infer_instance
  | purge => exact .isTrue trivial
  | advance pid =>
    unfold Retention.Meets
    infer_instance

/-! ### What the server does to the invalid state -/

/-- The columns from which the purge infers the age of the invalid state. -/
def Device.standing (d : Device) : DeviceTokenStatus × Option Instant × Instant :=
  (d.pushTokenStatus, d.invalidatedAt, d.createdAt)

theorem Device.isDead_of_standing {d d' : Device} (h : d'.standing = d.standing) :
    d'.isDead = d.isDead := by
  obtain ⟨hstatus, -⟩ := Prod.mk.inj h
  simp only [isDead, hstatus]

theorem Device.since_of_standing {d d' : Device} (h : d'.standing = d.standing) :
    d'.since = d.since := by
  obtain ⟨-, h⟩ := Prod.mk.inj h
  obtain ⟨hinvalidated, hcreated⟩ := Prod.mk.inj h
  simp only [since, hinvalidated, hcreated]

/-- A row stands as before, is live, or counts from the present instant. -/
def Device.StandsIn (now : Instant) (devices : Table Device) (d' : Device) : Prop :=
  (∃ d ∈ devices.rows, d.id = d'.id ∧ d'.standing = d.standing) ∨ d'.isDead = false ∨
    d'.since = now

theorem Device.standsIn_of_mem {now : Instant} {devices : Table Device} {d : Device}
    (h : d ∈ devices.rows) : d.StandsIn now devices :=
  Or.inl ⟨d, h, rfl, rfl⟩

/-- The device an upsert writes is live. -/
theorem Upserted.standsIn {now : Instant} {db : Db} {user : ℕ} {data : DeviceData} {u : Upsert}
    (h : Upserted now db user data u) {d' : Device} (hd' : d' ∈ u.db.devices.rows) :
    d'.StandsIn now db.devices := by
  have hmodify : ∀ (devices : Table Device) k f hf, (∀ d, (f d).isDead = false) →
      (∀ d ∈ devices.rows, d ∈ db.devices.rows) → d' ∈ (devices.modify k f hf).rows →
      d'.StandsIn now db.devices := by
    intro devices k f hf hlive hsub hmem
    obtain ⟨d, hd, rfl⟩ := Table.mem_modify.mp hmem
    split
    · exact Or.inr (Or.inl (hlive d))
    · exact Device.standsIn_of_mem (hsub d hd)
  cases h with
  | rotated old hne hold howner hnone =>
    exact hmodify db.devices old.id (rotateDevice now user data) (pk_rotateDevice now user data)
      (fun _ => rfl) (fun _ h => h) hd'
  | merged old clash hne hold howner hclash hforeign =>
    exact hmodify (db.devices.delete fun d => d.id == clash.id) old.id
      (rotateDevice now user data) (pk_rotateDevice now user data) (fun _ => rfl)
      (fun _ h => (Table.mem_delete.mp h).1) hd'
  | refreshed r hr =>
    have hdevices : (db.takeOverLinks now user r).devices = db.devices := by
      unfold Db.takeOverLinks
      split <;> rfl
    exact hmodify (db.takeOverLinks now user r).devices r.id (applyDeviceFields now user data)
      (pk_applyDeviceFields now user data) (fun _ => rfl) (fun _ h => hdevices ▸ h) hd'
  | created hnone =>
    change d' ∈ (db.devices.insert (newDevice now user data) (pk_newDevice now user data)).rows
      at hd'
    rcases Table.mem_insert.mp hd' with hd | rfl
    · exact Device.standsIn_of_mem hd
    · exact Or.inr (Or.inl rfl)

/-- A pass that invalidates a device dates it. -/
theorem Pass.Moves.standsIn {cfg : Settings} {now : Instant} {db : Db} {n : Notification}
    {stage : Stage} {s : PassStep} (h : Moves cfg now db n stage s) {d' : Device}
    (hd' : d' ∈ s.db.devices.rows) : d'.StandsIn now db.devices := by
  have hmodify : ∀ k f hf, (∀ d : Device, d.id = (f d).id ∧ (f d).standing = d.standing) →
      d' ∈ (db.devices.modify k f hf).rows → d'.StandsIn now db.devices := by
    intro k f hf hkeep hmem
    obtain ⟨d, hd, rfl⟩ := Table.mem_modify.mp hmem
    refine Or.inl ⟨d, hd, ?_⟩
    split
    · exact hkeep d
    · exact ⟨rfl, rfl⟩
  cases h with
  | settled f l row hrow =>
    exact hmodify _ resetFailures pk_resetFailures (fun _ => ⟨rfl, rfl⟩) hd'
  | countedInvalid f l error he =>
    exact hmodify _ countFailure pk_countFailure (fun _ => ⟨rfl, rfl⟩) hd'
  | counted f l error he =>
    exact hmodify _ countFailure pk_countFailure (fun _ => ⟨rfl, rfl⟩) hd'
  | invalidated f l error row hrow =>
    change d' ∈ (db.devices.modify l.device.id (invalidate now) (pk_invalidate now)).rows at hd'
    obtain ⟨d, hd, rfl⟩ := Table.mem_modify.mp hd'
    split
    · exact Or.inr (Or.inr rfl)
    · exact Device.standsIn_of_mem hd
  | _ => exact Device.standsIn_of_mem hd'

theorem Request.standsIn (cfg : Settings) {now : Instant} {db : Db} (r : Request) {d' : Device}
    (hd' : d' ∈ (r.begin cfg now db).db.devices.rows) : d'.StandsIn now db.devices := by
  have hbegins := begin_cases cfg now db r
  generalize r.begin cfg now db = o at hbegins hd'
  cases hbegins with
  | shrinks r o h hevents => exact Device.standsIn_of_mem (h.devices.rows d' hd')
  | upserts r o user data u hu h =>
    rw [h] at hd'
    exact hu.standsIn hd'
  | hides r o p hp h | broadcasts applicationId data hp o h | creates r o applicationId ids data h
  | silences user deviceId values hp o howner h | adjusts user id values hp o h =>
    rw [h] at hd'
    exact Device.standsIn_of_mem hd'

/-- The rows after an action of the server. -/
theorem World.Steps.standsIn {cfg : Settings} {w w' : World} {a : Action} (h : w.Steps cfg a w')
    {d' : Device} (hd' : d' ∈ w'.db.devices.rows) : d'.StandsIn w.clock w.db.devices := by
  cases h with
  | tick | notClaimed | claimed | crash => exact Device.standsIn_of_mem hd'
  | pass pid input p s hp hmoves hs => exact hmoves.standsIn hd'
  | request rid r hrid => exact r.standsIn cfg hd'
  | advance rid input p hp =>
    have hdevices := (Process.advance_cases w.clock w.db input p).frame.1
    change d' ∈ (p.advance w.clock w.db input).db.devices.rows at hd'
    rw [hdevices] at hd'
    exact Device.standsIn_of_mem hd'

theorem World.Steps.clock_le {cfg : Settings} {w w' : World} {a : Action}
    (h : w.Steps cfg a w') : w.clock ≤ w'.clock := by
  cases h with
  | tick duration => exact Int.le_add_of_nonneg_right (Int.natCast_nonneg _)
  | _ => exact le_rfl

/-! ### The invariant -/

namespace Retention

variable {cfg : Settings} {s t : Retention}

/-- An invalid device counts from an instant at which it was invalid already. -/
structure Dated (cfg : Settings) (s : Retention) : Prop where
  past : ∀ k t, s.deadSince k = some t → t ≤ s.clock
  dated : ∀ d ∈ s.devices.rows, d.isDead = true → ∃ t, s.deadSince d.id = some t ∧ t ≤ d.since
  started : ∀ pid stage, s.purges pid = some stage → stage.now ≤ s.clock
  purged : s.KeepsLive cfg

theorem any_isDead {devices : Table Device} {d : Device} (h : d ∈ devices.rows) :
    (devices.get? d.id).any (·.isDead) = d.isDead := by
  have hget : devices.get? d.id = some d := Table.get?_eq_some.mpr ⟨h, rfl⟩
  rw [hget, Option.any_some]

theorem Dated.track_le (h : s.Dated cfg) {devices : Table Device} {k : ℕ} {t : Instant}
    (ht : s.track devices k = some t) : t ≤ s.clock := by
  unfold track at ht
  split_ifs at ht
  · exact h.past k t ht
  · exact (Option.some.inj ht).symm.le

/-- The rows that stand as before, are live or count from now are dated. -/
theorem Dated.dated_track (h : s.Dated cfg) {devices : Table Device} {d : Device}
    (hd : d ∈ devices.rows) (hdead : d.isDead = true)
    (hsince : (∃ d₀ ∈ s.devices.rows, d₀.id = d.id ∧ d.standing = d₀.standing) ∨
      d.since = s.clock) : ∃ t, s.track devices d.id = some t ∧ t ≤ d.since := by
  unfold track
  rw [if_pos ((any_isDead hd).trans hdead)]
  rcases hsince with ⟨d₀, hd₀, hid, hstanding⟩ | hnow
  · have hdead₀ : d₀.isDead = true := (Device.isDead_of_standing hstanding).symm.trans hdead
    have hbefore : (s.devices.get? d.id).any (·.isDead) = true := by
      rw [← hid, any_isDead hd₀, hdead₀]
    rw [if_pos hbefore, Device.since_of_standing hstanding, ← hid]
    exact h.dated d₀ hd₀ hdead₀
  · split_ifs with hbefore
    · obtain ⟨d₀, hget, hdead₀⟩ := (Option.any_eq_true _ _).mp hbefore
      obtain ⟨hd₀, hid⟩ := Table.get?_eq_some.mp hget
      obtain ⟨t, ht, -⟩ := h.dated d₀ hd₀ hdead₀
      have hid : d₀.id = d.id := hid
      rw [hid] at ht
      exact ⟨t, ht, hnow ▸ h.past d.id t ht⟩
    · exact ⟨s.clock, rfl, hnow.ge⟩

/-- A saved update is dated, if it keeps the date. -/
theorem Dated.dated_save (h : s.Dated cfg) {d : Device} (hdead : d.isDead = true)
    (hdate : s.savesDate d = true) :
    ∃ t, s.track (s.devices.put d) d.id = some t ∧ t ≤ d.since := by
  have hput : ((s.devices.put d).get? d.id).any (·.isDead) = true := by
    rw [Table.get?_put, if_pos (show d.id = pk d from rfl), Option.any_some, hdead]
  unfold track
  rw [if_pos hput]
  simp only [savesDate, hdead, Bool.not_true, Bool.false_or] at hdate
  split_ifs at hdate ⊢ with hbefore
  · obtain ⟨d₀, hget, hdead₀⟩ := (Option.any_eq_true _ _).mp hbefore
    obtain ⟨hd₀, hid⟩ := Table.get?_eq_some.mp hget
    have hid : d₀.id = d.id := hid
    obtain ⟨t, ht, -⟩ := h.dated d₀ hd₀ hdead₀
    rw [hid] at ht
    rw [ht] at hdate
    exact ⟨t, ht, of_decide_eq_true hdate⟩
  · exact ⟨s.clock, rfl, of_decide_eq_true hdate⟩

theorem Dated.device {a : DeviceAction} (h : s.Dated cfg) (hmeets : s.Meets cfg (.device a))
    {server : DeviceServer} (hstep : s.server.step cfg a = some server) :
    Dated cfg { s with server, deadSince := s.track server.world.db.devices } := by
  cases a with
  | server a =>
    obtain ⟨w', hw', rfl⟩ := Option.map_eq_some_iff.mp hstep
    have hsteps := World.step_cases hw'
    have hclock : s.clock ≤ w'.clock := hsteps.clock_le
    refine ⟨fun k t ht => (h.track_le ht).trans hclock, fun d hd hdead => ?_,
      fun pid stage hstage => (h.started pid stage hstage).trans hclock, h.purged⟩
    refine h.dated_track hd hdead ?_
    rcases hsteps.standsIn hd with hbefore | hlive | hnow
    · exact Or.inl hbefore
    · simp [hdead] at hlive
    · exact Or.inr hnow
  | load rid user deviceId data =>
    simp only [DeviceServer.step] at hstep
    split at hstep
    · obtain rfl := Option.some.inj hstep
      refine ⟨fun k t ht => h.track_le ht, fun d hd hdead => ?_, h.started, h.purged⟩
      exact h.dated_track hd hdead (Or.inl ⟨d, hd, rfl, rfl⟩)
    · simp at hstep
  | save rid =>
    obtain ⟨⟨d, data⟩, hu, rfl⟩ := Option.map_eq_some_iff.mp hstep
    have hdate : s.savesDate (data.apply d) = true := hmeets _ hu
    unfold DeviceServer.saved
    dsimp only
    split
    · refine ⟨fun k t ht => h.track_le ht, fun d hd hdead => ?_, h.started, h.purged⟩
      exact h.dated_track hd hdead (Or.inl ⟨d, hd, rfl, rfl⟩)
    · refine ⟨fun k t ht => h.track_le ht, fun d' hd' hdead => ?_, h.started, h.purged⟩
      change d' ∈ (s.devices.put (data.apply d)).rows at hd'
      rcases Table.mem_put.mp hd' with rfl | ⟨hold, -⟩
      · exact h.dated_save hdead hdate
      · exact h.dated_track hd' hdead (Or.inl ⟨d', hold, rfl, rfl⟩)

/-- A device that a purge deletes has been invalid for the time of the retention. -/
theorem Dated.deleted (h : s.Dated cfg) {pid : ℕ} {stage : PurgeStage}
    (hstage : s.purges pid = some stage) {d : Device} (hd : d ∈ s.devices.rows)
    (hexpired : deviceExpired cfg stage.now d = true) :
    ∃ t, s.deadSince d.id = some t ∧ t + days cfg.retentionInvalidDeviceDays ≤ s.clock := by
  obtain ⟨hdead, hsince⟩ := deviceExpired_iff.mp hexpired
  obtain ⟨t, ht, hle⟩ := h.dated d hd hdead
  have hstarted := h.started pid stage hstage
  refine ⟨t, ht, ?_⟩
  unfold Instant at *
  omega

theorem Dated.advance {pid : ℕ} {stage : PurgeStage} (h : s.Dated cfg)
    (hmeets : s.Meets cfg (.advance pid)) (hstage : s.purges pid = some stage) :
    (s.advance cfg pid stage).Dated cfg := by
  have hmeets := hmeets stage hstage
  cases stage with
  | reading now =>
    refine ⟨h.past, h.dated, fun other q hq => ?_, h.purged⟩
    rcases Pool.set_eq_some.mp hq with ⟨-, hself⟩ | ⟨-, hother⟩
    · obtain rfl := Option.some.inj hself
      exact h.started pid (.reading now) hstage
    · exact h.started other q hother
  | deleting now ids =>
    refine ⟨fun k t ht => h.track_le ht, fun d hd hdead => ?_, fun other q hq => ?_,
      fun p hp => ?_⟩
    · have hold : d ∈ s.devices.rows := (Table.mem_delete.mp hd).1
      exact h.dated_track hd hdead (Or.inl ⟨d, hold, rfl, rfl⟩)
    · rcases Pool.set_eq_some.mp hq with ⟨-, hself⟩ | ⟨-, hother⟩
      · simp at hself
      · exact h.started other q hother
    · rcases List.mem_append.mp hp with hnew | hold
      · obtain ⟨d, hd, rfl⟩ := List.mem_map.mp hnew
        obtain ⟨hrow, hfound⟩ := List.mem_filter.mp hd
        exact h.deleted hstage hrow (hmeets d hrow (List.contains_iff_mem.mp hfound))
      · exact h.purged p hold

theorem dated_preserves (cfg : Settings) :
    (retention cfg).Preserves (fun s a => s.Meets cfg a) (Dated cfg) := by
  intro s a t h hmeets hstep
  cases a with
  | device a =>
    simp only [retention, step] at hstep
    split at hstep
    · simp at hstep
    · obtain ⟨server, hserver, rfl⟩ := Option.map_eq_some_iff.mp hstep
      exact h.device hmeets hserver
  | purge pid =>
    simp only [retention, step] at hstep
    split at hstep
    · obtain rfl := Option.some.inj hstep
      refine ⟨h.past, h.dated, fun other q hq => ?_, h.purged⟩
      rcases Pool.set_eq_some.mp hq with ⟨-, hself⟩ | ⟨-, hother⟩
      · obtain rfl := Option.some.inj hself
        exact le_rfl
      · exact h.started other q hother
    · simp at hstep
  | advance pid =>
    obtain ⟨stage, hstage, rfl⟩ := Option.map_eq_some_iff.mp hstep
    exact h.advance hmeets hstage

end Retention

/-- In every run from a database without devices that meets the condition, the purges delete only
devices that have been INVALID or REVOKED for the time of the retention. -/
theorem purge_keeps_live_devices (cfg : Settings) (s₀ s : Retention)
    (hdevices : s₀.devices.rows = []) (hidle : s₀.purges = .idle)
    (hdead : ∀ k, s₀.deadSince k = none) (hnone : s₀.purged = [])
    (h : (retention cfg).Reach (fun s a => s.Meets cfg a) s₀ s) : s.KeepsLive cfg := by
  have hstart : s₀.Dated cfg :=
    ⟨by simp [hdead], by simp [hdevices], by simp [hidle], by simp [Retention.KeepsLive, hnone]⟩
  exact (h.invariant (Retention.dated_preserves cfg) hstart).purged

/-! ### A sample -/

namespace Sample

/-- A server without devices. -/
def emptyServer : Retention where
  server := { world := { clock := 0, db := {} } }

/-- An installation identifies; after `delay` its owner revokes the device, and after `wait` the
purge runs. -/
def revocation (delay wait : ℕ) : List RetentionAction :=
  [.device (.server (.request 0 (.identify 2 rotation))), .device (.server (.tick delay)),
    .device (.load 0 2 1 { pushTokenStatus := some .revoked }), .device (.save 0),
    .device (.server (.tick wait)), .purge 0, .advance 0, .advance 0]

/-- Thirty-one days. -/
def longer : ℕ := 31 * 86400000000

end Sample

/-- A device that is revoked as soon as it is created is purged in time. -/
theorem sample_purge_keeps_live_devices :
    ∃ s : Retention, s.purged = [⟨1, Sample.longer, some 0⟩] ∧ s.KeepsLive .default := by
  obtain ⟨s, hreach, hpurged⟩ := System.exists_reach_of_guardedRun (retention .default)
    (fun s a => s.Meets .default a) Sample.emptyServer (Sample.revocation 0 Sample.longer)
    (fun s => decide (s.purged = [⟨1, Sample.longer, some 0⟩])) (by decide +kernel)
  exact ⟨s, of_decide_eq_true hpurged,
    purge_keeps_live_devices .default Sample.emptyServer s rfl rfl (fun _ => rfl) rfl hreach⟩

/-- A device that is revoked long after it was created is deleted by the next purge. -/
theorem fresh_revocation_purged :
    ¬∀ (cfg : Settings) (s₀ s : Retention), s₀.devices.rows = [] → s₀.purges = .idle →
      (∀ k, s₀.deadSince k = none) → s₀.purged = [] →
        (retention cfg).Reach (fun _ _ => True) s₀ s → s.KeepsLive cfg := by
  intro h
  obtain ⟨s, hreach, hpurged⟩ := System.exists_reach_of_guardedRun (retention .default)
    (fun _ _ => True) Sample.emptyServer (Sample.revocation Sample.longer 0)
    (fun s => decide (s.purged = [⟨1, Sample.longer, some Sample.longer⟩])) (by decide +kernel)
  have hkeeps := h .default Sample.emptyServer s rfl rfl (fun _ => rfl) rfl hreach
  rw [Retention.KeepsLive, of_decide_eq_true hpurged] at hkeeps
  obtain ⟨t, ht, hle⟩ := hkeeps _ List.mem_cons_self
  obtain rfl := Option.some.inj ht
  exact absurd hle (by decide)

end PushIT
