import PushIT.RequestSteps
import PushIT.Sending

/-!
# Invalidation of rejected tokens

A pass invalidates a device row by its primary key, after a provider call with the token of the
row it loaded.  The token that was rejected is the current one of the row in every run in which
no rotation of that row falls between the load and the invalidation.  A rotation in this gap makes
the answer for the old token invalidate the new one.

## Main definitions

* `Pass.rejected`: the instance whose token was rejected for good and is not invalidated yet.
* `World.RejectsCurrent`: no rotation falls between a load and the write of its rejection.

## Main results

* `rejected_token_is_current`: only rejected tokens are invalidated along such runs.
* `new_token_invalidated`: a rotation during a pass loses the new token.
-/

namespace PushIT

open Relational Transition

/-! ### Rejections -/

/-- The instance whose token the provider rejected for good, until its row is invalidated. -/
def Pass.rejected : Stage → Option LoadedDelivery
  | .counting _ l error => if error.invalidateToken then some l else none
  | .invalidating _ l _ => some l
  | _ => none

/-- The instance whose token the provider rejects for good in the next step of the pass. -/
def Pass.rejects (tz : TimeZone) (now : Instant) (input : PassInput) (p : Pass) :
    Option LoadedDelivery :=
  match p.stage, input.push with
  | .looping f, .raised error =>
    match f.remaining with
    | l :: ls =>
      if deliveryDecision tz now (f.rest ls) l = .push ∧ error.invalidateToken = true then some l
      else none
    | [] => none
  | _, _ => none

/-- The request replaces the token of the device row, which belongs to its user. -/
def Request.rotates (db : Db) (k : ℕ) : Request → Bool
  | .identify user data | .link user data _ =>
    data.previousPushToken != data.pushToken &&
      (selectExistingDevice db data.previousPushToken).any fun d =>
        d.id == k && d.userId == some user
  | _ => false

namespace World

/-- No rotation falls between the load of a device row and the write of its rejection: when the
provider rejects a loaded token for good the row still carries it, and no request rotates the row
before the pass has written the rejection. -/
def RejectsCurrent (cfg : Settings) (w : World) : Action → Prop
  | .pass pid input => ∀ p ∈ w.passes pid, ∀ l ∈ p.rejects cfg.timeZone w.clock input,
      ∀ d ∈ w.db.devices.get? l.device.id, d.pushToken = l.device.pushToken
  | .request _ r => ∀ pid p, w.passes pid = some p →
      ∀ l, Pass.rejected p.stage = some l → r.rotates w.db l.device.id = false
  | _ => True

/-- Every invalidation met the token that was rejected. -/
def OnlyRejected (w : World) : Prop :=
  ∀ k rejected current, .invalidated k rejected current ∈ w.history → rejected = current

/-- The rows whose tokens were rejected still carry them. -/
structure Current (w : World) : Prop where
  held : ∀ pid p, w.passes pid = some p → ∀ l ∈ Pass.held p.stage,
    l.device.id ≤ w.db.devices.seq
  rejected : ∀ pid p l, w.passes pid = some p → Pass.rejected p.stage = some l →
    ∀ d, w.db.devices.get? l.device.id = some d → d.pushToken = l.device.pushToken
  only : w.OnlyRejected

end World

theorem World.Initial.current {w : World} (hw : w.Initial) : w.Current :=
  ⟨by simp [hw.passes], by simp [hw.passes], by simp [OnlyRejected, hw.history]⟩

theorem Pass.mem_held_of_rejected {stage : Stage} {l : LoadedDelivery}
    (h : rejected stage = some l) : l ∈ Pass.held stage := by
  cases stage with
  | counting f x error =>
    simp only [rejected, Option.ite_none_right_eq_some, Option.some.injEq] at h
    simp [Pass.held, h.2]
  | invalidating f x error =>
    simp only [rejected, Option.some.injEq] at h
    simp [Pass.held, h]
  | _ => simp [rejected] at h

/-! ### One step -/

/-- A rejection that a pass has to write after a step it had to write before, or the provider has
just answered. -/
theorem Pass.advance_rejected {cfg : Settings} {now : Instant} {db : Db} {input : PassInput}
    {p p' : Pass} {s : PassStep} (hmoves : Moves cfg now db p.notification p.stage s)
    (hs : p.advance cfg now db input = s) (hnext : s.next = some p') {l : LoadedDelivery}
    (h : rejected p'.stage = some l) :
    rejected p.stage = some l ∨ p.rejects cfg.timeZone now input = some l := by
  obtain ⟨n, stage⟩ := p
  cases hmoves with
  | refused f x xs error hrest hdecision =>
    obtain rfl := Option.some.inj hnext
    right
    simp only [rejected, Option.ite_none_right_eq_some] at h
    -- the error is the one the environment answered
    cases hpush : input.push with
    | accepted m =>
      simp [advance, hrest, turn, hdecision, hpush, goto, on] at hs
    | raised error' =>
      simp only [advance, hrest, turn, hdecision, hpush, goto, on, PassStep.mk.injEq,
        Option.some.injEq, Pass.mk.injEq, Stage.counting.injEq, true_and] at hs
      obtain rfl : error' = error := hs.1
      simp [rejects, hpush, hrest, hdecision, h.1, h.2]
  | countedInvalid f x error he =>
    obtain rfl := Option.some.inj hnext
    left
    simpa [rejected, he] using h
  | notSent | notSettled =>
    obtain rfl := Option.some.inj hnext
    simp [rejected, saveFailed, PushError.invalidateToken] at h
  | lapsedClosed | lapsedGone | postponed | notMaterialized | applicationGone | deliveryGone
  | notInvalidated | notReread | notFailed | closed => simp [ended] at hnext
  | _ =>
    obtain rfl := Option.some.inj hnext
    simp [rejected] at h

/-- A step of a pass invalidates what was rejected, and keeps the rejections current. -/
theorem World.Current.pass {cfg : Settings} {w : World} (hw : w.Current) {pid : ℕ}
    {input : PassInput} {p : Pass} {s : PassStep} (hp : w.passes pid = some p)
    (hmoves : Pass.Moves cfg w.clock w.db p.notification p.stage s)
    (hs : p.advance cfg w.clock w.db input = s)
    (hcurrent : w.RejectsCurrent cfg (.pass pid input)) : (w.afterPass pid s).Current := by
  refine ⟨?_, ?_, ?_⟩
  · intro i q hq l hl
    change l.device.id ≤ s.db.devices.seq
    rw [hmoves.seq_devices]
    rcases Pool.set_eq_some.mp hq with ⟨-, hnext⟩ | ⟨-, hold⟩
    · rcases hmoves.held hnext hl with hheld | ⟨hload, -⟩
      · exact hw.held pid p hp l hheld
      · obtain ⟨-, -, hdevice⟩ := Pass.mem_loadDeliveries hload
        obtain ⟨hmem, -⟩ := Table.get?_eq_some.mp hdevice
        exact w.db.devices.bounded _ hmem
    · exact hw.held i q hold l hl
  · intro i q l hq hl d hd
    obtain ⟨d₀, hd₀, htoken, -⟩ := hmoves.get?_device hd
    rw [htoken]
    rcases Pool.set_eq_some.mp hq with ⟨-, hnext⟩ | ⟨-, hold⟩
    · rcases Pass.advance_rejected hmoves hs hnext hl with hrejected | hrejects
      · exact hw.rejected pid p l hp hrejected d₀ hd₀
      · exact hcurrent p hp l hrejects d₀ hd₀
    · exact hw.rejected i q l hold hl d₀ hd₀
  · intro k token current he
    rcases List.mem_append.mp he with hnew | hold
    · obtain ⟨f, l, error, row, hstage, -, rfl, hrow, rfl⟩ :=
        hmoves.invalidated_event (List.mem_reverse.mp hnew)
      exact (hw.rejected pid p l hp (by rw [hstage]; rfl) row hrow).symm
    · exact hw.only k token current hold

/-- The device rows a request does not rotate keep their tokens. -/
theorem Request.Begins.get?_device {now : Instant} {db : Db} {r : Request} {o : Outcome}
    (h : Begins now db r o) {k : ℕ} (hk : k ≤ db.devices.seq) (hr : r.rotates db k = false)
    {d' : Device} (hd' : o.db.devices.get? k = some d') :
    ∃ d, db.devices.get? k = some d ∧ d'.pushToken = d.pushToken := by
  cases h with
  | shrinks r o h hevents => exact ⟨d', h.devices.get? hd', rfl⟩
  | upserts r o user data u hu h hevents hreq =>
    rw [h] at hd'
    obtain ⟨hmem, hid⟩ := Table.get?_eq_some.mp hd'
    have hpair : ∀ old, data.previousPushToken ≠ data.pushToken →
        selectExistingDevice db data.previousPushToken = some old → old.userId = some user →
        old.id ≠ k := by
      rintro old hne hold howner rfl
      rcases hreq with rfl | ⟨applicationId, rfl⟩ <;>
        simp [rotates, hold, howner, hne] at hr
    rcases hu.device_cases hmem with ⟨hold, -⟩ | ⟨hdevice, -, htoken⟩
    · exact ⟨d', Table.get?_eq_some.mpr ⟨hold, hid⟩, rfl⟩
    · cases hu with
      | rotated old hne hold howner hnone =>
        exact absurd (hdevice.symm.trans hid) (hpair old hne hold howner)
      | merged old clash hne hold howner hclash hforeign =>
        exact absurd (hdevice.symm.trans hid) (hpair old hne hold howner)
      | refreshed d hd =>
        obtain ⟨hmem', htoken'⟩ := selectExistingDevice_eq_some hd
        exact ⟨d, Table.get?_eq_some.mpr ⟨hmem', hdevice.symm.trans hid⟩,
          htoken.trans htoken'.symm⟩
      | created hnone =>
        have : d'.id = db.devices.seq + 1 := hdevice
        have : d'.id = k := hid
        omega
  | hides r o p hp h | broadcasts applicationId data hp o h | creates r o applicationId ids data h
  | silences user deviceId values hp o howner h | adjusts user id values hp o h =>
    rw [h] at hd'
    exact ⟨d', hd', rfl⟩

/-- A request invalidates no device. -/
theorem Request.Begins.not_invalidated {now : Instant} {db : Db} {r : Request} {o : Outcome}
    (h : Begins now db r o) {k : ℕ} {rejected current : String} :
    .invalidated k rejected current ∉ o.events := by
  cases h with
  | creates r o applicationId ids data h hevents =>
    rw [hevents]
    simp [deliveriesAttached]
  | upserts r o user data u hu h hevents =>
    rw [hevents]
    cases hu <;> simp [mergeEvents]
  | silences user deviceId values hp o howner h hevents =>
    rw [hevents]
    simp
  | shrinks r o h hevents | hides r o p hp h hevents | broadcasts applicationId data hp o h hevents
  | adjusts user id values hp o h hevents =>
    rw [hevents]
    simp

/-- One action keeps the rejections current. -/
theorem World.Current.step {cfg : Settings} {w w' : World} {a : Action} (hw : w.Current)
    (h : Steps cfg w a w') (hcurrent : w.RejectsCurrent cfg a) : w'.Current := by
  cases h with
  | tick duration => exact ⟨hw.held, hw.rejected, hw.only⟩
  | notClaimed pid task rowLocked htask hpid hnone => exact ⟨hw.held, hw.rejected, hw.only⟩
  | claimed pid task n htask hpid hn hstatus =>
    refine ⟨Pool.forall_set hw.held ?_, ?_, ?_⟩
    · rintro p ⟨⟩
      simp [Pass.held]
    · intro i q l hq hl
      rcases Pool.set_eq_some.mp hq with ⟨-, hnext⟩ | ⟨-, hold⟩
      · obtain rfl := Option.some.inj hnext
        simp [Pass.rejected] at hl
      · exact hw.rejected i q l hold hl
    · intro k rejected current he
      rcases List.mem_cons.mp he with hnew | hold
      · cases hnew
      · exact hw.only k rejected current hold
  | pass pid input p s hp hmoves hs => exact hw.pass hp hmoves hs hcurrent
  | crash pid p hp =>
    refine ⟨Pool.forall_set hw.held (by simp), ?_, hw.only⟩
    intro i q l hq hl
    rcases Pool.set_eq_some.mp hq with ⟨-, hnext⟩ | ⟨-, hold⟩
    · simp at hnext
    · exact hw.rejected i q l hold hl
  | request rid r hrid =>
    have hbegins := Request.begin_cases cfg w.clock w.db r
    refine ⟨fun i q hq l hl => (hw.held i q hq l hl).trans hbegins.seq_le.1, ?_, ?_⟩
    · intro i q l hq hl d' hd'
      obtain ⟨d, hd, htoken⟩ := hbegins.get?_device
        (hw.held i q hq l (Pass.mem_held_of_rejected hl)) (hcurrent i q hq l hl) hd'
      rw [htoken]
      exact hw.rejected i q l hq hl d hd
    · intro k rejected current he
      rcases List.mem_append.mp he with hnew | hold
      · exact absurd (List.mem_reverse.mp hnew) hbegins.not_invalidated
      · exact hw.only k rejected current hold
  | advance rid input p hp =>
    have hadvances := Process.advance_cases w.clock w.db input p
    refine ⟨?_, ?_, ?_⟩
    · intro i q hq l hl
      change l.device.id ≤ (p.advance w.clock w.db input).db.devices.seq
      rw [hadvances.frame.1]
      exact hw.held i q hq l hl
    · intro i q l hq hl d hd
      change (p.advance w.clock w.db input).db.devices.get? l.device.id = some d at hd
      rw [hadvances.frame.1] at hd
      exact hw.rejected i q l hq hl d hd
    · intro k rejected current he
      rcases List.mem_append.mp he with hnew | hold
      · rcases hadvances.events (List.mem_reverse.mp hnew) with
          ⟨id, source, he⟩ | ⟨id, found, d, he⟩ | ⟨id, found, he⟩ | ⟨l, owner, he⟩ <;> cases he
      · exact hw.only k rejected current hold

/-! ### Runs -/

/-- Whenever a pass invalidates a device row, the row carries the rejected token, in every run in
which no rotation falls between a load and the write of its rejection. -/
theorem rejected_token_is_current {cfg : Settings} {w₀ w : World} (h₀ : w₀.Initial)
    (h : (server cfg).Reach (World.RejectsCurrent cfg) w₀ w) : w.OnlyRejected := by
  have hpres : (server cfg).Preserves (World.RejectsCurrent cfg) World.Current :=
    fun _ _ _ hw hok hs => hw.step (World.step_cases hs) hok
  exact (System.Reach.invariant hpres h h₀.current).only

/-- The part of the condition that a run without requests has to meet. -/
def World.RejectsCurrentAlone (cfg : Settings) (w : World) : Action → Prop
  | .request _ _ => False
  | .pass pid input => ∀ p ∈ w.passes pid, ∀ l ∈ p.rejects cfg.timeZone w.clock input,
      ∀ d ∈ w.db.devices.get? l.device.id, d.pushToken = l.device.pushToken
  | _ => True

instance (cfg : Settings) (w : World) (a : Action) : Decidable (w.RejectsCurrentAlone cfg a) := by
  rcases a with _ | _ <;> unfold World.RejectsCurrentAlone <;> infer_instance

theorem World.RejectsCurrentAlone.rejectsCurrent {cfg : Settings} {w : World} {a : Action}
    (h : w.RejectsCurrentAlone cfg a) : w.RejectsCurrent cfg a := by
  cases a with
  | request rid r => exact h.elim
  | _ => exact h

namespace Sample

/-- A pass whose push the provider rejects for good, up to the count of the failure. -/
def rejectedPass (pid : ℕ) : List Action :=
  toLoop pid ⟨1, .client⟩ ++ [.pass pid { push := .raised (.invalidPushToken "") }, .pass pid {}]

/-- The owner of the sample device replaces its token. -/
def rotation : DeviceData where
  pushToken := "bbbbbbbbbbbbbbbbbbbb"
  previousPushToken := "aaaaaaaaaaaaaaaaaaaa"
  pushToken_length := secondToken_length
  previousPushToken_length := firstToken_le
  deviceName_length := DeviceData.blank_deviceName

end Sample

/-- The device of the sample server is invalidated. -/
theorem sample_rejected_token_is_current : ∃ w,
    (server .default).Reach (World.RejectsCurrent .default) Sample.world w ∧
    (∃ k rejected current, .invalidated k rejected current ∈ w.history) ∧ w.OnlyRejected := by
  obtain ⟨w, hreach, hevent⟩ := System.exists_reach_of_guardedRun (server .default)
    (World.RejectsCurrentAlone .default) Sample.world (Sample.rejectedPass 1 ++ [.pass 1 {}])
    (fun w => decide (.invalidated 1 "aaaaaaaaaaaaaaaaaaaa" "aaaaaaaaaaaaaaaaaaaa" ∈ w.history))
    (by decide)
  have hreach' := hreach.mono (World.RejectsCurrent .default) fun w a h => h.rejectsCurrent
  exact ⟨w, hreach', ⟨_, _, _, of_decide_eq_true hevent⟩,
    rejected_token_is_current Sample.world_initial hreach'⟩

/-- The app replaces the token between the provider's answer and the write of the pass, which
invalidates the device row with its new token. -/
theorem new_token_invalidated : ¬∀ (cfg : Settings) (w₀ w : World), w₀.Initial →
    (server cfg).Reach (fun _ _ => True) w₀ w → w.OnlyRejected := by
  intro hclaim
  obtain ⟨w, hreach, hevent⟩ := System.exists_reach_of_guardedRun (server .default)
    (fun _ _ => True) Sample.world
    (Sample.rejectedPass 1 ++ [.request 1 (.identify 2 Sample.rotation), .pass 1 {}])
    (fun w => decide (.invalidated 1 "aaaaaaaaaaaaaaaaaaaa" "bbbbbbbbbbbbbbbbbbbb" ∈ w.history))
    (by decide)
  have hsame := hclaim .default _ w Sample.world_initial hreach _ _ _ (of_decide_eq_true hevent)
  exact absurd hsame (by decide)

end PushIT
