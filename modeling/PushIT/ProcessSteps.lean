import PushIT.PassSteps

/-!
# What a step of the server can do

The inversion of `World.step` by action, and the list of the steps of the processes that write
the notification table.

## Main results

* `World.step_cases`: the effect of each action.
* `Process.advance_moves`: what the requests and tasks on notifications do, branch by branch.
* `Request.begin_sending`: the requests and tasks that begin without writing anything.
-/

namespace PushIT

open Relational Transition

/-! ### Actions -/

/-- What the actions do. -/
inductive World.Steps (cfg : Settings) (w : World) : Action → World → Prop
  | tick (duration : ℕ) :
      Steps cfg w (.tick duration) { w with clock := w.clock + duration }
  | notClaimed (pid : ℕ) (task : SendTask) (rowLocked : Bool) (htask : task ∈ w.broker)
      (hpid : w.passes pid = none)
      (h : claimable w.db task.notification rowLocked = none) :
      Steps cfg w (.claim pid task rowLocked) { w with broker := w.broker.erase task }
  | claimed (pid : ℕ) (task : SendTask) (n : Notification) (htask : task ∈ w.broker)
      (hpid : w.passes pid = none) (hn : w.db.notifications.get? task.notification = some n)
      (hstatus : n.status ∈ allowedNotificationStatusesToStart) :
      Steps cfg w (.claim pid task false)
        { w with
          broker := w.broker.erase task
          db := w.db.updateNotification n.id (acquire w.clock) (pk_acquire w.clock)
          passes := w.passes.set pid (some { notification := acquire w.clock n })
          history := .claimed n.id task.source (retryIsDue w.db w.clock n.id) :: w.history }
  | pass (pid : ℕ) (input : PassInput) (p : Pass) (s : PassStep) (hp : w.passes pid = some p)
      (h : Pass.Moves cfg w.clock w.db p.notification p.stage s)
      (hs : p.advance cfg w.clock w.db input = s) :
      Steps cfg w (.pass pid input) (w.afterPass pid s)
  | crash (pid : ℕ) (p : Pass) (hp : w.passes pid = some p) :
      Steps cfg w (.crash pid) { w with passes := w.passes.set pid none }
  | request (rid : ℕ) (r : Request) (hrid : w.processes rid = none) :
      Steps cfg w (.request rid r) (w.afterProcess rid (r.begin cfg w.clock w.db))
  | advance (rid : ℕ) (input : TaskInput) (p : Process) (hp : w.processes rid = some p) :
      Steps cfg w (.advance rid input) (w.afterProcess rid (p.advance w.clock w.db input))

/-- Every step of the server is one of `World.Steps`. -/
theorem World.step_cases {cfg : Settings} {w w' : World} {a : Action}
    (h : w.step cfg a = some w') : Steps cfg w a w' := by
  cases a with
  | tick duration =>
    obtain rfl := Option.some.inj h
    exact .tick duration
  | claim pid task rowLocked =>
    simp only [step] at h
    split at h
    · next hpre =>
      obtain rfl := Option.some.inj h
      have hpid : w.passes pid = none := by simpa using hpre.2
      unfold claim
      split
      · next hnone => exact .notClaimed pid task rowLocked hpre.1 hpid hnone
      · next n hsome =>
        cases rowLocked with
        | true => simp [claimable] at hsome
        | false =>
          simp only [claimable, Bool.false_eq_true, if_false, Option.filter_eq_some_iff,
            List.contains_eq_mem, decide_eq_true_eq] at hsome
          exact .claimed pid task n hpre.1 hpid hsome.1 hsome.2
    · simp at h
  | pass pid input =>
    obtain ⟨p, hp, rfl⟩ := Option.map_eq_some_iff.mp h
    exact .pass pid input p _ hp (Pass.advance_moves p) rfl
  | crash pid =>
    obtain ⟨p, hp, rfl⟩ := Option.map_eq_some_iff.mp h
    exact .crash pid p hp
  | request rid r =>
    simp only [step] at h
    split at h
    · next hrid =>
      obtain rfl := Option.some.inj h
      exact .request rid r (by simpa using hrid)
    · simp at h
  | advance rid input =>
    obtain ⟨p, hp, rfl⟩ := Option.map_eq_some_iff.mp h
    exact .advance rid input p hp

/-! ### Processes that write notifications -/

namespace Process

/-- The steps of the requests and tasks on notifications. -/
inductive Moves (now : Instant) (T : Table Notification) (input : TaskInput) :
    Process → TaskStep Process → Prop
  | queueDone (r : QueueRequest) (hr : r.stage = .choosing) :
      Moves now T input (.queue r) ⟨none, T, [], []⟩
  | queueRefused (r : QueueRequest) (id ids result) (hr : r.stage = .choosing)
      (htodo : r.todo = id :: ids) :
      Moves now T input (.queue r)
        ⟨some (.queue ({ r with todo := ids }.answered result)), T, [], []⟩
  | queueChosen (r : QueueRequest) (id ids l status) (hr : r.stage = .choosing)
      (htodo : r.todo = id :: ids) (hl : r.lookup id = some l)
      (hcheck : queueCheck now l = .ok status) :
      Moves now T input (.queue r)
        ⟨some (.queue { r with todo := ids, stage := .updating id status }), T, [], []⟩
  | queueInterrupted (r : QueueRequest) (id status result) (hr : r.stage = .updating id status) :
      Moves now T input (.queue r) ⟨some (.queue (r.answered result)), T, [], []⟩
  | queued (r : QueueRequest) (id status n) (hr : r.stage = .updating id status)
      (hn : T.get? id = some n) (hstatus : n.status = status.val)
      (hinput : input.updateFails = false) :
      Moves now T input (.queue r)
        ⟨some (.queue { r.markFound id with stage := .submitting id status }),
          T.modify id queueNotification pk_queueNotification, [], [.queued id .client now]⟩
  | queueConflict (r : QueueRequest) (id status) (hr : r.stage = .updating id status) :
      Moves now T input (.queue r)
        ⟨some (.queue { r with stage := .conflicting id }), T, [], []⟩
  | queueConflictAnswered (r : QueueRequest) (id result) (hr : r.stage = .conflicting id) :
      Moves now T input (.queue r) ⟨some (.queue (r.answered result)), T, [], []⟩
  | queueSubmitted (r : QueueRequest) (id status) (hr : r.stage = .submitting id status)
      (hbroker : input.brokerUp = true) :
      Moves now T input (.queue r)
        ⟨some (.queue (r.answered (.queued id))), T, [⟨id, .client⟩], []⟩
  | queueNotSubmitted (r : QueueRequest) (id status) (hr : r.stage = .submitting id status)
      (hbroker : input.brokerUp = false) :
      Moves now T input (.queue r)
        ⟨some (.queue { r with stage := .rollingBack id status }), T, [], []⟩
  | queueRolledBack (r : QueueRequest) (id status) (hr : r.stage = .rollingBack id status) :
      Moves now T input (.queue r)
        ⟨some (.queue (r.answered (notificationQueueUnavailable id))),
          T.update (fun n => n.id == id && n.status == .queued)
            (restoreStatus status.val) (pk_restoreStatus status.val), [], []⟩
  | dispatchDone : Moves now T input (.dispatch (.scanning [])) ⟨none, T, [], []⟩
  | dispatched (id ids n) (hn : T.get? id = some n) (hdue : scheduledDue now n = true)
      (hinput : input.rowLocked = false) :
      Moves now T input (.dispatch (.scanning (id :: ids)))
        ⟨some (.dispatch (.submitting id ids)),
          T.modify id queueNotification pk_queueNotification, [], [.queued id .dispatcher now]⟩
  | dispatchSkipped (id ids) :
      Moves now T input (.dispatch (.scanning (id :: ids)))
        ⟨some (.dispatch (.scanning ids)), T, [], []⟩
  | dispatchSubmitted (id ids) (hbroker : input.brokerUp = true) :
      Moves now T input (.dispatch (.submitting id ids))
        ⟨some (.dispatch (.scanning ids)), T, [⟨id, .dispatcher⟩], []⟩
  | dispatchFailed (id ids) (hbroker : input.brokerUp = false) :
      Moves now T input (.dispatch (.submitting id ids)) ⟨none, T, [], []⟩
  | retryDone : Moves now T input (.retry []) ⟨none, T, [], []⟩
  | retrySubmitted (id ids) (hbroker : input.brokerUp = true) :
      Moves now T input (.retry (id :: ids))
        ⟨some (.retry ids), T, [⟨id, .retrySweep⟩], []⟩
  | retryFailed (id ids) (hbroker : input.brokerUp = false) :
      Moves now T input (.retry (id :: ids)) ⟨none, T, [], []⟩
  | watchdogDone (cutoff) : Moves now T input (.watchdog (.scanning cutoff [])) ⟨none, T, [], []⟩
  | requeued (cutoff id ids n) (hn : T.get? id = some n)
      (hstuck : stuckProcessing cutoff n = true) :
      Moves now T input (.watchdog (.scanning cutoff (id :: ids)))
        ⟨some (.watchdog (.submitting cutoff id ids)),
          T.modify id requeueNotification pk_queueNotification, [], [.queued id .watchdog now]⟩
  | watchdogSkipped (cutoff id ids) :
      Moves now T input (.watchdog (.scanning cutoff (id :: ids)))
        ⟨some (.watchdog (.scanning cutoff ids)), T, [], []⟩
  | watchdogSubmitted (cutoff id ids) (hbroker : input.brokerUp = true) :
      Moves now T input (.watchdog (.submitting cutoff id ids))
        ⟨some (.watchdog (.scanning cutoff ids)), T, [⟨id, .watchdog⟩], []⟩
  | watchdogFailed (cutoff id ids) (hbroker : input.brokerUp = false) :
      Moves now T input (.watchdog (.submitting cutoff id ids)) ⟨none, T, [], []⟩
  | patchRefused (n data) : Moves now T input (.patch (.loaded n data)) ⟨none, T, [], []⟩
  | patchValid (n data d) (hvalid : data.valid now = true)
      (hd : (data.apply n).scheduledFor = some d) :
      Moves now T input (.patch (.loaded n data))
        ⟨some (.patch (.saving (data.apply n) d)), T, [], []⟩
  | patched (n d row) (hrow : T.get? n.id = some row) :
      Moves now T input (.patch (.saving n d))
        ⟨none, T.modify n.id (saveFuture n) (pk_saveFuture n), [], [.edited n.id row.status d]⟩
  | patchGone (n d) (hrow : T.get? n.id = none) :
      Moves now T input (.patch (.saving n d)) ⟨none, T, [], []⟩

/-- A step writes at most one notification row, and keeps its application. -/
theorem Moves.notifications {now : Instant} {T : Table Notification} {input : TaskInput}
    {p : Process} {s : TaskStep Process} (h : Moves now T input p s) :
    s.notifications = T ∨ ∃ q f hf, s.notifications = T.update q f hf ∧
      ∀ r, (f r).applicationId = r.applicationId := by
  cases h with
  | queued => exact Or.inr ⟨_, _, pk_queueNotification, rfl, fun _ => rfl⟩
  | queueRolledBack r id status hr =>
    exact Or.inr ⟨_, _, pk_restoreStatus status.val, rfl, fun _ => rfl⟩
  | dispatched => exact Or.inr ⟨_, _, pk_queueNotification, rfl, fun _ => rfl⟩
  | requeued => exact Or.inr ⟨_, _, pk_requeueNotification, rfl, fun _ => rfl⟩
  | patched n d row hrow => exact Or.inr ⟨_, _, pk_saveFuture n, rfl, fun _ => rfl⟩
  | _ => exact Or.inl rfl

/-- The requests and tasks on notifications record queueings and edits only. -/
theorem Moves.events {now : Instant} {T : Table Notification} {input : TaskInput}
    {p : Process} {s : TaskStep Process} (h : Moves now T input p s) {e : Event}
    (he : e ∈ s.events) :
    (∃ id source, e = .queued id source now) ∨ ∃ id found d, e = .edited id found d := by
  cases h with
  | queued r id status n hr hn hstatus => exact Or.inl ⟨id, .client, List.mem_singleton.mp he⟩
  | dispatched id ids n hn hdue => exact Or.inl ⟨id, .dispatcher, List.mem_singleton.mp he⟩
  | requeued cutoff id ids n hn hstuck => exact Or.inl ⟨id, .watchdog, List.mem_singleton.mp he⟩
  | patched n d row hrow => exact Or.inr ⟨n.id, row.status, d, List.mem_singleton.mp he⟩
  | _ => simp at he

/-- The processes that write the notification table row by row. -/
def writesNotifications : Process → Bool
  | .queue _ | .dispatch _ | .retry _ | .watchdog _ | .patch _ => true
  | .destroy _ | .link _ _ | .unlink _ _ => false

variable (now : Instant) (T : Table Notification) (input : TaskInput)

private theorem queue_moves (r : QueueRequest) :
    ∃ s, Moves now T input (.queue r) s ∧
      s = { (r.advance now T input) with next := (r.advance now T input).next.map .queue } := by
  refine ⟨_, ?_, rfl⟩
  obtain ⟨found, todo, stage, results⟩ := r
  cases stage with
  | choosing =>
    cases todo with
    | nil => exact .queueDone _ rfl
    | cons id ids =>
      simp only [QueueRequest.advance]
      split
      · exact .queueRefused _ id ids _ rfl rfl
      · next l hl =>
        split
        · exact .queueRefused _ id ids _ rfl rfl
        · next status hcheck => exact .queueChosen _ id ids l status rfl rfl hl hcheck
  | updating id status =>
    simp only [QueueRequest.advance]
    split
    · exact .queueInterrupted _ id status _ rfl
    · next hinput =>
      split
      · next hany =>
        obtain ⟨n, hn, hstatus⟩ := (Option.any_eq_true _ _).mp hany
        exact .queued _ id status n rfl hn (by simpa using hstatus) (by simpa using hinput)
      · exact .queueConflict _ id status rfl
  | conflicting id =>
    simp only [QueueRequest.advance]
    split
    · exact .queueConflictAnswered _ id _ rfl
    · exact .queueConflictAnswered _ id _ rfl
  | submitting id status =>
    simp only [QueueRequest.advance]
    split
    · next hbroker => exact .queueSubmitted _ id status rfl hbroker
    · next hbroker => exact .queueNotSubmitted _ id status rfl (by simpa using hbroker)
  | rollingBack id status => exact .queueRolledBack _ id status rfl

private theorem dispatch_moves (r : DispatchRun) :
    ∃ s, Moves now T input (.dispatch r) s ∧
      s = { (r.advance now T input) with next := (r.advance now T input).next.map .dispatch } := by
  refine ⟨_, ?_, rfl⟩
  cases r with
  | scanning ids =>
    cases ids with
    | nil => exact .dispatchDone
    | cons id ids =>
      simp only [DispatchRun.advance]
      split
      · next hdue =>
        simp only [Bool.and_eq_true] at hdue
        obtain ⟨n, hn, hnow⟩ := (Option.any_eq_true _ _).mp hdue.2
        exact .dispatched id ids n hn hnow (by simpa using hdue.1)
      · exact .dispatchSkipped id ids
  | submitting id ids =>
    simp only [DispatchRun.advance]
    split
    · next hbroker => exact .dispatchSubmitted id ids hbroker
    · next hbroker => exact .dispatchFailed id ids (by simpa using hbroker)

private theorem retry_moves (ids : List ℕ) :
    ∃ s, Moves now T input (.retry ids) s ∧
      s = { (retryAdvance T input ids) with
        next := (retryAdvance T input ids).next.map .retry } := by
  refine ⟨_, ?_, rfl⟩
  cases ids with
  | nil => exact .retryDone
  | cons id ids =>
    simp only [retryAdvance]
    split
    · next hbroker => exact .retrySubmitted id ids hbroker
    · next hbroker => exact .retryFailed id ids (by simpa using hbroker)

private theorem watchdog_moves (r : WatchdogRun) :
    ∃ s, Moves now T input (.watchdog r) s ∧
      s = { (r.advance now T input) with next := (r.advance now T input).next.map .watchdog } := by
  refine ⟨_, ?_, rfl⟩
  cases r with
  | scanning cutoff ids =>
    cases ids with
    | nil => exact .watchdogDone cutoff
    | cons id ids =>
      simp only [WatchdogRun.advance]
      split
      · next hstuck =>
        obtain ⟨n, hn, hstuck⟩ := (Option.any_eq_true _ _).mp hstuck
        exact .requeued cutoff id ids n hn hstuck
      · exact .watchdogSkipped cutoff id ids
  | submitting cutoff id ids =>
    simp only [WatchdogRun.advance]
    split
    · next hbroker => exact .watchdogSubmitted cutoff id ids hbroker
    · next hbroker => exact .watchdogFailed cutoff id ids (by simpa using hbroker)

private theorem patch_moves (r : PatchRequest) :
    ∃ s, Moves now T input (.patch r) s ∧
      s = { (r.advance now T) with next := (r.advance now T).next.map .patch } := by
  refine ⟨_, ?_, rfl⟩
  cases r with
  | loaded n data =>
    simp only [PatchRequest.advance]
    split
    · next hvalid =>
      split
      · next d hd => exact .patchValid n data d hvalid hd
      · exact .patchRefused n data
    · exact .patchRefused n data
  | saving n d =>
    simp only [PatchRequest.advance]
    split
    · next row hrow => exact .patched n d row hrow
    · next hnone => exact .patchGone n d hnone

/-- The requests and tasks on notifications do what `Moves` lists and write no other table. -/
theorem advance_moves (db : Db) {p : Process} (hp : p.writesNotifications = true) :
    ∃ s, Moves now db.notifications input p s ∧ p.advance now db input =
      { next := s.next
        db := { db with notifications := s.notifications }
        submitted := s.submitted
        events := s.events } := by
  cases p with
  | queue r =>
    obtain ⟨s, hs, rfl⟩ := queue_moves now db.notifications input r
    exact ⟨_, hs, rfl⟩
  | dispatch r =>
    obtain ⟨s, hs, rfl⟩ := dispatch_moves now db.notifications input r
    exact ⟨_, hs, rfl⟩
  | retry ids =>
    obtain ⟨s, hs, rfl⟩ := retry_moves now db.notifications input ids
    exact ⟨_, hs, rfl⟩
  | watchdog r =>
    obtain ⟨s, hs, rfl⟩ := watchdog_moves now db.notifications input r
    exact ⟨_, hs, rfl⟩
  | patch r =>
    obtain ⟨s, hs, rfl⟩ := patch_moves now db.notifications input r
    exact ⟨_, hs, rfl⟩
  | _ => simp [writesNotifications] at hp

end Process

/-! ### Requests that begin with a read -/

/-- The requests and tasks that move notifications towards the workers. -/
def Request.isSending : Request → Bool
  | .send _ _ | .dispatchScheduled | .retryPending | .requeueStuck => true
  | _ => false

/-- They begin without writing. -/
theorem Request.begin_sending (cfg : Settings) (now : Instant) (db : Db) {r : Request}
    (hr : r.isSending = true) :
    (r.begin cfg now db).db = db ∧ (r.begin cfg now db).submitted = [] ∧
      (r.begin cfg now db).events = [] := by
  cases r <;> simp [isSending] at hr <;> exact ⟨rfl, rfl, rfl⟩

/-- The requests on the quiet periods of devices. -/
def Request.isDeviceQuietPeriod : Request → Bool
  | .createDeviceQuietPeriod _ _ _ | .updateDeviceQuietPeriod _ _ _
  | .deleteDeviceQuietPeriod _ _ => true
  | _ => false

/-- They write the table of these quiet periods and nothing else. -/
theorem Request.begin_deviceQuietPeriod (cfg : Settings) (now : Instant) (db : Db) {r : Request}
    (hr : r.isDeviceQuietPeriod = true) :
    ∃ Q, (r.begin cfg now db).db = { db with deviceQuietPeriods := Q } ∧
      (r.begin cfg now db).submitted = [] ∧ (r.begin cfg now db).next = none ∧
      ∀ e ∈ (r.begin cfg now db).events, ∃ q owner, e = .attached (.quietPeriod q) owner := by
  cases r with
  | createDeviceQuietPeriod user deviceId values =>
    simp only [begin, Db.createDeviceQuietPeriod, Outcome.done]
    split
    · refine ⟨_, rfl, trivial, trivial, fun e he => ?_⟩
      exact ⟨_, _, List.mem_singleton.mp he⟩
    · exact ⟨db.deviceQuietPeriods, rfl, trivial, trivial, by simp⟩
  | updateDeviceQuietPeriod user id values =>
    exact ⟨_, rfl, rfl, rfl, by simp [begin, Outcome.done]⟩
  | deleteDeviceQuietPeriod user id => exact ⟨_, rfl, rfl, rfl, by simp [begin, Outcome.done]⟩
  | _ => simp [isDeviceQuietPeriod] at hr

end PushIT
