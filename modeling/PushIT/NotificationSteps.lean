import PushIT.RequestSteps

/-!
# What an action does to a notification row

Every action of the server leaves a notification row as it was, or rewrites it in one of a few
ways; new rows are those of the create endpoints.

## Main definitions

* `World.Rewrites`: the rewritings, with the action and the local state they belong to.

## Main results

* `World.Steps.notification_row`: nothing else happens to a row.
* `World.Rewrites.origin`, `World.Rewrites.isVisible`: no rewriting touches the application, the
  idempotency key or the fingerprint, and none makes a hidden row visible.
-/

namespace PushIT

open Relational Transition

/-- How an action rewrites a notification row. -/
inductive World.Rewrites (w : World) : Action → Notification → Notification → Prop
  | kept (a n) : Rewrites w a n n
  | acquired (pid task n) : Rewrites w (.claim pid task false) n (acquire w.clock n)
  | closed (pid input p n status) (hp : w.passes pid = some p) (hid : n.id = p.notification.id)
      (hstatus : status ∈ [NotificationStatus.sent, .failed, .partially, .noTarget]) :
      Rewrites w (.pass pid input) n (closeNotification w.clock status n)
  | postponed (pid input p n quietPeriodEnd) (hp : w.passes pid = some p)
      (hid : n.id = p.notification.id) (hstage : p.stage = .postponing quietPeriodEnd) :
      Rewrites w (.pass pid input) n (postponeNotification quietPeriodEnd n)
  | queued (rid input n) : Rewrites w (.advance rid input) n (queueNotification n)
  | requeued (rid input n) : Rewrites w (.advance rid input) n (requeueNotification n)
  | restored (rid input r status n) (hp : w.processes rid = some (.queue r))
      (hstage : r.stage = .rollingBack n.id status) (hqueued : n.status = .queued) :
      Rewrites w (.advance rid input) n (restoreStatus status.val n)
  | saved (rid input m d n) (hp : w.processes rid = some (.patch (.saving m d)))
      (hid : n.id = m.id) : Rewrites w (.advance rid input) n (saveFuture m n)
  | hidden (rid user id n) (hpending : n.status ∉ pendingStatuses) :
      Rewrites w (.request rid (.hide user id)) n { n with isVisible := false }

/-! ### One step -/

/-- Rows chosen by a condition are rewritten. -/
theorem World.Rewrites.of_update {w : World} {a : Action} {q : Notification → Bool}
    {f : Notification → Notification} (hf : ∀ n, pk (f n) = pk n) {n' : Notification}
    (hn' : n' ∈ (w.db.notifications.update q f hf).rows)
    (h : ∀ n, q n = true → w.Rewrites a n (f n)) :
    ∃ n ∈ w.db.notifications.rows, w.Rewrites a n n' := by
  obtain ⟨n, hn, rfl⟩ := Table.mem_update.mp hn'
  refine ⟨n, hn, ?_⟩
  split
  · next hq => exact h n hq
  · exact .kept a n

/-- The row with a key is rewritten. -/
theorem World.Rewrites.of_modify {w : World} {a : Action} {id : ℕ}
    {f : Notification → Notification} (hf : ∀ n, pk (f n) = pk n) {n' : Notification}
    (hn' : n' ∈ (w.db.notifications.modify id f hf).rows)
    (h : ∀ n, n.id = id → w.Rewrites a n (f n)) :
    ∃ n ∈ w.db.notifications.rows, w.Rewrites a n n' :=
  of_update hf hn' fun n hq => h n (by simpa using hq)

/-- A notification row after a step of a pass. -/
theorem Pass.Moves.notification_row {cfg : Settings} {w : World} {pid : ℕ} {input : PassInput}
    {p : Pass} {s : PassStep} (hp : w.passes pid = some p)
    (h : Moves cfg w.clock w.db p.notification p.stage s) {n' : Notification}
    (hn' : n' ∈ s.db.notifications.rows) :
    ∃ n ∈ w.db.notifications.rows, w.Rewrites (.pass pid input) n n' := by
  obtain ⟨notification, stage⟩ := p
  cases h with
  | lapsedClosed =>
    refine World.Rewrites.of_modify (pk_closeNotification w.clock .failed) hn' fun n hid => ?_
    exact .closed pid input _ n .failed hp hid (by simp)
  | postponed quietPeriodEnd =>
    refine World.Rewrites.of_modify (pk_postponeNotification quietPeriodEnd) hn' fun n hid => ?_
    exact .postponed pid input _ n quietPeriodEnd hp hid rfl
  | closed status =>
    refine World.Rewrites.of_modify (pk_closeNotification w.clock status.val) hn' fun n hid => ?_
    refine .closed pid input _ n status.val hp hid ?_
    have := status.2
    simp only [List.mem_cons, List.not_mem_nil, or_false] at this ⊢
    tauto
  | _ => exact ⟨n', hn', .kept _ n'⟩

/-- A notification row after a step of a request or task. -/
theorem Process.Advances.notification_row {w : World} {rid : ℕ} {input : TaskInput}
    {p : Process} {o : Outcome} (hp : w.processes rid = some p)
    (h : Advances w.clock w.db input p o) {n' : Notification}
    (hn' : n' ∈ o.db.notifications.rows) :
    ∃ n ∈ w.db.notifications.rows, w.Rewrites (.advance rid input) n n' := by
  cases h with
  | destroyed id => exact ⟨n', (Table.mem_delete.mp hn').1, .kept _ n'⟩
  | moves p s hmoves =>
    cases hmoves with
    | queued r id status m hr hm hstatus hinput | dispatched id ids m hm hdue hinput =>
      exact World.Rewrites.of_modify pk_queueNotification hn' fun n _ => .queued rid input n
    | requeued cutoff id ids m hm hstuck =>
      exact World.Rewrites.of_modify pk_requeueNotification hn' fun n _ => .requeued rid input n
    | queueRolledBack r id status hr =>
      refine World.Rewrites.of_update (pk_restoreStatus status.val) hn' fun n hcond => ?_
      simp only [Bool.and_eq_true, beq_iff_eq] at hcond
      obtain ⟨rfl, hqueued⟩ := hcond
      exact .restored rid input r status n hp hr hqueued
    | patched m d row hrow =>
      exact World.Rewrites.of_modify (pk_saveFuture m) hn' fun n hid =>
        .saved rid input m d n hp hid
    | _ => exact ⟨n', hn', .kept _ n'⟩
  | _ => exact ⟨n', hn', .kept _ n'⟩

/-- An upsert leaves the notifications alone. -/
theorem Upserted.notifications {now : Instant} {db : Db} {user : ℕ} {data : DeviceData}
    {u : Upsert} (hu : Upserted now db user data u) : u.db.notifications = db.notifications := by
  cases hu with
  | refreshed d hd => exact db.notifications_refreshDevice now user data d
  | _ => rfl

/-- A notification row after the first statements of a request or task. -/
theorem Request.Begins.notification_row {w : World} {rid : ℕ} {r : Request} {o : Outcome}
    (h : Begins w.clock w.db r o) {n' : Notification} (hn' : n' ∈ o.db.notifications.rows) :
    (∃ n ∈ w.db.notifications.rows, w.Rewrites (.request rid r) n n') ∨
      ∃ applicationId data,
        n' = newNotification w.clock applicationId data (w.db.notifications.seq + 1) := by
  cases h with
  | shrinks r o h hevents => exact Or.inl ⟨n', h.notifications.rows n' hn', .kept _ n'⟩
  | hides r o p hf h hevents hr hpending =>
    obtain ⟨user, id, rfl⟩ := hr
    rw [h] at hn'
    exact Or.inl (World.Rewrites.of_update hf hn' fun n hcond =>
      .hidden rid user id n (hpending n hcond))
  | broadcasts applicationId data hmk o h =>
    rw [h] at hn'
    change n' ∈ (w.db.notifications.insert (newNotification w.clock applicationId data)
      (pk_newNotification w.clock applicationId data)).rows at hn'
    rcases Table.mem_insert.mp hn' with hn | rfl
    · exact Or.inl ⟨n', hn, .kept _ n'⟩
    · exact Or.inr ⟨applicationId, data, rfl⟩
  | creates r o applicationId deviceIds data h =>
    rw [h] at hn'
    rcases mem_notifications_insertTargeted.mp hn' with hn | rfl
    · exact Or.inl ⟨n', hn, .kept _ n'⟩
    · exact Or.inr ⟨applicationId, data, rfl⟩
  | upserts r o user data u hu h =>
    rw [h, hu.notifications] at hn'
    exact Or.inl ⟨n', hn', .kept _ n'⟩
  | silences user deviceId values hmk o howner h | adjusts user id values hf o h =>
    rw [h] at hn'
    exact Or.inl ⟨n', hn', .kept _ n'⟩

/-- The rows that a request finds keep their status in its first statements. -/
theorem Request.Begins.status_row {w : World} {r : Request} {o : Outcome}
    (h : Begins w.clock w.db r o) {n' : Notification} (hn' : n' ∈ o.db.notifications.rows) :
    (∃ n ∈ w.db.notifications.rows, n.id = n'.id ∧ n.status = n'.status) ∨
      ∃ applicationId data,
        n' = newNotification w.clock applicationId data (w.db.notifications.seq + 1) := by
  have hrow : (∃ n ∈ w.db.notifications.rows, w.Rewrites (.request 0 r) n n') ∨ _ :=
    h.notification_row hn'
  refine hrow.imp_left ?_
  rintro ⟨n, hn, hrewrites⟩
  exact ⟨n, hn, by cases hrewrites <;> exact ⟨rfl, rfl⟩⟩

/-- Every notification row after an action was there before, or it is the new row of a create
request. -/
theorem World.Steps.notification_row {cfg : Settings} {w w' : World} {a : Action}
    (h : Steps cfg w a w') {n' : Notification} (hn' : n' ∈ w'.db.notifications.rows) :
    (∃ n ∈ w.db.notifications.rows, w.Rewrites a n n') ∨
      ∃ applicationId data,
        n' = newNotification w.clock applicationId data (w.db.notifications.seq + 1) := by
  cases h with
  | claimed pid task m htask hpid hm hstatus =>
    exact Or.inl (World.Rewrites.of_modify (pk_acquire w.clock) hn' fun n _ => .acquired pid task n)
  | pass pid input p s hp hmoves hadv => exact Or.inl (hmoves.notification_row hp hn')
  | request rid r hrid => exact (Request.begin_cases cfg w.clock w.db r).notification_row hn'
  | advance rid input p hp =>
    exact Or.inl ((Process.advance_cases w.clock w.db input p).notification_row hp hn')
  | _ => exact Or.inl ⟨n', hn', .kept _ n'⟩

/-- Keys of notifications are not handed out twice. -/
theorem World.Steps.seq_le {cfg : Settings} {w w' : World} {a : Action} (h : Steps cfg w a w') :
    w.db.notifications.seq ≤ w'.db.notifications.seq := by
  cases h with
  | pass pid input p s hp hmoves =>
    obtain ⟨notification, stage⟩ := p
    cases hmoves <;> exact le_rfl
  | request rid r hrid => exact (Request.begin_cases cfg w.clock w.db r).seq_le.2
  | advance rid input p hp => exact (Process.advance_cases w.clock w.db input p).frame.2.2.2.ge
  | _ => exact le_rfl

/-! ### What no rewriting touches -/

namespace World.Rewrites

variable {w : World} {a : Action} {n n' : Notification}

/-- The columns that say where a notification comes from. -/
theorem origin (h : w.Rewrites a n n') :
    n'.id = n.id ∧ n'.applicationId = n.applicationId ∧
      n'.idempotencyKey = n.idempotencyKey ∧ n'.requestFingerprint = n.requestFingerprint := by
  cases h <;> exact ⟨rfl, rfl, rfl, rfl⟩

/-- A hidden row stays hidden. -/
theorem isVisible (h : w.Rewrites a n n') (hn : n.isVisible = false) : n'.isVisible = false := by
  cases h with
  | hidden => rfl
  | _ => exact hn

end World.Rewrites

end PushIT
