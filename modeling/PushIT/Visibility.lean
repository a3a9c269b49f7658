import PushIT.NotificationSteps
import PushIT.Sending
import PushIT.Views

/-!
# Hidden notifications

The soft delete hides a notification in a status from which a pass can still put it back to
SCHEDULED, and the endpoints on future notifications do not look at the flag.  As long as no
hidden row gets a date that lies ahead, no endpoint shows it and no request that starts later
touches it.

## Main definitions

* `World.HiddenSettled`: no hidden row is scheduled for a time ahead.
* `Process.Spares`: a request never changes a row, whatever happens around it.
* `World.HiddenStays`: hidden rows are in no answer, and new requests spare them.
* `World.KeepsHidden`: no action schedules a hidden row for a time ahead.

## Main results

* `hidden_stays`: hidden notifications stay hidden along every such run.
* `postponed_resurfaces`: an application quiet period brings a hidden notification back.
-/

namespace PushIT

open Relational Transition

/-! ### What the answers show -/

section Views

variable {tz : TimeZone} {lower : String → String} {now : Instant} {db : Db}

/-- The row is visible, or an editable future notification. -/
def Notification.isShown (now : Instant) (n : Notification) : Prop :=
  n.isVisible = true ∨ n.status = .scheduled ∧ ∃ d, n.scheduledFor = some d ∧ now < d

theorem mem_ids_notificationReads {ns : List Notification} {x : NotificationRead}
    (h : x ∈ notificationReads tz db ns) : ∃ n ∈ ns, x.id = n.id := by
  simp only [notificationReads, withApplications, List.mem_map, List.mem_filterMap,
    Option.map_eq_some_iff] at h
  obtain ⟨⟨a, n⟩, ⟨m, hm, b, hb, hpair⟩, rfl⟩ := h
  obtain ⟨-, rfl⟩ := Prod.mk.inj hpair
  exact ⟨m, hm, rfl⟩

theorem mem_ids_effectiveListing {f : ListFilter} {ns : List Notification}
    {x : NotificationRead} (h : x ∈ effectiveListing tz db f ns) : ∃ n ∈ ns, x.id = n.id := by
  obtain ⟨n, hn, hid⟩ := mem_ids_notificationReads h
  exact ⟨n, mem_of_mem_effectiveRows hn, hid⟩

theorem mem_ownerNotifications {user : ℕ} {n : Notification}
    (h : n ∈ ownerNotifications db user) : n ∈ db.notifications.rows ∧ n.isVisible = true := by
  simp only [ownerNotifications, List.mem_reverse, Table.mem_select, Bool.and_eq_true] at h
  exact ⟨h.1, h.2.1⟩

theorem mem_applicationNotifications {applicationId : ℕ} {n : Notification}
    (h : n ∈ applicationNotifications db applicationId) :
    n ∈ db.notifications.rows ∧ n.isVisible = true := by
  simp only [applicationNotifications, List.mem_reverse, Table.mem_select,
    Bool.and_eq_true] at h
  exact ⟨h.1, h.2.1⟩

theorem mem_inboxNotifications {device : Device} {since : Option Instant} {n : Notification}
    (h : n ∈ inboxNotifications db device since) :
    n ∈ db.notifications.rows ∧ n.isVisible = true := by
  simp only [inboxNotifications, List.mem_reverse, Table.mem_select, Bool.and_eq_true] at h
  exact ⟨h.1, h.2.1.1⟩

/-- An editable future notification is scheduled for a time ahead. -/
theorem futureNotification_isShown {user id : ℕ} {n : Notification}
    (h : futureNotification db now user id = some n) :
    n ∈ db.notifications.rows ∧ n.id = id ∧ n.isShown now := by
  simp only [futureNotification, Option.filter_eq_some_iff, Bool.and_eq_true, beq_iff_eq,
    Option.any_eq_true, decide_eq_true_eq] at h
  obtain ⟨hget, ⟨-, hstatus⟩, d, hd, hahead⟩ := h
  obtain ⟨hmem, hid⟩ := Table.get?_eq_some.mp hget
  exact ⟨hmem, hid, Or.inr ⟨hstatus, d, hd, hahead⟩⟩

theorem mem_futureNotifications {user : ℕ} {n : Notification}
    (h : n ∈ futureNotifications db now user) :
    n ∈ db.notifications.rows ∧ n.isShown now := by
  simp only [futureNotifications, List.mem_insertionSort, Table.mem_select,
    Option.isSome_iff_exists] at h
  obtain ⟨hmem, m, hm⟩ := h
  obtain ⟨hmem', hid, hshown⟩ := futureNotification_isShown hm
  obtain rfl := Table.eq_of_pk hmem hmem' hid.symm
  exact ⟨hmem, hshown⟩

/-- Every notification in an answer is a row that is shown. -/
theorem ViewRequest.respond_shows (q : ViewRequest) {id : ℕ}
    (h : id ∈ (q.respond tz lower now db).notificationIds) :
    ∃ n ∈ db.notifications.rows, n.id = id ∧ n.isShown now := by
  cases q with
  | notifications user f page =>
    simp only [respond, ViewResponse.notificationIds, List.mem_map] at h
    obtain ⟨x, hx, rfl⟩ := h
    obtain ⟨n, hn, hid⟩ := mem_ids_effectiveListing (OptionalPage.mem_items hx)
    obtain ⟨hmem, hvisible⟩ := mem_ownerNotifications (List.mem_of_mem_filter hn)
    exact ⟨n, hmem, hid.symm, Or.inl hvisible⟩
  | applicationNotifications applicationId f page =>
    simp only [respond, ViewResponse.notificationIds, List.mem_map] at h
    obtain ⟨x, hx, rfl⟩ := h
    obtain ⟨n, hn, hid⟩ := mem_ids_effectiveListing (mem_items_paginate hx)
    obtain ⟨hmem, hvisible⟩ := mem_applicationNotifications (List.mem_of_mem_filter hn)
    exact ⟨n, hmem, hid.symm, Or.inl hvisible⟩
  | futureNotifications user f page =>
    simp only [respond, ViewResponse.notificationIds, List.mem_map] at h
    obtain ⟨x, hx, rfl⟩ := h
    obtain ⟨n, hn, hid⟩ := mem_ids_effectiveListing (OptionalPage.mem_items hx)
    obtain ⟨hmem, hshown⟩ := mem_futureNotifications hn
    exact ⟨n, hmem, hid.symm, hshown⟩
  | futureNotification user i =>
    simp only [respond] at h
    split at h
    · next x hx =>
      obtain ⟨n, hn, hx⟩ := Option.bind_eq_some_iff.mp hx
      obtain ⟨a, -, rfl⟩ := Option.map_eq_some_iff.mp hx
      obtain ⟨hmem, hid, hshown⟩ := futureNotification_isShown hn
      obtain rfl := List.mem_singleton.mp h
      exact ⟨n, hmem, rfl, hshown⟩
    · simp [ViewResponse.notificationIds] at h
  | notification user i =>
    simp only [respond, notificationDetailResponse] at h
    split at h
    · next x hx =>
      obtain ⟨n, hn, hx⟩ := Option.bind_eq_some_iff.mp hx
      obtain ⟨a, -, rfl⟩ := Option.map_eq_some_iff.mp hx
      simp only [ownedNotification, Option.filter_eq_some_iff, Bool.and_eq_true] at hn
      obtain rfl := List.mem_singleton.mp h
      exact ⟨n, (Table.get?_eq_some.mp hn.1).1, rfl, Or.inl hn.2.1⟩
    · split at h
      · next x hx =>
        obtain ⟨n, hn, hx⟩ := Option.bind_eq_some_iff.mp hx
        obtain ⟨a, -, rfl⟩ := Option.map_eq_some_iff.mp hx
        simp only [receivedNotification, Option.filter_eq_some_iff, Bool.and_eq_true] at hn
        obtain rfl := List.mem_singleton.mp h
        exact ⟨n, (Table.get?_eq_some.mp hn.1).1, rfl, Or.inl hn.2.1⟩
      · simp [notificationNotFoundResponse, ViewResponse.notificationIds] at h
  | inbox user pushToken sentSince =>
    have hshown : ∀ {device : Device} {since : Option Instant} {x : NotificationRead},
        x ∈ notificationReads tz db ((inboxNotifications db device since).take maxInboxRows) →
        ∃ n ∈ db.notifications.rows, n.id = x.id ∧ n.isShown now := by
      intro device since x hx
      obtain ⟨n, hn, hid⟩ := mem_ids_notificationReads hx
      obtain ⟨hmem, hvisible⟩ := mem_inboxNotifications (List.mem_of_mem_take hn)
      exact ⟨n, hmem, hid.symm, Or.inl hvisible⟩
    simp only [respond, inboxResponse] at h
    split at h
    · simp [ViewResponse.notificationIds, Listing.items] at h
    · split at h
      · simp [ViewResponse.notificationIds, Listing.items] at h
      · split at h
        · simp [ViewResponse.notificationIds] at h
        · obtain ⟨x, hx, rfl⟩ := List.mem_map.mp h
          exact hshown hx
        · obtain ⟨x, hx, rfl⟩ := List.mem_map.mp h
          exact hshown hx
  | deviceNotifications user deviceId applicationId page =>
    simp only [respond, deviceNotificationsResponse] at h
    split at h
    · simp [deviceNotFoundResponse, ViewResponse.notificationIds] at h
    · obtain ⟨x, hx, rfl⟩ := List.mem_map.mp h
      obtain ⟨⟨a, n⟩, hpair, rfl⟩ := List.mem_map.mp (mem_items_paginate hx)
      simp only [withApplications, List.mem_filterMap, Option.map_eq_some_iff] at hpair
      obtain ⟨m, hm, b, hb, heq⟩ := hpair
      obtain ⟨-, rfl⟩ := Prod.mk.inj heq
      obtain ⟨hmem, hvisible⟩ := mem_ownerNotifications (List.mem_of_mem_filter hm)
      exact ⟨m, hmem, rfl, Or.inl hvisible⟩
  | devices user page => simp [respond, ViewResponse.notificationIds] at h
  | device user deviceId =>
    simp only [respond] at h
    split at h <;> simp [deviceNotFoundResponse, ViewResponse.notificationIds] at h

end Views

/-! ### Requests that spare a row -/

/-- A process after some of its statements, whatever the clock and the database were at each. -/
inductive Process.Becomes : Process → Process → Prop
  | refl (p) : Becomes p p
  | step {p q r} (now db input) (h : Becomes p q)
      (hnext : (q.advance now db input).next = some r) : Becomes p r

/-- No statement of the process, now or later, changes the row. -/
def Process.Spares (p : Process) (id : ℕ) : Prop :=
  ∀ q, p.Becomes q → ∀ now db input,
    (q.advance now db input).db.notifications.get? id = db.notifications.get? id

/-- The row the next statement of a client send is about. -/
def QueueStage.target : QueueStage → Option ℕ
  | .choosing => none
  | .updating id _ | .conflicting id | .submitting id _ | .rollingBack id _ => some id

/-- A client request that holds no instance of the row. -/
def Process.leaves (id : ℕ) : Process → Prop
  | .queue r => (∀ l ∈ r.found, l.notification.id ≠ id) ∧ r.stage.target ≠ some id
  | .patch r => r.held ≠ id
  | .destroy j => j ≠ id
  | _ => False

section Spares

variable {now : Instant} {db : Db} {input : TaskInput} {id : ℕ} {p : Process}

theorem QueueRequest.ne_of_lookup {r : QueueRequest} {j : ℕ} {l : LoadedNotification}
    (hr : ∀ l ∈ r.found, l.notification.id ≠ id) (hl : r.lookup j = some l) : j ≠ id := by
  have hid : l.notification.id = j := by simpa using List.find?_some hl
  exact hid ▸ hr l (List.mem_of_find?_eq_some hl)

theorem QueueRequest.forall_markFound {r : QueueRequest} {j : ℕ}
    (hr : ∀ l ∈ r.found, l.notification.id ≠ id) :
    ∀ l ∈ (r.markFound j).found, l.notification.id ≠ id := by
  intro l hl
  obtain ⟨m, hm, rfl⟩ := List.mem_map.mp hl
  split
  · exact hr m hm
  · exact hr m hm

/-- A statement of a request that holds no instance of the row does not write it. -/
theorem Process.leaves.get? (hp : p.leaves id) :
    (p.advance now db input).db.notifications.get? id = db.notifications.get? id := by
  have hadvance := Process.advance_cases now db input p
  generalize p.advance now db input = o at hadvance ⊢
  cases hadvance with
  | moves p s hmoves =>
    cases hmoves with
    | queued r j status n hr hn hstatus hinput =>
      exact Table.get?_modify_of_ne _ _ pk_queueNotification
        fun h => hp.2 (by rw [hr, h]; rfl)
    | queueRolledBack r j status hr =>
      change (db.notifications.update _ (restoreStatus status.val)
        (pk_restoreStatus status.val)).get? id = _
      have hne : j ≠ id := fun h => hp.2 (by rw [hr, h]; rfl)
      rw [Table.get?_update]
      cases hrow : db.notifications.get? id with
      | none => rfl
      | some row =>
        have hid : row.id = id := (Table.get?_eq_some.mp hrow).2
        simp [hid, Ne.symm hne]
    | patched n d row hrow =>
      exact Table.get?_modify_of_ne _ _ (pk_saveFuture n) fun h => hp h.symm
    | dispatched | requeued => exact hp.elim
    | _ => rfl
  | destroyed j =>
    change (db.notifications.delete fun n => n.id == j).get? id = _
    rw [Table.get?_delete]
    cases hrow : db.notifications.get? id with
    | none => rfl
    | some row =>
      have hid : row.id = id := (Table.get?_eq_some.mp hrow).2
      have hne : id ≠ j := fun h => hp h.symm
      simp [Option.filter, hid, hne]
  | _ => exact hp.elim

/-- It goes on without an instance of the row. -/
theorem Process.leaves.next (hp : p.leaves id) {q : Process}
    (hnext : (p.advance now db input).next = some q) : q.leaves id := by
  cases hadvance : p.writesNotifications with
  | false =>
    cases p with
    | destroy j => simp [Process.advance] at hnext
    | link | unlink => exact hp.elim
    | _ => simp [writesNotifications] at hadvance
  | true =>
    obtain ⟨s, hmoves, hadv⟩ := Process.advance_moves now input db hadvance
    rw [hadv] at hnext
    cases hmoves with
    | queueChosen r j ids l status hr htodo hl hcheck =>
      obtain rfl := Option.some.inj hnext
      refine ⟨hp.1, fun h => ?_⟩
      exact QueueRequest.ne_of_lookup hp.1 hl (Option.some.inj h)
    | queued r j status n hr hn hstatus hinput =>
      obtain rfl := Option.some.inj hnext
      obtain ⟨hfound, htarget⟩ := hp
      rw [hr] at htarget
      exact ⟨QueueRequest.forall_markFound hfound, htarget⟩
    | queueConflict r j status hr | queueNotSubmitted r j status hr =>
      obtain rfl := Option.some.inj hnext
      obtain ⟨hfound, htarget⟩ := hp
      rw [hr] at htarget
      exact ⟨hfound, htarget⟩
    | queueRefused r | queueInterrupted r | queueConflictAnswered r | queueSubmitted r
    | queueRolledBack r =>
      obtain rfl := Option.some.inj hnext
      exact ⟨hp.1, by simp [QueueRequest.answered, QueueStage.target]⟩
    | patchValid n data d hvalid hd =>
      obtain rfl := Option.some.inj hnext
      exact hp
    | queueDone | dispatchDone | dispatchFailed | retryDone | retryFailed | watchdogDone
    | watchdogFailed | patchRefused | patched | patchGone => simp at hnext
    | _ => exact hp.elim

theorem Process.leaves.spares (hp : p.leaves id) : p.Spares id := by
  intro q hq now db input
  have hleaves : q.leaves id := by
    induction hq with
    | refl => exact hp
    | step now db input _ hnext ih => exact ih.next hnext
  exact hleaves.get?

end Spares

/-- The client requests on notifications. -/
def Request.isClient : Request → Bool
  | .send _ _ | .sendNow _ _ _ _ | .patch _ _ _ | .destroy _ _ | .hide _ _ => true
  | _ => false

namespace World

/-- No hidden row is scheduled for a time ahead. -/
def HiddenSettled (w : World) : Prop :=
  ∀ n ∈ w.db.notifications.rows, n.isVisible = false → n.status = .scheduled →
    ∀ d, n.scheduledFor = some d → d ≤ w.clock

/-- Hidden rows are in no answer, and no client request that begins now ever changes one. -/
structure HiddenStays (cfg : Settings) (w : World) : Prop where
  unlisted : ∀ (lower : String → String) (q : ViewRequest), ∀ n ∈ w.db.notifications.rows,
    n.isVisible = false → n.id ∉ (q.respond cfg.timeZone lower w.clock w.db).notificationIds
  untouched : ∀ r : Request, r.isClient = true → ∀ n ∈ w.db.notifications.rows,
    n.isVisible = false →
    (r.begin cfg w.clock w.db).db.notifications.get? n.id = some n ∧
      ∀ p, (r.begin cfg w.clock w.db).next = some p → p.Spares n.id

/-- No row with this key is hidden. -/
def Shown (w : World) (id : ℕ) : Prop :=
  ∀ n ∈ w.db.notifications.rows, n.id = id → n.isVisible = true

instance (w : World) (id : ℕ) : Decidable (w.Shown id) := by
  unfold Shown
  infer_instance

end World

/-- The end of the quiet period a pass postpones its notification to. -/
def Pass.postponesTo (p : Pass) : Option Instant :=
  match p.stage with
  | .postponing quietPeriodEnd => some quietPeriodEnd
  | _ => none

/-- The row the next statement of a PATCH, or the roll-back of a client send, leaves SCHEDULED for
a time ahead. -/
def Process.reschedules (now : Instant) (T : Table Notification) : Process → Option ℕ
  | .patch (.saving m _) =>
    if m.status = .scheduled ∧ m.scheduledFor.any (fun d => decide (now < d)) then some m.id
    else none
  | .queue r =>
    match r.stage with
    | .rollingBack id status =>
      if status.val = .scheduled ∧ (T.get? id).any (fun n =>
          n.status == .queued && n.scheduledFor.any fun d => decide (now < d)) then some id
      else none
    | _ => none
  | _ => none

/-- In this action no hidden row is scheduled for a time ahead: not by a pass in a quiet period of
the application, not by a PATCH or by the roll-back of a send that began before. -/
def World.KeepsHidden (w : World) : Action → Prop
  | .pass pid _ => ∀ p ∈ w.passes pid, ∀ d ∈ p.postponesTo, w.clock < d →
      w.Shown p.notification.id
  | .advance rid _ => ∀ p ∈ w.processes rid,
      ∀ id ∈ p.reschedules w.clock w.db.notifications, w.Shown id
  | _ => True

instance (w : World) (a : Action) : Decidable (w.KeepsHidden a) := by
  rcases a with _ | _ <;> unfold World.KeepsHidden <;> infer_instance

/-! ### One step -/

/-- One action keeps the hidden rows settled. -/
theorem World.HiddenSettled.step {cfg : Settings} {w w' : World} {a : Action}
    (hw : w.HiddenSettled) (h : Steps cfg w a w') (hkeeps : w.KeepsHidden a) :
    w'.HiddenSettled := by
  intro n' hn' hhidden hscheduled d hd
  have hclock : w.clock ≤ w'.clock := by
    cases h with
    | tick duration => exact Int.le_add_of_nonneg_right (Int.natCast_nonneg _)
    | _ => exact le_rfl
  refine Int.le_trans ?_ hclock
  rcases h.notification_row hn' with ⟨n, hn, hrewrites⟩ | ⟨applicationId, data, rfl⟩
  · cases hrewrites with
    | kept => exact hw _ hn hhidden hscheduled d hd
    | postponed pid input p n quietPeriodEnd hp hid hstage =>
      obtain rfl : quietPeriodEnd = d := Option.some.inj hd
      by_contra hlt
      have hvisible := hkeeps p hp quietPeriodEnd (by simp [Pass.postponesTo, hstage])
        (Int.not_le.mp hlt) n hn hid
      exact Bool.false_ne_true (hhidden.symm.trans hvisible)
    | restored rid input r status n hp hstage hqueued =>
      by_contra hlt
      have hvisible := hkeeps _ hp n.id (by
        have hrow : w.db.notifications.get? n.id = some n := Table.get?_pk hn
        have hstatus : status.val = .scheduled := hscheduled
        have hdate : n.scheduledFor = some d := hd
        simp [Process.reschedules, hstage, hstatus, hrow, hqueued, hdate, Int.not_le.mp hlt])
        n hn rfl
      exact Bool.false_ne_true (hhidden.symm.trans hvisible)
    | saved rid input m e n hp hid =>
      by_contra hlt
      have hvisible := hkeeps _ hp m.id (by
        have hstatus : m.status = .scheduled := hscheduled
        have hdate : m.scheduledFor = some d := hd
        simp [Process.reschedules, hstatus, hdate, Int.not_le.mp hlt]) n hn hid
      exact Bool.false_ne_true (hhidden.symm.trans hvisible)
    | closed pid input p n status hp hid hstatus =>
      have : status = .scheduled := hscheduled
      rw [this] at hstatus
      simp at hstatus
    | hidden rid user id n hpending =>
      exact absurd (show n.status ∈ pendingStatuses by
        rw [show n.status = .scheduled from hscheduled]
        simp [pendingStatuses]) hpending
    | acquired | queued | requeued =>
      simp [acquire, queueNotification, requeueNotification] at hscheduled
  · simp [newNotification] at hhidden

/-- Where the hidden rows are settled, no endpoint shows one and new requests spare them. -/
theorem World.HiddenSettled.hiddenStays {cfg : Settings} {w : World} (hw : w.HiddenSettled) :
    w.HiddenStays cfg := by
  have hunshown : ∀ n ∈ w.db.notifications.rows, n.isVisible = false → ¬n.isShown w.clock := by
    rintro n hn hhidden (hvisible | ⟨hstatus, d, hd, hahead⟩)
    · exact Bool.false_ne_true (hhidden.symm.trans hvisible)
    · exact Int.not_le.mpr hahead (hw n hn hhidden hstatus d hd)
  have hfuture : ∀ {user id : ℕ} {m n : Notification},
      futureNotification w.db w.clock user id = some m → n ∈ w.db.notifications.rows →
      n.isVisible = false → m.id ≠ n.id := by
    intro user id m n hm hn hhidden heq
    obtain ⟨hmem, -, hshown⟩ := futureNotification_isShown hm
    obtain rfl := Table.eq_of_pk hmem hn heq
    exact hunshown m hn hhidden hshown
  refine ⟨fun lower q n hn hhidden hid => ?_, fun r hr n hn hhidden => ?_⟩
  · obtain ⟨m, hm, hmid, hshown⟩ := q.respond_shows hid
    obtain rfl := Table.eq_of_pk hm hn hmid
    exact hunshown m hn hhidden hshown
  · have hrow : w.db.notifications.get? n.id = some n := Table.get?_pk hn
    cases r with
    | send caller ids =>
      refine ⟨hrow, fun p hp => Process.leaves.spares ?_⟩
      obtain rfl := Option.some.inj hp
      refine ⟨fun l hl hid => ?_, by simp [QueueStage.target]⟩
      simp only [fetchNotifications, List.mem_map] at hl
      obtain ⟨m, hm, rfl⟩ := hl
      obtain ⟨hmem, hcond⟩ := Table.mem_select.mp hm
      obtain rfl := Table.eq_of_pk hmem hn hid
      simp [hhidden] at hcond
    | sendNow user applicationId deviceIds data =>
      simp only [Request.begin]
      split
      · exact ⟨hrow, by simp [Outcome.done]⟩
      · split
        · exact ⟨hrow, by simp [Outcome.done]⟩
        · refine ⟨?_, fun p hp => Process.leaves.spares ?_⟩
          · rcases createNotification_cases w.clock w.db user applicationId deviceIds data with
              h | ⟨ids, -, h⟩ <;> rw [h]
            · exact hrow
            · change (w.db.notifications.insert (newNotification w.clock applicationId data)
                (pk_newNotification w.clock applicationId data)).get? n.id = _
              exact Table.get?_insert_of_mem hrow
          · obtain rfl := Option.some.inj hp
            refine ⟨fun l hl => ?_, by simp [freshQueueRequest, QueueStage.target]⟩
            obtain rfl := List.mem_singleton.mp hl
            exact (Nat.lt_succ_of_le (w.db.notifications.bounded n hn)).ne'
    | patch user id data =>
      refine ⟨hrow, fun p hp => Process.leaves.spares ?_⟩
      obtain ⟨m, hm, rfl⟩ := Option.map_eq_some_iff.mp hp
      exact hfuture hm hn hhidden
    | destroy user id =>
      refine ⟨hrow, fun p hp => Process.leaves.spares ?_⟩
      obtain ⟨m, hm, rfl⟩ := Option.map_eq_some_iff.mp hp
      exact hfuture hm hn hhidden
    | hide user id =>
      refine ⟨?_, by simp [Request.begin, Outcome.done]⟩
      refine (Table.get?_update w.db.notifications _ (fun m => { m with isVisible := false })
        (fun _ => rfl) n.id).trans ?_
      rw [hrow]
      simp [hhidden]
    | _ => simp [Request.isClient] at hr

/-! ### Runs -/

/-- Hidden notifications stay hidden in every run in which no hidden row is scheduled for a time
ahead. -/
theorem hidden_stays {cfg : Settings} {w₀ w : World} (hw₀ : w₀.HiddenSettled)
    (h : (server cfg).Reach World.KeepsHidden w₀ w) : w.HiddenStays cfg := by
  have hpres : (server cfg).Preserves World.KeepsHidden World.HiddenSettled :=
    fun _ _ _ hw hok hs => hw.step (World.step_cases hs) hok
  exact (System.Reach.invariant hpres h hw₀).hiddenStays

/-- The notification of the sample server is sent and then hidden. -/
theorem sample_hidden_stays : ∃ w,
    (server .default).Reach World.KeepsHidden Sample.world w ∧
    (∃ n ∈ w.db.notifications.rows, n.isVisible = false) ∧ w.HiddenStays .default := by
  obtain ⟨w, hreach, hhidden⟩ := System.exists_reach_of_guardedRun (server .default)
    World.KeepsHidden Sample.world
    (Sample.toLoop 1 ⟨1, .client⟩ ++ List.replicate 4 (.pass 1 {}) ++ [.request 1 (.hide 1 1)])
    (fun w => w.db.notifications.rows.any fun n => !n.isVisible) (by decide)
  refine ⟨w, hreach, by simpa using hhidden, hidden_stays ?_ hreach⟩
  intro n hn hhidden
  obtain rfl : n = Sample.notification := List.mem_singleton.mp hn
  simp [Sample.notification] at hhidden

namespace Sample

/-- A refused notification whose delivery is due for a retry, in a quiet period of its
application. -/
def quietWorld : World where
  clock := 0
  db :=
    { db with
      notifications := single { notification with status := .failed }
      deliveries := single { delivery with nextRetryAt := some 0 }
      applicationQuietPeriods :=
        single { id := 1, applicationId := 1, startAt := some 0, endAt := some 60 } }

end Sample

/-- The owner hides the notification, the retry sweep has it sent again, and the pass puts it back
to SCHEDULED for the end of the quiet period: the owner sees it among the future ones. -/
theorem postponed_resurfaces : ¬∀ (cfg : Settings) (w₀ w : World), w₀.HiddenSettled →
    (server cfg).Reach (fun _ _ => True) w₀ w → w.HiddenStays cfg := by
  intro hclaim
  obtain ⟨w, hreach, hlisted⟩ := System.exists_reach_of_guardedRun (server .default)
    (fun _ _ => True) Sample.quietWorld
    ([.request 1 (.hide 1 1), .request 2 .retryPending, .advance 2 {},
      .claim 1 ⟨1, .retrySweep⟩ false] ++ List.replicate 3 (.pass 1 {}))
    (fun w => w.db.notifications.rows.any fun n => !n.isVisible && decide (n.id ∈
      ((ViewRequest.futureNotification 1 1).respond utc id w.clock w.db).notificationIds))
    (by decide)
  have hsettled : Sample.quietWorld.HiddenSettled := by
    intro n hn hhidden
    obtain rfl := List.mem_singleton.mp hn
    simp [Sample.notification] at hhidden
  simp only [List.any_eq_true, Bool.and_eq_true, Bool.not_eq_true', decide_eq_true_eq] at hlisted
  obtain ⟨n, hn, hhidden, hid⟩ := hlisted
  exact (hclaim .default _ w hsettled hreach).unlisted id _ n hn hhidden hid

end PushIT
