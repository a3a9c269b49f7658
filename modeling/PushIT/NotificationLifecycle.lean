import PushIT.Library.Refinement
import PushIT.Quiescence
import PushIT.Sending

/-!
# The lifecycle of a notification

A small machine says what the statuses are for: a notification is created DRAFT or SCHEDULED,
waits in QUEUED, is PROCESSING while a pass sends it, and SENT and NO_TARGET are final.  The
server has no such machine; its status columns are written by requests, tasks and passes that
interleave, some of them by primary key alone.  As long as the watchdog requeues no notification
whose pass still runs and no PATCH is written over a row that has left SCHEDULED, the server
refines the machine, notification by notification.

## Main definitions

* `Place`, `Turn`, `lifecycle`: the machine.
* `World.place`: where a notification is.
* `World.Orderly`: the actions of the server that keep to the machine.

## Main results

* `World.refines_lifecycle`: every orderly action is a turn of the machine, or shows nothing.
* `lifecycle_followed`: along orderly runs notifications follow the machine, and final statuses
  are final.
-/

namespace PushIT

open Relational Transition

/-! ### The machine -/

/-- Where a notification is in its life. -/
inductive Place
  | unborn
  | live (status : NotificationStatus)
  | gone
  deriving DecidableEq, Repr

/-- What can happen to a notification. -/
inductive Turn
  | create (scheduled : Bool)
  | queue
  /-- The task of a client send could not be submitted. -/
  | rollBack (status : NotificationStatus)
  | start
  | requeue
  | close (status : NotificationStatus)
  /-- A quiet period of the application. -/
  | postpone
  | remove
  deriving DecidableEq, Repr

/-- The statuses a pass closes a notification with. -/
def closingStatuses : List NotificationStatus := [.sent, .failed, .partially, .noTarget]

/-- A turn; `none` where it cannot happen. -/
def Place.turn : Place → Turn → Option Place
  | .unborn, .create scheduled => some (.live (if scheduled then .scheduled else .draft))
  | .live s, .queue =>
    if s ∈ allowedNotificationStatusesToQueue then some (.live .queued) else none
  | .live .queued, .rollBack s =>
    if s ∈ allowedNotificationStatusesToQueue then some (.live s) else none
  | .live s, .start =>
    if s ∈ allowedNotificationStatusesToStart then some (.live .processing) else none
  | .live .processing, .requeue => some (.live .queued)
  | .live .processing, .close s => if s ∈ closingStatuses then some (.live s) else none
  | .live .processing, .postpone => some (.live .scheduled)
  | .live _, .remove => some .gone
  | _, _ => none

/-- The lifecycle of one notification. -/
def lifecycle : System Place Turn := ⟨Place.turn⟩

/-- A notification in such a status is neither queued nor sent again. -/
def NotificationStatus.isFinal (s : NotificationStatus) : Bool :=
  !allowedNotificationStatusesToQueue.contains s && !allowedNotificationStatusesToStart.contains s
    && s != .processing

theorem isFinal_iff {s : NotificationStatus} : s.isFinal = true ↔ s = .sent ∨ s = .noTarget := by
  cases s <;> decide

/-- What is final stays, until the notification is removed. -/
theorem lifecycle_final {s : NotificationStatus} (hs : s.isFinal = true) :
    lifecycle.Preserves (fun _ _ => True) fun p => p = .live s ∨ p = .gone := by
  rintro p turn p' (rfl | rfl) - hstep
  · rcases isFinal_iff.mp hs with rfl | rfl <;> cases turn <;>
      simp [lifecycle, Place.turn, allowedNotificationStatusesToQueue,
        allowedNotificationStatusesToStart] at hstep
    · exact Or.inr hstep.symm
    · exact Or.inr hstep.symm
  · simp [lifecycle, Place.turn] at hstep

/-! ### Places in a table -/

/-- Where a notification is, by its primary key. -/
def placeIn (T : Table Notification) (id : ℕ) : Place :=
  match T.get? id with
  | some n => .live n.status
  | none => if id ≤ T.seq then .gone else .unborn

theorem placeIn_of_get? {T : Table Notification} {id : ℕ} {n : Notification}
    (h : T.get? id = some n) : placeIn T id = .live n.status := by
  simp [placeIn, h]

theorem placeIn_congr {T T' : Table Notification} {id : ℕ} (hget : T'.get? id = T.get? id)
    (hseq : T'.seq = T.seq) : placeIn T' id = placeIn T id := by
  simp [placeIn, hget, hseq]

/-- A row is shown as it was, or it is one of those that were rewritten. -/
theorem placeIn_update (T : Table Notification) (q : Notification → Bool)
    (f : Notification → Notification) (hf : ∀ n, pk (f n) = pk n) (id : ℕ) :
    placeIn (T.update q f hf) id = placeIn T id ∨ ∃ n, T.get? id = some n ∧ q n = true ∧
      placeIn (T.update q f hf) id = .live (f n).status := by
  have hget := T.get?_update q f hf id
  cases hn : T.get? id with
  | none =>
    rw [hn] at hget
    exact Or.inl (placeIn_congr (hget.trans hn.symm) rfl)
  | some n =>
    rw [hn, Option.map_some] at hget
    by_cases hq : q n = true
    · rw [if_pos hq] at hget
      exact Or.inr ⟨n, rfl, hq, placeIn_of_get? hget⟩
    · rw [if_neg hq] at hget
      exact Or.inl (placeIn_congr (hget.trans hn.symm) rfl)

/-- The row with a key is rewritten. -/
theorem placeIn_modify (T : Table Notification) (k : ℕ) (f : Notification → Notification)
    (hf : ∀ n, pk (f n) = pk n) (id : ℕ) :
    placeIn (T.modify k f hf) id = placeIn T id ∨ ∃ n, id = k ∧ T.get? k = some n ∧
      placeIn T id = .live n.status ∧ placeIn (T.modify k f hf) id = .live (f n).status := by
  rcases placeIn_update T (fun n => pk n == k) f hf id with heq | ⟨n, hn, hk, heq⟩
  · exact Or.inl heq
  · obtain rfl : id = k := (Table.get?_eq_some.mp hn).2.symm.trans (by simpa using hk)
    exact Or.inr ⟨n, rfl, hn, placeIn_of_get? hn, heq⟩

/-- A row is shown as it was, or it was deleted. -/
theorem placeIn_shrinks {T T' : Table Notification} (h : T.Shrinks T') (id : ℕ) :
    placeIn T' id = placeIn T id ∨ ∃ s, placeIn T id = .live s ∧ placeIn T' id = .gone := by
  cases hn' : T'.get? id with
  | some n => exact Or.inl (placeIn_congr (hn'.trans (h.get? hn').symm) h.seq)
  | none =>
    cases hn : T.get? id with
    | none => exact Or.inl (placeIn_congr (hn'.trans hn.symm) h.seq)
    | some n =>
      have hle : id ≤ T'.seq := by
        obtain ⟨hmem, rfl⟩ := Table.get?_eq_some.mp hn
        exact h.seq ▸ T.bounded n hmem
      exact Or.inr ⟨n.status, placeIn_of_get? hn, by simp [placeIn, hn', hle]⟩

theorem placeIn_insert (T : Table Notification) (mk : ℕ → Notification)
    (hmk : ∀ k, pk (mk k) = k) (id : ℕ) :
    placeIn (T.insert mk hmk) id = placeIn T id ∨
      placeIn T id = .unborn ∧ placeIn (T.insert mk hmk) id = .live (mk (T.seq + 1)).status := by
  by_cases hle : id ≤ T.seq
  · have hget := T.get?_insert_of_le mk hmk hle
    refine Or.inl ?_
    unfold placeIn
    rw [hget, Table.seq_insert, if_pos hle, if_pos (Nat.le_succ_of_le hle)]
  · have hnone : T.get? id = none := Table.get?_of_seq_lt (Nat.lt_of_not_le hle)
    by_cases hnew : id = T.seq + 1
    · subst hnew
      have hget : (T.insert mk hmk).get? (T.seq + 1) = some (mk (T.seq + 1)) :=
        Table.get?_eq_some.mpr ⟨Table.mem_insert.mpr (Or.inr rfl), hmk _⟩
      exact Or.inr ⟨by simp [placeIn, hnone], placeIn_of_get? hget⟩
    · have hnone' : (T.insert mk hmk).get? id = none :=
        Table.get?_of_seq_lt (by rw [Table.seq_insert]; omega)
      have hle' : ¬id ≤ (T.insert mk hmk).seq := by
        rw [Table.seq_insert]
        omega
      refine Or.inl ?_
      unfold placeIn
      rw [hnone, hnone']
      exact (if_neg hle').trans (if_neg hle).symm

/-! ### The server -/

namespace World

/-- Where a notification of the server is. -/
def place (id : ℕ) (w : World) : Place := placeIn w.db.notifications id

/-- The watchdog requeues no notification whose pass still runs, and no PATCH is written over a
row that has left SCHEDULED. -/
structure Orderly (w : World) (a : Action) : Prop where
  spares : w.WatchdogSpares a
  patches : ∀ rid input m d n, a = .advance rid input →
    w.processes rid = some (.patch (.saving m d)) → w.db.notifications.get? m.id = some n →
      n.status = .scheduled

/-- The running passes are the only ones for their notifications, which are PROCESSING while
they exist. -/
structure Working (w : World) : Prop where
  exclusive : Pool.Exclusive (fun p : Pass => p.notification.id) w.passes
  numbered : ∀ pid p, w.passes pid = some p → p.notification.id ≤ w.db.notifications.seq
  processing : ∀ pid p, w.passes pid = some p →
    ∀ n, w.db.notifications.get? p.notification.id = some n → n.status = .processing
  saving : ∀ rid p, w.processes rid = some p → p.SavesScheduled

theorem Initial.working {w : World} (hw : w.Initial) : w.Working where
  exclusive := by
    rw [hw.passes]
    exact Pool.exclusive_idle
  numbered := by simp [hw.passes]
  processing := by simp [hw.passes]
  saving := by simp [hw.processes]

end World

/-! ### What the statements do to a place -/

/-- A turn of the machine, or nothing. -/
def Place.Follows (p p' : Place) : Prop := p' = p ∨ ∃ turn, p.turn turn = some p'

theorem Place.Follows.refl (p : Place) : p.Follows p := Or.inl rfl

theorem mem_allowed_turn_queue {s : NotificationStatus}
    (h : s ∈ allowedNotificationStatusesToQueue) :
    (Place.live s).turn .queue = some (.live .queued) := by
  simp [Place.turn, h]

/-- A row that no pass works on is left by a request or task as the machine allows. -/
theorem Process.Moves.place_follows {now : Instant} {T : Table Notification} {input : TaskInput}
    {p : Process} {s : TaskStep Process} (h : Moves now T input p s)
    (hsaves : p.SavesScheduled)
    (hpatch : ∀ m d n, p = .patch (.saving m d) → T.get? m.id = some n → n.status = .scheduled)
    (id : ℕ) : (placeIn T id).Follows (placeIn s.notifications id) := by
  cases h with
  | queued r k status n hr hn hstatus =>
    rcases placeIn_modify T k queueNotification pk_queueNotification id with
      heq | ⟨m, rfl, hm, hold, hnew⟩
    · exact Or.inl heq
    · obtain rfl := Option.some.inj (hn.symm.trans hm)
      refine Or.inr ⟨.queue, ?_⟩
      rw [hold, hnew, hstatus]
      exact mem_allowed_turn_queue status.2
  | queueRolledBack r k status hr =>
    rcases placeIn_update T (fun n => n.id == k && n.status == .queued)
      (restoreStatus status.val) (pk_restoreStatus status.val) id with heq | ⟨n, hn, hq, hnew⟩
    · exact Or.inl heq
    · refine Or.inr ⟨.rollBack status.val, ?_⟩
      have hqueued : n.status = .queued := by
        simpa using (Bool.and_eq_true_iff.mp hq).2
      rw [placeIn_of_get? hn, hqueued, hnew]
      simp [Place.turn, status.2, restoreStatus]
  | dispatched k ids n hn hdue =>
    rcases placeIn_modify T k queueNotification pk_queueNotification id with
      heq | ⟨m, rfl, hm, hold, hnew⟩
    · exact Or.inl heq
    · obtain rfl := Option.some.inj (hn.symm.trans hm)
      have hscheduled : n.status = .scheduled := by
        simpa [scheduledDue] using (Bool.and_eq_true_iff.mp hdue).1
      refine Or.inr ⟨.queue, ?_⟩
      rw [hold, hnew, hscheduled]
      rfl
  | requeued cutoff k ids n hn hstuck =>
    rcases placeIn_modify T k requeueNotification pk_requeueNotification id with
      heq | ⟨m, rfl, hm, hold, hnew⟩
    · exact Or.inl heq
    · obtain rfl := Option.some.inj (hn.symm.trans hm)
      have hprocessing : n.status = .processing := by
        simpa [stuckProcessing] using (Bool.and_eq_true_iff.mp hstuck).1
      refine Or.inr ⟨.requeue, ?_⟩
      rw [hold, hnew, hprocessing]
      rfl
  | patched m d row hrow =>
    rcases placeIn_modify T m.id (saveFuture m) (pk_saveFuture m) id with
      heq | ⟨n, rfl, hn, hold, hnew⟩
    · exact Or.inl heq
    · -- the row is SCHEDULED, and so is the instance
      refine Or.inl ?_
      rw [hnew, hold, hpatch m d n rfl hn]
      exact congrArg Place.live hsaves
  | _ => exact .refl _

theorem Place.follows_shrinks {T T' : Table Notification} (h : T.Shrinks T') (id : ℕ) :
    (placeIn T id).Follows (placeIn T' id) := by
  rcases placeIn_shrinks h id with heq | ⟨s, hlive, hgone⟩
  · exact Or.inl heq
  · refine Or.inr ⟨.remove, ?_⟩
    rw [hlive, hgone]
    cases s <;> rfl

/-- A notification is born DRAFT or SCHEDULED. -/
theorem Place.follows_insert (T : Table Notification) (now : Instant) (applicationId : ℕ)
    (data : NotificationData) (id : ℕ) :
    (placeIn T id).Follows (placeIn (T.insert (newNotification now applicationId data)
      (pk_newNotification now applicationId data)) id) := by
  rcases placeIn_insert T _ (pk_newNotification now applicationId data) id with
    heq | ⟨hunborn, hlive⟩
  · exact Or.inl heq
  · refine Or.inr ⟨.create data.scheduledFor.isSome, ?_⟩
    rw [hunborn, hlive]
    rfl

/-- The requests and tasks keep to the machine when they begin. -/
theorem Request.Begins.place_follows {now : Instant} {db : Db} {r : Request} {o : Outcome}
    (h : Begins now db r o) (id : ℕ) :
    (placeIn db.notifications id).Follows (placeIn o.db.notifications id) := by
  cases h with
  | shrinks r o h hevents => exact Place.follows_shrinks h.notifications id
  | hides r o p hp h =>
    rw [h]
    rcases placeIn_update db.notifications p (fun n => { n with isVisible := false }) hp id with
      heq | ⟨n, hn, -, hnew⟩
    · exact Or.inl heq
    · exact Or.inl (hnew.trans (placeIn_of_get? hn).symm)
  | broadcasts applicationId data hp o h =>
    rw [h]
    exact Place.follows_insert db.notifications now applicationId data id
  | creates r o applicationId deviceIds data h =>
    rw [h]
    exact Place.follows_insert db.notifications now applicationId data id
  | upserts r o user data u hu h =>
    rw [h, hu.notifications]
    exact .refl _
  | silences user deviceId values hp o howner h | adjusts user id values hp o h =>
    rw [h]
    exact .refl _

/-- A pass closes or postpones a PROCESSING notification, and writes no other. -/
theorem Pass.Moves.place_follows {cfg : Settings} {now : Instant} {db : Db} {n : Notification}
    {stage : Stage} {s : PassStep} (h : Moves cfg now db n stage s)
    (hprocessing : ∀ row, db.notifications.get? n.id = some row → row.status = .processing)
    (id : ℕ) : (placeIn db.notifications id).Follows (placeIn s.db.notifications id) := by
  have hcloses : ∀ status ∈ closingStatuses, (placeIn db.notifications id).Follows
      (placeIn (db.notifications.modify n.id (closeNotification now status)
        (pk_closeNotification now status)) id) := by
    intro status hstatus
    rcases placeIn_modify db.notifications n.id (closeNotification now status)
      (pk_closeNotification now status) id with heq | ⟨row, rfl, hrow, hold, hnew⟩
    · exact Or.inl heq
    · refine Or.inr ⟨.close status, ?_⟩
      rw [hold, hnew, hprocessing row hrow]
      simp [Place.turn, hstatus, closeNotification]
  cases h with
  | lapsedClosed => exact hcloses .failed (by decide)
  | closed status =>
    refine hcloses status.val ?_
    have := status.2
    simp only [closingStatuses, List.mem_cons, List.not_mem_nil, or_false] at this ⊢
    tauto
  | postponed quietPeriodEnd =>
    rcases placeIn_modify db.notifications n.id (postponeNotification quietPeriodEnd)
      (pk_postponeNotification quietPeriodEnd) id with heq | ⟨row, rfl, hrow, hold, hnew⟩
    · exact Or.inl heq
    · refine Or.inr ⟨.postpone, ?_⟩
      rw [hold, hprocessing row hrow]
      exact congrArg some hnew.symm
  | _ => exact .refl _

/-- Every orderly action of the server is a turn of the machine, or shows nothing of it. -/
theorem World.refines_lifecycle (cfg : Settings) (id : ℕ) :
    (server cfg).Refines lifecycle World.Orderly (fun _ _ => True) World.Working
      (World.place id) := by
  intro w a w' hw horderly hs
  suffices hfollows : (w.place id).Follows (w'.place id) from
    hfollows.imp_right fun ⟨turn, hturn⟩ => ⟨turn, trivial, hturn⟩
  cases World.step_cases hs with
  | tick | notClaimed | crash => exact .refl _
  | claimed pid task n htask hpid hn hstatus =>
    have hid : n.id = task.notification := (Table.get?_eq_some.mp hn).2
    rcases placeIn_modify w.db.notifications n.id (acquire w.clock) (pk_acquire w.clock) id with
      heq | ⟨m, rfl, hm, hold, hnew⟩
    · exact Or.inl heq
    · obtain rfl := Option.some.inj (hn.symm.trans (hid ▸ hm))
      refine Or.inr ⟨.start, ?_⟩
      rw [place, place, hold]
      refine Eq.trans ?_ (congrArg some hnew.symm)
      cases hs : n.status <;> rw [hs] at hstatus <;>
        simp [allowedNotificationStatusesToStart] at hstatus <;> rfl
  | pass pid input p s hp hmoves => exact hmoves.place_follows (hw.processing pid p hp) id
  | request rid r => exact (Request.begin_cases cfg w.clock w.db r).place_follows id
  | advance rid input p hp =>
    have hpatch : ∀ m d n, p = .patch (.saving m d) → w.db.notifications.get? m.id = some n →
        n.status = .scheduled := by
      rintro m d n rfl hn
      exact horderly.patches rid input m d n rfl hp hn
    have hadvance := Process.advance_cases w.clock w.db input p
    change (placeIn w.db.notifications id).Follows
      (placeIn (p.advance w.clock w.db input).db.notifications id)
    generalize p.advance w.clock w.db input = o at hadvance
    cases hadvance with
    | moves _ s hmoves => exact hmoves.place_follows (hw.saving rid p hp) hpatch id
    | destroyed k => exact Place.follows_shrinks (Table.shrinks_delete _ _) id
    | _ => exact .refl _

/-! ### The running passes -/

/-- A request or task leaves the row of a running pass PROCESSING, if it leaves it at all. -/
theorem World.Working.advance {w : World} (hw : w.Working) {rid : ℕ} {input : TaskInput}
    {p : Process} (hp : w.processes rid = some p) (horderly : w.Orderly (.advance rid input))
    {pid : ℕ} {q : Pass} (hq : w.passes pid = some q) {n' : Notification}
    (hn' : (p.advance w.clock w.db input).db.notifications.get? q.notification.id = some n') :
    n'.status = .processing := by
  have hadvance := Process.advance_cases w.clock w.db input p
  obtain ⟨n, hn, hrewrites⟩ :=
    hadvance.notification_row hp (Table.get?_eq_some.mp hn').1
  have hid : n.id = q.notification.id :=
    hrewrites.origin.1.symm.trans (Table.get?_eq_some.mp hn').2
  have hrow : w.db.notifications.get? n.id = some n := Table.get?_pk hn
  have hprocessing : n.status = .processing := hw.processing pid q hq n (hid ▸ hrow)
  generalize p.advance w.clock w.db input = o at hadvance hn'
  -- nobody but the watchdog and a PATCH writes such a row
  have hkept : ∀ s, Process.Moves w.clock w.db.notifications input p s →
      s.notifications.get? n.id = some n := by
    intro s hmoves
    refine hmoves.get?_processing hrow hprocessing ?_ ?_
    · rintro cutoff ids rfl
      by_contra hstuck
      exact horderly.spares rid input cutoff n.id ids n rfl hp hrow (by simpa using hstuck)
        pid q hq hid.symm
    · rintro m d rfl heq
      have hscheduled := horderly.patches rid input m d n rfl hp (heq ▸ hrow)
      rw [hprocessing] at hscheduled
      cases hscheduled
  cases hadvance with
  | moves _ s hmoves =>
    obtain rfl := Option.some.inj ((hid ▸ hkept s hmoves).symm.trans hn')
    exact hprocessing
  | destroyed k =>
    exact hw.processing pid q hq n' ((Table.shrinks_delete w.db.notifications _).get? hn')
  | _ => exact hw.processing pid q hq n' hn'

/-- A request that begins leaves the row of a running pass PROCESSING, if it leaves it at all. -/
theorem World.Working.request {w : World} (hw : w.Working) {r : Request} {o : Outcome}
    (h : Request.Begins w.clock w.db r o) {pid : ℕ} {q : Pass} (hq : w.passes pid = some q)
    {n' : Notification} (hn' : o.db.notifications.get? q.notification.id = some n') :
    n'.status = .processing := by
  obtain ⟨hmem, hid⟩ := Table.get?_eq_some.mp hn'
  rcases h.status_row hmem with ⟨n, hn, hsame, hstatus⟩ | ⟨applicationId, data, rfl⟩
  · have hrow : w.db.notifications.get? q.notification.id = some n :=
      Table.get?_eq_some.mpr ⟨hn, hsame.trans hid⟩
    exact hstatus.symm.trans (hw.processing pid q hq n hrow)
  · have hnumbered := hw.numbered pid q hq
    rw [← hid, pk_notification] at hnumbered
    exact absurd hnumbered (Nat.not_succ_le_self _)

/-- Orderly actions keep the passes and their rows together. -/
theorem World.working_preserves (cfg : Settings) :
    (server cfg).Preserves World.Orderly World.Working := by
  intro w a w' hw horderly hs
  have hsteps := World.step_cases hs
  have hseq := hsteps.seq_le
  have hnumbered : ∀ pid p, w.passes pid = some p →
      p.notification.id ≤ w'.db.notifications.seq :=
    fun pid p hp => (hw.numbered pid p hp).trans hseq
  cases hsteps with
  | tick | notClaimed => exact ⟨hw.exclusive, hw.numbered, hw.processing, hw.saving⟩
  | claimed pid task n htask hpid hn hstatus =>
    obtain ⟨hmem, hid⟩ := Table.get?_eq_some.mp hn
    have hrow : w.db.notifications.get? n.id = some n := Table.get?_pk hmem
    -- a row with a running pass is PROCESSING, which no claim accepts
    have habs : ∀ j p, w.passes j = some p → p.notification.id ≠ n.id := by
      intro j p hp heq
      exact allowed_ne_processing hstatus (hw.processing j p hp n (heq ▸ hrow))
    refine ⟨hw.exclusive.set_of_absent habs, Pool.forall_set hnumbered ?_,
      Pool.forall_set ?_ ?_, hw.saving⟩
    · rintro p ⟨⟩
      exact w.db.notifications.bounded n hmem
    · intro j p hp m hm
      refine hw.processing j p hp m ?_
      exact (Table.get?_modify_of_ne w.db.notifications _ (pk_acquire w.clock)
        (habs j p hp)).symm.trans hm
    · rintro p ⟨⟩ m hm
      change (w.db.notifications.modify n.id _ (pk_acquire w.clock)).get? n.id = some m at hm
      rw [Table.get?_modify_self, hrow] at hm
      obtain rfl := Option.some.inj hm
      rfl
  | pass pid input p s hp hmoves =>
    have hkey : ∀ p', s.next = some p' → p'.notification = p.notification :=
      fun p' hp' => hmoves.notification_eq hp'
    refine ⟨hw.exclusive.set_of_key hp fun p' hp' => by rw [hkey p' hp'],
      Pool.forall_set hnumbered fun p' hp' => hkey p' hp' ▸ hnumbered pid p hp, ?_, hw.saving⟩
    intro j q hq m hm
    change s.db.notifications.get? q.notification.id = some m at hm
    rcases Pool.set_eq_some.mp hq with ⟨rfl, hnext⟩ | ⟨hne, hq⟩
    · rw [hmoves.notifications_of_next hnext, hkey q hnext] at hm
      exact hw.processing j p hp m hm
    · have hother : q.notification.id ≠ p.notification.id :=
        fun heq => hne (hw.exclusive hq hp heq)
      rcases hmoves.notifications with hs | ⟨-, f, hf, hs, -⟩ <;> rw [hs] at hm
      · exact hw.processing j q hq m hm
      · rw [Table.get?_modify_of_ne _ _ _ hother] at hm
        exact hw.processing j q hq m hm
  | crash pid p hp =>
    exact ⟨hw.exclusive.set_of_key hp (by simp), Pool.forall_set hnumbered (by simp),
      Pool.forall_set hw.processing (by simp), hw.saving⟩
  | request rid r hrid =>
    refine ⟨hw.exclusive, hnumbered, fun pid q hq n' hn' => ?_, Pool.forall_set hw.saving ?_⟩
    · exact hw.request (Request.begin_cases cfg w.clock w.db r) hq hn'
    · exact fun p hp => Request.begin_savesScheduled cfg w.clock w.db r p hp
  | advance rid input p hp =>
    refine ⟨hw.exclusive, hnumbered, fun pid q hq n' hn' => ?_, Pool.forall_set hw.saving ?_⟩
    · exact hw.advance hp horderly hq hn'
    · exact fun p' hp' => (Process.advance_cases w.clock w.db input p).savesScheduled hp'

/-- Along orderly runs every notification follows its lifecycle: it is born DRAFT or SCHEDULED, is
queued, started, requeued, closed and postponed as the machine says, and never comes back once it
is gone; SENT and NO_TARGET are final. -/
theorem lifecycle_followed {cfg : Settings} {w₀ w w' : World} (h₀ : w₀.Initial)
    (h : (server cfg).Reach World.Orderly w₀ w) (h' : (server cfg).Reach World.Orderly w w')
    (id : ℕ) :
    lifecycle.Reach (fun _ _ => True) (w.place id) (w'.place id) ∧
      ∀ s, s.isFinal = true → w.place id = .live s →
        w'.place id = .live s ∨ w'.place id = .gone := by
  have hw := h.invariant (World.working_preserves cfg) h₀.working
  have hrefines := World.refines_lifecycle cfg id
  refine ⟨hrefines.reach (World.working_preserves cfg) h' hw, fun s hs hlive => ?_⟩
  exact hrefines.invariant (World.working_preserves cfg) (lifecycle_final hs) h' hw (Or.inl hlive)

/-- What is not a step of a request or task is orderly. -/
theorem World.orderly_of_not_advance (w : World) {a : Action} (h : a.isAdvance = false) :
    w.Orderly a where
  spares := watchdogSpares_of_not_advance h
  patches := by
    rintro rid input m d n rfl
    simp [Action.isAdvance] at h

/-- The notification of the sample server is sent, and goes with the account of its owner. -/
theorem sample_lifecycle_followed : ∃ w w',
    (server .default).Reach World.Orderly Sample.world w ∧
      (server .default).Reach World.Orderly w w' ∧ w.place 1 = .live .sent ∧
      w'.place 1 = .gone ∧ lifecycle.Reach (fun _ _ => True) (w.place 1) (w'.place 1) := by
  obtain ⟨w, w', hw, hsent, hw', hgone⟩ :=
    System.exists_reach_reach_of_guardedRun (server .default) (fun _ a => a.isAdvance = false)
      Sample.world (Sample.toLoop 1 ⟨1, .client⟩ ++ List.replicate 4 (.pass 1 {}))
      [.request 1 (.deleteAccount 1)] (fun w => w.place 1 == .live .sent)
      (fun w => w.place 1 == .gone) (by decide)
  have hw := hw.mono World.Orderly fun w _ ha => w.orderly_of_not_advance ha
  have hw' := hw'.mono World.Orderly fun w _ ha => w.orderly_of_not_advance ha
  exact ⟨w, w', hw, hw', by simpa using hsent, by simpa using hgone,
    (lifecycle_followed Sample.world_initial hw hw' 1).1⟩

end PushIT
