import PushIT.Sending

/-!
# Notifications in QUEUED

A notification is moved to QUEUED by one statement and its send task is submitted by a later one.
The client requests put the status back when the submission fails; the dispatcher and the
watchdog do not, and a worker that finds the row locked drops the task.  A QUEUED notification
keeps a task in the broker, or a process about to submit one, in every run in which none of these
failures hits the last task of a notification.

## Main definitions

* `World.Carried`: every QUEUED row has its task, or a process that is about to submit it.
* `World.Covered`: a failed submission or a dropped task leaves another task behind.
* `World.NoneStranded`: every QUEUED row has a task, or something that will pick it up.

## Main results

* `queued_not_stranded`: no notification is stranded along such runs.
* `queued_stranded`: the dispatcher strands a notification when the broker refuses its task.
-/

namespace PushIT

open Relational Transition

/-- The process has written QUEUED and its next statements submit the send task, or take the
status back. -/
def Process.submits (id : ℕ) : Process → Bool
  | .queue r =>
    match r.stage with
    | .submitting j _ | .rollingBack j _ => j == id
    | _ => false
  | .dispatch (.submitting j _) => j == id
  | .watchdog (.submitting _ j _) => j == id
  | _ => false

/-- The process is a periodic task at its submission, which it does not take back. -/
def Process.submitsForGood (id : ℕ) : Process → Bool
  | .dispatch (.submitting j _) => j == id
  | .watchdog (.submitting _ j _) => j == id
  | _ => false

namespace World

/-- A send task of the notification waits in the broker. -/
def HasTask (w : World) (id : ℕ) : Prop := ∃ task ∈ w.broker, task.notification = id

instance (w : World) (id : ℕ) : Decidable (w.HasTask id) :=
  inferInstanceAs (Decidable (∃ task ∈ w.broker, task.notification = id))

/-- Every QUEUED notification has a task in the broker, or a process that is about to submit
one. -/
def Carried (w : World) : Prop :=
  ∀ n ∈ w.db.notifications.rows, n.status = .queued →
    w.HasTask n.id ∨ ∃ rid p, w.processes rid = some p ∧ p.submits n.id = true

/-- A QUEUED notification will be picked up: a task is in flight, or a periodic task selects it
now or later, or the client endpoints accept it. -/
def Followed (w : World) (n : Notification) : Prop :=
  w.HasTask n.id ∨ (∃ rid p, w.processes rid = some p ∧ p.submits n.id = true) ∨
  (∃ t, w.clock ≤ t ∧ (scheduledDue t n = true ∨ stuckProcessing t n = true ∨
    ∃ d ∈ w.db.deliveries.rows, d.notificationId = n.id ∧ retryDue t d = true)) ∨
  n.status ∈ allowedNotificationStatusesToQueue

def NoneStranded (w : World) : Prop :=
  ∀ n ∈ w.db.notifications.rows, n.status = .queued → w.Followed n

theorem Carried.noneStranded {w : World} (hw : w.Carried) : w.NoneStranded := by
  intro n hn hqueued
  rcases hw n hn hqueued with htask | hprocess
  · exact Or.inl htask
  · exact Or.inr (Or.inl hprocess)

/-- The actions of the send path, the requests that create a notification and send it at once,
and the death of a worker. -/
def Queues (w : World) : Action → Prop
  | .crash _ => True
  | .request _ (.sendNow _ _ _ _) => True
  | a => w.Sends a

instance (w : World) (a : Action) : Decidable (w.Queues a) := by
  unfold Queues
  split <;> infer_instance

/-- When, in this action, a submission of the dispatcher or the watchdog fails, or a worker drops
a task because the row is locked, and the row is QUEUED, another send task of the notification
waits in the broker, or another process is about to submit one. -/
def Covered (w : World) : Action → Prop
  | .advance rid input => input.brokerUp = false → ∀ p, w.processes rid = some p →
      ∀ n ∈ w.db.notifications.rows, n.status = .queued → p.submitsForGood n.id = true →
        w.HasTask n.id ∨ ∃ j q, j ≠ rid ∧ w.processes j = some q ∧ q.submits n.id = true
  | .claim _ task rowLocked => rowLocked = true →
      ∀ n ∈ w.db.notifications.rows, n.status = .queued → n.id = task.notification →
        (∃ other ∈ w.broker.erase task, other.notification = n.id) ∨
        ∃ j q, w.processes j = some q ∧ q.submits n.id = true
  | _ => True

end World

/-- No submission fails in this action, and no claim meets a lock. -/
def Action.goesWell : Action → Bool
  | .advance _ input => input.brokerUp
  | .claim _ _ rowLocked => !rowLocked
  | _ => true

theorem World.covered_of_goesWell {w : World} {a : Action} (h : a.goesWell = true) :
    w.Covered a := by
  cases a with
  | advance rid input =>
    intro hdown
    rw [show input.brokerUp = true from h] at hdown
    simp at hdown
  | claim pid task rowLocked =>
    rintro rfl
    simp [Action.goesWell] at h
  | _ => trivial

/-! ### One step -/

/-- A QUEUED row after a step of a request or task was one before, and the process did not have
to submit its task, or the step accounts for it. -/
theorem Process.Moves.queued_row {now : Instant} {T : Table Notification} {input : TaskInput}
    {p : Process} {s : TaskStep Process} (h : Moves now T input p s)
    (hsending : p.isSending = true) {n : Notification} (hn : n ∈ s.notifications.rows)
    (hqueued : n.status = .queued) :
    (n ∈ T.rows ∧ p.submits n.id = false) ∨ (∃ task ∈ s.submitted, task.notification = n.id) ∨
    (∃ p', s.next = some p' ∧ p'.submits n.id = true) ∨
    n ∈ T.rows ∧ input.brokerUp = false ∧ p.submitsForGood n.id = true := by
  -- a row written by this step is the one the process submits next
  have hmodify : ∀ {id : ℕ} {f : Notification → Notification} (hf : ∀ r, pk (f r) = pk r)
      {p' : Process}, n ∈ (T.modify id f hf).rows → p.submits n.id = false →
      s.next = some p' → p'.submits id = true →
      (n ∈ T.rows ∧ p.submits n.id = false) ∨ (∃ task ∈ s.submitted, task.notification = n.id) ∨
      (∃ p', s.next = some p' ∧ p'.submits n.id = true) ∨
      n ∈ T.rows ∧ input.brokerUp = false ∧ p.submitsForGood n.id = true := by
    intro id f hf p' hmem hp hnext hsubmits
    obtain ⟨m, hm, rfl⟩ := Table.mem_modify.mp hmem
    by_cases hid : m.id = id
    · subst hid
      refine Or.inr (Or.inr (Or.inl ⟨p', hnext, ?_⟩))
      have hpk : (f m).id = m.id := hf m
      simpa [hpk] using hsubmits
    · rw [pk_notification, if_neg hid] at hp ⊢
      exact Or.inl ⟨hm, hp⟩
  cases h with
  | queued r id status m hr hm hstatus =>
    exact hmodify pk_queueNotification hn (by simp [submits, hr]) rfl (by simp [submits])
  | dispatched id ids m hm hdue =>
    exact hmodify pk_queueNotification hn (by simp [submits]) rfl (by simp [submits])
  | requeued cutoff id ids m hm hstuck =>
    exact hmodify pk_requeueNotification hn (by simp [submits]) rfl (by simp [submits])
  | queueSubmitted r id status hr hbroker =>
    by_cases hid : id = n.id
    · exact Or.inr (Or.inl ⟨_, List.mem_singleton_self _, hid⟩)
    · exact Or.inl ⟨hn, by simp [submits, hr, hid]⟩
  | dispatchSubmitted id ids hbroker | watchdogSubmitted cutoff id ids hbroker =>
    by_cases hid : id = n.id
    · exact Or.inr (Or.inl ⟨_, List.mem_singleton_self _, hid⟩)
    · exact Or.inl ⟨hn, by simp [submits, hid]⟩
  | queueNotSubmitted r id status hr hbroker =>
    by_cases hid : id = n.id
    · exact Or.inr (Or.inr (Or.inl ⟨_, rfl, by simp [submits, hid]⟩))
    · exact Or.inl ⟨hn, by simp [submits, hr, hid]⟩
  | queueRolledBack r id status hr =>
    change n ∈ (T.update _ (restoreStatus status.val) (pk_restoreStatus status.val)).rows at hn
    obtain ⟨m, hm, rfl⟩ := Table.mem_update.mp hn
    split at hqueued
    · -- the roll-back restores a status other than QUEUED
      have := status.2
      rw [show status.val = .queued from hqueued] at this
      simp [allowedNotificationStatusesToQueue] at this
    · next hcond =>
      rw [if_neg hcond]
      refine Or.inl ⟨hm, ?_⟩
      have hid : m.id ≠ id := by
        rintro rfl
        simp [hqueued] at hcond
      simp [submits, hr, Ne.symm hid]
  | dispatchFailed id ids hbroker | watchdogFailed cutoff id ids hbroker =>
    by_cases hid : id = n.id
    · exact Or.inr (Or.inr (Or.inr ⟨hn, hbroker, by simp [submitsForGood, hid]⟩))
    · exact Or.inl ⟨hn, by simp [submits, hid]⟩
  | patchRefused | patchValid | patched | patchGone => simp [isSending] at hsending
  | queueInterrupted r id status result hr | queueConflict r id status hr
  | queueConflictAnswered r id result hr | queueDone r hr
  | queueRefused r id ids result hr htodo | queueChosen r id ids l status hr htodo =>
    exact Or.inl ⟨hn, by simp [submits, hr]⟩
  | _ => exact Or.inl ⟨hn, by simp [submits]⟩

/-- A pass leaves no row QUEUED that was not. -/
theorem Pass.Moves.queued_row {cfg : Settings} {now : Instant} {db : Db} {n : Notification}
    {stage : Stage} {s : PassStep} (h : Moves cfg now db n stage s) {m : Notification}
    (hm : m ∈ s.db.notifications.rows) (hqueued : m.status = .queued) :
    m ∈ db.notifications.rows := by
  rcases h.notifications with hs | ⟨-, f, hf, hs, hstatus⟩ <;> rw [hs] at hm
  · exact hm
  · obtain ⟨r, hr, rfl⟩ := Table.mem_modify.mp hm
    split at hqueued
    · have := (hstatus r).2
      rw [hqueued] at this
      simp at this
    · next hid => rwa [if_neg hid]

/-- A notification is not created QUEUED. -/
theorem createNotification_queued (now : Instant) (db : Db) (user applicationId : ℕ)
    (deviceIds : List ℕ) (data : NotificationData) {n : Notification}
    (hn : n ∈ (createNotification now db user applicationId deviceIds data).1.notifications.rows)
    (hqueued : n.status = .queued) : n ∈ db.notifications.rows := by
  rcases createNotification_cases now db user applicationId deviceIds data with
    h | ⟨ids, -, h⟩ <;> rw [h] at hn
  · exact hn
  · rcases mem_notifications_insertTargeted.mp hn with hold | rfl
    · exact hold
    · simp only [newNotification, buildStatusFromScheduledFor] at hqueued
      split at hqueued <;> cases hqueued

/-- The requests that queue notifications write no row QUEUED when they begin, and submit
nothing yet. -/
theorem World.Queues.begin_queued {cfg : Settings} {w : World} {rid : ℕ} {r : Request}
    (hs : w.Queues (.request rid r)) {n : Notification}
    (hn : n ∈ (r.begin cfg w.clock w.db).db.notifications.rows) (hqueued : n.status = .queued) :
    n ∈ w.db.notifications.rows := by
  cases r with
  | sendNow user applicationId deviceIds data =>
    simp only [Request.begin] at hn
    split at hn
    · exact hn
    · split at hn
      · exact hn
      · exact createNotification_queued _ _ _ _ _ _ hn hqueued
  | _ =>
    rcases hs with hr | hr
    · rwa [(Request.begin_sending cfg w.clock w.db hr).1] at hn
    · obtain ⟨Q, hdb, -⟩ := Request.begin_deviceQuietPeriod cfg w.clock w.db hr
      rwa [hdb] at hn

/-- One action keeps every QUEUED notification carried. -/
theorem World.Carried.step {cfg : Settings} {w w' : World} {a : Action} (hw : w.Carried)
    (h : Steps cfg w a w') (hs : w.Queues a) (hcovered : w.Covered a) : w'.Carried := by
  cases h with
  | tick duration => exact hw
  | notClaimed pid task rowLocked htask hpid hnone =>
    intro n hn hqueued
    rcases hw n hn hqueued with ⟨other, hmem, hid⟩ | hprocess
    · by_cases heq : n.id = task.notification
      · -- the worker dropped a task of this row: the row was locked
        have hrow : w.db.notifications.get? task.notification = some n :=
          heq ▸ Table.get?_pk hn
        cases rowLocked with
        | true => exact hcovered rfl n hn hqueued heq
        | false =>
          simp [claimable, hrow, Option.filter, hqueued, allowedNotificationStatusesToStart]
            at hnone
      · refine Or.inl ⟨other, (List.mem_erase_of_ne ?_).mpr hmem, hid⟩
        rintro rfl
        exact heq hid.symm
    · exact Or.inr hprocess
  | claimed pid task m htask hpid hm hstatus =>
    intro n hn hqueued
    change n ∈ (w.db.notifications.modify m.id (acquire w.clock) (pk_acquire w.clock)).rows at hn
    obtain ⟨r, hr, rfl⟩ := Table.mem_modify.mp hn
    split at hqueued
    · simp [acquire] at hqueued
    · next hne =>
      rw [if_neg hne]
      rcases hw r hr hqueued with ⟨other, hmem, hid⟩ | hprocess
      · refine Or.inl ⟨other, (List.mem_erase_of_ne ?_).mpr hmem, hid⟩
        rintro rfl
        have : m.id = other.notification := (Table.get?_eq_some.mp hm).2
        exact hne (hid.symm.trans this.symm)
      · exact Or.inr hprocess
  | pass pid input p s hp hmoves =>
    intro n hn hqueued
    exact hw n (hmoves.queued_row hn hqueued) hqueued
  | crash pid p hp => exact hw
  | request rid r hrid =>
    intro n hn hqueued
    rcases hw n (hs.begin_queued hn hqueued) hqueued with
      ⟨task, hmem, hid⟩ | ⟨j, p, hp, hsubmits⟩
    · exact Or.inl ⟨task, List.mem_append_left _ hmem, hid⟩
    · have hne : j ≠ rid := by
        rintro rfl
        simp [hrid] at hp
      exact Or.inr ⟨j, p, (Pool.set_of_ne _ _ hne).trans hp, hsubmits⟩
  | advance rid input p hp =>
    have hsending : p.isSending = true := hs p hp
    obtain ⟨s, hmoves, hadv⟩ := Process.advance_moves w.clock input w.db
      (Process.writesNotifications_of_isSending hsending)
    rw [hadv]
    intro n hn hqueued
    rcases hmoves.queued_row hsending hn hqueued with
      ⟨hold, hnot⟩ | ⟨task, hmem, hid⟩ | ⟨p', hnext, hsubmits⟩ | ⟨hold, hdown, hgood⟩
    · rcases hw n hold hqueued with ⟨task, hmem, hid⟩ | ⟨j, q, hq, hsubmits⟩
      · exact Or.inl ⟨task, List.mem_append_left _ hmem, hid⟩
      · have hne : j ≠ rid := by
          rintro rfl
          rw [Option.some.inj (hp.symm.trans hq), hsubmits] at hnot
          simp at hnot
        exact Or.inr ⟨j, q, (Pool.set_of_ne _ _ hne).trans hq, hsubmits⟩
    · exact Or.inl ⟨task, List.mem_append_right _ hmem, hid⟩
    · exact Or.inr ⟨rid, p', (Pool.set_self _ _ _).trans hnext, hsubmits⟩
    · rcases hcovered hdown p hp n hold hqueued hgood with
        ⟨task, hmem, hid⟩ | ⟨j, q, hne, hq, hsubmits⟩
      · exact Or.inl ⟨task, List.mem_append_left _ hmem, hid⟩
      · exact Or.inr ⟨j, q, (Pool.set_of_ne _ _ hne).trans hq, hsubmits⟩

/-! ### Runs -/

/-- No notification is stranded in QUEUED in a run in which no failure of the dispatcher, the
watchdog or a claim takes the last send task of a QUEUED notification. -/
theorem queued_not_stranded {cfg : Settings} {w₀ w : World} (hw₀ : w₀.Carried)
    (h : (server cfg).Reach (fun w a => w.Queues a ∧ w.Covered a) w₀ w) : w.NoneStranded := by
  have hpres : (server cfg).Preserves (fun w a => w.Queues a ∧ w.Covered a) World.Carried :=
    fun _ _ _ hw hok hs => hw.step (World.step_cases hs) hok.1 hok.2
  exact (System.Reach.invariant hpres h hw₀).noneStranded

/-- The dispatcher of the sample server queues its notification and submits the task. -/
theorem sample_queued_not_stranded : ∃ w,
    (server .default).Reach (fun w a => w.Queues a ∧ w.Covered a) Sample.scheduledWorld w ∧
    (∃ n ∈ w.db.notifications.rows, n.status = .queued) ∧ w.NoneStranded := by
  obtain ⟨w, hreach, hqueued⟩ := System.exists_reach_of_guardedRun (server .default)
    (fun w a => w.Queues a ∧ a.goesWell = true)
    Sample.scheduledWorld [.request 1 .dispatchScheduled, .advance 1 {}, .advance 1 {}]
    (fun w => w.db.notifications.rows.any fun n => n.status == .queued) (by decide)
  have hreach' := hreach.mono (fun w a => w.Queues a ∧ w.Covered a) fun w a h =>
    ⟨h.1, World.covered_of_goesWell h.2⟩
  refine ⟨w, hreach', by simpa using hqueued, queued_not_stranded ?_ hreach'⟩
  intro n hn hqueued
  obtain rfl : n = Sample.scheduled := List.mem_singleton.mp hn
  simp [Sample.scheduled] at hqueued

/-- The broker refuses the task of the notification the dispatcher has just moved to QUEUED:
nothing selects the row any more. -/
theorem queued_stranded : ¬∀ (cfg : Settings) (w₀ w : World), w₀.Initial → w₀.Carried →
    (server cfg).Reach World.Queues w₀ w → w.NoneStranded := by
  intro hclaim
  have hcarried : Sample.scheduledWorld.Carried := by
    intro n hn hqueued
    obtain rfl : n = Sample.scheduled := List.mem_singleton.mp hn
    simp [Sample.scheduled] at hqueued
  obtain ⟨w, hrun⟩ : ∃ w, (server .default).guardedRun World.Queues Sample.scheduledWorld
      [.request 1 .dispatchScheduled, .advance 1 {}, .advance 1 { brokerUp := false }] = some w :=
    ⟨_, rfl⟩
  have hrow : queueNotification Sample.scheduled ∈ w.db.notifications.rows := by
    rw [← Option.some.inj hrun]
    exact List.mem_singleton_self _
  have hbroker : w.broker = [] := by rw [← Option.some.inj hrun]; rfl
  have hprocesses : ∀ rid, w.processes rid = none := by
    intro rid
    rw [← Option.some.inj hrun]
    change (((Pool.idle.set 1 _).set 1 _).set 1 none) rid = none
    by_cases hrid : rid = 1
    · rw [hrid, Pool.set_self]
    · simp only [Pool.set_of_ne _ _ hrid, Pool.idle_apply]
  have hdeliveries : w.db.deliveries.rows = [Sample.delivery] := by
    rw [← Option.some.inj hrun]; rfl
  rcases hclaim .default _ w Sample.scheduledWorld_initial hcarried
      (System.reach_of_guardedRun hrun) _ hrow rfl with
    ⟨task, hmem, -⟩ | ⟨rid, p, hp, -⟩ | ⟨t, -, hdue | hstuck | ⟨d, hd, -, hdue⟩⟩ | hstatus
  · simp [hbroker] at hmem
  · simp [hprocesses] at hp
  · simp [scheduledDue, queueNotification] at hdue
  · simp [stuckProcessing, queueNotification] at hstuck
  · rw [hdeliveries, List.mem_singleton] at hd
    simp [hd, retryDue, Sample.delivery] at hdue
  · simp [queueNotification, allowedNotificationStatusesToQueue] at hstatus

end PushIT
