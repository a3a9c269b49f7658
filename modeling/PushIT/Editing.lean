import PushIT.RequestSteps
import PushIT.Sending

/-!
# Editing a scheduled notification

A PATCH or DELETE of a future notification reads its row and writes it later, by primary key and
without a condition; a client send checks the date of the instance it loaded, and its UPDATE tests
the status only.  Editing is serialised against sending in every run in which no queueing of a row
falls between the read and the write of such a request, and no PATCH between the load and the
UPDATE of a client send.

## Main definitions

* `lastEdit`, `HonoursEdits`: the last written date of a notification, and that it is waited for.
* `World.EditsSerialised`: the three properties, over the history of a run.
* `World.EditsAlone`: no read of one side overlaps a write of the other.

## Main results

* `edits_serialised`: the properties hold along every such run.
* `edit_overwrites_queued`: a PATCH that was read before the dispatch takes the row back.
-/

namespace PushIT

open Relational Transition

/-! ### The history of the edits -/

/-- The date the last PATCH wrote. -/
def lastEdit (n : ℕ) : List Event → Option Instant
  | [] => none
  | .edited m _ d :: h => if m = n then some d else lastEdit n h
  | _ :: h => lastEdit n h

/-- No notification was queued before the date of its last PATCH. -/
def HonoursEdits : List Event → Prop
  | [] => True
  | .queued n _ t :: h => (∀ d, lastEdit n h = some d → d ≤ t) ∧ HonoursEdits h
  | _ :: h => HonoursEdits h

/-- The event is neither a queueing nor an edit. -/
def Event.keepsEdits : Event → Bool
  | .queued _ _ _ | .edited _ _ _ | .removed _ _ => false
  | _ => true

section History

variable {es h : List Event} {n : ℕ}

theorem lastEdit_append (hes : ∀ e ∈ es, e.keepsEdits = true) :
    lastEdit n (es ++ h) = lastEdit n h := by
  induction es with
  | nil => rfl
  | cons e es ih =>
    have htail := ih fun e' he' => hes e' (List.mem_cons_of_mem _ he')
    have he := hes e List.mem_cons_self
    cases e with
    | edited m found d => simp [Event.keepsEdits] at he
    | _ => exact htail

theorem honoursEdits_append (hes : ∀ e ∈ es, e.keepsEdits = true) (hh : HonoursEdits h) :
    HonoursEdits (es ++ h) := by
  induction es with
  | nil => exact hh
  | cons e es ih =>
    have htail := ih fun e' he' => hes e' (List.mem_cons_of_mem _ he')
    have he := hes e List.mem_cons_self
    cases e with
    | queued m source t => simp [Event.keepsEdits] at he
    | _ => exact htail

end History

/-- The statuses of a notification that was moved on towards its recipients. -/
def movedOn : List NotificationStatus := [.queued, .processing, .sent, .partially, .failed]

/-- A PATCH never takes back, and a DELETE never removes, a row that was moved on, and no row is
queued before the date of its last PATCH. -/
structure World.EditsSerialised (w : World) : Prop where
  patched : ∀ n found d, .edited n found d ∈ w.history → found ∉ movedOn
  deleted : ∀ n found, .removed n found ∈ w.history → found ∉ .noTarget :: movedOn
  honoured : HonoursEdits w.history

/-! ### Who holds what -/

/-- The row a PATCH or DELETE has read and may still write. -/
def Process.edits (now : Instant) : Process → Option ℕ
  | .patch (.loaded n data) => if data.valid now then some n.id else none
  | .patch (.saving n _) => some n.id
  | .destroy id => some id
  | _ => none

/-- The row the next statement of a client send or of the dispatcher moves to QUEUED. -/
def Process.queues (now : Instant) (T : Table Notification) (input : TaskInput) :
    Process → Option ℕ
  | .dispatch (.scanning (id :: _)) =>
    if !input.rowLocked && (T.get? id).any (scheduledDue now) then some id else none
  | .queue r =>
    match r.stage with
    | .updating id status =>
      if !input.updateFails && (T.get? id).any (fun n => n.status == status.val) then some id
      else none
    | _ => none
  | _ => none

/-- A client send may queue the row before the date, with an instance it loaded as SCHEDULED. -/
def QueueRequest.mayQueue (r : QueueRequest) (id : ℕ) (d : Instant) : Bool :=
  (match r.stage with
    | .updating j status => j == id && status.val == .scheduled
    | _ => false) ||
  (r.todo.contains id && (r.lookup id).any fun l => l.notification.status == .scheduled &&
    !l.notification.scheduledFor.any fun s => decide (d ≤ s))

def Process.isScheduling : Process → Bool
  | .queue _ | .dispatch _ | .retry _ | .patch _ | .destroy _ => true
  | .watchdog _ | .link _ _ | .unlink _ _ => false

def Request.isScheduling : Request → Bool
  | .send _ _ | .dispatchScheduled | .retryPending | .patch _ _ _ | .destroy _ _ => true
  | _ => false

namespace World

/-- The actions on scheduled notifications: edits, client sends, the dispatcher, the retry sweep
and the workers. -/
def Schedules (w : World) : Action → Prop
  | .request _ r => r.isScheduling = true
  | .advance rid _ => ∀ p ∈ w.processes rid, p.isScheduling = true
  | _ => True

instance (w : World) (a : Action) : Decidable (w.Schedules a) := by
  rcases a with _ | _ <;> unfold Schedules <;> infer_instance

/-- In this action no row is queued that a PATCH or DELETE has read and may still write, and no
PATCH gives a new date to a row that a client send has loaded and may still queue before it. -/
def EditsAlone (w : World) : Action → Prop
  | .advance rid input => ∀ p, w.processes rid = some p →
      (∀ id, p.queues w.clock w.db.notifications input = some id →
        ∀ j q, w.processes j = some q → q.edits w.clock ≠ some id) ∧
      ∀ n d, p = .patch (.saving n d) → w.clock < d →
        ∀ j r, w.processes j = some (.queue r) → r.mayQueue n.id d = false
  | _ => True

/-- The rows held by the requests are as they were read. -/
structure Edited (w : World) : Prop extends w.Claimed where
  holders : ∀ rid p id, w.processes rid = some p → p.edits w.clock = some id →
    ∀ row, w.db.notifications.get? id = some row → row.status = .scheduled
  saving : ∀ rid n d, w.processes rid = some (.patch (.saving n d)) →
    n.status = .scheduled ∧ n.scheduledFor = some d
  dated : ∀ n d, lastEdit n w.history = some d → w.clock < d →
    ∀ row, w.db.notifications.get? n = some row →
      row.status = .scheduled ∧ row.scheduledFor = some d
  requests : ∀ rid r, w.processes rid = some (.queue r) →
    ∀ n d, lastEdit n w.history = some d → w.clock < d → r.mayQueue n d = false
  serialised : w.EditsSerialised

end World

/-! ### One step of a process -/

/-- The validity of a body only fades with time. -/
theorem PatchData.valid_mono {now later : Instant} (hle : now ≤ later) {data : PatchData}
    (h : data.valid later = true) : data.valid now = true := by
  simp only [PatchData.valid, Bool.and_eq_true] at h ⊢
  refine ⟨h.1, ?_⟩
  obtain ⟨-, hdate⟩ := h
  cases hd : data.scheduledFor with
  | none => rfl
  | some date =>
    cases date with
    | none => rfl
    | some t =>
      simp only [hd, Option.all_some, validScheduledFor, decide_eq_true_eq] at hdate ⊢
      exact Int.lt_of_le_of_lt hle hdate

theorem Process.edits_mono {now later : Instant} (hle : now ≤ later) {p : Process} {id : ℕ}
    (h : p.edits later = some id) : p.edits now = some id := by
  cases p with
  | patch r =>
    cases r with
    | loaded n data =>
      simp only [edits, Option.ite_none_right_eq_some] at h ⊢
      exact ⟨PatchData.valid_mono hle h.1, h.2⟩
    | saving n d => exact h
  | _ => exact h

namespace Process

variable {now : Instant} {T : Table Notification} {input : TaskInput} {p : Process}
  {s : TaskStep Process}

/-- A step of a request or of the dispatcher queues a row, or a PATCH writes one, or every row is
as before or a QUEUED one that is rolled back. -/
theorem Moves.scheduling_cases (h : Moves now T input p s) (hscheduling : p.isScheduling = true) :
    (s.events = [] ∧ ∀ id row', s.notifications.get? id = some row' →
      T.get? id = some row' ∨ ∃ row, T.get? id = some row ∧ row.status ≠ .scheduled) ∨
    (∃ id source, s.events = [.queued id source now] ∧ p.queues now T input = some id ∧
      ∀ j, j ≠ id → s.notifications.get? j = T.get? j) ∨
    ∃ n d row, p = .patch (.saving n d) ∧ T.get? n.id = some row ∧
      s.events = [.edited n.id row.status d] ∧
      s.notifications = T.modify n.id (saveFuture n) (pk_saveFuture n) := by
  cases h with
  | queued r id status n hr hn hstatus hinput =>
    refine Or.inr (Or.inl ⟨id, .client, rfl, by simp [queues, hr, hinput, hn, hstatus], ?_⟩)
    exact fun j hj => Table.get?_modify_of_ne _ _ pk_queueNotification hj
  | dispatched id ids n hn hdue hinput =>
    refine Or.inr (Or.inl ⟨id, .dispatcher, rfl, by simp [queues, hinput, hn, hdue], ?_⟩)
    exact fun j hj => Table.get?_modify_of_ne _ _ pk_queueNotification hj
  | queueRolledBack r id status hr =>
    refine Or.inl ⟨rfl, fun j row' hrow' => ?_⟩
    change (T.update _ (restoreStatus status.val) (pk_restoreStatus status.val)).get? j = _ at hrow'
    rw [Table.get?_update, Option.map_eq_some_iff] at hrow'
    obtain ⟨row, hrow, rfl⟩ := hrow'
    split
    · next hcond =>
      simp only [Bool.and_eq_true, beq_iff_eq] at hcond
      exact Or.inr ⟨row, hrow, by simp [hcond.2]⟩
    · exact Or.inl hrow
  | patched n d row hrow => exact Or.inr (Or.inr ⟨n, d, row, rfl, hrow, rfl, rfl⟩)
  | requeued => simp [isScheduling] at hscheduling
  | _ => exact Or.inl ⟨rfl, fun _ _ hrow' => Or.inl hrow'⟩

/-- A row that is held after a step was held by the same process before. -/
theorem Moves.edits (h : Moves now T input p s) {p' : Process} (hnext : s.next = some p') {id : ℕ}
    (hid : p'.edits now = some id) : p.edits now = some id := by
  cases h with
  | patchValid n data d hvalid hd =>
    obtain rfl := Option.some.inj hnext
    have hn : n.id = id := Option.some.inj hid
    simpa [Process.edits, hvalid] using hn
  | _ =>
    simp only [Option.some.injEq, reduceCtorEq] at hnext
    try (subst hnext; simp [Process.edits] at hid)

/-- What a PATCH saves has the date it was answered with, and the status SCHEDULED. -/
theorem Moves.saving (h : Moves now T input p s) {n : Notification} {d : Instant}
    (hnext : s.next = some (.patch (.saving n d))) :
    n.status = .scheduled ∧ n.scheduledFor = some d := by
  cases h with
  | patchValid n data d hvalid hd =>
    simp only [Option.some.injEq, Process.patch.injEq, PatchRequest.saving.injEq] at hnext
    obtain ⟨rfl, rfl⟩ := hnext
    exact ⟨rfl, hd⟩
  | _ => simp at hnext

end Process

/-! ### One step of a client send -/

/-- The check lets an instance pass with its own status, and a SCHEDULED one only when its date
is not ahead. -/
theorem queueCheck_eq_ok {now : Instant} {l : LoadedNotification} {status : QueueableStatus}
    (h : queueCheck now l = .ok status) :
    l.notification.status = status.val ∧ (l.notification.status = .scheduled →
      ∀ s, l.notification.scheduledFor = some s → s ≤ now) := by
  unfold queueCheck at h
  dsimp only at h
  split at h
  · simp at h
  · split at h
    · simp at h
    · next hahead =>
      split at h
      · refine ⟨by rw [← Except.ok.inj h], fun hstatus s hs => Int.not_lt.mp fun hlt => ?_⟩
        exact hahead ⟨hstatus, by rw [hs]; exact decide_eq_true hlt⟩
      · simp at h

/-- An instance that is marked QUEUED in memory cannot queue the row again. -/
theorem QueueRequest.lookup_markFound {r : QueueRequest} {j id : ℕ} {l' : LoadedNotification}
    (h : (r.markFound j).lookup id = some l') :
    ∃ l, r.lookup id = some l ∧ (l' = l ∨ l'.notification.status = .queued) := by
  simp only [lookup, markFound, List.find?_map, Option.map_eq_some_iff] at h
  obtain ⟨l, hl, rfl⟩ := h
  have hfind : r.lookup id = some l := by
    rw [← hl, lookup]
    congr 1
    funext m
    simp only [Function.comp]
    split <;> rfl
  refine ⟨l, hfind, ?_⟩
  split
  · exact Or.inr rfl
  · exact Or.inl rfl

theorem QueueRequest.mayQueue_eq_false {r : QueueRequest} {id : ℕ} {d : Instant} :
    r.mayQueue id d = false ↔
      (∀ status, r.stage = .updating id status → status.val ≠ .scheduled) ∧
      (id ∈ r.todo → ∀ l, r.lookup id = some l → l.notification.status = .scheduled →
        ∃ s, l.notification.scheduledFor = some s ∧ d ≤ s) := by
  unfold mayQueue
  rw [Bool.or_eq_false_iff]
  refine and_congr ?_ ?_
  · cases r.stage with
    | updating j status =>
      constructor
      · rintro h _ ⟨⟩
        simpa using h
      · intro h
        by_cases hj : j = id
        · subst hj
          simpa using h status rfl
        · simp [hj]
    | _ => simp
  · cases hl : r.lookup id with
    | none => simp
    | some l =>
      cases hs : l.notification.scheduledFor with
      | none => simp [hs]
      | some s =>
        simp only [hs, List.contains_eq_mem, Option.any_some, Bool.and_eq_false_imp,
          decide_eq_true_eq, beq_iff_eq, Bool.not_eq_false', Option.some.injEq]
        constructor
        · rintro h hmem _ rfl hstatus
          exact ⟨s, hs, h hmem hstatus⟩
        · intro h hmem hstatus
          obtain ⟨t, ht, hle⟩ := h hmem l rfl hstatus
          rw [hs] at ht
          exact Option.some.inj ht ▸ hle

/-- A client send that may not queue a row before a date, while the date is ahead, still may not
after its next statement. -/
theorem Process.Moves.mayQueue {now : Instant} {T : Table Notification} {input : TaskInput}
    {p : Process} {s : TaskStep Process} (h : Moves now T input p s) {r' : QueueRequest}
    (hnext : s.next = some (.queue r')) {id : ℕ} {d : Instant} (hd : now < d)
    (hold : ∀ r, p = .queue r → r.mayQueue id d = false) : r'.mayQueue id d = false := by
  rw [QueueRequest.mayQueue_eq_false]
  cases h with
  | queueRefused r j ids result hr htodo =>
    obtain ⟨-, hfound⟩ := QueueRequest.mayQueue_eq_false.mp (hold r rfl)
    simp only [Option.some.injEq, Process.queue.injEq] at hnext
    subst hnext
    refine ⟨by simp [QueueRequest.answered], fun hmem => hfound ?_⟩
    rw [htodo]
    exact List.mem_cons_of_mem _ hmem
  | queueChosen r j ids l status hr htodo hl hcheck =>
    obtain ⟨-, hfound⟩ := QueueRequest.mayQueue_eq_false.mp (hold r rfl)
    simp only [Option.some.injEq, Process.queue.injEq] at hnext
    subst hnext
    refine ⟨?_, fun hmem => hfound ?_⟩
    · rintro status' ⟨⟩ hscheduled
      obtain ⟨hstatus, hahead⟩ := queueCheck_eq_ok hcheck
      rw [hscheduled] at hstatus
      obtain ⟨s, hs, hle⟩ := hfound (by simp [htodo]) l hl hstatus
      exact Int.not_le.mpr (Int.lt_of_lt_of_le hd hle) (hahead hstatus s hs)
    · rw [htodo]
      exact List.mem_cons_of_mem _ hmem
  | queued r j status n hr hn hstatus hinput =>
    obtain ⟨-, hfound⟩ := QueueRequest.mayQueue_eq_false.mp (hold r rfl)
    simp only [Option.some.injEq, Process.queue.injEq] at hnext
    subst hnext
    refine ⟨by simp, fun hmem l' hl' hstatus' => ?_⟩
    obtain ⟨l, hl, rfl | hqueued⟩ := QueueRequest.lookup_markFound hl'
    · exact hfound hmem _ hl hstatus'
    · rw [hqueued] at hstatus'
      simp at hstatus'
  | queueInterrupted r | queueConflict r | queueConflictAnswered r | queueSubmitted r
  | queueNotSubmitted r | queueRolledBack r =>
    obtain ⟨-, hfound⟩ := QueueRequest.mayQueue_eq_false.mp (hold r rfl)
    simp only [Option.some.injEq, Process.queue.injEq] at hnext
    subst hnext
    exact ⟨by simp [QueueRequest.answered], hfound⟩
  | _ => simp at hnext

/-! ### Requests on scheduled notifications -/

/-- They begin without writing. -/
theorem Request.begin_scheduling (cfg : Settings) (now : Instant) (db : Db) {r : Request}
    (hr : r.isScheduling = true) :
    (r.begin cfg now db).db = db ∧ (r.begin cfg now db).events = [] := by
  cases r <;> simp [isScheduling] at hr <;> exact ⟨rfl, rfl⟩

theorem futureNotification_eq_some {db : Db} {now : Instant} {user id : ℕ} {n : Notification}
    (h : futureNotification db now user id = some n) :
    db.notifications.get? n.id = some n ∧ n.status = .scheduled := by
  simp only [futureNotification, Option.filter_eq_some_iff, Bool.and_eq_true, beq_iff_eq] at h
  exact ⟨Table.get?_pk (Table.get?_eq_some.mp h.1).1, h.2.1.2⟩

theorem fetchNotifications_mem {db : Db} {caller : Caller} {ids : List ℕ}
    {l : LoadedNotification} (h : l ∈ fetchNotifications db caller ids) :
    l.notification ∈ db.notifications.rows := by
  simp only [fetchNotifications, List.mem_map] at h
  obtain ⟨n, hn, rfl⟩ := h
  exact (Table.mem_select.mp hn).1

namespace Request

variable {cfg : Settings} {now : Instant} {db : Db} {r : Request} {p : Process}

/-- A PATCH or DELETE holds a SCHEDULED row when it begins. -/
theorem begin_edits (hnext : (r.begin cfg now db).next = some p) (hr : r.isScheduling = true)
    {id : ℕ} (hid : p.edits now = some id) {row : Notification}
    (hrow : db.notifications.get? id = some row) : row.status = .scheduled := by
  cases r with
  | patch user m data =>
    obtain ⟨n, hn, rfl⟩ := Option.map_eq_some_iff.mp hnext
    obtain ⟨hget, hstatus⟩ := futureNotification_eq_some hn
    simp only [Process.edits, Option.ite_none_right_eq_some, Option.some.injEq] at hid
    rw [← hid.2, hget] at hrow
    exact Option.some.inj hrow ▸ hstatus
  | destroy user m =>
    obtain ⟨n, hn, rfl⟩ := Option.map_eq_some_iff.mp hnext
    obtain ⟨hget, hstatus⟩ := futureNotification_eq_some hn
    obtain rfl := Option.some.inj hid
    rw [hget] at hrow
    exact Option.some.inj hrow ▸ hstatus
  | send caller ids =>
    obtain rfl := Option.some.inj hnext
    simp [Process.edits] at hid
  | dispatchScheduled | retryPending =>
    obtain rfl := Option.some.inj hnext
    simp [Process.edits] at hid
  | _ => simp [isScheduling] at hr

theorem begin_saving (hr : r.isScheduling = true) {n : Notification} {d : Instant} :
    (r.begin cfg now db).next ≠ some (.patch (.saving n d)) := by
  intro hnext
  cases r with
  | patch user m data =>
    obtain ⟨n, -, hp⟩ := Option.map_eq_some_iff.mp hnext
    simp at hp
  | destroy user m =>
    obtain ⟨n, -, hp⟩ := Option.map_eq_some_iff.mp hnext
    simp at hp
  | send caller ids => simp [begin, Outcome.goesOn] at hnext
  | dispatchScheduled | retryPending => simp [begin, Outcome.goesOn] at hnext
  | _ => simp [isScheduling] at hr

/-- A client send that begins has loaded the row with its date, and does not queue it before. -/
theorem begin_mayQueue {q : QueueRequest} (hnext : (r.begin cfg now db).next = some (.queue q))
    (hr : r.isScheduling = true) {id : ℕ} {d : Instant}
    (hrow : ∀ row, db.notifications.get? id = some row → row.scheduledFor = some d) :
    q.mayQueue id d = false := by
  cases r with
  | send caller ids =>
    simp only [begin, Outcome.goesOn, Option.some.injEq, Process.queue.injEq] at hnext
    subst hnext
    refine QueueRequest.mayQueue_eq_false.mpr ⟨by simp, fun _ l hl _ => ?_⟩
    have hmem := fetchNotifications_mem (List.mem_of_find?_eq_some hl)
    have hid : l.notification.id = id := by simpa using List.find?_some hl
    refine ⟨d, hrow _ ?_, le_rfl⟩
    rw [← hid]
    exact Table.get?_pk hmem
  | patch user m data | destroy user m =>
    obtain ⟨n, -, hp⟩ := Option.map_eq_some_iff.mp hnext
    simp at hp
  | dispatchScheduled | retryPending => simp [begin, Outcome.goesOn] at hnext
  | _ => simp [isScheduling] at hr

end Request

/-! ### One step of the server -/

theorem World.EditsSerialised.of_append {w w' : World} (hw : w.EditsSerialised)
    (es : List Event) (hhist : w'.history = es ++ w.history) (hes : ∀ e ∈ es, e.keepsEdits = true) :
    w'.EditsSerialised := by
  refine ⟨?_, ?_, hhist ▸ honoursEdits_append hes hw.honoured⟩
  · intro n found d h
    rw [hhist, List.mem_append] at h
    rcases h with h | h
    · exact absurd (hes _ h) (by simp [Event.keepsEdits])
    · exact hw.patched n found d h
  · intro n found h
    rw [hhist, List.mem_append] at h
    rcases h with h | h
    · exact absurd (hes _ h) (by simp [Event.keepsEdits])
    · exact hw.deleted n found h

namespace World.Edited

variable {cfg : Settings} {w w' : World}

/-- Time, and whatever neither queues, edits nor touches a SCHEDULED row, keeps the invariant. -/
theorem of_agree (hw : w.Edited) (es : List Event) (hclaimed : w'.Claimed)
    (hclock : w.clock ≤ w'.clock) (hprocesses : w'.processes = w.processes)
    (hhist : w'.history = es ++ w.history) (hes : ∀ e ∈ es, e.keepsEdits = true)
    (hrows : ∀ id row', w'.db.notifications.get? id = some row' →
      w.db.notifications.get? id = some row' ∨
      ∃ row, w.db.notifications.get? id = some row ∧ row.status ≠ .scheduled) :
    w'.Edited where
  toClaimed := hclaimed
  holders := by
    intro rid p id hp hid row' hrow'
    rw [hprocesses] at hp
    have hheld := hw.holders rid p id hp (Process.edits_mono hclock hid)
    rcases hrows id row' hrow' with hrow | ⟨row, hrow, hne⟩
    · exact hheld row' hrow
    · exact absurd (hheld row hrow) hne
  saving := by
    rw [hprocesses]
    exact hw.saving
  dated := by
    intro n d hlast hd row' hrow'
    rw [hhist, lastEdit_append hes] at hlast
    have hdated := hw.dated n d hlast (Int.lt_of_le_of_lt hclock hd)
    rcases hrows n row' hrow' with hrow | ⟨row, hrow, hne⟩
    · exact hdated row' hrow
    · exact absurd (hdated row hrow).1 hne
  requests := by
    intro rid r hr n d hlast hd
    rw [hprocesses] at hr
    rw [hhist, lastEdit_append hes] at hlast
    exact hw.requests rid r hr n d hlast (Int.lt_of_le_of_lt hclock hd)
  serialised := hw.serialised.of_append es hhist hes

/-- No step queues a row before the date of its last PATCH. -/
theorem le_of_queues (hw : w.Edited) {rid id : ℕ} {p : Process} {input : TaskInput}
    (hp : w.processes rid = some p)
    (hqueues : p.queues w.clock w.db.notifications input = some id) {d : Instant}
    (hlast : lastEdit id w.history = some d) : d ≤ w.clock := by
  refine Int.not_lt.mp fun hd => ?_
  have hdated := hw.dated id d hlast hd
  cases p with
  | dispatch run =>
    -- the dispatcher re-checks the date of the row
    cases run with
    | scanning ids =>
      cases ids with
      | nil => simp [Process.queues] at hqueues
      | cons j ids =>
        simp only [Process.queues, Option.ite_none_right_eq_some, Bool.and_eq_true,
          Option.some.injEq] at hqueues
        obtain ⟨⟨-, hdue⟩, rfl⟩ := hqueues
        obtain ⟨row, hrow, hdue⟩ := (Option.any_eq_true _ _).mp hdue
        simp only [scheduledDue, (hdated row hrow).2, Option.any_some, Bool.and_eq_true,
          decide_eq_true_eq] at hdue
        exact Int.not_le.mpr hd hdue.2
    | submitting j ids => simp [Process.queues] at hqueues
  | queue r =>
    -- the UPDATE of a client send starts from SCHEDULED, and so did the loaded instance
    cases hstage : r.stage with
    | updating j status =>
      simp only [Process.queues, hstage, Option.ite_none_right_eq_some, Bool.and_eq_true,
        Option.some.injEq] at hqueues
      obtain ⟨⟨-, hstatus⟩, rfl⟩ := hqueues
      obtain ⟨row, hrow, hstatus⟩ := (Option.any_eq_true _ _).mp hstatus
      have hnot := QueueRequest.mayQueue_eq_false.mp (hw.requests rid r hp j d hlast hd)
      refine hnot.1 status hstage ?_
      rw [← (hdated row hrow).1]
      exact (beq_iff_eq.mp hstatus).symm
    | _ => simp [Process.queues, hstage] at hqueues
  | _ => simp [Process.queues] at hqueues

/-- No request or task of the alphabet writes a claimed row. -/
theorem claimsSpared (hw : w.Edited) {a : Action} (hs : w.Schedules a) :
    w.ClaimsSpared cfg a := by
  cases a with
  | request rid r =>
    intro pid p hp
    rw [(Request.begin_scheduling cfg w.clock w.db hs).1]
    exact hw.row pid p hp
  | advance rid input =>
    intro q hq pid p hp
    have hscheduling := hs q hq
    -- a row that is held is SCHEDULED, and a claimed row is PROCESSING
    have hfree : ∀ id, q.edits w.clock = some id → id ≠ p.notification.id := by
      rintro id hid rfl
      have := hw.holders rid q _ hq hid _ (hw.row pid p hp)
      rw [hw.processing pid p hp] at this
      simp at this
    by_cases hwrites : q.writesNotifications = true
    · obtain ⟨s, hmoves, hadv⟩ := Process.advance_moves w.clock input w.db hwrites
      rw [hadv]
      refine hmoves.get?_processing (hw.row pid p hp) (hw.processing pid p hp) ?_ ?_
      · rintro cutoff ids rfl
        simp [Process.isScheduling] at hscheduling
      · rintro m d rfl
        exact hfree m.id rfl
    · cases q with
      | destroy id =>
        refine Table.get?_delete_of_not (hw.row pid p hp) ?_
        simpa using (hfree id rfl).symm
      | link deviceId applicationId => simp [Process.isScheduling] at hscheduling
      | unlink linkId source => simp [Process.isScheduling] at hscheduling
      | _ => simp [Process.writesNotifications] at hwrites
  | _ => trivial

/-- What a statement of a request or task keeps: the clock, the rows that are held, and what the
PATCHes under way are about to save. -/
private structure Continues (w w' : World) : Prop where
  claimed : w'.Claimed
  clock : w'.clock = w.clock
  holder : ∀ j q id, w'.processes j = some q → q.edits w.clock = some id →
    ∃ i o, w.processes i = some o ∧ o.edits w.clock = some id
  saving : ∀ j n d, w'.processes j = some (.patch (.saving n d)) →
    n.status = .scheduled ∧ n.scheduledFor = some d

/-- A statement that neither queues nor edits. -/
private theorem idles (hw : w.Edited) (hc : Continues w w') (hhistory : w'.history = w.history)
    (hrequests : ∀ j r n d, w'.processes j = some (.queue r) → lastEdit n w.history = some d →
      w.clock < d → r.mayQueue n d = false)
    (hrows : ∀ id row', w'.db.notifications.get? id = some row' →
      w.db.notifications.get? id = some row' ∨
      ∃ row, w.db.notifications.get? id = some row ∧ row.status ≠ .scheduled) :
    w'.Edited := by
  refine ⟨hc.claimed, ?_, hc.saving, ?_, ?_, hw.serialised.of_append [] hhistory (by simp)⟩
  · rw [hc.clock]
    intro j q m hq hm row' hrow'
    obtain ⟨i, o, ho, hheld⟩ := hc.holder j q m hq hm
    rcases hrows m row' hrow' with hrow | ⟨row, hrow, hne⟩
    · exact hw.holders i o m ho hheld row' hrow
    · exact absurd (hw.holders i o m ho hheld row hrow) hne
  · rw [hhistory, hc.clock]
    intro m d hlast hd row' hrow'
    rcases hrows m row' hrow' with hrow | ⟨row, hrow, hne⟩
    · exact hw.dated m d hlast hd row' hrow
    · exact absurd (hw.dated m d hlast hd row hrow).1 hne
  · rw [hhistory, hc.clock]
    exact fun j r hr n d => hrequests j r n d hr

/-- A statement queues a row: nobody holds it, and no date of a PATCH lies ahead. -/
private theorem enqueues (hw : w.Edited) (hc : Continues w w') {id : ℕ} {source : Submitter}
    (hhistory : w'.history = .queued id source w.clock :: w.history)
    (hrequests : ∀ j r n d, w'.processes j = some (.queue r) → lastEdit n w.history = some d →
      w.clock < d → r.mayQueue n d = false)
    (hrows : ∀ m, m ≠ id → w'.db.notifications.get? m = w.db.notifications.get? m)
    (hfree : ∀ i o, w.processes i = some o → o.edits w.clock ≠ some id)
    (hpast : ∀ d, lastEdit id w.history = some d → d ≤ w.clock) : w'.Edited := by
  refine ⟨hc.claimed, ?_, hc.saving, ?_, ?_, ?_⟩
  · rw [hc.clock]
    intro j q m hq hm row' hrow'
    obtain ⟨i, o, ho, hheld⟩ := hc.holder j q m hq hm
    have hne : m ≠ id := by
      rintro rfl
      exact hfree i o ho hheld
    exact hw.holders i o m ho hheld row' ((hrows m hne).symm.trans hrow')
  · rw [hhistory, hc.clock]
    intro m d hlast hd row' hrow'
    have hne : m ≠ id := by
      rintro rfl
      exact Int.not_le.mpr hd (hpast d hlast)
    exact hw.dated m d hlast hd row' ((hrows m hne).symm.trans hrow')
  · rw [hhistory, hc.clock]
    exact fun j r hr n d => hrequests j r n d hr
  · refine ⟨?_, ?_, hhistory ▸ ⟨hpast, hw.serialised.honoured⟩⟩
    · intro n found d h
      rcases List.mem_cons.mp (hhistory ▸ h) with h | h
      · simp at h
      · exact hw.serialised.patched n found d h
    · intro n found h
      rcases List.mem_cons.mp (hhistory ▸ h) with h | h
      · simp at h
      · exact hw.serialised.deleted n found h

/-- A PATCH writes the row it holds. -/
private theorem saves (hw : w.Edited) (hc : Continues w w') {rid : ℕ} {n row : Notification}
    {d : Instant} (hp : w.processes rid = some (.patch (.saving n d)))
    (hrow : w.db.notifications.get? n.id = some row)
    (hhistory : w'.history = .edited n.id row.status d :: w.history)
    (hrequests : ∀ j r m e, w'.processes j = some (.queue r) →
      (if n.id = m then some d else lastEdit m w.history) = some e → w.clock < e →
      r.mayQueue m e = false)
    (hrows : w'.db.notifications =
      w.db.notifications.modify n.id (saveFuture n) (pk_saveFuture n)) : w'.Edited := by
  obtain ⟨hstatus, hdate⟩ := hw.saving rid n d hp
  have hself : ∀ row', w'.db.notifications.get? n.id = some row' →
      row'.status = .scheduled ∧ row'.scheduledFor = some d := by
    intro row' hrow'
    rw [hrows, Table.get?_modify_self, Option.map_eq_some_iff] at hrow'
    obtain ⟨_, -, rfl⟩ := hrow'
    exact ⟨hstatus, hdate⟩
  have hother : ∀ m, m ≠ n.id → w'.db.notifications.get? m = w.db.notifications.get? m := by
    intro m hm
    rw [hrows]
    exact Table.get?_modify_of_ne _ _ (pk_saveFuture n) hm
  refine ⟨hc.claimed, ?_, hc.saving, ?_, ?_, ?_⟩
  · rw [hc.clock]
    intro j q m hq hm row' hrow'
    obtain ⟨i, o, ho, hheld⟩ := hc.holder j q m hq hm
    by_cases hid : m = n.id
    · exact (hself row' (hid ▸ hrow')).1
    · exact hw.holders i o m ho hheld row' ((hother m hid).symm.trans hrow')
  · rw [hhistory, hc.clock]
    intro m e hlast he row' hrow'
    change (if n.id = m then some d else lastEdit m w.history) = some e at hlast
    by_cases hid : m = n.id
    · rw [if_pos hid.symm] at hlast
      obtain rfl := Option.some.inj hlast
      exact hself row' (hid ▸ hrow')
    · rw [if_neg (Ne.symm hid)] at hlast
      exact hw.dated m e hlast he row' ((hother m hid).symm.trans hrow')
  · rw [hhistory, hc.clock]
    exact fun j r hr m e hlast => hrequests j r m e hr hlast
  · refine ⟨?_, ?_, hhistory ▸ hw.serialised.honoured⟩
    · intro m found e h
      rcases List.mem_cons.mp (hhistory ▸ h) with h | h
      · obtain ⟨-, rfl, -⟩ := Event.edited.inj h
        rw [hw.holders rid _ n.id hp rfl row hrow]
        simp [movedOn]
      · exact hw.serialised.patched m found e h
    · intro m found h
      rcases List.mem_cons.mp (hhistory ▸ h) with h | h
      · simp at h
      · exact hw.serialised.deleted m found h

/-- A request or task that writes notification rows performs a statement. -/
theorem moves (hw : w.Edited) {rid : ℕ} {input : TaskInput} {p : Process}
    {s : TaskStep Process} (hp : w.processes rid = some p)
    (hmoves : Process.Moves w.clock w.db.notifications input p s)
    (hscheduling : p.isScheduling = true) (halone : w.EditsAlone (.advance rid input))
    (hclaimed : (w.afterProcess rid
      { next := s.next
        db := { w.db with notifications := s.notifications }
        submitted := s.submitted
        events := s.events }).Claimed) :
    (w.afterProcess rid
      { next := s.next
        db := { w.db with notifications := s.notifications }
        submitted := s.submitted
        events := s.events }).Edited := by
  have hcontinues : Continues w (w.afterProcess rid
      { next := s.next
        db := { w.db with notifications := s.notifications }
        submitted := s.submitted
        events := s.events }) := by
    refine ⟨hclaimed, rfl, ?_, ?_⟩
    · intro j q id hq hid
      rcases Pool.set_eq_some.mp hq with ⟨-, hnext⟩ | ⟨-, hq⟩
      · exact ⟨rid, p, hp, hmoves.edits hnext hid⟩
      · exact ⟨j, q, hq, hid⟩
    · intro j n d hq
      rcases Pool.set_eq_some.mp hq with ⟨-, hnext⟩ | ⟨-, hq⟩
      · exact hmoves.saving hnext
      · exact hw.saving j n d hq
  have hrequests : ∀ j r n d, w.processes.set rid s.next j = some (.queue r) →
      lastEdit n w.history = some d → w.clock < d → r.mayQueue n d = false := by
    intro j r n d hr hlast hd
    rcases Pool.set_eq_some.mp hr with ⟨-, hnext⟩ | ⟨-, hr⟩
    · refine hmoves.mayQueue hnext hd fun r₀ hr₀ => ?_
      exact hw.requests rid r₀ (hr₀ ▸ hp) n d hlast hd
    · exact hw.requests j r hr n d hlast hd
  obtain ⟨next, T', submitted, events⟩ := s
  rcases hmoves.scheduling_cases hscheduling with
    ⟨hev, hrows⟩ | ⟨id, source, hev, hqueues, hrows⟩ | ⟨n, d, row, rfl, hrow, hev, hrows⟩
  · obtain rfl : events = [] := hev
    exact hw.idles hcontinues rfl hrequests hrows
  · obtain rfl : events = [.queued id source w.clock] := hev
    exact hw.enqueues hcontinues rfl hrequests hrows ((halone p hp).1 id hqueues)
      fun d hlast => hw.le_of_queues hp hqueues hlast
  · obtain rfl : events = [.edited n.id row.status d] := hev
    refine hw.saves hcontinues hp hrow rfl (fun j r m e hr hlast he => ?_) hrows
    by_cases hid : n.id = m
    · rw [if_pos hid] at hlast
      obtain rfl := Option.some.inj hlast
      subst hid
      rcases Pool.set_eq_some.mp hr with ⟨-, hnext⟩ | ⟨-, hr⟩
      · exact hmoves.mayQueue hnext he (by simp)
      · exact (halone _ hp).2 n d rfl he j r hr
    · rw [if_neg hid] at hlast
      exact hrequests j r m e hr hlast he

/-- A DELETE removes the row it holds. -/
theorem destroyed (hw : w.Edited) {rid id : ℕ} {input : TaskInput}
    (hp : w.processes rid = some (.destroy id))
    (hclaimed : (w.afterProcess rid (Process.advance w.clock w.db input (.destroy id))).Claimed) :
    (w.afterProcess rid (Process.advance w.clock w.db input (.destroy id))).Edited := by
  have hrows : ∀ j row', (w.db.notifications.delete fun n => n.id == id).get? j = some row' →
      w.db.notifications.get? j = some row' := fun j row' hrow' =>
    (Table.shrinks_delete _ _).get? hrow'
  have hprocesses : ∀ j q, w.processes.set rid none j = some q → w.processes j = some q :=
    Pool.forall_set (fun _ _ hq => hq) (by simp)
  have hlast : ∀ n, lastEdit n (((w.db.notifications.get? id).map
      fun n => Event.removed id n.status).toList.reverse ++ w.history) = lastEdit n w.history := by
    intro n
    cases w.db.notifications.get? id <;> rfl
  refine ⟨hclaimed, ?_, ?_, ?_, ?_, ?_, ?_, ?_⟩
  · intro j q m hq hm row' hrow'
    exact hw.holders j q m (hprocesses j q hq) hm row' (hrows m row' hrow')
  · intro j n d hq
    exact hw.saving j n d (hprocesses j _ hq)
  · intro n d h hd row' hrow'
    exact hw.dated n d ((hlast n).symm.trans h) hd row' (hrows n row' hrow')
  · intro j r hr n d h hd
    exact hw.requests j r (hprocesses j _ hr) n d ((hlast n).symm.trans h) hd
  · intro n found d h
    rcases List.mem_append.mp h with h | h
    · simp [Process.advance] at h
    · exact hw.serialised.patched n found d h
  · intro n found h
    rcases List.mem_append.mp h with h | h
    · simp only [Process.advance, List.mem_reverse, Option.mem_toList,
        Option.map_eq_some_iff, Event.removed.injEq] at h
      obtain ⟨row, hrow, -, rfl⟩ := h
      rw [hw.holders rid _ id hp rfl row hrow]
      simp [movedOn]
    · exact hw.serialised.deleted n found h
  · change HonoursEdits (((w.db.notifications.get? id).map
      fun n => Event.removed id n.status).toList.reverse ++ w.history)
    cases w.db.notifications.get? id with
    | none => exact hw.serialised.honoured
    | some row => exact hw.serialised.honoured

/-- A request or task begins. -/
theorem begins (hw : w.Edited) {rid : ℕ} {r : Request} (hr : r.isScheduling = true)
    (hclaimed : (w.afterProcess rid (r.begin cfg w.clock w.db)).Claimed) :
    (w.afterProcess rid (r.begin cfg w.clock w.db)).Edited := by
  obtain ⟨hdb, hev⟩ := Request.begin_scheduling cfg w.clock w.db hr
  have hhist : (w.afterProcess rid (r.begin cfg w.clock w.db)).history = w.history := by
    simp [afterProcess, hev]
  refine ⟨hclaimed, ?_, ?_, ?_, ?_, ?_⟩
  · intro j q m hq hm row hrow
    change (r.begin cfg w.clock w.db).db.notifications.get? m = _ at hrow
    rw [hdb] at hrow
    rcases Pool.set_eq_some.mp hq with ⟨-, hnext⟩ | ⟨-, hq⟩
    · exact Request.begin_edits hnext hr hm hrow
    · exact hw.holders j q m hq hm row hrow
  · intro j n d hq
    rcases Pool.set_eq_some.mp hq with ⟨-, hnext⟩ | ⟨-, hq⟩
    · exact absurd hnext (Request.begin_saving hr)
    · exact hw.saving j n d hq
  · intro n d hlast hd row hrow
    change (r.begin cfg w.clock w.db).db.notifications.get? n = _ at hrow
    rw [hdb] at hrow
    exact hw.dated n d (hhist ▸ hlast) hd row hrow
  · intro j q hq n d hlast hd
    rcases Pool.set_eq_some.mp hq with ⟨-, hnext⟩ | ⟨-, hq⟩
    · exact Request.begin_mayQueue hnext hr fun row hrow =>
        (hw.dated n d (hhist ▸ hlast) hd row hrow).2
    · exact hw.requests j q hq n d (hhist ▸ hlast) hd
  · exact hw.serialised.of_append [] hhist (by simp)

/-- One action keeps the invariant. -/
theorem step {a : Action} (hw : w.Edited) (h : Steps cfg w a w') (hs : w.Schedules a)
    (halone : w.EditsAlone a) : w'.Edited := by
  have hclaimed := hw.toClaimed.step h (hw.claimsSpared hs)
  cases h with
  | tick duration =>
    exact hw.of_agree [] hclaimed (Int.le_add_of_nonneg_right (Int.natCast_nonneg _)) rfl rfl
      (by simp) fun _ _ hrow' => Or.inl hrow'
  | notClaimed pid task rowLocked htask hpid hnone =>
    exact hw.of_agree [] hclaimed le_rfl rfl rfl (by simp) fun _ _ hrow' => Or.inl hrow'
  | claimed pid task n htask hpid hn hstatus =>
    refine hw.of_agree [_] hclaimed le_rfl rfl rfl (by simp [Event.keepsEdits]) ?_
    intro id row' hrow'
    have hid : n.id = task.notification := (Table.get?_eq_some.mp hn).2
    by_cases hne : id = n.id
    · refine Or.inr ⟨n, by rw [hne, hid]; exact hn, ?_⟩
      intro hscheduled
      rw [hscheduled] at hstatus
      simp [allowedNotificationStatusesToStart] at hstatus
    · exact Or.inl ((Table.get?_modify_of_ne _ _ (pk_acquire w.clock) hne).symm.trans hrow')
  | pass pid input p s hp hmoves hadv =>
    refine hw.of_agree s.events.reverse hclaimed le_rfl rfl rfl ?_ ?_
    · intro e he
      obtain ⟨-, -, hqueued, hedited, -, hremoved⟩ := hmoves.events (List.mem_reverse.mp he)
      cases e with
      | queued m source t => exact absurd rfl (hqueued m source t)
      | edited m found d => exact absurd rfl (hedited m found d)
      | removed m found => exact absurd rfl (hremoved m found)
      | _ => rfl
    · intro id row' hrow'
      change s.db.notifications.get? id = _ at hrow'
      rcases hmoves.notifications with hs | ⟨-, f, hf, hs, -⟩ <;> rw [hs] at hrow'
      · exact Or.inl hrow'
      · by_cases hne : id = p.notification.id
        · refine Or.inr ⟨p.notification, hne ▸ hw.row pid p hp, ?_⟩
          simp [hw.processing pid p hp]
        · exact Or.inl ((Table.get?_modify_of_ne _ _ hf hne).symm.trans hrow')
  | crash pid p hp =>
    exact hw.of_agree [] hclaimed le_rfl rfl rfl (by simp) fun _ _ hrow' => Or.inl hrow'
  | request rid r hrid =>
    exact hw.begins hs hclaimed
  | advance rid input p hp =>
    by_cases hwrites : p.writesNotifications = true
    · obtain ⟨s, hmoves, hadv⟩ := Process.advance_moves w.clock input w.db hwrites
      rw [hadv] at hclaimed ⊢
      exact hw.moves hp hmoves (hs p hp) halone hclaimed
    · have hscheduling := hs p hp
      cases p with
      | destroy id => exact hw.destroyed hp hclaimed
      | link deviceId applicationId => simp [Process.isScheduling] at hscheduling
      | unlink linkId source => simp [Process.isScheduling] at hscheduling
      | _ => simp [Process.writesNotifications] at hwrites

end World.Edited

/-! ### Runs -/

theorem World.Initial.edited {w : World} (hw : w.Initial) : w.Edited where
  toClaimed := hw.claimed
  holders := by simp [hw.processes]
  saving := by simp [hw.processes]
  dated := by simp [hw.history, lastEdit]
  requests := by simp [hw.processes]
  serialised := ⟨by simp [hw.history], by simp [hw.history], by simp [hw.history, HonoursEdits]⟩

/-- Editing is serialised against sending in every run in which no row is queued between the
read and the write of its PATCH or DELETE, and no PATCH falls between the load and the UPDATE of
a client send. -/
theorem edits_serialised {cfg : Settings} {w₀ w : World} (hw₀ : w₀.Initial)
    (h : (server cfg).Reach (fun w a => w.Schedules a ∧ w.EditsAlone a) w₀ w) :
    w.EditsSerialised := by
  have hpres : (server cfg).Preserves (fun w a => w.Schedules a ∧ w.EditsAlone a) World.Edited :=
    fun _ _ _ hw hok hs => hw.step (World.step_cases hs) hok.1 hok.2
  exact (System.Reach.invariant hpres h hw₀.edited).serialised

/-- Requests and tasks follow each other, as process 0. -/
def Action.oneAtATime : Action → Bool
  | .request rid _ | .advance rid _ => rid == 0
  | _ => true

/-- The condition holds where nothing else is under way. -/
theorem World.editsAlone_of_oneAtATime {w : World} {a : Action}
    (hw : ∀ j, j ≠ 0 → w.processes j = none) (ha : a.oneAtATime = true) : w.EditsAlone a := by
  cases a with
  | advance rid input =>
    obtain rfl : rid = 0 := by simpa [Action.oneAtATime] using ha
    intro p hp
    have honly : ∀ j q, w.processes j = some q → q = p := by
      intro j q hq
      by_cases hj : j = 0
      · exact Option.some.inj (hq.symm.trans (hj ▸ hp))
      · rw [hw j hj] at hq
        simp at hq
    constructor
    · intro id hid j q hq hedits
      obtain rfl := honly j q hq
      cases q <;> simp [Process.queues, Process.edits] at hid hedits
    · rintro n d rfl - j r hr
      exact absurd (honly j _ hr) (by simp)
  | _ => trivial

theorem oneAtATime_preserves (cfg : Settings) :
    (server cfg).Preserves (fun w a => w.Schedules a ∧ a.oneAtATime = true)
      fun w => ∀ j, j ≠ 0 → w.processes j = none := by
  intro w a w' hw hok hs j hj
  cases World.step_cases hs with
  | request rid r hrid =>
    obtain rfl : rid = 0 := by simpa [Action.oneAtATime] using hok.2
    exact (Pool.set_of_ne _ _ hj).trans (hw j hj)
  | advance rid input p hp =>
    obtain rfl : rid = 0 := by simpa [Action.oneAtATime] using hok.2
    exact (Pool.set_of_ne _ _ hj).trans (hw j hj)
  | _ => exact hw j hj

namespace Sample

def future : Notification := { notification with status := .scheduled, scheduledFor := some 60 }

/-- The server with its notification scheduled for a minute ahead. -/
def futureWorld : World :=
  { clock := 0, db := { db with notifications := single future } }

theorem futureWorld_initial : futureWorld.Initial := ⟨rfl, rfl, rfl⟩

/-- The owner moves the date by a minute. -/
def postponement : Request := .patch 1 1 { scheduledFor := some (some 120) }

end Sample

/-- The notification of the sample server is queued at its new date. -/
theorem sample_edits_serialised : ∃ w,
    (server .default).Reach (fun w a => w.Schedules a ∧ w.EditsAlone a) Sample.futureWorld w ∧
    .queued 1 .dispatcher 120 ∈ w.history ∧ w.EditsSerialised := by
  obtain ⟨w, hreach, hqueued⟩ := System.exists_reach_of_guardedRun (server .default)
    (fun w a => w.Schedules a ∧ a.oneAtATime = true) Sample.futureWorld
    [.request 0 Sample.postponement, .advance 0 {}, .advance 0 {}, .tick 120,
      .request 0 .dispatchScheduled, .advance 0 {}, .advance 0 {}]
    (fun w => decide (.queued 1 .dispatcher 120 ∈ w.history)) (by decide)
  have hreach' := hreach.mono_of_invariant (fun w a => w.Schedules a ∧ w.EditsAlone a)
    (oneAtATime_preserves .default)
    (fun w a hw hok => ⟨hok.1, World.editsAlone_of_oneAtATime hw hok.2⟩) (fun _ _ => rfl)
  exact ⟨w, hreach', of_decide_eq_true hqueued,
    edits_serialised Sample.futureWorld_initial hreach'⟩

/-- The PATCH reads the row before its date, the dispatcher queues it at its date, and the PATCH
writes it back to SCHEDULED. -/
theorem edit_overwrites_queued : ¬∀ (cfg : Settings) (w₀ w : World), w₀.Initial →
    (server cfg).Reach World.Schedules w₀ w → w.EditsSerialised := by
  intro hclaim
  obtain ⟨w, hreach, hedited⟩ := System.exists_reach_of_guardedRun (server .default)
    World.Schedules Sample.futureWorld
    [.request 1 Sample.postponement, .advance 1 {}, .tick 60, .request 2 .dispatchScheduled,
      .advance 2 {}, .advance 1 {}]
    (fun w => decide (.edited 1 .queued 120 ∈ w.history)) (by decide)
  exact (hclaim .default _ w Sample.futureWorld_initial hreach).patched 1 .queued 120
    (of_decide_eq_true hedited) (by simp [movedOn])

end PushIT
