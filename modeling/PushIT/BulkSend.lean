import PushIT.AppToken

/-!
# Bulk send

`NotificationBulkSendApiView.post` and `NotificationBulkSendWithAppTokenApiView.post` go through
the ids of the request one by one.  The instances are loaded once, and a repeated id meets the
instance its first treatment left behind: the status in memory stays QUEUED even where the row was
rolled back after a failed submission.

Both endpoints account for every position of the list with one entry.  Without a concurrent writer
the rows after the loop are the old ones, with exactly the queued ids QUEUED.

## Main definitions

* `tryQueueNotification`: `_try_queue_notification` as one operation.
* `bulkQueue`: the loop of both endpoints.
* `notificationBulkSend`, `notificationBulkSendWithAppToken`: the endpoints.
* `BulkRun.Accounts`: what the loop owes.

## Main results

* `bulk_send_accounts_for_every_id`: both endpoints, for every list of ids.
* `bulkQueue_refines`: the loop is a run of the request process with nothing in between.
-/

namespace PushIT

open Relational

/-! ### `_try_queue_notification` -/

/-- What the environment answers while one id is treated: the clock, the UPDATE and the broker. -/
structure QueueMoment where
  now : Instant
  input : TaskInput := {}

/-- What `_try_queue_notification` leaves behind: its result, the instance in memory, the
database and the submitted tasks.  `failed` is history: the ids whose submission raised. -/
structure QueueAttempt where
  result : QueueResult
  loaded : LoadedNotification
  db : Db
  submitted : List SendTask := []
  failed : List ℕ := []

/-- `notification.status = QUEUED` on an instance. -/
def LoadedNotification.mark (l : LoadedNotification) : LoadedNotification :=
  ⟨queueNotification l.notification, l.applicationIsActive⟩

/-- The filter of the conditional UPDATE; `owner_filter` is given without row locks. -/
def queueFilter (db : Db) (ownerFilter : Option Caller) (id : ℕ)
    (previousStatus : NotificationStatus) (n : Notification) : Bool :=
  n.id == id && n.status == previousStatus && ownerFilter.all fun c => c.owns db n

theorem pk_restoreStatus_val (status : QueueableStatus)
    (n : Notification) : pk (restoreStatus status.val n) = pk n := rfl

/-- `_try_queue_notification`. -/
def tryQueueNotification (db : Db) (ownerFilter : Option Caller) (m : QueueMoment)
    (l : LoadedNotification) : QueueAttempt :=
  let id := l.notification.id
  match queueCheck m.now l with
  | .error result => { result, loaded := l, db }
  | .ok previousStatus =>
    if m.input.updateFails then
      { result := notificationNotSendable id previousStatus.val, loaded := l, db }
    else if db.notifications.rows.any (queueFilter db ownerFilter id previousStatus.val) then
      let queued := db.notifications.update (queueFilter db ownerFilter id previousStatus.val)
        queueNotification pk_queueNotification
      if m.input.brokerUp then
        { result := .queued id
          loaded := l.mark
          db := { db with notifications := queued }
          submitted := [⟨id, .client⟩] }
      else
        -- the status in memory is not rolled back
        { result := notificationQueueUnavailable id
          loaded := l.mark
          db :=
            { db with
              notifications := queued.update (fun n => n.id == id && n.status == .queued)
                (restoreStatus previousStatus.val) (pk_restoreStatus_val previousStatus) }
          failed := [id] }
    else
      match db.notifications.get? id with
      | none => { result := notificationNotFound id, loaded := l, db }
      | some n => { result := notificationNotSendable id n.status, loaded := l, db }

/-! ### The loop -/

/-- The lists of the answer, the instances and the database while the loop runs.  `submitted` and
`failed` are history. -/
structure BulkRun where
  db : Db
  found : ℕ → Option LoadedNotification
  queued : List ℕ := []
  errors : List QueueResult := []
  submitted : List SendTask := []
  failed : List ℕ := []

namespace BulkRun

/-- `found = {n.id: n for n in notifications}`. -/
def start (db : Db) (caller : Caller) (ids : List ℕ) : BulkRun :=
  { db
    found := fun nid => (fetchNotifications db caller ids).find? fun l =>
      l.notification.id == nid }

/-- A result goes to the list it belongs to. -/
def append (s : BulkRun) : QueueResult → BulkRun
  | .queued id => { s with queued := s.queued ++ [id] }
  | .error id code detail => { s with errors := s.errors ++ [.error id code detail] }

/-- One turn of the loop. -/
def turn (ownerFilter : Option Caller) (s : BulkRun) (nid : ℕ) (m : QueueMoment) : BulkRun :=
  match s.found nid with
  | none => s.append (notificationNotFound nid)
  | some l =>
    let a := tryQueueNotification s.db ownerFilter m l
    { s with
      db := a.db
      found := Function.update s.found nid (some a.loaded)
      submitted := s.submitted ++ a.submitted
      failed := s.failed ++ a.failed }.append a.result

end BulkRun

/-- The queries and the loop of both endpoints; `moments i` is the environment of the `i`-th
turn. -/
def bulkQueue (rowLocking : Bool) (caller : Caller) (moments : ℕ → QueueMoment) (db : Db)
    (ids : List ℕ) : BulkRun :=
  let ownerFilter := if rowLocking then none else some caller
  ids.zipIdx.foldl (fun s (nid, i) => s.turn ownerFilter nid (moments i))
    (BulkRun.start db caller ids)

/-! ### The endpoints -/

def bulkSendMaxIds : ℕ := 500

/-- `bulk_send_ids_field`: the errors, or the ids. -/
def bulkSendIdsField (ids : List ℤ) : Except ValidationErrors (List ℕ) :=
  let small := ids.zipIdx.filter fun (id, _) => decide (id < 1)
  if ids = [] then .error [("notification_ids", [.library "empty"])]
  else if small ≠ [] then
    .error (small.map fun (_, i) => ("notification_ids." ++ toString i, [.library "min_value"]))
  else if ids.length > bulkSendMaxIds then
    .error [("notification_ids", [.library "max_length"])]
  else .ok (ids.map Int.toNat)

/-- The outcome of a bulk request: the refusal or the two lists, and the effects. -/
structure BulkPost where
  answer : Except AppTokenAnswer (List ℕ × List QueueResult)
  db : Db
  submitted : List SendTask := []
  failed : List ℕ := []

/-- The common body of the two `post` methods. -/
def bulkPost (rowLocking paid : Bool) (caller : Caller) (moments : ℕ → QueueMoment) (db : Db)
    (payload : List ℤ) : BulkPost :=
  if !paid then { answer := .error subscriptionRequired, db }
  else
    match bulkSendIdsField payload with
    | .error errors => { answer := .error (.invalid errors), db }
    | .ok ids =>
      let s := bulkQueue rowLocking caller moments db ids
      { answer := .ok (s.queued, s.errors), db := s.db, submitted := s.submitted
        failed := s.failed }

/-- `NotificationBulkSendApiView.post`. -/
def notificationBulkSend (rowLocking : Bool) (paid : ℕ → Bool) (moments : ℕ → QueueMoment)
    (db : Db) (user : ℕ) (payload : List ℤ) : BulkPost :=
  bulkPost rowLocking (paid user) (.user user) moments db payload

/-- `NotificationBulkSendWithAppTokenApiView.post`. -/
def notificationBulkSendWithAppToken (rowLocking : Bool) (paid : ℕ → Bool)
    (moments : ℕ → QueueMoment) (db : Db) (application : Application) (payload : List ℤ) :
    BulkPost :=
  bulkPost rowLocking (paid application.ownerId) (.application application.id) moments db payload

/-! ### What the loop owes -/

/-- The id an entry is about. -/
def QueueResult.id : QueueResult → ℕ
  | .queued id => id
  | .error id _ _ => id

/-- The entry of `queued` a result makes. -/
def QueueResult.queuedId : QueueResult → Option ℕ
  | .queued id => some id
  | .error _ _ _ => none

/-- A visible notification of the caller. -/
def VisibleTo (db : Db) (caller : Caller) (id : ℕ) : Prop :=
  ∃ n, db.notifications.get? id = some n ∧ n.isVisible = true ∧ caller.owns db n = true

/-- The database with the given notifications QUEUED. -/
def Db.queueAll (db : Db) (ids : List ℕ) : Db :=
  { db with
    notifications :=
      db.notifications.update (fun n => ids.contains n.id) queueNotification
        pk_queueNotification }

/-- The entries of the two lists, merged: one for each id, in order. -/
def EntriesFor (ids queued : List ℕ) (errors : List QueueResult) : Prop :=
  ∃ entries : List QueueResult, entries.map QueueResult.id = ids ∧
    queued = entries.filterMap QueueResult.queuedId ∧
    errors = entries.filter fun e => e.queuedId.isNone

/-- The lists, the tasks and the rows account for every id of a request: one entry a position, in
order; one task for each queued id, which are distinct; no other row changes, so that an id that
is not a visible notification of the caller keeps its row, and one whose submission failed has its
previous status. -/
structure AccountsFor (db : Db) (caller : Caller) (ids queued : List ℕ)
    (errors : List QueueResult) (after : Db) (submitted : List SendTask) (failed : List ℕ) :
    Prop where
  entries : EntriesFor ids queued errors
  nodup : queued.Nodup
  tasks : submitted = queued.map fun id => ⟨id, .client⟩
  rows : after = db.queueAll queued
  visible : ∀ id ∈ queued, VisibleTo db caller id
  hidden : ∀ id, ¬VisibleTo db caller id →
    id ∉ queued ∧ after.notifications.get? id = db.notifications.get? id
  refused : ∀ id, id ∈ failed ↔ notificationQueueUnavailable id ∈ errors
  restored : ∀ id ∈ failed,
    id ∉ queued ∧ after.notifications.get? id = db.notifications.get? id

/-! ### One attempt -/

theorem Db.queueAll_get?_of_not_mem (db : Db) {ids : List ℕ} {id : ℕ} (h : id ∉ ids) :
    (db.queueAll ids).notifications.get? id = db.notifications.get? id := by
  rw [Db.queueAll, Table.get?_update]
  cases hget : db.notifications.get? id with
  | none => rfl
  | some n =>
    have hid : n.id = id := (Table.get?_eq_some.mp hget).2
    simp [hid, h]

theorem Db.queueAll_nil (db : Db) : db.queueAll [] = db := by
  have htable : db.notifications.update (fun n => ([] : List ℕ).contains n.id)
      queueNotification pk_queueNotification = db.notifications :=
    Table.eq_of_rows (by simp [Table.update]) rfl
  rw [Db.queueAll, htable]

theorem Db.queueAll_queueAll (db : Db) (ids ids' : List ℕ) :
    (db.queueAll ids).queueAll ids' = db.queueAll (ids ++ ids') := by
  have htable : (db.notifications.update (fun n => ids.contains n.id) queueNotification
      pk_queueNotification).update (fun n => ids'.contains n.id) queueNotification
        pk_queueNotification =
      db.notifications.update (fun n => (ids ++ ids').contains n.id) queueNotification
        pk_queueNotification := by
    refine Table.eq_of_rows ?_ rfl
    simp only [Table.update, List.map_map]
    refine List.map_congr_left fun n _ => ?_
    by_cases hn : n.id ∈ ids <;> by_cases hn' : n.id ∈ ids' <;>
      simp [hn, hn', queueNotification]
  simp only [Db.queueAll, htable]

/-- How an attempt on an instance can end: a refusal that changes nothing, a queued row with its
task, or a failed submission that leaves a trace in memory only. -/
inductive Attempted (db : Db) (l : LoadedNotification) : QueueAttempt → Prop
  | refused (code detail : String) (hcode : code ≠ "notification_queue_unavailable") :
      Attempted db l { result := .error l.notification.id code detail, loaded := l, db }
  | queued (hstatus : l.notification.status ≠ .queued) :
      Attempted db l
        { result := .queued l.notification.id
          loaded := l.mark
          db := db.queueAll [l.notification.id]
          submitted := [⟨l.notification.id, .client⟩] }
  | unavailable (hstatus : l.notification.status ≠ .queued) :
      Attempted db l
        { result := notificationQueueUnavailable l.notification.id
          loaded := l.mark
          db
          failed := [l.notification.id] }

section Attempt

variable {db : Db} {ownerFilter : Option Caller} {m : QueueMoment} {l : LoadedNotification}

/-- The check refuses without a word on the queue, or passes on the status of the instance, from
which a notification may be queued. -/
theorem queueCheck_cases (now : Instant) (l : LoadedNotification) :
    (∃ code detail, code ≠ "notification_queue_unavailable" ∧
      queueCheck now l = .error (.error l.notification.id code detail)) ∨
    ∃ status : QueueableStatus, status.val = l.notification.status ∧
      queueCheck now l = .ok status := by
  unfold queueCheck
  dsimp only
  split
  · exact Or.inl ⟨_, _, by decide, rfl⟩
  · split
    · exact Or.inl ⟨_, _, by decide, rfl⟩
    · split
      · exact Or.inr ⟨_, rfl, rfl⟩
      · exact Or.inl ⟨_, _, by decide, rfl⟩

theorem QueueableStatus.ne_queued (status : QueueableStatus) : status.val ≠ .queued := by
  intro h
  have hmem := status.property
  rw [h] at hmem
  exact absurd hmem (by decide)

/-- A row that meets the filter is the only row with its id. -/
theorem queueFilter_eq_of_any {id : ℕ} {status : NotificationStatus}
    (h : db.notifications.rows.any (queueFilter db ownerFilter id status) = true) :
    ∀ n ∈ db.notifications.rows, queueFilter db ownerFilter id status n = (n.id == id) := by
  obtain ⟨n, hn, hfilter⟩ := List.any_eq_true.mp h
  have hid : n.id = id := by
    simp only [queueFilter, Bool.and_eq_true, beq_iff_eq] at hfilter
    exact hfilter.1.1
  intro n' hn'
  by_cases hid' : n'.id = id
  · have hsame : n' = n := Table.eq_of_pk hn' hn (hid'.trans hid.symm)
    rw [hsame, hfilter, hid, beq_self_eq_true]
  · have hne : (n'.id == id) = false := beq_false_of_ne hid'
    simp [queueFilter, hne]

theorem update_queueFilter {id : ℕ} {status : NotificationStatus}
    (h : db.notifications.rows.any (queueFilter db ownerFilter id status) = true) :
    db.notifications.update (queueFilter db ownerFilter id status) queueNotification
      pk_queueNotification = (db.queueAll [id]).notifications := by
  refine Table.update_congr pk_queueNotification pk_queueNotification fun n hn => ?_
  rw [queueFilter_eq_of_any h n hn]
  simp

theorem modify_eq_update_queueFilter {id : ℕ} {status : NotificationStatus}
    (h : db.notifications.rows.any (queueFilter db ownerFilter id status) = true) :
    db.notifications.modify id queueNotification pk_queueNotification =
      db.notifications.update (queueFilter db ownerFilter id status) queueNotification
        pk_queueNotification := by
  refine Table.update_congr pk_queueNotification pk_queueNotification fun n hn => ?_
  rw [queueFilter_eq_of_any h n hn]
  rfl

/-- The roll-back undoes the conditional UPDATE. -/
theorem rollBack_queueFilter {id : ℕ} {status : NotificationStatus}
    (h : db.notifications.rows.any (queueFilter db ownerFilter id status) = true) :
    (db.notifications.update (queueFilter db ownerFilter id status) queueNotification
      pk_queueNotification).update (fun n => n.id == id && n.status == .queued)
        (restoreStatus status) (pk_restoreStatus status) = db.notifications := by
  refine Table.eq_of_rows ?_ rfl
  simp only [Table.update, List.map_map]
  conv_rhs => rw [← List.map_id db.notifications.rows]
  refine List.map_congr_left fun n hn => ?_
  have hfilter := queueFilter_eq_of_any h n hn
  by_cases hid : n.id = id
  · subst hid
    rw [beq_self_eq_true] at hfilter
    have hstatus : n.status = status := by
      simp only [queueFilter, Bool.and_eq_true, beq_iff_eq] at hfilter
      exact hfilter.1.2
    subst hstatus
    simp [hfilter, queueNotification, restoreStatus]
  · have hne : (n.id == id) = false := beq_false_of_ne hid
    rw [hne] at hfilter
    simp only [Function.comp_apply, hfilter, Bool.false_eq_true, if_false, hne, Bool.false_and,
      id_eq]

theorem tryQueueNotification_attempted (db : Db) (ownerFilter : Option Caller) (m : QueueMoment)
    (l : LoadedNotification) : Attempted db l (tryQueueNotification db ownerFilter m l) := by
  unfold tryQueueNotification
  obtain ⟨code, detail, hcode, hcheck⟩ | ⟨status, hstatus, hcheck⟩ := queueCheck_cases m.now l
  · simp only [hcheck]
    exact .refused code detail hcode
  · have hne : l.notification.status ≠ .queued := hstatus ▸ status.ne_queued
    simp only [hcheck]
    split
    · exact .refused _ _ (by decide)
    · split
      · next hany =>
        split
        · rw [update_queueFilter hany]
          exact .queued hne
        · rw [rollBack_queueFilter hany]
          exact .unavailable hne
      · split
        · exact .refused _ _ (by decide)
        · exact .refused _ _ (by decide)

end Attempt

/-! ### The loop -/

namespace BulkRun

section Append

variable (s : BulkRun) (r : QueueResult)

@[simp] theorem append_db : (s.append r).db = s.db := by cases r <;> rfl

@[simp] theorem append_found : (s.append r).found = s.found := by cases r <;> rfl

@[simp] theorem append_submitted : (s.append r).submitted = s.submitted := by cases r <;> rfl

@[simp] theorem append_failed : (s.append r).failed = s.failed := by cases r <;> rfl

theorem append_queued : (s.append r).queued = s.queued ++ r.queuedId.toList := by
  cases r <;> simp [append, QueueResult.queuedId]

theorem append_errors :
    (s.append r).errors = s.errors ++ [r].filter fun e => e.queuedId.isNone := by
  cases r <;> simp [append, QueueResult.queuedId]

end Append

/-- A result adds one entry to one of the lists. -/
theorem entriesFor_append {s : BulkRun} {ids : List ℕ} (h : EntriesFor ids s.queued s.errors)
    (r : QueueResult) :
    EntriesFor (ids ++ [r.id]) (s.append r).queued (s.append r).errors := by
  obtain ⟨entries, hids, hqueued, herrors⟩ := h
  refine ⟨entries ++ [r], by simp [hids], ?_, ?_⟩
  · rw [append_queued, List.filterMap_append, ← hqueued]
    cases r <;> rfl
  · rw [append_errors, List.filter_append, ← herrors]

/-- The invariant of the loop over the ids it has treated.  An instance whose id was queued or
failed to be submitted is QUEUED in memory, which keeps a repeated id from being queued again. -/
structure Sound (db : Db) (caller : Caller) (ids : List ℕ) (s : BulkRun) : Prop where
  entries : EntriesFor ids s.queued s.errors
  nodup : s.queued.Nodup
  tasks : s.submitted = s.queued.map fun id => ⟨id, .client⟩
  rows : s.db = db.queueAll s.queued
  visible : ∀ id ∈ s.queued, VisibleTo db caller id
  refused : ∀ id, id ∈ s.failed ↔ notificationQueueUnavailable id ∈ s.errors
  apart : ∀ id ∈ s.failed, id ∉ s.queued
  ids : ∀ id l, s.found id = some l → l.notification.id = id
  instances : ∀ id l, s.found id = some l → VisibleTo db caller id
  marked : ∀ id l, s.found id = some l → id ∈ s.queued ∨ id ∈ s.failed →
    l.notification.status = .queued

variable {db : Db} {caller : Caller}

theorem sound_start (db : Db) (caller : Caller) (ids : List ℕ) :
    (start db caller ids).Sound db caller [] where
  entries := ⟨[], rfl, rfl, rfl⟩
  nodup := List.nodup_nil
  tasks := rfl
  rows := db.queueAll_nil.symm
  visible := fun _ h => absurd h List.not_mem_nil
  refused := fun _ => by simp [start]
  apart := fun _ h => absurd h List.not_mem_nil
  ids := fun id l hl => by simpa using List.find?_some hl
  instances := fun id l hl => by
    have hid : l.notification.id = id := by simpa using List.find?_some hl
    obtain ⟨n, hn, rfl⟩ := List.mem_map.mp (List.mem_of_find?_eq_some hl)
    obtain ⟨hrow, hfilter⟩ := Table.mem_select.mp hn
    simp only [Bool.and_eq_true] at hfilter
    exact ⟨n, Table.get?_eq_some.mpr ⟨hrow, hid⟩, hfilter.1.1, hfilter.1.2⟩
  marked := fun _ _ _ h => by simp [start] at h

/-- A turn on an id without an instance adds an entry to the errors. -/
theorem Sound.unknown {ids : List ℕ} {s : BulkRun} (h : s.Sound db caller ids) (nid : ℕ) :
    (s.append (notificationNotFound nid)).Sound db caller (ids ++ [nid]) := by
  have hqueued : (s.append (notificationNotFound nid)).queued = s.queued := rfl
  exact
    { entries := entriesFor_append h.entries (notificationNotFound nid)
      nodup := h.nodup
      tasks := h.tasks
      rows := h.rows
      visible := h.visible
      refused := fun id => by
        rw [append_failed, h.refused, append_errors]
        simp [notificationNotFound, notificationQueueUnavailable, QueueResult.queuedId]
      apart := h.apart
      ids := h.ids
      instances := h.instances
      marked := h.marked }

section Turn

variable {ids : List ℕ} {s : BulkRun} {l : LoadedNotification}

/-- The instances after the one of an id was marked QUEUED. -/
theorem Sound.mark_cases (h : s.Sound db caller ids)
    (hl : s.found l.notification.id = some l) {id : ℕ} {l' : LoadedNotification}
    (hl' : Function.update s.found l.notification.id (some l.mark) id = some l') :
    l'.notification.id = id ∧ VisibleTo db caller id ∧
      (id = l.notification.id ∧ l'.notification.status = .queued ∨
        id ≠ l.notification.id ∧ s.found id = some l') := by
  by_cases hid : id = l.notification.id
  · subst hid
    rw [Function.update_self] at hl'
    obtain rfl := Option.some.inj hl'
    exact ⟨rfl, h.instances _ l hl, Or.inl ⟨rfl, rfl⟩⟩
  · rw [Function.update_of_ne hid] at hl'
    exact ⟨h.ids id l' hl', h.instances id l' hl', Or.inr ⟨hid, hl'⟩⟩

/-- An instance that is not QUEUED has been neither queued nor refused by the broker. -/
theorem Sound.fresh (h : s.Sound db caller ids) (hl : s.found l.notification.id = some l)
    (hstatus : l.notification.status ≠ .queued) :
    l.notification.id ∉ s.queued ∧ l.notification.id ∉ s.failed :=
  ⟨fun hmem => hstatus (h.marked _ l hl (Or.inl hmem)),
    fun hmem => hstatus (h.marked _ l hl (Or.inr hmem))⟩

theorem Sound.refusal (h : s.Sound db caller ids) {code detail : String}
    (hcode : code ≠ "notification_queue_unavailable") :
    (s.append (.error l.notification.id code detail)).Sound db caller
      (ids ++ [l.notification.id]) :=
  { entries := entriesFor_append h.entries (.error l.notification.id code detail)
    nodup := h.nodup
    tasks := h.tasks
    rows := h.rows
    visible := h.visible
    refused := fun id => by
      rw [append_failed, h.refused, append_errors]
      simp [notificationQueueUnavailable, QueueResult.queuedId, hcode.symm]
    apart := h.apart
    ids := h.ids
    instances := h.instances
    marked := h.marked }

theorem Sound.success (h : s.Sound db caller ids) (hl : s.found l.notification.id = some l)
    (hstatus : l.notification.status ≠ .queued) :
    ({ s with
        db := s.db.queueAll [l.notification.id]
        found := Function.update s.found l.notification.id (some l.mark)
        submitted := s.submitted ++ [(⟨l.notification.id, .client⟩ : SendTask)] }.append
      (.queued l.notification.id)).Sound db caller (ids ++ [l.notification.id]) := by
  obtain ⟨hqueued, hfailed⟩ := h.fresh hl hstatus
  exact
    { entries := entriesFor_append h.entries (.queued l.notification.id)
      nodup := List.nodup_append.mpr ⟨h.nodup, List.nodup_singleton _, fun id hid id' hid' => by
        rw [List.mem_singleton] at hid'
        rintro rfl
        exact hqueued (hid' ▸ hid)⟩
      tasks := by simp [append, h.tasks]
      rows := by simp only [append, h.rows, Db.queueAll_queueAll]
      visible := fun id hid => by
        rcases List.mem_append.mp hid with hid | hid
        · exact h.visible id hid
        · rw [List.mem_singleton.mp hid]
          exact h.instances _ l hl
      refused := h.refused
      apart := fun id hid hmem => by
        rcases List.mem_append.mp hmem with hmem | hmem
        · exact h.apart id hid hmem
        · exact hfailed (List.mem_singleton.mp hmem ▸ hid)
      ids := fun id l' hl' => (h.mark_cases hl hl').1
      instances := fun id l' hl' => (h.mark_cases hl hl').2.1
      marked := fun id l' hl' hmem => by
        obtain ⟨-, -, ⟨-, hmarked⟩ | ⟨hne, hold⟩⟩ := h.mark_cases hl hl'
        · exact hmarked
        · simp only [append, List.mem_append, List.mem_singleton, hne, or_false] at hmem
          exact h.marked id l' hold hmem }

/-- A failed submission leaves the rows as they were, and its instance QUEUED in memory. -/
theorem Sound.failure (h : s.Sound db caller ids) (hl : s.found l.notification.id = some l)
    (hstatus : l.notification.status ≠ .queued) :
    ({ s with
        found := Function.update s.found l.notification.id (some l.mark)
        failed := s.failed ++ [l.notification.id] }.append
      (notificationQueueUnavailable l.notification.id)).Sound db caller
        (ids ++ [l.notification.id]) := by
  obtain ⟨hqueued, -⟩ := h.fresh hl hstatus
  exact
    { entries := entriesFor_append h.entries (notificationQueueUnavailable l.notification.id)
      nodup := h.nodup
      tasks := h.tasks
      rows := h.rows
      visible := h.visible
      refused := fun id => by
        rw [append_failed, append_errors, List.mem_append, List.mem_append, h.refused]
        simp [notificationQueueUnavailable, QueueResult.queuedId]
      apart := fun id hid => by
        rcases List.mem_append.mp hid with hid | hid
        · exact h.apart id hid
        · rw [List.mem_singleton.mp hid]
          exact hqueued
      ids := fun id l' hl' => (h.mark_cases hl hl').1
      instances := fun id l' hl' => (h.mark_cases hl hl').2.1
      marked := fun id l' hl' hmem => by
        obtain ⟨-, -, ⟨-, hmarked⟩ | ⟨hne, hold⟩⟩ := h.mark_cases hl hl'
        · exact hmarked
        · simp only [notificationQueueUnavailable, append, List.mem_append, List.mem_singleton,
            hne, or_false] at hmem
          exact h.marked id l' hold hmem }

end Turn

/-- One turn keeps the invariant, whatever the environment answers. -/
theorem Sound.turn {ids : List ℕ} {s : BulkRun} (h : s.Sound db caller ids)
    (ownerFilter : Option Caller) (nid : ℕ) (m : QueueMoment) :
    (s.turn ownerFilter nid m).Sound db caller (ids ++ [nid]) := by
  unfold BulkRun.turn
  cases hfound : s.found nid with
  | none => exact h.unknown nid
  | some l =>
    have hid : l.notification.id = nid := h.ids nid l hfound
    subst hid
    have hattempted := tryQueueNotification_attempted s.db ownerFilter m l
    dsimp only
    generalize tryQueueNotification s.db ownerFilter m l = a at hattempted ⊢
    cases hattempted with
    | refused code detail hcode =>
      have hsame : Function.update s.found l.notification.id (some l) = s.found := by
        rw [← hfound, Function.update_eq_self]
      simpa only [hsame, List.append_nil] using h.refusal hcode
    | queued hstatus => simpa only [List.append_nil] using h.success hfound hstatus
    | unavailable hstatus => simpa only [List.append_nil] using h.failure hfound hstatus

/-- The whole loop keeps the invariant. -/
theorem Sound.turns {ids : List ℕ} {s : BulkRun} (h : s.Sound db caller ids)
    (ownerFilter : Option Caller) (moments : ℕ → QueueMoment) (todo : List (ℕ × ℕ)) :
    (todo.foldl (fun s (nid, i) => s.turn ownerFilter nid (moments i)) s).Sound db caller
      (ids ++ todo.map Prod.fst) := by
  induction todo generalizing ids s with
  | nil => simpa using h
  | cons turn todo ih =>
    have hstep := ih (h.turn ownerFilter turn.1 (moments turn.2))
    rwa [List.append_assoc] at hstep

theorem Sound.accounts {ids : List ℕ} {s : BulkRun} (h : s.Sound db caller ids) :
    AccountsFor db caller ids s.queued s.errors s.db s.submitted s.failed where
  entries := h.entries
  nodup := h.nodup
  tasks := h.tasks
  rows := h.rows
  visible := h.visible
  hidden := fun id hid => by
    have hnot : id ∉ s.queued := fun hmem => hid (h.visible id hmem)
    exact ⟨hnot, h.rows ▸ db.queueAll_get?_of_not_mem hnot⟩
  refused := h.refused
  restored := fun id hid =>
    ⟨h.apart id hid, h.rows ▸ db.queueAll_get?_of_not_mem (h.apart id hid)⟩

end BulkRun

theorem bulkQueue_sound (rowLocking : Bool) (caller : Caller) (moments : ℕ → QueueMoment)
    (db : Db) (ids : List ℕ) :
    (bulkQueue rowLocking caller moments db ids).Sound db caller ids := by
  have hsound := (BulkRun.sound_start db caller ids).turns
    (if rowLocking then none else some caller) moments ids.zipIdx
  rwa [List.nil_append, List.zipIdx_map_fst] at hsound

/-! ### The endpoints -/

/-- What a bulk request owes: a refusal touches nothing and is due to the subscription or to the
list itself, and an accepted list is accounted for. -/
def BulkPost.Accounts (db : Db) (caller : Caller) (paid : Bool) (payload : List ℤ)
    (post : BulkPost) : Prop :=
  match post.answer with
  | .error answer =>
    (answer = subscriptionRequired ∧ paid = false ∨
      ∃ errors, answer = .invalid errors ∧ bulkSendIdsField payload = .error errors) ∧
    post.db = db ∧ post.submitted = []
  | .ok (queued, errors) =>
    ∃ ids : List ℕ, payload = ids.map Int.ofNat ∧
      AccountsFor db caller ids queued errors post.db post.submitted post.failed

/-- The serializer keeps the ids it accepts. -/
theorem bulkSendIdsField_eq_ok {payload : List ℤ} {ids : List ℕ}
    (h : bulkSendIdsField payload = .ok ids) : payload = ids.map Int.ofNat := by
  unfold bulkSendIdsField at h
  dsimp only at h
  split_ifs at h with hempty hsmall hlong
  obtain rfl := Except.ok.inj h
  rw [List.map_map]
  conv_lhs => rw [← List.map_id payload]
  refine List.map_congr_left fun nid hid => ?_
  obtain ⟨i, hi⟩ := List.mem_iff_getElem?.mp hid
  have hpos := List.filter_eq_nil_iff.mp (not_not.mp hsmall) (nid, i)
    (List.mem_zipIdx_iff_getElem?.mpr hi)
  simp only [decide_eq_true_eq, not_lt] at hpos
  have hnonneg : 0 ≤ nid := by omega
  exact (Int.toNat_of_nonneg hnonneg).symm

theorem bulkPost_accounts (rowLocking paid : Bool) (caller : Caller) (moments : ℕ → QueueMoment)
    (db : Db) (payload : List ℤ) :
    (bulkPost rowLocking paid caller moments db payload).Accounts db caller paid payload := by
  unfold bulkPost BulkPost.Accounts
  cases paid with
  | false => exact ⟨Or.inl ⟨rfl, rfl⟩, rfl, rfl⟩
  | true =>
    simp only [Bool.not_true, Bool.false_eq_true, if_false]
    cases hids : bulkSendIdsField payload with
    | error errors => exact ⟨Or.inr ⟨errors, rfl, rfl⟩, rfl, rfl⟩
    | ok ids =>
      exact ⟨ids, bulkSendIdsField_eq_ok hids,
        (bulkQueue_sound rowLocking caller moments db ids).accounts⟩

/-- The loop accounts for every id of every list, and both endpoints answer with the loop unless
they refuse the request as a whole. -/
theorem bulk_send_accounts_for_every_id (rowLocking : Bool) (paid : ℕ → Bool)
    (moments : ℕ → QueueMoment) (db : Db) :
    (∀ caller ids,
      let s := bulkQueue rowLocking caller moments db ids
      AccountsFor db caller ids s.queued s.errors s.db s.submitted s.failed) ∧
    (∀ user payload,
      (notificationBulkSend rowLocking paid moments db user payload).Accounts db (.user user)
        (paid user) payload) ∧
    (∀ application payload,
      (notificationBulkSendWithAppToken rowLocking paid moments db application payload).Accounts
        db (.application application.id) (paid application.ownerId) payload) :=
  ⟨fun caller ids => (bulkQueue_sound rowLocking caller moments db ids).accounts,
    fun user payload =>
      bulkPost_accounts rowLocking (paid user) (.user user) moments db payload,
    fun application payload =>
      bulkPost_accounts rowLocking (paid application.ownerId) (.application application.id)
        moments db payload⟩

/-- A repeated id whose first submission failed is not tried again: its instance stays QUEUED. -/
example :
    let db : Db :=
      { applications := Table.empty.insert (fun id => { id, ownerId := 1 }) fun _ => rfl
        notifications := Table.empty.insert (fun id => { id, applicationId := 1 }) fun _ => rfl }
    let s := bulkQueue true (.user 1) (fun i => { now := 0, input := { brokerUp := i != 0 } }) db
      [1, 1, 2]
    s.queued = [] ∧ s.failed = [1] ∧
      s.errors = [notificationQueueUnavailable 1, notificationNotSendable 1 .queued,
        notificationNotFound 2] := by
  decide

/-! ### The request process, alone -/

/-- A request process on the table, when nothing else runs. -/
structure RequestAlone where
  notifications : Table Notification
  request : QueueRequest
  submitted : List SendTask := []

/-- The next statement of the request. -/
inductive RequestAlone.Step (c : RequestAlone) : RequestAlone → Prop
  | statement (now : Instant) (input : TaskInput) (request : QueueRequest)
      (hnext : (c.request.advance now c.notifications input).next = some request) :
      Step c
        { notifications := (c.request.advance now c.notifications input).notifications
          request
          submitted := c.submitted ++ (c.request.advance now c.notifications input).submitted }

namespace RequestAlone

section Statements

variable {T T' : Table Notification} {r r' : QueueRequest} {submitted : List SendTask} {id : ℕ}
  {status : QueueableStatus} (m : QueueMoment)

theorem step_of_goto (events : List Event) {tasks : List SendTask}
    (h : r.advance m.now T m.input = r'.goto T' tasks events) :
    Step ⟨T, r, submitted⟩ ⟨T', r', submitted ++ tasks⟩ := by
  have hnext : (r.advance m.now T m.input).next = some r' := by rw [h]; rfl
  have hstep := Step.statement (c := ⟨T, r, submitted⟩) m.now m.input r' hnext
  rwa [h] at hstep

theorem step_of_goto_nil (events : List Event)
    (h : r.advance m.now T m.input = r'.goto T' [] events) :
    Step ⟨T, r, submitted⟩ ⟨T', r', submitted⟩ := by
  simpa only [List.append_nil] using step_of_goto m events h

theorem step_queued (hr : r.stage = .updating id status) (hfails : ¬m.input.updateFails = true)
    (hget : ((T.get? id).any fun n => n.status == status.val) = true) :
    Step ⟨T, r, submitted⟩
      ⟨T.modify id queueNotification pk_queueNotification,
        { r.markFound id with stage := .submitting id status }, submitted⟩ :=
  step_of_goto_nil m [.queued id .client m.now]
    (by simp only [QueueRequest.advance, hr, if_neg hfails, if_pos hget])

theorem step_submitted (hr : r.stage = .submitting id status) (hup : m.input.brokerUp = true) :
    Step ⟨T, r, submitted⟩ ⟨T, r.answered (.queued id), submitted ++ [⟨id, .client⟩]⟩ :=
  step_of_goto m [] (by simp only [QueueRequest.advance, hr, if_pos hup])

theorem step_notSubmitted (hr : r.stage = .submitting id status)
    (hdown : ¬m.input.brokerUp = true) :
    Step ⟨T, r, submitted⟩ ⟨T, { r with stage := .rollingBack id status }, submitted⟩ :=
  step_of_goto_nil m [] (by simp only [QueueRequest.advance, hr, if_neg hdown])

include m in
theorem step_rolledBack (hr : r.stage = .rollingBack id status) :
    Step ⟨T, r, submitted⟩
      ⟨T.update (fun n => n.id == id && n.status == .queued) (restoreStatus status.val)
          (pk_restoreStatus status.val),
        r.answered (notificationQueueUnavailable id), submitted⟩ :=
  step_of_goto_nil m [] (by simp only [QueueRequest.advance, hr])

theorem step_conflict (hr : r.stage = .updating id status)
    (hfails : ¬m.input.updateFails = true)
    (hget : ¬((T.get? id).any fun n => n.status == status.val) = true) :
    Step ⟨T, r, submitted⟩ ⟨T, { r with stage := .conflicting id }, submitted⟩ :=
  step_of_goto_nil m [] (by simp only [QueueRequest.advance, hr, if_neg hfails, if_neg hget])

end Statements

end RequestAlone

/-- Between two ids the loop and the process hold the same. -/
structure BulkRun.Matches (s : BulkRun) (todo : List ℕ) (c : RequestAlone) : Prop where
  notifications : c.notifications = s.db.notifications
  submitted : c.submitted = s.submitted
  stage : c.request.stage = .choosing
  todo : c.request.todo = todo
  found : ∀ id, c.request.lookup id = s.found id
  queued : s.queued = c.request.results.filterMap QueueResult.queuedId
  errors : s.errors = c.request.results.filter fun e => e.queuedId.isNone

theorem QueueRequest.lookup_markFound_eq (r : QueueRequest) (id : ℕ) :
    (r.markFound id).lookup =
      Function.update r.lookup id ((r.lookup id).map LoadedNotification.mark) := by
  funext j
  have hkeeps : ∀ l : LoadedNotification, (if l.notification.id = id then
      ⟨queueNotification l.notification, l.applicationIsActive⟩ else l).notification.id =
        l.notification.id := by
    intro l
    split <;> rfl
  have hmap : (r.markFound id).lookup j = (r.lookup j).map fun l =>
      if l.notification.id = id then
        ⟨queueNotification l.notification, l.applicationIsActive⟩ else l := by
    simp only [lookup, markFound, List.find?_map, Function.comp_def, hkeeps]
  rw [hmap]
  by_cases hj : j = id
  · subst hj
    rw [Function.update_self]
    refine Option.map_congr fun l hl => ?_
    have hid : l.notification.id = j := by simpa using List.find?_some hl
    rw [if_pos hid, LoadedNotification.mark]
  · rw [Function.update_of_ne hj]
    cases hl : r.lookup j with
    | none => rfl
    | some l =>
      have hid : l.notification.id = j := by simpa using List.find?_some hl
      rw [Option.map_some, if_neg (hid ▸ hj)]

namespace BulkRun

variable {db : Db} {caller : Caller} {ids : List ℕ} {s : BulkRun}

/-- The row of an instance belongs to the caller, so that the owner filter of the UPDATE changes
nothing. -/
theorem Sound.any_queueFilter (h : s.Sound db caller ids) {ownerFilter : Option Caller}
    (hfilter : ∀ c ∈ ownerFilter, c = caller) {id : ℕ} {l : LoadedNotification}
    (hl : s.found id = some l) (status : NotificationStatus) :
    s.db.notifications.rows.any (queueFilter s.db ownerFilter id status) =
      (s.db.notifications.get? id).any fun n => n.status == status := by
  rw [Bool.eq_iff_iff, List.any_eq_true, Option.any_eq_true]
  simp only [queueFilter, Bool.and_eq_true, beq_iff_eq]
  constructor
  · rintro ⟨n, hn, ⟨⟨hid, hstatus⟩, -⟩⟩
    exact ⟨n, Table.get?_eq_some.mpr ⟨hn, hid⟩, hstatus⟩
  · rintro ⟨n, hget, hstatus⟩
    obtain ⟨hn, hid⟩ := Table.get?_eq_some.mp hget
    refine ⟨n, hn, ⟨⟨hid, hstatus⟩, ?_⟩⟩
    obtain ⟨m, hm, -, howns⟩ := h.instances id l hl
    -- the application of the row and its owner are those of the start
    have happlication : n.applicationId = m.applicationId ∧
        s.db.applications = db.applications := by
      rw [h.rows, Db.queueAll, Table.get?_update, hm, Option.map_some] at hget
      obtain rfl := Option.some.inj hget
      refine ⟨?_, by rw [h.rows, Db.queueAll]⟩
      split <;> rfl
    have howner : caller.owns s.db n = caller.owns db m := by
      cases caller <;>
        simp only [Caller.owns, Db.applicationOwner, happlication.1, happlication.2]
    cases ownerFilter with
    | none => rfl
    | some c =>
      rw [Option.all_some, hfilter c rfl, howner, howns]

/-- The process answers an id as the loop does. -/
theorem Matches.answered {todo : List ℕ} {c : RequestAlone} (h : s.Matches todo c)
    (s' : BulkRun) (r : QueueRequest) {notifications : Table Notification}
    {submitted : List SendTask} (hnotifications : notifications = s'.db.notifications)
    (hsubmitted : submitted = s'.submitted) (hqueued : s'.queued = s.queued)
    (herrors : s'.errors = s.errors) (hresults : r.results = c.request.results)
    (hfound : ∀ id, r.lookup id = s'.found id) (result : QueueResult) :
    (s'.append result).Matches r.todo ⟨notifications, r.answered result, submitted⟩ where
  notifications := by rw [append_db, hnotifications]
  submitted := by rw [append_submitted, hsubmitted]
  stage := rfl
  todo := rfl
  found := fun id => by rw [append_found, ← hfound]; rfl
  queued := by
    rw [append_queued, hqueued, h.queued, QueueRequest.answered, hresults,
      List.filterMap_append]
    cases result <;> rfl
  errors := by
    rw [append_errors, herrors, h.errors, QueueRequest.answered, hresults, List.filter_append]

section Turn

variable {r : QueueRequest} {todo : List ℕ} {nid : ℕ} {l : LoadedNotification}
  {ownerFilter : Option Caller}

/-- An answer that leaves the rows and the instances as they are. -/
theorem Matches.answered_unchanged
    (h : s.Matches (nid :: todo) ⟨s.db.notifications, r, s.submitted⟩) (stage : QueueStage)
    (result : QueueResult) :
    (s.append result).Matches todo
      ⟨s.db.notifications, ({ r with todo, stage } : QueueRequest).answered result,
        s.submitted⟩ :=
  h.answered s { r with todo, stage } rfl rfl rfl rfl rfl h.found result

/-- The instances of the process once the one of an id is marked QUEUED. -/
theorem Matches.lookup_mark
    (h : s.Matches (nid :: todo) ⟨s.db.notifications, r, s.submitted⟩)
    (hl : s.found nid = some l) (id : ℕ) :
    (({ r with todo } : QueueRequest).markFound nid).lookup id =
      Function.update s.found nid (some l.mark) id := by
  have hfound : ({ r with todo } : QueueRequest).lookup = s.found := funext h.found
  rw [QueueRequest.lookup_markFound_eq, hfound, hl, Option.map_some]

/-- An instance that passes the check: the UPDATE is tried next. -/
theorem Matches.turn_checked (m : QueueMoment)
    (h : s.Matches (l.notification.id :: todo) ⟨s.db.notifications, r, s.submitted⟩)
    (hs : s.Sound db caller ids) (hfilter : ∀ c ∈ ownerFilter, c = caller)
    (hl : s.found l.notification.id = some l) {status : QueueableStatus}
    (hcheck : queueCheck m.now l = .ok status) {c : RequestAlone}
    (hc : Relation.ReflTransGen RequestAlone.Step c
      ⟨s.db.notifications, { r with todo, stage := .updating l.notification.id status },
        s.submitted⟩) :
    ∃ c', Relation.ReflTransGen RequestAlone.Step c c' ∧
      (s.turn ownerFilter l.notification.id m).Matches todo c' := by
  have hsame : Function.update s.found l.notification.id (some l) = s.found := by
    rw [← hl, Function.update_eq_self]
  have hget := hs.any_queueFilter hfilter hl status.val
  simp only [BulkRun.turn, hl, tryQueueNotification, hcheck]
  by_cases hfails : m.input.updateFails = true
  · refine ⟨_, hc.tail (RequestAlone.step_of_goto_nil m []
      (by simp only [QueueRequest.advance, if_pos hfails]; rfl)), ?_⟩
    simp only [if_pos hfails, hsame, List.append_nil]
    exact h.answered_unchanged (.updating l.notification.id status)
      (notificationNotSendable l.notification.id status.val)
  rw [if_neg hfails]
  by_cases hany : (s.db.notifications.rows.any
      (queueFilter s.db ownerFilter l.notification.id status.val)) = true
  · rw [if_pos hany]
    rw [hany] at hget
    have hqueued := hc.tail (RequestAlone.step_queued m rfl hfails hget.symm)
    by_cases hup : m.input.brokerUp = true
    · refine ⟨_, hqueued.tail (RequestAlone.step_submitted m rfl hup), ?_⟩
      simp only [if_pos hup, List.append_nil]
      refine h.answered _
        { ({ r with todo } : QueueRequest).markFound l.notification.id with
          stage := .submitting l.notification.id status }
        ?_ ?_ ?_ ?_ rfl ?_ (.queued l.notification.id)
      exacts [modify_eq_update_queueFilter hany, rfl, rfl, rfl, h.lookup_mark hl]
    · refine ⟨_, (hqueued.tail (RequestAlone.step_notSubmitted m rfl hup)).tail
        (RequestAlone.step_rolledBack m rfl), ?_⟩
      simp only [if_neg hup, List.append_nil, modify_eq_update_queueFilter hany]
      refine h.answered _
        { ({ r with todo } : QueueRequest).markFound l.notification.id with
          stage := .rollingBack l.notification.id status }
        ?_ ?_ ?_ ?_ rfl ?_ (notificationQueueUnavailable l.notification.id)
      exacts [rfl, rfl, rfl, rfl, h.lookup_mark hl]
  · -- only a concurrent writer brings a request here
    rw [if_neg hany]
    rw [Bool.eq_false_iff.mpr hany] at hget
    have hconflict := hc.tail (RequestAlone.step_conflict m rfl hfails
      (by rw [← hget]; exact Bool.false_ne_true))
    cases hrow : s.db.notifications.get? l.notification.id with
    | none =>
      refine ⟨_, hconflict.tail (RequestAlone.step_of_goto_nil m []
        (by simp only [QueueRequest.advance, hrow]; rfl)), ?_⟩
      simp only [hsame, List.append_nil]
      exact h.answered_unchanged (.conflicting l.notification.id)
        (notificationNotFound l.notification.id)
    | some n =>
      refine ⟨_, hconflict.tail (RequestAlone.step_of_goto_nil m []
        (by simp only [QueueRequest.advance, hrow]; rfl)), ?_⟩
      simp only [hsame, List.append_nil]
      exact h.answered_unchanged (.conflicting l.notification.id)
        (notificationNotSendable l.notification.id n.status)

/-- The statements of the process for one id make one turn of the loop. -/
theorem Matches.turn {c : RequestAlone} (h : s.Matches (nid :: todo) c)
    (hs : s.Sound db caller ids) (hfilter : ∀ c ∈ ownerFilter, c = caller) (m : QueueMoment) :
    ∃ c', Relation.ReflTransGen RequestAlone.Step c c' ∧
      (s.turn ownerFilter nid m).Matches todo c' := by
  obtain ⟨T, r, submitted⟩ := c
  obtain rfl : T = s.db.notifications := h.notifications
  obtain rfl : submitted = s.submitted := h.submitted
  have hstage : r.stage = .choosing := h.stage
  have htodo : r.todo = nid :: todo := h.todo
  have hlookup : r.lookup nid = s.found nid := h.found nid
  cases hl : s.found nid with
  | none =>
    simp only [BulkRun.turn, hl]
    refine ⟨_, .single (RequestAlone.step_of_goto_nil m []
      (by simp only [QueueRequest.advance, hstage, htodo, hlookup, hl]; rfl)), ?_⟩
    exact h.answered_unchanged r.stage (notificationNotFound nid)
  | some l =>
    obtain rfl : l.notification.id = nid := hs.ids nid l hl
    cases hcheck : queueCheck m.now l with
    | error result =>
      have hsame : Function.update s.found l.notification.id (some l) = s.found := by
        rw [← hl, Function.update_eq_self]
      simp only [BulkRun.turn, hl, tryQueueNotification, hcheck, hsame, List.append_nil]
      refine ⟨_, .single (RequestAlone.step_of_goto_nil m []
        (by simp only [QueueRequest.advance, hstage, htodo, hlookup, hl, hcheck]; rfl)), ?_⟩
      exact h.answered_unchanged r.stage result
    | ok status =>
      exact h.turn_checked m hs hfilter hl hcheck (.single (RequestAlone.step_of_goto_nil m []
        (by simp only [QueueRequest.advance, hstage, htodo, hlookup, hl, hcheck])))

end Turn

/-- The statements of the process for all the ids that are left make the rest of the loop. -/
theorem Matches.turns {c : RequestAlone} {todo : List (ℕ × ℕ)}
    (h : s.Matches (todo.map Prod.fst) c) (hs : s.Sound db caller ids)
    {ownerFilter : Option Caller} (hfilter : ∀ c ∈ ownerFilter, c = caller)
    (moments : ℕ → QueueMoment) :
    ∃ c', Relation.ReflTransGen RequestAlone.Step c c' ∧
      (todo.foldl (fun s (nid, i) => s.turn ownerFilter nid (moments i)) s).Matches [] c' := by
  induction todo generalizing ids s c with
  | nil => exact ⟨c, .refl, h⟩
  | cons t todo ih =>
    obtain ⟨c₁, hfirst, hmatches⟩ := Matches.turn h hs hfilter (moments t.2)
    obtain ⟨c₂, hrest, hend⟩ := ih hmatches (hs.turn ownerFilter t.1 (moments t.2))
    exact ⟨c₂, hfirst.trans hrest, hend⟩

end BulkRun

/-- The loop is a run of the request process with nothing in between: it ends between two ids with
none left, with the table, the tasks and the entries of the loop. -/
theorem bulkQueue_refines (rowLocking : Bool) (caller : Caller) (moments : ℕ → QueueMoment)
    (db : Db) (ids : List ℕ) :
    ∃ c, Relation.ReflTransGen RequestAlone.Step
        ⟨db.notifications, { found := fetchNotifications db caller ids, todo := ids }, []⟩ c ∧
      (bulkQueue rowLocking caller moments db ids).Matches [] c := by
  have hfilter : ∀ c ∈ (if rowLocking then none else some caller), c = caller := by
    cases rowLocking <;> simp
  refine BulkRun.Matches.turns ?_ (BulkRun.sound_start db caller ids) hfilter moments
  exact
    { notifications := rfl
      submitted := rfl
      stage := rfl
      todo := (List.zipIdx_map_fst _ _).symm
      found := fun _ => rfl
      queued := rfl
      errors := rfl }

end PushIT
