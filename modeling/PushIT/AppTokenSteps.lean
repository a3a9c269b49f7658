import PushIT.AppToken
import PushIT.NotificationSteps
import PushIT.Sending

/-!
# What the app-token endpoints do

The inversion of the statements of a creation call and of the actions of the system, and where
the notification rows after an action come from.

## Main definitions

* `CreationCall.Advances`, `Api.Steps`: the branches with their effects.
* `Api.RowFrom`: a row was there before, or it is new.

## Main results

* `CreationCall.advance_cases`, `Api.step_cases`: nothing else happens.
* `Api.Steps.row`: no action touches the application, the key or the fingerprint of a row.
-/

namespace PushIT

open Relational Transition

/-! ### Steps of a call -/

/-- A call inserts its row, loses to a stored one, or ends after the second look. -/
inductive CreationCall.Advances (now : Instant) (db : Db) (c : CreationCall) :
    CreationStage → CreationStep → Prop
  | inserted (happlication : (db.applications.get? c.applicationId).isSome)
      (hfree : c.idempotencyKey = "" ∨ ∀ n ∈ db.notifications.rows, c.matches_ n = false) :
      Advances now db c .inserting ⟨c.insert now db, .error (.returned
        ⟨c.newNotification now (db.notifications.seq + 1), true, false⟩)⟩
  | lost (hkey : c.idempotencyKey ≠ "")
      (h : (db.applications.get? c.applicationId).isSome →
        ∃ n ∈ db.notifications.rows, c.matches_ n = true) :
      Advances now db c .inserting ⟨db, .ok .reading⟩
  | broken (hkey : c.idempotencyKey = "") (h : (db.applications.get? c.applicationId).isNone) :
      Advances now db c .inserting ⟨db, .error .raised⟩
  | missing (h : ∀ n ∈ db.notifications.rows, c.matches_ n = false) :
      Advances now db c .reading ⟨db, .error .raised⟩
  | found (n : Notification) (hn : c.find db.notifications = some n) :
      Advances now db c .reading ⟨db, .error (.returned
        ⟨n, false, n.requestFingerprint != c.requestFingerprint⟩)⟩

theorem CreationCall.find_eq_none {c : CreationCall} {T : Table Notification}
    (h : c.find T = none) : ∀ n ∈ T.rows, c.matches_ n = false := fun n hn => by
  simpa using List.find?_eq_none.mp h n hn

theorem CreationCall.find_eq_some {c : CreationCall} {T : Table Notification} {n : Notification}
    (h : c.find T = some n) : n ∈ T.rows ∧ c.matches_ n = true :=
  ⟨List.mem_of_find?_eq_some h, List.find?_some h⟩

theorem CreationCall.advance_cases (now : Instant) (db : Db) (c : CreationCall)
    (stage : CreationStage) : Advances now db c stage (c.advance now db stage) := by
  cases stage with
  | inserting =>
    simp only [advance]
    split
    · next hviolates =>
      simp only [violates, Bool.or_eq_true, Bool.and_eq_true, bne_iff_ne] at hviolates
      by_cases hkey : c.idempotencyKey = ""
      · rw [if_pos hkey]
        exact .broken hkey (by simpa [hkey] using hviolates)
      · rw [if_neg hkey]
        refine .lost hkey fun happlication => ?_
        rcases hviolates with hnone | ⟨-, hfound⟩
        · simp [Option.isNone_iff_eq_none.mp hnone] at happlication
        · obtain ⟨n, hn⟩ := Option.isSome_iff_exists.mp hfound
          exact ⟨n, find_eq_some hn⟩
    · next hviolates =>
      simp only [violates, Bool.or_eq_true, Bool.and_eq_true, bne_iff_ne, not_or, not_and]
        at hviolates
      obtain ⟨happlication, hfree⟩ := hviolates
      refine .inserted (by simpa [Option.isSome_iff_ne_none] using happlication) ?_
      by_cases hkey : c.idempotencyKey = ""
      · exact Or.inl hkey
      · exact Or.inr (find_eq_none (by simpa using hfree hkey))
  | reading =>
    simp only [advance]
    split
    · next hnone => exact .missing (find_eq_none hnone)
    · next n hn => exact .found n hn

/-! ### Steps of the queueing -/

/-- A send request changes nothing but the status of notifications. -/
theorem QueueRequest.advance_notifications (now : Instant) (T : Table Notification)
    (input : TaskInput) (r : QueueRequest) :
    (r.advance now T input).notifications = T ∨
      ∃ q status, (r.advance now T input).notifications =
        T.update q (restoreStatus status) (pk_restoreStatus status) := by
  obtain ⟨s, hs, heq⟩ := Process.advance_moves now input { notifications := T }
    (p := .queue r) rfl
  have hnotifications : (r.advance now T input).notifications = s.notifications :=
    congrArg (fun o : Outcome => o.db.notifications) heq
  rw [hnotifications]
  cases hs with
  | queued _ id => exact Or.inr ⟨_, .queued, rfl⟩
  | queueRolledBack _ id status => exact Or.inr ⟨_, status.val, rfl⟩
  | _ => exact Or.inl rfl

/-! ### Steps of the system -/

/-- The call under way and its next statement. -/
def ApiProcess.creation : ApiProcess → Option (CreationCall × CreationStage)
  | creating q stage => some (q.call, stage)
  | ingesting c stage => some (c, stage)
  | queueing _ _ _ _ => none

/-- The process whose call lost the race. -/
def ApiProcess.looksAgain : ApiProcess → ApiProcess
  | creating q _ => creating q .reading
  | ingesting c _ => ingesting c .reading
  | queueing q id run decided => queueing q id run decided

theorem ApiProcess.creation_looksAgain {p : ApiProcess} {c : CreationCall} {stage : CreationStage}
    (h : p.creation = some (c, stage)) : p.looksAgain.creation = some (c, .reading) := by
  cases p with
  | queueing => simp [creation] at h
  | _ =>
    obtain ⟨rfl, -⟩ := Prod.mk.inj (Option.some.inj h)
    rfl

/-- What the actions do. -/
inductive Api.Steps (cfg : ApiConfig) (s : Api) : ApiAction → Api → Prop
  | server (a : Action) (w : World) (h : s.world.step cfg.settings a = some w) :
      Steps cfg s (.server a)
        { s with world := w, submitted := newlySubmitted s.world w ++ s.submitted }
  | editTemplates (templates : Table NotificationTemplate) :
      Steps cfg s (.editTemplates templates) { s with templates }
  | subscribe (user : ℕ) (paid : Bool) :
      Steps cfg s (.subscribe user paid)
        { s with paid := fun u => if u = user then paid else s.paid u }
  | refused (rid : ℕ) (r : AppTokenRequest) (answer : AppTokenAnswer)
      (hrid : s.processes rid = none)
      (h : r.begin cfg s.world.clock s.world.db s.templates s.paid = .error answer) :
      Steps cfg s (.request rid r) (s.answered rid { request := r, answer })
  | accepted (rid : ℕ) (r : AppTokenRequest) (q : AcceptedRequest)
      (hrid : s.processes rid = none)
      (h : r.begin cfg s.world.clock s.world.db s.templates s.paid = .ok q) :
      Steps cfg s (.request rid r) (s.setProcess rid (some (.creating q .inserting)))
  | ingests (rid : ℕ) (c : CreationCall) (hrid : s.processes rid = none) :
      Steps cfg s (.ingest rid c) (s.setProcess rid (some (.ingesting c .inserting)))
  | proceeds (rid : ℕ) (input : TaskInput) (p : ApiProcess) (c : CreationCall)
      (hp : s.processes rid = some p) (hc : p.creation = some (c, .inserting))
      (hkey : c.idempotencyKey ≠ "")
      (hlost : (s.world.db.applications.get? c.applicationId).isSome →
        ∃ n ∈ s.world.db.notifications.rows, c.matches_ n = true) :
      Steps cfg s (.advance rid input) (s.setProcess rid (some p.looksAgain))
  | created (rid : ℕ) (input : TaskInput) (q : AcceptedRequest) (stage : CreationStage) (db : Db)
      (result : CreationResult) (hp : s.processes rid = some (.creating q stage))
      (h : q.call.Advances s.world.clock s.world.db stage ⟨db, .error result⟩) :
      Steps cfg s (.advance rid input)
        (((s.setDb db).recorded q.call result).afterCreation cfg rid q result)
  | ingested (rid : ℕ) (input : TaskInput) (c : CreationCall) (stage : CreationStage) (db : Db)
      (result : CreationResult) (hp : s.processes rid = some (.ingesting c stage))
      (h : c.Advances s.world.clock s.world.db stage ⟨db, .error result⟩) :
      Steps cfg s (.advance rid input) (((s.setDb db).recorded c result).setProcess rid none)
  | queueing (rid : ℕ) (input : TaskInput) (q : AcceptedRequest) (id : ℕ) (run : QueueRequest)
      (decided : Option NotificationStatus)
      (hp : s.processes rid = some (.queueing q id run decided)) :
      Steps cfg s (.advance rid input) (s.queueStep cfg rid q id run decided input)

/-- Every step is one of `Api.Steps`. -/
theorem Api.step_cases {cfg : ApiConfig} {s s' : Api} {a : ApiAction}
    (h : s.step cfg a = some s') : Steps cfg s a s' := by
  cases a with
  | server a =>
    obtain ⟨w, hw, rfl⟩ := Option.map_eq_some_iff.mp h
    exact .server a w hw
  | editTemplates templates =>
    obtain rfl := Option.some.inj h
    exact .editTemplates templates
  | subscribe user paid =>
    obtain rfl := Option.some.inj h
    exact .subscribe user paid
  | request rid r =>
    simp only [step] at h
    split at h
    · next hrid =>
      have hrid : s.processes rid = none := by simpa using hrid
      split at h
      · next answer hbegin =>
        obtain rfl := Option.some.inj h
        exact .refused rid r answer hrid hbegin
      · next q hbegin =>
        obtain rfl := Option.some.inj h
        exact .accepted rid r q hrid hbegin
    · simp at h
  | ingest rid c =>
    simp only [step] at h
    split at h
    · next hrid =>
      obtain rfl := Option.some.inj h
      exact .ingests rid c (by simpa using hrid)
    · simp at h
  | advance rid input =>
    obtain ⟨p, hp, rfl⟩ := Option.map_eq_some_iff.mp h
    cases p with
    | creating q stage =>
      have hcall := q.call.advance_cases s.world.clock s.world.db stage
      simp only [advance]
      generalize q.call.advance s.world.clock s.world.db stage = step at hcall
      cases hcall with
      | lost hkey hlost =>
        exact .proceeds rid input _ q.call hp rfl hkey hlost
      | inserted happlication hfree =>
        exact .created rid input q _ _ _ hp (.inserted happlication hfree)
      | broken hkey hnone => exact .created rid input q _ _ _ hp (.broken hkey hnone)
      | missing hnone => exact .created rid input q _ _ _ hp (.missing hnone)
      | found n hn => exact .created rid input q _ _ _ hp (.found n hn)
    | ingesting c stage =>
      have hcall := c.advance_cases s.world.clock s.world.db stage
      simp only [advance]
      generalize c.advance s.world.clock s.world.db stage = step at hcall
      cases hcall with
      | lost hkey hlost =>
        exact .proceeds rid input _ c hp rfl hkey hlost
      | inserted happlication hfree =>
        exact .ingested rid input c _ _ _ hp (.inserted happlication hfree)
      | broken hkey hnone => exact .ingested rid input c _ _ _ hp (.broken hkey hnone)
      | missing hnone => exact .ingested rid input c _ _ _ hp (.missing hnone)
      | found n hn => exact .ingested rid input c _ _ _ hp (.found n hn)
    | queueing q id run decided => exact .queueing rid input q id run decided hp

/-! ### The part before the creation -/

namespace AppTokenRequest

variable {cfg : ApiConfig} {now : Instant} {db : Db} {templates : Table NotificationTemplate}
  {paid : ℕ → Bool} {r : AppTokenRequest}

/-- Before the creation a request gets no success. -/
theorem begin_error_ne {answer : AppTokenAnswer}
    (h : r.begin cfg now db templates paid = .error answer) (httpStatus : ℕ)
    (body : NotificationRead) : answer ≠ .notification httpStatus body := by
  rintro rfl
  unfold begin at h
  grind [appTokenInvalid, appTokenInactive, subscriptionRequired, sendsImmediately,
    idempotencyKeyMissing, idempotencyKeyInvalid]

/-- When a request comes to its creation, and with which call. -/
theorem begin_eq_ok {q : AcceptedRequest} :
    r.begin cfg now db templates paid = .ok q ↔
      ∃ a v, db.applications.get? r.applicationId = some a ∧ a.isActive = true ∧
        paid a.ownerId = true ∧
        r.payload.validate cfg.dates templates r.applicationId now = .ok v ∧
        (r.endpoint = .send → v.scheduledFor.join = none) ∧ strip r.idempotencyKey ≠ "" ∧
        (strip r.idempotencyKey).length ≤ idempotencyKeyMaxLength ∧
        q = ⟨r, a, v.creation cfg.sha256 cfg.dates.encode r.applicationId
          (strip r.idempotencyKey)⟩ := by
  unfold begin
  constructor
  · intro h
    cases ha : db.applications.get? r.applicationId with
    | none => simp [ha] at h
    | some a =>
      cases hv : r.payload.validate cfg.dates templates r.applicationId now with
      | error errors => grind
      | ok v => grind [Option.not_isSome_iff_eq_none]
  · rintro ⟨a, v, ha, hactive, hpaid, hv, hsend, hkey, hlength, rfl⟩
    have hsend' : ¬(r.endpoint = .send ∧ v.scheduledFor.join.isSome) := by
      rintro ⟨hendpoint, hsome⟩
      simp [hsend hendpoint] at hsome
    simp only [ha, hactive, hpaid, hv, Bool.not_true, Bool.false_eq_true, if_false, if_neg hsend',
      if_neg hkey, if_neg (Nat.not_lt.mpr hlength)]

end AppTokenRequest

/-! ### What the rest of a request leaves alone -/

namespace Api

variable (cfg : ApiConfig) (s : Api) (rid : ℕ) (q : AcceptedRequest)

/-- How a request goes on after its creation. -/
inductive Continues : CreationResult → Api → Prop
  | refused (result : CreationResult) (answer : AppTokenAnswer)
      (hanswer : ∀ httpStatus body, answer ≠ .notification httpStatus body) :
      Continues result (s.answered rid { request := q.request, answer })
  | queues (o : NotificationCreationOutcome) (hsend : q.request.endpoint = .send)
      (hcreated : o.created = true) :
      Continues (.returned o)
        (s.setProcess rid (some (.queueing q o.notification.id (sendRun o.notification) none)))
  | shows (o : NotificationCreationOutcome) (hconflict : o.conflict = false)
      (hquiet : q.request.endpoint = .send → o.created = false) :
      Continues (.returned o) (s.showCreated cfg rid q o)

theorem afterCreation_cases (result : CreationResult) :
    Continues cfg s rid q result (s.afterCreation cfg rid q result) := by
  cases result with
  | raised => exact .refused _ _ (by simp)
  | returned o =>
    simp only [afterCreation]
    split
    · exact .refused _ _ (by simp [idempotencyConflict])
    · next hconflict =>
      split
      · next hqueues => exact .queues o hqueues.1 hqueues.2
      · next hshows =>
        exact .shows o (by simpa using hconflict) fun hsend => by simpa [hsend] using hshows

/-- After the creation nothing is written, and the request makes no other call. -/
theorem afterCreation_frame (result : CreationResult) :
    (s.afterCreation cfg rid q result).world = s.world ∧
      (s.afterCreation cfg rid q result).outcomes = s.outcomes ∧
      (s.afterCreation cfg rid q result).submitted = s.submitted ∧
      ∃ p, (s.afterCreation cfg rid q result).processes = s.processes.set rid p ∧
        ∀ x, p = some x → x.creation = none := by
  have h := afterCreation_cases cfg s rid q result
  generalize s.afterCreation cfg rid q result = s' at h ⊢
  cases h with
  | queues =>
    refine ⟨rfl, rfl, rfl, _, rfl, fun x hx => ?_⟩
    obtain rfl := Option.some.inj hx
    rfl
  | _ => exact ⟨rfl, rfl, rfl, none, rfl, by simp⟩

/-- The queueing of a created notification makes no call. -/
theorem queueStep_frame (id : ℕ) (run : QueueRequest) (decided : Option NotificationStatus)
    (input : TaskInput) :
    (s.queueStep cfg rid q id run decided input).world.db =
        { s.world.db with
          notifications :=
            (run.advance s.world.clock s.world.db.notifications input).notifications } ∧
      (s.queueStep cfg rid q id run decided input).outcomes = s.outcomes ∧
      ∃ p, (s.queueStep cfg rid q id run decided input).processes = s.processes.set rid p ∧
        ∀ x, p = some x → x.creation = none := by
  simp only [queueStep]
  split
  · refine ⟨rfl, rfl, _, rfl, fun x hx => ?_⟩
    obtain rfl := Option.some.inj hx
    rfl
  · exact ⟨rfl, rfl, none, rfl, by simp⟩

end Api

/-! ### Where rows come from -/

/-- Nothing touched the columns that say where a notification comes from. -/
def Notification.SameOrigin (n n' : Notification) : Prop :=
  n'.id = n.id ∧ n'.applicationId = n.applicationId ∧ n'.idempotencyKey = n.idempotencyKey ∧
    n'.requestFingerprint = n.requestFingerprint

theorem Notification.SameOrigin.refl (n : Notification) : n.SameOrigin n := ⟨rfl, rfl, rfl, rfl⟩

/-- A row after an action was there before, is a new one without a key, or was inserted by a
call. -/
inductive Api.RowFrom (s s' : Api) (n' : Notification) : Prop
  | old (n : Notification) (hn : n ∈ s.world.db.notifications.rows) (h : n.SameOrigin n')
  | blank (hid : n'.id = s.world.db.notifications.seq + 1) (hkey : n'.idempotencyKey = "")
  | inserted (c : CreationCall)
      (h : n' = c.newNotification s.world.clock (s.world.db.notifications.seq + 1))
      (hfree : c.idempotencyKey = "" ∨
        ∀ n ∈ s.world.db.notifications.rows, c.matches_ n = false)
      (houtcome : s'.outcomes = (c, .returned ⟨n', true, false⟩) :: s.outcomes)

theorem CreationCall.mem_insert {now : Instant} {c : CreationCall} {db : Db} {n : Notification} :
    n ∈ (c.insert now db).notifications.rows ↔
      n ∈ db.notifications.rows ∨ n = c.newNotification now (db.notifications.seq + 1) := by
  change n ∈ (db.notifications.insert (c.newNotification now) (c.pk_newNotification now)).rows ↔ _
  exact Table.mem_insert

/-- The rows after the end of a call. -/
theorem CreationCall.Advances.row {now : Instant} {db db' : Db} {c : CreationCall}
    {stage : CreationStage} {result : CreationResult}
    (h : c.Advances now db stage ⟨db', .error result⟩) {n' : Notification}
    (hn' : n' ∈ db'.notifications.rows) :
    n' ∈ db.notifications.rows ∨
      (n' = c.newNotification now (db.notifications.seq + 1) ∧
        (c.idempotencyKey = "" ∨ ∀ n ∈ db.notifications.rows, c.matches_ n = false) ∧
        result = .returned ⟨n', true, false⟩) := by
  cases h with
  | inserted happlication hfree =>
    rcases CreationCall.mem_insert.mp hn' with hn | rfl
    · exact Or.inl hn
    · exact Or.inr ⟨rfl, hfree, rfl⟩
  | _ => exact Or.inl hn'

theorem Api.Steps.row {cfg : ApiConfig} {s s' : Api} {a : ApiAction} (h : s.Steps cfg a s')
    {n' : Notification} (hn' : n' ∈ s'.world.db.notifications.rows) : s.RowFrom s' n' := by
  cases h with
  | server a w hw =>
    rcases (World.step_cases hw).notification_row hn' with ⟨n, hn, hrewrites⟩ | ⟨_, _, rfl⟩
    · exact .old n hn hrewrites.origin
    · exact .blank rfl rfl
  | created rid input q stage db result hp hcall =>
    obtain ⟨hworld, houtcomes, -⟩ :=
      Api.afterCreation_frame cfg ((s.setDb db).recorded q.call result) rid q result
    rw [hworld] at hn'
    rcases hcall.row hn' with hn | ⟨rfl, hfree, rfl⟩
    · exact .old n' hn (.refl n')
    · exact .inserted q.call rfl hfree houtcomes
  | ingested rid input c stage db result hp hcall =>
    rcases hcall.row hn' with hn | ⟨rfl, hfree, rfl⟩
    · exact .old n' hn (.refl n')
    · exact .inserted c rfl hfree rfl
  | queueing rid input q id run decided hp =>
    rw [(Api.queueStep_frame cfg s rid q id run decided input).1] at hn'
    change n' ∈ (run.advance s.world.clock s.world.db.notifications input).notifications.rows at hn'
    rcases run.advance_notifications s.world.clock s.world.db.notifications input with
      heq | ⟨p, status, heq⟩
    · rw [heq] at hn'
      exact .old n' hn' (.refl n')
    · rw [heq] at hn'
      obtain ⟨n, hn, rfl⟩ := Table.mem_update.mp hn'
      refine .old n hn ?_
      split <;> exact ⟨rfl, rfl, rfl, rfl⟩
  | _ => exact .old n' hn' (.refl n')

/-- Keys of notifications are not handed out twice. -/
theorem Api.Steps.seq_le {cfg : ApiConfig} {s s' : Api} {a : ApiAction} (h : s.Steps cfg a s') :
    s.world.db.notifications.seq ≤ s'.world.db.notifications.seq := by
  have hcall : ∀ {c : CreationCall} {stage : CreationStage} {db : Db} {result : CreationResult},
      c.Advances s.world.clock s.world.db stage ⟨db, .error result⟩ →
        s.world.db.notifications.seq ≤ db.notifications.seq := by
    intro c stage db result h
    cases h with
    | inserted => exact Nat.le_succ _
    | _ => exact le_rfl
  cases h with
  | server a w hw => exact (World.step_cases hw).seq_le
  | created rid input q stage db result hp h =>
    rw [(Api.afterCreation_frame cfg ((s.setDb db).recorded q.call result) rid q result).1]
    exact hcall h
  | ingested rid input c stage db result hp h => exact hcall h
  | queueing rid input q id run decided hp =>
    rw [(Api.queueStep_frame cfg s rid q id run decided input).1]
    change _ ≤ (run.advance s.world.clock s.world.db.notifications input).notifications.seq
    rcases run.advance_notifications s.world.clock s.world.db.notifications input with
      heq | ⟨p, status, heq⟩ <;> rw [heq]
    rfl
  | _ => exact le_rfl

/-! ### Where runs start -/

/-- No request is under way and none was answered. -/
structure Api.Idle (s : Api) : Prop where
  processes : s.processes = .idle
  answers : s.answers = []

/-- The unique constraint on application and idempotency key. -/
def Db.UniqueKeys (db : Db) : Prop :=
  ∀ n ∈ db.notifications.rows, ∀ m ∈ db.notifications.rows, n.applicationId = m.applicationId →
    n.idempotencyKey = m.idempotencyKey → n.idempotencyKey ≠ "" → n = m

/-! ### A sample -/

namespace Sample

/-- The endpoints of the sample server. -/
def apiConfig : ApiConfig := ⟨.default, digest, dateTimes⟩

/-- The sample application without notifications, and nothing under way. -/
def quietApi : Api := { world := { clock := 0, db := { applications := single application } } }

/-- A request of the sample application. -/
def tokenRequest (endpoint : Endpoint) (payload : CreatePayload) : AppTokenRequest :=
  { endpoint, applicationId := 1, idempotencyKey := "k", payload }

end Sample

end PushIT
