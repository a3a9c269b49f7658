import Mathlib.Data.List.Dedup
import PushIT.Brussels
import PushIT.QuietPeriods
import PushIT.Sending

/-!
# Writing quiet periods

`QuietPeriodWriteMixin` (`applications/serializers.py`) and the views that use it for application
and for device quiet periods.  A PATCH validates the submitted fields together with those of the
row it has loaded, and saves that row whole; other requests may come between the two.

The serializer brings the submitted dates into the current time zone, where Python compares them by
the clock.  When the clock is put back, a date of the second showing of an hour may so be accepted
as a start, with a date of the first showing as its end.

## Main definitions

* `QuietPeriodData.validate`, `QuietPeriodAttrs.normalizePayload`, `QuietPeriodAttrs.update`,
  `QuietPeriodAttrs.create`: the serializer.
* `QuietPeriodStore`, `quietPeriodServer`: the requests and their interleavings.

## Main results

* `quiet_periods_well_formed`: the rows stay well formed in every run in which no request submits
  two dates that the clock shows in the wrong order.
* `ill_formed_quiet_period`: a request that does.
-/

namespace PushIT

open Relational Transition

/-! ### The serializer -/

/-- The fields of a request that its field checks have passed; `none` is a field that was not
submitted. -/
structure QuietPeriodAttrs where
  name : Option String := none
  periodType : Option QuietPeriodType := none
  startAt : Option (Option Instant) := none
  endAt : Option (Option Instant) := none
  recurrenceDays : Option (List ℕ) := none
  startTime : Option (Option TimeOfDay) := none
  endTime : Option (Option TimeOfDay) := none
  isActive : Option Bool := none
  deriving DecidableEq

/-- The body of a request, whose days are between 0 and 6. -/
structure QuietPeriodData extends QuietPeriodAttrs where
  days_le : ∀ days ∈ recurrenceDays, ∀ day ∈ days, day ≤ 6

/-- The field errors of a rejected request. -/
abbrev FieldErrors := List (String × List String)

/-- A submitted date, in the current time zone (`DateTimeField.enforce_timezone`). -/
def Datetime.submitted (tz : TimeZone) (t : Instant) : Datetime := ⟨t, some (tz.localtime t)⟩

/-- The values `validate` judges. -/
structure MergedPeriod where
  periodType : QuietPeriodType
  startAt : Option Datetime
  endAt : Option Datetime
  recurrenceDays : List ℕ
  startTime : Option TimeOfDay
  endTime : Option TimeOfDay

/-- `sorted(set(days))`. -/
def sortedDays (days : List ℕ) : List ℕ := days.dedup.insertionSort (· ≤ ·)

/-- One entry of the errors. -/
def fieldError (wrong : Bool) (field message : String) : FieldErrors :=
  if wrong then [(field, [message])] else []

namespace MergedPeriod

/-- The errors of the values of a one-time period. -/
def onceErrors (m : MergedPeriod) : FieldErrors :=
  fieldError m.startAt.isNone "start_at" "This field is required for a one-time period." ++
  fieldError m.endAt.isNone "end_at" "This field is required for a one-time period." ++
  fieldError (m.startAt.any fun a => m.endAt.any fun b => !a.isBefore b) "end_at"
    "Quiet period end must be after the start." ++
  fieldError (!m.recurrenceDays.isEmpty) "recurrence_days"
    "This field must be empty for a one-time period." ++
  fieldError m.startTime.isSome "start_time" "This field must be null for a one-time period." ++
  fieldError m.endTime.isSome "end_time" "This field must be null for a one-time period."

/-- The errors of the values of a recurring period. -/
def recurringErrors (m : MergedPeriod) : FieldErrors :=
  fieldError m.recurrenceDays.isEmpty "recurrence_days"
    "At least one recurrence day is required." ++
  fieldError m.startTime.isNone "start_time" "This field is required for a recurring period." ++
  fieldError m.endTime.isNone "end_time" "This field is required for a recurring period." ++
  fieldError (m.startTime.any fun a => m.endTime.any fun b => a == b) "end_time"
    "End time must differ from start time." ++
  fieldError m.startAt.isSome "start_at" "This field must be null for a recurring period." ++
  fieldError m.endAt.isSome "end_at" "This field must be null for a recurring period."

def errors (m : MergedPeriod) : FieldErrors :=
  match m.periodType with
  | .once => m.onceErrors
  | .recurring => m.recurringErrors

end MergedPeriod

namespace QuietPeriodAttrs

variable (tz : TimeZone) (attrs : QuietPeriodAttrs) (row : Option AbstractQuietPeriod)

/-- `changing_period_type`. -/
def changesPeriodType : Bool :=
  row.any fun q => attrs.periodType.any fun p => p != q.periodType

/-- A field of the loaded row, which does not count when the type changes. -/
def stored {α : Type} (f : AbstractQuietPeriod → Option α) : Option α :=
  if attrs.changesPeriodType row then none else row.bind f

/-- The submitted values, and for the fields left out those of the loaded row. -/
def merge : MergedPeriod where
  periodType := attrs.periodType.getD ((row.map (·.periodType)).getD .once)
  startAt := (attrs.startAt.map fun v => v.map (.submitted tz)).getD
    ((attrs.stored row (·.startAt)).map .utc)
  endAt := (attrs.endAt.map fun v => v.map (.submitted tz)).getD
    ((attrs.stored row (·.endAt)).map .utc)
  recurrenceDays := attrs.recurrenceDays.getD
    ((attrs.stored row fun q => some q.recurrenceDays).getD [])
  startTime := attrs.startTime.getD (attrs.stored row (·.startTime))
  endTime := attrs.endTime.getD (attrs.stored row (·.endTime))

/-- `validate`. -/
def validate : Except FieldErrors QuietPeriodAttrs :=
  let merged := attrs.merge tz row
  match merged.errors with
  | [] =>
    .ok (if merged.recurrenceDays.isEmpty then attrs
      else { attrs with recurrenceDays := some (sortedDays merged.recurrenceDays) })
  | errors => .error errors

/-- `_normalize_payload`. -/
def normalizePayload : QuietPeriodAttrs :=
  match attrs.periodType.getD ((row.map (·.periodType)).getD .once) with
  | .once =>
    { attrs with recurrenceDays := some [], startTime := some none, endTime := some none }
  | .recurring => { attrs with startAt := some none, endAt := some none }

/-- The attributes set on an instance. -/
def setOn (q : AbstractQuietPeriod) : AbstractQuietPeriod where
  name := attrs.name.getD q.name
  periodType := attrs.periodType.getD q.periodType
  startAt := attrs.startAt.getD q.startAt
  endAt := attrs.endAt.getD q.endAt
  recurrenceDays := attrs.recurrenceDays.getD q.recurrenceDays
  startTime := attrs.startTime.getD q.startTime
  endTime := attrs.endTime.getD q.endTime
  isActive := attrs.isActive.getD q.isActive

/-- `update`: what the loaded row is saved with. -/
def update (q : AbstractQuietPeriod) : AbstractQuietPeriod :=
  (attrs.normalizePayload (some q)).setOn q

/-- `create`: the new row, with the defaults of the model. -/
def create : AbstractQuietPeriod := (attrs.normalizePayload none).setOn {}

end QuietPeriodAttrs

/-! ### What is accepted is well formed -/

/-- The clock does not show the two submitted dates in the wrong order. -/
def QuietPeriodAttrs.InOrder (tz : TimeZone) (attrs : QuietPeriodAttrs) : Prop :=
  ∀ a ∈ attrs.startAt.join, ∀ b ∈ attrs.endAt.join,
    reading (tz.localtime a) < reading (tz.localtime b) → a < b

instance (tz : TimeZone) (attrs : QuietPeriodAttrs) : Decidable (attrs.InOrder tz) :=
  inferInstanceAs (Decidable (∀ a ∈ attrs.startAt.join, ∀ b ∈ attrs.endAt.join,
    reading (tz.localtime a) < reading (tz.localtime b) → a < b))

@[simp] theorem fieldError_eq_nil {wrong : Bool} {field message : String} :
    fieldError wrong field message = [] ↔ wrong = false := by
  cases wrong <;> simp [fieldError]

theorem MergedPeriod.onceErrors_eq_nil {m : MergedPeriod} (h : m.onceErrors = []) :
    (∃ a b, m.startAt = some a ∧ m.endAt = some b ∧ a.isBefore b = true) ∧
      m.recurrenceDays = [] ∧ m.startTime = none ∧ m.endTime = none := by
  simp only [onceErrors, List.append_eq_nil_iff, fieldError_eq_nil] at h
  obtain ⟨⟨⟨⟨⟨hstart, hend⟩, horder⟩, hdays⟩, hstartTime⟩, hendTime⟩ := h
  obtain ⟨a, ha⟩ := Option.isSome_iff_exists.mp (Option.isNone_eq_false_iff.mp hstart)
  obtain ⟨b, hb⟩ := Option.isSome_iff_exists.mp (Option.isNone_eq_false_iff.mp hend)
  refine ⟨⟨a, b, ha, hb, ?_⟩, ?_, ?_, ?_⟩
  · simpa [ha, hb] using horder
  · simpa using hdays
  · simpa using hstartTime
  · simpa using hendTime

theorem MergedPeriod.recurringErrors_eq_nil {m : MergedPeriod} (h : m.recurringErrors = []) :
    m.recurrenceDays ≠ [] ∧ (∃ a b, m.startTime = some a ∧ m.endTime = some b ∧ a ≠ b) ∧
      m.startAt = none ∧ m.endAt = none := by
  simp only [recurringErrors, List.append_eq_nil_iff, fieldError_eq_nil] at h
  obtain ⟨⟨⟨⟨⟨hdays, hstartTime⟩, hendTime⟩, hdistinct⟩, hstart⟩, hend⟩ := h
  obtain ⟨a, ha⟩ := Option.isSome_iff_exists.mp (Option.isNone_eq_false_iff.mp hstartTime)
  obtain ⟨b, hb⟩ := Option.isSome_iff_exists.mp (Option.isNone_eq_false_iff.mp hendTime)
  refine ⟨by simpa using hdays, ⟨a, b, ha, hb, ?_⟩, by simpa using hstart, by simpa using hend⟩
  simpa [ha, hb] using hdistinct

theorem mem_sortedDays {days : List ℕ} {day : ℕ} : day ∈ sortedDays days ↔ day ∈ days :=
  (List.perm_insertionSort (· ≤ ·) days.dedup).mem_iff.trans List.mem_dedup

theorem pairwise_sortedDays (days : List ℕ) : (sortedDays days).Pairwise (· < ·) := by
  have hle : (sortedDays days).Pairwise (· ≤ ·) := List.pairwise_insertionSort _ _
  have hne : (sortedDays days).Pairwise (· ≠ ·) :=
    (List.perm_insertionSort (· ≤ ·) days.dedup).nodup_iff.mpr (List.nodup_dedup days)
  exact (hle.and hne).imp fun h => lt_of_le_of_ne h.1 h.2

namespace QuietPeriodAttrs

variable {tz : TimeZone} {attrs : QuietPeriodAttrs} {q : AbstractQuietPeriod}

/-- A date that `validate` sees is the date the saved row has. -/
private theorem merged_date {submitted : Option (Option Instant)} {stored : Option Instant}
    {changes : Bool} {a : Datetime}
    (h : (submitted.map fun v => v.map (Datetime.submitted tz)).getD
      ((if changes then none else stored).map .utc) = some a) :
    submitted.getD stored = some a.instant ∧
      (a = .utc a.instant ∨ submitted = some (some a.instant) ∧ a = .submitted tz a.instant) := by
  cases submitted with
  | none =>
    cases changes with
    | true => simp at h
    | false =>
      obtain ⟨t, ht, rfl⟩ := Option.map_eq_some_iff.mp (by simpa using h)
      exact ⟨ht, Or.inl rfl⟩
  | some v =>
    obtain ⟨t, rfl, rfl⟩ := Option.map_eq_some_iff.mp (by simpa using h)
    exact ⟨rfl, Or.inr ⟨rfl, rfl⟩⟩

private theorem merged_time {submitted : Option (Option TimeOfDay)} {stored : Option TimeOfDay}
    {changes : Bool} {a : TimeOfDay}
    (h : submitted.getD (if changes then none else stored) = some a) :
    submitted.getD stored = some a := by
  cases submitted with
  | none =>
    cases changes with
    | true => simp at h
    | false => simpa using h
  | some v => exact h

/-- Dates that `validate` finds in order are in order, unless they were both submitted and the clock
shows them in the wrong one. -/
private theorem lt_of_isBefore (hin : attrs.InOrder tz) {a b : Datetime}
    (ha : a = .utc a.instant ∨
      attrs.startAt = some (some a.instant) ∧ a = .submitted tz a.instant)
    (hb : b = .utc b.instant ∨ attrs.endAt = some (some b.instant) ∧ b = .submitted tz b.instant)
    (hlt : a.isBefore b = true) : a.instant < b.instant := by
  rcases ha with ha | ⟨hstart, ha⟩
  · rw [ha] at hlt
    exact of_decide_eq_true hlt
  · rcases hb with hb | ⟨hend, hb⟩
    · rw [ha, hb] at hlt
      exact of_decide_eq_true hlt
    · rw [ha, hb] at hlt
      refine hin _ ?_ _ ?_ (of_decide_eq_true hlt)
      · simp [hstart]
      · simp [hend]

private theorem merged_days_le (tz : TimeZone)
    (hdays : ∀ days ∈ attrs.recurrenceDays, ∀ day ∈ days, day ≤ 6)
    (hrow : ∀ day ∈ q.recurrenceDays, day ≤ 6) :
    ∀ day ∈ (attrs.merge tz (some q)).recurrenceDays, day ≤ 6 := by
  intro day hday
  unfold merge stored at hday
  simp only at hday
  cases hsubmitted : attrs.recurrenceDays with
  | some days =>
    rw [hsubmitted] at hday
    exact hdays days hsubmitted day hday
  | none =>
    rw [hsubmitted] at hday
    split_ifs at hday with hchanges
    · exact absurd hday List.not_mem_nil
    · exact hrow day hday

/-- The row that an accepted request is saved with is well formed. -/
theorem wellFormed_update (hin : attrs.InOrder tz)
    (hdays : ∀ days ∈ attrs.recurrenceDays, ∀ day ∈ days, day ≤ 6)
    (hrow : ∀ day ∈ q.recurrenceDays, day ≤ 6) {attrs' : QuietPeriodAttrs}
    (h : attrs.validate tz (some q) = .ok attrs') : (attrs'.update q).WellFormed := by
  unfold validate at h
  simp only at h
  split at h
  · next herrors =>
    obtain rfl := Except.ok.inj h
    unfold MergedPeriod.errors at herrors
    cases hperiod : attrs.periodType.getD q.periodType with
    | once =>
      have hmerged : (attrs.merge tz (some q)).periodType = .once := hperiod
      rw [hmerged] at herrors
      obtain ⟨⟨a, b, ha, hb, hlt⟩, hnoDays, -, -⟩ := MergedPeriod.onceErrors_eq_nil herrors
      obtain ⟨hstart, ha'⟩ := merged_date ha
      obtain ⟨hend, hb'⟩ := merged_date hb
      have hupdate : (attrs.update q).WellFormed := by
        simp only [update, normalizePayload, Option.map_some, Option.getD_some, hperiod]
        simp only [AbstractQuietPeriod.WellFormed, setOn, hperiod]
        exact ⟨⟨_, hstart, _, hend, lt_of_isBefore hin ha' hb' hlt⟩, rfl, rfl, rfl⟩
      simpa [hnoDays] using hupdate
    | recurring =>
      have hmerged : (attrs.merge tz (some q)).periodType = .recurring := hperiod
      rw [hmerged] at herrors
      obtain ⟨hsomeDays, ⟨a, b, ha, hb, hne⟩, -, -⟩ :=
        MergedPeriod.recurringErrors_eq_nil herrors
      have hle := merged_days_le tz hdays hrow
      have hnotEmpty : sortedDays (attrs.merge tz (some q)).recurrenceDays ≠ [] := by
        obtain ⟨day, hday⟩ := List.exists_mem_of_ne_nil _ hsomeDays
        exact List.ne_nil_of_mem (mem_sortedDays.mpr hday)
      rw [if_neg (by simpa using hsomeDays)]
      simp only [update, normalizePayload, Option.map_some, Option.getD_some, hperiod]
      simp only [AbstractQuietPeriod.WellFormed, setOn, hperiod]
      exact ⟨hnotEmpty, pairwise_sortedDays _, fun day hday => hle day (mem_sortedDays.mp hday),
        ⟨a, merged_time ha, b, merged_time hb, hne⟩, rfl, rfl⟩
  · cases h

/-- A new row is validated and filled like an instance with the defaults of the model. -/
theorem merge_none : attrs.merge tz none = attrs.merge tz (some {}) := by
  have hstored {α : Type} (f : AbstractQuietPeriod → Option α) (hf : f {} = none) :
      attrs.stored none f = attrs.stored (some {}) f := by
    unfold stored
    simp [changesPeriodType, hf]
  have hdays : (attrs.stored none fun q => some q.recurrenceDays).getD [] =
      (attrs.stored (some {}) fun q => some q.recurrenceDays).getD [] := by
    unfold stored
    cases attrs.changesPeriodType (some {}) <;> rfl
  unfold merge
  rw [hdays, hstored _ rfl, hstored _ rfl, hstored _ rfl, hstored _ rfl]
  rfl

theorem wellFormed_create (hin : attrs.InOrder tz)
    (hdays : ∀ days ∈ attrs.recurrenceDays, ∀ day ∈ days, day ≤ 6) {attrs' : QuietPeriodAttrs}
    (h : attrs.validate tz none = .ok attrs') : attrs'.create.WellFormed := by
  have hvalid : attrs.validate tz (some {}) = .ok attrs' := by
    rw [← h]
    unfold validate
    rw [merge_none]
  exact wellFormed_update hin hdays (by simp) hvalid

end QuietPeriodAttrs

/-! ### The requests -/

/-- The application or the device that has the quiet period. -/
inductive QuietPeriodOwner
  | application (id : ℕ)
  | device (id : ℕ)
  deriving DecidableEq

/-- `get_application` and `get_device`, for writes. -/
def Db.ownsQuietPeriods (db : Db) (user : ℕ) : QuietPeriodOwner → Bool
  | .application id => db.applicationOwner id == some user
  | .device id => db.ownsDevice user id

/-- `owner.quiet_periods.get(id=...)`. -/
def Db.quietPeriod? (db : Db) (id : ℕ) : QuietPeriodOwner → Option AbstractQuietPeriod
  | .application applicationId =>
    ((db.applicationQuietPeriods.get? id).filter (·.applicationId == applicationId)).map
      (·.toAbstractQuietPeriod)
  | .device deviceId =>
    ((db.deviceQuietPeriods.get? id).filter (·.deviceId == deviceId)).map (·.toAbstractQuietPeriod)

/-- The row of the owner is there for the foreign key. -/
def Db.hasOwner (db : Db) : QuietPeriodOwner → Bool
  | .application id => (db.applications.get? id).isSome
  | .device id => (db.devices.get? id).isSome

/-- `objects.create`. -/
def Db.insertQuietPeriod (db : Db) (q : AbstractQuietPeriod) : QuietPeriodOwner → Db
  | .application applicationId =>
    { db with
      applicationQuietPeriods := db.applicationQuietPeriods.insert
        (fun id => { q with id, applicationId }) (fun _ => rfl) }
  | .device deviceId =>
    { db with
      deviceQuietPeriods := db.deviceQuietPeriods.insert
        (fun id => { q with id, deviceId }) (fun _ => rfl) }

/-- `instance.save()`, which inserts the row again when it was deleted in the meantime. -/
def Db.saveQuietPeriod (db : Db) (id : ℕ) (q : AbstractQuietPeriod) : QuietPeriodOwner → Db
  | .application applicationId =>
    { db with applicationQuietPeriods := db.applicationQuietPeriods.put { q with id, applicationId } }
  | .device deviceId =>
    { db with deviceQuietPeriods := db.deviceQuietPeriods.put { q with id, deviceId } }

/-- The deletion of a quiet period of an owner. -/
def Db.deleteQuietPeriod (db : Db) (id : ℕ) : QuietPeriodOwner → Db
  | .application applicationId =>
    { db with
      applicationQuietPeriods := db.applicationQuietPeriods.delete fun q =>
        q.id == id && q.applicationId == applicationId }
  | .device deviceId =>
    { db with
      deviceQuietPeriods := db.deviceQuietPeriods.delete fun q =>
        q.id == id && q.deviceId == deviceId }

/-- A request between two of its statements. -/
inductive QuietPeriodProcess
  /-- A POST whose data are valid. -/
  | creating (owner : QuietPeriodOwner) (q : AbstractQuietPeriod)
  /-- A PATCH that has loaded its row. -/
  | patching (owner : QuietPeriodOwner) (id : ℕ) (q : AbstractQuietPeriod)
      (data : QuietPeriodData)

/-- The database and the requests that are under way. -/
structure QuietPeriodStore where
  db : Db
  requests : Pool QuietPeriodProcess := .idle

inductive QuietPeriodAction
  | post (pid user : ℕ) (owner : QuietPeriodOwner) (data : QuietPeriodData)
  | patch (pid user : ℕ) (owner : QuietPeriodOwner) (id : ℕ) (data : QuietPeriodData)
  | destroy (user : ℕ) (owner : QuietPeriodOwner) (id : ℕ)
  | advance (pid : ℕ)

namespace QuietPeriodStore

variable (tz : TimeZone)

/-- The last statement of a request; a missing owner violates the foreign key. -/
def finish (db : Db) : QuietPeriodProcess → Db
  | .creating owner q => if db.hasOwner owner then db.insertQuietPeriod q owner else db
  | .patching owner id q data =>
    match data.validate tz (some q) with
    | .ok attrs => if db.hasOwner owner then db.saveQuietPeriod id (attrs.update q) owner else db
    | .error _ => db

def step (s : QuietPeriodStore) : QuietPeriodAction → Option QuietPeriodStore
  | .post pid user owner data =>
    if (s.requests pid).isSome then none
    else if !s.db.ownsQuietPeriods user owner then some s
    else match data.validate tz none with
      | .ok attrs =>
        some { s with requests := s.requests.set pid (some (.creating owner attrs.create)) }
      | .error _ => some s
  | .patch pid user owner id data =>
    if (s.requests pid).isSome then none
    else if !s.db.ownsQuietPeriods user owner then some s
    else match s.db.quietPeriod? id owner with
      | some q => some { s with requests := s.requests.set pid (some (.patching owner id q data)) }
      | none => some s
  | .destroy user owner id =>
    if s.db.ownsQuietPeriods user owner then
      some { s with db := s.db.deleteQuietPeriod id owner }
    else some s
  | .advance pid =>
    (s.requests pid).map fun p =>
      { db := finish tz s.db p, requests := s.requests.set pid none }

end QuietPeriodStore

/-- The requests on quiet periods. -/
def quietPeriodServer (tz : TimeZone) : System QuietPeriodStore QuietPeriodAction where
  step := QuietPeriodStore.step tz

/-! ### The invariant -/

/-- The quiet periods of applications and of devices. -/
structure Db.QuietPeriodsWellFormed (db : Db) : Prop where
  applications : ∀ q ∈ db.applicationQuietPeriods.rows, q.WellFormed
  devices : ∀ q ∈ db.deviceQuietPeriods.rows, q.WellFormed

/-- The request does not submit two dates that the clock shows in the wrong order. -/
def QuietPeriodAction.InOrder (tz : TimeZone) : QuietPeriodAction → Prop
  | .post _ _ _ data => data.InOrder tz
  | .patch _ _ _ _ data => data.InOrder tz
  | _ => True

instance (tz : TimeZone) : (a : QuietPeriodAction) → Decidable (a.InOrder tz)
  | .post _ _ _ data => inferInstanceAs (Decidable (data.InOrder tz))
  | .patch _ _ _ _ data => inferInstanceAs (Decidable (data.InOrder tz))
  | .destroy _ _ _ => inferInstanceAs (Decidable True)
  | .advance _ => inferInstanceAs (Decidable True)

/-- What a request under way will store. -/
def QuietPeriodProcess.WellFormed (tz : TimeZone) : QuietPeriodProcess → Prop
  | .creating _ q => q.WellFormed
  | .patching _ _ q data => q.WellFormed ∧ data.InOrder tz

structure QuietPeriodStore.WellFormed (tz : TimeZone) (s : QuietPeriodStore) : Prop where
  rows : s.db.QuietPeriodsWellFormed
  requests : ∀ pid p, s.requests pid = some p → p.WellFormed tz

theorem AbstractQuietPeriod.WellFormed.days_le {q : AbstractQuietPeriod} (h : q.WellFormed) :
    ∀ day ∈ q.recurrenceDays, day ≤ 6 := by
  unfold WellFormed at h
  split at h
  · rw [h.2.1]
    simp
  · exact h.2.2.1

namespace Db.QuietPeriodsWellFormed

variable {db : Db} {q : AbstractQuietPeriod} {owner : QuietPeriodOwner}

theorem quietPeriod? (h : db.QuietPeriodsWellFormed) {id : ℕ}
    (hq : db.quietPeriod? id owner = some q) : q.WellFormed := by
  cases owner with
  | application applicationId =>
    obtain ⟨r, hr, rfl⟩ := Option.map_eq_some_iff.mp hq
    exact h.applications r (Table.get?_eq_some.mp (Option.filter_eq_some_iff.mp hr).1).1
  | device deviceId =>
    obtain ⟨r, hr, rfl⟩ := Option.map_eq_some_iff.mp hq
    exact h.devices r (Table.get?_eq_some.mp (Option.filter_eq_some_iff.mp hr).1).1

theorem insertQuietPeriod (h : db.QuietPeriodsWellFormed) (hq : q.WellFormed) :
    (db.insertQuietPeriod q owner).QuietPeriodsWellFormed := by
  cases owner with
  | application applicationId =>
    refine ⟨fun r hr => ?_, h.devices⟩
    rcases Table.mem_insert.mp hr with hr | rfl
    · exact h.applications r hr
    · exact hq
  | device deviceId =>
    refine ⟨h.applications, fun r hr => ?_⟩
    rcases Table.mem_insert.mp hr with hr | rfl
    · exact h.devices r hr
    · exact hq

theorem saveQuietPeriod (h : db.QuietPeriodsWellFormed) (hq : q.WellFormed) {id : ℕ} :
    (db.saveQuietPeriod id q owner).QuietPeriodsWellFormed := by
  cases owner with
  | application applicationId =>
    refine ⟨fun r hr => ?_, h.devices⟩
    rcases Table.mem_put.mp hr with rfl | ⟨hr, -⟩
    · exact hq
    · exact h.applications r hr
  | device deviceId =>
    refine ⟨h.applications, fun r hr => ?_⟩
    rcases Table.mem_put.mp hr with rfl | ⟨hr, -⟩
    · exact hq
    · exact h.devices r hr

theorem deleteQuietPeriod (h : db.QuietPeriodsWellFormed) {id : ℕ} :
    (db.deleteQuietPeriod id owner).QuietPeriodsWellFormed := by
  cases owner with
  | application applicationId =>
    exact ⟨fun r hr => h.applications r (Table.mem_delete.mp hr).1, h.devices⟩
  | device deviceId =>
    exact ⟨h.applications, fun r hr => h.devices r (Table.mem_delete.mp hr).1⟩

end Db.QuietPeriodsWellFormed

namespace QuietPeriodStore

variable {tz : TimeZone} {s : QuietPeriodStore}

theorem WellFormed.begin (h : s.WellFormed tz) {p : QuietPeriodProcess} (hp : p.WellFormed tz)
    (pid : ℕ) : WellFormed tz { s with requests := s.requests.set pid (some p) } where
  rows := h.rows
  requests := Pool.forall_set h.requests fun _ hp' => Option.some.inj hp' ▸ hp

/-- The last statement of a request stores what is well formed. -/
theorem WellFormed.finish {db : Db} (hdb : db.QuietPeriodsWellFormed) {p : QuietPeriodProcess}
    (hp : p.WellFormed tz) : (QuietPeriodStore.finish tz db p).QuietPeriodsWellFormed := by
  cases p with
  | creating owner q =>
    simp only [QuietPeriodStore.finish]
    split_ifs
    · exact hdb.insertQuietPeriod hp
    · exact hdb
  | patching owner id q data =>
    simp only [QuietPeriodStore.finish]
    split
    · next attrs hvalid =>
      have hupdate := QuietPeriodAttrs.wellFormed_update hp.2 data.days_le hp.1.days_le hvalid
      split_ifs
      · exact hdb.saveQuietPeriod hupdate
      · exact hdb
    · exact hdb

theorem wellFormed_preserves (tz : TimeZone) :
    (quietPeriodServer tz).Preserves (fun _ a => a.InOrder tz) (QuietPeriodStore.WellFormed tz) := by
  intro s a t h ha hstep
  change s.step tz a = some t at hstep
  cases a with
  | post pid user owner data =>
    simp only [step] at hstep
    split_ifs at hstep with hbusy howns
    · exact Option.some.inj hstep ▸ h
    · split at hstep
      · next attrs hvalid =>
        obtain rfl := Option.some.inj hstep
        exact h.begin (p := .creating owner attrs.create)
          (QuietPeriodAttrs.wellFormed_create ha data.days_le hvalid) pid
      · exact Option.some.inj hstep ▸ h
  | patch pid user owner id data =>
    simp only [step] at hstep
    split_ifs at hstep with hbusy howns
    · exact Option.some.inj hstep ▸ h
    · split at hstep
      · next q hq =>
        obtain rfl := Option.some.inj hstep
        exact h.begin (p := .patching owner id q data) ⟨h.rows.quietPeriod? hq, ha⟩ pid
      · exact Option.some.inj hstep ▸ h
  | destroy user owner id =>
    simp only [step] at hstep
    split_ifs at hstep
    · exact Option.some.inj hstep ▸ ⟨h.rows.deleteQuietPeriod, h.requests⟩
    · exact Option.some.inj hstep ▸ h
  | advance pid =>
    obtain ⟨p, hp, rfl⟩ := Option.map_eq_some_iff.mp hstep
    exact ⟨WellFormed.finish h.rows (h.requests pid p hp),
      Pool.forall_set h.requests fun _ hnone => by cases hnone⟩

end QuietPeriodStore

/-- Every stored quiet period is well formed, in every run in which no request submits two dates
that the clock shows in the wrong order. -/
theorem quiet_periods_well_formed (tz : TimeZone) {s t : QuietPeriodStore}
    (hrows : s.db.QuietPeriodsWellFormed) (hidle : s.requests = .idle)
    (hrun : (quietPeriodServer tz).Reach (fun _ a => a.InOrder tz) s t) :
    (∀ q ∈ t.db.applicationQuietPeriods.rows, q.WellFormed) ∧
      ∀ q ∈ t.db.deviceQuietPeriods.rows, q.WellFormed := by
  have h0 : s.WellFormed tz := ⟨hrows, fun pid p hp => by simp [hidle] at hp⟩
  have h := hrun.invariant (QuietPeriodStore.wellFormed_preserves tz) h0
  exact ⟨h.rows.applications, h.rows.devices⟩

/-! ### A run of the sample server -/

namespace Sample

/-- One application that a user owns, and nothing under way. -/
def quietPeriodStore : QuietPeriodStore := { db := Sample.db }

/-- From Monday 22:00 to Tuesday 06:00, every week. -/
def nightData : QuietPeriodData where
  periodType := some .recurring
  recurrenceDays := some [0]
  startTime := some (some 79200000000)
  endTime := some (some 21600000000)
  days_le := by simp

/-- From 02:10 to 02:50 on the 25th of October 2026, where the first date is the second showing of
its hour and the second date the first. -/
def reversedData : QuietPeriodData where
  startAt := some (some (days 20751 + minutes 70))
  endAt := some (some (days 20751 + minutes 50))
  days_le := by simp

end Sample

/-- A weekly night is stored, and then no longer active. -/
theorem sample_quiet_periods_well_formed :
    ∃ t : QuietPeriodStore,
      t.db.applicationQuietPeriods.rows.any (fun q => !q.isActive) = true ∧
        (∀ q ∈ t.db.applicationQuietPeriods.rows, q.WellFormed) ∧
        ∀ q ∈ t.db.deviceQuietPeriods.rows, q.WellFormed := by
  obtain ⟨t, hrun, hstored⟩ := System.exists_reach_of_guardedRun (quietPeriodServer (.ofZone brussels))
    (fun _ a => a.InOrder (.ofZone brussels)) Sample.quietPeriodStore
    [.post 0 1 (.application 1) Sample.nightData, .advance 0,
      .patch 0 1 (.application 1) 1 { isActive := some false, days_le := by simp }, .advance 0]
    (fun t => t.db.applicationQuietPeriods.rows.any fun q => !q.isActive) (by decide +kernel)
  exact ⟨t, hstored, quiet_periods_well_formed (.ofZone brussels)
    ⟨by simp [Sample.quietPeriodStore, Sample.db], by simp [Sample.quietPeriodStore, Sample.db]⟩
    rfl hrun⟩

/-- The two dates are accepted, and stored in the wrong order. -/
theorem ill_formed_quiet_period :
    ∃ t, (quietPeriodServer (.ofZone brussels)).Reach (fun _ _ => True) Sample.quietPeriodStore t ∧
      ∃ q ∈ t.db.applicationQuietPeriods.rows, ¬q.WellFormed := by
  obtain ⟨t, hrun, hstored⟩ := System.exists_reach_of_guardedRun (quietPeriodServer (.ofZone brussels))
    (fun _ _ => True) Sample.quietPeriodStore
    [.post 0 1 (.application 1) Sample.reversedData, .advance 0]
    (fun t => t.db.applicationQuietPeriods.rows.any fun q =>
      q.periodType == .once && q.startAt == some (days 20751 + minutes 70) &&
        q.endAt == some (days 20751 + minutes 50)) (by decide +kernel)
  obtain ⟨q, hq, hdates⟩ := List.any_eq_true.mp hstored
  simp only [Bool.and_eq_true, beq_iff_eq] at hdates
  obtain ⟨⟨honce, hstart⟩, hend⟩ := hdates
  refine ⟨t, hrun, q, hq, fun hwell => ?_⟩
  unfold AbstractQuietPeriod.WellFormed at hwell
  rw [honce] at hwell
  obtain ⟨⟨a, ha, b, hb, hlt⟩, -⟩ := hwell
  rw [hstart] at ha
  rw [hend] at hb
  obtain rfl := Option.some.inj ha
  obtain rfl := Option.some.inj hb
  exact absurd hlt (by decide)

end PushIT
