import PushIT.Models

/-!
# Quiet periods

`notifications/scheduling.py`: when an instant falls into a quiet period and when that period
ends.  The local calendar is a parameter: a time zone gives the local day and time of day of an
instant and the instant of a local day and time.

## Main definitions

* `Datetime`: the aware datetimes of these computations.
* `getQuietPeriodEndForPeriod`, `getQuietPeriodEndFromIterable`: the end of the quiet period a
  datetime lies in.
* `computeEffectiveScheduledFor`: the send date after shifting out of the quiet periods.
-/

namespace PushIT

/-- `date.weekday()` of a day counted from the epoch, which was a Thursday. -/
def weekday (day : ℤ) : ℕ := ((day + 3) % 7).toNat

/-- The bound on the shifts of `computeEffectiveScheduledFor`. -/
def maxQuietPeriodShiftIterations : ℕ := 32

/-- What a clock shows, as the microseconds since it showed the epoch. -/
def reading (shown : ℤ × TimeOfDay) : ℤ := shown.1 * 86400000000 + shown.2

/-- An aware datetime.  Those in the current time zone carry the day and the time they show, also
when the clock skips them; those from the database and from `timezone.now()` are in UTC. -/
structure Datetime where
  instant : Instant
  shown : Option (ℤ × TimeOfDay) := none
  deriving DecidableEq

namespace Datetime

/-- A datetime in UTC. -/
def utc (instant : Instant) : Datetime := { instant := instant }

/-- `a < b`: two datetimes of one time zone compare as the clock shows them. -/
def isBefore (a b : Datetime) : Bool :=
  match a.shown, b.shown with
  | some s, some s' => decide (reading s < reading s')
  | _, _ => decide (a.instant < b.instant)

theorem isBefore_asymm {a b : Datetime} (h : a.isBefore b = true) : b.isBefore a = false := by
  unfold isBefore at *
  split at h
  · next hs hs' =>
    rw [hs, hs']
    exact decide_eq_false (Int.lt_asymm (of_decide_eq_true h))
  · next hnone =>
    split
    · next s s' hs hs' => exact absurd hs (hnone s' s hs')
    · exact decide_eq_false (Int.lt_asymm (of_decide_eq_true h))

/-- The later of two datetimes, the first one if there is none. -/
def laterOf (a b : Datetime) : Datetime := if a.isBefore b then b else a

/-- `max`, the first of the latest. -/
def max? : List Datetime → Option Datetime
  | [] => none
  | d :: ds => some (ds.foldl laterOf d)

/-- The later of two datetimes has the properties that a datetime hands on to those it is not
after. -/
theorem laterOf_spec {S A : Datetime → Prop}
    (hkeep : ∀ d e, S d → S e → e.isBefore d = false → A d → A e) {a b : Datetime} (ha : S a)
    (hb : S b) (h : A a ∨ A b) : A (laterOf a b) := by
  unfold laterOf
  split_ifs with hlt
  · exact h.elim (hkeep a b ha hb (isBefore_asymm hlt)) id
  · exact h.elim id (hkeep b a hb ha (Bool.eq_false_iff.mpr hlt))

theorem laterOf_mem {l : List Datetime} {a b : Datetime} (ha : a ∈ l) (hb : b ∈ l) :
    laterOf a b ∈ l := by
  unfold laterOf
  split_ifs
  · exact hb
  · exact ha

theorem max?_mem {l : List Datetime} {m : Datetime} (h : max? l = some m) : m ∈ l := by
  cases l with
  | nil => cases h
  | cons d ds =>
    obtain rfl := Option.some.inj h
    exact List.foldlRecOn ds laterOf (motive := fun m => m ∈ d :: ds) List.mem_cons_self
      fun m hm y hy => laterOf_mem hm (List.mem_cons_of_mem d hy)

/-- So does the maximum of datetimes. -/
theorem max?_spec {S A : Datetime → Prop}
    (hkeep : ∀ d e, S d → S e → e.isBefore d = false → A d → A e) {l : List Datetime}
    {m x : Datetime} (hS : ∀ d ∈ l, S d) (hx : x ∈ l) (hA : A x) (h : max? l = some m) : A m := by
  cases l with
  | nil => cases h
  | cons d ds =>
    obtain rfl := Option.some.inj h
    clear h
    induction ds generalizing d x with
    | nil =>
      obtain rfl := List.mem_singleton.mp hx
      exact hA
    | cons y ds ih =>
      rw [List.foldl_cons]
      have hd : S d := hS d List.mem_cons_self
      have hy : S y := hS y (List.mem_cons_of_mem d List.mem_cons_self)
      have hds : ∀ z ∈ ds, S z := fun z hz =>
        hS z (List.mem_cons_of_mem d (List.mem_cons_of_mem y hz))
      have hlater : S (laterOf d y) := by
        unfold laterOf
        split_ifs
        · exact hy
        · exact hd
      have hrest := List.forall_mem_cons.mpr ⟨hlater, hds⟩
      rcases List.mem_cons.mp hx with rfl | hx
      · exact ih (laterOf_spec hkeep hd hy (Or.inl hA)) _ hrest List.mem_cons_self
      · rcases List.mem_cons.mp hx with rfl | hx
        · exact ih (laterOf_spec hkeep hd hy (Or.inr hA)) _ hrest List.mem_cons_self
        · exact ih hA _ hrest (List.mem_cons_of_mem _ hx)

theorem max?_eq_none {l : List Datetime} (h : max? l = none) : l = [] := by
  cases l with
  | nil => rfl
  | cons d ds => cases h

end Datetime

variable (tz : TimeZone)

/-- `timezone.localtime`, which leaves a datetime of the current time zone as it is. -/
def localtime (value : Datetime) : ℤ × TimeOfDay := value.shown.getD (tz.localtime value.instant)

/-- `_build_local_datetime`. -/
def buildLocalDatetime (date : ℤ) (time : TimeOfDay) : Datetime :=
  ⟨tz.makeAware date time, some (date, time)⟩

/-- The end of the occurrence of a recurring period that covers the datetime, if any. -/
def recurringQuietPeriodEnd (recurrenceDays : List ℕ) (startTime endTime : TimeOfDay)
    (value : Datetime) : Option Datetime :=
  let (day, localTime) := localtime tz value
  if endTime > startTime then
    if weekday day ∈ recurrenceDays ∧ startTime ≤ localTime ∧ localTime < endTime then
      some (buildLocalDatetime tz day endTime)
    else none
  else if weekday day ∈ recurrenceDays ∧ localTime ≥ startTime then
    some (buildLocalDatetime tz (day + 1) endTime)
  -- the previous day's occurrence runs over midnight
  else if (weekday day + 6) % 7 ∈ recurrenceDays ∧ localTime < endTime then
    some (buildLocalDatetime tz day endTime)
  else none

/-- `get_quiet_period_end_for_period`. -/
def getQuietPeriodEndForPeriod (q : AbstractQuietPeriod) (value : Datetime) : Option Datetime :=
  if !q.isActive then none
  else match q.periodType with
    | .once =>
      match q.startAt, q.endAt with
      | some startAt, some endAt =>
        if startAt ≤ value.instant ∧ value.instant < endAt then some (.utc endAt) else none
      | _, _ => none
    | .recurring =>
      match q.startTime, q.endTime with
      | some startTime, some endTime =>
        recurringQuietPeriodEnd tz q.recurrenceDays startTime endTime value
      | _, _ => none

/-- `get_quiet_period_end_from_iterable`: the latest end among the periods that cover the
datetime. -/
def getQuietPeriodEndFromIterable (quietPeriods : List AbstractQuietPeriod)
    (value : Datetime) : Option Datetime :=
  Datetime.max? (quietPeriods.filterMap fun q => getQuietPeriodEndForPeriod tz q value)

/-- `application.quiet_periods.all()`, in primary key order. -/
def applicationQuietPeriodsOf (db : Db) (applicationId : ℕ) : List AbstractQuietPeriod :=
  (db.applicationQuietPeriods.select fun q => q.applicationId == applicationId).map
    (·.toAbstractQuietPeriod)

/-- `get_quiet_period_end_for_application`. -/
def getQuietPeriodEndForApplication (db : Db) (applicationId : ℕ) (value : Datetime) :
    Option Datetime :=
  getQuietPeriodEndFromIterable tz
    ((applicationQuietPeriodsOf db applicationId).filter (·.isActive)) value

/-- The shifting loop of `compute_effective_scheduled_for`, for at most `fuel` shifts. -/
def shiftOutOfQuietPeriods (quietPeriods : List AbstractQuietPeriod) : ℕ → Datetime → Datetime
  | 0, effective => effective
  | fuel + 1, effective =>
    match getQuietPeriodEndFromIterable tz quietPeriods effective with
    | none => effective
    | some quietPeriodEnd =>
      if effective.isBefore quietPeriodEnd then
        shiftOutOfQuietPeriods quietPeriods fuel quietPeriodEnd
      else effective

/-- `compute_effective_scheduled_for`, on the quiet periods of the application and a date from the
database. -/
def computeEffectiveScheduledFor (quietPeriods : List AbstractQuietPeriod)
    (scheduledFor : Option Instant) : Option Instant :=
  scheduledFor.map fun t =>
    (shiftOutOfQuietPeriods tz quietPeriods maxQuietPeriodShiftIterations (.utc t)).instant

end PushIT
