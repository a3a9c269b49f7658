import Mathlib.Data.Int.LeastGreatest
import PushIT.Library.Coverage
import PushIT.Views

/-!
# Quiet periods in a zone without clock changes

Where the clock always runs ahead of the instants by the same offset, a quiet period is a family
of intervals of instants: the one between the two dates of a one-time period, and one for every
day of recurrence of a recurring one.  The functions of `notifications/scheduling.py` compute with
that family.

## Main definitions

* `TimeZone.fixed`: the time zone of a fixed offset.
* `Occurs`, `AbstractQuietPeriod.Window`: the calendar a quiet period means.

## Main results

* `recurring_period_means_calendar`: the end found for a recurring period is the end of the one
  occurrence around the instant, and over several periods it is the latest.
* `effective_dates_keep_order`: shifting out of the quiet periods keeps the order of the dates.
* `effective_date_least_free`: when the effective date is the least free instant.
-/

namespace PushIT

open Coverage

/-- The time zone whose clock always runs ahead by `offset`. -/
def TimeZone.fixed (offset : ℤ) : TimeZone where
  localtime t := dayAndTime (t + offset)
  makeAware day time := reading (day, time) - offset

/-! ### The calendar -/

/-- The occurrences of a recurring period on the clock: from the start time of a day of recurrence
to the end time of the same day, or of the next day when that time of day is not a later one. -/
def Occurs (q : AbstractQuietPeriod) (a b : ℤ) : Prop :=
  ∃ day startTime endTime, q.startTime = some startTime ∧ q.endTime = some endTime ∧
    weekday day ∈ q.recurrenceDays ∧ a = reading (day, startTime) ∧
    b = reading (if startTime < endTime then day else day + 1, endTime)

/-- The intervals of instants of an active quiet period. -/
def AbstractQuietPeriod.Window (offset : ℤ) (q : AbstractQuietPeriod) (a b : Instant) : Prop :=
  q.isActive = true ∧
    match q.periodType with
    | .once => q.startAt = some a ∧ q.endAt = some b
    | .recurring => Occurs q (a + offset) (b + offset)

/-- The intervals of the quiet periods of a list. -/
def Windows (offset : ℤ) (quietPeriods : List AbstractQuietPeriod) (a b : Instant) : Prop :=
  ∃ q ∈ quietPeriods, q.Window offset a b

/-- A quiet period as its kind requires: two dates in order and nothing of a recurrence, or days of
recurrence in order with two distinct times of day and no dates. -/
def AbstractQuietPeriod.WellFormed (q : AbstractQuietPeriod) : Prop :=
  match q.periodType with
  | .once => (∃ a ∈ q.startAt, ∃ b ∈ q.endAt, a < b) ∧
      q.recurrenceDays = [] ∧ q.startTime = none ∧ q.endTime = none
  | .recurring => q.recurrenceDays ≠ [] ∧ q.recurrenceDays.Pairwise (· < ·) ∧
      (∀ day ∈ q.recurrenceDays, day ≤ 6) ∧
      (∃ a ∈ q.startTime, ∃ b ∈ q.endTime, a ≠ b) ∧ q.startAt = none ∧ q.endAt = none

/-- No instant lies in two occurrences of a recurring period. -/
theorem Occurs.unique {q : AbstractQuietPeriod} {a b a' b' x : ℤ} (h : Occurs q a b)
    (h' : Occurs q a' b') (ha : a ≤ x) (hb : x < b) (ha' : a' ≤ x) (hb' : x < b') :
    a = a' ∧ b = b' := by
  obtain ⟨day, startTime, endTime, hstart, hend, -, rfl, rfl⟩ := h
  obtain ⟨day', startTime', endTime', hstart', hend', -, rfl, rfl⟩ := h'
  obtain rfl : startTime = startTime' := Option.some.inj (hstart.symm.trans hstart')
  obtain rfl : endTime = endTime' := Option.some.inj (hend.symm.trans hend')
  have hday : day = day' := by
    simp only [reading] at ha hb ha' hb'
    have := startTime.isLt
    have := endTime.isLt
    by_cases hlt : startTime < endTime
    · simp only [hlt, if_true] at hb hb'
      omega
    · simp only [hlt, if_false] at hb hb'
      have := Fin.le_def.mp (not_lt.mp hlt)
      omega
  exact ⟨by rw [hday], by rw [hday]⟩

/-! ### One period -/

@[simp] theorem reading_dayAndTime (r : ℤ) : reading (dayAndTime r) = r := by
  simp only [reading, dayAndTime]
  omega

theorem dayAndTime_reading (s : ℤ × TimeOfDay) : dayAndTime (reading s) = s := by
  obtain ⟨day, time⟩ := s
  have := time.isLt
  refine Prod.ext ?_ (Fin.ext ?_)
  · simp only [dayAndTime, reading]
    omega
  · simp only [dayAndTime, reading]
    omega

/-- The datetime shows what the clock shows at its instant. -/
def Datetime.Regular (offset : ℤ) (d : Datetime) : Prop :=
  ∀ s ∈ d.shown, reading s = d.instant + offset

variable {offset : ℤ} {q : AbstractQuietPeriod} {quietPeriods : List AbstractQuietPeriod}
  {d e : Datetime}

theorem window_iff_of_once (h : q.periodType = .once) {a b : Instant} :
    q.Window offset a b ↔ q.isActive = true ∧ q.startAt = some a ∧ q.endAt = some b := by
  simp only [AbstractQuietPeriod.Window, h]

theorem window_iff_of_recurring (h : q.periodType = .recurring) {a b : Instant} :
    q.Window offset a b ↔ q.isActive = true ∧ Occurs q (a + offset) (b + offset) := by
  simp only [AbstractQuietPeriod.Window, h]

theorem Datetime.regular_utc (offset : ℤ) (t : Instant) : (Datetime.utc t).Regular offset := by
  intro s hs
  simp [Datetime.utc] at hs

theorem regular_buildLocalDatetime (day : ℤ) (time : TimeOfDay) :
    (buildLocalDatetime (.fixed offset) day time).Regular offset := by
  intro s hs
  obtain rfl : (day, time) = s := by simpa [buildLocalDatetime] using hs
  simp [buildLocalDatetime, TimeZone.fixed]

theorem reading_localtime (hd : d.Regular offset) :
    reading (localtime (.fixed offset) d) = d.instant + offset := by
  unfold localtime
  cases hs : d.shown with
  | none => exact reading_dayAndTime _
  | some s => exact hd s hs

theorem Datetime.isBefore_eq (hd : d.Regular offset) (he : e.Regular offset) :
    d.isBefore e = decide (d.instant < e.instant) := by
  unfold isBefore
  split
  · next s s' hs hs' => simp [hd s hs, he s' hs']
  · rfl

theorem weekday_sub_one (day : ℤ) : (weekday day + 6) % 7 = weekday (day - 1) := by
  unfold weekday
  omega

theorem reading_lt_iff {day day' : ℤ} {time time' : TimeOfDay} :
    reading (day, time) < reading (day', time') ↔ day < day' ∨ day = day' ∧ time < time' := by
  have := time.isLt
  have := time'.isLt
  rw [Fin.lt_def]
  simp only [reading]
  omega

theorem reading_le_iff {day day' : ℤ} {time time' : TimeOfDay} :
    reading (day, time) ≤ reading (day', time') ↔ day < day' ∨ day = day' ∧ time ≤ time' := by
  have := time.isLt
  have := time'.isLt
  rw [Fin.le_def]
  simp only [reading]
  omega

/-- The end computed for a recurring period is that of the occurrence the local time lies in. -/
theorem recurringQuietPeriodEnd_eq_some_iff {tz : TimeZone} {days : List ℕ}
    {startTime endTime : TimeOfDay} {d e : Datetime} :
    recurringQuietPeriodEnd tz days startTime endTime d = some e ↔
      ∃ day, weekday day ∈ days ∧ reading (day, startTime) ≤ reading (localtime tz d) ∧
        reading (localtime tz d) < reading (if startTime < endTime then day else day + 1, endTime) ∧
        e = buildLocalDatetime tz (if startTime < endTime then day else day + 1) endTime := by
  unfold recurringQuietPeriodEnd
  generalize localtime tz d = local_
  obtain ⟨today, time⟩ := local_
  simp only [reading_le_iff, reading_lt_iff, gt_iff_lt, ge_iff_le]
  by_cases hlt : startTime < endTime
  · simp only [hlt, if_true]
    constructor
    · intro h
      obtain ⟨⟨hday, hstart, hend⟩, he⟩ := Option.ite_none_right_eq_some.mp h
      exact ⟨today, hday, Or.inr ⟨rfl, hstart⟩, Or.inr ⟨rfl, hend⟩, (Option.some.inj he).symm⟩
    · rintro ⟨day, hday, hbefore | ⟨rfl, hstart⟩, hend, rfl⟩
      · omega
      · have hend : time < endTime := by simpa using hend
        exact if_pos ⟨hday, hstart, hend⟩
  · simp only [hlt, if_false]
    constructor
    · intro h
      split_ifs at h with hin hover
      · exact ⟨today, hin.1, Or.inr ⟨rfl, hin.2⟩, Or.inl (Int.lt_succ today),
          (Option.some.inj h).symm⟩
      · refine ⟨today - 1, weekday_sub_one today ▸ hover.1, Or.inl (Int.sub_one_lt_of_le le_rfl),
          Or.inr ⟨(Int.sub_add_cancel today 1).symm, hover.2⟩, ?_⟩
        rw [Int.sub_add_cancel]
        exact (Option.some.inj h).symm
    · rintro ⟨day, hday, hbefore | ⟨rfl, hstart⟩, hend, rfl⟩
      · obtain hafter | ⟨rfl, hend⟩ := hend
        · omega
        have hnot : ¬startTime ≤ time := not_le.mpr (hend.trans_le (not_lt.mp hlt))
        have hover : (weekday (day + 1) + 6) % 7 ∈ days := by
          rwa [weekday_sub_one, Int.add_sub_cancel]
        rw [if_neg fun h => hnot h.2, if_pos ⟨hover, hend⟩]
      · exact if_pos ⟨hday, hstart⟩

private theorem occurs_of_recurringQuietPeriodEnd {startTime endTime : TimeOfDay}
    (hstart : q.startTime = some startTime) (hend : q.endTime = some endTime)
    (hd : d.Regular offset)
    (h : recurringQuietPeriodEnd (.fixed offset) q.recurrenceDays startTime endTime d = some e) :
    e.Regular offset ∧ ∃ a, Occurs q a (e.instant + offset) ∧ a ≤ d.instant + offset ∧
      d.instant + offset < e.instant + offset := by
  obtain ⟨day, hday, ha, hb, rfl⟩ := recurringQuietPeriodEnd_eq_some_iff.mp h
  rw [reading_localtime hd] at ha hb
  have hinstant (last : ℤ) :
      (buildLocalDatetime (.fixed offset) last endTime).instant + offset = reading (last, endTime) :=
    Int.sub_add_cancel _ _
  rw [hinstant]
  exact ⟨regular_buildLocalDatetime _ _, _,
    ⟨day, startTime, endTime, hstart, hend, hday, rfl, rfl⟩, ha, hb⟩

/-- For a datetime in an occurrence of a recurring period an end is computed. -/
private theorem recurringQuietPeriodEnd_ne_none {startTime endTime : TimeOfDay}
    (hstart : q.startTime = some startTime) (hend : q.endTime = some endTime)
    (hd : d.Regular offset) {a b : ℤ} (h : Occurs q a b) (ha : a ≤ d.instant + offset)
    (hb : d.instant + offset < b) :
    recurringQuietPeriodEnd (.fixed offset) q.recurrenceDays startTime endTime d ≠ none := by
  obtain ⟨day, startTime', endTime', hstart', hend', hday, rfl, rfl⟩ := h
  obtain rfl : startTime = startTime' := Option.some.inj (hstart.symm.trans hstart')
  obtain rfl : endTime = endTime' := Option.some.inj (hend.symm.trans hend')
  rw [← reading_localtime hd] at ha hb
  rw [recurringQuietPeriodEnd_eq_some_iff.mpr ⟨day, hday, ha, hb, rfl⟩]
  exact Option.some_ne_none _

/-- The end found for a period is the end of one of its intervals around the datetime. -/
theorem window_of_getQuietPeriodEndForPeriod (hd : d.Regular offset)
    (h : getQuietPeriodEndForPeriod (.fixed offset) q d = some e) :
    e.Regular offset ∧ ∃ a, q.Window offset a e.instant ∧ a ≤ d.instant ∧
      d.instant < e.instant := by
  unfold getQuietPeriodEndForPeriod at h
  unfold Instant at *
  split at h
  · cases h
  · next hactive =>
    replace hactive : q.isActive = true := by simpa using hactive
    split at h
    · next honce =>
      split at h
      · next startAt endAt hstart hend =>
        split_ifs at h with hin
        obtain rfl := Option.some.inj h
        exact ⟨Datetime.regular_utc offset _, startAt,
          (window_iff_of_once honce).mpr ⟨hactive, hstart, hend⟩, hin⟩
      · cases h
    · next hrecurring =>
      split at h
      · next startTime endTime hstart hend =>
        obtain ⟨hreg, a, hoccurs, ha, hlt⟩ :=
          occurs_of_recurringQuietPeriodEnd hstart hend hd h
        refine ⟨hreg, a - offset, (window_iff_of_recurring hrecurring).mpr ⟨hactive, ?_⟩,
          Int.sub_right_le_of_le_add ha, Int.lt_of_add_lt_add_right hlt⟩
        rwa [Int.sub_add_cancel]
      · cases h

theorem getQuietPeriodEndForPeriod_ne_none (hd : d.Regular offset) {a b : Instant}
    (h : q.Window offset a b) (ha : a ≤ d.instant) (hb : d.instant < b) :
    getQuietPeriodEndForPeriod (.fixed offset) q d ≠ none := by
  unfold getQuietPeriodEndForPeriod
  cases hperiod : q.periodType with
  | once =>
    obtain ⟨hactive, hstart, hend⟩ := (window_iff_of_once hperiod).mp h
    simp [hactive, hstart, hend, ha, hb]
  | recurring =>
    obtain ⟨hactive, hwindow⟩ := (window_iff_of_recurring hperiod).mp h
    have ⟨_, startTime, endTime, hstart, hend, _⟩ := hwindow
    have hfound := recurringQuietPeriodEnd_ne_none hstart hend hd hwindow
      (Int.add_le_add_right ha offset) (Int.add_lt_add_right hb offset)
    simpa [hactive, hstart, hend] using hfound

/-- No instant lies in two intervals of one period. -/
theorem AbstractQuietPeriod.Window.unique {a b a' b' x : Instant} (h : q.Window offset a b)
    (h' : q.Window offset a' b') (ha : a ≤ x) (hb : x < b) (ha' : a' ≤ x) (hb' : x < b') :
    a = a' ∧ b = b' := by
  cases hperiod : q.periodType with
  | once =>
    obtain ⟨-, hstart, hend⟩ := (window_iff_of_once hperiod).mp h
    obtain ⟨-, hstart', hend'⟩ := (window_iff_of_once hperiod).mp h'
    exact ⟨Option.some.inj (hstart.symm.trans hstart'), Option.some.inj (hend.symm.trans hend')⟩
  | recurring =>
    have hoccurs := ((window_iff_of_recurring hperiod).mp h).2
    have hoccurs' := ((window_iff_of_recurring hperiod).mp h').2
    unfold Instant at *
    have := hoccurs.unique (x := x + offset) hoccurs' (by omega) (by omega) (by omega) (by omega)
    omega

/-- The end found for a period, as the calendar has it. -/
theorem getQuietPeriodEndForPeriod_eq_some_iff (hd : d.Regular offset) {b : Instant} :
    (getQuietPeriodEndForPeriod (.fixed offset) q d).map (·.instant) = some b ↔
      ∃ a, q.Window offset a b ∧ a ≤ d.instant ∧ d.instant < b := by
  rw [Option.map_eq_some_iff]
  constructor
  · rintro ⟨e, he, rfl⟩
    exact (window_of_getQuietPeriodEndForPeriod hd he).2
  · rintro ⟨a, hwindow, ha, hb⟩
    obtain ⟨e, he⟩ := Option.ne_none_iff_exists'.mp
      (getQuietPeriodEndForPeriod_ne_none hd hwindow ha hb)
    obtain ⟨-, a', hwindow', ha', hlt⟩ := window_of_getQuietPeriodEndForPeriod hd he
    exact ⟨e, he, (hwindow.unique hwindow' ha hb ha' hlt).2.symm⟩

/-! ### Several periods -/

/-- The latest of datetimes that show what the clock shows. -/
theorem Datetime.instant_le_max? {l : List Datetime} {m : Datetime}
    (hl : ∀ d ∈ l, d.Regular offset) (h : max? l = some m) : ∀ x ∈ l, x.instant ≤ m.instant := by
  intro x hx
  refine max?_spec (A := fun d => x.instant ≤ d.instant) (fun d e hd he hle hxd => ?_) hl hx le_rfl h
  rw [isBefore_eq he hd, decide_eq_false_iff_not] at hle
  exact hxd.trans (not_lt.mp hle)

/-- The ends found for the periods of a list are those of their intervals around the datetime. -/
theorem mem_ends_iff (hd : d.Regular offset) {b : Instant} :
    (∃ e ∈ quietPeriods.filterMap fun q => getQuietPeriodEndForPeriod (.fixed offset) q d,
      e.instant = b) ↔ b ∈ endsAt (Windows offset quietPeriods) d.instant := by
  constructor
  · rintro ⟨e, he, rfl⟩
    obtain ⟨q, hq, hend⟩ := List.mem_filterMap.mp he
    obtain ⟨-, a, hwindow, ha, hlt⟩ := window_of_getQuietPeriodEndForPeriod hd hend
    exact ⟨a, ⟨q, hq, hwindow⟩, ha, hlt⟩
  · rintro ⟨a, ⟨q, hq, hwindow⟩, ha, hlt⟩
    have hfound := (getQuietPeriodEndForPeriod_eq_some_iff hd).mpr ⟨a, hwindow, ha, hlt⟩
    obtain ⟨e, he, rfl⟩ := Option.map_eq_some_iff.mp hfound
    exact ⟨e, List.mem_filterMap.mpr ⟨q, hq, he⟩, rfl⟩

/-- Over several periods the latest end is found. -/
theorem getQuietPeriodEndFromIterable_spec (quietPeriods : List AbstractQuietPeriod)
    (hd : d.Regular offset) :
    match getQuietPeriodEndFromIterable (.fixed offset) quietPeriods d with
    | none => Free (Windows offset quietPeriods) d.instant
    | some e => e.Regular offset ∧ IsGreatest (endsAt (Windows offset quietPeriods) d.instant)
        e.instant := by
  have hregular : ∀ e ∈ quietPeriods.filterMap
      fun q => getQuietPeriodEndForPeriod (.fixed offset) q d, e.Regular offset := by
    intro e he
    obtain ⟨q, -, hend⟩ := List.mem_filterMap.mp he
    exact (window_of_getQuietPeriodEndForPeriod hd hend).1
  unfold getQuietPeriodEndFromIterable
  split
  · next h =>
    refine Set.eq_empty_of_forall_notMem fun b hb => ?_
    obtain ⟨e, he, -⟩ := (mem_ends_iff hd).mpr hb
    rw [Datetime.max?_eq_none h] at he
    cases he
  · next e h =>
    have hmem := Datetime.max?_mem h
    refine ⟨hregular e hmem, (mem_ends_iff hd).mp ⟨e, hmem, rfl⟩, fun b hb => ?_⟩
    obtain ⟨x, hx, rfl⟩ := (mem_ends_iff hd).mpr hb
    exact Datetime.instant_le_max? hregular h x hx

/-! ### Shifting -/

/-- The shift out of the quiet periods an instant lies in. -/
def quietJump (offset : ℤ) (quietPeriods : List AbstractQuietPeriod) (t : Instant) :
    Option Instant :=
  (getQuietPeriodEndFromIterable (.fixed offset) quietPeriods (.utc t)).map (·.instant)

theorem leadsOut_quietJump (offset : ℤ) (quietPeriods : List AbstractQuietPeriod) :
    LeadsOut (Windows offset quietPeriods) (quietJump offset quietPeriods) where
  free t h := by
    have hspec := getQuietPeriodEndFromIterable_spec quietPeriods
      (Datetime.regular_utc offset t)
    rw [Option.map_eq_none_iff.mp h] at hspec
    exact hspec
  greatest t b h := by
    have hspec := getQuietPeriodEndFromIterable_spec quietPeriods
      (Datetime.regular_utc offset t)
    obtain ⟨e, he, rfl⟩ := Option.map_eq_some_iff.mp h
    rw [he] at hspec
    exact hspec.2

/-- The loop of the source makes the same jumps, on datetimes of either kind. -/
theorem shiftOutOfQuietPeriods_instant (n : ℕ) (hd : d.Regular offset) :
    (shiftOutOfQuietPeriods (.fixed offset) quietPeriods n d).instant =
      (exit (quietJump offset quietPeriods))^[n] d.instant := by
  have hj := leadsOut_quietJump offset quietPeriods
  induction n generalizing d with
  | zero => rfl
  | succ n ih =>
    have hspec := getQuietPeriodEndFromIterable_spec quietPeriods hd
    unfold shiftOutOfQuietPeriods
    split
    · next h =>
      rw [h] at hspec
      exact (hj.iterate_eq_self hspec (n + 1)).symm
    · next e h =>
      rw [h] at hspec
      obtain ⟨he, hgreatest⟩ := hspec
      obtain ⟨-, -, -, hlt⟩ := hgreatest.1
      rw [Datetime.isBefore_eq hd he, if_pos (decide_eq_true hlt), ih he,
        Function.iterate_succ_apply, exit_of_some (hj.eq_some hgreatest)]

theorem computeEffectiveScheduledFor_some (offset : ℤ) (quietPeriods : List AbstractQuietPeriod)
    (t : Instant) :
    computeEffectiveScheduledFor (.fixed offset) quietPeriods (some t) =
      some ((exit (quietJump offset quietPeriods))^[maxQuietPeriodShiftIterations] t) :=
  congrArg some (shiftOutOfQuietPeriods_instant _ (Datetime.regular_utc offset t))

/-! ### What the dates mean -/

/-- The end found for an active recurring period is the end of the occurrence the instant lies in,
of which there is one at most; and over any quiet periods the latest end of the intervals around
the instant is found, or none when there is no such interval. -/
theorem recurring_period_means_calendar (offset : ℤ) :
    (∀ q : AbstractQuietPeriod, q.isActive = true → q.periodType = .recurring →
      ∀ t e : Instant,
        (getQuietPeriodEndForPeriod (.fixed offset) q (.utc t)).map (·.instant) = some e ↔
          ∃ a, Occurs q a (e + offset) ∧ a ≤ t + offset ∧ t + offset < e + offset) ∧
    (∀ (q : AbstractQuietPeriod) (a b a' b' x : ℤ), Occurs q a b → Occurs q a' b' →
      a ≤ x → x < b → a' ≤ x → x < b' → a = a' ∧ b = b') ∧
    ∀ (quietPeriods : List AbstractQuietPeriod) (t : Instant),
      match getQuietPeriodEndFromIterable (.fixed offset) quietPeriods (.utc t) with
      | none => endsAt (Windows offset quietPeriods) t = ∅
      | some e => IsGreatest (endsAt (Windows offset quietPeriods) t) e.instant := by
  refine ⟨fun q hactive hrecurring t e => ?_, fun q a b a' b' x h h' => h.unique h', ?_⟩
  · rw [getQuietPeriodEndForPeriod_eq_some_iff (Datetime.regular_utc offset t)]
    simp only [window_iff_of_recurring hrecurring]
    constructor
    · rintro ⟨a, ⟨-, hoccurs⟩, ha, hb⟩
      exact ⟨_, hoccurs, Int.add_le_add_right ha offset, Int.add_lt_add_right hb offset⟩
    · rintro ⟨a, hoccurs, ha, hb⟩
      refine ⟨a - offset, ⟨hactive, ?_⟩, Int.sub_right_le_of_le_add ha,
        Int.lt_of_add_lt_add_right hb⟩
      rwa [Int.sub_add_cancel]
  · intro quietPeriods t
    have hspec := getQuietPeriodEndFromIterable_spec quietPeriods
      (Datetime.regular_utc offset t)
    split at hspec
    · exact hspec
    · exact hspec.2

/-- Every Monday from 22:00 to 06:00. -/
def Sample.mondayNight : AbstractQuietPeriod where
  periodType := .recurring
  recurrenceDays := [0]
  startTime := some 79200000000
  endTime := some 21600000000

/-- The first Tuesday of the epoch, which began on a Thursday, is quiet until 06:00. -/
theorem mondayNight_means_calendar :
    (getQuietPeriodEndForPeriod (.fixed 0) Sample.mondayNight (.utc (minutes 7380))).map (·.instant) =
        some (minutes 7560) ∧
      ∃ a, Occurs Sample.mondayNight a (minutes 7560 + 0) ∧ a ≤ minutes 7380 + 0 ∧
        minutes 7380 + 0 < minutes 7560 + 0 := by
  have hend : (getQuietPeriodEndForPeriod (.fixed 0) Sample.mondayNight (.utc (minutes 7380))).map
      (·.instant) = some (minutes 7560) := by decide
  exact ⟨hend, ((recurring_period_means_calendar 0).1 Sample.mondayNight rfl rfl _ _).mp hend⟩

/-- Quiet periods do not put a date back, and do not change the order of two dates, of two
scheduled notifications of one application either. -/
theorem effective_dates_keep_order (offset : ℤ) :
    (∀ (quietPeriods : List AbstractQuietPeriod) (t₁ t₂ : Instant), t₁ ≤ t₂ →
      ∃ e₁ e₂, computeEffectiveScheduledFor (.fixed offset) quietPeriods (some t₁) = some e₁ ∧
        computeEffectiveScheduledFor (.fixed offset) quietPeriods (some t₂) = some e₂ ∧
        t₁ ≤ e₁ ∧ t₂ ≤ e₂ ∧ e₁ ≤ e₂) ∧
    ∀ (db : Db) (n₁ n₂ : Notification) (t₁ t₂ : Instant), n₁.applicationId = n₂.applicationId →
      n₁.scheduledFor = some t₁ → n₂.scheduledFor = some t₂ → t₁ ≤ t₂ →
      ∃ e₁ e₂, effectiveScheduledFor (.fixed offset) db n₁ = some e₁ ∧
        effectiveScheduledFor (.fixed offset) db n₂ = some e₂ ∧ e₁ ≤ e₂ := by
  have hkeep (quietPeriods : List AbstractQuietPeriod) {t₁ t₂ : Instant} (h : t₁ ≤ t₂) :=
    (leadsOut_quietJump offset quietPeriods).iterate_mono maxQuietPeriodShiftIterations h
  constructor
  · intro quietPeriods t₁ t₂ h
    have hj := leadsOut_quietJump offset quietPeriods
    exact ⟨_, _, computeEffectiveScheduledFor_some _ _ _, computeEffectiveScheduledFor_some _ _ _,
      hj.le_iterate _ t₁, hj.le_iterate _ t₂, hkeep quietPeriods h⟩
  · intro db n₁ n₂ t₁ t₂ happ hn₁ hn₂ h
    unfold effectiveScheduledFor
    rw [hn₁, hn₂, happ]
    exact ⟨_, _, computeEffectiveScheduledFor_some _ _ _, computeEffectiveScheduledFor_some _ _ _,
      hkeep _ h⟩

theorem sample_dates_keep_order :
    ∃ e₁ e₂,
      computeEffectiveScheduledFor (.fixed 0) [Sample.mondayNight] (some (minutes 7200)) = some e₁ ∧
      computeEffectiveScheduledFor (.fixed 0) [Sample.mondayNight] (some (minutes 7380)) = some e₂ ∧
      minutes 7200 ≤ e₁ ∧ minutes 7380 ≤ e₂ ∧ e₁ ≤ e₂ :=
  (effective_dates_keep_order 0).1 [Sample.mondayNight] _ _ (by decide)

/-- Where some instant from a date on is free, there is a least one.  The effective date does not
pass over it, and it is the effective date exactly when the bounded number of shifts suffices to
come to it, each to the latest end of the intervals around the date. -/
theorem effective_date_least_free (offset : ℤ) (quietPeriods : List AbstractQuietPeriod)
    (t : Instant) (h : ∃ x, t ≤ x ∧ Free (Windows offset quietPeriods) x) :
    ∃ e f, computeEffectiveScheduledFor (.fixed offset) quietPeriods (some t) = some e ∧
      IsLeast {x | t ≤ x ∧ Free (Windows offset quietPeriods) x} f ∧ t ≤ e ∧ e ≤ f ∧
      (e = f ↔ ∃ m ≤ maxQuietPeriodShiftIterations,
        Reaches (Windows offset quietPeriods) m t f) := by
  have hj := leadsOut_quietJump offset quietPeriods
  obtain ⟨f, hf⟩ : ∃ f, IsLeast {x | t ≤ x ∧ Free (Windows offset quietPeriods) x} f :=
    Int.exists_least_of_bdd ⟨t, fun x hx => hx.1⟩ h
  exact ⟨_, f, computeEffectiveScheduledFor_some _ _ _, hf, hj.le_iterate _ t,
    hj.iterate_le hf.1.1 hf.1.2, hj.iterate_eq_iff hf⟩

theorem mondayNight_least_free :
    ∃ e f,
      computeEffectiveScheduledFor (.fixed 0) [Sample.mondayNight] (some (minutes 7380)) = some e ∧
      IsLeast {x | minutes 7380 ≤ x ∧ Free (Windows 0 [Sample.mondayNight]) x} f ∧ minutes 7380 ≤ e ∧
      e ≤ f ∧ (e = f ↔ ∃ m ≤ maxQuietPeriodShiftIterations,
        Reaches (Windows 0 [Sample.mondayNight]) m (minutes 7380) f) :=
  effective_date_least_free 0 [Sample.mondayNight] (minutes 7380)
    ⟨minutes 7560, by decide, (leadsOut_quietJump 0 [Sample.mondayNight]).free _ (by decide)⟩

/-- One-time periods that adjoin one another, one more than the shifts that are made. -/
def Sample.adjoining : List AbstractQuietPeriod :=
  (List.range 33).map fun i => { startAt := some (i : ℤ), endAt := some ((i : ℤ) + 1) }

/-- The effective date is still covered when the shifts run out, although a later one is free. -/
theorem adjoining_periods_exceed_shifts :
    (∀ q ∈ Sample.adjoining, q.WellFormed) ∧ (∃ x, 0 ≤ x ∧ Free (Windows 0 Sample.adjoining) x) ∧
      computeEffectiveScheduledFor (.fixed 0) Sample.adjoining (some 0) = some 32 ∧
      ¬IsLeast {x | 0 ≤ x ∧ Free (Windows 0 Sample.adjoining) x} 32 := by
  have hj := leadsOut_quietJump 0 Sample.adjoining
  refine ⟨?_, ⟨33, by decide, hj.free 33 (by decide)⟩, by decide +kernel, fun hleast => ?_⟩
  · intro q hq
    obtain ⟨i, -, rfl⟩ := List.mem_map.mp hq
    exact ⟨⟨_, rfl, _, rfl, Int.lt_succ _⟩, rfl, rfl, rfl⟩
  · have hjump : quietJump 0 Sample.adjoining 32 = some 33 := by decide
    rw [hj.eq_none hleast.1.2] at hjump
    cases hjump

end PushIT
