import PushIT.Brussels
import PushIT.QuietPeriods
import PushIT.Sending

/-!
# Deferral by quiet periods

A send pass that falls into a quiet period is deferred to the end of that period, which the source
rebuilds from a time of day.  Where the clock is put back, that time of day is shown twice, and the
end is the first of the two instants: for a pass in the second of the two hours it has passed
already.  In every other case the deferral goes forward.

## Main definitions

* `AbstractQuietPeriod.Covers`: the local time lies in the quiet period.
* `AbstractQuietPeriod.EndsInRepeat`: it does so for the second time, and will once more see the
  end of the period.

## Main results

* `deferral_makes_progress_iff`: the condition under which no deferral goes to the present or the
  past, for a quiet period and for the two deferrals of a send pass.
* `deferred_to_the_past`: a Sunday of October in Brussels.
-/

namespace PushIT

open CivilTime

/-- The local time of the instant lies in the active quiet period. -/
def AbstractQuietPeriod.Covers (tz : TimeZone) (q : AbstractQuietPeriod) (t : Instant) : Prop :=
  q.isActive = true ∧
    match q.periodType with
    | .once => ∃ startAt ∈ q.startAt, ∃ endAt ∈ q.endAt, startAt ≤ t ∧ t < endAt
    | .recurring => ∃ startTime ∈ q.startTime, ∃ endTime ∈ q.endTime,
        if startTime < endTime then
          weekday (tz.localtime t).1 ∈ q.recurrenceDays ∧ startTime ≤ (tz.localtime t).2 ∧
            (tz.localtime t).2 < endTime
        else
          weekday (tz.localtime t).1 ∈ q.recurrenceDays ∧ startTime ≤ (tz.localtime t).2 ∨
            (weekday (tz.localtime t).1 + 6) % 7 ∈ q.recurrenceDays ∧
              (tz.localtime t).2 < endTime

/-- The clock shows its local time for the second time, the quiet period ends later on the same
day, and the clock shows that end twice. -/
def AbstractQuietPeriod.EndsInRepeat (Z : Zone 86400000000) (q : AbstractQuietPeriod)
    (t : Instant) : Prop :=
  q.Covers (.ofZone Z) t ∧ q.periodType = .recurring ∧
    ∃ endTime ∈ q.endTime, (dayAndTime (Z.shows t)).2 < endTime ∧ Z.IsRepeat t ∧
      Z.ShownTwice (reading ((dayAndTime (Z.shows t)).1, endTime))

/-- All quiet periods that cover the instant, and one at least, end in a repeated hour. -/
def OnlyEndInRepeat (Z : Zone 86400000000) (quietPeriods : List AbstractQuietPeriod)
    (t : Instant) : Prop :=
  (∃ q ∈ quietPeriods, q.Covers (.ofZone Z) t) ∧
    ∀ q ∈ quietPeriods, q.Covers (.ofZone Z) t → q.EndsInRepeat Z t

/-! ### The end of one period -/

/-- An end as it is computed at the instant: a later one, or the resolution of a reading less than
a day ahead of the clock. -/
inductive EndsAfter (Z : Zone 86400000000) (t : Instant) : Datetime → Prop
  | later (b) (h : t < b) : EndsAfter Z t (.utc b)
  | ahead (day time) (h : Z.shows t < reading (day, time))
      (hday : reading (day, time) ≤ Z.shows t + 86400000000) :
      EndsAfter Z t (buildLocalDatetime (.ofZone Z) day time)

variable {Z : Zone 86400000000} {q : AbstractQuietPeriod} {t : Instant} {e : Datetime}

/-- The reading a time of day later on the same day has. -/
theorem lt_reading_of_today {r : ℤ} {time : TimeOfDay} (h : (dayAndTime r).2 < time) :
    r < reading ((dayAndTime r).1, time) ∧ reading ((dayAndTime r).1, time) ≤ r + 86400000000 := by
  have := time.isLt
  rw [Fin.lt_def] at h
  simp only [reading, dayAndTime] at h ⊢
  omega

/-- The reading a time of day that is not later has on the next day. -/
theorem lt_reading_of_tomorrow {r : ℤ} {time : TimeOfDay} (h : time ≤ (dayAndTime r).2) :
    r < reading ((dayAndTime r).1 + 1, time) ∧
      reading ((dayAndTime r).1 + 1, time) ≤ r + 86400000000 ∧
      r / 86400000000 < reading ((dayAndTime r).1 + 1, time) / 86400000000 := by
  have := time.isLt
  rw [Fin.le_def] at h
  simp only [reading, dayAndTime] at h ⊢
  omega

/-- What the end found for a recurring period is. -/
private theorem recurringQuietPeriodEnd_cases {startTime endTime : TimeOfDay} {days : List ℕ}
    (h : recurringQuietPeriodEnd (.ofZone Z) days startTime endTime (.utc t) = some e) :
    (dayAndTime (Z.shows t)).2 < endTime ∧
        e = buildLocalDatetime (.ofZone Z) (dayAndTime (Z.shows t)).1 endTime ∨
      endTime ≤ (dayAndTime (Z.shows t)).2 ∧
        e = buildLocalDatetime (.ofZone Z) ((dayAndTime (Z.shows t)).1 + 1) endTime := by
  unfold recurringQuietPeriodEnd at h
  have hlocal : localtime (.ofZone Z) (.utc t) = dayAndTime (Z.shows t) := rfl
  rw [hlocal] at h
  simp only at h
  split_ifs at h with hlt hin hin hover
  · exact Or.inl ⟨hin.2.2, (Option.some.inj h).symm⟩
  · exact Or.inr ⟨(not_lt.mp hlt).trans hin.2, (Option.some.inj h).symm⟩
  · exact Or.inl ⟨hover.2, (Option.some.inj h).symm⟩

private theorem recurringQuietPeriodEnd_isSome {startTime endTime : TimeOfDay} {days : List ℕ} :
    (recurringQuietPeriodEnd (.ofZone Z) days startTime endTime (.utc t)).isSome ↔
      if startTime < endTime then
        weekday (dayAndTime (Z.shows t)).1 ∈ days ∧ startTime ≤ (dayAndTime (Z.shows t)).2 ∧
          (dayAndTime (Z.shows t)).2 < endTime
      else
        weekday (dayAndTime (Z.shows t)).1 ∈ days ∧ startTime ≤ (dayAndTime (Z.shows t)).2 ∨
          (weekday (dayAndTime (Z.shows t)).1 + 6) % 7 ∈ days ∧
            (dayAndTime (Z.shows t)).2 < endTime := by
  unfold recurringQuietPeriodEnd
  have hlocal : localtime (.ofZone Z) (.utc t) = dayAndTime (Z.shows t) := rfl
  rw [hlocal]
  simp only [gt_iff_lt, ge_iff_le]
  split_ifs with hlt hin hin hover
  · simpa using hin
  · simpa using hin
  · simpa using Or.inl hin
  · simpa using Or.inr hover
  · simp [hin, hover]

/-- An end is found exactly for the instants that the period covers. -/
theorem isSome_getQuietPeriodEndForPeriod :
    (getQuietPeriodEndForPeriod (.ofZone Z) q (.utc t)).isSome ↔ q.Covers (.ofZone Z) t := by
  unfold getQuietPeriodEndForPeriod AbstractQuietPeriod.Covers
  cases hactive : q.isActive with
  | false => simp
  | true =>
    cases hperiod : q.periodType with
    | once =>
      cases hstart : q.startAt <;> cases hend : q.endAt <;> simp [Datetime.utc]
      exact Option.isSome_ite
    | recurring =>
      cases hstart : q.startTime <;> cases hend : q.endTime <;> simp
      exact recurringQuietPeriodEnd_isSome

theorem covers_of_getQuietPeriodEndForPeriod
    (h : getQuietPeriodEndForPeriod (.ofZone Z) q (.utc t) = some e) : q.Covers (.ofZone Z) t :=
  isSome_getQuietPeriodEndForPeriod.mp (Option.isSome_of_eq_some h)

/-- What the end found for a period is, and when it is not later than the instant. -/
theorem getQuietPeriodEndForPeriod_spec
    (h : getQuietPeriodEndForPeriod (.ofZone Z) q (.utc t) = some e) :
    EndsAfter Z t e ∧ (e.instant ≤ t ↔ q.EndsInRepeat Z t) := by
  have hcovers := covers_of_getQuietPeriodEndForPeriod h
  unfold getQuietPeriodEndForPeriod at h
  split at h
  · cases h
  · split at h
    · next honce =>
      split at h
      · split_ifs at h with hin
        obtain rfl := Option.some.inj h
        have hnever : ¬q.EndsInRepeat Z t := by
          rintro ⟨-, hrecurring, -⟩
          rw [honce] at hrecurring
          cases hrecurring
        exact ⟨.later _ hin.2, iff_of_false (not_le.mpr hin.2) hnever⟩
      · cases h
    · next hrecurring =>
      split at h
      · next startTime endTime hstart hend =>
        rcases recurringQuietPeriodEnd_cases h with ⟨hahead, rfl⟩ | ⟨hbehind, rfl⟩
        · obtain ⟨hlt, hday⟩ := lt_reading_of_today hahead
          refine ⟨.ahead _ _ hlt hday, (Z.resolve_le_iff hlt hday).trans ?_⟩
          constructor
          · rintro ⟨hrepeat, htwice⟩
            exact ⟨hcovers, hrecurring, endTime, hend, hahead, hrepeat, htwice⟩
          · rintro ⟨-, -, endTime', hend', -, hrepeat, htwice⟩
            obtain rfl : endTime = endTime' := Option.some.inj (hend.symm.trans hend')
            exact ⟨hrepeat, htwice⟩
        · obtain ⟨hlt, hday, hdate⟩ := lt_reading_of_tomorrow hbehind
          refine ⟨.ahead _ _ hlt hday, iff_of_false (not_le.mpr (Z.lt_resolve_of_date hdate)) ?_⟩
          rintro ⟨-, -, endTime', hend', hahead, -⟩
          obtain rfl : endTime = endTime' := Option.some.inj (hend.symm.trans hend')
          exact absurd hahead (not_lt.mpr hbehind)
      · cases h

/-! ### The latest end of several periods -/

/-- Among the ends computed at an instant, one that is not before a later end is later too. -/
private theorem EndsAfter.lt_of_not_isBefore {m : Datetime} (he : EndsAfter Z t e)
    (hm : EndsAfter Z t m) (hle : m.isBefore e = false) (ht : t < e.instant) : t < m.instant := by
  cases he with
  | later b h =>
    have hb : b ≤ m.instant := by
      cases hm with
      | later b' h' => exact not_lt.mp (of_decide_eq_false hle)
      | ahead day time hlt hday => exact not_lt.mp (of_decide_eq_false hle)
    exact h.trans_le hb
  | ahead day time hlt hday =>
    cases hm with
    | later b h => exact h
    | ahead day' time' hlt' hday' =>
      have hreading : reading (day, time) ≤ reading (day', time') := by
        simpa [Datetime.isBefore, buildLocalDatetime] using hle
      by_contra hpast
      exact absurd (Z.resolve_le_of_le hlt.le hreading hday' (not_lt.mp hpast)) (not_le.mpr ht)

/-- The latest end is not later than the instant when no end is. -/
theorem getQuietPeriodEndFromIterable_spec_ofZone {quietPeriods : List AbstractQuietPeriod} :
    (∀ e, getQuietPeriodEndFromIterable (.ofZone Z) quietPeriods (.utc t) = some e →
      t < e.instant) ↔ ¬OnlyEndInRepeat Z quietPeriods t := by
  have hends : ∀ e ∈ quietPeriods.filterMap
      fun q => getQuietPeriodEndForPeriod (.ofZone Z) q (.utc t), EndsAfter Z t e := by
    intro e he
    obtain ⟨q, -, hend⟩ := List.mem_filterMap.mp he
    exact (getQuietPeriodEndForPeriod_spec hend).1
  unfold OnlyEndInRepeat
  constructor
  · rintro hlater ⟨⟨q, hq, hcovers⟩, hall⟩
    obtain ⟨x, hx⟩ := Option.isSome_iff_exists.mp (isSome_getQuietPeriodEndForPeriod.mpr hcovers)
    cases hmax : getQuietPeriodEndFromIterable (.ofZone Z) quietPeriods (.utc t) with
    | none =>
      have hnil := Datetime.max?_eq_none hmax
      exact absurd (List.mem_filterMap.mpr ⟨q, hq, hx⟩) (hnil ▸ List.not_mem_nil)
    | some e =>
      obtain ⟨q', hq', hend⟩ := List.mem_filterMap.mp (Datetime.max?_mem hmax)
      have hcovers' := covers_of_getQuietPeriodEndForPeriod hend
      have hpast := (getQuietPeriodEndForPeriod_spec hend).2.mpr (hall q' hq' hcovers')
      exact absurd (hlater e hmax) (not_lt.mpr hpast)
  · intro hnot e hmax
    obtain ⟨q', hq', hend⟩ := List.mem_filterMap.mp (Datetime.max?_mem hmax)
    have hcovers' := covers_of_getQuietPeriodEndForPeriod hend
    -- some period that covers the instant ends later
    obtain ⟨q, hq, hcovers, hnotRepeat⟩ :
        ∃ q ∈ quietPeriods, q.Covers (.ofZone Z) t ∧ ¬q.EndsInRepeat Z t := by
      by_contra hnone
      push Not at hnone
      exact hnot ⟨⟨q', hq', hcovers'⟩, hnone⟩
    obtain ⟨x, hx⟩ := Option.isSome_iff_exists.mp (isSome_getQuietPeriodEndForPeriod.mpr hcovers)
    have hlater : t < x.instant :=
      not_le.mp fun hle => hnotRepeat ((getQuietPeriodEndForPeriod_spec hx).2.mp hle)
    exact Datetime.max?_spec (S := EndsAfter Z t) (A := fun d => t < d.instant)
      (fun d e hd he hle => hd.lt_of_not_isBefore he hle) hends
      (List.mem_filterMap.mpr ⟨q, hq, hx⟩) hlater hmax

/-! ### The deferrals of a send pass -/

theorem covers_filter_isActive {quietPeriods : List AbstractQuietPeriod} :
    OnlyEndInRepeat Z (quietPeriods.filter (·.isActive)) t ↔ OnlyEndInRepeat Z quietPeriods t := by
  unfold OnlyEndInRepeat
  simp only [List.mem_filter]
  constructor
  · rintro ⟨⟨q, ⟨hq, -⟩, hcovers⟩, hall⟩
    exact ⟨⟨q, hq, hcovers⟩, fun q' hq' h => hall q' ⟨hq', h.1⟩ h⟩
  · rintro ⟨⟨q, hq, hcovers⟩, hall⟩
    exact ⟨⟨q, ⟨hq, hcovers.1⟩, hcovers⟩, fun q' hq' h => hall q' hq'.1 h⟩

theorem getCurrentDeviceQuietPeriodEnd_later_iff {quietPeriods : List AbstractQuietPeriod} :
    (∀ e, getCurrentDeviceQuietPeriodEnd (.ofZone Z) quietPeriods t = some e → t < e) ↔
      ¬OnlyEndInRepeat Z quietPeriods t := by
  rw [← getQuietPeriodEndFromIterable_spec_ofZone]
  unfold getCurrentDeviceQuietPeriodEnd
  constructor
  · exact fun h e he => h e.instant (by rw [he]; rfl)
  · intro h e he
    obtain ⟨d, hd, rfl⟩ := Option.map_eq_some_iff.mp he
    exact h d hd

theorem getCurrentQuietPeriodEnd_later_iff {db : Db} {applicationId : ℕ} :
    (∀ e, getCurrentQuietPeriodEnd (.ofZone Z) db applicationId t = some e → t < e) ↔
      ¬OnlyEndInRepeat Z (applicationQuietPeriodsOf db applicationId) t := by
  rw [← covers_filter_isActive, ← getCurrentDeviceQuietPeriodEnd_later_iff]
  rfl

/-- A quiet period is found to end after the instant unless the end is shown twice and the instant
lies between the two; a send pass is deferred to a later instant unless this is so for every quiet
period, of the application or of the device, that it falls into. -/
theorem deferral_makes_progress_iff (Z : Zone 86400000000) :
    (∀ (q : AbstractQuietPeriod) (t : Instant),
      (∀ e, getQuietPeriodEndForPeriod (.ofZone Z) q (.utc t) = some e → t < e.instant) ↔
        ¬q.EndsInRepeat Z t) ∧
    (∀ (cfg : Settings) (db : Db) (now : Instant) (input : PassInput) (p : Pass),
      cfg.timeZone = .ofZone Z → p.stage = .applicationQuiet →
      ((∀ e, (p.advance cfg now db input).next = some ⟨p.notification, .postponing e⟩ → now < e) ↔
        ¬OnlyEndInRepeat Z (applicationQuietPeriodsOf db p.notification.applicationId) now)) ∧
    ∀ (now : Instant) (f : LoopFrame) (l : LoadedDelivery),
      (∃ e, deliveryDecision (.ofZone Z) now f l = .defer e) →
      ((∀ e, deliveryDecision (.ofZone Z) now f l = .defer e → now < e) ↔
        ¬OnlyEndInRepeat Z l.quietPeriods now) := by
  refine ⟨fun q t => ?_, fun cfg db now input p hzone hstage => ?_, fun now f l hdefer => ?_⟩
  · constructor
    · intro hlater hrepeat
      obtain ⟨e, he⟩ := Option.isSome_iff_exists.mp
        (isSome_getQuietPeriodEndForPeriod.mpr hrepeat.1)
      exact absurd (hlater e he) (not_lt.mpr ((getQuietPeriodEndForPeriod_spec he).2.mpr hrepeat))
    · exact fun hnot e he =>
        not_le.mp fun hle => hnot ((getQuietPeriodEndForPeriod_spec he).2.mp hle)
  · rw [← getCurrentQuietPeriodEnd_later_iff, ← hzone]
    refine forall_congr' fun e => ?_
    unfold Pass.advance
    rw [hstage]
    simp only
    split
    · next e' h => simp [h, Pass.goto]
    · next h => simp [h, Pass.goto]
  · rw [← getCurrentDeviceQuietPeriodEnd_later_iff]
    obtain ⟨e, he⟩ := hdefer
    cases Pass.decides_of_eq he with
    | defer _ _ _ hquiet =>
      constructor
      · intro hlater e' he'
        obtain rfl : e = e' := Option.some.inj (hquiet.symm.trans he')
        exact hlater e he
      · intro hlater e' he'
        obtain rfl : e = e' := by simpa using he.symm.trans he'
        exact hlater e hquiet

/-- Every Sunday from 02:00 to 02:45. -/
def Sample.sundayNight : AbstractQuietPeriod where
  periodType := .recurring
  recurrenceDays := [6]
  startTime := some 7200000000
  endTime := some 9900000000

/-- The configured zone. -/
def Settings.brussels : Settings := { timeZone := .ofZone PushIT.brussels }

/-- 02:30 on the 25th of October 2026, for the second time. -/
def Sample.secondHalfPastTwo : Instant := days 20751 + minutes 90

/-- The server of the sample with a quiet device. -/
def Sample.quietLoaded : LoadedDelivery where
  delivery := Sample.delivery
  device := Sample.device
  quietPeriods := [Sample.sundayNight]

theorem sample_deferral_makes_progress :
    ((∀ e, (Pass.advance .brussels Sample.secondHalfPastTwo Sample.db {}
        ⟨Sample.notification, .applicationQuiet⟩).next =
          some ⟨Sample.notification, .postponing e⟩ → Sample.secondHalfPastTwo < e) ↔
      ¬OnlyEndInRepeat brussels (applicationQuietPeriodsOf Sample.db 1) Sample.secondHalfPastTwo) ∧
    ((∀ e, deliveryDecision (.ofZone brussels) Sample.secondHalfPastTwo
        { applicationIsActive := true, linkedDeviceIds := [1], remaining := [] }
          Sample.quietLoaded = .defer e → Sample.secondHalfPastTwo < e) ↔
      ¬OnlyEndInRepeat brussels [Sample.sundayNight] Sample.secondHalfPastTwo) :=
  ⟨(deferral_makes_progress_iff brussels).2.1 .brussels Sample.db Sample.secondHalfPastTwo {}
      ⟨Sample.notification, .applicationQuiet⟩ rfl rfl,
    (deferral_makes_progress_iff brussels).2.2 Sample.secondHalfPastTwo _ Sample.quietLoaded
      ⟨days 20751 + minutes 45, by decide +kernel⟩⟩

/-- The end found at 02:30 is the first 02:45, of three quarters of an hour before. -/
theorem deferred_to_the_past :
    Sample.sundayNight.WellFormed ∧
      ∃ e, getQuietPeriodEndForPeriod (.ofZone brussels) Sample.sundayNight
          (.utc Sample.secondHalfPastTwo) = some e ∧
        e.instant = Sample.secondHalfPastTwo - minutes 45 ∧
        e.instant < Sample.secondHalfPastTwo := by
  refine ⟨?_, ⟨Sample.secondHalfPastTwo - minutes 45, some (20751, 9900000000)⟩,
    by decide +kernel, rfl, by decide⟩
  simp [AbstractQuietPeriod.WellFormed, Sample.sundayNight]

end PushIT
