import PushIT.Library.CivilTime
import PushIT.Scheduling

/-!
# The configured time zone

`TIME_ZONE = "Europe/Brussels"` (`config/settings/base.py`): the clock is one hour ahead of UTC,
and two hours from the last Sunday of March to the last Sunday of October, both changes at 01:00
UTC.  The rule has been in force since 1996 and is applied to every year here.

## Main definitions

* `TimeZone.ofZone`: the local calendar of a clock.
* `brussels`: the clock of Brussels.
-/

namespace PushIT

open CivilTime

/-- `timezone.localtime` and `timezone.make_aware` with the clock of a zone. -/
def TimeZone.ofZone (Z : Zone 86400000000) : TimeZone where
  localtime t := dayAndTime (Z.shows t)
  makeAware day time := Z.resolve (reading (day, time))
  makeAwareFolded day time := Z.resolveFolded (reading (day, time))

namespace Brussels

/-! ### The years -/

/-- The days from the epoch to the first of January of a year. -/
def firstDay (year : ℤ) : ℤ :=
  365 * (year - 1970) + (year - 1969) / 4 - (year - 1901) / 100 + (year - 1601) / 400

/-- The year a day lies in: the quotient by the mean length of a year is at most one year off. -/
def yearOf (day : ℤ) : ℤ :=
  let guess := 1970 + 400 * day / 146097
  if day < firstDay guess then guess - 1
  else if day < firstDay (guess + 1) then guess
  else guess + 1

theorem yearOf_spec (day : ℤ) : firstDay (yearOf day) ≤ day ∧ day < firstDay (yearOf day + 1) := by
  unfold yearOf
  simp only
  split_ifs with hbefore hin
  · rw [Int.sub_add_cancel]
    unfold firstDay at *
    omega
  · exact ⟨not_lt.mp hbefore, hin⟩
  · unfold firstDay at *
    omega

theorem firstDay_mono {y z : ℤ} (h : y ≤ z) : firstDay y ≤ firstDay z := by
  unfold firstDay
  omega

theorem yearOf_mono {s t : ℤ} (h : s ≤ t) : yearOf s ≤ yearOf t := by
  by_contra hlt
  have := firstDay_mono (show yearOf t + 1 ≤ yearOf s by omega)
  have := (yearOf_spec s).1
  have := (yearOf_spec t).2
  omega

/-! ### Summer -/

/-- The last Sunday up to a day. -/
def sundayUpTo (day : ℤ) : ℤ := day - (day + 4) % 7

/-- Summer begins on the last Sunday of March, at 01:00 UTC. -/
def summerBegins (year : ℤ) : ℤ :=
  sundayUpTo (firstDay (year + 1) - 276) * 86400000000 + 3600000000

/-- Summer ends on the last Sunday of October, at 01:00 UTC. -/
def summerEnds (year : ℤ) : ℤ :=
  sundayUpTo (firstDay (year + 1) - 62) * 86400000000 + 3600000000

/-- The offset of the clock of Brussels, in microseconds. -/
def offset (t : ℤ) : ℤ :=
  let year := yearOf (t / 86400000000)
  if summerBegins year ≤ t ∧ t < summerEnds year then 7200000000 else 3600000000

/-- The seasons of a year, in days: summer begins after two months at least, lasts three at least
and ends two before the year does. -/
theorem summer_spec (year : ℤ) :
    (firstDay year + 60) * 86400000000 ≤ summerBegins year ∧
      summerBegins year + 100 * 86400000000 ≤ summerEnds year ∧
      summerEnds year + 60 * 86400000000 ≤ firstDay (year + 1) * 86400000000 := by
  have hyear : firstDay year + 365 ≤ firstDay (year + 1) ∧
      firstDay (year + 1) ≤ firstDay year + 366 := by
    unfold firstDay
    omega
  unfold summerBegins summerEnds sundayUpTo
  omega

/-- An instant lies in the summer of its year or outside of it. -/
theorem offset_spec (t : ℤ) : ∃ year, firstDay year * 86400000000 ≤ t ∧
    t < firstDay (year + 1) * 86400000000 ∧ year = yearOf (t / 86400000000) ∧
    (summerBegins year ≤ t ∧ t < summerEnds year ∧ offset t = 7200000000 ∨
      ¬(summerBegins year ≤ t ∧ t < summerEnds year) ∧ offset t = 3600000000) := by
  obtain ⟨hfirst, hnext⟩ := yearOf_spec (t / 86400000000)
  refine ⟨yearOf (t / 86400000000), by omega, by omega, rfl, ?_⟩
  unfold offset
  simp only
  split_ifs with h
  · exact Or.inl ⟨h.1, h.2, rfl⟩
  · exact Or.inr ⟨h, rfl⟩

theorem settled {s t u : ℤ} (hst : s ≤ t) (htu : t ≤ u) (hu : u ≤ s + 7 * 86400000000) :
    offset t = offset s ∨ offset t = offset u := by
  obtain ⟨ys, hs, hs', hys, hsummer⟩ := offset_spec s
  obtain ⟨yt, ht, ht', hyt, hsummer'⟩ := offset_spec t
  obtain ⟨yu, hu, hu', hyu, hsummer''⟩ := offset_spec u
  have hle : ys ≤ yt := by
    rw [hys, hyt]
    exact yearOf_mono (Int.ediv_le_ediv (by decide) hst)
  have hle' : yt ≤ yu := by
    rw [hyt, hyu]
    exact yearOf_mono (Int.ediv_le_ediv (by decide) htu)
  clear hys hyt hyu
  rcases (hle.trans hle').eq_or_lt with rfl | hlt
  · obtain rfl : yt = ys := le_antisymm hle' hle
    have := summer_spec yt
    omega
  · -- around the turn of a year it is winter
    have := summer_spec ys
    have := summer_spec yu
    have := firstDay_mono (show ys + 1 ≤ yu by omega)
    rcases hle'.eq_or_lt with rfl | hlt'
    · omega
    · have := firstDay_mono (show yt + 1 ≤ yu by omega)
      have := summer_spec yt
      rcases hle.eq_or_lt with rfl | hlt''
      · omega
      · have := firstDay_mono (show ys + 1 ≤ yt by omega)
        omega

/-- Putting the clock back at 03:00 leaves it on the same day. -/
theorem date_mono {s t : ℤ} (hst : s ≤ t) :
    (s + offset s) / 86400000000 ≤ (t + offset t) / 86400000000 := by
  obtain ⟨ys, hs, hs', hys, hsummer⟩ := offset_spec s
  obtain ⟨yt, ht, ht', hyt, hsummer'⟩ := offset_spec t
  have hle : ys ≤ yt := by
    rw [hys, hyt]
    exact yearOf_mono (Int.ediv_le_ediv (by decide) hst)
  clear hys hyt
  rcases hsummer with ⟨hbegun, hnotEnded, hoff⟩ | ⟨-, hoff⟩
  · rcases hle.eq_or_lt with rfl | hlt
    · have hends : ∃ day, summerEnds ys = day * 86400000000 + 3600000000 := ⟨_, rfl⟩
      obtain ⟨day, hday⟩ := hends
      omega
    · have := summer_spec ys
      have := firstDay_mono (show ys + 1 ≤ yt by omega)
      omega
  · omega

end Brussels

/-- The clock of Brussels. -/
def brussels : Zone 86400000000 where
  day_pos := by decide
  offset := Brussels.offset
  neg_day_le t := by
    obtain ⟨year, -, -, -, h⟩ := Brussels.offset_spec t
    omega
  offset_le t := by
    obtain ⟨year, -, -, -, h⟩ := Brussels.offset_spec t
    omega
  settled _ _ _ := Brussels.settled
  date_mono _ _ := Brussels.date_mono

end PushIT
