import Mathlib.Algebra.Order.Group.Int
import Mathlib.Order.Bounds.Basic

/-!
# Clocks of a time zone

An instant and the reading of a clock are integers that count the same unit, a day having `day` of
them; at the instant `t` the clock of a zone shows `t + offset t`.  A clock change that puts the
clock back makes it show some readings twice, one that puts it forward skips some readings.  A
reading is resolved to the first instant at which the clock shows it, and a skipped reading with
the offset that was in force before the change.

## Main definitions

* `CivilTime.Zone`, `CivilTime.Zone.shows`: a zone and its clock.
* `CivilTime.Zone.resolve`, `CivilTime.Zone.resolveFolded`: the first and the last instant of a
  reading.
* `CivilTime.Zone.IsRepeat`, `CivilTime.Zone.ShownTwice`: the second showing of a reading, and the
  readings that have one.

## Main results

* `CivilTime.Zone.resolve_le`, `CivilTime.Zone.shows_resolve`, `CivilTime.Zone.le_shows_resolve`:
  what resolving does with readings that are shown and with those that are skipped.
* `CivilTime.Zone.resolve_le_iff`: when a later reading of the same day resolves to an instant that
  has passed.
* `CivilTime.Zone.resolveFolded_ne_iff`: the readings that stand for two instants.
-/

namespace CivilTime

/-- The offsets of a time zone: at most a day, changed once a week at most, and never so that the
clock goes back to the day before. -/
structure Zone (day : ℤ) where
  day_pos : 0 < day
  offset : ℤ → ℤ
  neg_day_le : ∀ t, -day ≤ offset t
  offset_le : ∀ t, offset t ≤ day
  settled : ∀ s t u, s ≤ t → t ≤ u → u ≤ s + 7 * day → offset t = offset s ∨ offset t = offset u
  date_mono : ∀ s t, s ≤ t → (s + offset s) / day ≤ (t + offset t) / day

namespace Zone

variable {day : ℤ} (Z : Zone day)

/-- The reading of the clock at an instant. -/
def shows (t : ℤ) : ℤ := t + Z.offset t

/-- The instant of a reading.  The offset before a change counts until the clock would have come
past the change with either offset. -/
def resolve (w : ℤ) : ℤ :=
  let before := Z.offset (w - day)
  let after := Z.offset (w + day)
  if Z.offset (w - max before after) = before then w - before else w - after

/-- The last instant of a reading, and for a skipped reading the one with the offset that came into
force with the change. -/
def resolveFolded (w : ℤ) : ℤ :=
  let before := Z.offset (w - day)
  let after := Z.offset (w + day)
  if Z.offset (w - min before after) = after then w - after else w - before

/-- The clock has shown the reading of this instant before. -/
def IsRepeat (t : ℤ) : Prop := Z.resolve (Z.shows t) ≠ t

/-- The clock shows the reading at two instants. -/
def ShownTwice (w : ℤ) : Prop := ∃ s t, s < t ∧ Z.shows s = w ∧ Z.shows t = w

/-- Around a reading the offset is the one of the day before or the one of the day after. -/
private theorem offset_cases {w t : ℤ} (h : w - day ≤ t) (h' : t ≤ w + day) :
    Z.offset t = Z.offset (w - day) ∨ Z.offset t = Z.offset (w + day) := by
  have := Z.neg_day_le t
  have := Z.offset_le t
  exact Z.settled _ _ _ h h' (by omega)

/-- Once it has changed, the offset stays for the rest of the week. -/
private theorem offset_stays {s t u : ℤ} (hst : s ≤ t) (htu : t ≤ u) (hu : u ≤ s + 7 * day)
    (hchanged : Z.offset t ≠ Z.offset s) : Z.offset u = Z.offset t :=
  ((Z.settled s t u hst htu hu).resolve_left hchanged).symm

/-- The offset a reading is resolved with, and what that says about the change nearby. -/
private theorem resolve_cases (w : ℤ) :
    (Z.resolve w = w - Z.offset (w - day) ∧
      (Z.offset (w - Z.offset (w - day)) = Z.offset (w - day) ∨
        Z.offset (w - day) < Z.offset (w + day) ∧
          Z.offset (w - Z.offset (w + day)) = Z.offset (w - day))) ∨
    (Z.resolve w = w - Z.offset (w + day) ∧
      Z.offset (w - day) ≠ Z.offset (w + day) ∧
        Z.offset (w - max (Z.offset (w - day)) (Z.offset (w + day))) = Z.offset (w + day)) := by
  have hlow := Z.neg_day_le
  have hhigh := Z.offset_le
  unfold resolve
  simp only
  split
  · next h =>
    refine Or.inl ⟨rfl, ?_⟩
    rcases le_or_gt (Z.offset (w + day)) (Z.offset (w - day)) with hle | hlt
    · exact Or.inl (by rwa [max_eq_left hle] at h)
    · exact Or.inr ⟨hlt, by rwa [max_eq_right hlt.le] at h⟩
  · next h =>
    have hcases := Z.offset_cases (w := w)
      (t := w - max (Z.offset (w - day)) (Z.offset (w + day)))
      (by have := hhigh (w - day); have := hhigh (w + day); omega)
      (by have := hlow (w - day); omega)
    have hafter := hcases.resolve_left h
    exact Or.inr ⟨rfl, fun heq => h (hafter.trans heq.symm), hafter⟩

private theorem resolve_spec {w t : ℤ} (h : Z.shows t = w) :
    Z.resolve w ≤ t ∧ Z.shows (Z.resolve w) = w := by
  have hlow := Z.neg_day_le
  have hhigh := Z.offset_le
  unfold shows at h ⊢
  have ht : w - day ≤ t ∧ t ≤ w + day := by
    have := hlow t
    have := hhigh t
    omega
  rcases Z.resolve_cases w with ⟨he, hsame | ⟨hlt, hahead⟩⟩ | ⟨he, hne, hmax⟩ <;> rw [he]
  · refine ⟨?_, by omega⟩
    rcases Z.offset_cases ht.1 ht.2 with hoff | hoff
    · omega
    · -- the offset of `t` came after the one the reading is resolved with
      by_contra hlt
      have := Z.settled (w - day) t (w - Z.offset (w - day)) ht.1 (by omega)
        (by have := hlow (w - day); omega)
      omega
  · rcases Z.offset_cases ht.1 ht.2 with hoff | hoff
    · have htw : t = w - Z.offset (w - day) := by omega
      rw [← htw]
      omega
    · have htw : t = w - Z.offset (w + day) := by omega
      rw [← htw] at hahead
      omega
  · rcases Z.offset_cases ht.1 ht.2 with hoff | hoff
    · have htw : t = w - Z.offset (w - day) := by omega
      rcases le_or_gt (Z.offset (w + day)) (Z.offset (w - day)) with hle | hlt
      · rw [max_eq_left hle, ← htw] at hmax
        omega
      · rw [max_eq_right hlt.le] at hmax
        have := Z.offset_stays (s := w - day) (t := w - Z.offset (w + day)) (u := t)
          (by have := hhigh (w + day); omega) (by omega) (by omega) (by omega)
        omega
    · have htw : t = w - Z.offset (w + day) := by omega
      rw [← htw]
      omega

variable {Z}

/-- A reading is resolved to the first instant that shows it. -/
theorem resolve_le {w t : ℤ} (h : Z.shows t = w) : Z.resolve w ≤ t :=
  (Z.resolve_spec h).1

theorem shows_resolve {w t : ℤ} (h : Z.shows t = w) : Z.shows (Z.resolve w) = w :=
  (Z.resolve_spec h).2

variable (Z)

/-- A skipped reading is resolved to an instant that shows a later one. -/
theorem le_shows_resolve (w : ℤ) : w ≤ Z.shows (Z.resolve w) := by
  have hlow := Z.neg_day_le
  have hhigh := Z.offset_le
  unfold shows
  rcases Z.resolve_cases w with ⟨he, hsame | ⟨hlt, -⟩⟩ | ⟨he, hne, hmax⟩ <;> rw [he]
  · omega
  · have := Z.offset_cases (w := w) (t := w - Z.offset (w - day))
      (by have := hhigh (w - day); omega) (by have := hlow (w - day); omega)
    omega
  · rcases le_or_gt (Z.offset (w + day)) (Z.offset (w - day)) with hle | hlt
    · have := Z.offset_cases (w := w) (t := w - Z.offset (w + day))
        (by have := hhigh (w + day); omega) (by have := hlow (w + day); omega)
      omega
    · rw [max_eq_right hlt.le] at hmax
      omega

theorem isRepeat_iff (t : ℤ) : Z.IsRepeat t ↔ ∃ s < t, Z.shows s = Z.shows t := by
  constructor
  · exact fun h => ⟨_, lt_of_le_of_ne (resolve_le rfl) h, shows_resolve rfl⟩
  · rintro ⟨s, hst, hs⟩ heq
    exact absurd (resolve_le hs) (not_le.mpr (heq.symm ▸ hst))

/-- A reading of a later day has not passed. -/
theorem lt_resolve_of_date {w t : ℤ} (h : Z.shows t / day < w / day) : t < Z.resolve w := by
  by_contra hle
  have hdate := Z.date_mono _ _ (not_lt.mp hle)
  exact absurd ((Int.ediv_le_ediv Z.day_pos (Z.le_shows_resolve w)).trans hdate) (not_le.mpr h)

/-- A reading that is still ahead on the clock may have passed: when the clock has been put back
and shows both readings for the second time. -/
theorem resolve_le_iff {w t : ℤ} (h : Z.shows t < w) (hday : w ≤ Z.shows t + day) :
    Z.resolve w ≤ t ↔ Z.IsRepeat t ∧ Z.ShownTwice w := by
  have hlow := Z.neg_day_le
  have hhigh := Z.offset_le
  rw [isRepeat_iff]
  unfold ShownTwice
  unfold shows at h hday ⊢
  constructor
  · intro hle
    have ht : w - day ≤ t ∧ t ≤ w + day := by
      have := hlow t
      have := hhigh (w - day)
      have := hhigh (w + day)
      rcases Z.resolve_cases w with ⟨he, -⟩ | ⟨he, -⟩ <;> omega
    -- the first showing of `w` and `t` lie on both sides of a change
    have hchange : Z.offset (w - Z.offset (w - day)) = Z.offset (w - day) ∧
        Z.offset t = Z.offset (w + day) ∧ Z.offset t < Z.offset (w - day) ∧
        w - Z.offset (w - day) ≤ t := by
      rcases Z.resolve_cases w with ⟨he, hsame⟩ | ⟨he, hne, hmax⟩
      · have := Z.offset_cases ht.1 ht.2
        omega
      · have hcases := Z.offset_cases ht.1 ht.2
        have hlt : Z.offset (w - day) < Z.offset (w + day) := by omega
        rw [max_eq_right hlt.le] at hmax
        have := Z.offset_stays (s := w - day) (t := w - Z.offset (w + day)) (u := t)
          (by have := hhigh (w + day); omega) (by omega) (by omega) (by omega)
        omega
    obtain ⟨hfirst, hafter, hlt, hle'⟩ := hchange
    have hsecond : Z.offset (w - Z.offset t) = Z.offset t :=
      Z.offset_stays (s := w - Z.offset (w - day)) hle' (by omega)
        (by have := hlow t; have := hhigh (w - day); omega) (by omega)
    have hearlier : Z.offset (t + Z.offset t - Z.offset (w - day)) = Z.offset (w - day) := by
      have := Z.settled (t + Z.offset t - Z.offset (w - day)) (w - Z.offset (w - day)) t (by omega)
        hle' (by have := hlow t; have := hhigh (w - day); omega)
      omega
    exact ⟨⟨t + Z.offset t - Z.offset (w - day), by omega, by omega⟩,
      w - Z.offset (w - day), w - Z.offset t, by omega, by omega, by omega⟩
  · rintro ⟨⟨s, hst, hs⟩, p, q, hpq, hp, hq⟩
    by_contra hlt
    have hpt : t < p := (not_le.mp hlt).trans_le (resolve_le hp)
    have := hlow q
    have := hhigh s
    -- `s` and `t`, `p` and `q` would lie on both sides of two changes
    have hkeep := fun u => Z.offset_stays (s := s) (t := t) (u := u) hst.le
    have := hkeep p hpt.le (by omega) (by omega)
    have := hkeep q (by omega) (by omega) (by omega)
    omega

/-- A reading between the clock and one that has passed has passed too. -/
theorem resolve_le_of_le {w w' t : ℤ} (ht : Z.shows t ≤ w) (hw : w ≤ w')
    (hday : w' ≤ Z.shows t + day) (h : Z.resolve w' ≤ t) : Z.resolve w ≤ t := by
  rcases (ht.trans hw).eq_or_lt with heq | hlt
  · obtain rfl : Z.shows t = w := le_antisymm ht (hw.trans heq.ge)
    exact resolve_le rfl
  · obtain ⟨hrepeat, p, q, -, hp, -⟩ := (Z.resolve_le_iff hlt hday).mp h
    obtain ⟨s, hst, hs⟩ := (Z.isRepeat_iff t).mp hrepeat
    replace hp : Z.shows (Z.resolve w') = w' := shows_resolve hp
    generalize Z.resolve w' = p at h hp
    have := Z.neg_day_le
    have hnear : s ≤ p + 3 * day ∧ p ≤ s + 3 * day ∧ t ≤ s + 3 * day ∧ t ≤ p + 3 * day := by
      have := Z.neg_day_le t
      have := Z.offset_le s
      have := Z.offset_le p
      unfold shows at *
      omega
    unfold shows at *
    -- both first showings lie before the change, and so does what is between them
    have hbefore : Z.offset p = Z.offset s := by
      rcases le_total s p with hsp | hps
      · have := Z.settled s p t hsp h (by omega)
        omega
      · have := Z.settled p s t hps hst.le (by omega)
        omega
    have hbetween := Z.settled s (w - Z.offset s) p (by omega) (by omega) (by omega)
    have hshows : Z.shows (w - Z.offset s) = w := by
      unfold shows
      omega
    exact (resolve_le hshows).trans (by omega)

/-- Readings that are shown once are in the order of their instants. -/
theorem shows_lt_iff {s t : ℤ} (hs : ¬Z.ShownTwice (Z.shows s)) (ht : ¬Z.ShownTwice (Z.shows t)) :
    Z.shows s < Z.shows t ↔ s < t := by
  have hmono : ∀ {s t}, ¬Z.ShownTwice (Z.shows s) → s < t → Z.shows s < Z.shows t := by
    intro s t hs hst
    rcases lt_trichotomy (Z.shows s) (Z.shows t) with hlt | heq | hgt
    · exact hlt
    · exact absurd ⟨s, t, hst, rfl, heq.symm⟩ hs
    · -- the clock was put back between the two, on one day
      have hdate := Z.date_mono s t hst.le
      have hday : Z.shows s ≤ Z.shows t + day := by
        have hs_lt := Int.lt_ediv_add_one_mul_self (Z.shows s) Z.day_pos
        have ht_le := Int.ediv_mul_le (Z.shows t) Z.day_pos.ne'
        have hmul := Int.mul_le_mul_of_nonneg_right hdate Z.day_pos.le
        rw [Int.add_mul, Int.one_mul] at hs_lt
        unfold shows at *
        omega
      exact absurd ((Z.resolve_le_iff hgt hday).mp ((resolve_le rfl).trans hst.le)).2 hs
  constructor
  · intro hlt
    by_contra hle
    rcases (not_lt.mp hle).eq_or_lt with rfl | hts
    · exact lt_irrefl _ hlt
    · exact lt_asymm hlt (hmono ht hts)
  · exact hmono hs

/-- A reading stands for two instants exactly when the clock shows it twice or not at all. -/
theorem resolveFolded_ne_iff (w : ℤ) :
    Z.resolveFolded w ≠ Z.resolve w ↔ Z.ShownTwice w ∨ ∀ t, Z.shows t ≠ w := by
  have hlow := Z.neg_day_le
  have hhigh := Z.offset_le
  have hcases : ∀ t, w - day ≤ t → t ≤ w + day →
      Z.offset t = Z.offset (w - day) ∨ Z.offset t = Z.offset (w + day) := fun t => Z.offset_cases
  have hbefore := hcases (w - Z.offset (w - day))
    (by have := hhigh (w - day); omega) (by have := hlow (w - day); omega)
  have hafter := hcases (w - Z.offset (w + day))
    (by have := hhigh (w + day); omega) (by have := hlow (w + day); omega)
  -- once changed, the offset is not the old one again
  have hstays : ∀ t u, w - day ≤ t → t ≤ u → u ≤ w + day → Z.offset t ≠ Z.offset (w - day) →
      Z.offset u = Z.offset t := fun t u ht htu hu =>
    Z.offset_stays ht htu (by have := Z.day_pos; omega)
  have hnear : ∀ t, Z.shows t = w → w - day ≤ t ∧ t ≤ w + day := by
    intro t ht
    unfold shows at ht
    have := hlow t
    have := hhigh t
    omega
  have hdiffers : Z.resolveFolded w ≠ Z.resolve w ↔
      Z.offset (w - day) ≠ Z.offset (w + day) ∧
        Z.offset (w - max (Z.offset (w - day)) (Z.offset (w + day))) = Z.offset (w - day) ∧
        Z.offset (w - min (Z.offset (w - day)) (Z.offset (w + day))) = Z.offset (w + day) := by
    have hchange := hstays (w - max (Z.offset (w - day)) (Z.offset (w + day)))
      (w - min (Z.offset (w - day)) (Z.offset (w + day)))
      (by have := hhigh (w - day); have := hhigh (w + day); omega) (by omega)
      (by have := hlow (w - day); have := hlow (w + day); omega)
    unfold resolveFolded resolve
    simp only
    rcases le_total (Z.offset (w - day)) (Z.offset (w + day)) with hle | hle
    · rw [max_eq_right hle, min_eq_left hle] at hchange ⊢
      split_ifs <;> omega
    · rw [max_eq_left hle, min_eq_right hle] at hchange ⊢
      split_ifs <;> omega
  rw [hdiffers]
  constructor
  · rintro ⟨hne, hmax, hmin⟩
    rcases lt_or_gt_of_ne hne with hlt | hgt
    · rw [max_eq_right hlt.le] at hmax
      rw [min_eq_left hlt.le] at hmin
      refine Or.inr fun t ht => ?_
      have hoffset := hcases t (hnear t ht).1 (hnear t ht).2
      unfold shows at ht
      rcases hoffset with hoffset | hoffset
      · obtain rfl : t = w - Z.offset (w - day) := by omega
        omega
      · obtain rfl : t = w - Z.offset (w + day) := by omega
        omega
    · rw [max_eq_left hgt.le] at hmax
      rw [min_eq_right hgt.le] at hmin
      exact Or.inl ⟨w - Z.offset (w - day), w - Z.offset (w + day), by omega,
        by unfold shows; omega, by unfold shows; omega⟩
  · rintro (⟨s, t, hst, hs, ht⟩ | hskipped)
    · obtain ⟨hs₀, hs₁⟩ := hnear s hs
      obtain ⟨ht₀, ht₁⟩ := hnear t ht
      have hstay := hstays s t hs₀ hst.le ht₁
      have hoffset := hcases s hs₀ hs₁
      have hoffset' := hcases t ht₀ ht₁
      unfold shows at hs ht
      have hgt : Z.offset (w + day) < Z.offset (w - day) := by omega
      rw [max_eq_left hgt.le, min_eq_right hgt.le]
      obtain rfl : s = w - Z.offset (w - day) := by omega
      obtain rfl : t = w - Z.offset (w + day) := by omega
      omega
    · have hb := hskipped (w - Z.offset (w - day))
      have ha := hskipped (w - Z.offset (w + day))
      unfold shows at hb ha
      have hstay := hstays (w - Z.offset (w - day)) (w - Z.offset (w + day))
        (by have := hhigh (w - day); omega)
      have hend : w - Z.offset (w + day) ≤ w + day := by have := hlow (w + day); omega
      have hlt : Z.offset (w - day) < Z.offset (w + day) := by omega
      rw [max_eq_right hlt.le, min_eq_left hlt.le]
      omega

end Zone

end CivilTime
