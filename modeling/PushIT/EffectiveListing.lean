import Mathlib.Data.Prod.Lex
import PushIT.Brussels
import PushIT.Library.StableSort
import PushIT.Queueing

/-!
# Listing by effective date

`notification_filter_needs_effective` and `apply_effective_schedule_filters` of
`notifications/utils.py`, with the map, the filters and the ordering of
`notifications/scheduling.py`.  Three passes over a list of notifications look the effective dates
up in a map that is computed when one of them needs it; a look-up without an entry, or without a
map, raises.

The dates are aware datetimes and are compared as such.  Two datetimes of the current time zone
compare as the clock shows them, and one that the clock shows twice or skips equals none of
another zone.

## Main definitions

* `Datetime.equals`, `keyBefore`: `==` on datetimes and `<` on the sort keys.
* `applyEffectiveScheduleFilters`: the listing.
* `ListedExactly`: what the listing owes, in terms of instants.
* `ComparesAsInstants`: the comparisons come out as for the instants.

## Main results

* `effective_listing_exact_iff`: the lists that can be made of some notifications are listed exactly
  if and only if their comparisons come out as for the instants.
* `comparesAsInstants_of_shownOnce`: a sufficient condition on the clock.
* `effective_listing_misorders`: a night of March in Brussels.
-/

namespace PushIT

open CivilTime StableSort

/-! ### Comparisons -/

/-- `a == b` on aware datetimes: two of one time zone are equal when they show the same, and a
datetime that `fold` would move is equal to none of another zone. -/
def Datetime.equals (tz : TimeZone) (a b : Datetime) : Bool :=
  let foldFree (s : ℤ × TimeOfDay) := tz.makeAwareFolded s.1 s.2 == tz.makeAware s.1 s.2
  match a.shown, b.shown with
  | some s, some s' => reading s == reading s'
  | some s, none => a.instant == b.instant && foldFree s
  | none, some s => a.instant == b.instant && foldFree s
  | none, none => a.instant == b.instant

/-- `<` on the sort keys `(effective, id)`. -/
def keyBefore (tz : TimeZone) (a b : Datetime × ℕ) : Bool :=
  if a.1.equals tz b.1 then decide (a.2 < b.2) else a.1.isBefore b.1

/-! ### The map -/

/-- `compute_effective_scheduled_for`, with the date in the time zone it was computed in. -/
def computeEffectiveScheduledDatetime (tz : TimeZone) (quietPeriods : List AbstractQuietPeriod)
    (scheduledFor : Option Instant) : Option Datetime :=
  scheduledFor.map fun t =>
    shiftOutOfQuietPeriods tz quietPeriods maxQuietPeriodShiftIterations (.utc t)

/-- `effective_scheduled_map`: what a look-up finds, or `none` where it raises. -/
abbrev EffectiveMap := ℕ → Option (Option Datetime)

/-- `effective_scheduled_map = None`. -/
def EffectiveMap.missing : EffectiveMap := fun _ => none

section Listing

variable (tz : TimeZone) (quietPeriodsOf : ℕ → List AbstractQuietPeriod)

/-- The effective date of a notification, from the quiet periods of its application. -/
def effectiveDatetime (n : Notification) : Option Datetime :=
  computeEffectiveScheduledDatetime tz (quietPeriodsOf n.applicationId) n.scheduledFor

/-- `compute_effective_scheduled_map`. -/
def computeEffectiveScheduledMap (ns : List Notification) : EffectiveMap :=
  ns.foldl (fun effectiveScheduledMap n =>
    Function.update effectiveScheduledMap n.id (some (effectiveDatetime tz quietPeriodsOf n)))
    .missing

end Listing

/-! ### The passes -/

/-- A pass over the notifications, which keeps those whose look-up passes the test. -/
def EffectiveMap.keep (effectiveScheduledMap : EffectiveMap)
    (test : Notification → Option Datetime → Bool) :
    List Notification → Option (List Notification)
  | [] => some []
  | n :: ns => do
    let effective ← effectiveScheduledMap n.id
    let kept ← effectiveScheduledMap.keep test ns
    return if test n effective then n :: kept else kept

/-- A row is within the bounds. -/
def inEffectiveRange (start stop : Option Datetime) (effective : Option Datetime) : Bool :=
  start.all (fun a => effective.any fun e => !e.isBefore a) &&
    stop.all fun b => effective.any fun e => !b.isBefore e

/-- `filter_notifications_by_effective_range`. -/
def filterNotificationsByEffectiveRange (ns : List Notification)
    (effectiveScheduledMap : EffectiveMap) (start stop : Option Datetime) :
    Option (List Notification) :=
  effectiveScheduledMap.keep (fun _ => inEffectiveRange start stop) ns

/-- `is_shifted`. -/
def isShifted (tz : TimeZone) (n : Notification) (effective : Option Datetime) : Bool :=
  n.scheduledFor.any fun t => effective.any fun e => !e.equals tz (.utc t)

/-- `filter_notifications_by_shift_flag`. -/
def filterNotificationsByShiftFlag (tz : TimeZone) (ns : List Notification)
    (effectiveScheduledMap : EffectiveMap) (hasQuietPeriodShift : Bool) :
    Option (List Notification) :=
  effectiveScheduledMap.keep
    (fun n effective => isShifted tz n effective == hasQuietPeriodShift) ns

/-- `ordering.startswith("-")`. -/
def isDescending (ordering : String) : Bool := ordering.toList.head? == some '-'

/-- `order_notifications_by_effective`: rows without an effective date come last. -/
def orderNotificationsByEffective (tz : TimeZone) (ns : List Notification)
    (effectiveScheduledMap : EffectiveMap) (ordering : String) : Option (List Notification) := do
  let withEffective ← effectiveScheduledMap.keep (fun _ effective => effective.isSome) ns
  let withoutEffective ← effectiveScheduledMap.keep (fun _ effective => effective.isNone) ns
  let keyed := withEffective.filterMap fun n =>
    (effectiveScheduledMap n.id).join.map fun e => ((e, n.id), n)
  return (sorted (fun a b => keyBefore tz a.1 b.1) (isDescending ordering) keyed).map (·.2) ++
    withoutEffective

/-- The validated filters on the effective date. -/
structure EffectiveFilterData where
  effectiveScheduledFrom : Option Datetime := none
  effectiveScheduledTo : Option Datetime := none
  hasQuietPeriodShift : Option Bool := none
  ordering : Option String := none

namespace EffectiveFilterData

variable (f : EffectiveFilterData) (queryParams : List String)

/-- The flag counts when the query names it: a missing boolean is validated as false. -/
def shiftFlag : Option Bool :=
  if queryParams.contains "has_quiet_period_shift" then f.hasQuietPeriodShift else none

end EffectiveFilterData

/-- `notification_filter_needs_effective`. -/
def notificationFilterNeedsEffective (queryParams : List String) (f : EffectiveFilterData) :
    Bool :=
  f.effectiveScheduledFrom.isSome || f.effectiveScheduledTo.isSome ||
    (queryParams.contains "has_quiet_period_shift" && f.hasQuietPeriodShift.isSome) ||
    f.ordering.any (· != "")

/-- `apply_effective_schedule_filters`; `none` when it raises. -/
def applyEffectiveScheduleFilters (tz : TimeZone)
    (quietPeriodsOf : ℕ → List AbstractQuietPeriod) (queryParams : List String)
    (f : EffectiveFilterData) (queryset : List Notification) : Option (List Notification) :=
  let effectiveScheduledMap :=
    if notificationFilterNeedsEffective queryParams f then
      computeEffectiveScheduledMap tz quietPeriodsOf queryset
    else .missing
  let ranged :=
    if f.effectiveScheduledFrom.isSome || f.effectiveScheduledTo.isSome then
      filterNotificationsByEffectiveRange queryset effectiveScheduledMap f.effectiveScheduledFrom
        f.effectiveScheduledTo
    else some queryset
  let shifted := ranged.bind fun ranged =>
    match f.shiftFlag queryParams with
    | some flag => filterNotificationsByShiftFlag tz ranged effectiveScheduledMap flag
    | none => some ranged
  shifted.bind fun shifted =>
    match f.ordering.filter (· != "") with
    | some ordering => orderNotificationsByEffective tz shifted effectiveScheduledMap ordering
    | none => some shifted

/-! ### What the listing owes -/

/-- A notification satisfies the given filters: bounds are inclusive and ask for an effective date,
and a shifted notification has an effective date other than its own. -/
def EffectiveFilterData.admits (f : EffectiveFilterData) (shift : Option Bool)
    (scheduledFor effective : Option Instant) : Bool :=
  f.effectiveScheduledFrom.all (fun a => effective.any fun e => decide (a.instant ≤ e)) &&
    f.effectiveScheduledTo.all (fun b => effective.any fun e => decide (e ≤ b.instant)) &&
    shift.all fun flag =>
      (scheduledFor.isSome && effective.isSome && effective != scheduledFor) == flag

section Exactness

variable (effective : Notification → Option Instant)

/-- The order of the sort key `(effective date, id)`. -/
def Earlier (a b : Notification) : Prop :=
  ∃ s ∈ effective a, ∃ t ∈ effective b, s < t ∨ s = t ∧ a.id < b.id

/-- The notifications that are admitted, each once: in their own order, or those with an effective
date by effective date and id, ascending or descending, and then the others in their own order. -/
def ListedExactly (admitted : Notification → Bool) (descending : Option Bool)
    (ns result : List Notification) : Prop :=
  match descending with
  | none => result = ns.filter admitted
  | some descending =>
    ∃ dated : List Notification,
      dated.Perm ((ns.filter admitted).filter fun n => (effective n).isSome) ∧
      dated.Pairwise (fun a b =>
        if descending then Earlier effective b a else Earlier effective a b) ∧
      result = dated ++ (ns.filter admitted).filter fun n => (effective n).isNone

variable {effective}

/-- An exact listing shows the admitted notifications as often as the list holds them. -/
theorem ListedExactly.perm {admitted : Notification → Bool} {descending : Option Bool}
    {ns result : List Notification} (h : ListedExactly effective admitted descending ns result) :
    result.Perm (ns.filter admitted) := by
  cases descending with
  | none => exact List.Perm.of_eq h
  | some descending =>
    obtain ⟨dated, hperm, -, rfl⟩ := h
    have hnone : (fun n => (effective n).isNone) = fun n => !(effective n).isSome :=
      funext fun n => by cases effective n <;> rfl
    rw [hnone]
    exact (hperm.append_right _).trans (List.filter_append_perm _ _)

end Exactness

section Listing

variable (tz : TimeZone) (quietPeriodsOf : ℕ → List AbstractQuietPeriod)
  (queryParams : List String) (f : EffectiveFilterData)

/-- The effective date as an instant. -/
def effectiveInstant (n : Notification) : Option Instant :=
  (effectiveDatetime tz quietPeriodsOf n).map (·.instant)

/-- The filters of the source, for one notification. -/
def selects (n : Notification) : Bool :=
  inEffectiveRange f.effectiveScheduledFrom f.effectiveScheduledTo
      (effectiveDatetime tz quietPeriodsOf n) &&
    (f.shiftFlag queryParams).all fun flag =>
      isShifted tz n (effectiveDatetime tz quietPeriodsOf n) == flag

/-- The filters of the request, for one notification. -/
def admitted (n : Notification) : Bool :=
  f.admits (f.shiftFlag queryParams) n.scheduledFor (effectiveInstant tz quietPeriodsOf n)

/-- The direction the request asks for. -/
def EffectiveFilterData.descending : Option Bool :=
  (f.ordering.filter (· != "")).map isDescending

/-- The comparisons of datetimes that decide about some notifications come out as for the instants:
together those of a date with the bounds and with the date before the shift, and, when an ordering
is asked for, each of two dates of notifications that are selected. -/
structure ComparesAsInstants (S : Set Notification) : Prop where
  filters : ∀ n ∈ S, selects tz quietPeriodsOf queryParams f n =
    admitted tz quietPeriodsOf queryParams f n
  keys : f.descending.isSome = true → ∀ n ∈ S, ∀ m ∈ S, n.id ≠ m.id →
    selects tz quietPeriodsOf queryParams f n = true →
    selects tz quietPeriodsOf queryParams f m = true →
    ∀ d ∈ effectiveDatetime tz quietPeriodsOf n, ∀ e ∈ effectiveDatetime tz quietPeriodsOf m,
      keyBefore tz (d, n.id) (e, m.id) =
        decide (d.instant < e.instant ∨ d.instant = e.instant ∧ n.id < m.id)

/-! ### The map and the passes -/

variable {tz quietPeriodsOf queryParams f}

theorem computeEffectiveScheduledMap_apply {ns : List Notification}
    (hids : (ns.map (·.id)).Nodup) {n : Notification} (hn : n ∈ ns) :
    computeEffectiveScheduledMap tz quietPeriodsOf ns n.id =
      some (effectiveDatetime tz quietPeriodsOf n) := by
  have hfold : ∀ (ns : List Notification) (m : EffectiveMap) (id : ℕ),
      id ∉ ns.map (·.id) →
      ns.foldl (fun (m : EffectiveMap) n => Function.update m n.id
        (some (effectiveDatetime tz quietPeriodsOf n))) m id = m id := by
    intro ns
    induction ns with
    | nil => exact fun _ _ _ => rfl
    | cons k ns ih =>
      intro m id hid
      simp only [List.map_cons, List.mem_cons, not_or] at hid
      rw [List.foldl_cons, ih _ id hid.2, Function.update_of_ne hid.1]
  unfold computeEffectiveScheduledMap
  generalize EffectiveMap.missing = m
  induction ns generalizing m with
  | nil => exact absurd hn List.not_mem_nil
  | cons k ns ih =>
    rw [List.map_cons, List.nodup_cons] at hids
    rw [List.foldl_cons]
    rcases List.mem_cons.mp hn with rfl | hn
    · rw [hfold ns _ n.id hids.1, Function.update_self]
    · exact ih hids.2 hn _

/-- A pass keeps what passes the test, when every look-up finds the effective date. -/
theorem EffectiveMap.keep_eq {m : EffectiveMap} {test : Notification → Option Datetime → Bool}
    {effective : Notification → Option Datetime} {ns : List Notification}
    (hm : ∀ n ∈ ns, m n.id = some (effective n)) :
    m.keep test ns = some (ns.filter fun n => test n (effective n)) := by
  induction ns with
  | nil => rfl
  | cons n ns ih =>
    have hrest := ih fun k hk => hm k (List.mem_cons_of_mem n hk)
    simp only [keep, hm n List.mem_cons_self, hrest, Option.bind_eq_bind, Option.bind_some,
      List.filter_cons]
    rfl

/-- The dated rows with their sort keys. -/
def keyed (tz : TimeZone) (quietPeriodsOf : ℕ → List AbstractQuietPeriod)
    (ns : List Notification) : List ((Datetime × ℕ) × Notification) :=
  ns.filterMap fun n => (effectiveDatetime tz quietPeriodsOf n).map fun e => ((e, n.id), n)

theorem mem_keyed {ns : List Notification} {x : (Datetime × ℕ) × Notification} :
    x ∈ keyed tz quietPeriodsOf ns ↔
      x.2 ∈ ns ∧ effectiveDatetime tz quietPeriodsOf x.2 = some x.1.1 ∧ x.1.2 = x.2.id := by
  simp only [keyed, List.mem_filterMap, Option.map_eq_some_iff]
  constructor
  · rintro ⟨n, hn, e, he, rfl⟩
    exact ⟨hn, he, rfl⟩
  · rintro ⟨hn, he, hid⟩
    exact ⟨x.2, hn, x.1.1, he, by rw [← hid]⟩

theorem keyed_filter_isSome (ns : List Notification) :
    keyed tz quietPeriodsOf (ns.filter fun n => (effectiveDatetime tz quietPeriodsOf n).isSome) =
      keyed tz quietPeriodsOf ns := by
  induction ns with
  | nil => rfl
  | cons n ns ih =>
    unfold keyed at ih ⊢
    cases hn : effectiveDatetime tz quietPeriodsOf n with
    | none => simpa [hn] using ih
    | some e => simpa [hn] using ih

theorem map_snd_keyed (ns : List Notification) :
    (keyed tz quietPeriodsOf ns).map (·.2) =
      ns.filter fun n => (effectiveDatetime tz quietPeriodsOf n).isSome := by
  induction ns with
  | nil => rfl
  | cons n ns ih =>
    unfold keyed at ih ⊢
    cases hn : effectiveDatetime tz quietPeriodsOf n with
    | none => simpa [hn] using ih
    | some e => simpa [hn] using ih

/-- The listing of the source, once the look-ups succeed. -/
def listed (tz : TimeZone) (quietPeriodsOf : ℕ → List AbstractQuietPeriod)
    (queryParams : List String) (f : EffectiveFilterData) (ns : List Notification) :
    List Notification :=
  let kept := ns.filter (selects tz quietPeriodsOf queryParams f)
  match f.descending with
  | some descending =>
    (sorted (fun a b => keyBefore tz a.1 b.1) descending (keyed tz quietPeriodsOf kept)).map
        (·.2) ++
      kept.filter fun n => (effectiveDatetime tz quietPeriodsOf n).isNone
  | none => kept

theorem orderNotificationsByEffective_eq {m : EffectiveMap} {ns : List Notification}
    (hm : ∀ n ∈ ns, m n.id = some (effectiveDatetime tz quietPeriodsOf n)) (ordering : String) :
    orderNotificationsByEffective tz ns m ordering =
      some ((sorted (fun a b => keyBefore tz a.1 b.1) (isDescending ordering)
          (keyed tz quietPeriodsOf ns)).map (·.2) ++
        ns.filter fun n => (effectiveDatetime tz quietPeriodsOf n).isNone) := by
  have hkeyed : ((ns.filter fun n => (effectiveDatetime tz quietPeriodsOf n).isSome).filterMap
      fun n => (m n.id).join.map fun e => ((e, n.id), n)) = keyed tz quietPeriodsOf ns := by
    rw [← keyed_filter_isSome]
    refine List.filterMap_congr fun n hn => ?_
    rw [hm n (List.mem_of_mem_filter hn), Option.join_some]
  unfold orderNotificationsByEffective
  rw [EffectiveMap.keep_eq hm, EffectiveMap.keep_eq hm]
  simp only [Option.bind_eq_bind, Option.bind_some, hkeyed]
  rfl

/-- The predicate of the endpoints says whether one of the passes needs the map. -/
theorem notificationFilterNeedsEffective_eq (queryParams : List String)
    (f : EffectiveFilterData) :
    notificationFilterNeedsEffective queryParams f =
      (f.effectiveScheduledFrom.isSome || f.effectiveScheduledTo.isSome ||
        (f.shiftFlag queryParams).isSome || f.descending.isSome) := by
  unfold notificationFilterNeedsEffective EffectiveFilterData.shiftFlag
    EffectiveFilterData.descending
  rw [Option.isSome_map, Option.isSome_filter]
  split <;> simp_all

/-- Without a filter that needs the effective dates all rows are listed. -/
theorem listed_of_not_needed (h : notificationFilterNeedsEffective queryParams f = false)
    (ns : List Notification) : listed tz quietPeriodsOf queryParams f ns = ns := by
  rw [notificationFilterNeedsEffective_eq] at h
  simp only [Bool.or_eq_false_iff, Option.isSome_eq_false_iff, Option.isNone_iff_eq_none] at h
  obtain ⟨⟨⟨hfrom, hto⟩, hflag⟩, hdescending⟩ := h
  have hselects : selects tz quietPeriodsOf queryParams f = fun _ => true := by
    funext n
    simp [selects, inEffectiveRange, hfrom, hto, hflag]
  unfold listed
  rw [hdescending, hselects, List.filter_true]

/-- The passes find what they look up. -/
theorem applyEffectiveScheduleFilters_eq {ns : List Notification}
    (hids : (ns.map (·.id)).Nodup) :
    applyEffectiveScheduleFilters tz quietPeriodsOf queryParams f ns =
      some (listed tz quietPeriodsOf queryParams f ns) := by
  have hneeds := notificationFilterNeedsEffective_eq queryParams f
  have hmap : notificationFilterNeedsEffective queryParams f = true →
      ∀ n ∈ ns, (if notificationFilterNeedsEffective queryParams f = true then
        computeEffectiveScheduledMap tz quietPeriodsOf ns else .missing) n.id =
          some (effectiveDatetime tz quietPeriodsOf n) := by
    intro h n hn
    rw [if_pos h]
    exact computeEffectiveScheduledMap_apply hids hn
  unfold applyEffectiveScheduleFilters
  dsimp only
  generalize (if notificationFilterNeedsEffective queryParams f = true then
    computeEffectiveScheduledMap tz quietPeriodsOf ns else .missing) = m at hmap ⊢
  have hranged : (if (f.effectiveScheduledFrom.isSome || f.effectiveScheduledTo.isSome) = true then
      filterNotificationsByEffectiveRange ns m f.effectiveScheduledFrom f.effectiveScheduledTo
      else some ns) = some (ns.filter fun n => inEffectiveRange f.effectiveScheduledFrom
        f.effectiveScheduledTo (effectiveDatetime tz quietPeriodsOf n)) := by
    split
    · next h =>
      exact EffectiveMap.keep_eq (hmap (by rw [hneeds]; simp only [h, Bool.true_or]))
    · next h =>
      simp only [Bool.or_eq_true, Option.isSome_iff_ne_none, not_or, not_not] at h
      simp [inEffectiveRange, h.1, h.2]
  have hshifted : ∀ ranged : List Notification, (∀ n ∈ ranged, n ∈ ns) →
      (match f.shiftFlag queryParams with
        | some flag => filterNotificationsByShiftFlag tz ranged m flag
        | none => some ranged) =
      some (ranged.filter fun n => (f.shiftFlag queryParams).all fun flag =>
        isShifted tz n (effectiveDatetime tz quietPeriodsOf n) == flag) := by
    intro ranged hsub
    cases hflag : f.shiftFlag queryParams with
    | none => simp
    | some flag =>
      refine EffectiveMap.keep_eq fun n hn => hmap ?_ n (hsub n hn)
      rw [hneeds, hflag]
      simp
  have hkept : (ns.filter fun n => ((f.shiftFlag queryParams).all fun flag =>
      isShifted tz n (effectiveDatetime tz quietPeriodsOf n) == flag) &&
        inEffectiveRange f.effectiveScheduledFrom f.effectiveScheduledTo
          (effectiveDatetime tz quietPeriodsOf n)) =
      ns.filter (selects tz quietPeriodsOf queryParams f) :=
    List.filter_congr fun n _ => Bool.and_comm _ _
  rw [hranged, Option.bind_some, hshifted _ fun n hn => List.mem_of_mem_filter hn,
    List.filter_filter, hkept, Option.bind_some]
  unfold listed EffectiveFilterData.descending
  cases hordering : f.ordering.filter (· != "") with
  | none => rfl
  | some ordering =>
    refine orderNotificationsByEffective_eq (fun n hn => hmap ?_ n (List.mem_of_mem_filter hn))
      ordering
    rw [hneeds, EffectiveFilterData.descending, hordering]
    simp

/-! ### The order -/

theorem keyBefore_self (tz : TimeZone) (a : Datetime × ℕ) : keyBefore tz a a = false := by
  unfold keyBefore Datetime.equals
  cases h : a.1.shown <;> simp

/-- The sort key, in its order. -/
def sortKey (x : (Datetime × ℕ) × Notification) : Instant ×ₗ ℕ := toLex (x.1.1.instant, x.1.2)

theorem sortKey_lt_iff {a b : (Datetime × ℕ) × Notification} :
    sortKey a < sortKey b ↔
      a.1.1.instant < b.1.1.instant ∨ a.1.1.instant = b.1.1.instant ∧ a.1.2 < b.1.2 :=
  Prod.Lex.toLex_lt_toLex

theorem earlier_iff {ns : List Notification} {a b : (Datetime × ℕ) × Notification}
    (ha : a ∈ keyed tz quietPeriodsOf ns) (hb : b ∈ keyed tz quietPeriodsOf ns) :
    Earlier (effectiveInstant tz quietPeriodsOf) a.2 b.2 ↔ sortKey a < sortKey b := by
  obtain ⟨-, hae, haid⟩ := mem_keyed.mp ha
  obtain ⟨-, hbe, hbid⟩ := mem_keyed.mp hb
  unfold Earlier effectiveInstant
  rw [hae, hbe, sortKey_lt_iff, haid, hbid]
  simp

theorem map_sorted_perm (descending : Bool) (ns : List Notification) :
    ((sorted (fun a b => keyBefore tz a.1 b.1) descending
      (keyed tz quietPeriodsOf ns)).map (·.2)).Perm
      (ns.filter fun n => (effectiveDatetime tz quietPeriodsOf n).isSome) := by
  rw [← map_snd_keyed]
  exact (sorted_perm descending _).map _

theorem listed_perm (ns : List Notification) :
    (listed tz quietPeriodsOf queryParams f ns).Perm
      (ns.filter (selects tz quietPeriodsOf queryParams f)) := by
  unfold listed
  cases f.descending with
  | none => exact List.Perm.refl _
  | some descending =>
    have hnone : (fun n => (effectiveDatetime tz quietPeriodsOf n).isNone) =
        fun n => !(effectiveDatetime tz quietPeriodsOf n).isSome :=
      funext fun n => by cases effectiveDatetime tz quietPeriodsOf n <;> rfl
    dsimp only
    rw [hnone]
    exact ((map_sorted_perm descending _).append_right _).trans (List.filter_append_perm _ _)

/-- Rows with distinct ids are sorted strictly when they are compared as their keys. -/
theorem sorted_pairwise_earlier {ns : List Notification} (hids : (ns.map (·.id)).Nodup)
    (hkey : ∀ a ∈ keyed tz quietPeriodsOf ns, ∀ b ∈ keyed tz quietPeriodsOf ns,
      keyBefore tz a.1 b.1 = decide (sortKey a < sortKey b)) (descending : Bool) :
    ((sorted (fun a b => keyBefore tz a.1 b.1) descending (keyed tz quietPeriodsOf ns)).map
      (·.2)).Pairwise fun a b =>
        if descending then Earlier (effectiveInstant tz quietPeriodsOf) b a
        else Earlier (effectiveInstant tz quietPeriodsOf) a b := by
  have hdistinct : (sorted (fun a b => keyBefore tz a.1 b.1) descending
      (keyed tz quietPeriodsOf ns)).Pairwise fun a b => sortKey a ≠ sortKey b := by
    refine ((sorted_perm descending _).pairwise_iff fun h => h.symm).mpr ?_
    have hpairwise : ((keyed tz quietPeriodsOf ns).map (·.2)).Pairwise fun a b => a.id ≠ b.id := by
      rw [map_snd_keyed]
      exact (List.pairwise_map.mp hids).filter _
    refine (List.pairwise_map.mp hpairwise).imp_of_mem fun {a b} ha hb hne heq => hne ?_
    rw [← (mem_keyed.mp ha).2.2, ← (mem_keyed.mp hb).2.2]
    have hkeys : (a.1.1.instant, a.1.2) = (b.1.1.instant, b.1.2) := toLex.injective heq
    exact (Prod.mk.inj hkeys).2
  rw [List.pairwise_map]
  cases descending with
  | false =>
    refine ((sorted_ascending hkey).and hdistinct).imp_of_mem fun {a b} ha hb h => ?_
    exact (earlier_iff (mem_sorted.mp ha) (mem_sorted.mp hb)).mpr (lt_of_le_of_ne h.1 h.2)
  | true =>
    refine ((sorted_descending hkey).and hdistinct).imp_of_mem fun {a b} ha hb h => ?_
    exact (earlier_iff (mem_sorted.mp hb) (mem_sorted.mp ha)).mpr (lt_of_le_of_ne h.1 h.2.symm)

variable {S : Set Notification}

/-- Comparisons that come out as for the instants make the listing exact. -/
theorem ComparesAsInstants.listedExactly
    (h : ComparesAsInstants tz quietPeriodsOf queryParams f S) {ns : List Notification}
    (hsub : ∀ n ∈ ns, n ∈ S) (hids : (ns.map (·.id)).Nodup) :
    ListedExactly (effectiveInstant tz quietPeriodsOf)
      (admitted tz quietPeriodsOf queryParams f) f.descending ns
      (listed tz quietPeriodsOf queryParams f ns) := by
  have hfilter : ns.filter (selects tz quietPeriodsOf queryParams f) =
      ns.filter (admitted tz quietPeriodsOf queryParams f) :=
    List.filter_congr fun n hn => h.filters n (hsub n hn)
  unfold ListedExactly listed
  rw [← hfilter]
  cases hdescending : f.descending with
  | none => rfl
  | some descending =>
    have hkept : (((ns.filter (selects tz quietPeriodsOf queryParams f))).map (·.id)).Nodup :=
      hids.sublist (List.filter_sublist.map _)
    refine ⟨_, ?_, sorted_pairwise_earlier hkept ?_ descending, ?_⟩
    · refine (map_sorted_perm descending _).trans (List.Perm.of_eq ?_)
      exact List.filter_congr fun n _ => (Option.isSome_map).symm
    · intro a ha b hb
      obtain ⟨han, hae, haid⟩ := mem_keyed.mp ha
      obtain ⟨hbn, hbe, hbid⟩ := mem_keyed.mp hb
      obtain ⟨han, hasel⟩ := List.mem_filter.mp han
      obtain ⟨hbn, hbsel⟩ := List.mem_filter.mp hbn
      by_cases hid : a.2.id = b.2.id
      · have hrow : a.2 = b.2 := List.inj_on_of_nodup_map hids han hbn hid
        have hsame : a = b := by
          rw [hrow, hbe, Option.some_inj] at hae
          exact Prod.ext (Prod.ext hae.symm (by rw [haid, hbid, hid])) hrow
        rw [hsame, keyBefore_self, decide_eq_false (lt_irrefl _)]
      · have hkeys := h.keys (by rw [hdescending]; rfl) a.2 (hsub _ han) b.2 (hsub _ hbn) hid
          hasel hbsel a.1.1 hae b.1.1 hbe
        rw [← haid, ← hbid] at hkeys
        rw [hkeys]
        exact decide_eq_decide.mpr sortKey_lt_iff.symm
    · exact congrArg _ (List.filter_congr fun n _ => (Option.isNone_map).symm)

theorem keyed_pair {n m : Notification} {d e : Datetime}
    (hd : effectiveDatetime tz quietPeriodsOf n = some d)
    (he : effectiveDatetime tz quietPeriodsOf m = some e) :
    keyed tz quietPeriodsOf [n, m] = [((d, n.id), n), ((e, m.id), m)] := by
  simp [keyed, hd, he]

/-- Two selected notifications that are listed in the right order. -/
theorem sorted_pair_of_exact {n m : Notification} {descending : Bool} {d e : Datetime}
    (hdescending : f.descending = some descending)
    (hd : effectiveDatetime tz quietPeriodsOf n = some d)
    (he : effectiveDatetime tz quietPeriodsOf m = some e)
    (hn : selects tz quietPeriodsOf queryParams f n = true)
    (hm : selects tz quietPeriodsOf queryParams f m = true)
    (h : ListedExactly (effectiveInstant tz quietPeriodsOf)
      (admitted tz quietPeriodsOf queryParams f) f.descending [n, m]
      (listed tz quietPeriodsOf queryParams f [n, m])) :
    (sorted (fun a b => keyBefore tz a.1 b.1) descending
      [((d, n.id), n), ((e, m.id), m)]).Pairwise fun a b =>
        if descending then sortKey b < sortKey a else sortKey a < sortKey b := by
  unfold ListedExactly listed at h
  rw [hdescending] at h
  obtain ⟨dated, -, hpairwise, heq⟩ := h
  have hkept : [n, m].filter (selects tz quietPeriodsOf queryParams f) = [n, m] := by
    simp [hn, hm]
  have hundated : ((([n, m].filter (admitted tz quietPeriodsOf queryParams f)).filter fun k =>
      (effectiveInstant tz quietPeriodsOf k).isNone)) = [] := by
    refine List.filter_eq_nil_iff.mpr fun k hk => ?_
    rcases List.mem_pair.mp (List.mem_of_mem_filter hk) with rfl | rfl
    · simp [effectiveInstant, hd]
    · simp [effectiveInstant, he]
  dsimp only at heq
  rw [hkept, hundated, keyed_pair hd he, List.append_nil] at heq
  rw [show ([n, m].filter fun k => (effectiveDatetime tz quietPeriodsOf k).isNone) = [] by
    simp [hd, he], List.append_nil] at heq
  rw [← heq, List.pairwise_map] at hpairwise
  refine hpairwise.imp_of_mem fun {a b} ha hb hab => ?_
  have hearlier : ∀ {a b}, a ∈ [((d, n.id), n), ((e, m.id), m)] →
      b ∈ [((d, n.id), n), ((e, m.id), m)] →
      (Earlier (effectiveInstant tz quietPeriodsOf) a.2 b.2 ↔ sortKey a < sortKey b) := by
    rw [← keyed_pair hd he]
    exact earlier_iff
  cases descending with
  | false => exact (hearlier (mem_sorted.mp ha) (mem_sorted.mp hb)).mp hab
  | true => exact (hearlier (mem_sorted.mp hb) (mem_sorted.mp ha)).mp hab

/-- Notifications of which every list is listed exactly compare as their instants do. -/
theorem comparesAsInstants_of_exact
    (h : ∀ ns : List Notification, (∀ n ∈ ns, n ∈ S) → (ns.map (·.id)).Nodup →
      ListedExactly (effectiveInstant tz quietPeriodsOf)
        (admitted tz quietPeriodsOf queryParams f) f.descending ns
        (listed tz quietPeriodsOf queryParams f ns)) :
    ComparesAsInstants tz quietPeriodsOf queryParams f S where
  filters n hn := by
    have hperm := (listed_perm [n]).symm.trans
      (h [n] (by simpa using hn) (List.nodup_singleton _)).perm
    cases hselects : selects tz quietPeriodsOf queryParams f n <;>
      cases hadmitted : admitted tz quietPeriodsOf queryParams f n <;>
      simp [hselects, hadmitted] at hperm <;> rfl
  keys hordering n hn m hm hid hnsel hmsel d hd e he := by
    obtain ⟨descending, hdescending⟩ := Option.isSome_iff_exists.mp hordering
    have hpair := sorted_pair_of_exact hdescending hd he hnsel hmsel
      (h [n, m] (by simp [hn, hm]) (by simpa using hid))
    have hpair' := sorted_pair_of_exact hdescending he hd hmsel hnsel
      (h [m, n] (by simp [hn, hm]) (by simpa using Ne.symm hid))
    have hne : sortKey ((d, n.id), n) ≠ sortKey ((e, m.id), m) := by
      intro heq
      have hkeys : (d.instant, n.id) = (e.instant, m.id) := toLex.injective heq
      exact hid (Prod.mk.inj hkeys).2
    refine (answer_of_sorted hne hpair hpair').trans ?_
    exact decide_eq_decide.mpr sortKey_lt_iff

/-- Every list with distinct ids that can be made of some notifications is listed exactly, if and
only if the comparisons of datetimes that decide about them come out as for the instants. -/
theorem effective_listing_exact_iff (tz : TimeZone)
    (quietPeriodsOf : ℕ → List AbstractQuietPeriod) (queryParams : List String)
    (f : EffectiveFilterData) (S : Set Notification) :
    (∀ ns : List Notification, (∀ n ∈ ns, n ∈ S) → (ns.map (·.id)).Nodup →
      ∃ result, applyEffectiveScheduleFilters tz quietPeriodsOf queryParams f ns = some result ∧
        ListedExactly (effectiveInstant tz quietPeriodsOf)
          (admitted tz quietPeriodsOf queryParams f) f.descending ns result) ↔
      ComparesAsInstants tz quietPeriodsOf queryParams f S := by
  constructor
  · refine fun h => comparesAsInstants_of_exact fun ns hsub hids => ?_
    obtain ⟨result, hresult, hexact⟩ := h ns hsub hids
    rw [applyEffectiveScheduleFilters_eq hids] at hresult
    exact Option.some.inj hresult ▸ hexact
  · exact fun h ns hsub hids =>
      ⟨_, applyEffectiveScheduleFilters_eq hids, h.listedExactly hsub hids⟩

/-! ### The rows of a listing -/

theorem EffectiveMap.mem_of_mem_keep {m : EffectiveMap}
    {test : Notification → Option Datetime → Bool} {ns kept : List Notification}
    (h : m.keep test ns = some kept) {n : Notification} (hn : n ∈ kept) : n ∈ ns := by
  induction ns generalizing kept with
  | nil =>
    obtain rfl := Option.some.inj h
    exact hn
  | cons k ns ih =>
    simp only [keep, Option.bind_eq_bind, Option.bind_eq_some_iff] at h
    obtain ⟨effective, -, rest, hrest, hkept⟩ := h
    obtain rfl := Option.some.inj hkept
    split at hn
    · exact (List.mem_cons.mp hn).elim (fun heq => heq ▸ List.mem_cons_self)
        fun hn => List.mem_cons_of_mem k (ih hrest hn)
    · exact List.mem_cons_of_mem k (ih hrest hn)

theorem mem_of_mem_orderNotificationsByEffective {ns result : List Notification}
    {m : EffectiveMap} {ordering : String}
    (h : orderNotificationsByEffective tz ns m ordering = some result) {n : Notification}
    (hn : n ∈ result) : n ∈ ns := by
  simp only [orderNotificationsByEffective, Option.bind_eq_bind, Option.bind_eq_some_iff] at h
  obtain ⟨dated, hdated, undated, hundated, hresult⟩ := h
  obtain rfl := Option.some.inj hresult
  rcases List.mem_append.mp hn with hn | hn
  · simp only [List.mem_map, mem_sorted, List.mem_filterMap, Option.map_eq_some_iff] at hn
    obtain ⟨x, ⟨k, hk, e, -, rfl⟩, rfl⟩ := hn
    exact EffectiveMap.mem_of_mem_keep hdated hk
  · exact EffectiveMap.mem_of_mem_keep hundated hn

/-- The filters only drop rows. -/
theorem mem_of_mem_applyEffectiveScheduleFilters {ns result : List Notification}
    (h : applyEffectiveScheduleFilters tz quietPeriodsOf queryParams f ns = some result)
    {n : Notification} (hn : n ∈ result) : n ∈ ns := by
  simp only [applyEffectiveScheduleFilters, Option.bind_eq_some_iff] at h
  obtain ⟨shifted, ⟨ranged, hranged, hshifted⟩, hordered⟩ := h
  have hnshifted : n ∈ shifted := by
    split at hordered
    · exact mem_of_mem_orderNotificationsByEffective hordered hn
    · exact Option.some.inj hordered ▸ hn
  have hnranged : n ∈ ranged := by
    split at hshifted
    · exact EffectiveMap.mem_of_mem_keep hshifted hnshifted
    · exact Option.some.inj hshifted ▸ hnshifted
  split at hranged
  · exact EffectiveMap.mem_of_mem_keep hranged hnranged
  · exact Option.some.inj hranged ▸ hnranged

end Listing

/-! ### Readings that the clock shows once -/

section Clock

variable {Z : Zone 86400000000}

/-- A datetime in UTC, or one that the clock of the zone shows at its instant and never else. -/
def Datetime.ShownOnce (Z : Zone 86400000000) (d : Datetime) : Prop :=
  ∀ s ∈ d.shown, reading s = Z.shows d.instant ∧ ¬Z.ShownTwice (Z.shows d.instant)

theorem Datetime.ShownOnce.isBefore {a b : Datetime} (ha : a.ShownOnce Z) (hb : b.ShownOnce Z) :
    a.isBefore b = decide (a.instant < b.instant) := by
  unfold Datetime.isBefore
  split
  · next s s' hs hs' =>
    obtain ⟨hread, honce⟩ := ha s hs
    obtain ⟨hread', honce'⟩ := hb s' hs'
    rw [hread, hread']
    exact decide_eq_decide.mpr (Z.shows_lt_iff honce honce')
  · rfl

theorem Datetime.ShownOnce.not_isBefore {a b : Datetime} (ha : a.ShownOnce Z)
    (hb : b.ShownOnce Z) : (!a.isBefore b) = decide (b.instant ≤ a.instant) := by
  rw [ha.isBefore hb, ← decide_not]
  exact decide_eq_decide.mpr not_lt

theorem Datetime.ShownOnce.utc (t : Instant) : (Datetime.utc t).ShownOnce Z :=
  fun _ hs => by cases hs

/-- `fold` does not move a reading that is shown once. -/
theorem Datetime.ShownOnce.foldFree {d : Datetime} (hd : d.ShownOnce Z) {s : ℤ × TimeOfDay}
    (hs : d.shown = some s) :
    ((TimeZone.ofZone Z).makeAwareFolded s.1 s.2 == (TimeZone.ofZone Z).makeAware s.1 s.2) =
      true := by
  obtain ⟨hread, honce⟩ := hd s hs
  rw [beq_iff_eq]
  by_contra hne
  rcases (Z.resolveFolded_ne_iff (reading s)).mp hne with htwice | hskipped
  · exact honce (hread ▸ htwice)
  · exact hskipped d.instant hread.symm

theorem Datetime.ShownOnce.equals {a b : Datetime} (ha : a.ShownOnce Z) (hb : b.ShownOnce Z) :
    a.equals (.ofZone Z) b = decide (a.instant = b.instant) := by
  unfold Datetime.equals
  dsimp only
  split
  · next s s' hs hs' =>
    obtain ⟨hread, honce⟩ := ha s hs
    obtain ⟨hread', honce'⟩ := hb s' hs'
    rw [hread, hread', Bool.eq_iff_iff, beq_iff_eq, decide_eq_true_iff]
    refine ⟨fun h => ?_, fun h => by rw [h]⟩
    rcases lt_trichotomy a.instant b.instant with hlt | heq | hgt
    · exact absurd h ((Z.shows_lt_iff honce honce').mpr hlt).ne
    · exact heq
    · exact absurd h ((Z.shows_lt_iff honce' honce).mpr hgt).ne'
  · next s hs _ =>
    rw [ha.foldFree hs, Bool.and_true]
    rfl
  · next s _ hs =>
    rw [hb.foldFree hs, Bool.and_true]
    rfl
  · rfl

variable {quietPeriodsOf : ℕ → List AbstractQuietPeriod} {queryParams : List String}
  {f : EffectiveFilterData} {S : Set Notification}

/-- Outside of the hours that the clock skips or repeats, datetimes compare as their instants. -/
theorem comparesAsInstants_of_shownOnce
    (hstart : ∀ a ∈ f.effectiveScheduledFrom, a.ShownOnce Z)
    (hstop : ∀ b ∈ f.effectiveScheduledTo, b.ShownOnce Z)
    (hS : ∀ n ∈ S, ∀ d ∈ effectiveDatetime (.ofZone Z) quietPeriodsOf n, d.ShownOnce Z) :
    ComparesAsInstants (.ofZone Z) quietPeriodsOf queryParams f S where
  filters n hn := by
    unfold selects admitted EffectiveFilterData.admits inEffectiveRange effectiveInstant
    cases hd : effectiveDatetime (.ofZone Z) quietPeriodsOf n with
    | none => simp [isShifted]
    | some d =>
      replace hd := hS n hn d hd
      have hfrom : (f.effectiveScheduledFrom.all fun a => !d.isBefore a) =
          f.effectiveScheduledFrom.all fun a => decide (a.instant ≤ d.instant) := by
        cases ha : f.effectiveScheduledFrom with
        | none => rfl
        | some a => exact hd.not_isBefore (hstart a ha)
      have hto : (f.effectiveScheduledTo.all fun b => !b.isBefore d) =
          f.effectiveScheduledTo.all fun b => decide (d.instant ≤ b.instant) := by
        cases hb : f.effectiveScheduledTo with
        | none => rfl
        | some b => exact (hstop b hb).not_isBefore hd
      have hshift : isShifted (.ofZone Z) n (some d) =
          (n.scheduledFor.isSome && (some d).isSome && some d.instant != n.scheduledFor) := by
        unfold isShifted
        cases n.scheduledFor with
        | none => rfl
        | some t =>
          rw [Option.any_some, Option.any_some, hd.equals (.utc t)]
          by_cases heq : d.instant = t <;> simp [Datetime.utc, heq]
      simp only [Option.map_some, Option.any_some, hfrom, hto, hshift, Option.isSome_some]
  keys hordering n hn m hm hid hnsel hmsel d hd e he := by
    have hd := hS n hn d hd
    have he := hS m hm e he
    unfold keyBefore
    rw [hd.equals he, hd.isBefore he]
    by_cases heq : d.instant = e.instant
    · simp [heq]
    · simp [heq]

end Clock

/-! ### A night of March -/

namespace Sample

/-- Every Sunday from 01:00 to a time of day. -/
def sundaysUntil (endTime : TimeOfDay) : AbstractQuietPeriod where
  periodType := .recurring
  recurrenceDays := [6]
  startTime := some 3600000000
  endTime := some endTime

/-- The first application is quiet until 02:30, the others until 03:10. -/
def springPeriods (applicationId : ℕ) : List AbstractQuietPeriod :=
  [sundaysUntil (if applicationId = 1 then 9000000000 else 11400000000)]

/-- A notification of an application for 01:10 on the 29th of March 2026, the night in which the
clock goes from 02:00 to 03:00. -/
def springNotification (applicationId : ℕ) : Notification where
  id := applicationId
  applicationId := applicationId
  status := .scheduled
  scheduledFor := some (days 20541 + minutes 10)

/-- Up to 03:10 of that night. -/
def upToTenPastThree : EffectiveFilterData where
  effectiveScheduledTo := some ⟨days 20541 + minutes 70, some (20541, 11400000000)⟩

end Sample

theorem sample_effectiveInstant :
    effectiveInstant (.ofZone brussels) Sample.springPeriods (Sample.springNotification 1) =
        some (days 20541 + minutes 90) ∧
      effectiveInstant (.ofZone brussels) Sample.springPeriods (Sample.springNotification 2) =
        some (days 20541 + minutes 70) := by
  decide +kernel

/-- The end 02:30 is skipped and stands for 01:30 UTC: the notification deferred to it is listed
before the one deferred to 03:10, which is 01:10 UTC, and among those up to 03:10. -/
theorem effective_listing_misorders :
    (¬∃ result, applyEffectiveScheduleFilters (.ofZone brussels) Sample.springPeriods []
        { ordering := some "effective_scheduled_for" }
        [Sample.springNotification 1, Sample.springNotification 2] = some result ∧
      ListedExactly (effectiveInstant (.ofZone brussels) Sample.springPeriods)
        (admitted (.ofZone brussels) Sample.springPeriods []
          { ordering := some "effective_scheduled_for" }) (some false)
        [Sample.springNotification 1, Sample.springNotification 2] result) ∧
    ¬∃ result, applyEffectiveScheduleFilters (.ofZone brussels) Sample.springPeriods []
        Sample.upToTenPastThree [Sample.springNotification 1] = some result ∧
      ListedExactly (effectiveInstant (.ofZone brussels) Sample.springPeriods)
        (admitted (.ofZone brussels) Sample.springPeriods [] Sample.upToTenPastThree) none
        [Sample.springNotification 1] result := by
  obtain ⟨hfirst, hsecond⟩ := sample_effectiveInstant
  constructor
  · rintro ⟨result, hresult, dated, -, hpairwise, hdated⟩
    have hcode : applyEffectiveScheduleFilters (.ofZone brussels) Sample.springPeriods []
        { ordering := some "effective_scheduled_for" }
        [Sample.springNotification 1, Sample.springNotification 2] =
          some [Sample.springNotification 1, Sample.springNotification 2] := by
      decide +kernel
    obtain rfl := Option.some.inj (hcode.symm.trans hresult)
    have hundated : (([Sample.springNotification 1, Sample.springNotification 2].filter
        (admitted (.ofZone brussels) Sample.springPeriods []
          { ordering := some "effective_scheduled_for" })).filter fun n =>
        (effectiveInstant (.ofZone brussels) Sample.springPeriods n).isNone) = [] := by
      decide +kernel
    rw [hundated, List.append_nil] at hdated
    subst hdated
    obtain ⟨s, hs, t, ht, hbefore⟩ := List.rel_of_pairwise_cons hpairwise List.mem_cons_self
    obtain rfl := Option.some.inj (hfirst.symm.trans hs)
    obtain rfl := Option.some.inj (hsecond.symm.trans ht)
    revert hbefore
    decide
  · rintro ⟨result, hresult, hexact⟩
    have hcode : applyEffectiveScheduleFilters (.ofZone brussels) Sample.springPeriods []
        Sample.upToTenPastThree [Sample.springNotification 1] =
          some [Sample.springNotification 1] := by
      decide +kernel
    have hempty : [Sample.springNotification 1].filter (admitted (.ofZone brussels)
        Sample.springPeriods [] Sample.upToTenPastThree) = [] := by
      decide +kernel
    obtain rfl := Option.some.inj (hcode.symm.trans hresult)
    rw [ListedExactly, hempty] at hexact
    exact List.cons_ne_nil _ _ hexact

end PushIT
