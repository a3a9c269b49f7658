import PushIT.Deferral

/-!
# Effective dates and the dates of dispatch

The date shown for a scheduled notification comes from a loop over the quiet periods of the
application, with a bound on its shifts.  The server comes to a date by another way: the dispatcher
queues the notification when it is due, the send pass defers it to the end of the quiet period it
falls into, and the dispatcher is there again at that end.  The loop goes on from the end as it
was computed, with the local time it has, and the server from the instant that was stored.

## Main definitions

* `Settles`: the deferrals that lead out of the quiet periods.
* `World.OnTime`: the runs in which the dispatcher and the workers are never late.
* `World.PreviewIsDispatch`: the shown date is the one of dispatch.

## Main results

* `computeEffectiveScheduledFor_of_settles`: where the loop of the preview ends.
* `Settles.deferred_ofZone`: which deferrals lead on where the clock changes.
* `World.Awaits.step`: what one action of such a run preserves.
* `preview_equals_dispatch`: when the shown date is that of dispatch.
* `preview_differs`: dates at which it is not.
-/

namespace PushIT

open Relational Transition CivilTime

/-- The deferrals from a date on lead out of the quiet periods.  Each goes to a later instant, and
the quiet periods say the same of the end they computed, whose local time the clock may skip, and
of its instant. -/
inductive Settles (tz : TimeZone) (quietPeriods : List AbstractQuietPeriod) :
    ℕ → Instant → Instant → Prop
  | free (t) (h : getQuietPeriodEndFromIterable tz quietPeriods (.utc t) = none) :
      Settles tz quietPeriods 0 t t
  | deferred {count t last} (e)
      (h : getQuietPeriodEndFromIterable tz quietPeriods (.utc t) = some e)
      (hlater : t < e.instant)
      (hsame : getQuietPeriodEndFromIterable tz quietPeriods e =
        getQuietPeriodEndFromIterable tz quietPeriods (.utc e.instant))
      (hrest : Settles tz quietPeriods count e.instant last) :
      Settles tz quietPeriods (count + 1) t last

/-- The stages after the check of the quiet periods of the application. -/
def Stage.isPastQuietCheck : Stage → Bool
  | .entitlement | .lapsed | .cancelling _ | .applicationQuiet | .postponing _ => false
  | _ => true

/-- A running `dispatch_scheduled_notifications_task`. -/
def Process.isDispatch : Process → Bool
  | .dispatch _ => true
  | _ => false

theorem Process.writesNotifications_of_isDispatch {p : Process} (h : p.isDispatch = true) :
    p.writesNotifications = true := by
  cases p with
  | dispatch r => rfl
  | _ => simp [isDispatch] at h

/-- The dispatcher and the workers are on time for a notification: no time passes but while it is
SCHEDULED, and then not beyond its date. -/
def World.OnTime (id : ℕ) (w : World) : Action → Prop
  | .tick duration => ∃ n ∈ w.db.notifications.get? id, n.status = .scheduled ∧
      ∃ t ∈ n.scheduledFor, w.clock + duration ≤ t
  | .claim _ _ _ | .pass _ _ | .crash _ => True
  | .request _ r => r = .dispatchScheduled
  | .advance rid _ => ∀ p ∈ w.processes rid, p.isDispatch = true

/-- A pass for the notification is past the check of the quiet periods of the application. -/
def World.PastQuietCheck (w : World) (id : ℕ) : Prop :=
  ∃ pid p, w.passes pid = some p ∧ p.notification.id = id ∧ p.stage.isPastQuietCheck = true

/-- The date shown for a scheduled notification is shown whenever it is SCHEDULED again, a pass
for it comes past the quiet periods at that date only, and one does. -/
structure World.PreviewIsDispatch (cfg : Settings) (n : Notification) (start : World) : Prop where
  shown : ∀ w, (server cfg).Reach (World.OnTime n.id) start w →
    ∀ r, w.db.notifications.get? n.id = some r → r.status = .scheduled →
      effectiveScheduledFor cfg.timeZone w.db r = effectiveScheduledFor cfg.timeZone start.db n
  passed : ∀ w, (server cfg).Reach (World.OnTime n.id) start w → w.PastQuietCheck n.id →
    some w.clock = effectiveScheduledFor cfg.timeZone start.db n
  passes : ∃ w, (server cfg).Reach (World.OnTime n.id) start w ∧ w.PastQuietCheck n.id

/-! ### The loop of the preview -/

section Preview

variable {tz : TimeZone} {quietPeriods : List AbstractQuietPeriod} {count : ℕ} {t last : Instant}
  {d e : Datetime}

/-- The end of an occurrence is ahead of the datetime on the clock. -/
theorem reading_lt_of_recurringQuietPeriodEnd {days : List ℕ} {startTime endTime : TimeOfDay}
    (h : recurringQuietPeriodEnd tz days startTime endTime d = some e) :
    ∃ s, e.shown = some s ∧ reading (localtime tz d) < reading s := by
  obtain ⟨day, -, -, hlt, rfl⟩ := recurringQuietPeriodEnd_eq_some_iff.mp h
  exact ⟨_, rfl, hlt⟩

/-- The end found for a period is an instant, or a time ahead on the clock. -/
theorem shown_getQuietPeriodEndForPeriod {q : AbstractQuietPeriod}
    (h : getQuietPeriodEndForPeriod tz q d = some e) :
    ∀ s ∈ e.shown, reading (localtime tz d) < reading s := by
  unfold getQuietPeriodEndForPeriod at h
  split at h
  · cases h
  · split at h
    · split at h
      · split_ifs at h
        obtain rfl := Option.some.inj h
        intro s hs
        cases hs
      · cases h
    · split at h
      · obtain ⟨s, hs, hlt⟩ := reading_lt_of_recurringQuietPeriodEnd h
        intro s' hs'
        obtain rfl : s = s' := Option.some.inj (hs.symm.trans hs')
        exact hlt
      · cases h

/-- The loop goes on to an end whose instant is later. -/
theorem isBefore_of_getQuietPeriodEndFromIterable
    (h : getQuietPeriodEndFromIterable tz quietPeriods d = some e)
    (hlater : d.instant < e.instant) : d.isBefore e = true := by
  obtain ⟨q, -, hq⟩ := List.mem_filterMap.mp (Datetime.max?_mem h)
  unfold Datetime.isBefore
  split
  · next s s' hs hs' =>
    have hahead := shown_getQuietPeriodEndForPeriod hq s' hs'
    rw [localtime, hs] at hahead
    exact decide_eq_true hahead
  · exact decide_eq_true hlater

theorem Settles.eq_of_none (h : Settles tz quietPeriods count t last)
    (hnone : getQuietPeriodEndFromIterable tz quietPeriods (.utc t) = none) : t = last := by
  cases h with
  | free => rfl
  | deferred e hsome => simp [hsome] at hnone

theorem Settles.of_some (h : Settles tz quietPeriods count t last)
    (hsome : getQuietPeriodEndFromIterable tz quietPeriods (.utc t) = some e) :
    t < e.instant ∧ ∃ count' < count, Settles tz quietPeriods count' e.instant last := by
  cases h with
  | free _ hnone => simp [hsome] at hnone
  | deferred e' he' hlater hsame hrest =>
    obtain rfl : e' = e := Option.some.inj (he'.symm.trans hsome)
    exact ⟨hlater, _, Nat.lt_succ_self _, hrest⟩

/-- The loop follows the deferrals, as long as it has shifts left. -/
theorem shiftOutOfQuietPeriods_of_settles (h : Settles tz quietPeriods count t last)
    {fuel : ℕ} (hfuel : count ≤ fuel) (ht : d.instant = t)
    (hd : getQuietPeriodEndFromIterable tz quietPeriods d =
      getQuietPeriodEndFromIterable tz quietPeriods (.utc t)) :
    (shiftOutOfQuietPeriods tz quietPeriods fuel d).instant = last := by
  induction h generalizing fuel d with
  | free t hnone =>
    cases fuel with
    | zero => exact ht
    | succ fuel =>
      rw [shiftOutOfQuietPeriods, hd, hnone]
      exact ht
  | deferred e hsome hlater hsame hrest ih =>
    obtain ⟨fuel, rfl⟩ : ∃ k, fuel = k + 1 := ⟨fuel - 1, by omega⟩
    rw [hsome] at hd
    rw [shiftOutOfQuietPeriods, hd]
    have hbefore := isBefore_of_getQuietPeriodEndFromIterable hd (ht ▸ hlater)
    simp only [hbefore, if_true]
    exact ih (by omega) rfl hsame

/-- The effective date is where the deferrals lead, when there are no more of them than shifts. -/
theorem computeEffectiveScheduledFor_of_settles (h : Settles tz quietPeriods count t last)
    (hcount : count ≤ maxQuietPeriodShiftIterations) :
    computeEffectiveScheduledFor tz quietPeriods (some t) = some last :=
  congrArg some (shiftOutOfQuietPeriods_of_settles h hcount rfl rfl)

/-- The inactive quiet periods have no end to find. -/
theorem getQuietPeriodEndFromIterable_filter_isActive (d : Datetime) :
    getQuietPeriodEndFromIterable tz (quietPeriods.filter (·.isActive)) d =
      getQuietPeriodEndFromIterable tz quietPeriods d := by
  unfold getQuietPeriodEndFromIterable
  rw [List.filterMap_filter]
  congr 2
  funext q
  cases hactive : q.isActive with
  | true => rfl
  | false => simp [getQuietPeriodEndForPeriod, hactive]

/-- The deferral of a pass, from the quiet periods of its application. -/
theorem getCurrentQuietPeriodEnd_eq (db : Db) (applicationId : ℕ) (now : Instant) :
    getCurrentQuietPeriodEnd tz db applicationId now =
      (getQuietPeriodEndFromIterable tz (applicationQuietPeriodsOf db applicationId)
        (.utc now)).map (·.instant) := by
  unfold getCurrentQuietPeriodEnd getQuietPeriodEndForApplication
  rw [getQuietPeriodEndFromIterable_filter_isActive]

end Preview

/-! ### The deferrals on a clock -/

section Clock

variable {tz : TimeZone} {quietPeriods : List AbstractQuietPeriod} {d e : Datetime}

/-- The quiet periods look at the local time and at the instant. -/
theorem getQuietPeriodEndFromIterable_congr (hlocal : localtime tz d = localtime tz e)
    (hinstant : d.instant = e.instant) :
    getQuietPeriodEndFromIterable tz quietPeriods d =
      getQuietPeriodEndFromIterable tz quietPeriods e := by
  unfold getQuietPeriodEndFromIterable getQuietPeriodEndForPeriod recurringQuietPeriodEnd
  rw [hlocal, hinstant]

/-- Unless the quiet periods that cover the instant all end in a repeated hour, or their latest end
is a time that the clock skips, the deferral is one of those that lead on. -/
theorem Settles.deferred_ofZone {Z : Zone 86400000000} {count : ℕ} {t last : Instant}
    (h : getQuietPeriodEndFromIterable (.ofZone Z) quietPeriods (.utc t) = some e)
    (hrepeat : ¬OnlyEndInRepeat Z quietPeriods t)
    (hskip : ∀ s ∈ e.shown, ∃ x, Z.shows x = reading s)
    (hrest : Settles (.ofZone Z) quietPeriods count e.instant last) :
    Settles (.ofZone Z) quietPeriods (count + 1) t last := by
  have hlater := getQuietPeriodEndFromIterable_spec_ofZone.mpr hrepeat e h
  obtain ⟨q, -, hq⟩ := List.mem_filterMap.mp (Datetime.max?_mem h)
  refine .deferred e h hlater (getQuietPeriodEndFromIterable_congr ?_ rfl) hrest
  cases (getQuietPeriodEndForPeriod_spec hq).1 with
  | later b _ => rfl
  | ahead day time _ _ =>
    obtain ⟨x, hx⟩ := hskip (day, time) rfl
    change (day, time) = dayAndTime (Z.shows (Z.resolve (reading (day, time))))
    rw [Zone.shows_resolve hx, dayAndTime_reading]

end Clock

/-! ### What a punctual run preserves -/

namespace Pass

variable {cfg : Settings} {now : Instant} {db : Db} {n : Notification} {stage : Stage}
  {s : PassStep}

/-- A pass comes past the check of the quiet periods at an instant that is free. -/
theorem Moves.past_cases (h : Moves cfg now db n stage s) {p' : Pass} (hp : s.next = some p')
    (hpast : p'.stage.isPastQuietCheck = true) :
    stage.isPastQuietCheck = true ∨
      getCurrentQuietPeriodEnd cfg.timeZone db n.applicationId now = none := by
  cases h with
  | paid | unpaid | lapsed | lapsedCancelled | quiet =>
    obtain rfl := Option.some.inj hp
    simp [Stage.isPastQuietCheck] at hpast
  | lapsedClosed | lapsedGone => simp [ended] at hp
  | notQuiet hnone => exact Or.inr hnone
  | postponed => simp [ended] at hp
  | _ => exact Or.inl rfl

/-- A pass is deferred to the end of the quiet period it falls into. -/
theorem Moves.postponing_cases (h : Moves cfg now db n stage s) {p' : Pass}
    (hp : s.next = some p') {e : Instant} (hstage : p'.stage = .postponing e) :
    getCurrentQuietPeriodEnd cfg.timeZone db n.applicationId now = some e := by
  cases h with
  | quiet e' hquiet =>
    obtain rfl := Option.some.inj hp
    obtain rfl := Stage.postponing.inj hstage
    exact hquiet
  | _ =>
    simp only [on, ended, reduceCtorEq, Option.some.injEq] at hp
    try (subst hp; simp at hstage)

/-- A pass that ends leaves its notification unscheduled, or defers it. -/
theorem Moves.notification_cases (h : Moves cfg now db n stage s) :
    s.db.notifications = db.notifications ∨
      s.next = none ∧ ∃ f hf, s.db.notifications = db.notifications.modify n.id f hf ∧
        ((∀ r, (f r).applicationId = r.applicationId ∧ (f r).status ≠ .scheduled) ∨
          ∃ e, stage = .postponing e ∧ f = postponeNotification e) := by
  cases h with
  | lapsedClosed =>
    exact Or.inr ⟨rfl, _, pk_closeNotification now .failed, rfl, Or.inl fun r =>
      ⟨rfl, by simp [closeNotification]⟩⟩
  | postponed e =>
    exact Or.inr ⟨rfl, _, pk_postponeNotification e, rfl, Or.inr ⟨e, rfl, rfl⟩⟩
  | closed status =>
    refine Or.inr ⟨rfl, _, pk_closeNotification now status.val, rfl, Or.inl fun r => ⟨rfl, ?_⟩⟩
    have := status.2
    rintro hscheduled
    rw [show status.val = .scheduled from hscheduled] at this
    simp at this
  | _ => exact Or.inl rfl

end Pass

/-- The deferrals still lead to `last`: from the date of the notification while it is SCHEDULED,
which has not passed, and from the present otherwise. -/
def Notification.LeadsTo (tz : TimeZone) (quietPeriods : List AbstractQuietPeriod)
    (clock last : Instant) (n : Notification) : Prop :=
  ∃ count ≤ maxQuietPeriodShiftIterations,
    (n.status = .scheduled → ∃ t, n.scheduledFor = some t ∧ clock ≤ t ∧
      Settles tz quietPeriods count t last) ∧
    (n.status ≠ .scheduled → Settles tz quietPeriods count clock last)

/-- The notification awaits the instant `last`, or its passes have come past the quiet periods at
that instant. -/
structure World.Awaits (cfg : Settings) (n : Notification) (start : Db) (last : Instant)
    (w : World) : Prop extends w.Claimed where
  periods : w.db.applicationQuietPeriods = start.applicationQuietPeriods
  leads : ∃ r, w.db.notifications.get? n.id = some r ∧ r.applicationId = n.applicationId ∧
    r.LeadsTo cfg.timeZone (applicationQuietPeriodsOf start n.applicationId) w.clock last
  past : w.PastQuietCheck n.id → w.clock = last
  postpones : ∀ pid p, w.passes pid = some p → p.notification.id = n.id →
    ∀ e, p.stage = .postponing e →
      getCurrentQuietPeriodEnd cfg.timeZone w.db n.applicationId w.clock = some e

namespace World.Awaits

variable {cfg : Settings} {n : Notification} {start : Db} {last : Instant} {w w' : World}

/-- The row of the notification. -/
theorem leads_of_row (hw : w.Awaits cfg n start last) {r : Notification}
    (hr : w.db.notifications.get? n.id = some r) :
    r.applicationId = n.applicationId ∧
      r.LeadsTo cfg.timeZone (applicationQuietPeriodsOf start n.applicationId) w.clock last := by
  obtain ⟨r', hr', happ, hleads⟩ := hw.leads
  obtain rfl : r = r' := Option.some.inj (hr.symm.trans hr')
  exact ⟨happ, hleads⟩

/-- A pass of the notification holds its row, which is PROCESSING. -/
theorem row_of_pass (hw : w.Awaits cfg n start last) {pid : ℕ} {p : Pass}
    (hp : w.passes pid = some p) (hid : p.notification.id = n.id) :
    w.db.notifications.get? n.id = some p.notification ∧ p.notification.status ≠ .scheduled := by
  refine ⟨hid ▸ hw.row pid p hp, ?_⟩
  rw [hw.processing pid p hp]
  simp

/-- The deferral of a pass, from the quiet periods that do not change. -/
theorem quietPeriodEnd_eq (hw : w.Awaits cfg n start last) :
    getCurrentQuietPeriodEnd cfg.timeZone w.db n.applicationId w.clock =
      (getQuietPeriodEndFromIterable cfg.timeZone (applicationQuietPeriodsOf start n.applicationId)
        (.utc w.clock)).map (·.instant) := by
  rw [getCurrentQuietPeriodEnd_eq]
  unfold applicationQuietPeriodsOf
  rw [hw.periods]

/-- Time stands still and the quiet periods stay; the row and the passes of the notification are
looked at. -/
theorem next (hw : w.Awaits cfg n start last) (hclaimed : w'.Claimed) (hclock : w'.clock = w.clock)
    (hperiods : w'.db.applicationQuietPeriods = w.db.applicationQuietPeriods)
    (hleads : ∃ r, w'.db.notifications.get? n.id = some r ∧ r.applicationId = n.applicationId ∧
      r.LeadsTo cfg.timeZone (applicationQuietPeriodsOf start n.applicationId) w.clock last)
    (hpasses : ∀ pid p, w'.passes pid = some p → p.notification.id = n.id →
      w.passes pid = some p ∨ (p.stage.isPastQuietCheck = true → w.clock = last) ∧
        ∀ e, p.stage = .postponing e →
          getCurrentQuietPeriodEnd cfg.timeZone w.db n.applicationId w.clock = some e) :
    w'.Awaits cfg n start last where
  toClaimed := hclaimed
  periods := hperiods.trans hw.periods
  leads := by rwa [hclock]
  past := by
    rintro ⟨pid, p, hp, hid, hpast⟩
    rw [hclock]
    rcases hpasses pid p hp hid with hold | ⟨hlast, -⟩
    · exact hw.past ⟨pid, p, hold, hid, hpast⟩
    · exact hlast hpast
  postpones := by
    intro pid p hp hid e hstage
    have hquiet : getCurrentQuietPeriodEnd cfg.timeZone w'.db n.applicationId w'.clock =
        getCurrentQuietPeriodEnd cfg.timeZone w.db n.applicationId w.clock := by
      rw [getCurrentQuietPeriodEnd_eq, getCurrentQuietPeriodEnd_eq, hclock]
      unfold applicationQuietPeriodsOf
      rw [hperiods]
    rw [hquiet]
    rcases hpasses pid p hp hid with hold | ⟨-, hpostpones⟩
    · exact hw.postpones pid p hold hid e hstage
    · exact hpostpones e hstage

/-- A step of a pass. -/
theorem pass (hw : w.Awaits cfg n start last) {pid : ℕ} {p : Pass} {s : PassStep}
    (hp : w.passes pid = some p)
    (h : Pass.Moves cfg w.clock w.db p.notification p.stage s)
    (hclaimed : (w.afterPass pid s).Claimed) : (w.afterPass pid s).Awaits cfg n start last := by
  refine hw.next hclaimed rfl h.frame.2.2.2 ?_ ?_
  · by_cases hid : p.notification.id = n.id
    · obtain ⟨hrow, hstatus⟩ := hw.row_of_pass hp hid
      obtain ⟨happ, count, hcount, hscheduled, hunscheduled⟩ := hw.leads_of_row hrow
      have hsettles := hunscheduled hstatus
      rcases h.notification_cases with hsame | ⟨-, f, hf, hs, hclosed | ⟨e, hstage, rfl⟩⟩
      · exact ⟨p.notification, by rw [afterPass, hsame, hrow], happ, count, hcount, hscheduled,
          hunscheduled⟩
      · refine ⟨f p.notification, ?_, (hclosed _).1.trans happ, count, hcount,
          fun h => absurd h (hclosed _).2, fun _ => hsettles⟩
        rw [afterPass, hs, hid, Table.get?_modify_self, hrow, Option.map_some]
      · -- the deferral is the next one of those that lead to `last`
        have hquiet := hw.postpones pid p hp hid e hstage
        rw [hw.quietPeriodEnd_eq] at hquiet
        obtain ⟨d, hd, rfl⟩ := Option.map_eq_some_iff.mp hquiet
        obtain ⟨hlater, count', hlt, hrest⟩ := hsettles.of_some hd
        refine ⟨postponeNotification d.instant p.notification, ?_, happ, count',
          hlt.le.trans hcount, fun _ => ⟨d.instant, rfl, hlater.le, hrest⟩, fun h => absurd rfl h⟩
        rw [afterPass, hs, hid, Table.get?_modify_self, hrow, Option.map_some]
    · obtain ⟨r, hr, hleads⟩ := hw.leads
      refine ⟨r, ?_, hleads⟩
      rcases h.notifications with hsame | ⟨-, f, hf, hs, -⟩
      · rw [afterPass, hsame, hr]
      · rw [afterPass, hs, Table.get?_modify_of_ne _ _ _ (Ne.symm hid), hr]
  · intro j q hq hid
    rcases Pool.set_eq_some.mp hq with ⟨rfl, hnext⟩ | ⟨-, hq⟩
    · right
      rw [h.notification_eq hnext] at hid
      obtain ⟨hrow, hstatus⟩ := hw.row_of_pass hp hid
      obtain ⟨happ, count, hcount, -, hunscheduled⟩ := hw.leads_of_row hrow
      constructor
      · intro hpast
        rcases h.past_cases hnext hpast with hbefore | hfree
        · exact hw.past ⟨j, p, hp, hid, hbefore⟩
        · rw [happ, hw.quietPeriodEnd_eq, Option.map_eq_none_iff] at hfree
          exact (hunscheduled hstatus).eq_of_none hfree
      · intro e hstage
        rw [← happ]
        exact h.postponing_cases hnext hstage
    · exact Or.inl hq

/-- A claim starts a pass before its checks. -/
theorem claimed (hw : w.Awaits cfg n start last) {m : Notification} {k : ℕ}
    (hm : w.db.notifications.get? k = some m) (hstatus : m.status ∈ allowedNotificationStatusesToStart)
    (hclaimed : w'.Claimed) (hclock : w'.clock = w.clock)
    (hdb : w'.db = w.db.updateNotification m.id (acquire w.clock) (pk_acquire w.clock))
    {pid : ℕ} (hpasses : w'.passes = w.passes.set pid (some { notification := acquire w.clock m })) :
    w'.Awaits cfg n start last := by
  obtain rfl : m.id = k := (Table.get?_eq_some.mp hm).2
  refine hw.next hclaimed hclock (by rw [hdb]; rfl) ?_ ?_
  · rw [hdb]
    by_cases hid : m.id = n.id
    · rw [hid] at hm
      obtain ⟨happ, count, hcount, -, hunscheduled⟩ := hw.leads_of_row hm
      have hsettles := hunscheduled fun hscheduled => by
        simp [hscheduled, allowedNotificationStatusesToStart] at hstatus
      refine ⟨acquire w.clock m, ?_, happ, count, hcount, fun h => ?_, fun _ => hsettles⟩
      · rw [Db.updateNotification, hid, Table.get?_modify_self, hm, Option.map_some]
      · simp [acquire] at h
    · obtain ⟨r, hr, hleads⟩ := hw.leads
      refine ⟨r, ?_, hleads⟩
      rw [Db.updateNotification, Table.get?_modify_of_ne _ _ _ (Ne.symm hid), hr]
  · rw [hpasses]
    intro j p hp hid
    rcases Pool.set_eq_some.mp hp with ⟨-, hnew⟩ | ⟨-, hp⟩
    · obtain rfl := Option.some.inj hnew
      exact Or.inr ⟨by simp [Stage.isPastQuietCheck], by simp⟩
    · exact Or.inl hp

/-- A step of the dispatcher. -/
theorem dispatch (hw : w.Awaits cfg n start last) {input : TaskInput} {p : Process}
    (hp : p.isDispatch = true) {s : TaskStep Process}
    (h : Process.Moves w.clock w.db.notifications input p s) (hclaimed : w'.Claimed)
    (hclock : w'.clock = w.clock)
    (hdb : w'.db = { w.db with notifications := s.notifications }) (hpasses : w'.passes = w.passes) :
    w'.Awaits cfg n start last := by
  refine hw.next hclaimed hclock (by rw [hdb]) ?_ (fun pid q hq _ => Or.inl (hpasses ▸ hq))
  rw [hdb]
  cases h with
  | dispatched id ids m hm hdue hinput =>
    by_cases hid : id = n.id
    · rw [hid] at hm
      obtain ⟨happ, count, hcount, hscheduled, -⟩ := hw.leads_of_row hm
      simp only [scheduledDue, Bool.and_eq_true, beq_iff_eq, Option.any_eq_true,
        decide_eq_true_eq] at hdue
      obtain ⟨hstatus, t, ht, hle⟩ := hdue
      -- the dispatcher is on time
      obtain ⟨t', ht', hnotPast, hsettles⟩ := hscheduled hstatus
      obtain rfl : t = t' := Option.some.inj (ht.symm.trans ht')
      obtain rfl : w.clock = t := le_antisymm hnotPast hle
      refine ⟨queueNotification m, ?_, happ, count, hcount, fun h => ?_, fun _ => hsettles⟩
      · rw [hid, Table.get?_modify_self, hm, Option.map_some]
      · simp [queueNotification] at h
    · obtain ⟨r, hr, hleads⟩ := hw.leads
      refine ⟨r, ?_, hleads⟩
      rw [Table.get?_modify_of_ne _ _ _ (Ne.symm hid), hr]
  | dispatchDone | dispatchSkipped | dispatchSubmitted | dispatchFailed => exact hw.leads
  | _ => simp [Process.isDispatch] at hp

/-- Time passes while no pass of the notification runs. -/
theorem tick (hw : w.Awaits cfg n start last) {duration : ℕ}
    (hok : w.OnTime n.id (.tick duration))
    (hclaimed : ({ w with clock := w.clock + duration } : World).Claimed) :
    ({ w with clock := w.clock + duration } : World).Awaits cfg n start last := by
  obtain ⟨r, hr, hstatus, t, ht, hle⟩ := hok
  obtain ⟨happ, count, hcount, hscheduled, -⟩ := hw.leads_of_row hr
  obtain ⟨t', ht', -, hsettles⟩ := hscheduled hstatus
  obtain rfl : t = t' := Option.some.inj (ht.symm.trans ht')
  have hnone : ∀ pid p, w.passes pid = some p → p.notification.id ≠ n.id := by
    intro pid p hp hid
    obtain ⟨hrow, hprocessing⟩ := hw.row_of_pass hp hid
    obtain rfl := Option.some.inj (hr.symm.trans hrow)
    exact hprocessing hstatus
  refine ⟨hclaimed, hw.periods, ⟨r, hr, happ, count, hcount, fun _ => ⟨t, ht, hle, hsettles⟩,
    fun h => absurd hstatus h⟩, ?_, ?_⟩
  · rintro ⟨pid, p, hp, hid, -⟩
    exact absurd hid (hnone pid p hp)
  · exact fun pid p hp hid => absurd hid (hnone pid p hp)

/-- No action of a punctual run writes a row that a pass has claimed. -/
theorem claimsSpared (hw : w.Awaits cfg n start last) {a : Action} (hok : w.OnTime n.id a) :
    w.ClaimsSpared cfg a := by
  cases a with
  | request rid r =>
    obtain rfl : r = .dispatchScheduled := hok
    exact hw.row
  | advance rid input =>
    intro p hp
    have hdispatch := hok p hp
    obtain ⟨s, hmoves, hadv⟩ := Process.advance_moves w.clock input w.db
      (Process.writesNotifications_of_isDispatch hdispatch)
    rw [hadv]
    intro pid q hq
    refine hmoves.get?_processing (hw.row pid q hq) (hw.processing pid q hq) ?_ ?_
    · rintro cutoff ids rfl
      simp [Process.isDispatch] at hdispatch
    · rintro m d rfl
      simp [Process.isDispatch] at hdispatch
  | _ => trivial

/-- One action of a punctual run. -/
theorem step (hw : w.Awaits cfg n start last) {a : Action} (h : Steps cfg w a w')
    (hok : w.OnTime n.id a) : w'.Awaits cfg n start last := by
  have hclaimed := hw.toClaimed.step h (hw.claimsSpared hok)
  cases h with
  | tick duration => exact hw.tick hok hclaimed
  | notClaimed pid task rowLocked htask hpid hfree =>
    exact hw.next hclaimed rfl rfl hw.leads fun _ _ hp _ => Or.inl hp
  | claimed pid task m htask hpid hm hstatus => exact hw.claimed hm hstatus hclaimed rfl rfl rfl
  | pass pid input p s hp hmoves => exact hw.pass hp hmoves hclaimed
  | crash pid p hp =>
    refine hw.next hclaimed rfl rfl hw.leads fun j q hq _ => Or.inl ?_
    rcases Pool.set_eq_some.mp hq with ⟨-, hnone⟩ | ⟨-, hq⟩
    · cases hnone
    · exact hq
  | request rid r hrid =>
    obtain rfl : r = .dispatchScheduled := hok
    exact hw.next hclaimed rfl rfl hw.leads fun _ _ hp _ => Or.inl hp
  | advance rid input p hp =>
    have hdispatch := hok p hp
    obtain ⟨s, hmoves, hadv⟩ := Process.advance_moves w.clock input w.db
      (Process.writesNotifications_of_isDispatch hdispatch)
    exact hw.dispatch hdispatch hmoves hclaimed rfl (by rw [afterProcess, hadv]) rfl

end World.Awaits

/-! ### A punctual run -/

/-- The notification is SCHEDULED for `t`, which has not passed, nothing else is under way under
the ids from `free` on, and the quiet periods are those of the start. -/
structure World.Waiting (n : Notification) (start : Db) (free : ℕ) (t : Instant) (w : World) :
    Prop where
  periods : w.db.applicationQuietPeriods = start.applicationQuietPeriods
  row : ∃ r, w.db.notifications.get? n.id = some r ∧ r.applicationId = n.applicationId ∧
    r.status = .scheduled ∧ r.scheduledFor = some t
  passes : ∀ k, free ≤ k → w.passes k = none
  processes : ∀ k, free ≤ k → w.processes k = none

/-- A pass of the notification is about to check the quiet periods, at `t`. -/
structure World.Checking (n : Notification) (start : Db) (pid : ℕ) (t : Instant) (w : World) :
    Prop where
  clock : w.clock = t
  periods : w.db.applicationQuietPeriods = start.applicationQuietPeriods
  row : ∃ r, w.db.notifications.get? n.id = some r ∧ r.applicationId = n.applicationId ∧
    w.passes pid = some ⟨r, .applicationQuiet⟩
  passes : ∀ k, pid < k → w.passes k = none
  processes : ∀ k, pid < k → w.processes k = none

section Run

variable {cfg : Settings} {n : Notification} {start : Db} {w : World} {free : ℕ} {t : Instant}

/-- The dispatcher passes over the ids before one. -/
theorem reach_scanning (cfg : Settings) (id rid : ℕ) (before rest : List ℕ)
    (h : w.processes rid = some (.dispatch (.scanning (before ++ rest)))) :
    (server cfg).Reach (World.OnTime id) w
      { w with processes := w.processes.set rid (some (.dispatch (.scanning rest))) } := by
  induction before generalizing w with
  | nil =>
    rw [List.nil_append] at h
    rw [Pool.set_eq_self h]
    exact .refl _
  | cons k before ih =>
    -- another transaction holds the row
    let w' : World := { w with
      processes := w.processes.set rid (some (.dispatch (.scanning (before ++ rest)))) }
    have hstep : (server cfg).step w (.advance rid { rowLocked := true }) = some w' := by
      change (w.processes rid).map _ = _
      rw [h]
      simp [World.afterProcess, Process.advance, DispatchRun.advance, TaskStep.outcome, w']
    have hok : w.OnTime id (.advance rid { rowLocked := true }) := by
      intro p hp
      obtain rfl := Option.some.inj (hp.symm.trans h)
      rfl
    have hrest := ih (w := w') (by simp [w'])
    simp only [w', Pool.set_set] at hrest
    exact System.Reach.head hok hstep hrest

/-- The dispatcher is on time for a notification that waits, and queues it. -/
theorem World.Waiting.reach_queued (cfg : Settings) (hw : w.Waiting n start free t)
    (hclock : w.clock ≤ t) :
    ∃ w', (server cfg).Reach (World.OnTime n.id) w w' ∧ w'.clock = t ∧
      w'.db = w.db.updateNotification n.id queueNotification pk_queueNotification ∧
      w'.passes = w.passes ∧ ⟨n.id, .dispatcher⟩ ∈ w'.broker ∧
      ∀ k, free < k → w'.processes k = none := by
  obtain ⟨r, hr, -, hstatus, hdate⟩ := hw.row
  have hdue : scheduledDue t r = true := by simp [scheduledDue, hstatus, hdate]
  have hlisted : n.id ∈ dueScheduled w.db t :=
    List.mem_map.mpr ⟨r, Table.mem_select.mpr ⟨(Table.get?_eq_some.mp hr).1, hdue⟩,
      (Table.get?_eq_some.mp hr).2⟩
  obtain ⟨before, rest, hids⟩ := List.append_of_mem hlisted
  -- time passes to the date, at which the dispatcher lists the due notifications
  let w₁ : World := { w with clock := t }
  have htick : (server cfg).step w (.tick (t - w.clock).toNat) = some w₁ := by
    change some { w with clock := w.clock + ((t - w.clock).toNat : ℤ) } = some w₁
    rw [show w.clock + ((t - w.clock).toNat : ℤ) = t by unfold Instant at *; omega]
  have hticks : w.OnTime n.id (.tick (t - w.clock).toNat) :=
    ⟨r, hr, hstatus, t, hdate, by unfold Instant at *; omega⟩
  let w₂ : World := { w₁ with
    processes := w.processes.set free (some (.dispatch (.scanning (before ++ n.id :: rest)))) }
  have hbegin : (server cfg).step w₁ (.request free .dispatchScheduled) = some w₂ := by
    change (if (w.processes free).isNone then _ else _) = _
    rw [hw.processes free le_rfl]
    simp [World.afterProcess, Request.begin, Outcome.goesOn, hids, w₁, w₂]
  -- it comes to this one
  let w₃ : World := { w₁ with
    processes := w.processes.set free (some (.dispatch (.scanning (n.id :: rest)))) }
  have hscan : (server cfg).Reach (World.OnTime n.id) w₂ w₃ := by
    have hreach := reach_scanning (w := w₂) cfg n.id free before (n.id :: rest)
      (by simp [w₂])
    simpa only [w₂, Pool.set_set] using hreach
  let w₄ : World := { w₃ with
    db := w.db.updateNotification n.id queueNotification pk_queueNotification
    processes := w.processes.set free (some (.dispatch (.submitting n.id rest)))
    history := .queued n.id .dispatcher t :: w.history }
  have hqueue : (server cfg).step w₃ (.advance free {}) = some w₄ := by
    change (w₃.processes free).map _ = _
    simp [w₃, w₁, w₄, World.afterProcess, Process.advance, DispatchRun.advance, TaskStep.outcome,
      hr, hdue, Db.updateNotification]
  let w₅ : World := { w₄ with
    broker := w.broker ++ [⟨n.id, .dispatcher⟩]
    processes := w.processes.set free (some (.dispatch (.scanning rest))) }
  have hsubmit : (server cfg).step w₄ (.advance free {}) = some w₅ := by
    change (w₄.processes free).map _ = _
    simp [w₃, w₁, w₄, w₅, World.afterProcess, Process.advance, DispatchRun.advance,
      TaskStep.outcome]
  have hrequests : w₁.OnTime n.id (.request free .dispatchScheduled) := rfl
  have hdispatches : ∀ (v : World) (d : DispatchRun), v.processes free = some (.dispatch d) →
      v.OnTime n.id (.advance free {}) := by
    intro v d hv p hp
    obtain rfl := Option.some.inj (hp.symm.trans hv)
    rfl
  refine ⟨w₅, ?_, rfl, rfl, rfl, List.mem_append_right _ List.mem_cons_self, fun k hk => ?_⟩
  · exact (System.Reach.head hticks htick (System.Reach.head hrequests hbegin hscan)).trans
      (System.Reach.head (hdispatches w₃ _ (Pool.set_self _ _ _)) hqueue
        (System.Reach.head (hdispatches w₄ _ (Pool.set_self _ _ _)) hsubmit (.refl _)))
  · exact (Pool.set_of_ne _ _ hk.ne').trans (hw.processes k hk.le)

/-- A worker takes it, for an owner who is entitled, and comes to the check of the quiet periods. -/
theorem World.Waiting.reach_checking (cfg : Settings) (hw : w.Waiting n start free t)
    (hclock : w.clock ≤ t) :
    ∃ w', (server cfg).Reach (World.OnTime n.id) w w' ∧ w'.Checking n start free t := by
  obtain ⟨r, hr, happ, -, -⟩ := hw.row
  obtain ⟨v, hreach, hv, hdb, hpasses, htask, hprocesses⟩ := hw.reach_queued cfg hclock
  have hfree : v.passes free = none := hpasses ▸ hw.passes free le_rfl
  have hid : r.id = n.id := (Table.get?_eq_some.mp hr).2
  have hrow : v.db.notifications.get? n.id = some (queueNotification r) := by
    rw [hdb, Db.updateNotification, Table.get?_modify_self, hr, Option.map_some]
  let q : Notification := acquire t (queueNotification r)
  let w₁ := v.claim free ⟨n.id, .dispatcher⟩ false
  have hclaimable : claimable v.db n.id false = some (queueNotification r) := by
    simp [claimable, hrow, queueNotification, allowedNotificationStatusesToStart]
  have hclaim : (server cfg).step v (.claim free ⟨n.id, .dispatcher⟩ false) = some w₁ := by
    change (if _ ∧ (v.passes free).isNone then _ else _) = _
    simp [htask, hfree, w₁]
  have hw₁ : w₁.clock = t ∧ w₁.processes = v.processes ∧
      w₁.passes = v.passes.set free (some { notification := q }) ∧
      w₁.db = v.db.updateNotification n.id (acquire t) (pk_acquire t) := by
    simp [w₁, World.claim, hclaimable, hv, q, queueNotification, hid]
  obtain ⟨hclock₁, hprocesses₁, hpasses₁, hdb₁⟩ := hw₁
  let w₂ := w₁.afterPass free (Pass.on q .applicationQuiet w₁.db)
  have hcheck : (server cfg).step w₁ (.pass free {}) = some w₂ := by
    change (w₁.passes free).map _ = _
    rw [hpasses₁, Pool.set_self]
    rfl
  have hclaims : v.OnTime n.id (.claim free ⟨n.id, .dispatcher⟩ false) := trivial
  have hpass : w₁.OnTime n.id (.pass free {}) := trivial
  refine ⟨w₂, hreach.trans (System.Reach.head hclaims hclaim
    (System.Reach.head hpass hcheck (.refl _))), hclock₁, ?_, ⟨q, ?_, happ, ?_⟩, ?_, ?_⟩
  · change w₁.db.applicationQuietPeriods = _
    rw [hdb₁, hdb]
    exact hw.periods
  · change w₁.db.notifications.get? n.id = _
    rw [hdb₁, Db.updateNotification, Table.get?_modify_self, hrow, Option.map_some]
  · exact Pool.set_self _ _ _
  · intro k hk
    change (w₁.passes.set free _) k = none
    rw [Pool.set_of_ne _ _ hk.ne', hpasses₁, Pool.set_of_ne _ _ hk.ne', hpasses]
    exact hw.passes k hk.le
  · intro k hk
    change w₁.processes k = none
    rw [hprocesses₁]
    exact hprocesses k hk

/-- What the pass finds. -/
theorem World.Checking.quietPeriodEnd_eq (cfg : Settings) (hw : w.Checking n start free t)
    {r : Notification} (happ : r.applicationId = n.applicationId) :
    getCurrentQuietPeriodEnd cfg.timeZone w.db r.applicationId w.clock =
      (getQuietPeriodEndFromIterable cfg.timeZone (applicationQuietPeriodsOf start n.applicationId)
        (.utc t)).map (·.instant) := by
  rw [getCurrentQuietPeriodEnd_eq, hw.clock, happ]
  unfold applicationQuietPeriodsOf
  rw [hw.periods]

/-- At a free instant the pass goes on. -/
theorem World.Checking.reach_past (hw : w.Checking n start free t)
    (hquiet : getQuietPeriodEndFromIterable cfg.timeZone
      (applicationQuietPeriodsOf start n.applicationId) (.utc t) = none) :
    ∃ w', (server cfg).Reach (World.OnTime n.id) w w' ∧ w'.PastQuietCheck n.id := by
  obtain ⟨r, hr, happ, hp⟩ := hw.row
  have hend := hw.quietPeriodEnd_eq cfg happ
  rw [hquiet, Option.map_none] at hend
  have hgoes : (server cfg).step w (.pass free {}) =
      some (w.afterPass free (Pass.on r .listing w.db)) := by
    change (w.passes free).map _ = _
    simp [hp, Pass.advance, hend, Pass.goto, Pass.on]
  have hok : w.OnTime n.id (.pass free {}) := trivial
  exact ⟨_, System.Reach.head hok hgoes (.refl _), free, ⟨r, .listing⟩, Pool.set_self _ _ _,
    (Table.get?_eq_some.mp hr).2, rfl⟩

/-- In a quiet period the pass is deferred, and the notification waits for the end. -/
theorem World.Checking.reach_waiting (hw : w.Checking n start free t) {e : Datetime}
    (hquiet : getQuietPeriodEndFromIterable cfg.timeZone
      (applicationQuietPeriodsOf start n.applicationId) (.utc t) = some e) :
    ∃ w', (server cfg).Reach (World.OnTime n.id) w w' ∧ w'.clock = t ∧
      w'.Waiting n start (free + 1) e.instant := by
  obtain ⟨r, hr, happ, hp⟩ := hw.row
  have hid : r.id = n.id := (Table.get?_eq_some.mp hr).2
  have hend := hw.quietPeriodEnd_eq cfg happ
  rw [hquiet, Option.map_some] at hend
  let w₁ := w.afterPass free (Pass.on r (.postponing e.instant) w.db)
  have hgoes : (server cfg).step w (.pass free {}) = some w₁ := by
    change (w.passes free).map _ = _
    simp [hp, Pass.advance, hend, Pass.goto, Pass.on, w₁]
  let w₂ := w₁.afterPass free (Pass.ended (w.db.updateNotification r.id (postponeNotification e.instant)
    (pk_postponeNotification e.instant)) [.postponed r.id])
  have hdefers : (server cfg).step w₁ (.pass free {}) = some w₂ := by
    change (w₁.passes free).map _ = _
    rw [show w₁.passes free = some ⟨r, .postponing e.instant⟩ from Pool.set_self _ _ _]
    rfl
  have hok₁ : w.OnTime n.id (.pass free {}) := trivial
  have hok₂ : w₁.OnTime n.id (.pass free {}) := trivial
  refine ⟨w₂, System.Reach.head hok₁ hgoes (System.Reach.head hok₂ hdefers (.refl _)), hw.clock,
    hw.periods, ⟨postponeNotification e.instant r, ?_, happ, rfl, rfl⟩, fun k hk => ?_,
    fun k hk => hw.processes k hk⟩
  · change (w.db.updateNotification r.id _ _).notifications.get? n.id = _
    rw [Db.updateNotification, hid, Table.get?_modify_self, hr, Option.map_some]
  · change ((w.passes.set free _).set free _) k = none
    have hne : k ≠ free := by omega
    rw [Pool.set_of_ne _ _ hne, Pool.set_of_ne _ _ hne]
    exact hw.passes k hk

/-- The deferrals of a notification that waits come to an end. -/
theorem World.Waiting.exists_past {count : ℕ} {last : Instant}
    (hsettles : Settles cfg.timeZone (applicationQuietPeriodsOf start n.applicationId) count t last)
    (hw : w.Waiting n start free t) (hclock : w.clock ≤ t) :
    ∃ w', (server cfg).Reach (World.OnTime n.id) w w' ∧ w'.PastQuietCheck n.id := by
  induction hsettles generalizing w free with
  | free t hfree =>
    obtain ⟨u, hu, hchecking⟩ := hw.reach_checking cfg hclock
    obtain ⟨v, hv, hpast⟩ := hchecking.reach_past hfree
    exact ⟨v, hu.trans hv, hpast⟩
  | deferred e he hlater hsame hrest ih =>
    obtain ⟨u, hu, hchecking⟩ := hw.reach_checking cfg hclock
    obtain ⟨v, hv, hvclock, hwaiting⟩ := hchecking.reach_waiting he
    obtain ⟨x, hx, hpast⟩ := ih hwaiting (hvclock.le.trans hlater.le)
    exact ⟨x, hu.trans (hv.trans hx), hpast⟩

end Run

/-! ### The preview and the dispatch -/

/-- A notification that is scheduled for a date that has not passed. -/
structure World.Scheduled (n : Notification) (t : Instant) (w : World) : Prop extends
    w.Initial where
  row : w.db.notifications.get? n.id = some n
  status : n.status = .scheduled
  date : n.scheduledFor = some t
  clock : w.clock ≤ t

theorem World.Scheduled.waiting {n : Notification} {t : Instant} {w : World}
    (hw : w.Scheduled n t) : w.Waiting n w.db 0 t where
  periods := rfl
  row := ⟨n, hw.row, rfl, hw.status, hw.date⟩
  passes := by simp [hw.passes]
  processes := by simp [hw.processes]

/-- When the deferrals lead out of the quiet periods, and there are no more of them than the loop
of the preview has shifts, the shown date is the one of dispatch. -/
theorem preview_equals_dispatch {cfg : Settings} {start : World} {n : Notification}
    {t last : Instant} {count : ℕ} (h₀ : start.Scheduled n t)
    (hsettles : Settles cfg.timeZone (applicationQuietPeriodsOf start.db n.applicationId) count t
      last)
    (hcount : count ≤ maxQuietPeriodShiftIterations) : start.PreviewIsDispatch cfg n := by
  have heffective : effectiveScheduledFor cfg.timeZone start.db n = some last := by
    rw [effectiveScheduledFor, h₀.date]
    exact computeEffectiveScheduledFor_of_settles hsettles hcount
  have hstart : start.Awaits cfg n start.db last := by
    refine ⟨h₀.toInitial.claimed, rfl, ⟨n, h₀.row, rfl, count, hcount,
      fun _ => ⟨t, h₀.date, h₀.clock, hsettles⟩, fun h => absurd h₀.status h⟩, ?_, ?_⟩
    · rintro ⟨pid, p, hp, -⟩
      simp [h₀.passes] at hp
    · intro pid p hp
      simp [h₀.passes] at hp
  have hawaits : ∀ w, (server cfg).Reach (World.OnTime n.id) start w →
      w.Awaits cfg n start.db last := fun w hw =>
    System.Reach.invariant (fun _ _ _ hu hok hs => hu.step (World.step_cases hs) hok) hw hstart
  refine ⟨fun w hw r hr hscheduled => ?_, fun w hw hpast => ?_,
    h₀.waiting.exists_past hsettles h₀.clock⟩
  · have hwaits := hawaits w hw
    obtain ⟨happ, c, hc, hleads, -⟩ := hwaits.leads_of_row hr
    obtain ⟨s, hs, -, hrest⟩ := hleads hscheduled
    have hperiods : applicationQuietPeriodsOf w.db r.applicationId =
        applicationQuietPeriodsOf start.db n.applicationId := by
      unfold applicationQuietPeriodsOf
      rw [hwaits.periods, happ]
    rw [heffective, effectiveScheduledFor, hs, hperiods]
    exact computeEffectiveScheduledFor_of_settles hrest hc
  · rw [heffective, (hawaits w hw).past hpast]

/-- After a deferral the same date is shown. -/
theorem World.PreviewIsDispatch.after_deferral {cfg : Settings} {start : World} {n : Notification}
    {t : Instant} {e : Datetime} (h : start.PreviewIsDispatch cfg n) (h₀ : start.Scheduled n t)
    (he : getQuietPeriodEndFromIterable cfg.timeZone
      (applicationQuietPeriodsOf start.db n.applicationId) (.utc t) = some e) :
    computeEffectiveScheduledFor cfg.timeZone (applicationQuietPeriodsOf start.db n.applicationId)
        (some e.instant) =
      computeEffectiveScheduledFor cfg.timeZone
        (applicationQuietPeriodsOf start.db n.applicationId) (some t) := by
  obtain ⟨u, hu, hchecking⟩ := h₀.waiting.reach_checking cfg h₀.clock
  obtain ⟨v, hv, -, hwaiting⟩ := hchecking.reach_waiting he
  obtain ⟨r, hr, happ, hstatus, hdate⟩ := hwaiting.row
  have hshown := h.shown v (hu.trans hv) r hr hstatus
  have hperiods : applicationQuietPeriodsOf v.db r.applicationId =
      applicationQuietPeriodsOf start.db n.applicationId := by
    unfold applicationQuietPeriodsOf
    rw [hwaiting.periods, happ]
  rwa [effectiveScheduledFor, effectiveScheduledFor, hperiods, hdate, h₀.date] at hshown

namespace Sample

/-- The notification of the sample, scheduled for a date. -/
def dated (t : Instant) : Notification :=
  { notification with status := .scheduled, scheduledFor := some t }

/-- The server of the sample at that date, with quiet periods of the application. -/
def silenced (quietPeriods : List AbstractQuietPeriod) (t : Instant) : World where
  clock := t
  db := { db with
    notifications := single (dated t)
    applicationQuietPeriods := Table.empty.insertAll
      (fun q id => { q with id, applicationId := 1 }) (fun _ _ => rfl) quietPeriods }

theorem silenced_scheduled (quietPeriods : List AbstractQuietPeriod) (t : Instant) :
    (silenced quietPeriods t).Scheduled (dated t) t :=
  ⟨⟨rfl, rfl, rfl⟩, rfl, rfl, rfl, le_rfl⟩

/-- A Monday of summer in Brussels, at 23:00. -/
def mondayEvening : Instant := days 20605 + minutes 1260

/-- Every Sunday from 01:00 to 02:30, and from 02:00 to 03:00. -/
def skipping : List AbstractQuietPeriod :=
  [{ periodType := .recurring, recurrenceDays := [6], startTime := some 3600000000,
     endTime := some 9000000000 },
   { periodType := .recurring, recurrenceDays := [6], startTime := some 7200000000,
     endTime := some 10800000000 }]

/-- 01:30 on the 29th of March 2026, the night in which the clock goes from 02:00 to 03:00. -/
def halfPastOne : Instant := days 20541 + minutes 30

end Sample

/-- Scheduled for a quiet Monday night, shown for the morning, and sent then. -/
theorem sample_preview_equals_dispatch :
    effectiveScheduledFor (.ofZone brussels)
        (Sample.silenced [Sample.mondayNight] Sample.mondayEvening).db
        (Sample.dated Sample.mondayEvening) = some (Sample.mondayEvening + minutes 420) ∧
      (Sample.silenced [Sample.mondayNight] Sample.mondayEvening).PreviewIsDispatch .brussels
        (Sample.dated Sample.mondayEvening) := by
  refine ⟨by decide +kernel, ?_⟩
  have hend : getQuietPeriodEndFromIterable (.ofZone brussels) (applicationQuietPeriodsOf
      (Sample.silenced [Sample.mondayNight] Sample.mondayEvening).db 1)
      (.utc Sample.mondayEvening) =
        some ⟨Sample.mondayEvening + minutes 420, some (20606, 21600000000)⟩ := by
    decide +kernel
  exact preview_equals_dispatch (Sample.silenced_scheduled _ _)
    (.deferred _ hend (by decide) (by decide +kernel) (.free _ (by decide +kernel))) (by decide)

/-- The shown date is not the one of dispatch when there are more deferrals than shifts, nor when
an end falls into the hour that the clock skips and into another quiet period there, nor when the
date falls into the hour that the clock repeats. -/
theorem preview_differs :
    ¬(Sample.silenced Sample.adjoining 0).PreviewIsDispatch .brussels (Sample.dated 0) ∧
      ¬(Sample.silenced Sample.skipping Sample.halfPastOne).PreviewIsDispatch .brussels
        (Sample.dated Sample.halfPastOne) ∧
      ¬(Sample.silenced [Sample.sundayNight] Sample.secondHalfPastTwo).PreviewIsDispatch .brussels
        (Sample.dated Sample.secondHalfPastTwo) := by
  have hdiffers : ∀ (quietPeriods : List AbstractQuietPeriod) (t : Instant) (e : Datetime),
      getQuietPeriodEndFromIterable (.ofZone brussels)
        (applicationQuietPeriodsOf (Sample.silenced quietPeriods t).db 1) (.utc t) = some e →
      computeEffectiveScheduledFor (.ofZone brussels)
          (applicationQuietPeriodsOf (Sample.silenced quietPeriods t).db 1) (some e.instant) ≠
        computeEffectiveScheduledFor (.ofZone brussels)
          (applicationQuietPeriodsOf (Sample.silenced quietPeriods t).db 1) (some t) →
      ¬(Sample.silenced quietPeriods t).PreviewIsDispatch .brussels (Sample.dated t) :=
    fun quietPeriods t e he hne h =>
      hne (h.after_deferral (Sample.silenced_scheduled quietPeriods t) he)
  refine ⟨hdiffers _ _ (.utc 1) ?_ ?_,
    hdiffers _ _ ⟨Sample.halfPastOne + minutes 60, some (20541, 9000000000)⟩ ?_ ?_,
    hdiffers _ _ ⟨Sample.secondHalfPastTwo - minutes 45, some (20751, 9900000000)⟩ ?_ ?_⟩ <;>
    decide +kernel

end PushIT
