import PushIT.Treatment

/-!
# The status of a notification and its deliveries

A notification that is SENT has only SENT deliveries, and one that is FAILED has none, in every
run in which a lapsed subscription never meets a SENT delivery and no failed submission puts
FAILED back over one.

The loop computes the status from counters that reflect the deliveries it treated.  Two writes go
past the counters: a pass that finds the subscription of the owner lapsed closes the notification
FAILED whatever was sent before, and a send request whose submission fails restores the status it
had read, although a pass may have sent deliveries since.

## Main definitions

* `Counts.Reflects`: what the counters say about a treated delivery.
* `World.LapsesUnsent`, `World.RestoresUnsent`: the two conditions.

## Main results

* `status_agrees`: the agreement in every such run.
* `lapse_fails_sent`: a run in which a notification ends FAILED with a SENT delivery.
-/

namespace PushIT

open Relational Transition

/-! ### The counters and the treated deliveries -/

/-- No failure, deferral or wait was counted only if the delivery is SENT, and no success only if
it is not. -/
structure Counts.Reflects (c : Counts) (d : NotificationDelivery) : Prop where
  clean : c.failed = 0 → c.deferred = 0 → c.waiting = 0 → d.status = .sent
  unsent : c.sent + c.skipped = 0 → d.status ≠ .sent

theorem Counts.reflects_failed {c : Counts} {d : NotificationDelivery} (h : d.status ≠ .sent) :
    c.addFailed.Reflects d :=
  ⟨fun hfailed => absurd hfailed (Nat.succ_ne_zero _), fun _ => h⟩

theorem Counts.reflects_success {c : Counts} {d : NotificationDelivery} (h : d.status = .sent)
    (hcount : c.sent + c.skipped ≠ 0) : c.Reflects d :=
  ⟨fun _ _ _ => h, fun hnone => absurd hnone hcount⟩

/-- Every branch of the loop counts what it did. -/
theorem Counts.treatment_reflects : Pass.Treatment Counts.Reflects fun _ => True where
  mono := by
    rintro c d ⟨hclean, hunsent⟩
    refine ⟨⟨hclean, ?_⟩, ⟨?_, hunsent⟩, ⟨hclean, ?_⟩, ⟨?_, hunsent⟩, ⟨?_, hunsent⟩⟩ <;>
      simp only [addSent, addFailed, addSkipped, addDeferred, addWaiting] <;> omega
  skipped := fun c d hsent => reflects_success hsent (by simp only [addSkipped]; omega)
  cancelled := fun now reason c d => reflects_failed (by simp [cancelDelivery])
  waited := fun now c d _ hsent _ =>
    ⟨fun _ _ hwaiting => absurd hwaiting (Nat.succ_ne_zero _), fun _ => hsent⟩
  deferred := fun now retryAt c d =>
    ⟨fun _ hdeferred => absurd hdeferred (Nat.succ_ne_zero _),
      fun _ => by simp [markDeliveryAsDeferred]⟩
  exhausted := fun c d _ hsent _ => reflects_failed hsent
  sent := fun now m c d => reflects_success rfl (by simp only [addSent]; omega)
  failed := by
    refine fun now error c d => reflects_failed ?_
    simp only [markDeliveryAsFailed]
    split <;> simp

theorem finalStatus_eq_sent {c : Counts} (h : (finalStatus c).val = .sent) :
    c.failed = 0 ∧ c.deferred = 0 ∧ c.waiting = 0 := by
  unfold finalStatus at h
  split at h
  · simp at h
  · split at h
    · omega
    · split at h <;> simp at h

theorem finalStatus_eq_failed {c : Counts} (h : (finalStatus c).val = .failed) :
    c.sent + c.skipped = 0 := by
  unfold finalStatus at h
  split at h
  · simp at h
  · split at h
    · simp at h
    · split at h
      · omega
      · simp at h

/-! ### Agreement -/

/-- The status of a notification says what its deliveries are. -/
structure Db.Agrees (db : Db) (n : Notification) : Prop where
  sent : n.status = .sent → ∀ d ∈ db.deliveries.rows, d.notificationId = n.id → d.status = .sent
  failed : n.status = .failed → ∀ d ∈ db.deliveries.rows, d.notificationId = n.id →
    d.status ≠ .sent

theorem Db.agrees_of_status {db : Db} {n : Notification} (hsent : n.status ≠ .sent)
    (hfailed : n.status ≠ .failed) : db.Agrees n :=
  ⟨fun h => absurd h hsent, fun h => absurd h hfailed⟩

theorem Db.Agrees.of_rows {db db' : Db} {n : Notification} (hn : db.Agrees n)
    (h : ∀ d ∈ db'.deliveries.rows, d.notificationId = n.id → d ∈ db.deliveries.rows) :
    db'.Agrees n :=
  ⟨fun hs d hd hid => hn.sent hs d (h d hd hid) hid,
    fun hs d hd hid => hn.failed hs d (h d hd hid) hid⟩

/-- The status a pass ends with agrees. -/
theorem Pass.Closes.agrees {db : Db} {now : Instant} {n : Notification} {status : FinalStatus}
    (h : Closes Counts.Reflects db n.id status) :
    db.Agrees (closeNotification now status.val n) := by
  rcases h with ⟨rfl, -⟩ | ⟨c, rfl, hrows⟩
  · exact Db.agrees_of_status (by simp [closeNotification, noTarget])
      (by simp [closeNotification, noTarget])
  · constructor
    · intro hsent d hd hid
      obtain ⟨hfailed, hdeferred, hwaiting⟩ := finalStatus_eq_sent hsent
      exact (hrows d hd hid).clean hfailed hdeferred hwaiting
    · exact fun hfailed d hd hid => (hrows d hd hid).unsent (finalStatus_eq_failed hfailed)

/-! ### The two conditions -/

def Stage.isLapsed : Stage → Bool
  | .lapsed => true
  | _ => false

/-- A pass that finds the subscription of the owner lapsed, in this action, has no SENT
delivery. -/
def World.LapsesUnsent (w : World) : Action → Prop
  | .pass pid _ => ∀ p ∈ w.passes pid, p.stage.isLapsed = true →
      ∀ d ∈ w.db.deliveries.rows, d.notificationId = p.notification.id → d.status ≠ .sent
  | _ => True

/-- The notification that a roll-back puts to FAILED next. -/
def Process.restoresFailed : Process → Option ℕ
  | .queue r =>
    match r.stage with
    | .rollingBack id previousStatus => if previousStatus.val = .failed then some id else none
    | _ => none
  | _ => none

/-- A notification that a roll-back puts from QUEUED to FAILED, in this action, has no SENT
delivery. -/
def World.RestoresUnsent (w : World) : Action → Prop
  | .advance rid _ => ∀ p ∈ w.processes rid, ∀ id ∈ p.restoresFailed,
      ∀ n ∈ w.db.notifications.get? id, n.status = .queued →
        ∀ d ∈ w.db.deliveries.rows, d.notificationId = id → d.status ≠ .sent
  | _ => True

instance (w : World) (a : Action) : Decidable (w.LapsesUnsent a) := by
  rcases a with _ | _ <;> unfold World.LapsesUnsent <;> infer_instance

instance (w : World) (a : Action) : Decidable (w.RestoresUnsent a) := by
  rcases a with _ | _ <;> unfold World.RestoresUnsent <;> infer_instance

/-! ### The invariant -/

/-- The rows agree, and the running passes count what they do. -/
structure World.Agreed (w : World) : Prop extends w.Sound where
  intact : w.db.Intact
  treated : ∀ pid p, w.passes pid = some p → p.Treated Counts.Reflects w.db
  agrees : ∀ n ∈ w.db.notifications.rows, w.db.Agrees n

/-- A request or task that moves notifications keeps the agreement, unless a roll-back breaks
it. -/
theorem Process.Moves.agrees {w : World} {rid : ℕ} {input : TaskInput} {p : Process}
    {s : TaskStep Process} (hp : w.processes rid = some p) (hdelivering : p.isDelivering = true)
    (hrestores : w.RestoresUnsent (.advance rid input))
    (hagrees : ∀ n ∈ w.db.notifications.rows, w.db.Agrees n)
    (h : Moves w.clock w.db.notifications input p s) :
    ∀ n ∈ s.notifications.rows, w.db.Agrees n := by
  have hqueued : ∀ id f hf, (∀ n : Notification, (f n).status = .queued) →
      ∀ n ∈ (w.db.notifications.modify id f hf).rows, w.db.Agrees n := by
    intro id f hf hstatus n hn
    obtain ⟨r, hr, rfl⟩ := Table.mem_modify.mp hn
    split
    · exact Db.agrees_of_status (by simp [hstatus]) (by simp [hstatus])
    · exact hagrees r hr
  cases h with
  | queued => exact hqueued _ _ pk_queueNotification fun _ => rfl
  | dispatched => exact hqueued _ _ pk_queueNotification fun _ => rfl
  | requeued => exact hqueued _ _ pk_requeueNotification fun _ => rfl
  | patched n d row hrow => simp [isDelivering] at hdelivering
  | queueRolledBack r id status hr =>
    intro n hn
    change n ∈ (w.db.notifications.update _ _ (pk_restoreStatus status.val)).rows at hn
    obtain ⟨m, hm, rfl⟩ := Table.mem_update.mp hn
    split
    · next hqueued =>
      simp only [Bool.and_eq_true, beq_iff_eq] at hqueued
      obtain ⟨rfl, hstatus⟩ := hqueued
      have hallowed := status.2
      refine ⟨fun hsent => ?_, fun hfailed => ?_⟩
      · have hsent : status.val = .sent := hsent
        simp [hsent, allowedNotificationStatusesToQueue] at hallowed
      · have hfailed : status.val = .failed := hfailed
        exact hrestores _ hp m.id (by simp [restoresFailed, hr, hfailed]) m
          (Table.get?_pk hm) hstatus
    · exact hagrees m hm
  | _ => exact hagrees

/-- A step of a pass keeps the agreement. -/
theorem World.Agreed.pass {cfg : Settings} {w : World} (hw : w.Agreed) {pid : ℕ} {p : Pass}
    {s : PassStep} (hp : w.passes pid = some p)
    (hmoves : Pass.Moves cfg w.clock w.db p.notification p.stage s) :
    ∀ n ∈ s.db.notifications.rows, s.db.Agrees n := by
  have hacc := hw.accurate pid p hp
  have hrow := hw.row pid p hp
  -- the other notifications keep their rows and their deliveries
  have hother : ∀ n ∈ w.db.notifications.rows, n.id ≠ p.notification.id → s.db.Agrees n :=
    fun n hn hne => (hw.agrees n hn).of_rows fun d hd hid =>
      hmoves.mem_delivery_of_ne hacc hd (hid ▸ hne)
  have hown : ∀ n ∈ w.db.notifications.rows, n.id = p.notification.id → n = p.notification :=
    fun n hn hid => Table.eq_of_pk hn (Table.get?_eq_some.mp hrow).1 hid
  have hmodify : ∀ f hf, s.db.notifications = w.db.notifications.modify p.notification.id f hf →
      s.db.Agrees (f p.notification) → ∀ n ∈ s.db.notifications.rows, s.db.Agrees n := by
    intro f hf hs hagrees n hn
    rw [hs] at hn
    obtain ⟨r, hr, rfl⟩ := Table.mem_modify.mp hn
    split
    · next hid => exact hown r hr hid ▸ hagrees
    · next hid => exact hother r hr hid
  cases hnext : s.next with
  | some p' =>
    -- a running pass leaves its notification PROCESSING
    rw [hmoves.notifications_of_next hnext]
    intro n hn
    by_cases hid : n.id = p.notification.id
    · have := hw.processing pid p hp
      rw [← hown n hn hid] at this
      exact Db.agrees_of_status (by simp [this]) (by simp [this])
    · exact hother n hn hid
  | none =>
    rcases hmoves.closes hacc hw.intact hrow (hw.treated pid p hp) hnext with
      ⟨status, hcloses, hdb⟩ | ⟨q, -, hdb⟩ | ⟨-, hdb⟩
    · refine hmodify _ (pk_closeNotification w.clock status.val) (by rw [hdb]; rfl) ?_
      exact hcloses.agrees.of_rows fun d hd _ => by rwa [hdb] at hd
    · refine hmodify _ (pk_postponeNotification q) (by rw [hdb]; rfl) ?_
      exact Db.agrees_of_status (by simp [postponeNotification]) (by simp [postponeNotification])
    · rw [hdb]
      exact hw.agrees

/-- One action keeps the agreement. -/
theorem World.Agreed.step {cfg : Settings} {w w' : World} {a : Action} (hw : w.Agreed)
    (h : Steps cfg w a w') (hs : w.Delivers a) (hlapses : w.LapsesUnsent a)
    (hrestores : w.RestoresUnsent a) : w'.Agreed := by
  have htreated := hs.treated Counts.treatment_reflects hw.toSound hw.intact
    (fun _ _ => trivial) ?_ hw.treated h
  · refine ⟨hs.sound hw.toSound h, hs.intact hw.intact h, htreated, ?_⟩
    have hgrow : ∀ {db' : Db}, w.db.Grows db' → ∀ n ∈ db'.notifications.rows, db'.Agrees n := by
      intro db' hgrows n hn
      rcases hgrows.created n hn with hold | ⟨-, hfresh, -⟩
      · exact (hw.agrees n hold).of_rows fun d hd hid => hgrows.mem_deliveries hold hd hid
      · rcases hfresh with hstatus | hstatus <;>
          exact Db.agrees_of_status (by simp [hstatus]) (by simp [hstatus])
    cases h with
    | tick duration => exact hw.agrees
    | notClaimed => exact hw.agrees
    | claimed pid task n htask hpid hn hstatus =>
      intro m hm
      change m ∈ (w.db.notifications.modify n.id (acquire w.clock) (pk_acquire w.clock)).rows at hm
      obtain ⟨r, hr, rfl⟩ := Table.mem_modify.mp hm
      split
      · exact Db.agrees_of_status (by simp [acquire]) (by simp [acquire])
      · exact (hw.agrees r hr).of_rows fun _ hd _ => hd
    | pass pid input p s hp hmoves => exact hw.pass hp hmoves
    | crash pid p hp => exact hs.elim
    | request rid r hrid => exact hgrow (Request.begin_grows cfg hs)
    | advance rid input p hp =>
      rcases Process.advance_delivering w.clock w.db input (hs p hp) with
        ⟨-, s, hmoves, hadv⟩ | ⟨-, hgrows, -⟩
      · rw [hadv]
        intro n hn
        exact (hmoves.agrees hp (hs p hp) hrestores hw.agrees n hn).of_rows fun _ hd _ => hd
      · exact hgrow hgrows
  · rintro pid input p rfl hp hstage d hd hid -
    exact Counts.reflects_failed (hlapses p hp (by simp [hstage, Stage.isLapsed]) d hd hid)

/-! ### Runs -/

/-- Every notification that no pass is sending agrees with its deliveries. -/
def World.StatusAgrees (w : World) : Prop :=
  ∀ n ∈ w.db.notifications.rows,
    (∀ pid p, w.passes pid = some p → p.notification.id ≠ n.id) → w.db.Agrees n

/-- The actions of the send path in which the two conditions hold. -/
def World.ServesUnsent (w : World) (a : Action) : Prop :=
  w.Serves a ∧ w.LapsesUnsent a ∧ w.RestoresUnsent a

instance (w : World) (a : Action) : Decidable (w.ServesUnsent a) :=
  inferInstanceAs (Decidable (w.Serves a ∧ w.LapsesUnsent a ∧ w.RestoresUnsent a))

theorem World.Initial.agreed {w : World} (hw : w.Initial) (hintact : w.db.Intact)
    (hagrees : w.StatusAgrees) : w.Agreed :=
  ⟨hw.sound, hintact, by simp [hw.passes], fun n hn => hagrees n hn (by simp [hw.passes])⟩

/-- In every run of send passes, send requests, dispatches, retry sweeps, quiet periods and lapses
that starts in agreement, and in which no lapse and no roll-back writes FAILED over a SENT
delivery, the status of every notification agrees with its deliveries. -/
theorem status_agrees {cfg : Settings} {w₀ w : World} (h₀ : w₀.Initial) (hintact : w₀.db.Intact)
    (hagrees : w₀.StatusAgrees) (h : (server cfg).Reach World.ServesUnsent w₀ w) :
    w.StatusAgrees := by
  have hpres : (server cfg).Preserves World.ServesUnsent World.Agreed := fun _ _ _ hw hok hs =>
    hw.step (World.step_cases hs) hok.1.delivers hok.2.1 hok.2.2
  exact fun n hn _ => (System.Reach.invariant hpres h (h₀.agreed hintact hagrees)).agrees n hn

namespace Sample

/-- The sample server with a second subscribed device and a second delivery. -/
def twoDeliveries : World where
  clock := 0
  db :=
    { db with
      devices := pair device { device with id := 2, pushToken := "bbbbbbbbbbbbbbbbbbbb" }
        (pk_device device) pk_secondDevice
      links := pair link { link with id := 2, deviceId := 2 } (pk_link link) pk_secondLink
      deliveries := pair delivery { delivery with id := 2, deviceId := 2 } (pk_delivery delivery)
        pk_secondDelivery }
  broker := [⟨1, .client⟩]

theorem twoDeliveries_initial : twoDeliveries.Initial := ⟨rfl, rfl, rfl⟩

theorem twoDeliveries_intact : twoDeliveries.db.Intact := ⟨by decide, by decide⟩

theorem twoDeliveries_agrees : twoDeliveries.StatusAgrees :=
  fun n hn _ => Db.agrees_of_status (by
    obtain rfl := List.mem_singleton.mp hn
    simp [notification]) (by
    obtain rfl := List.mem_singleton.mp hn
    simp [notification])

/-- A pass that sends the first delivery and is refused the second for now. -/
def partialPass (pid : ℕ) (task : SendTask) : List Action :=
  toLoop pid task ++ [.pass pid {}, .pass pid {},
    .pass pid { push := .raised (.temporaryPushProvider "") }] ++ List.replicate 5 (.pass pid {})

/-- The retry sweep finds the notification a minute later. -/
def sweep (rid : ℕ) : List Action :=
  [.tick 60000000, .request rid .retryPending, .advance rid {}]

end Sample

/-- A second pass sends what the first could not, and the notification ends SENT. -/
theorem sample_status_agrees : ∃ w,
    (server .default).Reach World.ServesUnsent Sample.twoDeliveries w ∧
    (∃ n ∈ w.db.notifications.rows, n.status = .sent) ∧ w.StatusAgrees := by
  obtain ⟨w, hreach, hsent⟩ := System.exists_reach_of_guardedRun (server .default)
    World.ServesUnsent Sample.twoDeliveries
    (Sample.partialPass 1 ⟨1, .client⟩ ++ Sample.sweep 1 ++ Sample.toLoop 2 ⟨1, .retrySweep⟩ ++
      List.replicate 6 (.pass 2 {}))
    (fun w => w.db.notifications.rows.any fun n => decide (n.status = .sent)) (by decide)
  exact ⟨w, hreach, by simpa using hsent,
    status_agrees Sample.twoDeliveries_initial Sample.twoDeliveries_intact
      Sample.twoDeliveries_agrees hreach⟩

/-- One of two deliveries is sent; the subscription of the owner lapses before the retry of the
other, and the notification ends FAILED. -/
theorem lapse_fails_sent : ¬∀ (cfg : Settings) (w₀ w : World), w₀.Initial → w₀.db.Intact →
    w₀.StatusAgrees → (server cfg).Reach World.Serves w₀ w → w.StatusAgrees := by
  intro hclaim
  obtain ⟨w, hreach, hrows⟩ := System.exists_reach_of_guardedRun (server .default)
    World.Serves Sample.twoDeliveries
    (Sample.partialPass 1 ⟨1, .client⟩ ++ Sample.sweep 1 ++
      [.claim 2 ⟨1, .retrySweep⟩ false, .pass 2 { ownerPaid := false }, .pass 2 {}, .pass 2 {},
        .pass 2 {}])
    (fun w => w.db.notifications.rows.any fun n => decide (n.status = .failed) &&
      w.db.deliveries.rows.any fun d => decide (d.notificationId = n.id ∧ d.status = .sent))
    (by decide)
  obtain ⟨n, hn, hfailed⟩ := List.any_eq_true.mp hrows
  obtain ⟨hstatus, hsent⟩ := Bool.and_eq_true_iff.mp hfailed
  obtain ⟨d, hd, hdelivery⟩ := List.any_eq_true.mp hsent
  obtain ⟨hid, hsent⟩ := of_decide_eq_true hdelivery
  have hsound : w.Sound := System.Reach.invariant
    (fun _ _ _ hw hok hs => hok.delivers.sound hw (World.step_cases hs)) hreach
    Sample.twoDeliveries_initial.sound
  -- a pass would keep the row PROCESSING
  have hidle : ∀ pid p, w.passes pid = some p → p.notification.id ≠ n.id := by
    intro pid p hp heq
    have hrow := hsound.row pid p hp
    obtain rfl : n = p.notification :=
      Table.eq_of_pk hn (Table.get?_eq_some.mp hrow).1 heq.symm
    have := hsound.processing pid p hp
    simp [of_decide_eq_true hstatus] at this
  exact (hclaim .default _ w Sample.twoDeliveries_initial Sample.twoDeliveries_intact
    Sample.twoDeliveries_agrees hreach n hn hidle).failed (of_decide_eq_true hstatus) d hd hid hsent

end PushIT
