import PushIT.Sending

/-!
# At most one accepted push for each delivery

The provider accepts at most one push for a delivery row, and a row that is SENT stays SENT, in
every run in which the watchdog does not requeue a notification that a pass is still sending.
The watchdog decides from the clock alone, so without that condition a slow pass and the pass of
the requeued task both push the row they loaded as PENDING.

## Main results

* `pushed_at_most_once`: the two properties along every such run.
* `pushed_twice`: a run in which the provider accepts two pushes for one delivery.
-/

namespace PushIT

open Relational Transition

/-! ### One step -/

namespace Pass

variable {cfg : Settings} {now : Instant} {db : Db} {n : Notification} {stage : Stage}
  {s : PassStep}

/-- An accurate pass leaves a SENT row SENT. -/
theorem Moves.sent_row {p : Pass} (hp : p.Accurate db)
    (h : Moves cfg now db p.notification p.stage s) {id : ℕ} {row : NotificationDelivery}
    (hrow : db.deliveries.get? id = some row) (hsent : row.status = .sent) :
    ∃ row', s.db.deliveries.get? id = some row' ∧ row'.status = .sent := by
  rcases h.deliveries with hs | ⟨d, f, hm, hs⟩ | ⟨ids, -, hs⟩ <;> rw [hs]
  · exact ⟨row, hrow, hsent⟩
  · by_cases hid : id = d.id
    · subst hid
      rw [Table.get?_modify_self, hrow]
      obtain rfl : row = d := Option.some.inj (hrow.symm.trans (hp.row d hm.mem_pending).1)
      refine ⟨f row, rfl, ?_⟩
      obtain ⟨n, stage⟩ := p
      cases hm with
      | lapsed d ds => exact absurd hsent (hp.unsent _ rfl _ List.mem_cons_self)
      | cancelled f l ls reason hl hd =>
        exact absurd hsent (not_sent_of_decision (by rw [hd]; simp))
      | deferred f l ls quietPeriodEnd hl hd =>
        exact absurd hsent (not_sent_of_decision (by rw [hd]; simp))
      | sent f l m => rfl
      | failed f l error => exact absurd hsent (hp.pushable _ rfl).1
    · exact ⟨row, (Table.get?_modify_of_ne _ _ _ hid).trans hrow, hsent⟩
  · exact ⟨row, Table.get?_insertAll_of_mem hrow, hsent⟩

/-- Leaving the marker of an accurate pass, the row is SENT. -/
theorem Moves.marked {p : Pass} (hp : p.Accurate db)
    (h : Moves cfg now db p.notification p.stage s) {f : LoopFrame} {l : LoadedDelivery}
    {m : String} (hstage : p.stage = .marking f l m) :
    ∃ row, s.db.deliveries.get? l.delivery.id = some row ∧ row.status = .sent := by
  obtain ⟨n, stage⟩ := p
  obtain rfl : stage = .marking f l m := hstage
  have hrow := (hp.row l.delivery (by simp [pending])).1
  have hsent : ∃ row, (db.deliveries.modify l.delivery.id (markDeliveryAsSent now m)
      (pk_markDeliveryAsSent now m)).get? l.delivery.id = some row ∧ row.status = .sent := by
    rw [Table.get?_modify_self, hrow]
    exact ⟨_, rfl, rfl⟩
  cases h with
  | sentToSettle f l m row hcount hrow => exact hsent
  | sent f l m row hcount hrow => exact hsent
  | notSent f l m hnone => simp [hrow] at hnone

end Pass

/-! ### The invariant -/

/-- No delivery is pushed twice, and what was pushed is SENT or about to be marked. -/
structure World.PushedOnce (w : World) : Prop extends w.Sound where
  once : ∀ delivery, calls true delivery w.history ≤ 1
  recorded : ∀ delivery, 0 < calls true delivery w.history →
    (∃ row, w.db.deliveries.get? delivery = some row ∧ row.status = .sent) ∨
    ∃ pid p f l m, w.passes pid = some p ∧ p.stage = .marking f l m ∧ l.delivery.id = delivery

theorem World.Initial.pushedOnce {w : World} (hw : w.Initial) : w.PushedOnce := by
  refine ⟨hw.sound, ?_, ?_⟩ <;> simp [hw.history, calls]

/-- The stage between the acceptance of a push and its marker. -/
def Pass.isMarking : Stage → Bool
  | .marking _ _ _ => true
  | _ => false

/-- The actions of the send path, and the death of a worker that does not stand between the
acceptance of a push and its marker. -/
def World.Interleaves (w : World) : Action → Prop
  | .crash pid => ∀ p ∈ w.passes pid, Pass.isMarking p.stage = false
  | a => w.Sends a

instance (w : World) (a : Action) : Decidable (w.Interleaves a) := by
  rcases a with _ | _ <;> unfold World.Interleaves <;> infer_instance

theorem World.Interleaves.undisturbed {cfg : Settings} {w : World} {a : Action} (hw : w.Claimed)
    (hs : w.Interleaves a) (hspares : w.WatchdogSpares a) : w.Undisturbed cfg a := by
  cases a with
  | crash pid => exact ⟨by simp, by simp⟩
  | _ => exact Sends.undisturbed hw hs hspares

/-- A SENT row stays SENT in one action. -/
theorem World.Sound.sent_row {cfg : Settings} {w w' : World} {a : Action} (hw : w.Sound)
    (h : Steps cfg w a w') (hs : w.Interleaves a) {id : ℕ} {row : NotificationDelivery}
    (hrow : w.db.deliveries.get? id = some row) (hsent : row.status = .sent) :
    ∃ row', w'.db.deliveries.get? id = some row' ∧ row'.status = .sent := by
  have hsame : w'.db.deliveries = w.db.deliveries →
      ∃ row', w'.db.deliveries.get? id = some row' ∧ row'.status = .sent :=
    fun heq => ⟨row, by rw [heq, hrow], hsent⟩
  cases a with
  | crash pid =>
    cases h
    exact hsame rfl
  | _ =>
    rcases h.send_cases hs with ⟨pid, input, p, s, -, hp, hmoves, rfl⟩ | hapart
    · exact hmoves.sent_row (hw.accurate pid p hp) hrow hsent
    · exact hsame hapart.deliveries

private theorem World.PushedOnce.pass {cfg : Settings} {w : World} (hw : w.PushedOnce) {pid : ℕ}
    {p : Pass} {s : PassStep} (hp : w.passes pid = some p)
    (hmoves : Pass.Moves cfg w.clock w.db p.notification p.stage s) :
    (∀ delivery, calls true delivery (w.afterPass pid s).history ≤ 1) ∧
    ∀ delivery, 0 < calls true delivery (w.afterPass pid s).history →
      (∃ row, s.db.deliveries.get? delivery = some row ∧ row.status = .sent) ∨
      ∃ i q f l m, (w.afterPass pid s).passes i = some q ∧ q.stage = .marking f l m ∧
        l.delivery.id = delivery := by
  have hacc := hw.accurate pid p hp
  -- a delivery that was pushed before the step
  have hold : ∀ delivery, 0 < calls true delivery w.history →
      (∃ row, s.db.deliveries.get? delivery = some row ∧ row.status = .sent) ∨
      ∃ i q f l m, (w.afterPass pid s).passes i = some q ∧ q.stage = .marking f l m ∧
        l.delivery.id = delivery := by
    intro delivery hpos
    rcases hw.recorded delivery hpos with ⟨row, hrow, hsent⟩ | ⟨i, q, f, l, m, hq, hstage, hl⟩
    · exact Or.inl (hmoves.sent_row hacc hrow hsent)
    · by_cases hi : i = pid
      · subst hi
        obtain rfl : p = q := Option.some.inj (hp.symm.trans hq)
        exact Or.inl (hl ▸ hmoves.marked hacc hstage)
      · exact Or.inr ⟨i, q, f, l, m, (Pool.set_of_ne _ _ hi).trans hq, hstage, hl⟩
  have hsame : (∀ delivery, calls true delivery s.events = 0) →
      (∀ delivery, calls true delivery (w.afterPass pid s).history ≤ 1) ∧
      ∀ delivery, 0 < calls true delivery (w.afterPass pid s).history →
        (∃ row, s.db.deliveries.get? delivery = some row ∧ row.status = .sent) ∨
        ∃ i q f l m, (w.afterPass pid s).passes i = some q ∧ q.stage = .marking f l m ∧
          l.delivery.id = delivery := by
    intro hzero
    have hcount : ∀ delivery, calls true delivery (w.afterPass pid s).history =
        calls true delivery w.history := by
      intro delivery
      simp only [World.afterPass, calls_append, calls_reverse, hzero delivery, Nat.zero_add]
    exact ⟨fun delivery => by rw [hcount]; exact hw.once delivery,
      fun delivery hpos => hold delivery (by rwa [hcount] at hpos)⟩
  rcases hmoves.call_cases with
    ⟨f, l, ls, m, hstage, hrest, hdecision, rfl⟩ | ⟨f, l, ls, error, -, -, -, rfl⟩ | hzero
  · -- the row is not SENT, and no other pass works on the notification, so this is the first push
    have hpend : l.delivery ∈ Pass.pending p.stage := by simp [hstage, Pass.pending, hrest]
    obtain ⟨hrow, hnotification⟩ := hacc.row l.delivery hpend
    have hnew : calls true l.delivery.id w.history = 0 := by
      by_contra hne
      rcases hw.recorded l.delivery.id (Nat.pos_of_ne_zero hne) with
        ⟨row, hrow', hsent⟩ | ⟨i, q, f', l', m', hq, hstage', hl⟩
      · obtain rfl := Option.some.inj (hrow.symm.trans hrow')
        exact Pass.not_sent_of_decision (by rw [hdecision]; simp) hsent
      · obtain ⟨hrow', hnotification'⟩ := (hw.accurate i q hq).row l'.delivery
          (by simp [hstage', Pass.pending])
        rw [hl, hrow] at hrow'
        have hkey : q.notification.id = p.notification.id := by
          rw [← hnotification', ← hnotification, Option.some.inj hrow']
        obtain rfl : i = pid := hw.exclusive hq hp hkey
        rw [Option.some.inj (hp.symm.trans hq), hstage'] at hstage
        cases hstage
    constructor
    · intro delivery
      have := hw.once delivery
      simp only [World.afterPass, Pass.on, calls_append, calls_reverse, calls_called, true_and]
      split
      · next hd => rw [← hd, hnew]
      · omega
    · intro delivery hpos
      by_cases hd : delivery = l.delivery.id
      · exact Or.inr ⟨pid, _, _, l, m, Pool.set_self _ _ _, rfl, hd.symm⟩
      · refine hold delivery ?_
        simp only [World.afterPass, Pass.on, calls_append, calls_reverse,
          calls_called, true_and, if_neg (Ne.symm hd), Nat.zero_add] at hpos
        exact hpos
  · exact hsame (by simp [Pass.on, calls_called])
  · exact hsame (hzero true)

/-- One action keeps the invariant. -/
theorem World.PushedOnce.step {cfg : Settings} {w w' : World} {a : Action} (hw : w.PushedOnce)
    (h : Steps cfg w a w') (hs : w.Interleaves a) (hspares : w.WatchdogSpares a) :
    w'.PushedOnce := by
  suffices hcounts : (∀ delivery, calls true delivery w'.history ≤ 1) ∧
      ∀ delivery, 0 < calls true delivery w'.history →
        (∃ row, w'.db.deliveries.get? delivery = some row ∧ row.status = .sent) ∨
        ∃ pid p f l m, w'.passes pid = some p ∧ p.stage = .marking f l m ∧
          l.delivery.id = delivery from
    ⟨hw.toSound.step h (hs.undisturbed hw.toClaimed hspares), hcounts.1, hcounts.2⟩
  cases a with
  | crash pid =>
    cases h with
    | crash pid p hp =>
      refine ⟨hw.once, fun delivery hpos => ?_⟩
      rcases hw.recorded delivery hpos with hrow | ⟨i, q, f, l, m, hq, hstage, hl⟩
      · exact Or.inl hrow
      · have hne : i ≠ pid := by
          rintro rfl
          have := hs q hq
          simp [hstage, Pass.isMarking] at this
        exact Or.inr ⟨i, q, f, l, m, (Pool.set_of_ne _ _ hne).trans hq, hstage, hl⟩
  | _ =>
    rcases h.send_cases hs with ⟨pid, input, p, s, -, hp, hmoves, rfl⟩ | hapart
    · exact hw.pass hp hmoves
    · obtain ⟨es, hes, hcalls⟩ := hapart.history
      have hcount : ∀ delivery, calls true delivery w'.history =
          calls true delivery w.history := by
        intro delivery
        rw [hes, calls_append, calls_of_no_call hcalls, Nat.zero_add]
      refine ⟨fun delivery => by rw [hcount]; exact hw.once delivery, fun delivery hpos => ?_⟩
      rw [hcount] at hpos
      rcases hw.recorded delivery hpos with ⟨row, hrow, hsent⟩ | ⟨i, q, f, l, m, hq, hstage, hl⟩
      · exact Or.inl ⟨row, by rw [hapart.deliveries, hrow], hsent⟩
      · exact Or.inr ⟨i, q, f, l, m, hapart.kept i q hq, hstage, hl⟩

/-! ### Runs -/

/-- A delivery is pushed at most once, and stays SENT once it is: the state and all later ones
along `ok`. -/
def World.AtMostOnce (cfg : Settings) (ok : World → Action → Prop) (w : World) : Prop :=
  (∀ delivery, calls true delivery w.history ≤ 1) ∧
  ∀ w', (server cfg).Reach ok w w' → ∀ id row, w.db.deliveries.get? id = some row →
    row.status = .sent → ∃ row', w'.db.deliveries.get? id = some row' ∧ row'.status = .sent

theorem preserves_pushedOnce (cfg : Settings) :
    (server cfg).Preserves (fun w a => w.Interleaves a ∧ w.WatchdogSpares a)
      World.PushedOnce :=
  fun _ _ _ hw hok hs => hw.step (World.step_cases hs) hok.1 hok.2

/-- In every run in which the watchdog spares the notifications that are being sent, a delivery
is pushed at most once and a SENT delivery stays SENT. -/
theorem pushed_at_most_once {cfg : Settings} {w₀ w : World} (h₀ : w₀.Initial)
    (h : (server cfg).Reach (fun w a => w.Interleaves a ∧ w.WatchdogSpares a) w₀ w) :
    w.AtMostOnce cfg fun w a => w.Interleaves a ∧ w.WatchdogSpares a := by
  have hw : w.PushedOnce := System.Reach.invariant (preserves_pushedOnce cfg) h h₀.pushedOnce
  refine ⟨hw.once, fun w' h' id => ?_⟩
  refine System.Reach.relation
    (R := fun u v : World => ∀ row, u.db.deliveries.get? id = some row → row.status = .sent →
      ∃ row', v.db.deliveries.get? id = some row' ∧ row'.status = .sent)
    (preserves_pushedOnce cfg) (fun _ row hrow hsent => ⟨row, hrow, hsent⟩) ?_ ?_ h' hw
  · intro u v t huv hvt row hrow hsent
    obtain ⟨row', hrow', hsent'⟩ := huv row hrow hsent
    exact hvt row' hrow' hsent'
  · intro u a v hu hok hstep row hrow hsent
    exact hu.toSound.sent_row (World.step_cases hstep) hok.1 hrow hsent

/-- A pass of the sample server that pushes its delivery. -/
theorem sample_pushed_once : ∃ w,
    (server .default).Reach (fun w a => w.Interleaves a ∧ w.WatchdogSpares a) Sample.world w ∧
    calls true 1 w.history = 1 ∧
    w.AtMostOnce .default fun w a => w.Interleaves a ∧ w.WatchdogSpares a := by
  obtain ⟨w, hreach, hcalls⟩ := System.exists_reach_of_guardedRun (server .default)
    (fun w a => w.Interleaves a ∧ a.isAdvance = false) Sample.world
    (Sample.toLoop 1 ⟨1, .client⟩ ++ [.pass 1 {}, .pass 1 {}])
    (fun w => calls true 1 w.history == 1) (by decide)
  have hreach' := hreach.mono (fun w a => w.Interleaves a ∧ w.WatchdogSpares a)
    fun w a h => ⟨h.1, World.watchdogSpares_of_not_advance h.2⟩
  exact ⟨w, hreach', by simpa using hcalls, pushed_at_most_once Sample.world_initial hreach'⟩

/-- The watchdog requeues the notification while its first pass waits for the provider; the pass
of the requeued task has loaded the same PENDING row and pushes it again. -/
theorem pushed_twice : ¬∀ (cfg : Settings) (w₀ w : World), w₀.Initial →
    (server cfg).Reach World.Interleaves w₀ w → w.AtMostOnce cfg World.Interleaves := by
  intro hclaim
  obtain ⟨w, hreach, hcalls⟩ := System.exists_reach_of_guardedRun (server .default)
    World.Interleaves Sample.world
    (Sample.toLoop 1 ⟨1, .client⟩ ++
      [.tick 901000000, .request 1 .requeueStuck, .advance 1 {}, .advance 1 {}] ++
      Sample.toLoop 2 ⟨1, .watchdog⟩ ++ [.pass 1 {}, .pass 1 {}, .pass 2 {}])
    (fun w => calls true 1 w.history == 2) (by decide)
  have honce := (hclaim .default Sample.world w Sample.world_initial hreach).1 1
  simp only [beq_iff_eq] at hcalls
  omega

end PushIT
