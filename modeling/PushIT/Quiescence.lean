import PushIT.Library.Rest
import PushIT.NotificationSteps
import PushIT.Queued
import PushIT.Vanishing

/-!
# The server at rest

Without new requests the server comes to rest: the requests and tasks under way perform finitely
many statements and submit finitely many send tasks, every claim uses one task up, and every pass
ends.  When no submission fails, no claim meets a lock, no worker dies and no row vanishes under a
pass, every QUEUED row has its task or a process about to submit it and every PROCESSING row has a
running pass, so that a server at rest has no notification in flight.

## Main definitions

* `World.AtRest`: nothing is in the broker and nothing is running.
* `Process.rank`, `World.rank`: how much is still to be done.
* `World.Undisrupted`: an action in which nothing fails and nothing vanishes.
* `World.Attended`: QUEUED and PROCESSING rows are being worked on.

## Main results

* `server_comes_to_rest`: every run without new requests comes to rest.
* `nothing_in_flight_at_rest`: what an undisrupted run leaves behind.
-/

namespace PushIT

open Relational Transition

/-! ### What is still to be done -/

/-- How many statements a request or task still performs at most, its last one not counted. -/
def Process.rank : Process → ℕ
  | .queue r =>
    5 * r.todo.length +
      match r.stage with
      | .choosing => 0
      | .conflicting _ => 1
      | .rollingBack _ _ => 2
      | .submitting _ _ => 3
      | .updating _ _ => 4
  | .dispatch (.scanning ids) => 2 * ids.length
  | .dispatch (.submitting _ ids) => 2 * ids.length + 1
  | .retry ids => ids.length
  | .watchdog (.scanning _ ids) => 2 * ids.length
  | .watchdog (.submitting _ _ ids) => 2 * ids.length + 1
  | .patch (.loaded _ _) => 1
  | .patch (.saving _ _) => 0
  | .destroy _ | .link _ _ | .unlink _ _ => 0

theorem QueueRequest.rank_answered (r : QueueRequest) (result : QueueResult) :
    (Process.queue (r.answered result)).rank = 5 * r.todo.length := rfl

/-- Every statement brings a request or task closer to its end. -/
theorem Process.Advances.rank_lt {now : Instant} {db : Db} {input : TaskInput} {p p' : Process}
    {o : Outcome} (h : Advances now db input p o) (hnext : o.next = some p') :
    p'.rank < p.rank := by
  cases h with
  | moves p s hmoves =>
    change s.next = some p' at hnext
    cases hmoves with
    | queueRefused r id ids result hr htodo | queueChosen r id ids l status hr htodo =>
      obtain rfl := Option.some.inj hnext
      simp only [rank, QueueRequest.answered, hr, htodo, List.length_cons]
      omega
    | queueInterrupted r id status result hr | queueConflictAnswered r id result hr
    | queueSubmitted r id status hr | queueRolledBack r id status hr =>
      obtain rfl := Option.some.inj hnext
      rw [QueueRequest.rank_answered]
      simp only [rank, hr]
      omega
    | queued r id status n hr | queueConflict r id status hr | queueNotSubmitted r id status hr =>
      obtain rfl := Option.some.inj hnext
      simp only [rank, QueueRequest.markFound, hr]
      omega
    | dispatched | dispatchSkipped | dispatchSubmitted | retrySubmitted | requeued
    | watchdogSkipped | watchdogSubmitted =>
      obtain rfl := Option.some.inj hnext
      simp only [rank, List.length_cons]
      omega
    | patchValid =>
      obtain rfl := Option.some.inj hnext
      exact Nat.zero_lt_one
    | queueDone | dispatchDone | dispatchFailed | retryDone | retryFailed | watchdogDone
    | watchdogFailed | patchRefused | patched | patchGone => simp at hnext
  | _ => simp at hnext

/-- How much the server has to do: the statements of its requests and tasks, which submit the send
tasks, the tasks, whose claims start the passes, and the passes, which load their deliveries before
they go through them. -/
noncomputable def World.rank (w : World) : ℕ ×ₗ ℕ ×ₗ ℕ ×ₗ ℕ :=
  toLex (w.processes.total fun p => p.rank + 1, toLex (w.broker.length,
    toLex (w.passes.total fun p => (ofLex (Pass.rank p.stage)).1 + 1,
      w.passes.total fun p => (ofLex (Pass.rank p.stage)).2)))

/-- Finitely many passes, requests and tasks are under way. -/
structure World.Finite (w : World) : Prop where
  passes : w.passes.Finite
  processes : w.processes.Finite

theorem World.Initial.finite {w : World} (hw : w.Initial) : w.Finite where
  passes := hw.passes ▸ Pool.finite_idle
  processes := hw.processes ▸ Pool.finite_idle

/-- Every action keeps the server finite. -/
theorem World.finite_preserves (cfg : Settings) :
    (server cfg).Preserves (fun _ _ => True) World.Finite := by
  intro w a w' hw _ hs
  cases World.step_cases hs with
  | tick | notClaimed => exact ⟨hw.passes, hw.processes⟩
  | claimed pid => exact ⟨hw.passes.set pid _, hw.processes⟩
  | pass pid input p s => exact ⟨hw.passes.set pid _, hw.processes⟩
  | crash pid => exact ⟨hw.passes.set pid _, hw.processes⟩
  | request rid r => exact ⟨hw.passes, hw.processes.set rid _⟩
  | advance rid input p => exact ⟨hw.passes, hw.processes.set rid _⟩

/-! ### The work that is under way -/

/-- Nothing is in the broker and nothing is running. -/
structure World.AtRest (w : World) : Prop where
  broker : w.broker = []
  passes : w.passes = .idle
  processes : w.processes = .idle

/-- A request arrives, or a periodic task starts. -/
def Action.begins : Action → Bool
  | .request _ _ => true
  | _ => false

/-- Something under way goes on: a claim, a statement, or the death of a worker. -/
def Action.isWork : Action → Bool
  | .tick _ | .request _ _ => false
  | _ => true

theorem Action.begins_of_isWork {a : Action} (h : a.isWork = true) : a.begins = false := by
  cases a <;> simp [isWork, begins] at h ⊢

/-- Time does not change what is to be done, and all work lowers it. -/
theorem World.Steps.rank_le {cfg : Settings} {w w' : World} {a : Action} (hw : w.Finite)
    (hbegins : a.begins = false) (h : Steps cfg w a w') :
    w'.rank ≤ w.rank ∧ (a.isWork = true → w'.rank < w.rank) := by
  suffices hlt : a.isWork = true → w'.rank < w.rank by
    refine ⟨?_, hlt⟩
    cases hwork : a.isWork with
    | true => exact (hlt hwork).le
    | false =>
      cases h with
      | tick => exact le_rfl
      | request => simp [Action.begins] at hbegins
      | _ => simp [Action.isWork] at hwork
  intro hwork
  have hbroker : ∀ task ∈ w.broker, (w.broker.erase task).length < w.broker.length :=
    fun task htask => by
      rw [List.length_erase_of_mem htask]
      exact Nat.pred_lt (List.length_pos_of_mem htask).ne'
  cases h with
  | tick => simp [Action.isWork] at hwork
  | request => simp [Action.begins] at hbegins
  | notClaimed pid task rowLocked htask =>
    exact Prod.Lex.toLex_lt_toLex.mpr (Or.inr ⟨rfl,
      Prod.Lex.toLex_lt_toLex.mpr (Or.inl (hbroker task htask))⟩)
  | claimed pid task n htask =>
    exact Prod.Lex.toLex_lt_toLex.mpr (Or.inr ⟨rfl,
      Prod.Lex.toLex_lt_toLex.mpr (Or.inl (hbroker task htask))⟩)
  | crash pid p hp =>
    have hsum := hw.passes.total_set (fun p => (ofLex (Pass.rank p.stage)).1 + 1) pid none
    simp only [hp, Option.elim_some, Option.elim_none] at hsum
    refine Prod.Lex.toLex_lt_toLex.mpr (Or.inr ⟨rfl, Prod.Lex.toLex_lt_toLex.mpr (Or.inr ⟨rfl,
      Prod.Lex.toLex_lt_toLex.mpr (Or.inl ?_)⟩)⟩)
    change (w.passes.set pid none).total _ < w.passes.total _
    omega
  | advance rid input p hp =>
    have hsum :=
      hw.processes.total_set (fun p => p.rank + 1) rid (p.advance w.clock w.db input).next
    have hlt :
        ((p.advance w.clock w.db input).next).elim 0 (fun p => p.rank + 1) < p.rank + 1 := by
      cases hnext : (p.advance w.clock w.db input).next with
      | none => exact Nat.succ_pos _
      | some p' =>
        exact Nat.succ_lt_succ ((Process.advance_cases w.clock w.db input p).rank_lt hnext)
    simp only [hp, Option.elim_some] at hsum
    refine Prod.Lex.toLex_lt_toLex.mpr (Or.inl ?_)
    change (w.processes.set rid (p.advance w.clock w.db input).next).total _ < w.processes.total _
    omega
  | pass pid input p s hp hmoves =>
    refine Prod.Lex.toLex_lt_toLex.mpr
      (Or.inr ⟨rfl, Prod.Lex.toLex_lt_toLex.mpr (Or.inr ⟨rfl, ?_⟩)⟩)
    have hphase := hw.passes.total_set (fun p => (ofLex (Pass.rank p.stage)).1 + 1) pid s.next
    have hloop := hw.passes.total_set (fun p => (ofLex (Pass.rank p.stage)).2) pid s.next
    simp only [hp, Option.elim_some] at hphase hloop
    cases hnext : s.next with
    | none =>
      simp only [hnext, Option.elim_none] at hphase
      refine Prod.Lex.toLex_lt_toLex.mpr (Or.inl ?_)
      simp only [World.afterPass, hnext]
      omega
    | some p' =>
      simp only [hnext, Option.elim_some] at hphase hloop
      have hrank := Prod.Lex.lt_iff.mp (hmoves.rank_lt hnext)
      refine Prod.Lex.toLex_lt_toLex.mpr ?_
      simp only [World.afterPass, hnext]
      omega

/-- What is left of a world that is not at rest can go on. -/
theorem World.exists_work {cfg : Settings} {w : World} (h : ¬w.AtRest) :
    ∃ a w', a.isWork = true ∧ w.step cfg a = some w' := by
  by_cases hpasses : w.passes = .idle
  · by_cases hprocesses : w.processes = .idle
    · have hbroker : w.broker ≠ [] := fun hbroker => h ⟨hbroker, hpasses, hprocesses⟩
      obtain ⟨task, tasks, htasks⟩ := List.exists_cons_of_ne_nil hbroker
      refine ⟨.claim 0 task false, w.claim 0 task false, rfl, ?_⟩
      simp [step, htasks, hpasses]
    · obtain ⟨rid, p, hp⟩ := Pool.exists_of_ne_idle hprocesses
      exact ⟨.advance rid {}, _, rfl, by rw [step, hp]; rfl⟩
  · obtain ⟨pid, p, hp⟩ := Pool.exists_of_ne_idle hpasses
    exact ⟨.pass pid {}, _, rfl, by rw [step, hp]; rfl⟩

/-- From every world that a run reaches: a run without new requests performs finitely much work,
work alone leads to rest, and only a world at rest has no work. -/
theorem server_comes_to_rest {cfg : Settings} {w₀ w : World} (h₀ : w₀.Initial)
    (h : (server cfg).Reach (fun _ _ => True) w₀ w) :
    (∀ run labels, run 0 = w →
      (server cfg).InfiniteRun (fun _ a => a.begins = false) run labels →
      ∃ N, ∀ i, N ≤ i → ∃ duration, labels i = .tick duration) ∧
    (∃ w', (server cfg).Reach (fun _ a => a.isWork = true) w w' ∧ w'.AtRest) ∧
    (w.AtRest ↔ ∀ a w', a.isWork = true → w.step cfg a ≠ some w') := by
  have hfinite : w.Finite := h.invariant (World.finite_preserves cfg) h₀.finite
  refine ⟨fun run labels hrun hinfinite => ?_, ?_, fun hrest a w' hwork hs => ?_, fun hstuck => ?_⟩
  · obtain ⟨N, hN⟩ := hinfinite.eventually_not
      ((World.finite_preserves cfg).mono fun _ _ _ => trivial) (hrun ▸ hfinite)
      (fun a => a.isWork = true) World.rank
      (fun s a t hs hbegins hstep => ((World.step_cases hstep).rank_le hs hbegins).1)
      (fun s a t hs hbegins hstep => ((World.step_cases hstep).rank_le hs hbegins).2)
    refine ⟨N, fun i hi => ?_⟩
    have hidle := hN i hi
    have hbegins := hinfinite.guard i
    cases hlabel : labels i with
    | tick duration => exact ⟨duration, rfl⟩
    | request => simp [hlabel, Action.begins] at hbegins
    | _ => simp [hlabel, Action.isWork] at hidle
  · have hwork : ∀ s : World, s.Finite → ¬s.AtRest → ∃ a t, a.isWork = true ∧
        (server cfg).step s a = some t ∧ t.Finite ∧ t.rank < s.rank := by
      intro s hs hnot
      obtain ⟨a, t, hwork, ht⟩ := World.exists_work hnot
      exact ⟨a, t, hwork, ht, World.finite_preserves cfg hs trivial ht,
        ((World.step_cases ht).rank_le hs (Action.begins_of_isWork hwork)).2 hwork⟩
    obtain ⟨w', hreach, -, hrest⟩ :=
      System.exists_reach_of_rank World.Finite World.AtRest World.rank hwork hfinite
    exact ⟨w', hreach, hrest⟩
  · cases World.step_cases hs with
    | tick | request => simp [Action.isWork] at hwork
    | notClaimed pid task rowLocked htask | claimed pid task n htask => simp [hrest.broker] at htask
    | pass pid input p s hp | crash pid p hp => simp [hrest.passes] at hp
    | advance rid input p hp => simp [hrest.processes] at hp
  · by_contra hrest
    obtain ⟨a, w', hwork, hs⟩ := World.exists_work hrest
    exact hstuck a w' hwork hs

/-- A server with one send task in the broker can come to rest. -/
theorem sample_server_comes_to_rest : ∃ w',
    (server .default).Reach (fun _ a => a.isWork = true) Sample.world w' ∧ w'.AtRest :=
  (server_comes_to_rest Sample.world_initial (.refl Sample.world)).2.1

/-! ### Rows in flight -/

def Action.isCrash : Action → Bool
  | .crash _ => true
  | _ => false

/-- No worker dies in this action, the last send task of a QUEUED row is neither dropped nor
refused, and a pass finds the rows it needs. -/
def World.Undisrupted (cfg : Settings) (w : World) (a : Action) : Prop :=
  a.isCrash = false ∧ w.Covered a ∧ w.Provides cfg a

/-- A PATCH saves its instance as SCHEDULED. -/
def Process.SavesScheduled : Process → Prop
  | .patch (.saving n _) => n.status = .scheduled
  | _ => True

/-- Every QUEUED row has its task or a process about to submit it, and every PROCESSING row has a
running pass. -/
structure World.Attended (w : World) : Prop where
  queued : w.Carried
  processing : ∀ n ∈ w.db.notifications.rows, n.status = .processing →
    ∃ pid p, w.passes pid = some p ∧ p.notification.id = n.id
  saving : ∀ rid p, w.processes rid = some p → p.SavesScheduled

/-- A notification is created DRAFT or SCHEDULED. -/
theorem status_newNotification (now : Instant) (applicationId : ℕ) (data : NotificationData)
    (id : ℕ) : (newNotification now applicationId data id).status ∈
      [NotificationStatus.draft, .scheduled] := by
  simp only [newNotification, buildStatusFromScheduledFor]
  split <;> simp

theorem Request.begin_savesScheduled (cfg : Settings) (now : Instant) (db : Db) (r : Request) :
    ∀ p ∈ (r.begin cfg now db).next, p.SavesScheduled := by
  intro p hp
  cases r with
  | sendNow =>
    simp only [begin] at hp
    split at hp
    · simp [Outcome.done] at hp
    · split at hp
      · simp [Outcome.done] at hp
      · obtain rfl := Option.some.inj hp
        trivial
  | link =>
    simp only [begin] at hp
    split at hp
    · obtain rfl := Option.some.inj hp
      trivial
    · simp [Outcome.done] at hp
  | send | dispatchScheduled | retryPending | requeueStuck =>
    obtain rfl := Option.some.inj hp
    trivial
  | patch | destroy | unlink | evict =>
    obtain ⟨x, -, rfl⟩ := Option.map_eq_some_iff.mp hp
    trivial
  | _ => simp [begin, Outcome.done] at hp

theorem Process.Advances.savesScheduled {now : Instant} {db : Db} {input : TaskInput}
    {p p' : Process} {o : Outcome} (h : Advances now db input p o) (hnext : o.next = some p') :
    p'.SavesScheduled := by
  cases h with
  | moves p s hmoves =>
    change s.next = some p' at hnext
    cases hmoves with
    | queueDone | dispatchDone | dispatchFailed | retryDone | retryFailed | watchdogDone
    | watchdogFailed | patchRefused | patched | patchGone => simp at hnext
    | patchValid =>
      obtain rfl := Option.some.inj hnext
      rfl
    | _ =>
      obtain rfl := Option.some.inj hnext
      trivial
  | _ => simp at hnext

/-- A pass that is provided for writes its notification when it ends. -/
theorem Pass.Moves.writes_of_provided {cfg : Settings} {now : Instant} {db : Db} {p : Pass}
    {input : PassInput} {s : PassStep} (h : Moves cfg now db p.notification p.stage s)
    (hs : p.advance cfg now db input = s) (hprovided : p.Provided cfg.timeZone now db)
    (hnext : s.next = none) :
    ∃ f hf, s.db.notifications = db.notifications.modify p.notification.id f hf ∧
      ∀ r, (f r).status ≠ .processing := by
  rcases h.notifications with hsame | ⟨-, f, hf, hwritten, hstatus⟩
  · obtain ⟨n, stage⟩ := p
    cases h with
    | lapsedClosed =>
      exact ⟨_, pk_closeNotification now .failed, rfl, fun r => by simp [closeNotification]⟩
    | postponed quietPeriodEnd =>
      exact ⟨_, pk_postponeNotification quietPeriodEnd, rfl,
        fun r => by simp [postponeNotification]⟩
    | closed status =>
      refine ⟨_, pk_closeNotification now status.val, rfl, fun r hr => ?_⟩
      have hfinal := status.2
      rw [show status.val = .processing from hr] at hfinal
      simp at hfinal
    | lapsedGone d ds hgone => simp [Provided, hgone] at hprovided
    | notMaterialized deviceIds hnot => exact absurd hprovided hnot
    | applicationGone ls hgone => simp [Provided, hgone] at hprovided
    | deliveryGone f l ls hrest hgone =>
      have hgoes := isSome_next_of_provided (f := f) input hprovided
      rw [hs, hnext] at hgoes
      simp at hgoes
    | notInvalidated f l error hgone | notReread f l error hgone | notFailed f l error hgone =>
      simp [Provided, hgone] at hprovided
    | _ => simp [on] at hnext
  · refine ⟨f, hf, hwritten, fun r hr => ?_⟩
    have hfinal := (hstatus r).2
    rw [hr] at hfinal
    simp at hfinal

namespace World

variable {cfg : Settings} {w w' : World} {a : Action}

/-- QUEUED rows are carried by every undisrupted action. -/
theorem Attended.carried (hw : w.Attended) (hcovered : w.Covered a) (h : Steps cfg w a w') :
    w'.Carried := by
  by_cases hqueues : w.Queues a
  · exact hw.queued.step h hqueues hcovered
  cases h with
  | tick | notClaimed | claimed | pass | crash => exact absurd trivial hqueues
  | request rid r hrid =>
    intro n hn hqueued
    have hold : ∃ m ∈ w.db.notifications.rows, m.id = n.id ∧ m.status = .queued := by
      rcases (Request.begin_cases cfg w.clock w.db r).status_row hn with
        ⟨m, hm, hid, hstatus⟩ | ⟨applicationId, data, rfl⟩
      · exact ⟨m, hm, hid, hstatus.trans hqueued⟩
      · have hnew := status_newNotification w.clock applicationId data (w.db.notifications.seq + 1)
        rw [hqueued] at hnew
        simp at hnew
    obtain ⟨m, hm, hid, hmqueued⟩ := hold
    rw [← hid]
    rcases hw.queued m hm hmqueued with ⟨task, hmem, htask⟩ | ⟨j, p, hp, hsubmits⟩
    · exact Or.inl ⟨task, List.mem_append_left _ hmem, htask⟩
    · have hne : j ≠ rid := by
        rintro rfl
        simp [hrid] at hp
      exact Or.inr ⟨j, p, (Pool.set_of_ne _ _ hne).trans hp, hsubmits⟩
  | advance rid input p hp =>
    have hsending : p.isSending = false := by
      refine Bool.eq_false_iff.mpr fun hsending => hqueues fun q hq => ?_
      obtain rfl := Option.some.inj (hp.symm.trans hq)
      exact hsending
    -- the other processes write no row QUEUED and submit nothing
    intro n hn hqueued
    have hold : n ∈ w.db.notifications.rows ∧ ∀ id, p.submits id = false := by
      have hadvance := Process.advance_cases w.clock w.db input p
      change n ∈ (p.advance w.clock w.db input).db.notifications.rows at hn
      generalize p.advance w.clock w.db input = o at hadvance hn
      cases hadvance with
      | moves p s hmoves =>
        cases hmoves with
        | patched m d row hrow =>
          change n ∈ (w.db.notifications.modify m.id (saveFuture m) (pk_saveFuture m)).rows at hn
          obtain ⟨r, hr, rfl⟩ := Table.mem_modify.mp hn
          have hscheduled : m.status = .scheduled := hw.saving rid _ hp
          split at hqueued
          · rw [show m.status = .queued from hqueued] at hscheduled
            simp at hscheduled
          · next hid =>
            rw [if_neg hid]
            exact ⟨hr, fun _ => rfl⟩
        | patchRefused | patchValid | patchGone => exact ⟨hn, fun _ => rfl⟩
        | _ => simp [Process.isSending] at hsending
      | destroyed id => exact ⟨(Table.mem_delete.mp hn).1, fun _ => rfl⟩
      | _ => exact ⟨hn, fun _ => rfl⟩
    rcases hw.queued n hold.1 hqueued with ⟨task, hmem, htask⟩ | ⟨j, q, hq, hsubmits⟩
    · exact Or.inl ⟨task, List.mem_append_left _ hmem, htask⟩
    · have hne : j ≠ rid := by
        rintro rfl
        obtain rfl := Option.some.inj (hp.symm.trans hq)
        simp [hold.2] at hsubmits
      exact Or.inr ⟨j, q, (Pool.set_of_ne _ _ hne).trans hq, hsubmits⟩

/-- PROCESSING rows keep a running pass in every undisrupted action. -/
theorem Attended.worked (hw : w.Attended) (hok : w.Undisrupted cfg a) (h : Steps cfg w a w') :
    ∀ n ∈ w'.db.notifications.rows, n.status = .processing →
      ∃ pid p, w'.passes pid = some p ∧ p.notification.id = n.id := by
  intro n hn hprocessing
  cases h with
  | tick | notClaimed => exact hw.processing n hn hprocessing
  | crash => simp [Undisrupted, Action.isCrash] at hok
  | claimed pid task m htask hpid =>
    change n ∈ (w.db.notifications.modify m.id (acquire w.clock) (pk_acquire w.clock)).rows at hn
    obtain ⟨r, hr, rfl⟩ := Table.mem_modify.mp hn
    split at hprocessing
    · next hid =>
      rw [if_pos hid]
      exact ⟨pid, _, Pool.set_self _ _ _, hid.symm⟩
    · next hid =>
      rw [if_neg hid]
      obtain ⟨j, p, hp, hpn⟩ := hw.processing r hr hprocessing
      have hne : j ≠ pid := by
        rintro rfl
        simp [hpid] at hp
      exact ⟨j, p, (Pool.set_of_ne _ _ hne).trans hp, hpn⟩
  | pass pid input p s hp hmoves hs =>
    have hprovided : p.Provided cfg.timeZone w.clock w.db := hok.2.2 p hp
    have hold : n ∈ w.db.notifications.rows := by
      rcases hmoves.notifications with hsame | ⟨-, f, hf, hwritten, hstatus⟩
      · exact hsame ▸ hn
      · change n ∈ s.db.notifications.rows at hn
        rw [hwritten] at hn
        obtain ⟨r, hr, rfl⟩ := Table.mem_modify.mp hn
        split at hprocessing
        · have hfinal := (hstatus r).2
          rw [hprocessing] at hfinal
          simp at hfinal
        · next hid => rwa [if_neg hid]
    obtain ⟨j, q, hq, hqn⟩ := hw.processing n hold hprocessing
    by_cases hj : j = pid
    · subst hj
      obtain rfl := Option.some.inj (hp.symm.trans hq)
      cases hnext : s.next with
      | some p' =>
        refine ⟨j, p', (Pool.set_self _ _ _).trans hnext, ?_⟩
        rw [hmoves.notification_eq hnext, hqn]
      | none =>
        -- the last statement of the pass took the row out of PROCESSING
        obtain ⟨f, hf, hwritten, hstatus⟩ := hmoves.writes_of_provided hs hprovided hnext
        change n ∈ s.db.notifications.rows at hn
        rw [hwritten] at hn
        obtain ⟨r, hr, rfl⟩ := Table.mem_modify.mp hn
        split at hprocessing
        · exact absurd hprocessing (hstatus r)
        · next hid =>
          rw [if_neg hid] at hqn
          exact absurd hqn.symm hid
    · exact ⟨j, q, (Pool.set_of_ne _ _ hj).trans hq, hqn⟩
  | request rid r hrid =>
    rcases (Request.begin_cases cfg w.clock w.db r).status_row hn with
      ⟨m, hm, hid, hstatus⟩ | ⟨applicationId, data, rfl⟩
    · obtain ⟨pid, p, hp, hpid⟩ := hw.processing m hm (hstatus.trans hprocessing)
      exact ⟨pid, p, hp, hpid.trans hid⟩
    · have hnew := status_newNotification w.clock applicationId data (w.db.notifications.seq + 1)
      rw [hprocessing] at hnew
      simp at hnew
  | advance rid input p hp =>
    obtain ⟨m, hm, hrewrites⟩ :=
      (Process.advance_cases w.clock w.db input p).notification_row hp hn
    cases hrewrites with
    | kept => exact hw.processing n hm hprocessing
    | queued => simp [queueNotification] at hprocessing
    | requeued => simp [requeueNotification] at hprocessing
    | restored _ _ r status =>
      have hstatus := status.2
      rw [show status.val = .processing from hprocessing] at hstatus
      simp [allowedNotificationStatusesToQueue] at hstatus
    | saved _ _ i d _ hsaving =>
      have hscheduled : i.status = .scheduled := hw.saving rid _ hsaving
      rw [show i.status = .processing from hprocessing] at hscheduled
      simp at hscheduled

/-- Undisrupted actions keep the server attended. -/
theorem attended_preserves (cfg : Settings) :
    (server cfg).Preserves (World.Undisrupted cfg) World.Attended := by
  intro w a w' hw hok hs
  have hsteps := World.step_cases hs
  refine ⟨hw.carried hok.2.1 hsteps, hw.worked hok hsteps, fun rid p hp => ?_⟩
  cases hsteps with
  | request j r hj =>
    rcases Pool.set_eq_some.mp hp with ⟨rfl, hnext⟩ | ⟨-, hold⟩
    · exact Request.begin_savesScheduled cfg w.clock w.db r p hnext
    · exact hw.saving rid p hold
  | advance j input q hq =>
    rcases Pool.set_eq_some.mp hp with ⟨rfl, hnext⟩ | ⟨-, hold⟩
    · exact (Process.advance_cases w.clock w.db input q).savesScheduled hnext
    · exact hw.saving rid p hold
  | _ => exact hw.saving rid p hp

end World

/-- When an undisrupted run has come to rest, no notification is QUEUED or PROCESSING. -/
theorem nothing_in_flight_at_rest {cfg : Settings} {w₀ w : World} (h₀ : w₀.Initial)
    (hrows : ∀ n ∈ w₀.db.notifications.rows, n.status ≠ .queued ∧ n.status ≠ .processing)
    (h : (server cfg).Reach (World.Undisrupted cfg) w₀ w) (hrest : w.AtRest) :
    ∀ n ∈ w.db.notifications.rows, n.status ≠ .queued ∧ n.status ≠ .processing := by
  have hstart : w₀.Attended :=
    ⟨fun n hn hqueued => absurd hqueued (hrows n hn).1,
      fun n hn hprocessing => absurd hprocessing (hrows n hn).2,
      fun rid p hp => by simp [h₀.processes] at hp⟩
  have hw : w.Attended := h.invariant (World.attended_preserves cfg) hstart
  intro n hn
  constructor
  · intro hqueued
    rcases hw.queued n hn hqueued with ⟨task, hmem, -⟩ | ⟨rid, p, hp, -⟩
    · simp [hrest.broker] at hmem
    · simp [hrest.processes] at hp
  · intro hprocessing
    obtain ⟨pid, p, hp, -⟩ := hw.processing n hn hprocessing
    simp [hrest.passes] at hp

/-! ### A sample -/

namespace Sample

/-- Only the first worker and the first request take part. -/
def usesFirst : Action → Bool
  | .claim pid _ _ | .pass pid _ | .crash pid => pid == 0
  | .request rid _ | .advance rid _ => rid == 0
  | .tick _ => true

def OtherRowsIdle (w : World) : Prop :=
  ∀ i, i ≠ 0 → w.passes i = none ∧ w.processes i = none

theorem othersIdle_preserves (cfg : Settings) :
    (server cfg).Preserves (fun _ a => usesFirst a = true) OtherRowsIdle := by
  intro w a w' hw hfirst hs i hi
  have hpasses (x : Option Pass) : w.passes.set 0 x i = none :=
    (Pool.set_of_ne _ _ hi).trans (hw i hi).1
  have hprocesses (x : Option Process) : w.processes.set 0 x i = none :=
    (Pool.set_of_ne _ _ hi).trans (hw i hi).2
  cases World.step_cases hs with
  | tick | notClaimed => exact hw i hi
  | claimed pid | crash pid | pass pid =>
    obtain rfl : pid = 0 := by simpa [usesFirst] using hfirst
    exact ⟨hpasses _, (hw i hi).2⟩
  | request rid | advance rid =>
    obtain rfl : rid = 0 := by simpa [usesFirst] using hfirst
    exact ⟨(hw i hi).1, hprocesses _⟩

/-- The scheduled notification is dispatched and sent. -/
def dispatchAndSend : List Action :=
  [.request 0 .dispatchScheduled, .advance 0 {}, .advance 0 {}, .advance 0 {}] ++
    toLoop 0 ⟨1, .dispatcher⟩ ++ List.replicate 4 (.pass 0 {})

end Sample

/-- A dispatched notification has been sent when the server is at rest. -/
theorem sample_nothing_in_flight : ∃ w,
    (server .default).Reach (World.Undisrupted .default) Sample.scheduledWorld w ∧ w.AtRest ∧
    (∃ n ∈ w.db.notifications.rows, n.status = .sent) ∧
    ∀ n ∈ w.db.notifications.rows, n.status ≠ .queued ∧ n.status ≠ .processing := by
  obtain ⟨w, hreach, hw⟩ := System.exists_reach_of_guardedRun (server .default)
    (fun w a => Sample.usesFirst a = true ∧ a.isCrash = false ∧ a.goesWell = true ∧
      w.Provides .default a)
    Sample.scheduledWorld Sample.dispatchAndSend
    (fun w => w.broker.isEmpty && (w.passes 0).isNone && (w.processes 0).isNone &&
      w.db.notifications.rows.any fun n => n.status == .sent) (by decide)
  simp only [Bool.and_eq_true, List.isEmpty_iff, Option.isNone_iff_eq_none, List.any_eq_true,
    beq_iff_eq] at hw
  obtain ⟨⟨⟨hbroker, hpass⟩, hprocess⟩, hsent⟩ := hw
  have hidle : Sample.OtherRowsIdle w :=
    (hreach.mono (fun _ a => Sample.usesFirst a = true) fun _ _ h => h.1).invariant
      (Sample.othersIdle_preserves .default) fun _ _ => ⟨rfl, rfl⟩
  have hundisrupted :
      (server .default).Reach (World.Undisrupted .default) Sample.scheduledWorld w :=
    hreach.mono _ fun _ _ h => ⟨h.2.1, World.covered_of_goesWell h.2.2.1, h.2.2.2⟩
  have hrest : w.AtRest := by
    refine ⟨hbroker, funext fun i => ?_, funext fun i => ?_⟩
    · by_cases hi : i = 0
      · exact hi ▸ hpass
      · exact (hidle i hi).1
    · by_cases hi : i = 0
      · exact hi ▸ hprocess
      · exact (hidle i hi).2
  refine ⟨w, hundisrupted, hrest, hsent, ?_⟩
  exact nothing_in_flight_at_rest Sample.scheduledWorld_initial (by decide) hundisrupted hrest

end PushIT
