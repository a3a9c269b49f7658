import PushIT.ApplicationSteps
import PushIT.Billing

/-!
# The quota of applications

`billing/service.py` and the creation of `applications/api_views.py`: a request to create an
application is refused unless its user is paid and has fewer applications than the cached
entitlement covers.  The check counts the rows; the row is inserted later, after the validation
and the allocation of an alias, and no lock or constraint spans the two.  Requests that pass
their checks before the first of them inserts its row are all counted as absent.

## Main definitions

* `Entitlements.applicationQuota`, `QuotaConsole.step`: the check and the creation, statement by
  statement.
* `QuotaConsole.CountsUnderway`: a check that passes would pass with the requests under way
  counted as applications.

## Main results

* `quota_respected`: the quota bounds the applications of a user in every such run.
* `quota_exceeded`: a run that exceeds it.
-/

namespace PushIT

open Relational Transition

/-! ### The entitlement -/

/-- `isinstance(value, int)`; a Python boolean is an integer. -/
def Json.asInt : Json → Option ℤ
  | int value => some value
  | bool value => some (if value then 1 else 0)
  | _ => none

/-- `(quotas or {}).get("applications")`, or `0` where that is no integer; `none` when `quotas`
has no `get`. -/
def quotaOf (quotas : Json) : Option ℤ :=
  if !quotas.truthy then some 0
  else
    match quotas with
    | .object members => some ((Payload.get members "applications").asInt.getD 0)
    | _ => none

/-- The subscription still opens rights. -/
def Subscription.isOpen (now : Instant) (sub : Subscription) : Bool :=
  sub.isPaid &&
    !((sub.currentPeriodEnd.any fun t => t < now) && sub.graceUntil.all fun t => t < now)

/-- `_active_subscription`, from the cached row of the user. -/
def activeSubscription (now : Instant) (sub : Option Subscription) : Option Subscription :=
  sub.filter (·.isOpen now)

/-- `UNLIMITED`. -/
def unlimited : ℤ := 10000

/-- What the check reads besides the applications: the settings, and the rows of the users. -/
structure Entitlements where
  billingConfigured : Bool := true
  subscriptionBypass : ℕ → Bool := fun _ => false
  subscription : ℕ → Option Subscription := fun _ => none

namespace Entitlements

variable (e : Entitlements)

/-- `user_is_paid`. -/
def userIsPaid (now : Instant) (user : ℕ) : Bool :=
  !e.billingConfigured || e.subscriptionBypass user ||
    (activeSubscription now (e.subscription user)).isSome

/-- `application_quota`; `none` when it raises. -/
def applicationQuota (now : Instant) (user : ℕ) : Option ℤ :=
  if !e.billingConfigured then some unlimited
  else if e.subscriptionBypass user then some unlimited
  else
    match activeSubscription now (e.subscription user) with
    | none => some 0
    | some sub => quotaOf sub.quotas

end Entitlements

/-! ### The creation of an application -/

/-- A creation request before its save. -/
inductive QuotaStage
  /-- Its user is paid; the quota comes next. -/
  | paid (owner : ℕ) (name description : String)
  /-- `quota_required` returned `None`; the validation comes next. -/
  | admitted (owner : ℕ) (name description : String)

/-- The user whose quota a request checks next. -/
def QuotaStage.checks : QuotaStage → Option ℕ
  | paid owner _ _ => some owner
  | admitted _ _ _ => none

/-- The console with the creation requests. -/
structure QuotaConsole where
  clock : Instant
  console : Console
  stages : Pool QuotaStage := .idle
  /-- The requests that passed their check and have not ended, with their users; no action reads
  it. -/
  underway : List (ℕ × ℕ) := []

inductive QuotaAction
  | tick (duration : ℕ)
  /-- A request arrives; it is refused when its user is not paid. -/
  | post (rid owner : ℕ) (name description : String)
  /-- It counts the applications of its user. -/
  | count (rid : ℕ)
  /-- Its body is validated, and the save begins. -/
  | validate (rid : ℕ) (valid : Bool) (draw : Draw)
  /-- The save performs its next statement. -/
  | advance (rid : ℕ) (input : ConsoleInput)

def ConsoleProcess.isCreation : ConsoleProcess → Bool
  | saving _ .create _ => true
  | _ => false

namespace QuotaConsole

/-- `applications_used`. -/
def applicationsUsed (w : QuotaConsole) (user : ℕ) : ℕ :=
  w.console.applications.rows.countP fun a => a.ownerId == user

/-- The creation requests of a user that passed their check and have not ended. -/
def requestsUnderway (w : QuotaConsole) (user : ℕ) : ℕ :=
  w.underway.countP fun r => r.2 == user

/-- A request passes its check. -/
def countIn (w : QuotaConsole) (rid owner : ℕ) (name description : String) : QuotaConsole :=
  { w with
    stages := w.stages.set rid (some (.admitted owner name description))
    underway := (rid, owner) :: w.underway }

/-- A request ends. -/
def leave (w : QuotaConsole) (rid : ℕ) : QuotaConsole :=
  { w with underway := w.underway.filter fun r => r.1 != rid }

/-- The save of a request performed a statement. -/
def afterSave (w : QuotaConsole) (rid : ℕ) (console : Console) : QuotaConsole :=
  let w' := { w with console }
  if (console.processes rid).any (·.isCreation) then w' else w'.leave rid

/-- The second half of `quota_required`. -/
def countStep (e : Entitlements) (w : QuotaConsole) (rid owner : ℕ) (name description : String) :
    QuotaConsole :=
  match e.applicationQuota w.clock owner with
  | none => { w with stages := w.stages.set rid none }
  | some quota =>
    if quota ≤ w.applicationsUsed owner then { w with stages := w.stages.set rid none }
    else w.countIn rid owner name description

def step (e : Entitlements) (w : QuotaConsole) : QuotaAction → Option QuotaConsole
  | .tick duration => some { w with clock := w.clock + duration }
  | .post rid owner name description =>
    if (w.stages rid).isNone && (w.console.processes rid).isNone then
      if !e.billingConfigured then some (w.countIn rid owner name description)
      else if e.userIsPaid w.clock owner then
        some { w with stages := w.stages.set rid (some (.paid owner name description)) }
      else some w
    else none
  | .count rid =>
    match w.stages rid with
    | some (.paid owner name description) => some (w.countStep e rid owner name description)
    | _ => none
  | .validate rid valid draw =>
    match w.stages rid with
    | some (.admitted owner name description) =>
      let w' := { w with stages := w.stages.set rid none }
      if valid then
        some { w' with
          console := w.console.begin rid w.clock (.create owner name description draw) }
      else some (w'.leave rid)
    | _ => none
  | .advance rid input => (w.console.step (.advance rid input)).map (w.afterSave rid)

end QuotaConsole

/-- The creation of applications as a transition system. -/
def quotaConsole (e : Entitlements) : System QuotaConsole QuotaAction := ⟨QuotaConsole.step e⟩

/-! ### The quota over time -/

/-- A subscription that time has closed stays closed. -/
theorem Subscription.isOpen_of_later {sub : Subscription} {now later : Instant}
    (hle : now ≤ later) (h : sub.isOpen later = true) : sub.isOpen now = true := by
  have hany : ∀ o : Option Instant, (o.any fun t => decide (t < now)) = true →
      (o.any fun t => decide (t < later)) = true := by
    rintro (_ | t) ht
    · simp at ht
    · simp only [Option.any_some, decide_eq_true_eq] at ht ⊢
      exact ht.trans_le hle
  have hall : ∀ o : Option Instant, (o.all fun t => decide (t < now)) = true →
      (o.all fun t => decide (t < later)) = true := by
    rintro (_ | t) ht
    · rfl
    · simp only [Option.all_some, decide_eq_true_eq] at ht ⊢
      exact ht.trans_le hle
  simp only [isOpen, Bool.and_eq_true, Bool.not_eq_true', Bool.and_eq_false_iff] at h ⊢
  refine ⟨h.1, h.2.imp (fun hperiod => ?_) fun hgrace => ?_⟩
  · exact Bool.eq_false_iff.mpr fun ht => Bool.eq_false_iff.mp hperiod (hany _ ht)
  · exact Bool.eq_false_iff.mpr fun ht => Bool.eq_false_iff.mp hgrace (hall _ ht)

/-- Time leaves the quota of a user as it is, or takes it away. -/
theorem Entitlements.applicationQuota_later {e : Entitlements} {user : ℕ} {now later : Instant}
    {quota quota' : ℤ} (hle : now ≤ later) (h : e.applicationQuota now user = some quota)
    (h' : e.applicationQuota later user = some quota') : quota' = quota ∨ quota' = 0 := by
  unfold applicationQuota at h h'
  split at h
  · next hopen =>
    rw [if_pos hopen] at h'
    exact Or.inl (Option.some.inj (h'.symm.trans h))
  · next hconfigured =>
    rw [if_neg hconfigured] at h'
    split at h
    · next hbypass =>
      rw [if_pos hbypass] at h'
      exact Or.inl (Option.some.inj (h'.symm.trans h))
    · next hbypass =>
      rw [if_neg hbypass] at h'
      split at h'
      · exact Or.inr (Option.some.inj h').symm
      · next sub hsub =>
        -- the subscription is open later, so it was open before
        obtain ⟨hrow, hopen⟩ := Option.filter_eq_some_iff.mp hsub
        have hbefore : activeSubscription now (e.subscription user) = some sub :=
          Option.filter_eq_some_iff.mpr ⟨hrow, sub.isOpen_of_later hle hopen⟩
        rw [hbefore] at h
        exact Or.inl (Option.some.inj (h'.symm.trans h))

/-! ### What a creation does -/

/-- The save of a creation fails, starts over, or inserts a row of the owner. -/
theorem Console.saveStep_create {s : Console} {rid : ℕ} {input : ConsoleInput}
    {object : ConsoleApplication} (h : object.inboundEmailAlias = "") (attempts : ℕ) :
    s.saveStep rid input object .create attempts = s.setProcess rid none ∨
      (∃ k, s.saveStep rid input object .create attempts =
        s.setProcess rid (some (.saving (object.fillBlanks input.draw) .create k))) ∨
      ∃ a, a.ownerId = object.ownerId ∧ s.applications.seq < pk a ∧
        s.saveStep rid input object .create attempts =
          s.written rid .create a (s.applications.put a)
            (some (.provisioning input.draw.alias_ "")) := by
  have hretry : s.retrySave rid (object.fillBlanks input.draw) .create attempts =
        s.setProcess rid none ∨
      ∃ k, s.retrySave rid (object.fillBlanks input.draw) .create attempts =
        s.setProcess rid (some (.saving (object.fillBlanks input.draw) .create k)) := by
    unfold retrySave
    split
    · exact Or.inl rfl
    · exact Or.inl rfl
    · exact Or.inr ⟨_, rfl⟩
  simp only [saveStep, ConsoleApplication.inboundEmailAlias_fillBlanks, h, ne_eq, not_true,
    if_false]
  split
  · exact hretry.imp id Or.inl
  · split
    · next a applications hwrite =>
      obtain ⟨hwrites, -, rfl⟩ := write_eq_some hwrite
      cases hwrites with
      | create =>
        refine Or.inr (Or.inr ⟨_, ?_, Nat.lt_succ_self _, rfl⟩)
        exact object.ownerId_fillBlanks input.draw
    · exact hretry.imp id Or.inl

/-! ### Accounting -/

/-- The requests under way hold the creations that passed their check. -/
def ConsoleProcess.HeldBy (underway : List (ℕ × ℕ)) (rid : ℕ) : ConsoleProcess → Prop
  | .saving object .create _ => object.inboundEmailAlias = "" ∧ (rid, object.ownerId) ∈ underway
  | .provisioning _ _ | .deprovisioning _ => True
  | _ => False

theorem ConsoleProcess.HeldBy.mono {underway underway' : List (ℕ × ℕ)} {rid : ℕ}
    {p : ConsoleProcess} (h : p.HeldBy underway rid)
    (hsub : p.isCreation = true → ∀ owner, (rid, owner) ∈ underway → (rid, owner) ∈ underway') :
    p.HeldBy underway' rid := by
  cases p with
  | saving object purpose attempts =>
    cases purpose with
    | create => exact ⟨h.1, hsub rfl _ h.2⟩
    | _ => exact h
  | _ => exact h

namespace QuotaConsole

/-- A check of the user that passes would pass with the requests under way counted as
applications. -/
def CountsUnderway (e : Entitlements) (user : ℕ) (w : QuotaConsole) : QuotaAction → Prop
  | .count rid => ∀ owner ∈ (w.stages rid).bind (·.checks), owner = user →
      ∀ quota ∈ e.applicationQuota w.clock owner, (w.applicationsUsed owner : ℤ) < quota →
        (w.applicationsUsed owner + w.requestsUnderway owner : ℤ) < quota
  | _ => True

instance (e : Entitlements) (user : ℕ) (w : QuotaConsole) (a : QuotaAction) :
    Decidable (w.CountsUnderway e user a) := by
  rcases a with _ | _ <;> unfold CountsUnderway <;> infer_instance

/-- The requests under way are those that passed their check. -/
structure Tracked (w : QuotaConsole) : Prop where
  idle : ∀ rid stage, w.stages rid = some stage → w.console.processes rid = none
  admitted : ∀ rid owner name description,
    w.stages rid = some (.admitted owner name description) → (rid, owner) ∈ w.underway
  held : ∀ rid p, w.console.processes rid = some p → p.HeldBy w.underway rid

/-- The applications of the user and the creations under way are within the quota. -/
structure Accounted (start : Instant) (user : ℕ) (quota : ℤ) (w : QuotaConsole) : Prop
    extends w.Tracked where
  clock : start ≤ w.clock
  total : (w.applicationsUsed user + w.requestsUnderway user : ℤ) ≤ quota

/-- No creation is under way. -/
structure Initial (w : QuotaConsole) : Prop where
  stages : w.stages = .idle
  processes : w.console.processes = .idle
  underway : w.underway = []

variable {e : Entitlements} {start : Instant} {user : ℕ} {quota : ℤ} {w w' : QuotaConsole}
  {rid : ℕ}

theorem Initial.accounted (h : w.Initial) (hused : (w.applicationsUsed user : ℤ) ≤ quota) :
    w.Accounted w.clock user quota where
  idle := by simp [h.stages]
  admitted := by simp [h.stages]
  held := by simp [h.processes]
  clock := le_rfl
  total := by simpa [requestsUnderway, h.underway] using hused

/-! ### The requests under way -/

/-- A request leaves that has no statement left which depends on its check. -/
theorem Tracked.leave (h : w.Tracked)
    (hstage : ∀ owner name description, w.stages rid ≠ some (.admitted owner name description))
    (hprocess : ∀ p, w.console.processes rid = some p → p.isCreation = false) :
    (w.leave rid).Tracked where
  idle := h.idle
  admitted i owner name description hi := by
    refine List.mem_filter.mpr ⟨h.admitted i owner name description hi, ?_⟩
    have hne : i ≠ rid := by
      rintro rfl
      exact hstage _ _ _ hi
    simpa using hne
  held i p hp := by
    refine (h.held i p hp).mono fun hcreation owner hmem => List.mem_filter.mpr ⟨hmem, ?_⟩
    have hne : i ≠ rid := by
      rintro rfl
      simp [hprocess p hp] at hcreation
    simpa using hne

theorem Tracked.dropStage (h : w.Tracked) (rid : ℕ) :
    { w with stages := w.stages.set rid none }.Tracked where
  idle := Pool.forall_set h.idle (by simp)
  admitted i owner name description hi := by
    rcases Pool.set_eq_some.mp hi with ⟨-, hnone⟩ | ⟨-, hi⟩
    · simp at hnone
    · exact h.admitted i owner name description hi
  held := h.held

theorem Tracked.countIn (h : w.Tracked) (hidle : w.console.processes rid = none) (owner : ℕ)
    (name description : String) : (w.countIn rid owner name description).Tracked where
  idle := Pool.forall_set h.idle fun _ _ => hidle
  admitted i o n d hi := by
    rcases Pool.set_eq_some.mp hi with ⟨rfl, hstage⟩ | ⟨-, hi⟩
    · obtain ⟨rfl, -, -⟩ := QuotaStage.admitted.inj (Option.some.inj hstage)
      exact List.mem_cons_self
    · exact List.mem_cons_of_mem _ (h.admitted i o n d hi)
  held i p hp := (h.held i p hp).mono fun _ _ hmem => List.mem_cons_of_mem _ hmem

/-- A process of a request without stage goes on, or ends. -/
theorem Tracked.setProcess (h : w.Tracked) (hstage : w.stages rid = none) {console : Console}
    {next : Option ConsoleProcess} (hnext : ∀ p, next = some p → p.HeldBy w.underway rid)
    (hconsole : console.processes = w.console.processes.set rid next) :
    { w with console }.Tracked where
  idle i stage hi := by
    have hne : i ≠ rid := by
      rintro rfl
      simp [hstage] at hi
    rw [hconsole, Pool.set_of_ne _ _ hne]
    exact h.idle i stage hi
  admitted := h.admitted
  held := by
    rw [hconsole]
    exact Pool.forall_set h.held hnext

/-- A request leaves when its save is over. -/
theorem Tracked.leaveSave (h : w.Tracked) (hstage : w.stages rid = none) (console : Console)
    (next : Option ConsoleProcess)
    (hnext : ∀ p, next = some p → p.isCreation = false ∧ p.HeldBy w.underway rid)
    (hconsole : console.processes = w.console.processes.set rid next) :
    w.afterSave rid console = { w with console }.leave rid ∧
      ({ w with console }.leave rid).Tracked := by
  have hany : (console.processes rid).any (·.isCreation) = false := by
    rw [hconsole, Pool.set_self]
    cases next with
    | none => rfl
    | some p => exact (hnext p rfl).1
  refine ⟨by simp [afterSave, hany], ?_⟩
  refine (h.setProcess hstage (fun p hp => (hnext p hp).2) hconsole).leave (by simp [hstage]) ?_
  intro p hp
  have hp : console.processes rid = some p := hp
  simpa [hp] using hany

/-- What a request that leaves counted for. -/
theorem requestsUnderway_leave_le (w : QuotaConsole) (rid user : ℕ) :
    (w.leave rid).requestsUnderway user ≤ w.requestsUnderway user :=
  List.Sublist.countP_le List.filter_sublist

theorem requestsUnderway_leave_lt (h : (rid, user) ∈ w.underway) :
    (w.leave rid).requestsUnderway user < w.requestsUnderway user := by
  simp only [requestsUnderway, QuotaConsole.leave, List.countP_eq_length_filter]
  rw [List.filter_comm]
  exact List.length_filter_lt_length_iff_exists.mpr
    ⟨(rid, user), List.mem_filter.mpr ⟨h, by simp⟩, by simp⟩

/-! ### Steps -/

/-- The accounts do not grow when the applications stay and a request leaves. -/
theorem Accounted.of_leave (h : w.Accounted start user quota) {rid : ℕ} {stages console}
    (happlications : console.applications = w.console.applications)
    (htracked : ({ w with stages, console }.leave rid).Tracked) :
    ({ w with stages, console }.leave rid).Accounted start user quota := by
  refine ⟨htracked, h.clock, ?_⟩
  have hle := requestsUnderway_leave_le w rid user
  have htotal := h.total
  have hused : ({ w with stages, console }.leave rid).applicationsUsed user =
      w.applicationsUsed user := by
    simp [applicationsUsed, QuotaConsole.leave, happlications]
  rw [hused]
  change (w.applicationsUsed user + (w.leave rid).requestsUnderway user : ℤ) ≤ quota
  omega

/-- A request whose check counts the requests under way is admitted. -/
theorem Accounted.countIn (h : w.Accounted start user quota)
    (hidle : w.console.processes rid = none) {owner : ℕ} (name description : String)
    (hroom : owner = user →
      (w.applicationsUsed user + w.requestsUnderway user : ℤ) < quota) :
    (w.countIn rid owner name description).Accounted start user quota := by
  refine ⟨h.toTracked.countIn hidle owner name description, h.clock, ?_⟩
  have htotal := h.total
  change (w.applicationsUsed user + (List.countP (fun r => r.2 == user)
    ((rid, owner) :: w.underway) : ℕ) : ℤ) ≤ quota
  rw [List.countP_cons]
  by_cases howner : owner = user
  · have := hroom howner
    simp only [howner, beq_self_eq_true, if_true]
    simp only [requestsUnderway] at this
    omega
  · simpa [howner, requestsUnderway] using htotal

/-- One statement of a save. -/
theorem Accounted.advance (h : w.Accounted start user quota) {input : ConsoleInput}
    (hs : w.step e (.advance rid input) = some w') : w'.Accounted start user quota := by
  obtain ⟨console, hconsole, rfl⟩ := Option.map_eq_some_iff.mp hs
  obtain ⟨p, hp, rfl⟩ := Option.map_eq_some_iff.mp hconsole
  have hheld := h.held rid p hp
  have hstage : w.stages rid = none := by
    by_contra hsome
    obtain ⟨stage, hstage⟩ := Option.ne_none_iff_exists'.mp hsome
    simp [h.idle rid stage hstage] at hp
  -- the process goes on without a creation, or ends, and the rows stay
  have hleaves : ∀ (console : Console) next, console.applications = w.console.applications →
      console.processes = w.console.processes.set rid next →
      (∀ p, next = some p → p.isCreation = false ∧ p.HeldBy w.underway rid) →
      (w.afterSave rid console).Accounted start user quota := by
    intro console next happlications hprocesses hnext
    obtain ⟨heq, htracked⟩ := h.toTracked.leaveSave hstage console next hnext hprocesses
    exact heq ▸ h.of_leave happlications htracked
  cases p with
  | saving object purpose attempts =>
    cases purpose with
    | create =>
      obtain ⟨halias, hmem⟩ := hheld
      simp only [Console.advance]
      rcases Console.saveStep_create halias attempts with hfails | ⟨k, hretries⟩ |
        ⟨a, howner, hfresh, hinserts⟩
      · rw [hfails]
        exact hleaves _ none rfl rfl (by simp)
      · have hany : ((w.console.setProcess rid (some (.saving (object.fillBlanks input.draw)
            .create k))).processes rid).any (·.isCreation) = true := by
          simp [Console.setProcess, ConsoleProcess.isCreation]
        rw [hretries, afterSave, if_pos hany]
        refine ⟨h.toTracked.setProcess hstage ?_ rfl, h.clock, h.total⟩
        intro p hp
        obtain rfl := Option.some.inj hp
        exact ⟨(ConsoleApplication.inboundEmailAlias_fillBlanks _ _).trans halias,
          (object.ownerId_fillBlanks input.draw).symm ▸ hmem⟩
      · -- the row counts instead of the request
        obtain ⟨heq, htracked⟩ := h.toTracked.leaveSave hstage
          (w.console.written rid .create a (w.console.applications.put a)
            (some (.provisioning input.draw.alias_ "")))
          (some (.provisioning input.draw.alias_ ""))
          (by simp [ConsoleProcess.isCreation, ConsoleProcess.HeldBy]) rfl
        rw [hinserts, heq]
        refine ⟨htracked, h.clock, ?_⟩
        have htotal := h.total
        change ((w.console.applications.put a).rows.countP (fun b => b.ownerId == user) +
          (w.leave rid).requestsUnderway user : ℤ) ≤ quota
        rw [Table.rows_put_of_seq_lt hfresh, List.countP_append, List.countP_singleton]
        simp only [applicationsUsed] at htotal
        by_cases huser : a.ownerId = user
        · have hmem : (rid, user) ∈ w.underway := by rwa [← huser, howner]
          have hlt := requestsUnderway_leave_lt hmem
          simp only [huser, beq_self_eq_true, if_true]
          omega
        · have hle := requestsUnderway_leave_le w rid user
          simp only [huser, beq_iff_eq, if_false]
          omega
    | patch | regenerateEmail | update => exact hheld.elim
  | provisioning alias_ old =>
    refine hleaves _ _ rfl rfl fun p hp => ?_
    split at hp
    · obtain rfl := Option.some.inj hp
      exact ⟨rfl, trivial⟩
    · simp at hp
  | deprovisioning alias_ => exact hleaves _ none rfl rfl (by simp)
  | deleting object => exact hheld.elim

/-- One action in which a check counts the requests under way. -/
theorem Accounted.step (h : w.Accounted start user quota) (hconfigured : e.billingConfigured)
    (hquota : e.applicationQuota start user = some quota) {a : QuotaAction}
    (ha : w.CountsUnderway e user a) (hs : w.step e a = some w') :
    w'.Accounted start user quota := by
  have hdrop : ∀ rid, { w with stages := w.stages.set rid none }.Accounted start user quota :=
    fun rid => ⟨h.toTracked.dropStage rid, h.clock, h.total⟩
  cases a with
  | tick duration =>
    obtain rfl := Option.some.inj hs
    exact ⟨⟨h.idle, h.admitted, h.held⟩,
      h.clock.trans (Int.le_add_of_nonneg_right (Int.natCast_nonneg _)), h.total⟩
  | post rid owner name description =>
    simp only [QuotaConsole.step, hconfigured, Bool.not_true, Bool.false_eq_true, if_false] at hs
    split at hs
    · next hfree =>
      simp only [Bool.and_eq_true, Option.isNone_iff_eq_none] at hfree
      split at hs
      · obtain rfl := Option.some.inj hs
        refine ⟨⟨Pool.forall_set h.idle fun _ _ => hfree.2, ?_, h.held⟩, h.clock, h.total⟩
        intro i o n d hi
        rcases Pool.set_eq_some.mp hi with ⟨-, hstage⟩ | ⟨-, hi⟩
        · simp at hstage
        · exact h.admitted i o n d hi
      · exact Option.some.inj hs ▸ h
    · simp at hs
  | count rid =>
    simp only [QuotaConsole.step] at hs
    split at hs
    · next owner name description hstage =>
      obtain rfl := Option.some.inj hs
      unfold countStep
      split
      · exact hdrop rid
      · next quota' hquota' =>
        split
        · exact hdrop rid
        · next hroom =>
          refine h.countIn (h.idle rid _ hstage) name description ?_
          rintro rfl
          have hcounted := ha owner (by simp [hstage, QuotaStage.checks]) rfl quota'
            (Option.mem_def.mpr hquota') (by omega)
          rcases e.applicationQuota_later h.clock hquota hquota' with rfl | rfl
          · exact hcounted
          · omega
    · simp at hs
  | validate rid valid draw =>
    simp only [QuotaConsole.step] at hs
    split at hs
    · next owner name description hstage =>
      have hidle := h.idle rid _ hstage
      have hmem := h.admitted rid owner name description hstage
      split at hs
      · obtain rfl := Option.some.inj hs
        refine ⟨(hdrop rid).toTracked.setProcess (Pool.set_self _ _ _) ?_ rfl, h.clock, h.total⟩
        intro p hp
        obtain rfl := Option.some.inj hp
        exact ⟨rfl, hmem⟩
      · obtain rfl := Option.some.inj hs
        refine h.of_leave rfl ((hdrop rid).toTracked.leave ?_ ?_)
        · simp
        · intro p hp
          rw [hidle] at hp
          simp at hp
    · simp at hs
  | advance rid input => exact h.advance hs

end QuotaConsole

/-! ### Runs -/

/-- A user whose entitlement gives a quota never has more applications, in every run of creation
requests in which the checks count the requests under way. -/
theorem quota_respected {e : Entitlements} {w₀ w : QuotaConsole} (h₀ : w₀.Initial)
    (hconfigured : e.billingConfigured = true) {user : ℕ} {quota : ℤ}
    (hquota : e.applicationQuota w₀.clock user = some quota)
    (hused : (w₀.applicationsUsed user : ℤ) ≤ quota)
    (h : (quotaConsole e).Reach (QuotaConsole.CountsUnderway e user) w₀ w) :
    (w.applicationsUsed user : ℤ) ≤ quota := by
  have hpres : (quotaConsole e).Preserves (QuotaConsole.CountsUnderway e user)
      (QuotaConsole.Accounted w₀.clock user quota) := fun _ _ _ hw ha hs =>
    hw.step hconfigured hquota ha hs
  have htotal := (System.Reach.invariant hpres h (h₀.accounted hused)).total
  omega

namespace Sample

/-- A paid user whose subscription covers one application. -/
def oneApplication : Entitlements where
  subscription user :=
    if user = 1 then
      some { id := 1, userId := 1, isPaid := true, quotas := .object [("applications", .int 1)] }
    else none

def emptyConsole : QuotaConsole := { clock := 0, console := { applications := .empty } }

theorem emptyConsole_initial : emptyConsole.Initial := ⟨rfl, rfl, rfl⟩

/-- The statements of a creation request after its check. -/
def creation (rid : ℕ) (draw : Draw) : List QuotaAction :=
  [.validate rid true draw, .advance rid { draw }]

def overdrawn : Draw :=
  { Draw.bare with
    appTokenHash := "1"
    enrolmentCode := "apk_1"
    alias_ := "app-1.pushit"
    aliasSuffix := "1"
    appTokenHash_ne := by decide
    enrolmentCode_ne := by decide
    alias_ne := by decide
    aliasSuffix_ne := by decide }

end Sample

/-- The second of two requests is refused when it counts the application of the first. -/
theorem sample_quota_respected : ∃ w,
    (quotaConsole Sample.oneApplication).Reach
      (QuotaConsole.CountsUnderway Sample.oneApplication 1) Sample.emptyConsole w ∧
    w.applicationsUsed 1 = 1 ∧ (w.applicationsUsed 1 : ℤ) ≤ 1 := by
  obtain ⟨w, hreach, hone⟩ := System.exists_reach_of_guardedRun
    (quotaConsole Sample.oneApplication)
    (QuotaConsole.CountsUnderway Sample.oneApplication 1) Sample.emptyConsole
    ([.post 1 1 "first" "", .post 2 1 "second" "", .count 1] ++ Sample.creation 1 {} ++ [.count 2])
    (fun w => decide (w.applicationsUsed 1 = 1)) (by decide)
  exact ⟨w, hreach, of_decide_eq_true hone,
    quota_respected Sample.emptyConsole_initial rfl rfl (by decide) hreach⟩

/-- Two requests count before either inserts its row. -/
theorem quota_exceeded : ¬∀ (e : Entitlements) (w₀ w : QuotaConsole), w₀.Initial →
    e.billingConfigured = true → ∀ (user : ℕ) (quota : ℤ),
    e.applicationQuota w₀.clock user = some quota → (w₀.applicationsUsed user : ℤ) ≤ quota →
    (quotaConsole e).Reach (fun _ _ => True) w₀ w → (w.applicationsUsed user : ℤ) ≤ quota := by
  intro hclaim
  obtain ⟨w, hreach, htwo⟩ := System.exists_reach_of_guardedRun
    (quotaConsole Sample.oneApplication) (fun _ _ => True) Sample.emptyConsole
    ([.post 1 1 "first" "", .post 2 1 "second" "", .count 1, .count 2] ++ Sample.creation 1 {} ++
      Sample.creation 2 Sample.overdrawn)
    (fun w => decide (w.applicationsUsed 1 = 2)) (by decide)
  have hle := hclaim Sample.oneApplication _ w Sample.emptyConsole_initial rfl 1 1 rfl (by decide)
    hreach
  rw [of_decide_eq_true htwo] at hle
  exact absurd hle (by decide)

end PushIT
