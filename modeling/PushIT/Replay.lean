import PushIT.AppTokenSteps

/-!
# Replaying a create request

A create request with an idempotency key that was answered 201 is sent again, whatever happened in
between.  The request is validated anew before the key is looked up: a date that has passed is
refused, and a template is looked up and expanded again.

## Main definitions

* `CreatePayload.StillValid`: the validation gives the same data as the first time.
* `Api.replay`: the request, from its first to its last statement.
* `Api.Replayable`: what the first answer leaves behind, kept by every action.

## Main results

* `CreatePayload.validate_again`: when the second validation gives the first one's data.
* `replay_identical`: the replay is answered 200 with the same notification, and changes nothing,
  exactly then.
-/

namespace PushIT

open Relational Transition

/-! ### Validating again -/

/-- The date, if any, is still ahead, and the template, if any, is still there and expands to the
title and the message of the first time. -/
def CreatePayload.StillValid (D : DateTimes) (templates : Table NotificationTemplate)
    (applicationId : ℕ) (now : Instant) (title message : String) (p : CreatePayload) : Prop :=
  (∀ d, p.scheduledFor.join.bind D.toInternalValue = some d → now < d) ∧
    ∀ templateId, p.templateId = some templateId →
      ∃ t, findTemplate templates applicationId templateId = some t ∧
        t.render ((p.variables_.getD []).map fun v => (v.1, strip v.2)) = (title, message)

theorem validateVariables_eq_ok {vs ws : List (String × String)}
    (h : validateVariables vs = .ok ws) : ws = vs.map fun v => (v.1, strip v.2) := by
  simp only [validateVariables] at h
  split at h
  · exact (Except.ok.inj h).symm
  · simp at h

/-- A resolved template has a valid title and message. -/
theorem resolveTemplate_eq_ok {templates : Table NotificationTemplate} {applicationId : ℕ}
    {templateId : Option ℤ} {f : FieldValues} {r : String × String}
    (h : resolveTemplate templates applicationId templateId f = .ok r) :
    (templateId = none ∧ f.title = some r.1 ∧ f.message = some r.2) ∨
      ∃ id t, templateId = some id ∧ f.title = none ∧ f.message = none ∧
        findTemplate templates applicationId id = some t ∧ t.render f.variables_ = r ∧
        renderedErrors r.1 r.2 = [] := by
  cases templateId with
  | none =>
    left
    simp only [resolveTemplate] at h
    split at h
    · simp at h
    · simp at h
    · next title message htitle hmessage =>
      obtain rfl := Except.ok.inj h
      exact ⟨rfl, htitle, hmessage⟩
  | some id =>
    right
    simp only [resolveTemplate] at h
    split at h
    · simp at h
    · next hfields =>
      split at h
      · simp at h
      · next t ht =>
        split at h
        · next herrors =>
          obtain rfl := Except.ok.inj h
          simp only [Bool.or_eq_true, not_or, Option.not_isSome_iff_eq_none] at hfields
          exact ⟨id, t, rfl, hfields.1, hfields.2, ht, rfl, herrors⟩
        · simp at h

/-- The second validation gives the data of the first one exactly when the body is still valid. -/
theorem CreatePayload.validate_again {D : DateTimes}
    {templates templates' : Table NotificationTemplate}
    {applicationId : ℕ} {now now' : Instant} {p : CreatePayload} {v : ValidatedData}
    (h : p.validate D templates applicationId now = .ok v) :
    p.validate D templates' applicationId now' = .ok v ↔
      p.StillValid D templates' applicationId now' v.title v.message := by
  obtain ⟨f, hf, hresolve, hscheduled⟩ := validate_eq_ok h
  obtain ⟨htitle, hmessage, hvariables, hdate⟩ := toInternalValue_eq_ok hf
  obtain ⟨hvdate, hparsed, -⟩ := scheduledFor_of_validate h
  have hjoin : v.scheduledFor.join = p.scheduledFor.join.bind D.toInternalValue := by
    rw [hvdate]
    rcases p.scheduledFor with _ | _ | s <;> rfl
  constructor
  · intro h'
    obtain ⟨f', hf', hresolve', -⟩ := validate_eq_ok h'
    obtain ⟨-, -, hvariables', -⟩ := toInternalValue_eq_ok hf'
    obtain ⟨-, -, hahead⟩ := scheduledFor_of_validate h'
    refine ⟨fun d hd => hahead d (hjoin.trans hd), fun id hid => ?_⟩
    rcases resolveTemplate_eq_ok hresolve' with ⟨hnone, -⟩ | ⟨id', t, hid', -, -, ht, hrender, -⟩
    · simp [hid] at hnone
    · obtain rfl := Option.some.inj (hid.symm.trans hid')
      exact ⟨t, ht, validateVariables_eq_ok hvariables' ▸ hrender⟩
  · rintro ⟨hahead, htemplate⟩
    have hdate' : optionalField (validateScheduledFor D now') p.scheduledFor =
        .ok f.scheduledFor := by
      rw [← hscheduled, hvdate]
      rcases hp : p.scheduledFor with _ | _ | s
      · rfl
      · rfl
      · obtain ⟨d, hd⟩ := Option.isSome_iff_exists.mp (hparsed _ hp s rfl)
        have hlt : now' < d := hahead d (by simp [hp, hd])
        simp [optionalField, validateScheduledFor, hd, Int.not_le.mpr hlt, Except.map]
    have hvalues : p.toInternalValue D now' = .ok f := by
      simp only [toInternalValue, htitle, hmessage, hvariables, hdate']
    have hresolve' : resolveTemplate templates' applicationId p.templateId f =
        .ok (v.title, v.message) := by
      rcases resolveTemplate_eq_ok hresolve with
        ⟨hid, hft, hfm⟩ | ⟨id, t, hid, hft, hfm, -, -, herrors⟩
      · simp [resolveTemplate, hid, hft, hfm]
      · obtain ⟨t', ht', hrender⟩ := htemplate id hid
        rw [← validateVariables_eq_ok hvariables] at hrender
        simp only at herrors
        simp [resolveTemplate, hid, hft, hfm, ht', hrender, herrors]
    simp only [validate, hvalues, hresolve', bind, Except.bind, pure, Except.pure, ← hscheduled]

/-! ### What the first answer leaves behind -/

/-- The request passed the validation at some time, and `v` is what it gave. -/
def AppTokenRequest.Validates (cfg : ApiConfig) (r : AppTokenRequest) (v : ValidatedData) : Prop :=
  (∃ templates now, r.payload.validate cfg.dates templates r.applicationId now = .ok v) ∧
    strip r.idempotencyKey ≠ "" ∧ (strip r.idempotencyKey).length ≤ idempotencyKeyMaxLength

/-- The call a request with these data makes. -/
def AppTokenRequest.creation (cfg : ApiConfig) (r : AppTokenRequest) (v : ValidatedData) :
    CreationCall :=
  v.creation cfg.sha256 cfg.dates.encode r.applicationId (strip r.idempotencyKey)

/-- The row with an id, if it is still there, carries the application, the key and the fingerprint
of a call. -/
def Api.RowOf (s : Api) (id : ℕ) (c : CreationCall) : Prop :=
  id ≤ s.world.db.notifications.seq ∧ ∀ n ∈ s.world.db.notifications.rows, n.id = id →
    c.matches_ n = true ∧ n.requestFingerprint = c.requestFingerprint

/-- What a process or an answer of the create endpoint says about its request. -/
def ApiProcess.Accepted (cfg : ApiConfig) : ApiProcess → Prop
  | .creating q _ => ∃ v, q.request.Validates cfg v ∧ q.call = q.request.creation cfg v
  | .ingesting _ _ => True
  | .queueing q _ _ _ => q.request.endpoint = .send

/-- A 201 of the create endpoint shows the row that its call created. -/
def AnswerRecord.Remembered (cfg : ApiConfig) (s : Api) (record : AnswerRecord) : Prop :=
  record.request.endpoint = .create → ∀ body, record.answer = .notification 201 body →
    ∃ v, record.request.Validates cfg v ∧ body.title = v.title ∧ body.message = v.message ∧
      s.RowOf body.id (record.request.creation cfg v)

/-- The unique constraint holds, and answers and processes are about rows that exist or are gone
for good. -/
structure Api.Replayable (cfg : ApiConfig) (s : Api) : Prop where
  unique : s.world.db.UniqueKeys
  processes : ∀ rid p, s.processes rid = some p → p.Accepted cfg
  answers : ∀ record ∈ s.answers, record.Remembered cfg s

namespace Api

variable {cfg : ApiConfig} {s s' : Api}

theorem RowOf.step {a : ApiAction} (h : s.Steps cfg a s') {id : ℕ} {c : CreationCall}
    (hrow : s.RowOf id c) : s'.RowOf id c := by
  refine ⟨hrow.1.trans h.seq_le, fun n' hn' hid => ?_⟩
  cases h.row hn' with
  | old n hn horigin =>
    obtain ⟨hmatch, hfingerprint⟩ := hrow.2 n hn (horigin.1.symm.trans hid)
    refine ⟨?_, horigin.2.2.2.trans hfingerprint⟩
    simpa only [CreationCall.matches_, horigin.2.1, horigin.2.2.1] using hmatch
  | blank hnew hblank =>
    have := hrow.1
    omega
  | inserted d hd hfree hrecord =>
    have hnew : n'.id = s.world.db.notifications.seq + 1 := congrArg Notification.id hd
    have := hrow.1
    omega

/-- What an answer showed stays true of the row. -/
theorem remembered_step {a : ApiAction} (h : s.Steps cfg a s') {record : AnswerRecord}
    (hrecord : record.Remembered cfg s) : record.Remembered cfg s' := by
  intro hcreate body hbody
  obtain ⟨v, hv, htitle, hmessage, hrow⟩ := hrecord hcreate body hbody
  exact ⟨v, hv, htitle, hmessage, hrow.step h⟩

/-- The row that a call inserts. -/
theorem rowOf_insert {c : CreationCall}
    (hdb : s'.world.db = c.insert s.world.clock s.world.db) :
    s'.RowOf (s.world.db.notifications.seq + 1) c := by
  refine ⟨hdb ▸ le_rfl, fun n hn hid => ?_⟩
  rw [hdb] at hn
  rcases CreationCall.mem_insert.mp hn with hn | rfl
  · have hle := s.world.db.notifications.bounded n hn
    rw [pk_notification] at hle
    omega
  · exact ⟨by simp [CreationCall.matches_, CreationCall.newNotification], rfl⟩

/-- The unique constraint after an action. -/
theorem Replayable.unique_step {a : ApiAction} (hs : s.Replayable cfg) (h : s.Steps cfg a s') :
    s'.world.db.UniqueKeys := by
  -- a fresh row met no row with its key
  have hmixed : ∀ {n' m' n : Notification} {c : CreationCall}, n ∈ s.world.db.notifications.rows →
      n.SameOrigin n' → m' = c.newNotification s.world.clock (s.world.db.notifications.seq + 1) →
      (c.idempotencyKey = "" ∨ ∀ n ∈ s.world.db.notifications.rows, c.matches_ n = false) →
      n'.applicationId = m'.applicationId → n'.idempotencyKey = m'.idempotencyKey →
        n'.idempotencyKey ≠ "" → False := by
    rintro n' m' n c hn horigin rfl hfree happlication hkey hne
    rcases hfree with hblank | hnone
    · exact hne (hkey.trans hblank)
    · have hfalse := hnone n hn
      have happlication : n.applicationId = c.applicationId := horigin.2.1.symm.trans happlication
      have hkey : n.idempotencyKey = c.idempotencyKey := horigin.2.2.1.symm.trans hkey
      simp [CreationCall.matches_, happlication, hkey] at hfalse
  intro n' hn' m' hm' happlication hkey hne
  cases h.row hn' with
  | old n hn horigin =>
    cases h.row hm' with
    | old m hm horigin' =>
      have heq : n = m := by
        refine hs.unique n hn m hm ?_ ?_ (horigin.2.2.1 ▸ hne)
        · exact horigin.2.1.symm.trans (happlication.trans horigin'.2.1)
        · exact horigin.2.2.1.symm.trans (hkey.trans horigin'.2.2.1)
      refine Table.eq_of_pk hn' hm' ?_
      exact horigin.1.trans ((congrArg Notification.id heq).trans horigin'.1.symm)
    | blank hnew hblank => exact absurd (hkey.trans hblank) hne
    | inserted c hc hfree => exact (hmixed hn horigin hc hfree happlication hkey hne).elim
  | blank hnew hblank => exact absurd hblank hne
  | inserted c hc hfree =>
    cases h.row hm' with
    | old m hm horigin' =>
      exact (hmixed hm horigin' hc hfree happlication.symm hkey.symm (hkey ▸ hne)).elim
    | blank hnew hblank => exact absurd (hkey.trans hblank) hne
    | inserted d hd => exact Table.eq_of_pk hn' hm' (by rw [hc, hd]; rfl)

/-- Every action keeps the invariant. -/
theorem replayable_preserved :
    (api cfg).Preserves (fun _ _ => True) (Replayable cfg) := by
  intro s a t hs _ hstep
  have h := step_cases hstep
  have hunique := hs.unique_step h
  have hold : ∀ record ∈ s.answers, record.Remembered cfg t :=
    fun record hrecord => remembered_step h (hs.answers record hrecord)
  -- the processes and answers that are not new
  have hkeep : ∀ {rid : ℕ} {p : Option ApiProcess}, t.processes = s.processes.set rid p →
      (∀ x, p = some x → x.Accepted cfg) →
      (∀ record ∈ t.answers, record ∈ s.answers ∨ record.Remembered cfg t) →
        t.Replayable cfg := by
    intro rid p hprocesses hp hanswers
    refine ⟨hunique, ?_, fun record hrecord =>
      (hanswers record hrecord).elim (hold record) id⟩
    rw [hprocesses]
    exact Pool.forall_set hs.processes hp
  have hsame : ∀ {rid : ℕ} {p : Option ApiProcess}, t.processes = s.processes.set rid p →
      (∀ x, p = some x → x.Accepted cfg) → t.answers = s.answers → t.Replayable cfg :=
    fun hprocesses hp hanswers =>
      hkeep hprocesses hp fun record hrecord => Or.inl (hanswers ▸ hrecord)
  cases h with
  | server | editTemplates | subscribe => exact ⟨hunique, hs.processes, hold⟩
  | refused rid r answer hrid hbegin =>
    refine hkeep rfl (by simp) fun record hrecord => ?_
    rcases List.mem_cons.mp hrecord with rfl | hrecord
    · exact Or.inr fun _ body hbody =>
        absurd hbody (AppTokenRequest.begin_error_ne hbegin 201 body)
    · exact Or.inl hrecord
  | accepted rid r q hrid hbegin =>
    refine hsame rfl (fun x hx => ?_) rfl
    obtain rfl := Option.some.inj hx
    obtain ⟨a, v, -, -, -, hv, -, hkey, hlength, rfl⟩ := AppTokenRequest.begin_eq_ok.mp hbegin
    exact ⟨v, ⟨⟨_, _, hv⟩, hkey, hlength⟩, rfl⟩
  | ingests rid c hrid =>
    refine hsame rfl (fun x hx => ?_) rfl
    obtain rfl := Option.some.inj hx
    trivial
  | proceeds rid input p c hp hc =>
    refine hsame rfl (fun x hx => ?_) rfl
    obtain rfl := Option.some.inj hx
    have haccepted := hs.processes rid p hp
    cases p with
    | queueing => simp [ApiProcess.creation] at hc
    | _ => exact haccepted
  | ingested rid input c stage db result hp hcall => exact hsame rfl (by simp) rfl
  | created rid input q stage db result hp hcall =>
    obtain ⟨v, hv, hq⟩ : (ApiProcess.creating q stage).Accepted cfg := hs.processes rid _ hp
    have hcases := afterCreation_cases cfg ((s.setDb db).recorded q.call result) rid q result
    generalize ((s.setDb db).recorded q.call result).afterCreation cfg rid q result = t
      at hcases hunique hold hkeep hsame ⊢
    cases hcases with
    | refused _ answer hanswer =>
      refine hkeep rfl (by simp) fun record hrecord => ?_
      rcases List.mem_cons.mp hrecord with rfl | hrecord
      · exact Or.inr fun _ body hbody => absurd hbody (hanswer 201 body)
      · exact Or.inl hrecord
    | queues o hsend hcreated =>
      refine hsame rfl (fun x hx => ?_) rfl
      obtain rfl := Option.some.inj hx
      exact hsend
    | shows o hconflict hquiet =>
      refine hkeep rfl (by simp) fun record hrecord => ?_
      rcases List.mem_cons.mp hrecord with rfl | hrecord
      · refine Or.inr fun _ body hbody => ?_
        obtain ⟨hstatus, rfl⟩ := AppTokenAnswer.notification.inj hbody
        cases hcall with
        | found n hn => simp at hstatus
        | inserted happlication hfree =>
          exact ⟨v, hv, congrArg CreationCall.title hq, congrArg CreationCall.message hq,
            hq ▸ rowOf_insert rfl⟩
      · exact Or.inl hrecord
  | queueing rid input q id run decided hp =>
    have hsend : q.request.endpoint = .send := hs.processes rid _ hp
    generalize ht : s.queueStep cfg rid q id run decided input = t at hunique hold hkeep hsame ⊢
    simp only [queueStep] at ht
    split at ht
    · subst ht
      refine hsame rfl (fun x hx => ?_) rfl
      obtain rfl := Option.some.inj hx
      exact hsend
    · subst ht
      refine hkeep rfl (by simp) fun record hrecord => ?_
      rcases List.mem_cons.mp hrecord with rfl | hrecord
      · refine Or.inr fun hcreate => ?_
        have hcreate : q.request.endpoint = .create := hcreate
        simp [hsend] at hcreate
      · exact Or.inl hrecord

/-! ### The replay -/

/-- The statements of a process that runs alone. -/
def settle (cfg : ApiConfig) (rid : ℕ) : ℕ → Api → Api
  | 0, s => s
  | k + 1, s =>
    match s.step cfg (.advance rid {}) with
    | none => s
    | some t => settle cfg rid k t

/-- A request of the create endpoint, from its first to its last statement: after the validation
there are two. -/
def replay (cfg : ApiConfig) (s : Api) (rid : ℕ) (r : AppTokenRequest) : Option Api :=
  (s.step cfg (.request rid r)).map (settle cfg rid 2)

/-- The replay is answered 200 with this notification, and changes nothing. -/
def AnswersAgain (cfg : ApiConfig) (s : Api) (rid : ℕ) (r : AppTokenRequest) (id : ℕ) : Prop :=
  ∃ t record body, s.replay cfg rid r = some t ∧ t.answers = record :: s.answers ∧
    record.answer = .notification 200 body ∧ body.id = id ∧ t.world = s.world

variable {rid : ℕ} {r : AppTokenRequest}

theorem replay_refused (hrid : s.processes rid = none) {answer : AppTokenAnswer}
    (h : r.begin cfg s.world.clock s.world.db s.templates s.paid = .error answer) :
    s.replay cfg rid r = some (s.answered rid { request := r, answer }) := by
  simp [replay, step, hrid, h, settle, answered]

/-- A request whose key is stored loses the race to the row, and goes on with it. -/
theorem replay_found (hrid : s.processes rid = none) {q : AcceptedRequest} {n : Notification}
    (h : r.begin cfg s.world.clock s.world.db s.templates s.paid = .ok q)
    (hkey : q.call.idempotencyKey ≠ "") (hn : q.call.find s.world.db.notifications = some n) :
    ∃ s' : Api, s'.world = s.world ∧ s'.answers = s.answers ∧
      s.replay cfg rid r = some (s'.afterCreation cfg rid q (.returned
        ⟨n, false, n.requestFingerprint != q.call.requestFingerprint⟩)) := by
  have hviolates : q.call.violates s.world.db = true := by
    simp [CreationCall.violates, hkey, hn]
  refine ⟨(((s.setProcess rid (some (.creating q .inserting))).setProcess rid
    (some (.creating q .reading))).setDb s.world.db).recorded q.call (.returned
      ⟨n, false, n.requestFingerprint != q.call.requestFingerprint⟩), rfl, rfl, ?_⟩
  simp [replay, step, hrid, h, settle, setProcess, advance, CreationCall.advance, hviolates, hkey,
    setDb, hn]

end Api

/-- The unique constraint makes a row with the application and the key of a call the one that the
call reads. -/
theorem Db.UniqueKeys.find_eq {db : Db} (h : db.UniqueKeys) {c : CreationCall}
    (hkey : c.idempotencyKey ≠ "") {n : Notification} (hn : n ∈ db.notifications.rows)
    (hmatch : c.matches_ n = true) : c.find db.notifications = some n := by
  cases hm : c.find db.notifications with
  | none =>
    have hfalse := CreationCall.find_eq_none hm n hn
    simp [hmatch] at hfalse
  | some m =>
    obtain ⟨hmmem, hmmatch⟩ := CreationCall.find_eq_some hm
    simp only [CreationCall.matches_, Bool.and_eq_true, beq_iff_eq] at hmatch hmmatch
    obtain rfl : m = n := h m hmmem n hn (hmmatch.1.trans hmatch.1.symm)
      (hmmatch.2.trans hmatch.2.symm) (hmmatch.2 ▸ hkey)
    rfl

/-- Two validations of one body agree when their calls have one fingerprint. -/
theorem AppTokenRequest.requestFingerprint_eq_iff {cfg : ApiConfig}
    (hsha : Function.Injective cfg.sha256) {r : AppTokenRequest} {v v' : ValidatedData}
    {templates templates' : Table NotificationTemplate} {now now' : Instant}
    (hv : r.payload.validate cfg.dates templates r.applicationId now = .ok v)
    (hv' : r.payload.validate cfg.dates templates' r.applicationId now' = .ok v') :
    (r.creation cfg v).requestFingerprint = (r.creation cfg v').requestFingerprint ↔ v' = v := by
  have hdates : v'.scheduledFor = v.scheduledFor :=
    (CreatePayload.scheduledFor_of_validate hv').1.trans
      (CreatePayload.scheduledFor_of_validate hv).1.symm
  refine (computeRequestFingerprint_eq_iff hsha cfg.dates.encode v v').trans ?_
  obtain ⟨title, message, scheduledFor⟩ := v
  obtain ⟨title', message', scheduledFor'⟩ := v'
  obtain rfl : scheduledFor' = scheduledFor := hdates
  simp [eq_comm]

/-- A call that found the row answers with it again exactly when the fingerprints agree. -/
theorem Api.afterCreation_found_iff {cfg : ApiConfig} {s s' : Api} {rid : ℕ} {r : AppTokenRequest}
    {q : AcceptedRequest} {n : Notification} (hworld : s'.world = s.world)
    (hanswers : s'.answers = s.answers)
    (hreplay : s.replay cfg rid r = some (s'.afterCreation cfg rid q (.returned
      ⟨n, false, n.requestFingerprint != q.call.requestFingerprint⟩))) :
    s.AnswersAgain cfg rid r n.id ↔ n.requestFingerprint = q.call.requestFingerprint := by
  rw [Api.AnswersAgain, hreplay]
  by_cases hequal : n.requestFingerprint = q.call.requestFingerprint
  · have hshown : s'.afterCreation cfg rid q (.returned
        ⟨n, false, n.requestFingerprint != q.call.requestFingerprint⟩) = _ :=
      (if_neg (by simpa using hequal)).trans (if_neg (by simp))
    rw [hshown]
    exact iff_of_true ⟨_, _, _, rfl, congrArg _ hanswers, rfl, rfl, hworld⟩ hequal
  · have hrefused : s'.afterCreation cfg rid q (.returned
        ⟨n, false, n.requestFingerprint != q.call.requestFingerprint⟩) = _ :=
      if_pos (by simpa using hequal)
    rw [hrefused]
    refine iff_of_false ?_ hequal
    rintro ⟨t, record, body, ht, hrecords, hanswer, -⟩
    obtain rfl := Option.some.inj ht
    obtain rfl := (List.cons.inj hrecords).1
    simp [idempotencyConflict] at hanswer

/-- A create request that was answered 201 is sent again, in any state reached in which the row
is still stored, the application is active and its owner's subscription is valid.  It is answered
200 with the same notification, and changes nothing, if and only if its date is still ahead and
its template still expands to the title and message of the first answer. -/
theorem replay_identical {cfg : ApiConfig} (hsha : Function.Injective cfg.sha256) {s₀ s : Api}
    (h0 : s₀.Idle) (hunique : s₀.world.db.UniqueKeys)
    (h : (api cfg).Reach (fun _ _ => True) s₀ s) {record : AnswerRecord}
    (hrecord : record ∈ s.answers) (hcreate : record.request.endpoint = .create)
    {body : NotificationRead} (hbody : record.answer = .notification 201 body)
    (hrow : (s.world.db.notifications.get? body.id).isSome) {a : Application}
    (ha : s.world.db.applications.get? record.request.applicationId = some a)
    (hactive : a.isActive = true) (hpaid : s.paid a.ownerId = true) {rid : ℕ}
    (hrid : s.processes rid = none) :
    s.AnswersAgain cfg rid record.request body.id ↔
      record.request.payload.StillValid cfg.dates s.templates record.request.applicationId
        s.world.clock body.title body.message := by
  have hs : s.Replayable cfg := System.Reach.invariant Api.replayable_preserved h
    ⟨hunique, by simp [h0.processes], by simp [h0.answers]⟩
  obtain ⟨v, ⟨⟨templates, now, hv⟩, hkey, hlength⟩, htitle, hmessage, hid, hrows⟩ :=
    hs.answers record hrecord hcreate body hbody
  obtain ⟨n, hn⟩ := Option.isSome_iff_exists.mp hrow
  obtain ⟨hmem, hnid⟩ := Table.get?_eq_some.mp hn
  obtain ⟨hmatch, hfingerprint⟩ := hrows n hmem hnid
  rw [htitle, hmessage, ← CreatePayload.validate_again hv]
  cases hv' : record.request.payload.validate cfg.dates s.templates record.request.applicationId
      s.world.clock with
  | error errors =>
    have hbegin : record.request.begin cfg s.world.clock s.world.db s.templates s.paid =
        .error (.invalid errors) := by
      simp [AppTokenRequest.begin, ha, hactive, hpaid, hv']
    constructor
    · rintro ⟨t, record', body', ht, hanswers, hanswer, -⟩
      rw [Api.replay_refused hrid hbegin] at ht
      obtain rfl := Option.some.inj ht
      obtain rfl := (List.cons.inj hanswers).1
      simp at hanswer
    · simp
  | ok v' =>
    have hbegin : record.request.begin cfg s.world.clock s.world.db s.templates s.paid =
        .ok ⟨record.request, a, record.request.creation cfg v'⟩ :=
      AppTokenRequest.begin_eq_ok.mpr ⟨a, v', ha, hactive, hpaid, hv', by simp [hcreate], hkey,
        hlength, rfl⟩
    have hfind : (record.request.creation cfg v').find s.world.db.notifications = some n :=
      hs.unique.find_eq hkey hmem hmatch
    obtain ⟨s', hworld, hanswers, hreplay⟩ := Api.replay_found hrid hbegin hkey hfind
    rw [← hnid, pk_notification, Api.afterCreation_found_iff hworld hanswers hreplay,
      hfingerprint,
      AppTokenRequest.requestFingerprint_eq_iff hsha hv hv', Except.ok.injEq]

/-! ### A sample -/

/-- The code and the notification of an answer that shows one. -/
def AnswerRecord.shown (record : AnswerRecord) : Option (ℕ × ℕ) :=
  match record.answer with
  | .notification httpStatus body => some (httpStatus, body.id)
  | _ => none

theorem AnswerRecord.shown_eq_some {record : AnswerRecord} {httpStatus id : ℕ}
    (h : record.shown = some (httpStatus, id)) :
    ∃ body, record.answer = .notification httpStatus body ∧ body.id = id := by
  unfold shown at h
  split at h
  · next body hbody =>
    obtain ⟨rfl, rfl⟩ := Prod.mk.inj (Option.some.inj h)
    exact ⟨body, hbody, rfl⟩
  · simp at h

namespace Sample

theorem quietApi_uniqueKeys : quietApi.world.db.UniqueKeys := by
  simp [Db.UniqueKeys, quietApi, Table.empty]

/-- The request was answered 201 with the first row, which is still there, and may be sent
again. -/
def answeredOnce (r : AppTokenRequest) (s : Api) : Bool :=
  decide (s.answers.map (fun record => (record.request, record.shown)) = [(r, some (201, 1))]) &&
    (s.world.db.notifications.get? 1).isSome &&
    decide (s.world.db.applications.get? 1 = some application) && s.paid 1 &&
    (s.processes 1).isNone

theorem answeredOnce_spec {r : AppTokenRequest} {s : Api} (h : answeredOnce r s = true) :
    (∃ record body, record ∈ s.answers ∧ record.request = r ∧
      record.answer = .notification 201 body ∧ body.id = 1) ∧
    (s.world.db.notifications.get? 1).isSome ∧
    s.world.db.applications.get? 1 = some application ∧ s.paid 1 = true ∧
    s.processes 1 = none := by
  simp only [answeredOnce, Bool.and_eq_true, decide_eq_true_eq, Option.isNone_iff_eq_none] at h
  obtain ⟨⟨⟨⟨hanswers, hrow⟩, happlication⟩, hpaid⟩, hidle⟩ := h
  obtain ⟨record, records, hcons, hhead, -⟩ := List.map_eq_cons_iff.mp hanswers
  obtain ⟨hrequest, hshown⟩ := Prod.mk.inj hhead
  obtain ⟨body, hbody, hid⟩ := AnswerRecord.shown_eq_some hshown
  exact ⟨⟨record, body, hcons ▸ List.mem_cons_self, hrequest, hbody, hid⟩, hrow, happlication,
    hpaid, hidle⟩

end Sample

/-- An unscheduled request is answered again while its notification is sent. -/
theorem sample_replay_identical : ∃ s : Api, s.answers ≠ [] ∧ s.AnswersAgain Sample.apiConfig 1
    (Sample.tokenRequest .create (Sample.payload none)) 1 := by
  obtain ⟨s, hreach, hs⟩ := System.exists_reach_of_guardedRun (api Sample.apiConfig)
    (fun _ _ => True) Sample.quietApi
    [.request 1 (Sample.tokenRequest .create (Sample.payload none)), .advance 1 {},
      .server (.tick 5), .server (.request 1 (.send (.user 1) [1])), .server (.advance 1 {}),
      .server (.advance 1 {})]
    (Sample.answeredOnce (Sample.tokenRequest .create (Sample.payload none))) (by decide)
  obtain ⟨⟨record, body, hrecord, hrequest, hbody, hid⟩, hrow, happlication, hpaid, hidle⟩ :=
    Sample.answeredOnce_spec hs
  have happlication : s.world.db.applications.get? record.request.applicationId =
      some Sample.application := by
    rw [hrequest]
    exact happlication
  have hreplay := replay_identical Sample.digest_injective ⟨rfl, rfl⟩
    Sample.quietApi_uniqueKeys hreach hrecord (by rw [hrequest]; rfl) hbody (hid ▸ hrow)
    happlication rfl hpaid hidle
  rw [hrequest, hid] at hreplay
  refine ⟨s, List.ne_nil_of_mem hrecord, hreplay.mpr ⟨?_, ?_⟩⟩
  · intro d hd
    simp [Sample.tokenRequest, Sample.payload] at hd
  · intro id h
    simp [Sample.tokenRequest, Sample.payload] at h

/-- After its date has passed the request is refused, and after an edit of its template it is a
conflict, although the row is stored and nothing else changed. -/
theorem replay_differs :
    (∃ s, (api Sample.apiConfig).Reach (fun _ _ => True) Sample.quietApi s ∧
      Sample.answeredOnce (Sample.tokenRequest .create
        (Sample.payload (some (some "2030-01-01T12:00:00Z")))) s = true ∧
      ¬s.AnswersAgain Sample.apiConfig 1 (Sample.tokenRequest .create
        (Sample.payload (some (some "2030-01-01T12:00:00Z")))) 1) ∧
    ∃ s, (api Sample.apiConfig).Reach (fun _ _ => True) Sample.quietApi s ∧
      Sample.answeredOnce (Sample.tokenRequest .create { templateId := some 1 }) s = true ∧
      ¬s.AnswersAgain Sample.apiConfig 1
        (Sample.tokenRequest .create { templateId := some 1 }) 1 := by
  have hdiffers : ∀ (s : Api) (r : AppTokenRequest),
      (s.replay Sample.apiConfig 1 r).all (fun t =>
        t.answers.head?.all fun record => decide (record.shown ≠ some (200, 1))) = true →
      ¬s.AnswersAgain Sample.apiConfig 1 r 1 := by
    rintro s r h ⟨t, record, body, ht, hanswers, hanswer, hid, -⟩
    simp [ht, hanswers, AnswerRecord.shown, hanswer, hid] at h
  constructor
  · obtain ⟨s, hreach, hs⟩ := System.exists_reach_of_guardedRun (api Sample.apiConfig)
      (fun _ _ => True) Sample.quietApi
      [.request 1 (Sample.tokenRequest .create
          (Sample.payload (some (some "2030-01-01T12:00:00Z")))), .advance 1 {},
        .server (.tick 1893499200000000)]
      (fun s => Sample.answeredOnce (Sample.tokenRequest .create
          (Sample.payload (some (some "2030-01-01T12:00:00Z")))) s &&
        (s.replay Sample.apiConfig 1 (Sample.tokenRequest .create
          (Sample.payload (some (some "2030-01-01T12:00:00Z"))))).all fun t =>
            t.answers.head?.all fun record => decide (record.shown ≠ some (200, 1))) (by decide)
    simp only [Bool.and_eq_true] at hs
    exact ⟨s, hreach, hs.1, hdiffers s _ hs.2⟩
  · obtain ⟨s, hreach, hs⟩ := System.exists_reach_of_guardedRun (api Sample.apiConfig)
      (fun _ _ => True) Sample.quietApi
      [.editTemplates (Sample.single ⟨1, 1, "", "Hello", "World"⟩),
        .request 1 (Sample.tokenRequest .create { templateId := some 1 }), .advance 1 {},
        .editTemplates (Sample.single ⟨1, 1, "", "Hello", "world"⟩)]
      (fun s => Sample.answeredOnce (Sample.tokenRequest .create { templateId := some 1 }) s &&
        (s.replay Sample.apiConfig 1 (Sample.tokenRequest .create { templateId := some 1 })).all
          fun t => t.answers.head?.all fun record => decide (record.shown ≠ some (200, 1)))
      (by decide)
    simp only [Bool.and_eq_true] at hs
    exact ⟨s, hreach, hs.1, hdiffers s _ hs.2⟩

end PushIT
