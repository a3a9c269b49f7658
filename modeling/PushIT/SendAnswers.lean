import PushIT.AppTokenSteps

/-!
# The answers of the app-token send endpoint

A send request creates its notification, queues it and answers with the instance it holds, whatever
became of the queueing; a replayed key is answered with the stored row.  An answer tells the truth
when a send task has been submitted for the notification it shows, and when the status it shows is
the stored one the queueing went by.

## Main definitions

* `AnswerRecord.Truthful`: the property of an answer.
* `Api.SendsThrough`: the updates of fresh notifications hit their rows and their tasks are
  submitted, and replayed keys belong to notifications that were handed over.

## Main results

* `send_answers_truthful`: every answer of such a run is truthful.
* `send_answers_untruthful`: an unreachable broker is answered 201, and the key of a draft 200.
-/

namespace PushIT

open Relational Transition

/-! ### The property -/

/-- A success of the send endpoint shows a notification that was handed over, with the stored
status the queueing went by. -/
def AnswerRecord.Truthful (record : AnswerRecord) : Prop :=
  ∀ httpStatus body, record.answer = .notification httpStatus body →
    record.request.endpoint = .send →
      record.handed = true ∧ record.decided = some body.status

/-- The next statement of the process meets no failure: the conditional update finds the row as
it was created, the task is submitted, and a row read again was handed over before. -/
def ApiProcess.sendsThrough (s : Api) (input : TaskInput) : ApiProcess → Bool
  | .creating q .reading =>
    q.request.endpoint != .send ||
      (q.call.find s.world.db.notifications).all fun n =>
        n.requestFingerprint != q.call.requestFingerprint || s.submitted.contains n.id
  | .queueing _ _ run _ =>
    match run.stage with
    | .updating id status =>
      !input.updateFails &&
        (s.world.db.notifications.get? id).any fun n => n.status == status.val
    | .submitting _ _ => input.brokerUp
    | _ => true
  | _ => true

/-- The condition on an action. -/
def Api.SendsThrough (s : Api) : ApiAction → Prop
  | .advance rid input => (s.processes rid).all (fun p => p.sendsThrough s input) = true
  | _ => True

instance (s : Api) (a : ApiAction) : Decidable (s.SendsThrough a) := by
  unfold Api.SendsThrough
  split <;> infer_instance

/-! ### The invariant -/

/-- The local state of a request that queues its fresh notification without a failure so far. -/
inductive Api.OnTrack (s : Api) (id : ℕ) : QueueRequest → Option NotificationStatus → Prop
  | fresh (n : Notification) (decided) (hid : n.id = id) (hstatus : n.status = .draft) :
      OnTrack s id (sendRun n) decided
  | updating (n : Notification) (status decided) (hid : n.id = id) :
      OnTrack s id { found := [⟨n, true⟩], todo := [], stage := .updating id status } decided
  | submitting (n : Notification) (status) (hid : n.id = id) :
      OnTrack s id
        { found := [⟨queueNotification n, true⟩], todo := [], stage := .submitting id status }
        (some .queued)
  | submitted (n : Notification) (results) (hid : n.id = id) (hsubmitted : id ∈ s.submitted) :
      OnTrack s id { found := [⟨queueNotification n, true⟩], todo := [], results }
        (some .queued)

/-- What holds of a process. -/
def ApiProcess.Sound (s : Api) : ApiProcess → Prop
  | .creating q _ => q.request.endpoint = .send → q.call.scheduledFor = none
  | .ingesting _ _ => True
  | .queueing _ id run decided => s.OnTrack id run decided

/-- Every answer so far is truthful, and every queueing is on track. -/
structure Api.Honest (s : Api) : Prop where
  answers : ∀ record ∈ s.answers, record.Truthful
  processes : ∀ rid p, s.processes rid = some p → p.Sound s

theorem Api.OnTrack.mono {s s' : Api} {id : ℕ} {run : QueueRequest}
    {decided : Option NotificationStatus} (h : s.OnTrack id run decided)
    (hsub : s.submitted ⊆ s'.submitted) : s'.OnTrack id run decided := by
  cases h with
  | fresh n decided hid hstatus => exact .fresh n decided hid hstatus
  | updating n status decided hid => exact .updating n status decided hid
  | submitting n status hid => exact .submitting n status hid
  | submitted n results hid h => exact .submitted n results hid (hsub h)

theorem ApiProcess.Sound.mono {s s' : Api} {p : ApiProcess} (h : p.Sound s)
    (hsub : s.submitted ⊆ s'.submitted) : p.Sound s' := by
  cases p with
  | queueing q id run decided => exact Api.OnTrack.mono h hsub
  | _ => exact h

namespace Api

variable {cfg : ApiConfig} {s s' : Api}

/-- A step of a queueing on track stays on track, or gives a truthful answer. -/
theorem OnTrack.step {id : ℕ} {run : QueueRequest} {decided : Option NotificationStatus}
    (h : s.OnTrack id run decided) (rid : ℕ) (q : AcceptedRequest) (input : TaskInput)
    (hok : (ApiProcess.queueing q id run decided).sendsThrough s input = true) :
    (∃ run' decided', (s.queueStep cfg rid q id run decided input).processes =
        s.processes.set rid (some (.queueing q id run' decided')) ∧
      (s.queueStep cfg rid q id run decided input).OnTrack id run' decided' ∧
      (s.queueStep cfg rid q id run decided input).answers = s.answers) ∨
    ∃ record : AnswerRecord, record.Truthful ∧
      (s.queueStep cfg rid q id run decided input).processes = s.processes.set rid none ∧
      (s.queueStep cfg rid q id run decided input).answers = record :: s.answers := by
  cases h with
  | fresh n decided hid hstatus =>
    have hcheck : queueCheck s.world.clock ⟨n, true⟩ = .ok ⟨.draft, by decide⟩ := by
      simp [queueCheck, hstatus, allowedNotificationStatusesToQueue]
    have hadvance : (sendRun n).advance s.world.clock s.world.db.notifications input =
        { sendRun n with todo := [], stage := .updating n.id ⟨.draft, by decide⟩ }.goto
          s.world.db.notifications := by
      simp [QueueRequest.advance, QueueRequest.lookup, sendRun, hcheck]
    left
    simp only [queueStep, hadvance, QueueRequest.goto]
    exact ⟨_, _, rfl, hid ▸ .updating n _ _ rfl, rfl⟩
  | updating n status decided hid =>
    simp only [ApiProcess.sendsThrough, Bool.and_eq_true, Bool.not_eq_true'] at hok
    obtain ⟨hinput, hrow⟩ := hok
    obtain ⟨m, hm, -⟩ := (Option.any_eq_true _ _).mp hrow
    have hstored : (s.world.db.notifications.modify id queueNotification
        pk_queueNotification).get? id = some (queueNotification m) := by
      refine (Table.get?_modify_self _ id queueNotification pk_queueNotification).trans ?_
      rw [hm]
      rfl
    have hadvance : QueueRequest.advance s.world.clock s.world.db.notifications input
        { found := [⟨n, true⟩], todo := [], stage := .updating id status } =
          QueueRequest.goto
            { found := [⟨queueNotification n, true⟩], todo := [], stage := .submitting id status }
            (s.world.db.notifications.modify id queueNotification pk_queueNotification) []
            [.queued id .client s.world.clock] := by
      simp [QueueRequest.advance, hinput, hrow, QueueRequest.markFound, hid]
    left
    simp only [queueStep, hadvance, QueueRequest.goto, decidedStatus, hstored]
    exact ⟨_, some .queued, rfl, .submitting n status hid, rfl⟩
  | submitting n status hid =>
    have hbroker : input.brokerUp = true := hok
    left
    simp only [queueStep, QueueRequest.advance, hbroker, if_true, QueueRequest.goto,
      QueueRequest.answered, decidedStatus]
    exact ⟨_, _, rfl, .submitted n _ hid (by simp [setProcess]), rfl⟩
  | submitted n results hid hsubmitted =>
    have hlookup : QueueRequest.lookup
        { found := [⟨queueNotification n, true⟩], todo := [], results } id =
          some ⟨queueNotification n, true⟩ := by
      have hfound : ((queueNotification n).id == id) = true := beq_iff_eq.mpr hid
      simp [QueueRequest.lookup, hfound]
    right
    simp only [queueStep, QueueRequest.advance, hlookup]
    refine ⟨_, ?_, rfl, rfl⟩
    intro httpStatus body hanswer _
    obtain ⟨-, rfl⟩ := AppTokenAnswer.notification.inj hanswer
    exact ⟨by simpa using hsubmitted, rfl⟩

/-- Whatever adds no answer and no process keeps what holds of those there are. -/
theorem Honest.set (hs : s.Honest) {rid : ℕ} {p : Option ApiProcess}
    (hanswers : ∀ record ∈ s'.answers, record ∈ s.answers ∨ record.Truthful)
    (hprocesses : s'.processes = s.processes.set rid p)
    (hsub : s.submitted ⊆ s'.submitted) (hp : ∀ x, p = some x → x.Sound s') : s'.Honest where
  answers record hrecord := (hanswers record hrecord).elim (hs.answers record) id
  processes i x hx := by
    rw [hprocesses] at hx
    rcases Pool.set_eq_some.mp hx with ⟨-, hx⟩ | ⟨-, hx⟩
    · exact hp x hx
    · exact (hs.processes i x hx).mono hsub

/-- The rest of a request after its creation. -/
theorem Honest.afterCreation {q : AcceptedRequest} {stage : CreationStage} {db : Db}
    {result : CreationResult} {rid : ℕ} {input : TaskInput} (hs : s.Honest)
    (hp : s.processes rid = some (.creating q stage))
    (h : q.call.Advances s.world.clock s.world.db stage ⟨db, .error result⟩)
    (hok : (ApiProcess.creating q stage).sendsThrough s input = true) :
    (((s.setDb db).recorded q.call result).afterCreation cfg rid q result).Honest := by
  have hsound : q.request.endpoint = .send → q.call.scheduledFor = none := hs.processes rid _ hp
  have hcases := afterCreation_cases cfg ((s.setDb db).recorded q.call result) rid q result
  generalize ((s.setDb db).recorded q.call result).afterCreation cfg rid q result = t at hcases ⊢
  cases hcases with
  | refused _ answer hanswer =>
    refine hs.set (p := none) (fun record hrecord => ?_) rfl (List.Subset.refl _) (by simp)
    rcases List.mem_cons.mp hrecord with rfl | hrecord
    · exact Or.inr fun httpStatus body heq _ => absurd heq (hanswer httpStatus body)
    · exact Or.inl hrecord
  | queues o hsend hcreated =>
    refine hs.set (fun record hrecord => Or.inl hrecord) rfl (List.Subset.refl _) fun x hx => ?_
    obtain rfl := Option.some.inj hx
    cases h with
    | inserted happlication hfree =>
      exact .fresh _ none rfl (by
        simp [CreationCall.newNotification, hsound hsend, buildStatusFromScheduledFor])
    | found n hn => simp at hcreated
  | shows o hconflict hquiet =>
    refine hs.set (p := none) (fun record hrecord => ?_) rfl (List.Subset.refl _) (by simp)
    rcases List.mem_cons.mp hrecord with rfl | hrecord
    · refine Or.inr fun httpStatus body hanswer hsend => ?_
      obtain ⟨-, rfl⟩ := AppTokenAnswer.notification.inj hanswer
      cases h with
      | inserted happlication hfree => simpa using hquiet hsend
      | found n hn =>
        have hsend : q.request.endpoint = .send := hsend
        have hconflict : (n.requestFingerprint != q.call.requestFingerprint) = false := hconflict
        simp only [ApiProcess.sendsThrough, hsend, bne_self_eq_false, Bool.false_or, hn,
          Option.all_some, hconflict] at hok
        exact ⟨hok, rfl⟩
    · exact Or.inl hrecord

/-- Every action that meets the condition keeps the answers truthful. -/
theorem honest_preserved : (api cfg).Preserves SendsThrough Honest := by
  intro s a t hs hok hstep
  cases step_cases hstep with
  | server a w hw =>
    exact ⟨hs.answers, fun i x hx =>
      (hs.processes i x hx).mono (List.subset_append_right _ _)⟩
  | editTemplates | subscribe => exact ⟨hs.answers, fun i x hx =>
      (hs.processes i x hx).mono (List.Subset.refl _)⟩
  | refused rid r answer hrid hbegin =>
    refine hs.set (p := none) (fun record hrecord => ?_) rfl (List.Subset.refl _) (by simp)
    rcases List.mem_cons.mp hrecord with rfl | hrecord
    · exact Or.inr fun httpStatus body heq _ =>
        absurd heq (AppTokenRequest.begin_error_ne hbegin httpStatus body)
    · exact Or.inl hrecord
  | accepted rid r q hrid hbegin =>
    refine hs.set (fun record hrecord => Or.inl hrecord) rfl (List.Subset.refl _) fun x hx => ?_
    obtain rfl := Option.some.inj hx
    obtain ⟨a, v, -, -, -, -, hsend, -, -, rfl⟩ := AppTokenRequest.begin_eq_ok.mp hbegin
    exact hsend
  | ingests rid c hrid =>
    refine hs.set (fun record hrecord => Or.inl hrecord) rfl (List.Subset.refl _) fun x hx => ?_
    obtain rfl := Option.some.inj hx
    trivial
  | proceeds rid input p c hp hc =>
    refine hs.set (fun record hrecord => Or.inl hrecord) rfl (List.Subset.refl _) fun x hx => ?_
    obtain rfl := Option.some.inj hx
    have hsound := hs.processes rid p hp
    cases p with
    | queueing => simp [ApiProcess.creation] at hc
    | _ => exact hsound
  | created rid input q stage db result hp hcall =>
    change (s.processes rid).all (fun p => p.sendsThrough s input) = true at hok
    rw [hp] at hok
    exact hs.afterCreation hp hcall hok
  | ingested rid input c stage db result hp hcall =>
    exact hs.set (p := none) (fun record hrecord => Or.inl hrecord) rfl (List.Subset.refl _)
      (by simp)
  | queueing rid input q id run decided hp =>
    change (s.processes rid).all (fun p => p.sendsThrough s input) = true at hok
    rw [hp] at hok
    have hsub : s.submitted ⊆ (s.queueStep cfg rid q id run decided input).submitted := by
      simp only [queueStep]
      split <;> exact List.subset_append_right _ _
    rcases OnTrack.step (hs.processes rid _ hp) rid q input hok with
      ⟨run', decided', hprocesses, htrack, hanswers⟩ | ⟨record, htruthful, hprocesses, hanswers⟩
    · refine hs.set (fun record hrecord => Or.inl (hanswers ▸ hrecord)) hprocesses hsub
        fun x hx => ?_
      obtain rfl := Option.some.inj hx
      exact htrack
    · refine hs.set (p := none) (fun r hr => ?_) hprocesses hsub (by simp)
      rw [hanswers] at hr
      rcases List.mem_cons.mp hr with rfl | hr
      · exact Or.inr htruthful
      · exact Or.inl hr

end Api

/-! ### Runs -/

/-- The record is a success of the send endpoint with this code, for a notification that was not
handed over. -/
def AnswerRecord.claimsSuccess (httpStatus : ℕ) (record : AnswerRecord) : Bool :=
  record.request.endpoint == .send && !record.handed &&
    match record.answer with
    | .notification status _ => status == httpStatus
    | _ => false

theorem AnswerRecord.not_truthful_of_claimsSuccess {httpStatus : ℕ} {record : AnswerRecord}
    (h : record.claimsSuccess httpStatus = true) : ¬record.Truthful := by
  intro htruthful
  simp only [claimsSuccess, Bool.and_eq_true, beq_iff_eq, Bool.not_eq_true'] at h
  obtain ⟨⟨hsend, hhanded⟩, hanswer⟩ := h
  split at hanswer
  · next status body hbody =>
    have := (htruthful status body hbody hsend).1
    simp [hhanded] at this
  · simp at hanswer

end PushIT
