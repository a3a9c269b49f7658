import PushIT.AppTokenSteps

/-!
# Idempotent creation is exactly once

Any number of calls of `create_notification_with_optional_idempotency` with one application and
one key, from the two endpoints and the mailbox reader, run between the steps of the whole server.
As long as nothing deletes the row or the application, one row carries the key, one call created
it, and every other call that ends found it: with the same fingerprint it returns the row, with
another one it reports a conflict.

## Main definitions

* `Api.KeepsKey`: nothing deletes the row or the application.
* `Api.KeyedOnce`: the invariant.

## Main results

* `creation_exactly_once`: the property in every state reached.
-/

namespace PushIT

open Relational Transition

/-- The row carries the key of an application. -/
def Notification.hasKey (applicationId : ℕ) (key : String) (n : Notification) : Bool :=
  n.applicationId == applicationId && n.idempotencyKey == key

/-- The call is for the key of an application. -/
def CreationCall.hasKey (applicationId : ℕ) (key : String) (c : CreationCall) : Bool :=
  c.applicationId == applicationId && c.idempotencyKey == key

/-- The call created its row. -/
def CreationResult.isCreated : CreationResult → Bool
  | .returned o => o.created
  | .raised => false

namespace Api

variable (cfg : ApiConfig) (applicationId : ℕ) (key : String)

/-- The action deletes neither the application nor a row with the key. -/
def KeepsKey (s : Api) (a : ApiAction) : Prop :=
  ((s.step cfg a).all fun t =>
    (t.world.db.applications.get? applicationId).isSome &&
      s.world.db.notifications.rows.all fun n =>
        !n.hasKey applicationId key ||
          t.world.db.notifications.rows.any fun m => m.id == n.id) = true

instance (s : Api) (a : ApiAction) : Decidable (KeepsKey cfg applicationId key s a) :=
  inferInstanceAs (Decidable (_ = true))

/-- The application is stored, and the key was never used. -/
structure Unused (s : Api) : Prop where
  application : (s.world.db.applications.get? applicationId).isSome
  rows : ∀ n ∈ s.world.db.notifications.rows, n.hasKey applicationId key = false
  outcomes : ∀ o ∈ s.outcomes, o.1.hasKey applicationId key = false
  processes : ∀ rid p c stage, s.processes rid = some p → p.creation = some (c, stage) →
    c.hasKey applicationId key = false

/-- The calls for the key that created a row. -/
def createdOutcomes (s : Api) : List (CreationCall × CreationResult) :=
  s.outcomes.filter fun o => o.1.hasKey applicationId key && o.2.isCreated

end Api

/-- What a call that ended reported, against the stored row. -/
def CreationCall.Verdict (c : CreationCall) (result : CreationResult) (n : Notification) : Prop :=
  ∃ o, result = .returned o ∧ o.notification.id = n.id ∧
    (o.conflict = true ↔ c.requestFingerprint ≠ n.requestFingerprint)

namespace Api

variable {cfg : ApiConfig} {applicationId : ℕ} {key : String}

/-- The key belongs to at most one row; whoever lost a race or ended has a row to find, and the
one call that created it is on record. -/
structure KeyedOnce (applicationId : ℕ) (key : String) (s : Api) : Prop where
  application : (s.world.db.applications.get? applicationId).isSome
  unique : ∀ n ∈ s.world.db.notifications.rows, ∀ m ∈ s.world.db.notifications.rows,
    n.hasKey applicationId key = true → m.hasKey applicationId key = true → n = m
  reading : ∀ rid p c, s.processes rid = some p → p.creation = some (c, .reading) →
    c.hasKey applicationId key = true →
      ∃ n ∈ s.world.db.notifications.rows, n.hasKey applicationId key = true
  ended : ∀ c result, (c, result) ∈ s.outcomes → c.hasKey applicationId key = true →
    ∃ n ∈ s.world.db.notifications.rows, n.hasKey applicationId key = true ∧ c.Verdict result n
  created : (∃ n ∈ s.world.db.notifications.rows, n.hasKey applicationId key = true) →
    (s.createdOutcomes applicationId key).length = 1

theorem Unused.keyedOnce {s : Api} (h : s.Unused applicationId key) :
    s.KeyedOnce applicationId key where
  application := h.application
  unique n hn m _ hkey := by simp [h.rows n hn] at hkey
  reading rid p c hp hc hkey := by simp [h.processes rid p c _ hp hc] at hkey
  ended c result ho hkey := by
    have := h.outcomes _ ho
    simp [hkey] at this
  created := by
    rintro ⟨n, hn, hkey⟩
    simp [h.rows n hn] at hkey

/-! ### Steps -/

theorem KeepsKey.application {s t : Api} {a : ApiAction} (h : s.KeepsKey cfg applicationId key a)
    (hs : s.step cfg a = some t) : (t.world.db.applications.get? applicationId).isSome := by
  simp only [KeepsKey, hs, Option.all_some, Bool.and_eq_true] at h
  exact h.1

theorem KeepsKey.row {s t : Api} {a : ApiAction} (h : s.KeepsKey cfg applicationId key a)
    (hs : s.step cfg a = some t) {n : Notification}
    (hn : n ∈ s.world.db.notifications.rows) (hkey : n.hasKey applicationId key = true) :
    ∃ m ∈ t.world.db.notifications.rows, m.id = n.id := by
  simp only [KeepsKey, hs, Option.all_some, Bool.and_eq_true, List.all_eq_true, Bool.or_eq_true,
    Bool.not_eq_true', List.any_eq_true, beq_iff_eq] at h
  rcases h.2 n hn with hfalse | hm
  · simp [hkey] at hfalse
  · exact hm

theorem hasKey_of_sameOrigin {n n' : Notification} (h : n.SameOrigin n') :
    n'.hasKey applicationId key = n.hasKey applicationId key := by
  simp only [Notification.hasKey, h.2.1, h.2.2.1]

theorem matches_of_hasKey {c : CreationCall} (hc : c.hasKey applicationId key = true)
    (n : Notification) : c.matches_ n = n.hasKey applicationId key := by
  simp only [CreationCall.hasKey, Bool.and_eq_true, beq_iff_eq] at hc
  simp only [CreationCall.matches_, Notification.hasKey, hc.1, hc.2]

/-- Actions that end no call keep the invariant. -/
theorem KeyedOnce.frame {s t : Api} {a : ApiAction} (hs : s.KeyedOnce applicationId key)
    (hkeyed : key ≠ "") (h : s.Steps cfg a t) (hstep : s.step cfg a = some t)
    (hok : s.KeepsKey cfg applicationId key a) (houtcomes : t.outcomes = s.outcomes)
    (hreading : ∀ rid p c, t.processes rid = some p → p.creation = some (c, .reading) →
      c.hasKey applicationId key = true →
        s.processes rid = some p ∨
          ∃ n ∈ s.world.db.notifications.rows, n.hasKey applicationId key = true) :
    t.KeyedOnce applicationId key := by
  -- a keyed row was there before, and a keyed row stays
  have hback : ∀ n' ∈ t.world.db.notifications.rows, n'.hasKey applicationId key = true →
      ∃ n ∈ s.world.db.notifications.rows, n.SameOrigin n' ∧
        n.hasKey applicationId key = true := by
    intro n' hn' hkey
    cases h.row hn' with
    | old n hn horigin => exact ⟨n, hn, horigin, by rwa [← hasKey_of_sameOrigin horigin]⟩
    | blank hid hblank => simp [Notification.hasKey, hblank, hkeyed.symm] at hkey
    | inserted c hc hfree hrecord => simp [houtcomes] at hrecord
  have hforth : ∀ n ∈ s.world.db.notifications.rows, n.hasKey applicationId key = true →
      ∃ n' ∈ t.world.db.notifications.rows, n.SameOrigin n' ∧
        n'.hasKey applicationId key = true := by
    intro n hn hkey
    obtain ⟨n', hn', hid⟩ := hok.row hstep hn hkey
    have hle := s.world.db.notifications.bounded n hn
    cases h.row hn' with
    | old m hm horigin =>
      obtain rfl : m = n := Table.eq_of_pk hm hn (horigin.1.symm.trans hid)
      exact ⟨n', hn', horigin, by rwa [hasKey_of_sameOrigin horigin]⟩
    | blank hnew hblank =>
      rw [pk_notification] at hle
      omega
    | inserted c hc hfree hrecord => simp [houtcomes] at hrecord
  refine ⟨hok.application hstep, ?_, ?_, ?_, ?_⟩
  · intro n' hn' m' hm' hkey hkey'
    obtain ⟨n, hn, hnorigin, hnkey⟩ := hback n' hn' hkey
    obtain ⟨m, hm, hmorigin, hmkey⟩ := hback m' hm' hkey'
    obtain rfl := hs.unique n hn m hm hnkey hmkey
    exact Table.eq_of_pk hn' hm' (hnorigin.1.trans hmorigin.1.symm)
  · intro rid p c hp hc hkey
    obtain ⟨n, hn, hnkey⟩ : ∃ n ∈ s.world.db.notifications.rows,
        n.hasKey applicationId key = true := by
      rcases hreading rid p c hp hc hkey with hold | hrow
      · exact hs.reading rid p c hold hc hkey
      · exact hrow
    obtain ⟨n', hn', -, hnkey'⟩ := hforth n hn hnkey
    exact ⟨n', hn', hnkey'⟩
  · intro c result ho hkey
    rw [houtcomes] at ho
    obtain ⟨n, hn, hnkey, o, hresult, hid, hconflict⟩ := hs.ended c result ho hkey
    obtain ⟨n', hn', horigin, hnkey'⟩ := hforth n hn hnkey
    exact ⟨n', hn', hnkey', o, hresult, hid.trans horigin.1.symm, by rw [hconflict, horigin.2.2.2]⟩
  · rintro ⟨n', hn', hkey⟩
    obtain ⟨n, hn, -, hnkey⟩ := hback n' hn' hkey
    rw [createdOutcomes, houtcomes]
    exact hs.created ⟨n, hn, hnkey⟩

/-- A call that ends without a new row keeps the invariant, if it found a row with its key. -/
theorem KeyedOnce.ended_without_row {s t : Api} (hs : s.KeyedOnce applicationId key)
    {c : CreationCall} {result : CreationResult} (hdb : t.world.db = s.world.db)
    (houtcomes : t.outcomes = (c, result) :: s.outcomes)
    (hprocesses : ∀ i x, t.processes i = some x → ∀ y, x.creation = some y →
      s.processes i = some x)
    (hverdict : c.hasKey applicationId key = true →
      (∃ n ∈ s.world.db.notifications.rows, n.hasKey applicationId key = true ∧
        c.Verdict result n) ∧ result.isCreated = false) : t.KeyedOnce applicationId key := by
  refine ⟨hdb ▸ hs.application, hdb ▸ hs.unique, ?_, ?_, ?_⟩
  · intro i x d hx hd hkey
    rw [hdb]
    exact hs.reading i x d (hprocesses i x hx _ hd) hd hkey
  · intro d r ho hkey
    rw [hdb]
    rw [houtcomes] at ho
    rcases List.mem_cons.mp ho with heq | ho
    · obtain ⟨rfl, rfl⟩ := Prod.mk.inj heq
      exact (hverdict hkey).1
    · exact hs.ended d r ho hkey
  · intro hrow
    rw [hdb] at hrow
    rw [createdOutcomes, houtcomes]
    by_cases hkey : c.hasKey applicationId key = true
    · rw [List.filter_cons_of_neg (by simp [(hverdict hkey).2])]
      exact hs.created hrow
    · rw [List.filter_cons_of_neg (by simp [hkey])]
      exact hs.created hrow

/-- The call that inserts the row with the key is the first one that ends. -/
theorem KeyedOnce.ended_with_keyed_row {s t : Api} (hs : s.KeyedOnce applicationId key)
    {c : CreationCall} {o : NotificationCreationOutcome} {n : Notification}
    (happlications : (t.world.db.applications.get? applicationId).isSome)
    (hmem : ∀ n', n' ∈ t.world.db.notifications.rows ↔
      n' ∈ s.world.db.notifications.rows ∨ n' = n)
    (houtcomes : t.outcomes = (c, .returned o) :: s.outcomes) (hcreated : o.created = true)
    (hkey : c.hasKey applicationId key = true) (hnkey : n.hasKey applicationId key = true)
    (hverdict : c.Verdict (.returned o) n)
    (hnone : ∀ n ∈ s.world.db.notifications.rows, n.hasKey applicationId key = false) :
    t.KeyedOnce applicationId key := by
  have hlast : ∀ n' ∈ t.world.db.notifications.rows, n'.hasKey applicationId key = true →
      n' = n := by
    intro n' hn' hn'key
    rcases (hmem n').mp hn' with hn | hnew
    · simp [hnone n' hn] at hn'key
    · exact hnew
  -- nothing carried the key, so no call for it ended before
  have hfirst : ∀ d r, (d, r) ∈ s.outcomes → d.hasKey applicationId key = false := by
    intro d r ho
    by_contra hdkey
    obtain ⟨m, hm, hmkey, -⟩ := hs.ended d r ho (by simpa using hdkey)
    simp [hnone m hm] at hmkey
  have hrow := (hmem n).mpr (Or.inr rfl)
  refine ⟨happlications, fun n₁ hn₁ n₂ hn₂ hkey₁ hkey₂ =>
    (hlast n₁ hn₁ hkey₁).trans (hlast n₂ hn₂ hkey₂).symm,
    fun _ _ _ _ _ _ => ⟨n, hrow, hnkey⟩, ?_, ?_⟩
  · intro d r ho hdkey
    rw [houtcomes] at ho
    rcases List.mem_cons.mp ho with heq | ho
    · obtain ⟨rfl, rfl⟩ := Prod.mk.inj heq
      exact ⟨n, hrow, hnkey, hverdict⟩
    · simp [hfirst d r ho] at hdkey
  · rintro -
    have hempty : s.createdOutcomes applicationId key = [] := by
      refine List.filter_eq_nil_iff.mpr fun x hx hxkey => ?_
      simp [hfirst x.1 x.2 hx] at hxkey
    rw [createdOutcomes] at hempty
    rw [createdOutcomes, houtcomes,
      List.filter_cons_of_pos (by simp [hkey, CreationResult.isCreated, hcreated]), hempty]
    rfl

/-- A call for another key inserts a row. -/
theorem KeyedOnce.ended_with_other_row {s t : Api} (hs : s.KeyedOnce applicationId key)
    {c : CreationCall} {result : CreationResult} {n : Notification}
    (happlications : (t.world.db.applications.get? applicationId).isSome)
    (hmem : ∀ n', n' ∈ t.world.db.notifications.rows ↔
      n' ∈ s.world.db.notifications.rows ∨ n' = n)
    (houtcomes : t.outcomes = (c, result) :: s.outcomes)
    (hprocesses : ∀ i x, t.processes i = some x → ∀ y, x.creation = some y →
      s.processes i = some x)
    (hkey : c.hasKey applicationId key = false) (hnkey : n.hasKey applicationId key = false) :
    t.KeyedOnce applicationId key := by
  have hold : ∀ n' ∈ t.world.db.notifications.rows, n'.hasKey applicationId key = true →
      n' ∈ s.world.db.notifications.rows := by
    intro n' hn' hn'key
    rcases (hmem n').mp hn' with hn | rfl
    · exact hn
    · simp [hnkey] at hn'key
  refine ⟨happlications, fun n₁ hn₁ n₂ hn₂ hkey₁ hkey₂ =>
    hs.unique n₁ (hold n₁ hn₁ hkey₁) n₂ (hold n₂ hn₂ hkey₂) hkey₁ hkey₂, ?_, ?_, ?_⟩
  · intro i x d hx hd hdkey
    obtain ⟨n', hn', hn'key⟩ := hs.reading i x d (hprocesses i x hx _ hd) hd hdkey
    exact ⟨n', (hmem n').mpr (Or.inl hn'), hn'key⟩
  · intro d r ho hdkey
    rw [houtcomes] at ho
    rcases List.mem_cons.mp ho with heq | ho
    · obtain ⟨rfl, rfl⟩ := Prod.mk.inj heq
      simp [hkey] at hdkey
    · obtain ⟨n', hn', hverdict⟩ := hs.ended d r ho hdkey
      exact ⟨n', (hmem n').mpr (Or.inl hn'), hverdict⟩
  · rintro ⟨n', hn', hn'key⟩
    rw [createdOutcomes, houtcomes, List.filter_cons_of_neg (by simp [hkey])]
    exact hs.created ⟨n', hold n' hn' hn'key, hn'key⟩

/-- The end of a call keeps the invariant. -/
theorem KeyedOnce.ended_call {s t : Api} (hs : s.KeyedOnce applicationId key) (hkeyed : key ≠ "")
    {rid : ℕ} {p : ApiProcess} {c : CreationCall} {stage : CreationStage} {db : Db}
    {result : CreationResult} (hp : s.processes rid = some p)
    (hc : p.creation = some (c, stage))
    (h : c.Advances s.world.clock s.world.db stage ⟨db, .error result⟩)
    (hdb : t.world.db = db) (houtcomes : t.outcomes = (c, result) :: s.outcomes)
    (hprocesses : ∀ i x, t.processes i = some x → ∀ y, x.creation = some y →
      s.processes i = some x) : t.KeyedOnce applicationId key := by
  cases h with
  | broken hblank hnone =>
    refine hs.ended_without_row hdb houtcomes hprocesses fun hkey => ?_
    simp [CreationCall.hasKey, hblank, hkeyed.symm] at hkey
  | missing hnone =>
    refine hs.ended_without_row hdb houtcomes hprocesses fun hkey => ?_
    obtain ⟨n, hn, hnkey⟩ := hs.reading rid p c hp hc hkey
    have hfalse := hnone n hn
    rw [matches_of_hasKey hkey, hnkey] at hfalse
    simp at hfalse
  | found n hfind =>
    obtain ⟨hn, hmatch⟩ := CreationCall.find_eq_some hfind
    refine hs.ended_without_row hdb houtcomes hprocesses fun hkey =>
      ⟨⟨n, hn, ?_, _, rfl, rfl, ?_⟩, rfl⟩
    · rwa [← matches_of_hasKey hkey]
    · rw [bne_iff_ne]
      exact ne_comm
  | inserted happlication hfree =>
    have hmem : ∀ n', n' ∈ t.world.db.notifications.rows ↔ n' ∈ s.world.db.notifications.rows ∨
        n' = c.newNotification s.world.clock (s.world.db.notifications.seq + 1) := fun n' => by
      rw [hdb]
      exact CreationCall.mem_insert
    have happlications : (t.world.db.applications.get? applicationId).isSome := by
      rw [hdb]
      exact hs.application
    cases hkey : c.hasKey applicationId key with
    | true =>
      refine hs.ended_with_keyed_row happlications hmem houtcomes rfl hkey hkey
        ⟨_, rfl, rfl, by simp [CreationCall.newNotification]⟩ fun n hn => ?_
      rw [← matches_of_hasKey hkey]
      refine hfree.resolve_left (fun hblank => ?_) n hn
      simp [CreationCall.hasKey, hblank, hkeyed.symm] at hkey
    | false => exact hs.ended_with_other_row happlications hmem houtcomes hprocesses hkey hkey

/-- Every action keeps the invariant. -/
theorem keyedOnce_preserved (hkeyed : key ≠ "") :
    (api cfg).Preserves (KeepsKey cfg applicationId key) (KeyedOnce applicationId key) := by
  intro s a t hs hok hstep
  have h := step_cases hstep
  cases h with
  | proceeds rid input p c hp hc hkey hlost =>
    refine hs.frame hkeyed (.proceeds rid input p c hp hc hkey hlost) hstep hok rfl
      fun i x d hx hd hdkey => ?_
    rcases Pool.set_eq_some.mp hx with ⟨-, hx⟩ | ⟨-, hx⟩
    · obtain rfl := Option.some.inj hx
      obtain rfl : d = c :=
        congrArg Prod.fst (Option.some.inj (hd.symm.trans (ApiProcess.creation_looksAgain hc)))
      have happlication : d.applicationId = applicationId := by
        simp only [CreationCall.hasKey, Bool.and_eq_true, beq_iff_eq] at hdkey
        exact hdkey.1
      obtain ⟨n, hn, hmatch⟩ := hlost (happlication ▸ hs.application)
      exact Or.inr ⟨n, hn, by rwa [← matches_of_hasKey hdkey]⟩
    · exact Or.inl hx
  | created rid input q stage db result hp hcall =>
    obtain ⟨hworld, houtcomes, -, p', hprocesses, hp'⟩ :=
      afterCreation_frame cfg ((s.setDb db).recorded q.call result) rid q result
    refine hs.ended_call hkeyed hp rfl hcall (congrArg World.db hworld) houtcomes
      fun i x hx y hy => ?_
    rw [hprocesses] at hx
    rcases Pool.set_eq_some.mp hx with ⟨-, hx⟩ | ⟨-, hx⟩
    · simp [hp' x hx] at hy
    · exact hx
  | ingested rid input c stage db result hp hcall =>
    refine hs.ended_call hkeyed hp rfl hcall rfl rfl fun i x hx y hy => ?_
    rcases Pool.set_eq_some.mp hx with ⟨-, hx⟩ | ⟨-, hx⟩
    · simp at hx
    · exact hx
  | queueing rid input q id run decided hp =>
    obtain ⟨-, houtcomes, p', hprocesses, hp'⟩ :=
      queueStep_frame cfg s rid q id run decided input
    refine hs.frame hkeyed (.queueing rid input q id run decided hp) hstep hok houtcomes
      fun i x d hx hd _ => ?_
    rw [hprocesses] at hx
    rcases Pool.set_eq_some.mp hx with ⟨-, hx⟩ | ⟨-, hx⟩
    · simp [hp' x hx] at hd
    · exact Or.inl hx
  | server a w hw =>
    exact hs.frame hkeyed (.server a w hw) hstep hok rfl fun _ _ _ hx _ _ => Or.inl hx
  | editTemplates templates =>
    exact hs.frame hkeyed (.editTemplates templates) hstep hok rfl fun _ _ _ hx _ _ => Or.inl hx
  | subscribe user paid =>
    exact hs.frame hkeyed (.subscribe user paid) hstep hok rfl fun _ _ _ hx _ _ => Or.inl hx
  | refused rid r answer hrid hbegin =>
    refine hs.frame hkeyed (.refused rid r answer hrid hbegin) hstep hok rfl
      fun i x d hx _ _ => ?_
    rcases Pool.set_eq_some.mp hx with ⟨-, hx⟩ | ⟨-, hx⟩
    · simp at hx
    · exact Or.inl hx
  | accepted rid r q hrid hbegin =>
    refine hs.frame hkeyed (.accepted rid r q hrid hbegin) hstep hok rfl
      fun i x d hx hd _ => ?_
    rcases Pool.set_eq_some.mp hx with ⟨-, hx⟩ | ⟨-, hx⟩
    · obtain rfl := Option.some.inj hx
      simp [ApiProcess.creation] at hd
    · exact Or.inl hx
  | ingests rid c hrid =>
    refine hs.frame hkeyed (.ingests rid c hrid) hstep hok rfl fun i x d hx hd _ => ?_
    rcases Pool.set_eq_some.mp hx with ⟨-, hx⟩ | ⟨-, hx⟩
    · obtain rfl := Option.some.inj hx
      simp [ApiProcess.creation] at hd
    · exact Or.inl hx

end Api

/-! ### Runs -/

/-- What the next statement of a call can do: insert the row, as the call that created it; find
the row, and leave the tables as they are; or lose the race, and look again. -/
inductive Api.CallProgress (s t : Api) (c : CreationCall) : CreationStage → Prop
  | created (o : NotificationCreationOutcome) (hcreated : o.created = true)
      (h : t.outcomes = (c, .returned o) :: s.outcomes) : CallProgress s t c .inserting
  | found (o : NotificationCreationOutcome) (hcreated : o.created = false)
      (h : t.outcomes = (c, .returned o) :: s.outcomes) (hdb : t.world.db = s.world.db) :
      CallProgress s t c .reading
  | lost (rid : ℕ) (p : ApiProcess) (hp : t.processes rid = some p)
      (hc : p.creation = some (c, .reading)) (houtcomes : t.outcomes = s.outcomes)
      (hdb : t.world.db = s.world.db) : CallProgress s t c .inserting

/-- From a state where the key was never used, in every run of the server and its calls in which
neither the application nor a row with the key is deleted: one row at most carries the key; every
call for the key that ended found it stored, and reports a conflict exactly when the fingerprints
differ; once one ended, exactly one of them created the row; and every call under way inserts the
row, or changes nothing. -/
theorem creation_exactly_once {cfg : ApiConfig} {applicationId : ℕ} {key : String}
    (hkey : key ≠ "") {s t : Api} (h0 : s.Unused applicationId key)
    (h : (api cfg).Reach (Api.KeepsKey cfg applicationId key) s t) :
    (∀ n ∈ t.world.db.notifications.rows, ∀ m ∈ t.world.db.notifications.rows,
      n.hasKey applicationId key = true → m.hasKey applicationId key = true → n = m) ∧
    (∀ c result, (c, result) ∈ t.outcomes → c.hasKey applicationId key = true →
      (∃ n ∈ t.world.db.notifications.rows, n.hasKey applicationId key = true ∧
        c.Verdict result n) ∧ (t.createdOutcomes applicationId key).length = 1) ∧
    ∀ rid p c stage, t.processes rid = some p → p.creation = some (c, stage) →
      c.hasKey applicationId key = true → ∀ input, ∃ t', t.step cfg (.advance rid input) = some t' ∧
        t.CallProgress t' c stage := by
  have hinv := System.Reach.invariant (Api.keyedOnce_preserved hkey) h h0.keyedOnce
  refine ⟨hinv.unique, fun c result ho hc => ?_, fun rid p c stage hp hc hckey input => ?_⟩
  · obtain ⟨n, hn, hnkey, hverdict⟩ := hinv.ended c result ho hc
    exact ⟨⟨n, hn, hnkey, hverdict⟩, hinv.created ⟨n, hn, hnkey⟩⟩
  · obtain ⟨t', ht'⟩ : ∃ t', t.step cfg (.advance rid input) = some t' := by
      simp [Api.step, hp]
    refine ⟨t', ht', ?_⟩
    have hended : ∀ (db : Db) (result : CreationResult),
        c.Advances t.world.clock t.world.db stage ⟨db, .error result⟩ →
        t'.world.db = db → t'.outcomes = (c, result) :: t.outcomes → t.CallProgress t' c stage := by
      intro db result hcall hdb houtcomes
      cases hcall with
      | inserted => exact .created _ rfl houtcomes
      | broken hblank =>
        simp only [CreationCall.hasKey, Bool.and_eq_true, beq_iff_eq] at hckey
        exact absurd (hckey.2.symm.trans hblank) hkey
      | missing hnone =>
        obtain ⟨n, hn, hnkey⟩ := hinv.reading rid p c hp hc hckey
        have hfalse := hnone n hn
        rw [Api.matches_of_hasKey hckey, hnkey] at hfalse
        simp at hfalse
      | found => exact .found _ rfl houtcomes hdb
    cases Api.step_cases ht' with
    | proceeds _ _ q d hq hd =>
      obtain rfl := Option.some.inj (hp.symm.trans hq)
      obtain ⟨rfl, rfl⟩ := Prod.mk.inj (Option.some.inj (hc.symm.trans hd))
      exact .lost rid _ (Pool.set_self _ _ _) (ApiProcess.creation_looksAgain hc) rfl rfl
    | created _ _ q stage' db result hq hcall =>
      obtain rfl := Option.some.inj (hp.symm.trans hq)
      obtain ⟨rfl, rfl⟩ := Prod.mk.inj (Option.some.inj hc)
      obtain ⟨hworld, houtcomes, -⟩ :=
        Api.afterCreation_frame cfg ((t.setDb db).recorded q.call result) rid q result
      exact hended db result hcall (congrArg World.db hworld) houtcomes
    | ingested _ _ d stage' db result hq hcall =>
      obtain rfl := Option.some.inj (hp.symm.trans hq)
      obtain ⟨rfl, rfl⟩ := Prod.mk.inj (Option.some.inj hc)
      exact hended db result hcall rfl rfl
    | queueing _ _ q id run decided hq =>
      obtain rfl := Option.some.inj (hp.symm.trans hq)
      simp [ApiProcess.creation] at hc

namespace Sample

/-- A call with the key `k`. -/
def call (requestFingerprint : String) : CreationCall :=
  { applicationId := 1, title := "t", message := "m", idempotencyKey := "k", requestFingerprint }

theorem quietApi_unused : quietApi.Unused 1 "k" :=
  ⟨rfl, by simp [quietApi, Table.empty], by simp [quietApi], by simp [quietApi]⟩

end Sample

/-- Three calls race with one key: the first creates the row, the second finds it, and the third
reports a conflict. -/
theorem sample_creation_exactly_once : ∃ t,
    (api Sample.apiConfig).Reach (Api.KeepsKey Sample.apiConfig 1 "k") Sample.quietApi t ∧
    t.outcomes.length = 3 ∧ (t.createdOutcomes 1 "k").length = 1 := by
  obtain ⟨t, hreach, ht⟩ := System.exists_reach_of_guardedRun (api Sample.apiConfig)
    (Api.KeepsKey Sample.apiConfig 1 "k") Sample.quietApi
    [.ingest 1 (Sample.call "f"), .ingest 2 (Sample.call "f"), .ingest 3 (Sample.call "g"),
      .advance 2 {}, .advance 1 {}, .advance 3 {}, .advance 3 {}, .advance 1 {}]
    (fun t => decide (t.outcomes.length = 3 ∧ ∃ o ∈ t.outcomes, o.1.hasKey 1 "k" = true))
    (by decide)
  obtain ⟨hlength, ⟨c, result⟩, ho, hc⟩ := of_decide_eq_true ht
  exact ⟨t, hreach, hlength,
    ((creation_exactly_once (by decide) Sample.quietApi_unused hreach).2.1 c result ho hc).2⟩

end PushIT
