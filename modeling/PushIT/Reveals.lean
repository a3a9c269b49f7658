import PushIT.SendTokens

/-!
# What the owner of a send token can rely on

Along every run of the requests of `PushIT.SendTokens`: a token opens sends as long as it is not
revoked and its application is active, whatever happened to the keys; its copy shows the token it
was made from, or nothing; each reveal has its line in the journal; and a revocation that was
answered is final.

## Main definitions

* `SendTokenDesk.Unused`: the state before the first token.
* `SendTokenDesk.Kept`: what an action other than a creation leaves of the tokens.
* `SendTokenDesk.Accounted`, `SendTokenDesk.Closed`, `SendTokenDesk.Shown`,
  `SendTokenDesk.Journalled`: the invariants.

## Main results

* `issued_tokens_serve`: what an issued token does.
* `reveals_journalled`: what was revealed, and the journal of it.
* `revoked_tokens_stay_closed`: what a revoked token does no more.
-/

namespace PushIT

open Relational Transition

/-! ### The history -/

/-- A reveal of the token, as the journal shows it. -/
def TokenEvent.shown {Key : Type} (id : ℕ) : TokenEvent Key → Option (String × Instant)
  | .revealed tokenId _ label _ at_ => if tokenId = id then some (label, at_) else none
  | _ => none

/-- A creation. -/
def TokenEvent.isIssue {Key : Type} : TokenEvent Key → Bool
  | .issued _ _ _ => true
  | _ => false

namespace SendTokenDesk

variable {Key : Type} {django : Django} {sha256 : ByteArray → String} {F : Fernet Key}
  {s t : SendTokenDesk Key}

/-- What the history says was revealed of a token, oldest first. -/
def shownOf (s : SendTokenDesk Key) (id : ℕ) : List (String × Instant) :=
  s.history.reverse.filterMap (TokenEvent.shown id)

/-- What the journal says was revealed of a token, oldest first. -/
def journalOf (s : SendTokenDesk Key) (id : ℕ) : List (String × Instant) :=
  (s.reveals.select fun r => r.tokenId == id).map fun r => (r.actorLabel, r.createdAt)

/-- No token was created and no request is running. -/
structure Unused (s : SendTokenDesk Key) : Prop where
  tokens : s.tokens = .empty
  reveals : s.reveals = .empty
  processes : s.processes = .idle
  history : s.history = []

/-! ### What becomes of the tokens -/

/-- Tokens are deleted, revoked or used. -/
structure Kept (T T' : Table StoredSendToken) : Prop where
  seq : T'.seq = T.seq
  rows : ∀ t' ∈ T'.rows, ∃ t ∈ T.rows, t.id = t'.id ∧ t.tokenHash = t'.tokenHash ∧
    t.secretEncrypted = t'.secretEncrypted ∧ (t.revokedAt.isSome → t'.revokedAt.isSome)

theorem Kept.refl (T : Table StoredSendToken) : Kept T T :=
  ⟨rfl, fun t ht => ⟨t, ht, rfl, rfl, rfl, fun h => h⟩⟩

theorem kept_delete (T : Table StoredSendToken) (p : StoredSendToken → Bool) :
    Kept T (T.delete p) :=
  ⟨rfl, fun t ht => ⟨t, (Table.mem_delete.mp ht).1, rfl, rfl, rfl, fun h => h⟩⟩

theorem kept_modify (T : Table StoredSendToken) (id : ℕ) (f : StoredSendToken → StoredSendToken)
    (hf : ∀ t, pk (f t) = pk t)
    (hkeeps : ∀ t, (f t).tokenHash = t.tokenHash ∧ (f t).secretEncrypted = t.secretEncrypted ∧
      (t.revokedAt.isSome → (f t).revokedAt.isSome)) : Kept T (T.modify id f hf) := by
  refine ⟨rfl, fun t' ht' => ?_⟩
  obtain ⟨t, ht, rfl⟩ := Table.mem_modify.mp ht'
  refine ⟨t, ht, ?_⟩
  split
  · obtain ⟨hhash, hsecret, hrevoked⟩ := hkeeps t
    exact ⟨(hf t).symm, hhash.symm, hsecret.symm, hrevoked⟩
  · exact ⟨rfl, rfl, rfl, fun h => h⟩

/-- An action creates a token, or keeps the tokens and answers no creation. -/
theorem Steps.kept_or_issued {a : TokenAction} (h : Steps sha256 F s a t) :
    (Kept s.tokens t.tokens ∧
      (t.history = s.history ∨ ∃ e, e.isIssue = false ∧ t.history = e :: s.history)) ∨
    ∃ (rid : ℕ) (input : TokenInput) (applicationId : ℕ) (name : String) (blob : List UInt8),
      encrypt F s.keys input.entropy input.raw.raw = .ok blob ∧
      (∀ x ∈ s.tokens.rows, x.tokenHash ≠ hashRaw sha256 input.raw.raw) ∧
      t = { s.answered rid
              (.issued (s.tokens.seq + 1) input.raw.raw (firstKey F s.keys)) with
            tokens := s.tokens.insert
              (issuedToken sha256 s.clock applicationId name input.raw.raw blob)
              (pk_issuedToken sha256 s.clock applicationId name input.raw.raw blob) } := by
  cases h with
  | issued rid input id name blob hrid hblob happlication hhash =>
    exact Or.inr ⟨rid, input, id, name, blob, hblob, hhash, rfl⟩
  | tick | configure | putUser | putApplication | began | admitted | read =>
    exact Or.inl ⟨.refl s.tokens, Or.inl rfl⟩
  | deleteUser | deleteApplication => exact Or.inl ⟨kept_delete _ _, Or.inl rfl⟩
  | refused a rid event ha hevent =>
    refine Or.inl ⟨.refl s.tokens, Or.inr ⟨event, ?_, rfl⟩⟩
    cases event <;> first | rfl | simp [TokenEvent.isRefusal] at hevent
  | alreadyRevoked rid r x =>
    exact Or.inl ⟨.refl s.tokens, Or.inr ⟨.revoked x.id, rfl, rfl⟩⟩
  | opened rid raw x => exact Or.inl ⟨.refl s.tokens, Or.inr ⟨.opened x.id raw, rfl, rfl⟩⟩
  | dropped => exact Or.inl ⟨.refl s.tokens, Or.inr ⟨.raised, rfl, rfl⟩⟩
  | journalled => exact Or.inl ⟨.refl s.tokens, Or.inr ⟨_, rfl, rfl⟩⟩
  | revoked =>
    refine Or.inl ⟨kept_modify _ _ _ (pk_revokeToken s.clock) fun x => ?_, Or.inr ⟨_, ?_, rfl⟩⟩
    · exact ⟨rfl, rfl, fun _ => rfl⟩
    · rfl
  | stamped =>
    refine Or.inl ⟨kept_modify _ _ _ (pk_stampToken s.clock) fun x => ?_, Or.inl rfl⟩
    exact ⟨rfl, rfl, fun h => h⟩

/-- Nothing is taken back. -/
theorem Steps.history_subset {a : TokenAction} (h : Steps sha256 F s a t) :
    s.history ⊆ t.history := by
  rcases h.kept_or_issued with ⟨-, heq | ⟨e, -, heq⟩⟩ | ⟨rid, input, id, name, blob, -, -, rfl⟩
  · rw [heq]
    exact fun _ he => he
  · rw [heq]
    exact fun _ he => List.mem_cons_of_mem e he
  · exact fun _ he => List.mem_cons_of_mem _ he

/-! ### Accounts of the creations -/

/-- Each token is the one a creation answered with. -/
structure Accounted (sha256 : ByteArray → String) (F : Fernet Key) (s : SendTokenDesk Key) :
    Prop where
  rows : ∀ x ∈ s.tokens.rows, ∃ raw key?, .issued x.id raw key? ∈ s.history ∧
    x.tokenHash = hashRaw sha256 raw ∧ Sealed F key? raw x.secretEncrypted
  prefixed : ∀ id raw key?, .issued id raw key? ∈ s.history → startsWith "apt_" raw = true
  unique : s.tokens.Unique (fun _ => True) fun x => x.tokenHash
  numbered : ∀ id raw key?, .issued id raw key? ∈ s.history → id ≤ s.tokens.seq
  once : ∀ id raw key? raw' key?', .issued id raw key? ∈ s.history →
    .issued id raw' key?' ∈ s.history → raw = raw' ∧ key? = key?'

theorem mem_issued {T : Table StoredSendToken} {now : Instant} {applicationId : ℕ}
    {name raw : String} {blob : List UInt8} {x : StoredSendToken} :
    x ∈ (T.insert (issuedToken sha256 now applicationId name raw blob)
        (pk_issuedToken sha256 now applicationId name raw blob)).rows ↔
      x ∈ T.rows ∨ x = issuedToken sha256 now applicationId name raw blob (T.seq + 1) :=
  Table.mem_insert

/-- A state with the tokens kept and no new creation. -/
theorem Accounted.of_kept (h : Accounted sha256 F s) (hkept : Kept s.tokens t.tokens)
    (hissued : ∀ id raw key?, .issued id raw key? ∈ t.history ↔ .issued id raw key? ∈ s.history) :
    Accounted sha256 F t := by
  refine ⟨fun x' hx' => ?_, fun id raw key? he => ?_, ?_, fun id raw key? he => ?_,
    fun id raw key? raw' key?' he he' => ?_⟩
  · obtain ⟨x, hx, hid, hhash, hsecret, -⟩ := hkept.rows x' hx'
    obtain ⟨raw, key?, he, hraw, hsealed⟩ := h.rows x hx
    exact ⟨raw, key?, hid ▸ (hissued _ _ _).mpr he, hhash ▸ hraw, hsecret ▸ hsealed⟩
  · exact h.prefixed id raw key? ((hissued _ _ _).mp he)
  · refine h.unique.of_origin fun x' hx' _ => Or.inl ?_
    obtain ⟨x, hx, hid, hhash, -, -⟩ := hkept.rows x' hx'
    exact ⟨x, hx, hid, trivial, hhash⟩
  · exact hkept.seq ▸ h.numbered id raw key? ((hissued _ _ _).mp he)
  · exact h.once id raw key? raw' key?' ((hissued _ _ _).mp he) ((hissued _ _ _).mp he')

theorem accounted_preserves :
    (sendTokenDesk django sha256 F).Preserves (fun _ _ => True) (Accounted sha256 F) := by
  intro s a t h _ hstep
  rcases (step_cases hstep).kept_or_issued with ⟨hkept, heq | ⟨e, he, heq⟩⟩ |
    ⟨rid, input, applicationId, name, blob, hblob, hfree, rfl⟩
  · exact h.of_kept hkept fun id raw key? => by rw [heq]
  · refine h.of_kept hkept fun id raw key? => ?_
    rw [heq, List.mem_cons, or_iff_right]
    rintro rfl
    simp [TokenEvent.isIssue] at he
  · -- the new token has the next number, and a hash that no token has
    have hnumber : ∀ raw key?, .issued (s.tokens.seq + 1) raw key? ∉ s.history := by
      intro raw key? he
      have hle := h.numbered _ _ _ he
      omega
    refine ⟨fun x hx => ?_, fun id raw key? he => ?_, ?_, fun id raw key? he => ?_,
      fun id raw key? raw' key?' he he' => ?_⟩
    · rcases mem_issued.mp hx with hx | rfl
      · obtain ⟨raw, key?, he, hx⟩ := h.rows x hx
        exact ⟨raw, key?, List.mem_cons_of_mem _ he, hx⟩
      · exact ⟨_, _, List.mem_cons_self, rfl, sealed_of_encrypt hblob⟩
    · rcases List.mem_cons.mp he with heq | he
      · cases heq
        exact startsWith_ofList "apt_" input.raw.letters
      · exact h.prefixed id raw key? he
    · exact h.unique.insert (pk_issuedToken _ _ _ _ _ _) fun _ x hx _ => hfree x hx
    · rcases List.mem_cons.mp he with heq | he
      · cases heq
        exact le_rfl
      · exact (h.numbered id raw key? he).trans (Nat.le_succ _)
    · rcases List.mem_cons.mp he with heq | he
      · cases heq
        rcases List.mem_cons.mp he' with heq' | he'
        · cases heq'
          exact ⟨rfl, rfl⟩
        · exact absurd he' (hnumber _ _)
      · rcases List.mem_cons.mp he' with heq' | he'
        · cases heq'
          exact absurd he (hnumber _ _)
        · exact h.once id raw key? raw' key?' he he'

theorem Unused.accounted (h : s.Unused) : Accounted sha256 F s := by
  refine ⟨?_, ?_, ?_, ?_, ?_⟩
  · simp [h.tokens]
  · simp [h.history]
  · simp [h.tokens, Table.Unique]
  · simp [h.history]
  · simp [h.history]

/-! ### Revocations -/

theorem mem_revoked {T : Table StoredSendToken} {id : ℕ} {now : Instant} {y : StoredSendToken} :
    y ∈ (T.modify id (revokeToken now) (pk_revokeToken now)).rows ↔
      ∃ x ∈ T.rows, y = if pk x = id then revokeToken now x else x :=
  Table.mem_modify

/-- A token whose revocation was answered is revoked, or gone. -/
def Closed (s : SendTokenDesk Key) : Prop :=
  ∀ id, .revoked id ∈ s.history → id ≤ s.tokens.seq ∧
    ∀ x ∈ s.tokens.rows, x.id = id → x.revokedAt.isSome

theorem Closed.of_kept (h : s.Closed) (hkept : Kept s.tokens t.tokens) {id : ℕ}
    (he : .revoked id ∈ s.history) :
    id ≤ t.tokens.seq ∧ ∀ x ∈ t.tokens.rows, x.id = id → x.revokedAt.isSome := by
  obtain ⟨hle, hrows⟩ := h id he
  refine ⟨hkept.seq ▸ hle, fun x' hx' hid' => ?_⟩
  obtain ⟨x, hx, hid, -, -, hrevoked⟩ := hkept.rows x' hx'
  exact hrevoked (hrows x hx (hid.trans hid'))

theorem closed_preserves :
    (sendTokenDesk django sha256 F).Preserves (fun _ _ => True) Closed := by
  intro s a t h _ hstep id he
  have hsteps := step_cases hstep
  by_cases hold : .revoked id ∈ s.history
  · rcases hsteps.kept_or_issued with ⟨hkept, -⟩ | ⟨rid, input, b, name, blob, -, -, rfl⟩
    · exact h.of_kept hkept hold
    · obtain ⟨hle, hrows⟩ := h id hold
      refine ⟨hle.trans (Nat.le_succ _), fun x hx hid => ?_⟩
      rcases mem_issued.mp hx with hx | rfl
      · exact hrows x hx hid
      · change s.tokens.seq + 1 = id at hid
        omega
  · -- the revocation is answered by this action
    cases hsteps with
    | tick | configure | putUser | putApplication | began | admitted | read | deleteUser
    | deleteApplication | stamped => exact absurd he hold
    | refused a rid event ha hevent =>
      rcases List.mem_cons.mp he with rfl | he
      · simp [TokenEvent.isRefusal] at hevent
      · exact absurd he hold
    | opened | dropped | journalled | issued =>
      rcases List.mem_cons.mp he with heq | he
      · cases heq
      · exact absurd he hold
    | alreadyRevoked rid r x hrid hx hrevoked =>
      rcases List.mem_cons.mp he with heq | he
      · cases heq
        refine ⟨s.tokens.bounded x hx, fun y hy hid => ?_⟩
        obtain rfl := Table.eq_of_pk hy hx hid
        simpa [StoredSendToken.isActive] using hrevoked
      · exact absurd he hold
    | revoked rid input tokenId hrid htoken =>
      rcases List.mem_cons.mp he with heq | he
      · cases heq
        obtain ⟨x, hx⟩ := Option.isSome_iff_exists.mp htoken
        obtain ⟨hmem, hid⟩ := Table.get?_eq_some.mp hx
        refine ⟨hid ▸ s.tokens.bounded x hmem, fun y hy hidy => ?_⟩
        obtain ⟨z, hz, rfl⟩ := mem_revoked.mp hy
        by_cases hz' : pk z = id
        · rw [if_pos hz']
          rfl
        · rw [if_neg hz'] at hidy
          exact absurd hidy hz'
      · exact absurd he hold

/-! ### Reveals -/

/-- What is shown of a token is the token, and its copy is under a key. -/
structure Shown (s : SendTokenDesk Key) : Prop where
  journalling : ∀ rid id user raw, s.processes rid = some (.journalling id user raw) →
    id ≤ s.tokens.seq ∧ ∃ key, .issued id raw (some key) ∈ s.history
  revealed : ∀ id user label raw at_, .revealed id user label raw at_ ∈ s.history →
    id ≤ s.tokens.seq ∧ ∃ key, .issued id raw (some key) ∈ s.history

/-- What is shown, and the answers, in a state with no new reveal. -/
theorem Shown.mono (h : Shown s) (hseq : s.tokens.seq ≤ t.tokens.seq)
    (hhistory : s.history ⊆ t.history)
    (hjournalling : ∀ rid id user raw, t.processes rid = some (.journalling id user raw) →
      ∃ rid, s.processes rid = some (.journalling id user raw))
    (hrevealed : ∀ id user label raw at_, .revealed id user label raw at_ ∈ t.history →
      .revealed id user label raw at_ ∈ s.history) : Shown t := by
  refine ⟨fun rid id user raw hp => ?_, fun id user label raw at_ he => ?_⟩
  · obtain ⟨rid, hp⟩ := hjournalling rid id user raw hp
    obtain ⟨hle, key, hkey⟩ := h.journalling rid id user raw hp
    exact ⟨hle.trans hseq, key, hhistory hkey⟩
  · obtain ⟨hle, key, hkey⟩ := h.revealed _ _ _ _ _ (hrevealed id user label raw at_ he)
    exact ⟨hle.trans hseq, key, hhistory hkey⟩

/-- A process is replaced by one that shows nothing. -/
theorem journalling_set {P : Pool TokenProcess} {rid : ℕ} {p : Option TokenProcess}
    (hp : ∀ id user raw, p ≠ some (.journalling id user raw)) {i id : ℕ} {user : User}
    {raw : String} (h : P.set rid p i = some (.journalling id user raw)) :
    P i = some (.journalling id user raw) := by
  rcases Pool.set_eq_some.mp h with ⟨-, h⟩ | ⟨-, h⟩
  · exact absurd h (hp _ _ _)
  · exact h

theorem shown_preserves [DecidableEq Key] (hF : F.Sound) :
    (sendTokenDesk django sha256 F).Preserves (fun _ _ => True)
      fun s => Accounted sha256 F s ∧ Shown s := by
  refine accounted_preserves.and fun s a t hs h _ hstep => ?_
  have hsteps := step_cases hstep
  have hhistory := hsteps.history_subset
  cases hsteps with
  | tick | configure | putUser | putApplication | deleteUser | deleteApplication =>
    exact h.mono le_rfl hhistory (fun rid _ _ _ hp => ⟨rid, hp⟩) fun _ _ _ _ _ he => he
  | began rid r p hrid hp =>
    refine h.mono le_rfl hhistory (fun i _ _ _ hi => ⟨i, journalling_set ?_ hi⟩)
      fun _ _ _ _ _ he => he
    rintro id user raw heq
    obtain rfl := Option.some.inj heq
    simp [TokenProcess.isFirst] at hp
  | refused a rid event ha hevent =>
    refine h.mono le_rfl hhistory (fun i _ _ _ hi => ⟨i, journalling_set (by simp) hi⟩)
      fun id user label raw at_ he => ?_
    rcases List.mem_cons.mp he with rfl | he
    · simp [TokenEvent.isRefusal] at hevent
    · exact he
  | alreadyRevoked | dropped | revoked | opened =>
    refine h.mono le_rfl hhistory (fun i _ _ _ hi => ⟨i, journalling_set (by simp) hi⟩)
      fun id user label raw at_ he => ?_
    rcases List.mem_cons.mp he with heq | he
    · cases heq
    · exact he
  | admitted | stamped =>
    exact h.mono le_rfl hhistory (fun i _ _ _ hi => ⟨i, journalling_set (by simp) hi⟩)
      fun _ _ _ _ _ he => he
  | issued =>
    refine h.mono (Nat.le_succ _) hhistory (fun i _ _ _ hi => ⟨i, journalling_set (by simp) hi⟩)
      fun id user label raw at_ he => ?_
    rcases List.mem_cons.mp he with heq | he
    · cases heq
    · exact he
  | read rid input user applicationId tokenId x raw hrid hx hraw =>
    refine ⟨fun i id user' raw' hi => ?_, h.revealed⟩
    rcases Pool.set_eq_some.mp hi with ⟨-, heq⟩ | ⟨-, hi⟩
    · cases heq
      obtain ⟨raw₀, key?, he, -, hsealed⟩ := hs.rows x hx
      obtain ⟨rfl, key, -, rfl, -, -⟩ := (decrypt_eq_ok_iff hF hsealed s.keys raw).mp hraw
      exact ⟨s.tokens.bounded x hx, key, he⟩
    · exact h.journalling i id user' raw' hi
  | journalled rid input tokenId user raw hrid htoken =>
    have hissued := h.journalling rid tokenId user raw hrid
    refine ⟨fun i id user' raw' hi => ?_, fun id user' label raw' at_ he => ?_⟩
    · obtain ⟨hle, key, hkey⟩ := h.journalling i id user' raw' (journalling_set (by simp) hi)
      exact ⟨hle, key, List.mem_cons_of_mem _ hkey⟩
    · rcases List.mem_cons.mp he with heq | he
      · cases heq
        exact ⟨hissued.1, hissued.2.imp fun _ hkey => List.mem_cons_of_mem _ hkey⟩
      · obtain ⟨hle, key, hkey⟩ := h.revealed id user' label raw' at_ he
        exact ⟨hle, key, List.mem_cons_of_mem _ hkey⟩

/-! ### The journal -/

/-- The journal of each token tells what was revealed of it. -/
structure Journalled (s : SendTokenDesk Key) : Prop where
  agrees : ∀ x ∈ s.tokens.rows, s.journalOf x.id = s.shownOf x.id
  numbered : ∀ r ∈ s.reveals.rows, r.tokenId ≤ s.tokens.seq

/-- Nothing was shown of a token that is not numbered yet. -/
theorem shownOf_of_seq_lt (h : Shown s) {id : ℕ} (hid : s.tokens.seq < id) :
    s.shownOf id = [] := by
  refine List.filterMap_eq_nil_iff.mpr fun e he => ?_
  cases e with
  | revealed tokenId user label raw at_ =>
    have hle := (h.revealed _ _ _ _ _ (List.mem_reverse.mp he)).1
    exact if_neg fun heq => absurd hid (by omega)
  | _ => rfl

theorem journalOf_of_seq_lt (h : Journalled s) {id : ℕ} (hid : s.tokens.seq < id) :
    s.journalOf id = [] := by
  have hnone : (s.reveals.select fun r => r.tokenId == id) = [] :=
    List.filter_eq_nil_iff.mpr fun r hr => by
      have hle := h.numbered r hr
      simpa using fun heq : r.tokenId = id => absurd hid (by omega)
  rw [journalOf, hnone]
  rfl

/-- An answer that reveals nothing. -/
theorem shownOf_cons {e : TokenEvent Key} (he : ∀ id, e.shown id = none)
    (h : t.history = e :: s.history) (id : ℕ) : t.shownOf id = s.shownOf id := by
  rw [shownOf, h, List.reverse_cons, List.filterMap_append, List.filterMap_cons_none (he id),
    List.filterMap_nil, List.append_nil]
  rfl

/-- The tokens that are left keep their journals and what was shown of them. -/
theorem Journalled.of_kept (h : Journalled s) (hkept : Kept s.tokens t.tokens)
    (hshown : ∀ id, t.shownOf id = s.shownOf id)
    (hjournal : ∀ x ∈ t.tokens.rows, t.journalOf x.id = s.journalOf x.id)
    (hreveals : ∀ r' ∈ t.reveals.rows, ∃ r ∈ s.reveals.rows, r.tokenId = r'.tokenId) :
    Journalled t := by
  refine ⟨fun x' hx' => ?_, fun r' hr' => ?_⟩
  · obtain ⟨x, hx, hid, -⟩ := hkept.rows x' hx'
    rw [hjournal x' hx', hshown, ← hid, h.agrees x hx]
  · obtain ⟨r, hr, hid⟩ := hreveals r' hr'
    rw [hkept.seq, ← hid]
    exact h.numbered r hr

/-- The cascade leaves the journals of the tokens that are left. -/
theorem journalOf_deleteApplications (s : SendTokenDesk Key) (p : Application → Bool) :
    ∀ x ∈ (s.deleteApplications p).tokens.rows,
      (s.deleteApplications p).journalOf x.id = s.journalOf x.id := by
  intro x hx
  obtain ⟨hx, hkept⟩ := Table.mem_delete.mp hx
  refine congrArg (List.map _) ?_
  change (s.reveals.rows.filter _).filter _ = s.reveals.rows.filter _
  rw [List.filter_filter]
  refine List.filter_congr fun r _ => ?_
  by_cases hid : r.tokenId = x.id
  · have hget : s.tokens.get? x.id = some x := Table.get?_pk hx
    simp [hget, hkept, hid]
  · simp [hid]

/-- The journal tells as much without the actor. -/
theorem map_forgetActor (R : Table SendTokenReveal) (user id : ℕ) :
    (((R.update (fun _ => true) (forgetActor user) fun _ => rfl).select
        fun r => r.tokenId == id).map fun r => (r.actorLabel, r.createdAt)) =
      (R.select fun r => r.tokenId == id).map fun r => (r.actorLabel, r.createdAt) := by
  simp only [Table.select, Table.update, if_true, List.filter_map, List.map_map]
  rfl

theorem journalled_preserves [DecidableEq Key] (hF : F.Sound) :
    (sendTokenDesk django sha256 F).Preserves (fun _ _ => True)
      fun s => (Accounted sha256 F s ∧ Shown s) ∧ Journalled s := by
  refine (shown_preserves hF).and fun s a t hs h _ hstep => ?_
  cases step_cases hstep with
  | tick | configure | putUser | putApplication | began | admitted | read =>
    exact h.of_kept (.refl s.tokens) (fun _ => rfl) (fun _ _ => rfl) fun r hr => ⟨r, hr, rfl⟩
  | deleteApplication id =>
    exact h.of_kept (kept_delete _ _) (fun _ => rfl) (journalOf_deleteApplications s _)
      fun r hr => ⟨r, (Table.mem_delete.mp hr).1, rfl⟩
  | deleteUser id =>
    refine h.of_kept (kept_delete _ _) (fun _ => rfl) (fun x hx => ?_) fun r' hr' => ?_
    · exact (map_forgetActor _ id x.id).trans (journalOf_deleteApplications s _ x hx)
    · obtain ⟨r, hr, rfl⟩ := List.mem_map.mp hr'
      exact ⟨r, (Table.mem_delete.mp hr).1, rfl⟩
  | refused a rid event ha hevent =>
    refine h.of_kept (.refl s.tokens) (shownOf_cons (fun id => ?_) rfl) (fun _ _ => rfl)
      fun r hr => ⟨r, hr, rfl⟩
    cases event <;> first | rfl | simp [TokenEvent.isRefusal] at hevent
  | alreadyRevoked rid r x =>
    exact h.of_kept (.refl s.tokens) (shownOf_cons (e := .revoked x.id) (fun _ => rfl) rfl)
      (fun _ _ => rfl) fun r hr => ⟨r, hr, rfl⟩
  | opened rid raw x =>
    exact h.of_kept (.refl s.tokens) (shownOf_cons (e := .opened x.id raw) (fun _ => rfl) rfl)
      (fun _ _ => rfl) fun r hr => ⟨r, hr, rfl⟩
  | dropped =>
    exact h.of_kept (.refl s.tokens) (shownOf_cons (e := .raised) (fun _ => rfl) rfl)
      (fun _ _ => rfl) fun r hr => ⟨r, hr, rfl⟩
  | revoked rid input id =>
    refine h.of_kept (kept_modify _ _ _ (pk_revokeToken s.clock) fun x => ?_)
      (shownOf_cons (e := .revoked id) (fun _ => rfl) rfl) (fun _ _ => rfl)
      fun r hr => ⟨r, hr, rfl⟩
    exact ⟨rfl, rfl, fun _ => rfl⟩
  | stamped =>
    refine h.of_kept (kept_modify _ _ _ (pk_stampToken s.clock) fun x => ?_) (fun _ => rfl)
      (fun _ _ => rfl) fun r hr => ⟨r, hr, rfl⟩
    exact ⟨rfl, rfl, fun h => h⟩
  | issued rid input applicationId name blob hrid hblob =>
    have hshown : ∀ e : TokenEvent Key, e.isIssue = true → ∀ id, e.shown id = none := by
      intro e he id
      cases e <;> first | rfl | simp [TokenEvent.isIssue] at he
    refine ⟨fun x hx => ?_, fun r hr => (h.numbered r hr).trans (Nat.le_succ _)⟩
    rw [shownOf_cons (hshown (.issued _ _ _) rfl) rfl]
    rcases mem_issued.mp hx with hx | rfl
    · exact h.agrees x hx
    · have hlt : s.tokens.seq < s.tokens.seq + 1 := Nat.lt_succ_self _
      exact (journalOf_of_seq_lt h hlt).trans (shownOf_of_seq_lt hs.2 hlt).symm
  | journalled rid input tokenId user raw hrid htoken =>
    refine ⟨fun x hx => ?_, fun r hr => ?_⟩
    · have hagrees := h.agrees x hx
      simp only [journalOf, shownOf, answered, Table.select, Table.insert, List.filter_append,
        List.map_append, List.reverse_cons, List.filterMap_append] at hagrees ⊢
      rw [hagrees]
      by_cases hid : tokenId = x.id
      · simp [hid, TokenEvent.shown]
      · simp [hid, TokenEvent.shown]
    · rcases Table.mem_insert.mp hr with hr | rfl
      · exact h.numbered r hr
      · exact (hs.2.journalling rid tokenId user raw hrid).1

theorem Unused.journalled (h : s.Unused) : Journalled s :=
  ⟨by simp [h.tokens], by simp [h.reveals]⟩

theorem Unused.shown (h : s.Unused) : Shown s :=
  ⟨by simp [h.processes], by simp [h.history]⟩

theorem Unused.closed (h : s.Unused) : Closed s := by simp [Closed, h.history]

end SendTokenDesk

/-! ### Opening a send -/

theorem ne_empty_of_startsWith {raw : String} (h : startsWith "apt_" raw = true) : raw ≠ "" := by
  rintro rfl
  exact absurd h (by decide)

/-- A send is opened by the first token with the hash. -/
theorem SendTokenDesk.authenticateSend_eq_ok_iff {Key : Type} {sha256 : ByteArray → String}
    {s : SendTokenDesk Key} {raw : String} {x : StoredSendToken} {a : Application} :
    s.authenticateSend sha256 (some raw) = .ok (x, a) ↔
      raw ≠ "" ∧ startsWith "apt_" raw = true ∧
      s.tokens.rows.find? (fun y => y.tokenHash == hashRaw sha256 raw) = some x ∧
      s.applications.get? x.applicationId = some a ∧ x.revokedAt = none ∧ a.isActive = true := by
  unfold authenticateSend
  split
  · next hnone =>
    have hraw : raw = "" := by simpa using Option.filter_eq_none_iff.mp hnone raw rfl
    simp [hraw]
  · next raw' hraw' =>
    obtain ⟨heq, hne⟩ := Option.filter_eq_some_iff.mp hraw'
    obtain rfl := Option.some.inj heq
    have hne : raw ≠ "" := by simpa using hne
    by_cases hstart : startsWith "apt_" raw = true
    · simp only [hstart, Bool.not_true, Bool.false_eq_true, if_false, hne, ne_eq,
        not_false_eq_true, true_and]
      split
      · next token application hfound =>
        obtain ⟨y, hy, hget⟩ := Option.bind_eq_some_iff.mp hfound
        obtain ⟨b, hb, hpair⟩ := Option.map_eq_some_iff.mp hget
        cases hpair
        rw [hy, Option.some.injEq]
        constructor
        · intro h
          split at h
          · cases h
          · next hrevoked =>
            split at h
            · cases h
            · next hactive =>
              cases h
              exact ⟨rfl, hb, by simpa using hrevoked, by simpa using hactive⟩
        · rintro ⟨rfl, ha, hrevoked, hactive⟩
          obtain rfl := Option.some.inj (hb.symm.trans ha)
          simp [hrevoked, hactive]
      · next hnone =>
        constructor
        · intro h
          cases h
        · rintro ⟨hx, ha, -⟩
          rw [hx, Option.bind_some, ha] at hnone
          cases hnone
    · simp [hstart]

/-! ### Main results -/

section Results

variable {Key : Type} {django : Django} {sha256 : ByteArray → String} {F : Fernet Key}
  {s₀ s : SendTokenDesk Key}

/-- An issued token opens sends as long as it is not revoked and its application is active,
whatever the keys are.  Under a list of keys its copy shows the token exactly if the key it was
encrypted with is on the list, and it never shows anything else. -/
theorem issued_tokens_serve [DecidableEq Key] (hF : F.Sound) (h₀ : s₀.Unused)
    (h : (sendTokenDesk django sha256 F).Reach (fun _ _ => True) s₀ s)
    {id : ℕ} {raw : String} {key? : Option Key} (hissued : .issued id raw key? ∈ s.history)
    {x : StoredSendToken} (hx : s.tokens.get? id = some x) :
    (∀ y a, s.authenticateSend sha256 (some raw) = .ok (y, a) ↔
      y = x ∧ x.revokedAt = none ∧ s.applications.get? x.applicationId = some a ∧
        a.isActive = true) ∧
    ∀ keys shown, decrypt F keys x.secretEncrypted = .ok shown ↔
      shown = raw ∧ ∃ key ks, key? = some key ∧ cipher F keys = .ok ks ∧ key ∈ ks := by
  have haccounted := h.invariant SendTokenDesk.accounted_preserves h₀.accounted
  obtain ⟨hmem, rfl⟩ := Table.get?_eq_some.mp hx
  obtain ⟨raw', key?', he, hhash, hsealed⟩ := haccounted.rows x hmem
  obtain ⟨rfl, rfl⟩ := haccounted.once _ _ _ _ _ hissued he
  refine ⟨fun y a => ?_, decrypt_eq_ok_iff hF hsealed⟩
  have hprefixed := haccounted.prefixed _ _ _ hissued
  -- no other token has the hash
  have hfind : ∀ y, s.tokens.rows.find? (fun y => y.tokenHash == hashRaw sha256 raw) = some y ↔
      y = x := by
    intro y
    rw [Table.find?_eq_some_iff]
    constructor
    · rintro ⟨hy, hyhash, -⟩
      exact haccounted.unique y hy x hmem trivial trivial ((beq_iff_eq.mp hyhash).trans hhash.symm)
    · rintro rfl
      refine ⟨hmem, beq_iff_eq.mpr hhash, fun z hz hlt hzhash => hlt.ne ?_⟩
      exact congrArg pk (haccounted.unique z hz y hmem trivial trivial
        ((beq_iff_eq.mp hzhash).trans hhash.symm))
  rw [SendTokenDesk.authenticateSend_eq_ok_iff, hfind]
  constructor
  · rintro ⟨-, -, rfl, happlication, hrevoked, hactive⟩
    exact ⟨rfl, hrevoked, happlication, hactive⟩
  · rintro ⟨rfl, hrevoked, happlication, hactive⟩
    exact ⟨ne_empty_of_startsWith hprefixed, hprefixed, rfl, happlication, hrevoked, hactive⟩

/-- The journal of a token holds its reveals, in order and no others; each showed the token as it
was issued, and its copy was under a key. -/
theorem reveals_journalled [DecidableEq Key] (hF : F.Sound) (h₀ : s₀.Unused)
    (h : (sendTokenDesk django sha256 F).Reach (fun _ _ => True) s₀ s) :
    (∀ x ∈ s.tokens.rows, s.journalOf x.id = s.shownOf x.id) ∧
    ∀ id user label raw at_, .revealed id user label raw at_ ∈ s.history →
      ∃ key, .issued id raw (some key) ∈ s.history := by
  obtain ⟨⟨-, hshown⟩, hjournalled⟩ := h.invariant (SendTokenDesk.journalled_preserves hF)
    ⟨⟨h₀.accounted, h₀.shown⟩, h₀.journalled⟩
  exact ⟨hjournalled.agrees, fun id user label raw at_ he => (hshown.revealed _ _ _ _ _ he).2⟩

/-- Once a revocation was answered, nothing opens a send through the token, ever. -/
theorem revoked_tokens_stay_closed (h₀ : s₀.Unused)
    (h : (sendTokenDesk django sha256 F).Reach (fun _ _ => True) s₀ s)
    {s' : SendTokenDesk Key}
    (h' : (sendTokenDesk django sha256 F).Reach (fun _ _ => True) s s')
    {id : ℕ} (hrevoked : .revoked id ∈ s.history) {rawToken : Option String}
    {x : StoredSendToken} {a : Application}
    (hx : s'.authenticateSend sha256 rawToken = .ok (x, a)) : x.id ≠ id := by
  have hclosed := (h.trans h').invariant SendTokenDesk.closed_preserves h₀.closed
  have hhistory : s.history ⊆ s'.history :=
    h'.relation (I := fun _ => True) (R := fun s t => s.history ⊆ t.history)
      (fun _ _ _ _ _ _ => trivial) (fun _ => List.Subset.refl _)
      (fun _ _ _ => List.Subset.trans)
      (fun _ _ _ _ _ hstep => (SendTokenDesk.step_cases hstep).history_subset) trivial
  rintro rfl
  cases rawToken with
  | none => simp [SendTokenDesk.authenticateSend] at hx
  | some raw =>
    obtain ⟨-, -, hfind, -, hnone, -⟩ := SendTokenDesk.authenticateSend_eq_ok_iff.mp hx
    have hsome := (hclosed x.id (hhistory hrevoked)).2 x (List.mem_of_find?_eq_some hfind) rfl
    simp [hnone] at hsome

end Results

/-! ### Samples -/

namespace Sample

/-- A token is created and read again, and the keys are replaced. -/
def createAndReveal : List TokenAction :=
  let input : TokenInput := ⟨onesToken, 0⟩
  [.request 1 (.create 1 1 nameBody), .advance 1 input, .advance 1 input, .tick 60,
    .request 2 (.reveal 1 1 1 "first-password"), .advance 2 input, .advance 2 input,
    .configure ["x"], .request 3 (.reveal 1 1 1 "first-password"), .advance 3 input]

/-- The token is revoked. -/
def revocationAnswered : List TokenAction :=
  let input : TokenInput := ⟨onesToken, 0⟩
  [.request 1 (.revoke 1 1 1), .advance 1 input]

theorem tokenDesk_unused : (tokenDesk 0).Unused := ⟨rfl, rfl, rfl, rfl⟩

end Sample

/-- After the keys were lost the token cannot be read, and still opens sends. -/
theorem sample_issued_tokens_serve : ∃ (s : SendTokenDesk UInt8) (x : StoredSendToken),
    s.tokens.get? 1 = some x ∧ s.keys = ["x"] ∧
    s.history.head? = some (.refused 503 "reveal_unavailable") ∧
    (∀ y a, s.authenticateSend Sample.digest (some "apt_1111111111111111111111") = .ok (y, a) ↔
      y = x ∧ x.revokedAt = none ∧ s.applications.get? x.applicationId = some a ∧
        a.isActive = true) ∧
    ∀ keys shown, decrypt Sample.fernet keys x.secretEncrypted = .ok shown ↔
      shown = "apt_1111111111111111111111" ∧ ∃ key ks, some 107 = some key ∧
        cipher Sample.fernet keys = .ok ks ∧ key ∈ ks := by
  obtain ⟨s, hreach, hs⟩ := System.exists_reach_of_guardedRun
    (sendTokenDesk Sample.django Sample.digest Sample.fernet) (fun _ _ => True)
    (Sample.tokenDesk 0) Sample.createAndReveal
    (fun s => (s.tokens.get? 1).isSome && decide (s.keys = ["x"]) &&
      decide (s.history.head? = some (.refused 503 "reveal_unavailable")) &&
      decide (.issued 1 "apt_1111111111111111111111" (some 107) ∈ s.history)) (by decide)
  simp only [Bool.and_eq_true, decide_eq_true_eq] at hs
  obtain ⟨⟨⟨hsome, hkeys⟩, hrefused⟩, hissued⟩ := hs
  obtain ⟨x, hx⟩ := Option.isSome_iff_exists.mp hsome
  exact ⟨s, x, hx, hkeys, hrefused,
    issued_tokens_serve Sample.fernet_sound Sample.tokenDesk_unused hreach hissued hx⟩

/-- One reveal, one line. -/
theorem sample_reveals_journalled : ∃ s : SendTokenDesk UInt8,
    s.journalOf 1 = [("a@b", 60)] ∧
    (∀ x ∈ s.tokens.rows, s.journalOf x.id = s.shownOf x.id) ∧
    ∀ id user label raw at_, .revealed id user label raw at_ ∈ s.history →
      ∃ key, .issued id raw (some key) ∈ s.history := by
  obtain ⟨s, hreach, hs⟩ := System.exists_reach_of_guardedRun
    (sendTokenDesk Sample.django Sample.digest Sample.fernet) (fun _ _ => True)
    (Sample.tokenDesk 0) Sample.createAndReveal
    (fun s => decide (s.journalOf 1 = [("a@b", 60)])) (by decide)
  exact ⟨s, of_decide_eq_true hs,
    reveals_journalled Sample.fernet_sound Sample.tokenDesk_unused hreach⟩

/-- The token is refused after its revocation. -/
theorem sample_revoked_tokens_stay_closed : ∃ s : SendTokenDesk UInt8,
    .revoked 1 ∈ s.history ∧ ∀ rawToken x a,
      s.authenticateSend Sample.digest rawToken = .ok (x, a) → x.id ≠ 1 := by
  obtain ⟨s, hreach, hs⟩ := System.exists_reach_of_guardedRun
    (sendTokenDesk Sample.django Sample.digest Sample.fernet) (fun _ _ => True)
    (Sample.tokenDesk 0) (Sample.createAndReveal ++ Sample.revocationAnswered)
    (fun s => decide (.revoked 1 ∈ s.history)) (by decide)
  exact ⟨s, of_decide_eq_true hs, fun rawToken x a hx =>
    revoked_tokens_stay_closed Sample.tokenDesk_unused hreach (.refl s) (of_decide_eq_true hs) hx⟩

end PushIT
