import PushIT.SignIn

/-!
# The gate of every session

Only active accounts with a confirmed address are to get a session.  The login checks both flags
of the user it loaded, and a confirmation the first; a magic link is sent to a user who passes,
and its verification does not look at the user again.  The tokens are issued in a later statement
yet, so the flags must still be as they were checked.

## Main definitions

* `SignIn.Gated`: every session went to an active and confirmed user.
* `SignIn.KeepsGate`: the links are used by users who pass, and nothing comes between a check and
  the session.

## Main results

* `sessions_gated`: the gate holds in every run that meets the condition.
* `deactivated_user_signs_in`: a link outlives the account it was sent to.
-/

namespace PushIT

open Relational Transition

/-- Active, and confirmed by e-mail. -/
def User.passesGate (u : User) : Bool := u.isActive && u.emailConfirmed

/-- The user a request has loaded. -/
def SignInProcess.user : SignInProcess → User
  | .requesting user | .consuming _ _ user | .confirming user _ | .issuing _ user => user

namespace SignIn

/-- Every session went to a user who was active and confirmed when it was issued. -/
def Gated (s : SignIn) : Prop :=
  ∀ path user isActive emailConfirmed,
    .issued path user isActive emailConfirmed ∈ s.history → isActive = true ∧ emailConfirmed = true

/-- A link is used only while its user passes, and no edit shuts out a user for whom tokens are
being issued. -/
def KeepsGate (s : SignIn) : SignInAction → Prop
  | .edit users => ∀ rid path user, s.processes rid = some (.issuing path user) →
    (users.get? user.id).all (·.passesGate) = true
  | .advance rid _ =>
    (∀ raw link user, s.processes rid = some (.consuming raw link user) →
      (s.consumable link.id).isSome = true →
        (s.users.get? user.id).all (·.passesGate) = true) ∧
    ∀ user link, s.processes rid = some (.confirming user link) →
      (s.users.get? user.id).all (·.isActive) = true
  | _ => True

/-- Every request has loaded a user of the table, and the tokens that are being issued are for a
user who passes. -/
structure Watched (s : SignIn) : Prop where
  known : ∀ rid p, s.processes rid = some p → p.user.id ≤ s.users.seq
  issuing : ∀ rid path user, s.processes rid = some (.issuing path user) →
    (s.users.get? user.id).all (·.passesGate) = true
  gated : s.Gated

variable {P : SignInPlatform} {s t : SignIn}

theorem Watched.keep (h : s.Watched) (hseq : s.users.seq ≤ t.users.seq)
    (husers : ∀ rid path user, s.processes rid = some (.issuing path user) →
      (t.users.get? user.id).all (·.passesGate) = true)
    (hprocesses : ∀ rid p, t.processes rid = some p → s.processes rid = some p ∨
      p.user.id ≤ t.users.seq ∧ ∀ path user, p = .issuing path user →
        (t.users.get? user.id).all (·.passesGate) = true)
    (hhistory : ∀ path user isActive emailConfirmed,
      .issued path user isActive emailConfirmed ∈ t.history →
        .issued path user isActive emailConfirmed ∈ s.history ∨
          isActive = true ∧ emailConfirmed = true) : t.Watched := by
  refine ⟨fun rid p hp => ?_, fun rid path user hp => ?_, fun path user a c hevent => ?_⟩
  · rcases hprocesses rid p hp with hold | ⟨hknown, -⟩
    · exact (h.known rid p hold).trans hseq
    · exact hknown
  · rcases hprocesses rid _ hp with hold | ⟨-, hpasses⟩
    · exact husers rid path user hold
    · exact hpasses path user rfl
  · rcases hhistory path user a c hevent with hold | hnew
    · exact h.gated path user a c hold
    · exact hnew

/-- A request begins, or comes to its next statement. -/
theorem Watched.setProcess (h : s.Watched) (rid : ℕ) (q : Option SignInProcess)
    (hknown : ∀ p, q = some p → p.user.id ≤ s.users.seq)
    (hissuing : ∀ path user, q = some (.issuing path user) →
      (s.users.get? user.id).all (·.passesGate) = true) : (s.setProcess rid q).Watched := by
  refine h.keep le_rfl h.issuing (fun other p hp => ?_) fun _ _ _ _ hevent => Or.inl hevent
  rcases Pool.set_eq_some.mp hp with ⟨-, hself⟩ | ⟨-, hother⟩
  · exact Or.inr ⟨hknown p hself, fun path user hpath => hissuing path user (hpath ▸ hself)⟩
  · exact Or.inl hother

theorem Watched.finish (h : s.Watched) (rid : ℕ) : (s.setProcess rid none).Watched :=
  h.setProcess rid none (by simp) (by simp)

/-- What writes no user row and issues nothing. -/
theorem Watched.of_eq (h : s.Watched) (husers : t.users = s.users)
    (hprocesses : t.processes = s.processes)
    (hhistory : ∀ path user isActive emailConfirmed,
      .issued path user isActive emailConfirmed ∈ t.history →
        .issued path user isActive emailConfirmed ∈ s.history) : t.Watched :=
  h.keep (husers ▸ le_rfl) (husers ▸ h.issuing) (hprocesses ▸ fun _ _ hp => Or.inl hp)
    fun path user a c hevent => Or.inl (hhistory path user a c hevent)

/-! ### The requests -/

theorem findRecipient_known {email : String} {user : User}
    (h : s.findRecipient P email = some user) : user.id ≤ s.users.seq :=
  s.users.bounded user (List.mem_of_find?_eq_some h)

theorem findLink_known {token : String} {link : MagicLinkToken} {user : User}
    (h : s.findLink P token = some (link, user)) : user.id ≤ s.users.seq := by
  obtain ⟨l, -, huser⟩ := Option.bind_eq_some_iff.mp h
  obtain ⟨u, hu, hpair⟩ := Option.map_eq_some_iff.mp huser
  obtain ⟨-, rfl⟩ := Prod.mk.inj hpair
  exact s.users.bounded u (Table.get?_eq_some.mp hu).1

theorem findUnconfirmed_known {id : ℕ} {link : String} {user : User}
    (h : s.findUnconfirmed P id link = some user) : user.id ≤ s.users.seq :=
  s.users.bounded user (Table.get?_eq_some.mp (Option.filter_eq_some_iff.mp h).1).1

/-- The login checks the gate. -/
theorem authenticateLogin_passes {email password : String} {user : User}
    (h : P.authenticateLogin s.users email password = some user) :
    s.users.get? user.id = some user ∧ user.passesGate = true := by
  obtain ⟨hfind, hchecks⟩ := Option.filter_eq_some_iff.mp h
  have hrow := List.mem_of_find?_eq_some hfind
  refine ⟨Table.get?_pk hrow, ?_⟩
  simp only [Bool.and_eq_true] at hchecks
  exact Bool.and_eq_true_iff.mpr ⟨hchecks.1.2, hchecks.2⟩

theorem Watched.advance (h : s.Watched) {rid : ℕ} (token : String) {p : SignInProcess}
    (hok : s.KeepsGate (.advance rid token)) (hp : s.processes rid = some p) :
    (s.advance P rid token p).Watched := by
  obtain ⟨hconsuming, hconfirming⟩ := hok
  have hknown : p.user.id ≤ s.users.seq := h.known rid p hp
  cases p with
  | requesting user =>
    simp only [SignIn.advance]
    split
    · refine Watched.finish ?_ rid
      exact h.of_eq rfl rfl (by simp [happened])
    · exact h.finish rid
  | consuming raw link user =>
    simp only [SignIn.advance]
    split
    · next hcan =>
      have hused : Watched ({ s with
          links := s.links.modify link.id (useLink s.clock) (pk_useLink s.clock) }.happened
            (.verified raw user.id s.clock)) := h.of_eq rfl rfl (by simp [happened])
      refine hused.setProcess rid _ (fun q hq => ?_) fun path u hq => ?_
      · obtain rfl := Option.some.inj hq
        exact hknown
      · obtain ⟨-, rfl⟩ := SignInProcess.issuing.inj (Option.some.inj hq)
        exact hconsuming raw link user hp hcan
    · exact h.finish rid
  | confirming user link =>
    simp only [SignIn.advance]
    split
    · have hget : ∀ k, (s.users.modify user.id confirmUser pk_confirmUser).get? k =
          (s.users.get? k).map fun r => if pk r = user.id then confirmUser r else r :=
        Table.get?_modify s.users user.id confirmUser pk_confirmUser
      have hconfirmed : Watched ({ s with
          users := s.users.modify user.id confirmUser pk_confirmUser }.happened
            (.confirmed user.id link)) := by
        refine h.keep le_rfl (fun other path u hissuing => ?_) (fun _ _ hq => Or.inl hq)
          (by simp [happened])
        -- a confirmation takes nothing from a user who passes
        have hpasses := h.issuing other path u hissuing
        change ((s.users.modify user.id confirmUser pk_confirmUser).get? u.id).all _ = true
        rw [hget]
        cases hrow : s.users.get? u.id with
        | none => rfl
        | some row =>
          rw [hrow] at hpasses
          have hactive : row.isActive = true := (Bool.and_eq_true_iff.mp hpasses).1
          rw [Option.map_some]
          split
          · exact Bool.and_eq_true_iff.mpr ⟨hactive, rfl⟩
          · exact hpasses
      refine hconfirmed.setProcess rid _ (fun q hq => ?_) fun path u hq => ?_
      · obtain rfl := Option.some.inj hq
        exact hknown
      · obtain ⟨-, rfl⟩ := SignInProcess.issuing.inj (Option.some.inj hq)
        have hactive := hconfirming user link hp
        change ((s.users.modify user.id confirmUser pk_confirmUser).get? user.id).all _ = true
        rw [hget]
        cases hrow : s.users.get? user.id with
        | none => rfl
        | some row =>
          have hid : pk row = user.id := (Table.get?_eq_some.mp hrow).2
          rw [hrow] at hactive
          rw [Option.map_some, if_pos hid]
          exact Bool.and_eq_true_iff.mpr ⟨hactive, rfl⟩
    · exact h.finish rid
  | issuing path user =>
    have hpasses := h.issuing rid path user hp
    simp only [SignIn.advance]
    split
    · next row hrow =>
      rw [hrow] at hpasses
      refine Watched.finish ?_ rid
      refine h.keep le_rfl h.issuing (fun _ _ hq => Or.inl hq) fun path' user' a c hevent => ?_
      rcases List.mem_cons.mp hevent with hnew | hold
      · obtain ⟨-, -, rfl, rfl⟩ := SignInEvent.issued.inj hnew
        exact Or.inr (Bool.and_eq_true_iff.mp hpasses)
      · exact Or.inl hold
    · exact h.finish rid

theorem watched_preserves (P : SignInPlatform) :
    (signIn P).Preserves (fun s a => s.KeepsGate a) Watched := by
  intro s a t h hok hstep
  cases a with
  | tick microseconds =>
    obtain rfl := Option.some.inj hstep
    exact h.of_eq rfl rfl fun _ _ _ _ hevent => hevent
  | register email password =>
    obtain rfl := Option.some.inj hstep
    by_cases htaken : s.users.rows.any (·.email == email) = true
    · simpa only [htaken, if_true] using h
    · simp only [htaken, if_false, Bool.false_eq_true]
      refine h.keep (Nat.le_succ _) (fun rid path user hp => ?_) (fun _ _ hp => Or.inl hp)
        fun _ _ _ _ hevent => Or.inl hevent
      have hold : user.id ≤ s.users.seq := h.known rid _ hp
      change ((s.users.insert _ (pk_registeredUser email password)).get? user.id).all _ = true
      rw [Table.get?_insert_of_le _ _ hold]
      exact h.issuing rid path user hp
  | edit users =>
    simp only [signIn, step] at hstep
    split at hstep
    · next hseq =>
      obtain rfl := Option.some.inj hstep
      exact h.keep hseq hok (fun _ _ hp => Or.inl hp) fun _ _ _ _ hevent => Or.inl hevent
    · simp at hstep
  | flush now =>
    simp only [signIn, step] at hstep
    split at hstep
    · obtain rfl := Option.some.inj hstep
      exact h.of_eq rfl rfl fun _ _ _ _ hevent => hevent
    · simp at hstep
  | requestLink rid email =>
    simp only [signIn, step] at hstep
    split at hstep
    · obtain rfl := Option.some.inj hstep
      refine h.setProcess rid _ (fun p hp => ?_) (by simp)
      obtain ⟨user, huser, rfl⟩ := Option.map_eq_some_iff.mp hp
      exact findRecipient_known huser
    · simp at hstep
  | verify rid token =>
    simp only [signIn, step] at hstep
    split at hstep
    · obtain rfl := Option.some.inj hstep
      refine h.setProcess rid _ (fun p hp => ?_) (by simp)
      obtain ⟨⟨link, user⟩, hfound, rfl⟩ := Option.map_eq_some_iff.mp hp
      exact findLink_known hfound
    · simp at hstep
  | confirm rid id link =>
    simp only [signIn, step] at hstep
    split at hstep
    · obtain rfl := Option.some.inj hstep
      refine h.setProcess rid _ (fun p hp => ?_) (by simp)
      obtain ⟨user, huser, rfl⟩ := Option.map_eq_some_iff.mp hp
      exact findUnconfirmed_known huser
    · simp at hstep
  | login rid email password =>
    simp only [signIn, step] at hstep
    split at hstep
    · obtain rfl := Option.some.inj hstep
      refine h.setProcess rid _ (fun p hp => ?_) fun path u hp => ?_
      · obtain ⟨user, huser, rfl⟩ := Option.map_eq_some_iff.mp hp
        exact s.users.bounded user (Table.get?_eq_some.mp (authenticateLogin_passes huser).1).1
      · obtain ⟨user, huser, hissuing⟩ := Option.map_eq_some_iff.mp hp
        obtain ⟨-, rfl⟩ := SignInProcess.issuing.inj hissuing
        obtain ⟨hrow, hpasses⟩ := authenticateLogin_passes huser
        rw [hrow]
        exact hpasses
    · simp at hstep
  | advance rid token =>
    simp only [signIn, step] at hstep
    split at hstep
    · simp at hstep
    · obtain ⟨p, hp, rfl⟩ := Option.map_eq_some_iff.mp hstep
      exact h.advance token hok hp

end SignIn

/-- In every run that meets the condition, tokens are issued only to users who are active and
confirmed at that moment. -/
theorem sessions_gated (P : SignInPlatform) (s₀ s : SignIn) (hidle : s₀.processes = .idle)
    (hnone : s₀.history = []) (h : (signIn P).Reach (fun s a => s.KeepsGate a) s₀ s) :
    s.Gated := by
  have hstart : s₀.Watched :=
    ⟨by simp [hidle], by simp [hidle], by simp [SignIn.Gated, hnone]⟩
  exact (h.invariant (SignIn.watched_preserves P) hstart).gated

/-! ### Samples -/

namespace Sample

/-- The user of the samples, shut out or let in again. -/
def setActive (isActive : Bool) : SignInAction :=
  .edit (Table.empty.put { user with isActive })

/-- A link is requested, and used after the account was closed and opened again; then the user
signs in by password. -/
def closedAndOpened : List SignInAction :=
  [.requestLink 0 "a@b", .advance 0 "secret", setActive false, .login 0 "a@b" "first-password",
    setActive true, .verify 0 "secret", .advance 0 "", .advance 0 "",
    .login 0 "a@b" "first-password", .advance 0 ""]

/-- What the next statement of a request relies on. -/
def mayGoOn (users : Table User) : SignInProcess → Bool
  | .confirming u _ => (users.get? u.id).all (·.isActive)
  | p => (users.get? p.user.id).all (·.passesGate)

/-- Request `0` is the only one, and finds its user as it relies on. -/
def OneRequest (s : SignIn) : SignInAction → Prop
  | .requestLink rid _ | .verify rid _ | .confirm rid _ _ | .login rid _ _ => rid = 0
  | .advance rid _ => rid = 0 ∧ (s.processes 0).all (mayGoOn s.users) = true
  | .edit _ => s.processes 0 = none
  | _ => True

instance decidableOneRequest (s : SignIn) (a : SignInAction) : Decidable (OneRequest s a) := by
  cases a <;> unfold OneRequest <;> infer_instance

theorem oneRequest_preserves : (PushIT.signIn signInPlatform).Preserves OneRequest
    fun s => ∀ other, other ≠ 0 → s.processes other = none := by
  intro s a t h hok hstep other hother
  have hset : ∀ (s' : SignIn) (q : Option SignInProcess), s'.processes other = none →
      (s'.setProcess 0 q).processes other = none := fun s' q hs' =>
    (Pool.set_of_ne _ _ hother).trans hs'
  cases a with
  | tick | register =>
    obtain rfl := Option.some.inj hstep
    exact h other hother
  | edit | flush =>
    simp only [PushIT.signIn, SignIn.step] at hstep
    split at hstep
    · obtain rfl := Option.some.inj hstep
      exact h other hother
    · simp at hstep
  | requestLink rid _ | verify rid _ | confirm rid _ _ | login rid _ _ =>
    obtain rfl : rid = 0 := hok
    simp only [PushIT.signIn, SignIn.step] at hstep
    split at hstep
    · obtain rfl := Option.some.inj hstep
      exact hset _ _ (h other hother)
    · simp at hstep
  | advance rid token =>
    obtain ⟨rfl, -⟩ : rid = 0 ∧ _ := hok
    simp only [PushIT.signIn, SignIn.step] at hstep
    split at hstep
    · simp at hstep
    · obtain ⟨p, -, rfl⟩ := Option.map_eq_some_iff.mp hstep
      cases p <;> simp only [SignIn.advance] <;> split <;> exact hset _ _ (h other hother)

theorem keepsGate_of_oneRequest (s : SignIn) (a : SignInAction)
    (hone : ∀ other, other ≠ 0 → s.processes other = none) (hok : OneRequest s a) :
    s.KeepsGate a := by
  cases a with
  | edit users =>
    intro rid path user hp
    by_cases hrid : rid = 0
    · have hnone : s.processes 0 = none := hok
      simp [← hrid, hp] at hnone
    · simp [hone rid hrid] at hp
  | advance rid token =>
    obtain ⟨rfl, hgoes⟩ : rid = 0 ∧ (s.processes 0).all (mayGoOn s.users) = true := hok
    refine ⟨fun raw link user hp _ => ?_, fun user link hp => ?_⟩
    · rw [hp] at hgoes
      exact hgoes
    · rw [hp] at hgoes
      exact hgoes
  | tick | register | requestLink | verify | confirm | login | flush => exact True.intro

end Sample

/-- A link outlives the time in which its account was closed. -/
theorem sample_sessions_gated :
    ∃ s : SignIn,
      s.history = [.issued .login 1 true true, .issued .magicLink 1 true true,
        .verified "secret" 1 Sample.noon, .sent "secret" 1 (Sample.noon + 900000000)] ∧
      s.Gated := by
  obtain ⟨s, hreach, hs⟩ := System.exists_reach_of_guardedRun (signIn Sample.signInPlatform)
    Sample.OneRequest Sample.signIn Sample.closedAndOpened
    (fun s => decide (s.history = [.issued .login 1 true true, .issued .magicLink 1 true true,
      .verified "secret" 1 Sample.noon, .sent "secret" 1 (Sample.noon + 900000000)]))
    (by decide +kernel)
  have hkeeps : (signIn Sample.signInPlatform).Reach (fun s a => s.KeepsGate a) Sample.signIn s :=
    hreach.mono_of_invariant _ Sample.oneRequest_preserves Sample.keepsGate_of_oneRequest
      fun _ _ => rfl
  exact ⟨s, of_decide_eq_true hs,
    sessions_gated Sample.signInPlatform Sample.signIn s rfl rfl hkeeps⟩

/-- A link is sent, its account is closed, and the link still signs in. -/
theorem deactivated_user_signs_in :
    ¬∀ (P : SignInPlatform) (s₀ s : SignIn), s₀.processes = .idle → s₀.history = [] →
      (signIn P).Reach (fun _ _ => True) s₀ s → s.Gated := by
  intro h
  obtain ⟨s, hreach, hissued⟩ := System.exists_reach_of_guardedRun
    (signIn Sample.signInPlatform) (fun _ _ => True) Sample.signIn
    [.requestLink 0 "a@b", .advance 0 "secret", Sample.setActive false, .verify 0 "secret",
      .advance 0 "", .advance 0 ""]
    (fun s => s.history.contains (.issued .magicLink 1 false true)) (by decide +kernel)
  obtain ⟨hactive, -⟩ := h Sample.signInPlatform Sample.signIn s rfl rfl hreach .magicLink 1 false
    true (List.contains_iff_mem.mp hissued)
  exact absurd hactive (by decide)

end PushIT
