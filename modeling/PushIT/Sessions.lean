import PushIT.SignIn

/-!
# Ending the sessions of a user

A password change and a password reset blacklist the refresh tokens of the user that are
outstanding.  A login checks the password and records its token later; a refresh, as simplejwt
rotates tokens, checks the old one, blacklists it and records the new one.  A token that is
recorded after the sweep has listed escapes it, unless the request behind it began late enough.

The session of a token began with the login that checked the password; a refresh continues the
session of the token it rotates.  The saves of one user row wait for a transaction that wrote it.

## Main definitions

* `Sessions.step`: the requests on accounts, the logins and the refreshes, statement by statement.
* `Sessions.Complete`: the revocations that have returned left no token of an earlier session.
* `Sessions.Meets`: no login or refresh comes between the listing and its end.

## Main results

* `revocation_complete`: the revocations are complete in every run that meets the condition.
* `login_survives_change`: a login in flight during a password change keeps its token.
-/

namespace PushIT

open Relational Transition

/-! ### Requests -/

/-- A login or a refresh between two of its statements, with its user and the moment at which its
session began. -/
inductive SessionProcess
  /-- A refresh before it blacklists the token it rotates. -/
  | refreshing (token user session : ℕ)
  /-- Before the new token is recorded as outstanding. -/
  | issuing (user session : ℕ)
  deriving DecidableEq, Repr

def SessionProcess.user : SessionProcess → ℕ
  | refreshing _ user _ | issuing user _ => user

def SessionProcess.session : SessionProcess → ℕ
  | refreshing _ _ session | issuing _ session => session

/-- The user whose sessions end, those that began before a moment. -/
structure Revocation where
  user : ℕ
  before : ℕ
  deriving DecidableEq, Repr

/-- The user row that the next statement of a request writes. -/
def AccountProcess.writes : AccountProcess → Option ℕ
  | .profile user _ | .staff _ user _ | .changing user _ | .rotating user _ | .resetting user _
  | .confirming user => some user.id
  | .revoking _ | .blacklisting _ => none

/-- The user for whom the next statement of a request records a token. -/
def AccountProcess.mints : AccountProcess → Option ℕ
  | .rotating user _ | .confirming user => some user.id
  | _ => none

theorem AccountProcess.writes_of_mints {p : AccountProcess} {user : ℕ} (h : p.mints = some user) :
    p.writes = some user := by
  cases p <;> simp_all [mints, writes]

/-- A refresh checks its token: the row, and its user. -/
def findUsable (users : Table User) (tokens : Table RefreshToken) (token : ℕ) :
    Option RefreshToken :=
  (tokens.get? token).filter fun t =>
    !t.blacklisted && (users.get? t.userId).any (·.isActive)

/-- The tokens that a sweep has listed. -/
def AccountProcess.listed : AccountProcess → List ℕ
  | .rotating _ pending | .blacklisting pending => pending
  | _ => []

/-- The state.  No statement reads the last four fields: the moment, the moment at which the
session of each token began, what each reset is to end, and what has been ended. -/
structure Sessions where
  accounts : Accounts
  requests : Pool SessionProcess := .idle
  /-- The transaction that has written the row of a user. -/
  rowLocks : ℕ → Option ℕ := fun _ => none
  moment : ℕ := 0
  session : ℕ → ℕ := fun _ => 0
  sweeps : ℕ → Option Revocation := fun _ => none
  revocations : List Revocation := []

inductive SessionAction
  | account (a : AccountAction)
  | login (rid : ℕ) (email password : String)
  | refresh (rid token : ℕ)
  /-- The next statement of a login or a refresh. -/
  | advance (rid : ℕ)

namespace Sessions

abbrev tokens (s : Sessions) : Table RefreshToken := s.accounts.refreshTokens

/-- The next moment comes; the next token belongs to a session that began at `began`. -/
def tick (s : Sessions) (began : ℕ) : Sessions :=
  { s with
    moment := s.moment + 1
    session := fun id => if s.tokens.seq < id then began else s.session id }

/-- The next statement of a request on accounts. -/
def advanceAccount (P : SignInPlatform) (s : Sessions) (rid : ℕ) (input : AccountInput)
    (p : AccountProcess) : Sessions :=
  let t := { s.tick s.moment with accounts := s.accounts.advance P.django rid input p }
  match p with
  | .changing user _ => { t with rowLocks := Function.update s.rowLocks user.id (some rid) }
  | .rotating user _ =>
    { t with
      rowLocks := Function.update s.rowLocks user.id none
      revocations :=
        if (s.accounts.users.get? user.id).isSome then ⟨user.id, s.moment⟩ :: s.revocations
        else s.revocations }
  | .resetting user _ =>
    { t with sweeps := Function.update s.sweeps rid (some ⟨user.id, s.moment⟩) }
  | .blacklisting _ => { t with revocations := (s.sweeps rid).toList ++ s.revocations }
  | _ => t

/-- The statement writes a row that another transaction has written. -/
def waits (s : Sessions) (rid : ℕ) (p : AccountProcess) : Bool :=
  (p.writes.bind s.rowLocks).any (· != rid)

/-- The next statement of a login or a refresh. -/
def advanceRequest (s : Sessions) (rid : ℕ) : SessionProcess → Sessions
  | .refreshing token user session =>
    { s.tick s.moment with
      accounts := { s.accounts with refreshTokens := blacklistTokens s.tokens [token] }
      requests := s.requests.set rid (some (.issuing user session)) }
  | .issuing user session =>
    { s.tick session with
      accounts := { s.accounts with refreshTokens := mintToken s.tokens user }
      requests := s.requests.set rid none }

/-- One action; `none` when nothing can perform it. -/
def step (P : SignInPlatform) (s : Sessions) : SessionAction → Option Sessions
  | .account (.request rid now r) =>
    if (s.accounts.processes rid).isNone then
      some { s.tick s.moment with accounts := s.accounts.begin P.django rid now r }
    else none
  | .account (.advance rid input) =>
    (s.accounts.processes rid).bind fun p =>
      if s.waits rid p then none else some (s.advanceAccount P rid input p)
  | .login rid email password =>
    if (s.requests rid).isNone then
      some
        { s.tick s.moment with
          requests := s.requests.set rid
            ((P.authenticateLogin s.accounts.users email password).map fun u =>
              .issuing u.id s.moment) }
    else none
  | .refresh rid token =>
    if (s.requests rid).isNone then
      some
        { s.tick s.moment with
          requests := s.requests.set rid
            ((findUsable s.accounts.users s.tokens token).map fun t =>
              .refreshing token t.userId (s.session token)) }
    else none
  | .advance rid => (s.requests rid).map (s.advanceRequest rid)

end Sessions

/-- The sessions as a transition system. -/
def sessions (P : SignInPlatform) : System Sessions SessionAction := ⟨Sessions.step P⟩

/-! ### What is to hold -/

namespace Sessions

/-- The revocations have left no usable token of a session that began before. -/
def Complete (s : Sessions) : Prop :=
  ∀ r ∈ s.revocations, ∀ x ∈ s.tokens.rows, x.userId = r.user → s.session x.id < r.before →
    x.blacklisted = true

/-- No login or refresh of the user is under way when a password change lists the tokens, none
that began before the save when a reset does; and between the listing and its end no login of
the user begins during a change, and no listed token is refreshed. -/
def Meets (P : SignInPlatform) (s : Sessions) : SessionAction → Prop
  | .account (.advance rid _) =>
    (∀ user password, s.accounts.processes rid = some (.changing user password) →
      ∀ other p, s.requests other = some p → p.user ≠ user.id) ∧
    ∀ user r, s.accounts.processes rid = some (.revoking user) → s.sweeps rid = some r →
      ∀ other p, s.requests other = some p → p.user = user → r.before ≤ p.session
  | .login _ email password => ∀ user,
    P.authenticateLogin s.accounts.users email password = some user → s.rowLocks user.id = none
  | .refresh _ token =>
    (∀ rid user pending, s.accounts.processes rid = some (.rotating user pending) →
      token ∉ pending) ∧
    ∀ rid pending r, s.accounts.processes rid = some (.blacklisting pending) →
      s.sweeps rid = some r → token ∈ pending → r.before ≤ s.session token
  | _ => True

/-- The tokens of the sessions that a revocation is to end are blacklisted or listed, and no
request continues such a session. -/
def Ended (s : Sessions) (r : Revocation) (pending : List ℕ) : Prop :=
  (∀ x ∈ s.tokens.rows, x.userId = r.user → s.session x.id < r.before →
    x.blacklisted = true ∨ x.id ∈ pending) ∧
  ∀ rid p, s.requests rid = some p → p.user = r.user → r.before ≤ p.session

/-- What is so while a request on accounts is before a statement. -/
def Fits (s : Sessions) (rid : ℕ) : AccountProcess → Prop
  | .rotating user pending =>
    s.rowLocks user.id = some rid ∧ ∀ before, s.Ended ⟨user.id, before⟩ pending
  | .revoking user => ∃ before ≤ s.moment, s.sweeps rid = some ⟨user, before⟩
  | .blacklisting pending => ∃ r, s.sweeps rid = some r ∧ r.before ≤ s.moment ∧ s.Ended r pending
  | _ => True

/-- The invariant. -/
structure Swept (s : Sessions) : Prop where
  ended : ∀ r ∈ s.revocations, r.before ≤ s.moment ∧ s.Ended r []
  fits : ∀ rid p, s.accounts.processes rid = some p → s.Fits rid p

/-! ### Tokens -/

/-- Rows keep their user and stay blacklisted, and new rows are for one user. -/
def Evolves (T : Table RefreshToken) (minted : Option ℕ) (T' : Table RefreshToken) : Prop :=
  ∀ x ∈ T'.rows,
    (∃ y ∈ T.rows, y.id = x.id ∧ y.userId = x.userId ∧
      (y.blacklisted = true → x.blacklisted = true)) ∨
    T.seq < x.id ∧ minted = some x.userId

theorem evolves_refl (T : Table RefreshToken) (minted : Option ℕ) : Evolves T minted T :=
  fun x hx => Or.inl ⟨x, hx, rfl, rfl, id⟩

theorem mem_blacklistTokens {T : Table RefreshToken} {ids : List ℕ} {x : RefreshToken}
    (hx : x ∈ (blacklistTokens T ids).rows) :
    ∃ y ∈ T.rows, y.id = x.id ∧ y.userId = x.userId ∧
      (y.blacklisted = true ∨ y.id ∈ ids → x.blacklisted = true) := by
  obtain ⟨y, hy, rfl⟩ := Table.mem_update.mp hx
  refine ⟨y, hy, ?_, ?_, ?_⟩
  · split <;> rfl
  · split <;> rfl
  · rintro (hblack | hlisted)
    · split
      · rfl
      · exact hblack
    · rw [if_pos (List.contains_iff_mem.mpr hlisted)]

theorem evolves_blacklistTokens (T : Table RefreshToken) (ids : List ℕ) (minted : Option ℕ) :
    Evolves T minted (blacklistTokens T ids) := by
  intro x hx
  obtain ⟨y, hy, hid, huser, hblack⟩ := mem_blacklistTokens hx
  exact Or.inl ⟨y, hy, hid, huser, fun h => hblack (Or.inl h)⟩

/-- A token is recorded, after others were blacklisted or not. -/
theorem Evolves.mint {T T' : Table RefreshToken} {user : ℕ} (h : Evolves T (some user) T')
    (hseq : T'.seq = T.seq) : Evolves T (some user) (mintToken T' user) := by
  intro x hx
  rcases Table.mem_insert.mp hx with hold | rfl
  · exact h x hold
  · exact Or.inr ⟨by rw [hseq]; exact Nat.lt_succ_self _, rfl⟩

theorem advance_evolves (django : Django) (s : Accounts) (rid : ℕ) (input : AccountInput)
    (p : AccountProcess) :
    Evolves s.refreshTokens p.mints (s.advance django rid input p).refreshTokens := by
  cases p with
  | profile | staff | changing | revoking => exact evolves_refl _ _
  | blacklisting pending => exact evolves_blacklistTokens _ _ _
  | resetting user password =>
    simp only [Accounts.advance, Accounts.saveFields]
    split <;> exact evolves_refl _ _
  | rotating user pending =>
    simp only [Accounts.advance, Accounts.saveFields]
    split
    · exact (evolves_blacklistTokens _ _ _).mint rfl
    · exact evolves_refl _ _
  | confirming user =>
    simp only [Accounts.advance, Accounts.saveFields]
    split
    · split
      · exact (evolves_refl _ _).mint rfl
      · exact evolves_refl _ _
    · exact evolves_refl _ _

variable {P : SignInPlatform} {s t : Sessions}

theorem Ended.keep {r : Revocation} {pending : List ℕ} (h : s.Ended r pending)
    (minted : Option ℕ) (began : ℕ) (htokens : Evolves s.tokens minted t.tokens)
    (hsession : t.session = (s.tick began).session)
    (hminted : minted = some r.user → r.before ≤ began)
    (hrequests : ∀ rid p, t.requests rid = some p → p.user = r.user →
      (∃ other q, s.requests other = some q ∧ q.user = p.user ∧ q.session = p.session) ∨
        r.before ≤ p.session) : t.Ended r pending := by
  refine ⟨fun x hx huser hbefore => ?_, fun rid p hp huser => ?_⟩
  · rw [hsession] at hbefore
    simp only [tick] at hbefore
    rcases htokens x hx with ⟨y, hy, hid, howner, hblack⟩ | ⟨hnew, howner⟩
    · have hold : ¬s.tokens.seq < x.id := by
        rw [← hid]
        exact Nat.not_lt.mpr (s.tokens.bounded y hy)
      rw [if_neg hold, ← hid] at hbefore
      rcases h.1 y hy (howner.trans huser) hbefore with hdone | hlisted
      · exact Or.inl (hblack hdone)
      · exact Or.inr (hid ▸ hlisted)
    · rw [if_pos hnew] at hbefore
      exact absurd (hminted (huser ▸ howner)) (Nat.not_le.mpr hbefore)
  · rcases hrequests rid p hp huser with ⟨other, q, hq, hquser, hqsession⟩ | hlate
    · exact hqsession ▸ h.2 other q hq (hquser.trans huser)
    · exact hlate

/-! ### The requests on accounts -/

theorem advanceAccount_accounts (rid : ℕ) (input : AccountInput) (p : AccountProcess) :
    (s.advanceAccount P rid input p).accounts = s.accounts.advance P.django rid input p := by
  cases p <;> rfl

theorem advanceAccount_session (rid : ℕ) (input : AccountInput) (p : AccountProcess) :
    (s.advanceAccount P rid input p).session = (s.tick s.moment).session := by
  cases p <;> rfl

theorem advanceAccount_requests (rid : ℕ) (input : AccountInput) (p : AccountProcess) :
    (s.advanceAccount P rid input p).requests = s.requests := by
  cases p <;> rfl

theorem advanceAccount_moment (rid : ℕ) (input : AccountInput) (p : AccountProcess) :
    (s.advanceAccount P rid input p).moment = s.moment + 1 := by
  cases p <;> rfl

theorem advanceAccount_rowLocks (rid : ℕ) (input : AccountInput) {p : AccountProcess} {user : ℕ}
    (h : p.writes ≠ some user) :
    (s.advanceAccount P rid input p).rowLocks user = s.rowLocks user := by
  cases p with
  | changing u | rotating u =>
    have hne : user ≠ u.id := fun heq => h (congrArg some heq.symm)
    exact Function.update_of_ne hne _ _
  | profile | staff | resetting | revoking | blacklisting | confirming => rfl

theorem advanceAccount_sweeps {rid other : ℕ} (input : AccountInput) (p : AccountProcess)
    (h : other ≠ rid) : (s.advanceAccount P rid input p).sweeps other = s.sweeps other := by
  cases p with
  | resetting u => exact Function.update_of_ne h _ _
  | changing | rotating | profile | staff | revoking | blacklisting | confirming => rfl

/-- A statement of a request on accounts keeps what has ended, when it records no token of the
user, or when that is recent. -/
theorem Ended.advanceAccount {r : Revocation} {pending : List ℕ} (h : s.Ended r pending)
    (rid : ℕ) (input : AccountInput) {p : AccountProcess}
    (hminted : p.mints = some r.user → r.before ≤ s.moment) :
    (s.advanceAccount P rid input p).Ended r pending := by
  refine h.keep p.mints s.moment ?_ (advanceAccount_session rid input p) hminted
    fun other q hq _ => Or.inl ?_
  · change Evolves s.tokens p.mints (s.advanceAccount P rid input p).accounts.refreshTokens
    rw [advanceAccount_accounts]
    exact advance_evolves P.django s.accounts rid input p
  · rw [advanceAccount_requests] at hq
    exact ⟨other, q, hq, rfl, rfl⟩

theorem Fits.advanceAccount {rid other : ℕ} {p q : AccountProcess} (h : s.Fits other q)
    (hne : other ≠ rid) (input : AccountInput) (hwaits : s.waits rid p = false) :
    (s.advanceAccount P rid input p).Fits other q := by
  cases q with
  | rotating user pending =>
    obtain ⟨hlock, hended⟩ := h
    have hwrites : p.writes ≠ some user.id := by
      intro hwrites
      simp [waits, hwrites, hlock, hne] at hwaits
    refine ⟨(advanceAccount_rowLocks rid input hwrites).trans hlock, fun before => ?_⟩
    exact (hended before).advanceAccount rid input fun hmints =>
      absurd (AccountProcess.writes_of_mints hmints) hwrites
  | revoking user =>
    obtain ⟨before, hbefore, hsweep⟩ := h
    refine ⟨before, ?_, (advanceAccount_sweeps input p hne).trans hsweep⟩
    rw [advanceAccount_moment]
    exact Nat.le_succ_of_le hbefore
  | blacklisting pending =>
    obtain ⟨r, hsweep, hbefore, hended⟩ := h
    refine ⟨r, (advanceAccount_sweeps input p hne).trans hsweep, ?_,
      hended.advanceAccount rid input fun _ => hbefore⟩
    rw [advanceAccount_moment]
    exact Nat.le_succ_of_le hbefore
  | profile | staff | changing | resetting | confirming => exact True.intro

/-- The listed tokens are blacklisted. -/
theorem Ended.blacklist {r : Revocation} {pending : List ℕ} (h : s.Ended r pending)
    (hrequests : t.requests = s.requests) (hsession : t.session = (s.tick s.moment).session)
    (hbefore : r.before ≤ s.moment)
    (htokens : ∀ x ∈ t.tokens.rows, (∃ y ∈ s.tokens.rows, y.id = x.id ∧ y.userId = x.userId ∧
      (y.blacklisted = true ∨ y.id ∈ pending → x.blacklisted = true)) ∨ s.tokens.seq < x.id) :
    t.Ended r [] := by
  refine ⟨fun x hx huser hsince => Or.inl ?_, fun rid p hp => h.2 rid p (hrequests ▸ hp)⟩
  rw [hsession] at hsince
  simp only [tick] at hsince
  rcases htokens x hx with ⟨y, hy, hid, howner, hblack⟩ | hnew
  · have hold : ¬s.tokens.seq < x.id := by
      rw [← hid]
      exact Nat.not_lt.mpr (s.tokens.bounded y hy)
    rw [if_neg hold, ← hid] at hsince
    exact hblack (h.1 y hy (howner.trans huser) hsince)
  · rw [if_pos hnew] at hsince
    omega

theorem mem_pendingTokens {T : Table RefreshToken} {user : ℕ} {x : RefreshToken}
    (hx : x ∈ T.rows) (huser : x.userId = user) :
    x.blacklisted = true ∨ x.id ∈ pendingTokens T user := by
  cases hblack : x.blacklisted with
  | true => exact Or.inl rfl
  | false =>
    refine Or.inr (List.mem_map.mpr ⟨x, List.mem_filter.mpr ⟨hx, ?_⟩, rfl⟩)
    simp [huser, hblack]

/-- A request on accounts begins before its first write. -/
theorem fits_begin {django : Django} {now : Instant} {users : Table User} {r : AccountRequest}
    {p : AccountProcess} (h : r.begin django now users = .ok p) (rid : ℕ) : s.Fits rid p := by
  cases r with
  | profile | confirmEmail =>
    simp only [AccountRequest.begin] at h
    split at h
    · obtain rfl := Except.ok.inj h
      exact True.intro
    · simp at h
  | staff | changePassword | resetPassword =>
    simp only [AccountRequest.begin] at h
    repeat' split at h
    all_goals first | (obtain rfl := Except.ok.inj h; exact True.intro) | simp at h

/-- What a request on accounts does next. -/
theorem advance_next (django : Django) (s : Accounts) (rid : ℕ) (input : AccountInput)
    (p : AccountProcess) :
    ∃ q, (s.advance django rid input p).processes = s.processes.set rid q ∧
      (q = none ∨
        (∃ user password user', p = .changing user password ∧ user'.id = user.id ∧
          q = some (.rotating user' (pendingTokens s.refreshTokens user.id))) ∨
        (∃ user password, p = .resetting user password ∧ q = some (.revoking user.id)) ∨
        ∃ user, p = .revoking user ∧
          q = some (.blacklisting (pendingTokens s.refreshTokens user))) := by
  cases p with
  | profile | staff | blacklisting => exact ⟨none, rfl, Or.inl rfl⟩
  | changing user password =>
    exact ⟨_, rfl, Or.inr (Or.inl ⟨user, password,
      { user with password := django.makePassword password input.salt }, rfl, rfl, rfl⟩)⟩
  | revoking user => exact ⟨_, rfl, Or.inr (Or.inr (Or.inr ⟨user, rfl, rfl⟩))⟩
  | resetting user password =>
    simp only [Accounts.advance, Accounts.saveFields]
    split
    · exact ⟨_, rfl, Or.inr (Or.inr (Or.inl ⟨user, password, rfl, rfl⟩))⟩
    · exact ⟨none, rfl, Or.inl rfl⟩
  | rotating user pending =>
    simp only [Accounts.advance, Accounts.saveFields]
    split <;> exact ⟨none, rfl, Or.inl rfl⟩
  | confirming user =>
    simp only [Accounts.advance, Accounts.saveFields]
    split
    · split <;> exact ⟨none, rfl, Or.inl rfl⟩
    · exact ⟨none, rfl, Or.inl rfl⟩

/-- A password change that finds its row has ended the sessions before it. -/
theorem Fits.changed {rid : ℕ} {user : User} {pending : List ℕ}
    (h : s.Fits rid (.rotating user pending)) (input : AccountInput)
    (hrow : (s.accounts.users.get? user.id).isSome = true) :
    (s.advanceAccount P rid input (.rotating user pending)).Ended ⟨user.id, s.moment⟩ [] := by
  refine (h.2 s.moment).blacklist rfl rfl le_rfl fun x hx => ?_
  obtain ⟨row, hget⟩ := Option.isSome_iff_exists.mp hrow
  have hsave : saveColumns UserColumns.copy s.accounts.users .password user =
      some (s.accounts.users.put (UserColumns.password.copy user row)) := by
    simp only [saveColumns, pk_user, hget, Option.map_some]
  change x ∈ (s.accounts.advance P.django rid input
    (.rotating user pending)).refreshTokens.rows at hx
  simp only [Accounts.advance, Accounts.saveFields, hsave] at hx
  rcases Table.mem_insert.mp hx with hold | rfl
  · exact Or.inl (mem_blacklistTokens hold)
  · exact Or.inr (Nat.lt_succ_self _)

theorem mem_revocations_advanceAccount {rid : ℕ} (input : AccountInput) {p : AccountProcess}
    {r : Revocation} (hr : r ∈ (s.advanceAccount P rid input p).revocations) :
    r ∈ s.revocations ∨
      (∃ user pending, p = .rotating user pending ∧ r = ⟨user.id, s.moment⟩ ∧
        (s.accounts.users.get? user.id).isSome = true) ∨
      ∃ pending, p = .blacklisting pending ∧ s.sweeps rid = some r := by
  cases p with
  | profile | staff | changing | resetting | revoking | confirming => exact Or.inl hr
  | rotating user pending =>
    simp only [Sessions.advanceAccount] at hr
    split at hr
    · next hrow =>
      rcases List.mem_cons.mp hr with rfl | hold
      · exact Or.inr (Or.inl ⟨user, pending, rfl, rfl, hrow⟩)
      · exact Or.inl hold
    · exact Or.inl hr
  | blacklisting pending =>
    rcases List.mem_append.mp hr with hnew | hold
    · exact Or.inr (Or.inr ⟨pending, rfl, Option.mem_toList.mp hnew⟩)
    · exact Or.inl hold

theorem Swept.advanceAccount (h : s.Swept) {rid : ℕ} (input : AccountInput) {p : AccountProcess}
    (hp : s.accounts.processes rid = some p) (hwaits : s.waits rid p = false)
    (hmeets : s.Meets P (.account (.advance rid input))) :
    (s.advanceAccount P rid input p).Swept := by
  obtain ⟨hchanging, hrevoking⟩ := hmeets
  have hfits := h.fits rid p hp
  have hmoment := advanceAccount_moment (P := P) (s := s) rid input p
  refine ⟨fun r hr => ?_, fun other q hq => ?_⟩
  · rw [hmoment]
    rcases mem_revocations_advanceAccount input hr with
      hold | ⟨user, pending, rfl, rfl, hrow⟩ | ⟨pending, rfl, hsweep⟩
    · obtain ⟨hbefore, hended⟩ := h.ended r hold
      exact ⟨Nat.le_succ_of_le hbefore, hended.advanceAccount rid input fun _ => hbefore⟩
    · exact ⟨Nat.le_succ _, hfits.changed input hrow⟩
    · obtain ⟨r', hsweep', hbefore, hended⟩ := hfits
      obtain rfl := Option.some.inj (hsweep.symm.trans hsweep')
      exact ⟨Nat.le_succ_of_le hbefore, hended.blacklist rfl rfl hbefore fun x hx =>
        Or.inl (mem_blacklistTokens hx)⟩
  · rw [advanceAccount_accounts] at hq
    obtain ⟨next, hprocesses, hnext⟩ := advance_next P.django s.accounts rid input p
    rw [hprocesses] at hq
    rcases Pool.set_eq_some.mp hq with ⟨rfl, hself⟩ | ⟨hne, hother⟩
    · rcases hnext with rfl | ⟨user, password, user', rfl, hid, rfl⟩ |
        ⟨user, password, rfl, rfl⟩ | ⟨user, rfl, rfl⟩
      · simp at hself
      · obtain rfl := Option.some.inj hself
        refine ⟨?_, fun before => ⟨fun x hx huser _ => ?_, fun other p hother huser => ?_⟩⟩
        · rw [hid]
          exact Function.update_self user.id _ _
        · exact mem_pendingTokens hx (huser.trans hid)
        · exact absurd (huser.trans hid) (hchanging user password hp other p hother)
      · obtain rfl := Option.some.inj hself
        exact ⟨s.moment, Nat.le_succ _, Function.update_self _ _ _⟩
      · obtain rfl := Option.some.inj hself
        obtain ⟨before, hbefore, hsweep⟩ := hfits
        refine ⟨⟨user, before⟩, hsweep, Nat.le_succ_of_le hbefore, fun x hx huser _ => ?_,
          fun other p hother huser => ?_⟩
        · exact mem_pendingTokens hx huser
        · exact hrevoking user ⟨user, before⟩ hp hsweep other p hother huser
    · exact (h.fits other q hother).advanceAccount hne input hwaits

/-! ### The logins and the refreshes -/

/-- Where only logins and refreshes go on, what has ended stays so, and so does what the requests
on accounts rely on, if it does for each of the users. -/
theorem Swept.keep (h : s.Swept) (hprocesses : t.accounts.processes = s.accounts.processes)
    (hlocks : t.rowLocks = s.rowLocks) (hsweeps : t.sweeps = s.sweeps)
    (hrevocations : t.revocations = s.revocations) (hmoment : t.moment = s.moment + 1)
    (hrecent : ∀ r pending, r.before ≤ s.moment → s.Ended r pending →
      (pending = [] ∧ r ∈ s.revocations ∨
        ∃ rid, s.accounts.processes rid = some (.blacklisting pending) ∧ s.sweeps rid = some r) →
      t.Ended r pending)
    (hrotating : ∀ rid user pending, s.accounts.processes rid = some (.rotating user pending) →
      s.rowLocks user.id = some rid → ∀ before, s.Ended ⟨user.id, before⟩ pending →
        t.Ended ⟨user.id, before⟩ pending) : t.Swept := by
  refine ⟨fun r hr => ?_, fun rid p hp => ?_⟩
  · rw [hrevocations] at hr
    obtain ⟨hbefore, hended⟩ := h.ended r hr
    exact ⟨hmoment ▸ Nat.le_succ_of_le hbefore,
      hrecent r [] hbefore hended (Or.inl ⟨rfl, hr⟩)⟩
  · rw [hprocesses] at hp
    have hfits := h.fits rid p hp
    cases p with
    | rotating user pending =>
      obtain ⟨hlock, hended⟩ := hfits
      exact ⟨hlocks ▸ hlock, fun before =>
        hrotating rid user pending hp hlock before (hended before)⟩
    | revoking user =>
      obtain ⟨before, hbefore, hsweep⟩ := hfits
      exact ⟨before, hmoment ▸ Nat.le_succ_of_le hbefore, hsweeps ▸ hsweep⟩
    | blacklisting pending =>
      obtain ⟨r, hsweep, hbefore, hended⟩ := hfits
      exact ⟨r, hsweeps ▸ hsweep, hmoment ▸ Nat.le_succ_of_le hbefore,
        hrecent r pending hbefore hended (Or.inr ⟨rid, hp, hsweep⟩)⟩
    | profile | staff | changing | resetting | confirming => exact True.intro

theorem Swept.advanceRequest (h : s.Swept) {rid : ℕ} {p : SessionProcess}
    (hp : s.requests rid = some p) : (s.advanceRequest rid p).Swept := by
  have hkeep : ∀ r pending, s.Ended r pending → (s.advanceRequest rid p).Ended r pending := by
    intro r pending hended
    cases p with
    | refreshing token user session =>
      refine hended.keep none s.moment (evolves_blacklistTokens _ _ _) rfl (by simp)
        fun other q hq _ => Or.inl ?_
      rcases Pool.set_eq_some.mp hq with ⟨-, hself⟩ | ⟨-, hother⟩
      · obtain rfl := Option.some.inj hself
        exact ⟨rid, _, hp, rfl, rfl⟩
      · exact ⟨other, q, hother, rfl, rfl⟩
    | issuing user session =>
      refine hended.keep (some user) session ((evolves_refl _ _).mint rfl) rfl
        (fun huser => hended.2 rid _ hp (Option.some.inj huser)) fun other q hq _ => Or.inl ?_
      rcases Pool.set_eq_some.mp hq with ⟨-, hself⟩ | ⟨-, hother⟩
      · simp at hself
      · exact ⟨other, q, hother, rfl, rfl⟩
  have hrecent := fun r pending (_ : r.before ≤ s.moment) hended
    (_ : pending = [] ∧ r ∈ s.revocations ∨ ∃ rid, s.accounts.processes rid =
      some (.blacklisting pending) ∧ s.sweeps rid = some r) => hkeep r pending hended
  cases p with
  | refreshing | issuing =>
    exact h.keep rfl rfl rfl rfl rfl hrecent fun _ _ _ _ _ _ hended => hkeep _ _ hended

/-- A login or a refresh begins. -/
theorem Ended.begin {r : Revocation} {pending : List ℕ} (h : s.Ended r pending) (rid : ℕ)
    (q : Option SessionProcess)
    (hq : ∀ p, q = some p → p.user = r.user → r.before ≤ p.session) :
    Ended { s.tick s.moment with requests := s.requests.set rid q } r pending := by
  refine h.keep none s.moment (evolves_refl _ _) rfl (by simp) fun other p hp huser => ?_
  rcases Pool.set_eq_some.mp hp with ⟨-, hself⟩ | ⟨-, hother⟩
  · exact Or.inr (hq p hself huser)
  · exact Or.inl ⟨other, p, hother, rfl, rfl⟩

/-- A request on accounts begins. -/
theorem Swept.request (h : s.Swept) (rid : ℕ) (now : Instant) (r : AccountRequest) :
    Swept { s.tick s.moment with accounts := s.accounts.begin P.django rid now r } := by
  have htokens : (s.accounts.begin P.django rid now r).refreshTokens = s.tokens := by
    unfold Accounts.begin
    split <;> rfl
  have hprocesses : ∃ q, (s.accounts.begin P.django rid now r).processes =
      s.accounts.processes.set rid q ∧ ∀ p, q = some p → r.begin P.django now s.accounts.users =
        .ok p := by
    unfold Accounts.begin
    split
    · next p hp => exact ⟨some p, rfl, fun p' hp' => Option.some.inj hp' ▸ hp⟩
    · exact ⟨none, rfl, by simp⟩
  have hended : ∀ r' pending, s.Ended r' pending →
      Ended { s.tick s.moment with accounts := s.accounts.begin P.django rid now r } r' pending :=
    fun r' pending hr' => hr'.keep none s.moment
      (by change Evolves _ _ (s.accounts.begin P.django rid now r).refreshTokens
          rw [htokens]
          exact evolves_refl _ _) rfl (by simp) fun other p hp _ =>
        Or.inl ⟨other, p, hp, rfl, rfl⟩
  refine ⟨fun r' hr' => ?_, fun other p hp => ?_⟩
  · obtain ⟨hbefore, hr'⟩ := h.ended r' hr'
    exact ⟨Nat.le_succ_of_le hbefore, hended r' [] hr'⟩
  · obtain ⟨q, hset, hq⟩ := hprocesses
    change (s.accounts.begin P.django rid now r).processes other = some p at hp
    rw [hset] at hp
    rcases Pool.set_eq_some.mp hp with ⟨rfl, hself⟩ | ⟨-, hother⟩
    · exact fits_begin (hq p hself) other
    · have hfits := h.fits other p hother
      cases p with
      | rotating user pending =>
        exact ⟨hfits.1, fun before => hended _ pending (hfits.2 before)⟩
      | revoking user =>
        obtain ⟨before, hbefore, hsweep⟩ := hfits
        exact ⟨before, Nat.le_succ_of_le hbefore, hsweep⟩
      | blacklisting pending =>
        obtain ⟨r', hsweep, hbefore, hr'⟩ := hfits
        exact ⟨r', hsweep, Nat.le_succ_of_le hbefore, hended r' pending hr'⟩
      | profile | staff | changing | resetting | confirming => exact True.intro

/-- A refresh finds a token that nothing has ended. -/
theorem findUsable_spec {users : Table User} {tokens : Table RefreshToken} {token : ℕ}
    {x : RefreshToken} (h : findUsable users tokens token = some x) :
    x ∈ tokens.rows ∧ x.id = token ∧ x.blacklisted = false ∧
      (users.get? x.userId).any (·.isActive) = true := by
  obtain ⟨hget, hchecks⟩ := Option.filter_eq_some_iff.mp h
  obtain ⟨hmem, hid⟩ := Table.get?_eq_some.mp hget
  obtain ⟨husable, huser⟩ := Bool.and_eq_true_iff.mp hchecks
  exact ⟨hmem, hid, by simpa using husable, huser⟩

/-- A token that is not blacklisted continues a session that an ended revocation has spared. -/
theorem Ended.spared {r : Revocation} {pending : List ℕ} (h : s.Ended r pending)
    {x : RefreshToken} (hx : x ∈ s.tokens.rows) (huser : x.userId = r.user)
    (husable : x.blacklisted = false) (hlisted : x.id ∈ pending → r.before ≤ s.session x.id) :
    r.before ≤ s.session x.id := by
  by_contra hbefore
  rcases h.1 x hx huser (Nat.lt_of_not_le hbefore) with hblack | hmem
  · simp [husable] at hblack
  · exact hbefore (hlisted hmem)

theorem swept_preserves (P : SignInPlatform) :
    (sessions P).Preserves (fun s a => s.Meets P a) Swept := by
  intro s a t h hok hstep
  cases a with
  | account a =>
    cases a with
    | request rid now r =>
      simp only [sessions, step] at hstep
      split at hstep
      · obtain rfl := Option.some.inj hstep
        exact h.request rid now r
      · simp at hstep
    | advance rid input =>
      simp only [sessions, step] at hstep
      obtain ⟨p, hp, hadvance⟩ := Option.bind_eq_some_iff.mp hstep
      split at hadvance
      · simp at hadvance
      · next hwaits =>
        obtain rfl := Option.some.inj hadvance
        exact h.advanceAccount input hp (by simpa using hwaits) hok
  | login rid email password =>
    simp only [sessions, step] at hstep
    split at hstep
    · obtain rfl := Option.some.inj hstep
      refine h.keep rfl rfl rfl rfl rfl (fun r pending hbefore hended _ => ?_)
        fun other user pending _ hlock before hended => ?_
      · refine hended.begin rid _ fun p hp _ => ?_
        obtain ⟨u, -, rfl⟩ := Option.map_eq_some_iff.mp hp
        exact hbefore
      · refine hended.begin rid _ fun p hp huser => ?_
        obtain ⟨u, hu, rfl⟩ := Option.map_eq_some_iff.mp hp
        have hid : u.id = user.id := huser
        have hfree := hok u hu
        rw [hid, hlock] at hfree
        simp at hfree
    · simp at hstep
  | refresh rid token =>
    simp only [sessions, step] at hstep
    split at hstep
    · obtain rfl := Option.some.inj hstep
      obtain ⟨hrotating, hblacklisting⟩ := hok
      refine h.keep rfl rfl rfl rfl rfl (fun r pending _ hended hwhy => ?_)
        fun other user pending hother _ before hended => ?_
      · refine hended.begin rid _ fun p hp huser => ?_
        obtain ⟨x, hx, rfl⟩ := Option.map_eq_some_iff.mp hp
        obtain ⟨hmem, rfl, husable, -⟩ := findUsable_spec hx
        refine hended.spared hmem huser husable fun hlisted => ?_
        rcases hwhy with ⟨rfl, -⟩ | ⟨other, hother, hsweep⟩
        · simp at hlisted
        · exact hblacklisting other pending r hother hsweep hlisted
      · refine hended.begin rid _ fun p hp huser => ?_
        obtain ⟨x, hx, rfl⟩ := Option.map_eq_some_iff.mp hp
        obtain ⟨hmem, rfl, husable, -⟩ := findUsable_spec hx
        exact hended.spared hmem huser husable fun hlisted =>
          absurd hlisted (hrotating other user pending hother)
    · simp at hstep
  | advance rid =>
    simp only [sessions, step] at hstep
    obtain ⟨p, hp, rfl⟩ := Option.map_eq_some_iff.mp hstep
    exact h.advanceRequest hp

end Sessions

/-- In every run that meets the condition, a password change or reset that has returned has left
no usable token of the sessions that began before it. -/
theorem revocation_complete (P : SignInPlatform) (s₀ s : Sessions)
    (hidle : s₀.accounts.processes = .idle) (hnone : s₀.revocations = [])
    (h : (sessions P).Reach (fun s a => s.Meets P a) s₀ s) : s.Complete := by
  have hstart : s₀.Swept := ⟨by simp [hnone], by simp [hidle]⟩
  have hswept := h.invariant (Sessions.swept_preserves P) hstart
  intro r hr x hx huser hbefore
  rcases ((hswept.ended r hr).2).1 x hx huser hbefore with hblack | hmem
  · exact hblack
  · simp at hmem

/-! ### Samples -/

namespace Sample

def startSessions : Sessions where
  accounts := accounts

/-- A password change, a refresh of the token that it returns, then a reset during which the user
signs in with the new password. -/
def changeAndReset : List SessionAction :=
  [.login 0 "a@b" "first-password", .advance 0,
    .account (.request 0 0 (.changePassword 1 "first-password" "second-password")),
    .account (.advance 0 { salt := "2" }), .account (.advance 0 {}),
    .refresh 0 2, .advance 0, .advance 0,
    .account (.request 0 0 (.resetPassword 1 "reset-a@b" "third-password")),
    .account (.advance 0 { salt := "3" }), .login 0 "a@b" "third-password", .advance 0,
    .account (.advance 0 {}), .account (.advance 0 {}),
    .login 0 "a@b" "third-password", .advance 0]

/-- The next statement lists the tokens. -/
def listsTokens : AccountProcess → Bool
  | .changing _ _ | .revoking _ => true
  | _ => false

/-- There is one request at a time on accounts and one other, and these keep apart where one of
them lists the tokens. -/
def OneEach (s : Sessions) : SessionAction → Prop
  | .account (.request rid _ _) => rid = 0
  | .account (.advance rid _) => rid = 0 ∧
    ((s.accounts.processes 0).all (!listsTokens ·) || (s.requests 0).isNone) = true
  | .login rid email password => rid = 0 ∧
    (signInPlatform.authenticateLogin s.accounts.users email password).all
      (fun u => (s.rowLocks u.id).isNone) = true
  | .refresh rid token => rid = 0 ∧
    (s.accounts.processes 0).all (fun p => !p.listed.contains token) = true
  | .advance rid => rid = 0

instance decidableOneEach (s : Sessions) : ∀ a, Decidable (OneEach s a)
  | .account (.request _ _ _) | .account (.advance _ _) | .login _ _ _ | .refresh _ _
  | .advance _ => by unfold OneEach; infer_instance

/-- The other requests are idle. -/
def OthersIdle (s : Sessions) : Prop :=
  ∀ other, other ≠ 0 → s.accounts.processes other = none ∧ s.requests other = none

theorem oneEach_preserves : (sessions signInPlatform).Preserves OneEach OthersIdle := by
  intro s a t h hok hstep other hother
  obtain ⟨haccounts, hrequests⟩ := h other hother
  cases a with
  | account a =>
    cases a with
    | request rid now r =>
      obtain rfl : rid = 0 := hok
      simp only [sessions, Sessions.step] at hstep
      split at hstep
      · obtain rfl := Option.some.inj hstep
        refine ⟨?_, hrequests⟩
        change (s.accounts.begin signInPlatform.django 0 now r).processes other = none
        unfold Accounts.begin
        split <;> exact (Pool.set_of_ne _ _ hother).trans haccounts
      · simp at hstep
    | advance rid input =>
      obtain ⟨rfl, -⟩ : rid = 0 ∧ _ := hok
      simp only [sessions, Sessions.step] at hstep
      obtain ⟨p, -, hadvance⟩ := Option.bind_eq_some_iff.mp hstep
      split at hadvance
      · simp at hadvance
      · obtain rfl := Option.some.inj hadvance
        rw [Sessions.advanceAccount_accounts, Sessions.advanceAccount_requests]
        obtain ⟨q, hset, -⟩ :=
          Sessions.advance_next signInPlatform.django s.accounts 0 input p
        rw [hset]
        exact ⟨(Pool.set_of_ne _ _ hother).trans haccounts, hrequests⟩
  | login rid email password =>
    obtain ⟨rfl, -⟩ : rid = 0 ∧ _ := hok
    simp only [sessions, Sessions.step] at hstep
    split at hstep
    · obtain rfl := Option.some.inj hstep
      exact ⟨haccounts, (Pool.set_of_ne _ _ hother).trans hrequests⟩
    · simp at hstep
  | refresh rid token =>
    obtain ⟨rfl, -⟩ : rid = 0 ∧ _ := hok
    simp only [sessions, Sessions.step] at hstep
    split at hstep
    · obtain rfl := Option.some.inj hstep
      exact ⟨haccounts, (Pool.set_of_ne _ _ hother).trans hrequests⟩
    · simp at hstep
  | advance rid =>
    obtain rfl : rid = 0 := hok
    obtain ⟨p, -, rfl⟩ := Option.map_eq_some_iff.mp hstep
    cases p <;> exact ⟨haccounts, (Pool.set_of_ne _ _ hother).trans hrequests⟩

theorem meets_of_oneEach (s : Sessions) (a : SessionAction) (hidle : OthersIdle s)
    (hok : OneEach s a) : s.Meets signInPlatform a := by
  cases a with
  | account a =>
    cases a with
    | request => exact True.intro
    | advance rid input =>
      obtain ⟨rfl, hfree⟩ : rid = 0 ∧
        ((s.accounts.processes 0).all (!listsTokens ·) || (s.requests 0).isNone) = true := hok
      have hnone : ∀ p, s.accounts.processes 0 = some p → listsTokens p = true →
          ∀ other q, s.requests other ≠ some q := by
        intro p hp hlists other q hq
        by_cases hother : other = 0
        · subst hother
          simp [hp, hlists, hq] at hfree
        · simp [(hidle other hother).2] at hq
      exact ⟨fun user password hp other q hq => absurd hq (hnone _ hp rfl other q),
        fun user r hp _ other q hq => absurd hq (hnone _ hp rfl other q)⟩
  | login rid email password =>
    obtain ⟨-, hfree⟩ : rid = 0 ∧
      (signInPlatform.authenticateLogin s.accounts.users email password).all
        (fun u => (s.rowLocks u.id).isNone) = true := hok
    intro user huser
    rw [huser] at hfree
    exact Option.isNone_iff_eq_none.mp hfree
  | refresh rid token =>
    obtain ⟨-, hfree⟩ : rid = 0 ∧
      (s.accounts.processes 0).all (fun p => !p.listed.contains token) = true := hok
    have hunlisted : ∀ other p, s.accounts.processes other = some p → token ∉ p.listed := by
      intro other p hp hmem
      by_cases hother : other = 0
      · subst hother
        simp [hp, hmem] at hfree
      · simp [(hidle other hother).1] at hp
    exact ⟨fun other user pending hp => hunlisted other _ hp,
      fun other pending r hp _ hmem => absurd hmem (hunlisted other _ hp)⟩
  | advance => exact True.intro

end Sample

/-- After a change and a reset, only the login with the last password has a usable token. -/
theorem sample_revocation_complete :
    ∃ s : Sessions, s.revocations = [⟨1, 9⟩, ⟨1, 4⟩] ∧ pendingTokens s.tokens 1 = [5] ∧
      s.Complete := by
  obtain ⟨s, hreach, hs⟩ := System.exists_reach_of_guardedRun (sessions Sample.signInPlatform)
    Sample.OneEach Sample.startSessions Sample.changeAndReset
    (fun s => decide (s.revocations = [⟨1, 9⟩, ⟨1, 4⟩] ∧ pendingTokens s.tokens 1 = [5]))
    (by decide +kernel)
  obtain ⟨hrevocations, hpending⟩ := of_decide_eq_true hs
  have hmeets : (sessions Sample.signInPlatform).Reach
      (fun s a => s.Meets Sample.signInPlatform a) Sample.startSessions s :=
    hreach.mono_of_invariant _ Sample.oneEach_preserves Sample.meets_of_oneEach
      fun _ _ => ⟨rfl, rfl⟩
  exact ⟨s, hrevocations, hpending,
    revocation_complete Sample.signInPlatform Sample.startSessions s rfl rfl hmeets⟩

/-- A login has checked the old password, the password is changed, and the login gets its token,
which stays usable. -/
theorem login_survives_change :
    ¬∀ (P : SignInPlatform) (s₀ s : Sessions), s₀.accounts.processes = .idle →
      s₀.revocations = [] → (sessions P).Reach (fun _ _ => True) s₀ s → s.Complete := by
  intro h
  obtain ⟨s, hreach, hs⟩ := System.exists_reach_of_guardedRun (sessions Sample.signInPlatform)
    (fun _ _ => True) Sample.startSessions
    [.login 0 "a@b" "first-password",
      .account (.request 0 0 (.changePassword 1 "first-password" "second-password")),
      .account (.advance 0 { salt := "2" }), .account (.advance 0 {}), .advance 0]
    (fun s => decide (s.revocations = [⟨1, 3⟩] ∧
      s.tokens.rows = [⟨1, 1, false⟩, ⟨2, 1, false⟩] ∧ s.session 2 = 0)) (by decide +kernel)
  obtain ⟨hrevocations, htokens, hsession⟩ := of_decide_eq_true hs
  have hcomplete := h Sample.signInPlatform Sample.startSessions s rfl rfl hreach ⟨1, 3⟩
    (by simp [hrevocations]) ⟨2, 1, false⟩ (by simp [htokens]) rfl (by simp [hsession])
  exact absurd hcomplete (by decide)

end PushIT
