import PushIT.RefreshCookies

/-!
# What the cookie of a browser is good for

Along every run of `PushIT.RefreshCookies`, whatever overtakes what: a token that was given up is
never accepted again, although the rows that say so are deleted; the cookie outlives the browser
exactly if its token says so, and a session that was not to be remembered stays so; and a page of
another origin that has nothing but the cookie leaves no trace.

## Main definitions

* `AuthServer.Sound`, `AuthServer.Extends`: what every view keeps.
* `AuthServer.choice`: whether the session a view answers with is to be remembered.
* `AuthCall.rides`: a request that has nothing but the cookie.

## Main results

* `spent_tokens_refused`: a token that was given up.
* `unremembered_sessions_end`: the cookie and its session.
* `riding_calls_leave_no_trace`: requests of other origins.
-/

namespace PushIT

open Relational Transition

namespace AuthServer

variable {P : SignInPlatform} {cfg : AuthSettings} {s t u : AuthServer}

/-! ### What the views keep -/

/-- The rows repeat the dates of their tokens. -/
def Sound (s : AuthServer) : Prop :=
  ∀ row ∈ s.outstanding.rows, ∃ c, s.signed.get? row.id = some c ∧ c.expiresAt = row.expiresAt

/-- The token was signed, and is expired or blacklisted. -/
def Dead (s : AuthServer) (j : ℕ) : Prop :=
  ∃ c, s.signed.get? j = some c ∧
    (c.expiresAt ≤ s.clock ∨ (s.outstanding.get? j).any (·.blacklisted) = true)

/-- A token is signed for ever, and dead for ever. -/
structure Extends (s t : AuthServer) : Prop where
  signed : ∀ ⦃j c⦄, s.signed.get? j = some c → t.signed.get? j = some c
  sound : s.Sound → t.Sound
  dead : s.Sound → ∀ ⦃j⦄, s.Dead j → t.Dead j

theorem Extends.refl (s : AuthServer) : s.Extends s :=
  ⟨fun _ _ h => h, fun h => h, fun _ _ h => h⟩

theorem Extends.trans (h : s.Extends t) (h' : t.Extends u) : s.Extends u :=
  ⟨fun _ _ hj => h'.signed (h.signed hj), fun hs => h'.sound (h.sound hs),
    fun hs _ hj => h'.dead (h.sound hs) (h.dead hs hj)⟩

theorem Dead.verify_eq_none {j : ℕ} (h : s.Dead j) : s.verify j = none := by
  obtain ⟨c, hc, hdead⟩ := h
  rw [verify, hc]
  rcases hdead with hexpired | hblack
  · exact Option.filter_eq_none_iff.mpr fun x hx => by
      obtain rfl := Option.some.inj hx
      have hnot : ¬s.clock < c.expiresAt := not_lt.mpr hexpired
      simp [hnot]
  · simp [Option.filter, hblack]

theorem dead_of_verify_eq_none {j : ℕ} {c : RefreshClaims} (hc : s.signed.get? j = some c)
    (h : s.verify j = none) : s.Dead j := by
  refine ⟨c, hc, ?_⟩
  rw [verify, hc] at h
  have hnot := Option.filter_eq_none_iff.mp h c rfl
  by_contra hdead
  rw [not_or, not_le, Bool.not_eq_true] at hdead
  exact hnot (by simp [hdead.1, hdead.2])

theorem verify_eq_some {j : ℕ} {c : RefreshClaims} (h : s.verify j = some c) :
    s.signed.get? j = some c ∧ c.id = j := by
  obtain ⟨hc, -⟩ := Option.filter_eq_some_iff.mp h
  exact ⟨hc, (Table.get?_eq_some.mp hc).2⟩

theorem extends_users (s : AuthServer) (users : Table User) : s.Extends { s with users } :=
  ⟨fun _ _ h => h, fun h => h, fun _ _ h => h⟩

theorem extends_tick (s : AuthServer) (duration : ℕ) :
    s.Extends { s with clock := s.clock + duration } := by
  refine ⟨fun _ _ h => h, fun h => h, fun _ j ⟨c, hc, hdead⟩ => ⟨c, hc, hdead.imp_left ?_⟩⟩
  intro hexpired
  exact hexpired.trans (Int.le_add_of_nonneg_right (Int.natCast_nonneg duration))

/-- The next token has a number that no token before had. -/
theorem extends_mint (s : AuthServer) (user : ℕ) (persist : Bool) :
    s.Extends (s.mint cfg user persist) := by
  have hsigned : ∀ ⦃j c⦄, s.signed.get? j = some c →
      (s.mint cfg user persist).signed.get? j = some c :=
    fun _ _ h => Table.get?_insert_of_mem h
  refine ⟨hsigned, fun h row hrow => ?_, fun _ j ⟨c, hc, hdead⟩ => ⟨c, hsigned hc, ?_⟩⟩
  · rcases Table.mem_put.mp hrow with rfl | ⟨hrow, -⟩
    · exact ⟨_, Table.get?_eq_some.mpr ⟨Table.mem_insert.mpr (Or.inr rfl), rfl⟩, rfl⟩
    · obtain ⟨c, hc, hdate⟩ := h row hrow
      exact ⟨c, hsigned hc, hdate⟩
  · have hle : j ≤ s.signed.seq := by
      obtain ⟨hmem, rfl⟩ := Table.get?_eq_some.mp hc
      exact s.signed.bounded c hmem
    refine hdead.imp_right fun hblack => ?_
    rw [mint, Table.get?_put, if_neg (by simp; omega)]
    exact hblack

/-- The row that a blacklisting leaves. -/
theorem blacklist_row (h : s.Sound) {c : RefreshClaims} (hc : s.signed.get? c.id = some c) :
    ∃ row : OutstandingToken, (s.blacklist c).outstanding = s.outstanding.put row ∧
      row.id = c.id ∧ row.expiresAt = c.expiresAt ∧ row.blacklisted = true := by
  refine ⟨_, rfl, ?_⟩
  cases hget : s.outstanding.get? c.id with
  | none => exact ⟨rfl, rfl, rfl⟩
  | some row =>
    obtain ⟨hmem, hid⟩ := Table.get?_eq_some.mp hget
    have hid : row.id = c.id := hid
    obtain ⟨c', hc', hdate⟩ := h row hmem
    rw [hid, hc] at hc'
    obtain rfl := Option.some.inj hc'
    exact ⟨hid, hdate.symm, rfl⟩

theorem dead_blacklist (h : s.Sound) {c : RefreshClaims} (hc : s.signed.get? c.id = some c) :
    (s.blacklist c).Dead c.id := by
  obtain ⟨row, hrow, hid, -, hblack⟩ := blacklist_row h hc
  refine ⟨c, hc, Or.inr ?_⟩
  rw [hrow, Table.get?_put, if_pos (show c.id = pk row from hid.symm)]
  exact hblack

theorem extends_blacklist (s : AuthServer) {c : RefreshClaims}
    (hc : s.signed.get? c.id = some c) : s.Extends (s.blacklist c) := by
  refine ⟨fun _ _ h => h, fun h row' hrow' => ?_, fun h j hj => ?_⟩
  · obtain ⟨row, hrow, hid, hdate, -⟩ := blacklist_row h hc
    rw [hrow] at hrow'
    rcases Table.mem_put.mp hrow' with rfl | ⟨hmem, -⟩
    · exact ⟨c, hid ▸ hc, hdate.symm⟩
    · exact h row' hmem
  · by_cases hjc : j = c.id
    · exact hjc ▸ dead_blacklist h hc
    · obtain ⟨row, hrow, hid, -⟩ := blacklist_row h hc
      obtain ⟨c', hc', hdead⟩ := hj
      refine ⟨c', hc', hdead.imp_right fun hblack => ?_⟩
      rw [hrow, Table.get?_put, if_neg fun heq => hjc (heq.trans hid)]
      exact hblack

/-- Rows are rewritten with their dates, and none leaves the blacklist. -/
theorem extends_update (s : AuthServer) (users : Table User) (p : OutstandingToken → Bool)
    (f : OutstandingToken → OutstandingToken) (hf : ∀ r, pk (f r) = pk r)
    (hkeeps : ∀ r, (f r).expiresAt = r.expiresAt ∧ (r.blacklisted → (f r).blacklisted)) :
    s.Extends { s with users, outstanding := s.outstanding.update p f hf } := by
  refine ⟨fun _ _ h => h, fun h row hrow => ?_, fun _ j ⟨c, hc, hdead⟩ => ⟨c, hc, ?_⟩⟩
  · obtain ⟨row, hmem, rfl⟩ := List.mem_map.mp hrow
    obtain ⟨c, hc, hdate⟩ := h row hmem
    split
    · have hid : (f row).id = row.id := hf row
      exact ⟨c, hid ▸ hc, hdate.trans (hkeeps row).1.symm⟩
    · exact ⟨c, hc, hdate⟩
  · refine hdead.imp_right fun hblack => ?_
    obtain ⟨row, hrow, hblack⟩ := (Option.any_eq_true _ _).mp hblack
    simp only [Table.get?_update, hrow, Option.map_some, Option.any_some]
    split
    · exact (hkeeps row).2 hblack
    · exact hblack

theorem extends_endSessions (s : AuthServer) (user : ℕ) : s.Extends (s.endSessions user) :=
  extends_update s s.users _ _ _ fun _ => ⟨rfl, fun _ => rfl⟩

/-- The rows of a deleted account lose their user. -/
theorem extends_forget (s : AuthServer) (user : ℕ) (users : Table User) :
    s.Extends { s with
      users
      outstanding := s.outstanding.update (fun x => x.userId == some user)
        (fun x => { x with userId := none }) (fun _ => rfl) } :=
  extends_update s users _ _ _ fun _ => ⟨rfl, fun hblack => hblack⟩

/-- The rows that are flushed are those of expired tokens. -/
theorem extends_flush (s : AuthServer) {now : Instant} (hnow : now ≤ s.clock) :
    s.Extends (s.flush now) := by
  refine ⟨fun _ _ h => h, fun h row hrow => h row (Table.mem_delete.mp hrow).1,
    fun h j ⟨c, hc, hdead⟩ => ⟨c, hc, ?_⟩⟩
  rcases hdead with hexpired | hblack
  · exact Or.inl hexpired
  · obtain ⟨row, hrow, hblack⟩ := (Option.any_eq_true _ _).mp hblack
    obtain ⟨hmem, hid⟩ := Table.get?_eq_some.mp hrow
    have hid : row.id = j := hid
    by_cases hflushed : row.expiresAt < now
    · obtain ⟨c', hc', hdate⟩ := h row hmem
      rw [hid, hc] at hc'
      obtain rfl := Option.some.inj hc'
      exact Or.inl (hdate.le.trans (hflushed.le.trans hnow))
    · refine Or.inr ?_
      rw [flush, Table.get?_delete_of_not hrow (by simpa using hflushed)]
      exact hblack

/-! ### The answers -/

/-- Whether the session that a call is answered with is to be remembered. -/
def choice (P : SignInPlatform) (s : AuthServer) (call : AuthCall) : Bool :=
  match call.view with
  | .login _ _ rememberMe => rememberMe || !call.headers.wantsCookie P
  | .refresh body =>
    ((if call.headers.wantsCookie P then body <|> call.cookie else body).bind s.verify).any
      (·.persist)
  | .changePassword _ _ => s.cookieSessionPersists P call
  | .confirmEmail _ | .verifyMagicLink _ => true
  | .logout _ | .deleteAccount _ => false

/-- A view forgets nothing, and the cookie it sets has the new token and outlives the browser
exactly if the session is to be remembered. -/
structure Serves (s : AuthServer) (persist : Bool) (served : AuthServer × AuthAnswer) : Prop where
  kept : s.Extends served.1
  cookie : ∀ j maxAge, served.2.setCookie = some (.set j maxAge) →
    maxAge.isSome = persist ∧ ∃ c, served.1.signed.get? j = some c ∧ c.persist = persist

/-- An answer that sets no cookie. -/
theorem serves_of_extends {persist : Bool} {answer : AuthAnswer} (h : s.Extends t)
    (hcookie : ∀ j maxAge, answer.setCookie ≠ some (.set j maxAge)) :
    s.Serves persist (t, answer) :=
  ⟨h, fun j maxAge hset => absurd hset (hcookie j maxAge)⟩

theorem serves_issue (h : s.Extends t) (call : AuthCall) (user : ℕ) (persist : Bool)
    (code : String) : s.Serves persist (t.issue P cfg call user persist code) := by
  refine ⟨h.trans (extends_mint t user persist), fun j maxAge hset => ?_⟩
  have hnew : (t.mint cfg user persist).signed.get? (t.signed.seq + 1) =
      some ⟨t.signed.seq + 1, user, t.clock + cfg.refreshTokenLifetime, persist⟩ :=
    Table.get?_eq_some.mpr ⟨Table.mem_insert.mpr (Or.inr rfl), rfl⟩
  simp only [issue, deliverTokens] at hset
  split at hset
  · simp only [Option.some.injEq, CookieChange.set.injEq] at hset
    obtain ⟨rfl, rfl⟩ := hset
    refine ⟨?_, _, hnew, rfl⟩
    simp only [persists, hnew, Option.all_some]
    cases persist <;> rfl
  · cases hset

theorem serves_rotate (call : AuthCall) (token : ℕ) :
    s.Serves ((s.verify token).any (·.persist)) (s.rotate P cfg call token) := by
  unfold rotate
  cases hverify : s.verify token with
  | none => exact serves_of_extends (.refl s) (by simp)
  | some c =>
    simp only [Option.any_some]
    split
    · obtain ⟨hc, rfl⟩ := verify_eq_some hverify
      exact serves_issue (extends_blacklist s hc) call c.userId c.persist ""
    · exact serves_of_extends (.refl s) (by simp)

theorem extends_elim (o : Option ℕ) : s.Extends ((o.bind s.verify).elim s s.blacklist) := by
  cases h : o.bind s.verify with
  | none => exact .refl s
  | some c =>
    obtain ⟨j, -, hverify⟩ := Option.bind_eq_some_iff.mp h
    obtain ⟨hc, rfl⟩ := verify_eq_some hverify
    exact extends_blacklist s hc

theorem eq_of_guard {h : AuthHeaders} {answer : AuthAnswer}
    (hguard : cookieOriginGuard P cfg h = some answer) :
    answer = { httpStatus := 403, code := "origin_not_allowed" } := by
  unfold cookieOriginGuard at hguard
  split at hguard
  · exact (Option.some.inj hguard).symm
  · cases hguard

/-- Each view. -/
theorem serves_serve (P : SignInPlatform) (cfg : AuthSettings) (s : AuthServer) (call : AuthCall)
    (salt : String) : s.Serves (s.choice P call) (s.serve P cfg call salt) := by
  have hsame : ∀ {persist : Bool} {answer : AuthAnswer},
      (∀ change, answer.setCookie ≠ some change) → s.Serves persist (s, answer) :=
    fun h => serves_of_extends (.refl s) fun j maxAge => h _
  have hrefused : ∀ {persist : Bool} {rejected : AuthAnswer},
      cookieOriginGuard P cfg call.headers = some rejected → s.Serves persist (s, rejected) :=
    fun h => hsame (by simp [eq_of_guard h])
  cases hview : call.view with
  | login email password rememberMe =>
    simp only [serve, hview, choice, login]
    split
    · next hrejected => exact hrefused hrejected
    · split
      · exact hsame (by simp)
      · split
        · exact hsame (by simp)
        · exact serves_issue (.refl s) call _ _ _
  | confirmEmail user =>
    simp only [serve, hview, choice, openLink]
    split
    · next hrejected => exact hrefused hrejected
    · split
      · exact hsame (by simp)
      · exact serves_issue (.refl s) call _ _ _
  | verifyMagicLink user =>
    simp only [serve, hview, choice, openLink]
    split
    · next hrejected => exact hrefused hrejected
    · split
      · exact hsame (by simp)
      · exact serves_issue (.refl s) call _ _ _
  | refresh body =>
    simp only [serve, hview, choice, refresh]
    by_cases hcookie : call.headers.wantsCookie P = true
    · simp only [hcookie, Bool.not_true, Bool.false_eq_true, if_false, if_true]
      split
      · next hrejected => exact hrefused hrejected
      · split
        · exact hsame (by simp)
        · next token htoken =>
          rw [htoken]
          exact serves_rotate call token
    · simp only [Bool.not_eq_true] at hcookie
      simp only [hcookie, Bool.not_false, if_true, Bool.false_eq_true, if_false]
      cases body with
      | none => exact hsame (by simp)
      | some token => exact serves_rotate call token
  | logout body =>
    simp only [serve, hview, logout]
    split
    · exact hsame (by simp)
    · split
      · split
        · exact hsame (by simp)
        · split
          · exact hsame (by simp)
          · split
            · exact hsame (by simp)
            · next c hverify =>
              obtain ⟨hc, rfl⟩ := verify_eq_some hverify
              exact serves_of_extends (extends_blacklist s hc) (by simp)
      · split
        · next hrejected => exact hrefused hrejected
        · exact serves_of_extends (extends_elim _) (by simp)
  | changePassword current new =>
    simp only [serve, hview, choice, changePassword]
    split
    · exact hsame (by simp)
    · next u hu =>
      split
      · next hrejected => exact hrefused hrejected
      · split
        · exact hsame (by simp)
        · split
          · exact hsame (by simp)
          · split
            · exact hsame (by simp)
            · exact serves_issue ((extends_users s _).trans (extends_endSessions _ u.id)) call _ _ _
  | deleteAccount currentPassword =>
    simp only [serve, hview, deleteAccount]
    split
    · exact hsame (by simp)
    · next u hu =>
      split
      · exact hsame (by simp)
      · refine serves_of_extends
          ((extends_endSessions s u.id).trans (extends_forget _ u.id _)) fun j maxAge => ?_
        simp only
        split <;> simp

end AuthServer

/-! ### Tokens that were given up -/

/-- The token that a refresh or a logout presents. -/
def AuthCall.presents (P : SignInPlatform) (call : AuthCall) : Option ℕ :=
  match call.view with
  | .refresh body | .logout body =>
    if call.headers.wantsCookie P then body <|> call.cookie else body
  | _ => none

namespace AuthServer

variable {P : SignInPlatform} {cfg : AuthSettings} {s : AuthServer}

theorem dead_rotate (h : s.Sound) (call : AuthCall) (token : ℕ)
    (hanswer : (s.rotate P cfg call token).2.httpStatus ≠ 401) :
    (s.rotate P cfg call token).1.Dead token := by
  unfold rotate at hanswer ⊢
  cases hverify : s.verify token with
  | none => simp [hverify] at hanswer
  | some c =>
    obtain ⟨hc, rfl⟩ := verify_eq_some hverify
    simp only [hverify] at hanswer ⊢
    split
    · have hsound := (extends_blacklist s hc).sound h
      exact (extends_mint _ c.userId c.persist).dead hsound (dead_blacklist h hc)
    · next hinactive => simp [hinactive] at hanswer

/-- A refresh or a logout that succeeds gives its token up, whatever the state of it was. -/
theorem dead_serve (h : s.Sound) {call : AuthCall} {salt : String} {j : ℕ} {c : RefreshClaims}
    (hj : call.presents P = some j) (hc : s.signed.get? j = some c)
    (hanswer : (s.serve P cfg call salt).2.httpStatus = 200 ∨
      (s.serve P cfg call salt).2.httpStatus = 204) :
    (s.serve P cfg call salt).1.Dead j := by
  have hlogout : ∀ {o : Option RefreshClaims}, s.verify j = o → (o.elim s s.blacklist).Dead j := by
    intro o ho
    cases o with
    | none => exact dead_of_verify_eq_none hc ho
    | some c' =>
      obtain ⟨hc', rfl⟩ := verify_eq_some ho
      exact dead_blacklist h hc'
  unfold AuthCall.presents at hj
  cases hview : call.view with
  | login | confirmEmail | verifyMagicLink | changePassword | deleteAccount => simp [hview] at hj
  | refresh body =>
    simp only [hview] at hj
    simp only [serve, hview, refresh] at hanswer ⊢
    by_cases hcookie : call.headers.wantsCookie P = true
    · simp only [hcookie, if_true] at hj
      simp only [hcookie, Bool.not_true, Bool.false_eq_true, if_false, hj] at hanswer ⊢
      cases hguard : cookieOriginGuard P cfg call.headers with
      | some rejected => simp [hguard, eq_of_guard hguard] at hanswer
      | none =>
        simp only [hguard] at hanswer ⊢
        exact dead_rotate h call j (by omega)
    · simp only [hcookie, Bool.false_eq_true, if_false] at hj
      simp only [hcookie, Bool.not_false, if_true, hj] at hanswer ⊢
      exact dead_rotate h call j (by omega)
  | logout body =>
    simp only [hview] at hj
    simp only [serve, hview, logout] at hanswer ⊢
    split
    · next hbearer => simp [hbearer] at hanswer
    · next hbearer =>
      rw [if_neg hbearer] at hanswer
      by_cases hcookie : call.headers.wantsCookie P = true
      · simp only [hcookie, if_true] at hj
        simp only [hcookie, Bool.not_true, Bool.false_eq_true, if_false, hj] at hanswer ⊢
        cases hguard : cookieOriginGuard P cfg call.headers with
        | some rejected => simp [hguard, eq_of_guard hguard] at hanswer
        | none => exact hlogout rfl
      · simp only [hcookie, Bool.false_eq_true, if_false] at hj
        simp only [hcookie, Bool.not_false, if_true, hj] at hanswer ⊢
        cases hverify : s.verify j with
        | none =>
          simp only [hverify] at hanswer
          split at hanswer <;> simp at hanswer
        | some c' =>
          simp only [hverify] at hanswer ⊢
          split
          · next hnone => simp [hnone] at hanswer
          · exact hlogout hverify

end AuthServer

/-! ### The runs -/

/-- A page of the application asks for the cookie, and not to be remembered. -/
def AuthCall.unremembering (P : SignInPlatform) (call : AuthCall) : Bool :=
  call.headers.wantsCookie P &&
    match call.view with
    | .login _ _ rememberMe => !rememberMe
    | .confirmEmail _ | .verifyMagicLink _ => false
    | .refresh body => body.isNone
    | .logout _ | .changePassword _ _ | .deleteAccount _ => true

/-- The password change that is on its way. -/
def AuthExchange.passwordChange? : AuthExchange → Option AuthCall
  | .sent call =>
    match call.view with
    | .changePassword _ _ => some call
    | _ => none
  | .answered _ _ => none

/-- The pages do not ask to be remembered, and a password is changed while the cookie is good. -/
def AuthWorld.KeepsSession (P : SignInPlatform) (w : AuthWorld) : AuthAction → Prop
  | .send _ call => call.unremembering P = true
  | .serve x _ => ∀ call ∈ (w.exchanges x).bind AuthExchange.passwordChange?,
    (call.cookie.bind w.server.verify).isSome
  | _ => True

instance (P : SignInPlatform) (w : AuthWorld) (a : AuthAction) :
    Decidable (w.KeepsSession P a) := by
  unfold AuthWorld.KeepsSession
  split <;> infer_instance

namespace AuthWorld

variable {P : SignInPlatform} {cfg : AuthSettings} {w w' : AuthWorld}

/-- Nothing was signed, and nothing is on its way. -/
structure Initial (w : AuthWorld) : Prop where
  signed : w.server.signed = .empty
  outstanding : w.server.outstanding = .empty
  jar : w.jar = none
  exchanges : w.exchanges = .idle

theorem Initial.sound (h : w.Initial) : w.server.Sound := by
  simp [AuthServer.Sound, h.outstanding]

/-- Every action keeps what the views keep. -/
theorem step_extends {a : AuthAction} (h : w.step P cfg a = some w') :
    w.server.Extends w'.server := by
  cases a with
  | tick duration =>
    obtain rfl := Option.some.inj h
    exact AuthServer.extends_tick w.server duration
  | send x call =>
    simp only [step, Option.ite_none_right_eq_some, Option.some.injEq] at h
    obtain ⟨-, rfl⟩ := h
    exact .refl _
  | serve x salt =>
    simp only [step] at h
    split at h
    · next call hcall =>
      obtain rfl := Option.some.inj h
      exact (AuthServer.serves_serve P cfg w.server call salt).kept
    · cases h
  | deliver x =>
    simp only [step] at h
    split at h
    · obtain rfl := Option.some.inj h
      exact .refl _
    · cases h
  | lose | quit =>
    obtain rfl := Option.some.inj h
    exact .refl _
  | other call salt =>
    obtain rfl := Option.some.inj h
    exact (AuthServer.serves_serve P cfg w.server call salt).kept
  | putUser user =>
    obtain rfl := Option.some.inj h
    exact AuthServer.extends_users w.server _
  | reset user =>
    obtain rfl := Option.some.inj h
    exact AuthServer.extends_endSessions w.server user
  | flush now =>
    simp only [step, Option.ite_none_right_eq_some, Option.some.injEq] at h
    obtain ⟨hnow, rfl⟩ := h
    exact AuthServer.extends_flush w.server hnow

theorem reach_extends (h : (authWorld P cfg).Reach (fun _ _ => True) w w') :
    w.server.Extends w'.server :=
  h.relation (I := fun _ => True) (R := fun w w' => w.server.Extends w'.server)
    (fun _ _ _ _ _ _ => trivial) (fun w => .refl w.server) (fun _ _ _ => .trans)
    (fun _ _ _ _ _ h => step_extends h) trivial

/-! ### Sessions that are not to be remembered -/

/-- A cookie with its token, that outlives the browser exactly if the token says so. -/
def Told (w : AuthWorld) (token : ℕ) (outlives : Bool) : Prop :=
  ∃ c, w.server.signed.get? token = some c ∧ c.persist = outlives

theorem Told.extends {token : ℕ} {outlives : Bool} (h : w.Told token outlives)
    (hextends : w.server.Extends w'.server) : w'.Told token outlives :=
  let ⟨c, hc, hpersist⟩ := h
  ⟨c, hextends.signed hc, hpersist⟩

/-- The cookies in the browser and on their way to it say what their tokens say. -/
structure TellsTruth (w : AuthWorld) : Prop where
  jar : ∀ c, w.jar = some c → w.Told c.token c.expiresAt.isSome
  answers : ∀ x call answer, w.exchanges x = some (.answered call answer) → ∀ j maxAge,
    answer.setCookie = some (.set j maxAge) → w.Told j maxAge.isSome

/-- What the browser keeps of an answer. -/
theorem mem_store {change : Option CookieChange} {c : JarCookie} (h : w.store change = some c) :
    w.jar = some c ∨ ∃ maxAge, change = some (.set c.token maxAge) ∧
      c.expiresAt.isSome = maxAge.isSome := by
  cases change with
  | none => exact Or.inl h
  | some change =>
    cases change with
    | clear => cases h
    | set token maxAge =>
      obtain rfl := Option.some.inj h
      exact Or.inr ⟨maxAge, rfl, by simp⟩

theorem tellsTruth_preserves :
    (authWorld P cfg).Preserves (fun _ _ => True) TellsTruth := by
  intro w a w' h _ hstep
  have hextends := step_extends hstep
  have hkeep : ∀ {u : AuthWorld}, w.server.Extends u.server →
      (∀ c, u.jar = some c → w.jar = some c) →
      (∀ x call answer, u.exchanges x = some (.answered call answer) →
        w.exchanges x = some (.answered call answer)) → u.TellsTruth :=
    fun hu hjar hexchanges => ⟨fun c hc => (h.jar c (hjar c hc)).extends hu,
      fun x call answer hx j maxAge hset =>
        (h.answers x call answer (hexchanges x call answer hx) j maxAge hset).extends hu⟩
  have hset : ∀ {x : ℕ} {e : Option AuthExchange},
      (∀ call answer, e ≠ some (.answered call answer)) →
      ∀ y call answer, w.exchanges.set x e y = some (.answered call answer) →
        w.exchanges y = some (.answered call answer) := by
    intro x e he y call answer hy
    rcases Pool.set_eq_some.mp hy with ⟨-, heq⟩ | ⟨-, hy⟩
    · exact absurd heq (he call answer)
    · exact hy
  cases a with
  | tick | other | putUser | reset =>
    obtain rfl := Option.some.inj hstep
    exact hkeep hextends (fun _ hc => hc) fun _ _ _ hx => hx
  | flush now =>
    simp only [authWorld, step, Option.ite_none_right_eq_some, Option.some.injEq] at hstep
    obtain ⟨-, rfl⟩ := hstep
    exact hkeep hextends (fun _ hc => hc) fun _ _ _ hx => hx
  | quit =>
    obtain rfl := Option.some.inj hstep
    exact hkeep hextends (fun c hc => (Option.filter_eq_some_iff.mp hc).1) fun _ _ _ hx => hx
  | lose x =>
    obtain rfl := Option.some.inj hstep
    exact hkeep hextends (fun _ hc => hc) (hset (by simp))
  | send x call =>
    simp only [authWorld, step, Option.ite_none_right_eq_some, Option.some.injEq] at hstep
    obtain ⟨-, rfl⟩ := hstep
    exact hkeep hextends (fun _ hc => hc) (hset (by simp))
  | serve x salt =>
    simp only [authWorld, step] at hstep
    split at hstep
    · next call hcall =>
      obtain rfl := Option.some.inj hstep
      refine ⟨fun c hc => (h.jar c hc).extends hextends, fun y call' answer hy j maxAge hj => ?_⟩
      rcases Pool.set_eq_some.mp hy with ⟨-, heq⟩ | ⟨-, hy⟩
      · cases heq
        obtain ⟨hage, c, hc, hpersist⟩ :=
          (AuthServer.serves_serve P cfg w.server call salt).cookie j maxAge hj
        exact ⟨c, hc, hpersist.trans hage.symm⟩
      · exact (h.answers y call' answer hy j maxAge hj).extends hextends
    · cases hstep
  | deliver x =>
    simp only [authWorld, step] at hstep
    split at hstep
    · next call answer hx =>
      obtain rfl := Option.some.inj hstep
      refine ⟨fun c hc => ?_, fun y call' answer' hy => ?_⟩
      · rcases mem_store hc with hc | ⟨maxAge, hset, hage⟩
        · exact h.jar c hc
        · rw [hage]
          exact h.answers x call answer hx c.token maxAge hset
      · exact h.answers y call' answer' (hset (by simp) y call' answer' hy)
    · cases hstep

/-- The cookies in the browser go with it, and so do those that come to it. -/
structure Forgets (P : SignInPlatform) (w : AuthWorld) : Prop where
  jar : ∀ c, w.jar = some c → c.expiresAt = none ∧ w.Told c.token false
  calls : ∀ x call, w.exchanges x = some (.sent call) → call.unremembering P = true ∧
    ∀ j, call.cookie = some j → w.Told j false
  answers : ∀ x call answer, w.exchanges x = some (.answered call answer) → ∀ j maxAge,
    answer.setCookie = some (.set j maxAge) → maxAge = none ∧ w.Told j false

/-- The session of a call is not to be remembered. -/
theorem choice_eq_false {call : AuthCall} (hcall : call.unremembering P = true)
    (hcookie : ∀ j, call.cookie = some j → w.Told j false)
    (hchange : ∀ current new, call.view = .changePassword current new →
      (call.cookie.bind w.server.verify).isSome) : w.server.choice P call = false := by
  have hpersist : ∀ c, call.cookie.bind w.server.verify = some c → c.persist = false := by
    intro c hc
    obtain ⟨j, hj, hverify⟩ := Option.bind_eq_some_iff.mp hc
    obtain ⟨c', hc', hfalse⟩ := hcookie j hj
    obtain rfl := Option.some.inj ((AuthServer.verify_eq_some hverify).1.symm.trans hc')
    exact hfalse
  obtain ⟨hmode, hview⟩ := Bool.and_eq_true_iff.mp hcall
  unfold AuthServer.choice
  cases h : call.view with
  | login email password rememberMe =>
    simp only [h, Bool.not_eq_true'] at hview
    simp [hview, hmode]
  | confirmEmail | verifyMagicLink => simp [h] at hview
  | refresh body =>
    simp only [h, Option.isNone_iff_eq_none] at hview
    subst hview
    simp only [hmode, if_true]
    change (call.cookie.bind w.server.verify).any (·.persist) = false
    cases hc : call.cookie.bind w.server.verify with
    | none => rfl
    | some c => exact hpersist c hc
  | logout | deleteAccount => rfl
  | changePassword current new =>
    simp only [AuthServer.cookieSessionPersists, hmode, Bool.not_true, Bool.false_eq_true, if_false]
    obtain ⟨c, hc⟩ := Option.isSome_iff_exists.mp (hchange current new h)
    rw [hc]
    exact hpersist c hc

theorem forgets_preserves :
    (authWorld P cfg).Preserves (fun w a => w.KeepsSession P a) (Forgets P) := by
  intro w a w' h hkeeps hstep
  have hextends := step_extends hstep
  -- what is left of the cookies, the calls and the answers
  have hkeep : ∀ {u : AuthWorld}, w.server.Extends u.server →
      (∀ c, u.jar = some c → w.jar = some c) →
      (∀ x e, u.exchanges x = some e → w.exchanges x = some e) → u.Forgets P :=
    fun hu hjar hexchanges =>
      ⟨fun c hc => (h.jar c (hjar c hc)).imp_right fun htold => htold.extends hu,
        fun x call hx => (h.calls x call (hexchanges x _ hx)).imp_right
          fun htold j hj => (htold j hj).extends hu,
        fun x call answer hx j maxAge hset =>
          (h.answers x call answer (hexchanges x _ hx) j maxAge hset).imp_right
            fun htold => htold.extends hu⟩
  have hother : ∀ {x y : ℕ} {e e' : Option AuthExchange}, w.exchanges.set x e y = e' →
      (y = x ∧ e = e') ∨ (y ≠ x ∧ w.exchanges y = e') := by
    intro x y e e' hy
    by_cases hyx : y = x
    · exact Or.inl ⟨hyx, by rw [← hy, hyx, Pool.set_self]⟩
    · exact Or.inr ⟨hyx, by rw [← hy, Pool.set_of_ne _ _ hyx]⟩
  cases a with
  | tick | other | putUser | reset =>
    obtain rfl := Option.some.inj hstep
    exact hkeep hextends (fun _ hc => hc) fun _ _ hx => hx
  | flush now =>
    simp only [authWorld, step, Option.ite_none_right_eq_some, Option.some.injEq] at hstep
    obtain ⟨-, rfl⟩ := hstep
    exact hkeep hextends (fun _ hc => hc) fun _ _ hx => hx
  | quit =>
    obtain rfl := Option.some.inj hstep
    exact hkeep hextends (fun c hc => (Option.filter_eq_some_iff.mp hc).1) fun _ _ hx => hx
  | lose x =>
    obtain rfl := Option.some.inj hstep
    refine hkeep hextends (fun _ hc => hc) fun y e hy => ?_
    rcases hother hy with ⟨-, heq⟩ | ⟨-, hy⟩
    · cases heq
    · exact hy
  | send x call =>
    simp only [authWorld, step, Option.ite_none_right_eq_some, Option.some.injEq] at hstep
    obtain ⟨-, rfl⟩ := hstep
    refine ⟨h.jar, fun y call' hy => ?_, fun y call' answer hy => ?_⟩
    · rcases hother hy with ⟨-, heq⟩ | ⟨-, hy⟩
      · cases heq
        refine ⟨hkeeps, fun j hj => ?_⟩
        obtain ⟨c, hc, rfl⟩ := Option.map_eq_some_iff.mp hj
        exact (h.jar c (Option.filter_eq_some_iff.mp hc).1).2
      · exact h.calls y call' hy
    · rcases hother hy with ⟨-, heq⟩ | ⟨-, hy⟩
      · cases heq
      · exact h.answers y call' answer hy
  | serve x salt =>
    simp only [authWorld, step] at hstep
    split at hstep
    · next call hcall =>
      obtain rfl := Option.some.inj hstep
      obtain ⟨hunremembering, hcookie⟩ := h.calls x call hcall
      have hchoice := choice_eq_false hunremembering hcookie fun current new hview =>
        hkeeps call (by simp [hcall, AuthExchange.passwordChange?, hview])
      refine ⟨fun c hc => (h.jar c hc).imp_right fun htold => htold.extends hextends,
        fun y call' hy => ?_, fun y call' answer hy j maxAge hj => ?_⟩
      · rcases hother hy with ⟨-, heq⟩ | ⟨-, hy⟩
        · cases heq
        · exact (h.calls y call' hy).imp_right fun htold j hj => (htold j hj).extends hextends
      · rcases hother hy with ⟨-, heq⟩ | ⟨-, hy⟩
        · cases heq
          obtain ⟨hage, htold⟩ :=
            (AuthServer.serves_serve P cfg w.server call salt).cookie j maxAge hj
          rw [hchoice] at hage htold
          exact ⟨by simpa using hage, htold⟩
        · exact (h.answers y call' answer hy j maxAge hj).imp_right
            fun htold => htold.extends hextends
    · cases hstep
  | deliver x =>
    simp only [authWorld, step] at hstep
    split at hstep
    · next call answer hx =>
      obtain rfl := Option.some.inj hstep
      refine ⟨fun c hc => ?_, fun y call' hy => ?_, fun y call' answer' hy => ?_⟩
      · rcases mem_store hc with hc | ⟨maxAge, hset, hage⟩
        · exact h.jar c hc
        · obtain ⟨rfl, htold⟩ := h.answers x call answer hx c.token maxAge hset
          exact ⟨by simpa using hage, htold⟩
      · rcases hother hy with ⟨-, heq⟩ | ⟨-, hy⟩
        · cases heq
        · exact h.calls y call' hy
      · rcases hother hy with ⟨-, heq⟩ | ⟨-, hy⟩
        · cases heq
        · exact h.answers y call' answer' hy
    · cases hstep

/-! ### Pages of other origins -/

end AuthWorld

/-- A request of a page of another origin, which has no credential but the cookie. -/
def AuthCall.rides (cfg : AuthSettings) (call : AuthCall) : Bool :=
  !call.headers.originAllowed cfg && call.bearer == .absent &&
    match call.view with
    | .login _ _ _ => false
    | .confirmEmail user | .verifyMagicLink user => user.isNone
    | .refresh body | .logout body => body.isNone
    | .changePassword _ _ | .deleteAccount _ => true

/-- Nothing comes of such a request. -/
theorem AuthCall.serve_of_rides {P : SignInPlatform} {cfg : AuthSettings} {call : AuthCall}
    (h : call.rides cfg = true) (s : AuthServer) (salt : String) :
    ∃ answer : AuthAnswer, s.serve P cfg call salt = (s, answer) ∧ answer.setCookie = none ∧
      answer.refresh = none := by
  simp only [rides, Bool.and_eq_true, Bool.not_eq_true', beq_iff_eq] at h
  obtain ⟨⟨horigin, hbearer⟩, hview⟩ := h
  have hguard : cookieOriginGuard P cfg call.headers =
      if call.headers.wantsCookie P then
        some { httpStatus := 403, code := "origin_not_allowed" }
      else none := by
    simp [cookieOriginGuard, horigin]
  unfold AuthServer.serve
  cases hv : call.view with
  | login => simp [hv] at hview
  | confirmEmail user | verifyMagicLink user =>
    simp only [hv, Option.isNone_iff_eq_none] at hview
    subst hview
    simp only [hguard, AuthServer.openLink, Option.bind_none]
    cases call.headers.wantsCookie P <;> exact ⟨_, rfl, rfl, rfl⟩
  | refresh body =>
    simp only [hv, Option.isNone_iff_eq_none] at hview
    subst hview
    simp only [AuthServer.refresh, hguard]
    cases call.headers.wantsCookie P <;> exact ⟨_, rfl, rfl, rfl⟩
  | logout body =>
    simp only [hv, Option.isNone_iff_eq_none] at hview
    subst hview
    simp only [AuthServer.logout, hguard, hbearer, AuthServer.bearerUser]
    cases call.headers.wantsCookie P <;> exact ⟨_, rfl, rfl, rfl⟩
  | changePassword =>
    simp only [AuthServer.changePassword, hbearer, AuthServer.bearerUser]
    exact ⟨_, rfl, rfl, rfl⟩
  | deleteAccount =>
    simp only [AuthServer.deleteAccount, hbearer, AuthServer.bearerUser]
    exact ⟨_, rfl, rfl, rfl⟩

/-- An action of an exchange on a list, which only such requests begin. -/
def AuthAction.RidesIn (cfg : AuthSettings) (xs : List ℕ) : AuthAction → Prop
  | .send x call => x ∈ xs → call.rides cfg = true
  | _ => True

/-- The action is about an exchange on a list. -/
def AuthAction.isIn (xs : List ℕ) (a : AuthAction) : Prop := ∃ x ∈ xs, a.exchange? = some x

instance (xs : List ℕ) : DecidablePred (AuthAction.isIn xs) :=
  fun a => inferInstanceAs (Decidable (∃ x ∈ xs, a.exchange? = some x))

/-- What an exchange is at that such a request began. -/
def AuthExchange.Inert (cfg : AuthSettings) : AuthExchange → Prop
  | .sent call => call.rides cfg = true
  | .answered _ answer => answer.setCookie = none ∧ answer.refresh = none

/-- Two states that differ in such exchanges only. -/
structure AuthWorld.Alike (cfg : AuthSettings) (xs : List ℕ) (w w' : AuthWorld) : Prop where
  server : w.server = w'.server
  jar : w.jar = w'.jar
  known : w.known = w'.known
  others : ∀ x, x ∉ xs → w.exchanges x = w'.exchanges x
  inert : ∀ x ∈ xs, ∀ e, w.exchanges x = some e → e.Inert cfg

namespace AuthWorld

variable {P : SignInPlatform} {cfg : AuthSettings} {xs : List ℕ}

/-- Such requests are silent, and the other actions see no difference. -/
theorem alike_unwinding : (authWorld P cfg).Unwinding (fun _ a => a.RidesIn cfg xs)
    (AuthAction.isIn xs) (Alike cfg xs) where
  quiet := by
    rintro w w' a t h ha ⟨x, hx, hax⟩ hstep
    have hset : ∀ (e : Option AuthExchange), (∀ e', e = some e' → e'.Inert cfg) →
        Alike cfg xs { w with exchanges := w.exchanges.set x e } w' := by
      refine fun e he => ⟨h.server, h.jar, h.known, fun y hy => ?_, fun y hy e' he' => ?_⟩
      · rw [← h.others y hy]
        exact Pool.set_of_ne _ _ fun heq => hy (heq ▸ hx)
      · rcases Pool.set_eq_some.mp he' with ⟨-, heq⟩ | ⟨-, hold⟩
        · exact he e' heq
        · exact h.inert y hy e' hold
    cases a with
    | tick | quit | other | putUser | reset | flush => simp [AuthAction.exchange?] at hax
    | send y call =>
      obtain rfl : y = x := Option.some.inj hax
      simp only [authWorld, step, Option.ite_none_right_eq_some, Option.some.injEq] at hstep
      obtain ⟨-, rfl⟩ := hstep
      refine hset _ fun e he => ?_
      obtain rfl := Option.some.inj he
      exact ha hx
    | serve y salt =>
      obtain rfl : y = x := Option.some.inj hax
      simp only [authWorld, step] at hstep
      split at hstep
      · next call hcall =>
        obtain rfl := Option.some.inj hstep
        obtain ⟨answer, hserve, hcookie, hrefresh⟩ :=
          AuthCall.serve_of_rides (P := P) (h.inert _ hx _ hcall) w.server salt
        simp only [hserve]
        refine hset _ fun e he => ?_
        obtain rfl := Option.some.inj he
        exact ⟨hcookie, hrefresh⟩
      · cases hstep
    | deliver y =>
      obtain rfl : y = x := Option.some.inj hax
      simp only [authWorld, step] at hstep
      split at hstep
      · next call answer hanswer =>
        obtain rfl := Option.some.inj hstep
        obtain ⟨hcookie, hrefresh⟩ := h.inert _ hx _ hanswer
        simp only [receive, hcookie, hrefresh, store, Option.toList_none, List.nil_append, ite_self]
        exact hset none (by simp)
      · cases hstep
    | lose y =>
      obtain rfl : y = x := Option.some.inj hax
      obtain rfl := Option.some.inj hstep
      exact hset none (by simp)
  alike := by
    rintro ⟨server, jar, known, exchanges⟩ ⟨_, _, _, exchanges'⟩ a t
      ⟨rfl, rfl, rfl, hothers, hinert⟩ - hloud hstep
    have hothers : ∀ x, x ∉ xs → exchanges x = exchanges' x := hothers
    have hsame : ∀ server jar known,
        Alike cfg xs ⟨server, jar, known, exchanges⟩ ⟨server, jar, known, exchanges'⟩ :=
      fun _ _ _ => ⟨rfl, rfl, rfl, hothers, hinert⟩
    have hset : ∀ (server : AuthServer) (jar : Option JarCookie) (known : List ℕ) {x : ℕ}
        (e : Option AuthExchange), x ∉ xs →
        Alike cfg xs ⟨server, jar, known, exchanges.set x e⟩
          ⟨server, jar, known, exchanges'.set x e⟩ := by
      refine fun _ _ _ x e hx => ⟨rfl, rfl, rfl, fun y hy => ?_, fun y hy e' he' => ?_⟩
      · by_cases hyx : y = x
        · simp [hyx]
        · simpa [Pool.set_of_ne _ _ hyx] using hothers y hy
      · rcases Pool.set_eq_some.mp he' with ⟨rfl, -⟩ | ⟨-, hold⟩
        · exact absurd hy hx
        · exact hinert y hy e' hold
    have hnot : ∀ {x : ℕ}, a.exchange? = some x → x ∉ xs := fun ha hx => hloud ⟨_, hx, ha⟩
    cases a with
    | tick | quit | other | putUser | reset =>
      obtain rfl := Option.some.inj hstep
      exact ⟨_, rfl, hsame _ _ _⟩
    | flush now =>
      simp only [authWorld, step, Option.ite_none_right_eq_some, Option.some.injEq] at hstep
      obtain ⟨hnow, rfl⟩ := hstep
      exact ⟨_, if_pos hnow, hsame _ _ _⟩
    | send x call =>
      have hx := hnot rfl
      simp only [authWorld, step, Option.ite_none_right_eq_some, Option.some.injEq] at hstep
      obtain ⟨hidle, rfl⟩ := hstep
      have hidle : (exchanges' x).isNone = true := by
        rw [← hothers x hx]
        exact hidle
      exact ⟨_, if_pos hidle, hset _ _ _ _ hx⟩
    | serve x salt =>
      have hx := hnot rfl
      simp only [authWorld, step] at hstep ⊢
      rw [← hothers x hx]
      split at hstep
      · next call hcall =>
        obtain rfl := Option.some.inj hstep
        exact ⟨_, rfl, hset _ _ _ _ hx⟩
      · cases hstep
    | deliver x =>
      have hx := hnot rfl
      simp only [authWorld, step] at hstep ⊢
      rw [← hothers x hx]
      split at hstep
      · next call answer hanswer =>
        obtain rfl := Option.some.inj hstep
        exact ⟨_, rfl, hset _ _ _ _ hx⟩
      · cases hstep
    | lose x =>
      obtain rfl := Option.some.inj hstep
      exact ⟨_, rfl, hset _ _ _ _ (hnot rfl)⟩

end AuthWorld

/-! ### Main results -/

section Results

variable {P : SignInPlatform} {cfg : AuthSettings} {w₀ w w' : AuthWorld}

/-- A signed token that is refused once is refused for ever, although the rows of expired tokens
are deleted; and a refresh or a logout that succeeds leaves its token refused. -/
theorem refused_tokens_stay_refused (h₀ : w₀.Initial)
    (h : (authWorld P cfg).Reach (fun _ _ => True) w₀ w) :
    (∀ j, (w.server.signed.get? j).isSome → w.server.verify j = none →
      ∀ w', (authWorld P cfg).Reach (fun _ _ => True) w w' → w'.server.verify j = none) ∧
    ∀ x salt call j w₁, w.exchanges x = some (.sent call) → call.presents P = some j →
      (w.server.signed.get? j).isSome →
      ((w.server.serve P cfg call salt).2.httpStatus = 200 ∨
        (w.server.serve P cfg call salt).2.httpStatus = 204) →
      (authWorld P cfg).step w (.serve x salt) = some w₁ →
      ∀ w', (authWorld P cfg).Reach (fun _ _ => True) w₁ w' → w'.server.verify j = none := by
  have hsound := (AuthWorld.reach_extends h).sound h₀.sound
  constructor
  · intro j hsigned hrefused w' h'
    obtain ⟨c, hc⟩ := Option.isSome_iff_exists.mp hsigned
    have hdead := AuthServer.dead_of_verify_eq_none hc hrefused
    exact ((AuthWorld.reach_extends h').dead hsound hdead).verify_eq_none
  · intro x salt call j w₁ hcall hj hsigned hanswer hstep w' h'
    obtain ⟨c, hc⟩ := Option.isSome_iff_exists.mp hsigned
    have hdead := AuthServer.dead_serve hsound hj hc hanswer
    have hserver : w₁.server = (w.server.serve P cfg call salt).1 := by
      simp only [authWorld, AuthWorld.step, hcall, Option.some.injEq] at hstep
      exact hstep ▸ rfl
    have hstep : w.step P cfg (.serve x salt) = some w₁ := hstep
    have hsound₁ := (AuthWorld.step_extends hstep).sound hsound
    exact ((AuthWorld.reach_extends h').dead hsound₁ (hserver ▸ hdead)).verify_eq_none

/-- Requests that a page of another origin makes with nothing but the cookie can be left out of a
run: the server, the cookie and what scripts have read are the same without them. -/
theorem riding_calls_leave_no_trace {xs : List ℕ} (hidle : ∀ x ∈ xs, w.exchanges x = none)
    {as : List AuthAction} (hrides : ∀ a ∈ as, a.RidesIn cfg xs)
    (h : (authWorld P cfg).guardedRun (fun _ _ => True) w as = some w') :
    ∃ u, (authWorld P cfg).guardedRun (fun _ _ => True) w
        (as.filter fun a => decide ¬a.isIn xs) = some u ∧
      u.server = w'.server ∧ u.jar = w'.jar ∧ u.known = w'.known := by
  have hstart : w.Alike cfg xs w :=
    ⟨rfl, rfl, rfl, fun _ _ => rfl, fun x hx e he => by simp [hidle x hx] at he⟩
  obtain ⟨u, hu, halike⟩ := AuthWorld.alike_unwinding.purge_of_forall
    (fun a ha _ => hrides a ha) hstart h
  exact ⟨u, hu, halike.server.symm, halike.jar.symm, halike.known.symm⟩

end Results

/-! ### Samples -/

namespace Sample

/-- One page may use the cookie. -/
def authSettings : AuthSettings where
  corsAllowedOrigins := ["https://app"]

/-- The headers of the page. -/
def appHeaders : AuthHeaders := { authMode := some "cookie", origin := some "https://app" }

def authStart : AuthWorld where
  server := { clock := 0, users := Table.empty.put user }

/-- The page signs in without being remembered, rotates the token twice, and signs out. -/
def appLogin : AuthCall :=
  { view := .login "a@b" "first-password" false, headers := appHeaders }

def appRefresh : AuthCall := { view := .refresh none, headers := appHeaders }

def appLogout : AuthCall := { view := .logout none, headers := appHeaders }

/-- A refresh of a page of another origin. -/
def ridingRefresh : AuthCall :=
  { view := .refresh none, headers := { authMode := some "cookie", origin := some "https://evil" } }

/-- A call served and answered before the next. -/
def inTurn (x : ℕ) (call : AuthCall) : List AuthAction :=
  [.send x call, .serve x "2", .deliver x]

theorem authStart_initial : authStart.Initial := ⟨rfl, rfl, rfl, rfl⟩

end Sample

/-- The token of the login is refused for ever after its rotation. -/
theorem sample_refused_tokens : ∃ w : AuthWorld,
    w.jar = some ⟨2, none⟩ ∧ ∀ w', (authWorld Sample.signInPlatform Sample.authSettings).Reach
      (fun _ _ => True) w w' → w'.server.verify 1 = none := by
  obtain ⟨w, hreach, hw⟩ := System.exists_reach_of_guardedRun
    (authWorld Sample.signInPlatform Sample.authSettings) (fun _ _ => True) Sample.authStart
    (Sample.inTurn 1 Sample.appLogin ++ Sample.inTurn 1 Sample.appRefresh)
    (fun w => decide (w.jar = some ⟨2, none⟩) && (w.server.signed.get? 1).isSome &&
      (w.server.verify 1).isNone) (by decide)
  simp only [Bool.and_eq_true, decide_eq_true_eq, Option.isNone_iff_eq_none] at hw
  obtain ⟨⟨hjar, hsigned⟩, hrefused⟩ := hw
  exact ⟨w, hjar,
    (refused_tokens_stay_refused Sample.authStart_initial hreach).1 1 hsigned hrefused⟩

/-- Another page tries to rotate the token of a session. -/
theorem sample_riding_calls : ∃ w u : AuthWorld,
    (authWorld Sample.signInPlatform Sample.authSettings).guardedRun (fun _ _ => True)
      Sample.authStart (Sample.inTurn 1 Sample.appLogin ++ Sample.inTurn 2 Sample.ridingRefresh)
        = some w ∧
    (authWorld Sample.signInPlatform Sample.authSettings).guardedRun (fun _ _ => True)
      Sample.authStart (Sample.inTurn 1 Sample.appLogin) = some u ∧
    u.jar = w.jar := by
  obtain ⟨w, hw⟩ : ∃ w, (authWorld Sample.signInPlatform Sample.authSettings).guardedRun
      (fun _ _ => True) Sample.authStart
      (Sample.inTurn 1 Sample.appLogin ++ Sample.inTurn 2 Sample.ridingRefresh) = some w :=
    Option.isSome_iff_exists.mp (by decide)
  have hidle : ∀ x ∈ [2], Sample.authStart.exchanges x = none := fun _ _ => rfl
  have hrides : ∀ a ∈ Sample.inTurn 1 Sample.appLogin ++ Sample.inTurn 2 Sample.ridingRefresh,
      a.RidesIn Sample.authSettings [2] := by
    intro a ha
    simp only [Sample.inTurn, List.cons_append, List.nil_append, List.mem_cons,
      List.not_mem_nil, or_false] at ha
    rcases ha with rfl | rfl | rfl | rfl | rfl | rfl
    · exact fun h => absurd h (by decide)
    · trivial
    · trivial
    · exact fun _ => by decide
    · trivial
    · trivial
  obtain ⟨u, hu, -, hjar, -⟩ := riding_calls_leave_no_trace hidle hrides hw
  exact ⟨w, u, hw, hu, hjar⟩

end PushIT
