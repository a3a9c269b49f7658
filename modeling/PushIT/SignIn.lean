import PushIT.AccountSecurity
import PushIT.Fingerprint

/-!
# Signing in

The three ways to a session: `accounts/magic_link.py`, `accounts/email_confirmation.py` and the
login of `accounts/api_views.py`.  Each reads the user, and issues the tokens in a later
statement; a magic link and a confirmation are consumed by a conditional UPDATE in between.
`flush_expired_tokens_task` deletes the magic links that are expired or used.

## Main definitions

* `MagicLinkToken`: the row of a magic link.
* `SignIn.step`: the requests, statement by statement, and what else touches the rows.

## Main results

* `magic_links_sound`: the invariant of the magic links and of what they returned.
* `sign_in_links_single_use`: no link returns twice, late, or another user.
-/

namespace PushIT

open Relational Transition

/-! ### Rows -/

structure MagicLinkToken where
  id : ℕ
  userId : ℕ
  tokenHash : String
  createdAt : Instant
  expiresAt : Instant
  usedAt : Option Instant := none
  deriving DecidableEq, Repr

instance : Keyed MagicLinkToken := ⟨MagicLinkToken.id⟩

@[simp] theorem pk_magicLinkToken (l : MagicLinkToken) : pk l = l.id := rfl

/-- `is_valid`. -/
def MagicLinkToken.isValid (now : Instant) (l : MagicLinkToken) : Bool :=
  l.usedAt.isNone && decide (now < l.expiresAt)

/-- What signing in uses of Python, of Django and of the settings. -/
structure SignInPlatform where
  django : Django
  /-- `hashlib.sha256(raw.encode("utf-8")).hexdigest()`. -/
  sha256 : ByteArray → String
  /-- `UPPER` of the database, by which `__iexact` compares. -/
  upper : String → String
  /-- `str.lower`. -/
  lower : String → String
  /-- `MAGIC_LINK_TTL_MINUTES`. -/
  ttlMinutes : ℕ := 15

/-- `MagicLinkToken.hash_raw`. -/
def SignInPlatform.hashRaw (P : SignInPlatform) (raw : String) : String := P.sha256 raw.toUTF8

/-- `authenticate` and the gate of the login. -/
def SignInPlatform.authenticateLogin (P : SignInPlatform) (users : Table User)
    (email password : String) : Option User :=
  (users.rows.find? fun u => u.email == P.lower (strip email)).filter fun u =>
    P.django.checkPassword password u.password && u.isActive && u.emailConfirmed

/-! ### Requests -/

inductive IssuePath
  | login
  | confirmation
  | magicLink
  deriving DecidableEq, Repr

/-- A request between two of its statements, with the user it loaded. -/
inductive SignInProcess
  /-- `request_magic_link` before the row of the link. -/
  | requesting (user : User)
  /-- `verify_magic_link` before the conditional update. -/
  | consuming (token : String) (link : MagicLinkToken) (user : User)
  /-- `confirm_email` before the conditional update. -/
  | confirming (user : User) (link : String)
  /-- `build_token_response_for_user`. -/
  | issuing (path : IssuePath) (user : User)
  deriving DecidableEq, Repr

/-- What happened, the newest first; no statement reads it. -/
inductive SignInEvent
  /-- The link with a token was sent to a user. -/
  | sent (token : String) (user : ℕ) (expiresAt : Instant)
  /-- `verify_magic_link` returned a user, by an update at an instant. -/
  | verified (token : String) (user : ℕ) (at_ : Instant)
  /-- `confirm_email` returned a user. -/
  | confirmed (user : ℕ) (link : String)
  /-- A pair of tokens was issued to a user, whose row had these flags. -/
  | issued (path : IssuePath) (user : ℕ) (isActive emailConfirmed : Bool)
  deriving DecidableEq, Repr

structure SignIn where
  clock : Instant
  users : Table User := .empty
  links : Table MagicLinkToken := .empty
  processes : Pool SignInProcess := .idle
  history : List SignInEvent := []

inductive SignInAction
  | tick (microseconds : ℕ)
  | register (email password : String)
  /-- Other requests and the admin write user rows, or delete them. -/
  | edit (users : Table User)
  | requestLink (rid : ℕ) (email : String)
  | verify (rid : ℕ) (token : String)
  | confirm (rid user : ℕ) (link : String)
  | login (rid : ℕ) (email password : String)
  /-- The next statement of a request; `secrets` answers this token. -/
  | advance (rid : ℕ) (token : String)
  /-- `flush_expired_tokens_task`, which read the clock before. -/
  | flush (now : Instant)

/-- A new user of `RegisterSerializer.create`. -/
def registeredUser (email password : String) (id : ℕ) : User := { id, email, password }

theorem pk_registeredUser (email password : String) (id : ℕ) :
    pk (registeredUser email password id) = id := rfl

/-- The row of a new link. -/
def SignInPlatform.newLink (P : SignInPlatform) (now : Instant) (user : ℕ) (token : String)
    (id : ℕ) : MagicLinkToken :=
  { id
    userId := user
    tokenHash := P.hashRaw token
    createdAt := now
    expiresAt := now + P.ttlMinutes * 60000000 }

theorem SignInPlatform.pk_newLink (P : SignInPlatform) (now : Instant) (user : ℕ) (token : String)
    (id : ℕ) : pk (P.newLink now user token id) = id := rfl

/-- A link is used. -/
def useLink (now : Instant) (l : MagicLinkToken) : MagicLinkToken :=
  { l with usedAt := some now }

theorem pk_useLink (now : Instant) (l : MagicLinkToken) : pk (useLink now l) = pk l := rfl

/-- The update of `confirm_email`. -/
def confirmUser (u : User) : User := { u with emailConfirmed := true }

theorem pk_confirmUser (u : User) : pk (confirmUser u) = pk u := rfl

namespace SignIn

/-- The link with this token was sent. -/
def wasSent (s : SignIn) (token : String) : Bool :=
  s.history.any fun
    | .sent t _ _ => t == token
    | _ => false

def happened (s : SignIn) (event : SignInEvent) : SignIn :=
  { s with history := event :: s.history }

def setProcess (s : SignIn) (rid : ℕ) (p : Option SignInProcess) : SignIn :=
  { s with processes := s.processes.set rid p }

/-- `request_magic_link` looks for the user. -/
def findRecipient (P : SignInPlatform) (s : SignIn) (email : String) : Option User :=
  s.users.rows.find? fun u =>
    P.upper u.email == P.upper (strip email) && u.isActive && u.emailConfirmed

/-- `verify_magic_link` reads the link with its user, and looks at it. -/
def findLink (P : SignInPlatform) (s : SignIn) (token : String) :
    Option (MagicLinkToken × User) :=
  ((s.links.rows.find? fun l => l.tokenHash == P.hashRaw token).filter (·.isValid s.clock)).bind
    fun l => (s.users.get? l.userId).map fun u => (l, u)

/-- `confirm_email` reads the user, and checks the link. -/
def findUnconfirmed (P : SignInPlatform) (s : SignIn) (user : ℕ) (link : String) : Option User :=
  (s.users.get? user).filter fun u =>
    u.isActive && !u.emailConfirmed && P.django.checkConfirmationToken s.clock u link

/-- The row of a link that the conditional update of `verify_magic_link` finds. -/
def consumable (s : SignIn) (link : ℕ) : Option MagicLinkToken :=
  (s.links.get? link).filter (·.isValid s.clock)

/-- The next statement of a request. -/
def advance (P : SignInPlatform) (s : SignIn) (rid : ℕ) (token : String) :
    SignInProcess → SignIn
  | .requesting user =>
    -- the user may be gone, and the hash is unique
    if (s.users.get? user.id).isSome ∧ ∀ l ∈ s.links.rows, l.tokenHash ≠ P.hashRaw token then
      ({ s with
        links := s.links.insert (P.newLink s.clock user.id token)
          (P.pk_newLink s.clock user.id token) }.happened
        (.sent token user.id (s.clock + P.ttlMinutes * 60000000))).setProcess rid none
    else s.setProcess rid none
  | .consuming raw link user =>
    if (s.consumable link.id).isSome then
      ({ s with
        links := s.links.modify link.id (useLink s.clock) (pk_useLink s.clock) }.happened
        (.verified raw user.id s.clock)).setProcess rid (some (.issuing .magicLink user))
    else s.setProcess rid none
  | .confirming user link =>
    if (s.users.get? user.id).any (!·.emailConfirmed) then
      ({ s with users := s.users.modify user.id confirmUser pk_confirmUser }.happened
        (.confirmed user.id link)).setProcess rid
          (some (.issuing .confirmation (confirmUser user)))
    else s.setProcess rid none
  | .issuing path user =>
    -- the row of the refresh token refers to the user
    match s.users.get? user.id with
    | some row =>
      (s.happened (.issued path user.id row.isActive row.emailConfirmed)).setProcess rid none
    | none => s.setProcess rid none

/-- One action; `none` when nothing can perform it. -/
def step (P : SignInPlatform) (s : SignIn) : SignInAction → Option SignIn
  | .tick microseconds => some { s with clock := s.clock + microseconds }
  | .register email password =>
    some
      { s with
        users :=
          if s.users.rows.any (·.email == email) then s.users
          else s.users.insert (registeredUser email password) (pk_registeredUser email password) }
  | .edit users =>
    -- the keys of deleted rows are not given again
    if s.users.seq ≤ users.seq then
      some { s with users, links := s.links.delete fun l => (users.get? l.userId).isNone }
    else none
  | .requestLink rid email =>
    if (s.processes rid).isNone then
      some (s.setProcess rid ((s.findRecipient P email).map .requesting))
    else none
  | .verify rid token =>
    if (s.processes rid).isNone then
      some (s.setProcess rid ((s.findLink P token).map fun x => .consuming token x.1 x.2))
    else none
  | .confirm rid user link =>
    if (s.processes rid).isNone then
      some (s.setProcess rid ((s.findUnconfirmed P user link).map fun u => .confirming u link))
    else none
  | .login rid email password =>
    if (s.processes rid).isNone then
      some (s.setProcess rid ((P.authenticateLogin s.users email password).map (.issuing .login)))
    else none
  | .advance rid token =>
    -- fresh tokens are distinct
    if s.wasSent token then none else (s.processes rid).map (s.advance P rid token)
  | .flush now =>
    if now ≤ s.clock then
      some
        { s with
          links := s.links.delete fun l => decide (l.expiresAt < now) || l.usedAt.isSome }
    else none

end SignIn

/-- Signing in as a transition system. -/
def signIn (P : SignInPlatform) : System SignIn SignInAction := ⟨SignIn.step P⟩

/-! ### What is to hold -/

/-- `verify_magic_link` returned a user for the token. -/
def SignInEvent.verifies (token : String) : SignInEvent → Bool
  | verified t _ _ => t == token
  | _ => false

/-- The event is about a magic link. -/
def SignInEvent.ofLink : SignInEvent → Bool
  | sent _ _ _ | verified _ _ _ => true
  | confirmed _ _ | issued _ _ _ _ => false

theorem SignInEvent.ofLink_of_verifies {token : String} {event : SignInEvent}
    (h : event.verifies token = true) : event.ofLink = true := by
  cases event with
  | verified => rfl
  | sent | confirmed | issued => simp [verifies] at h

theorem SignInPlatform.hashRaw_injective {P : SignInPlatform} (h : Function.Injective P.sha256) :
    Function.Injective P.hashRaw :=
  fun _ _ heq => String.toByteArray_inj.mp (h heq)

/-- `confirm_email` returned the user. -/
def SignInEvent.confirms (user : ℕ) : SignInEvent → Bool
  | confirmed u _ => u == user
  | _ => false

namespace SignIn

/-- A token returned at most once, in time, and the user it was sent to. -/
structure SingleUse (s : SignIn) (token : String) : Prop where
  once : s.history.countP (·.verifies token) ≤ 1
  verified : ∀ user t, .verified token user t ∈ s.history →
    ∃ expiresAt, .sent token user expiresAt ∈ s.history ∧ t < expiresAt
  sent : ∀ user expiresAt user' expiresAt', .sent token user expiresAt ∈ s.history →
    .sent token user' expiresAt' ∈ s.history → user = user' ∧ expiresAt = expiresAt'

/-- No other request writes the row of the user, nor does the admin. -/
def KeepsUser (user : ℕ) (s : SignIn) : SignInAction → Prop
  | .edit users => users.get? user = s.users.get? user
  | _ => True

instance decidableKeepsUser (user : ℕ) (s : SignIn) : ∀ a, Decidable (s.KeepsUser user a)
  | .edit users => inferInstanceAs (Decidable (users.get? user = s.users.get? user))
  | .tick _ | .register _ _ | .requestLink _ _ | .verify _ _ | .confirm _ _ _ | .login _ _ _
  | .advance _ _ | .flush _ => .isTrue trivial

/-! ### Magic links -/

/-- The links are those that were sent, each under its own hash; a link that returned a user is
used or gone; a call that is to consume a link has the token and the user of that link. -/
structure Sound (P : SignInPlatform) (s : SignIn) : Prop where
  links : ∀ l ∈ s.links.rows, ∃ token, l.tokenHash = P.hashRaw token ∧
    .sent token l.userId l.expiresAt ∈ s.history
  unique : ∀ l ∈ s.links.rows, ∀ l' ∈ s.links.rows, l.tokenHash = l'.tokenHash → l = l'
  used : ∀ token user t, .verified token user t ∈ s.history → ∀ l ∈ s.links.rows,
    l.tokenHash = P.hashRaw token → l.usedAt.isSome = true
  consuming : ∀ rid token link user, s.processes rid = some (.consuming token link user) →
    link.id ≤ s.links.seq ∧ (∃ expiresAt, .sent token user.id expiresAt ∈ s.history) ∧
      ∀ l ∈ s.links.rows, l.id = link.id → l.tokenHash = P.hashRaw token
  single : ∀ token, s.SingleUse token

variable {P : SignInPlatform} {s t : SignIn}

theorem wasSent_iff {token : String} :
    s.wasSent token = true ↔ ∃ user expiresAt, .sent token user expiresAt ∈ s.history := by
  simp only [wasSent, List.any_eq_true]
  constructor
  · rintro ⟨event, hevent, hsent⟩
    cases event with
    | sent t user expiresAt =>
      obtain rfl := eq_of_beq hsent
      exact ⟨user, expiresAt, hevent⟩
    | verified | confirmed | issued => simp at hsent
  · rintro ⟨user, expiresAt, hevent⟩
    exact ⟨_, hevent, beq_self_eq_true token⟩

/-- A link that is found has the hash of the token, and was sent to its user. -/
theorem Sound.findLink_sent (hsha : Function.Injective P.sha256) (h : s.Sound P) {token : String}
    {link : MagicLinkToken} {user : User} (hfound : s.findLink P token = some (link, user)) :
    link ∈ s.links.rows ∧ link.tokenHash = P.hashRaw token ∧ user.id = link.userId ∧
      .sent token user.id link.expiresAt ∈ s.history := by
  obtain ⟨l, hl, huser⟩ := Option.bind_eq_some_iff.mp hfound
  obtain ⟨u, hu, hpair⟩ := Option.map_eq_some_iff.mp huser
  obtain ⟨rfl, rfl⟩ := Prod.mk.inj hpair
  obtain ⟨hfind, -⟩ := Option.filter_eq_some_iff.mp hl
  have hhash : l.tokenHash = P.hashRaw token := by simpa using List.find?_some hfind
  have hrow := List.mem_of_find?_eq_some hfind
  have hid : u.id = l.userId := (Table.get?_eq_some.mp hu).2
  obtain ⟨token', hhash', hsent⟩ := h.links l hrow
  obtain rfl := P.hashRaw_injective hsha (hhash.symm.trans hhash')
  exact ⟨hrow, hhash, hid, by rw [hid]; exact hsent⟩

/-- What neither sends nor verifies a link keeps the invariant: rows may be deleted, and a new
process consumes a link only if it has read it. -/
theorem Sound.keep (hsha : Function.Injective P.sha256) (h : s.Sound P)
    (hlinks : s.links.Shrinks t.links)
    (hhistory : ∃ events, t.history = events ++ s.history ∧ ∀ x ∈ events, x.ofLink = false)
    (hprocesses : ∀ rid token link user, t.processes rid = some (.consuming token link user) →
      s.processes rid = some (.consuming token link user) ∨
        s.findLink P token = some (link, user)) : t.Sound P := by
  obtain ⟨events, hevents, hnone⟩ := hhistory
  have hold : ∀ x, x ∈ s.history → x ∈ t.history := fun x hx =>
    hevents ▸ List.mem_append_right events hx
  have hback : ∀ x, x.ofLink = true → x ∈ t.history → x ∈ s.history := by
    intro x hx hmem
    rw [hevents] at hmem
    rcases List.mem_append.mp hmem with hnew | hmem
    · simp [hnone x hnew] at hx
    · exact hmem
  refine ⟨fun l hl => ?_, fun l hl l' hl' => ?_, fun token user at_ hverified l hl => ?_,
    fun rid token link user hp => ?_, fun token => ⟨?_, ?_, ?_⟩⟩
  · obtain ⟨token, hhash, hsent⟩ := h.links l (hlinks.rows l hl)
    exact ⟨token, hhash, hold _ hsent⟩
  · exact h.unique l (hlinks.rows l hl) l' (hlinks.rows l' hl')
  · exact h.used token user at_ (hback _ rfl hverified) l (hlinks.rows l hl)
  · rw [hlinks.seq]
    rcases hprocesses rid token link user hp with hbefore | hfound
    · obtain ⟨hid, ⟨expiresAt, hsent⟩, hhash⟩ := h.consuming rid token link user hbefore
      exact ⟨hid, ⟨expiresAt, hold _ hsent⟩, fun l hl => hhash l (hlinks.rows l hl)⟩
    · obtain ⟨hlink, hhash, hid, hsent⟩ := h.findLink_sent hsha hfound
      refine ⟨s.links.bounded link hlink, ⟨link.expiresAt, hold _ hsent⟩, fun l hl heq => ?_⟩
      rw [Table.eq_of_pk (hlinks.rows l hl) hlink heq]
      exact hhash
  · have hnew : events.countP (·.verifies token) = 0 := by
      refine List.countP_eq_zero.mpr fun x hx hverifies => ?_
      have hlink := SignInEvent.ofLink_of_verifies hverifies
      simp [hnone x hx] at hlink
    rw [hevents, List.countP_append, hnew, Nat.zero_add]
    exact (h.single token).once
  · intro user at_ hverified
    obtain ⟨expiresAt, hsent, hlt⟩ := (h.single token).verified user at_ (hback _ rfl hverified)
    exact ⟨expiresAt, hold _ hsent, hlt⟩
  · intro user expiresAt user' expiresAt' hsent hsent'
    exact (h.single token).sent user expiresAt user' expiresAt' (hback _ rfl hsent)
      (hback _ rfl hsent')

/-- A link is sent: its token is fresh, and so is its hash. -/
theorem Sound.send (hsha : Function.Injective P.sha256) (h : s.Sound P) {rid : ℕ}
    {token : String} {user : User} (hfresh : s.wasSent token = false)
    (hhash : ∀ l ∈ s.links.rows, l.tokenHash ≠ P.hashRaw token) :
    Sound P (({ s with
      links := s.links.insert (P.newLink s.clock user.id token)
        (P.pk_newLink s.clock user.id token) }.happened
      (.sent token user.id (s.clock + P.ttlMinutes * 60000000))).setProcess rid none) := by
  have hnever : ∀ user expiresAt, .sent token user expiresAt ∉ s.history := by
    intro user expiresAt hmem
    have hsent := wasSent_iff.mpr ⟨user, expiresAt, hmem⟩
    simp [hfresh] at hsent
  have hrows : ∀ l ∈ (s.links.insert (P.newLink s.clock user.id token)
      (P.pk_newLink s.clock user.id token)).rows, l ∈ s.links.rows ∨
        l = P.newLink s.clock user.id token (s.links.seq + 1) := fun l hl => Table.mem_insert.mp hl
  refine ⟨fun l hl => ?_, fun l hl l' hl' heq => ?_, fun raw u t hverified l hl hraw => ?_,
    fun other raw link u hp => ?_, fun raw => ⟨?_, fun u t hverified => ?_, ?_⟩⟩
  · rcases hrows l hl with hold | rfl
    · obtain ⟨raw, hraw, hsent⟩ := h.links l hold
      exact ⟨raw, hraw, List.mem_cons_of_mem _ hsent⟩
    · exact ⟨token, rfl, List.mem_cons_self⟩
  · rcases hrows l hl with hold | rfl <;>
      rcases hrows l' hl' with hold' | rfl
    · exact h.unique l hold l' hold' heq
    · exact absurd heq (hhash l hold)
    · exact absurd heq.symm (hhash l' hold')
    · rfl
  · have hverified : .verified raw u t ∈ s.history := by
      simpa [happened, setProcess] using hverified
    rcases hrows l hl with hold | rfl
    · exact h.used raw u t hverified l hold hraw
    · obtain rfl := P.hashRaw_injective hsha hraw
      obtain ⟨expiresAt, hsent, -⟩ := (h.single token).verified u t hverified
      exact absurd hsent (hnever u expiresAt)
  · rcases Pool.set_eq_some.mp hp with ⟨-, hself⟩ | ⟨-, hother⟩
    · simp at hself
    · obtain ⟨hid, ⟨expiresAt, hsent⟩, hlink⟩ := h.consuming other raw link u hother
      refine ⟨Nat.le_succ_of_le hid, ⟨expiresAt, List.mem_cons_of_mem _ hsent⟩,
        fun l hl heq => ?_⟩
      rcases hrows l hl with hold | rfl
      · exact hlink l hold heq
      · have heq : s.links.seq + 1 = link.id := heq
        omega
  · simpa [happened, setProcess, SignInEvent.verifies] using (h.single raw).once
  · have hverified : .verified raw u t ∈ s.history := by
      simpa [happened, setProcess] using hverified
    obtain ⟨expiresAt, hsent, hlt⟩ := (h.single raw).verified u t hverified
    exact ⟨expiresAt, List.mem_cons_of_mem _ hsent, hlt⟩
  · intro u expiresAt u' expiresAt' hsent hsent'
    rcases List.mem_cons.mp hsent with heq | hsent <;>
      rcases List.mem_cons.mp hsent' with heq' | hsent'
    · obtain ⟨-, rfl, rfl⟩ := SignInEvent.sent.inj heq
      obtain ⟨-, rfl, rfl⟩ := SignInEvent.sent.inj heq'
      exact ⟨rfl, rfl⟩
    · obtain ⟨rfl, -⟩ := SignInEvent.sent.inj heq
      exact absurd hsent' (hnever u' expiresAt')
    · obtain ⟨rfl, -⟩ := SignInEvent.sent.inj heq'
      exact absurd hsent (hnever u expiresAt)
    · exact (h.single raw).sent u expiresAt u' expiresAt' hsent hsent'

/-- A link is consumed by the only call that returns for its token, before it expires. -/
theorem Sound.consume (hsha : Function.Injective P.sha256) (h : s.Sound P) {rid : ℕ}
    {token : String} {link : MagicLinkToken} {user : User}
    (hp : s.processes rid = some (.consuming token link user)) {row : MagicLinkToken}
    (hrow : s.consumable link.id = some row) :
    Sound P (({ s with
      links := s.links.modify link.id (useLink s.clock) (pk_useLink s.clock) }.happened
      (.verified token user.id s.clock)).setProcess rid (some (.issuing .magicLink user))) := by
  obtain ⟨hget, hvalid⟩ := Option.filter_eq_some_iff.mp hrow
  obtain ⟨hmem, hid⟩ := Table.get?_eq_some.mp hget
  obtain ⟨-, ⟨expiresAt, hsent⟩, hhash⟩ := h.consuming rid token link user hp
  have hhash : row.tokenHash = P.hashRaw token := hhash row hmem hid
  simp only [MagicLinkToken.isValid, Bool.and_eq_true, decide_eq_true_eq] at hvalid
  obtain ⟨hunused, hahead⟩ := hvalid
  -- nobody used the token before: its link would be used or gone
  have hnever : ∀ u t, .verified token u t ∉ s.history := by
    intro u t hverified
    have hused := h.used token u t hverified row hmem hhash
    simp [Option.isNone_iff_eq_none.mp hunused] at hused
  obtain ⟨token', hhash', hsent'⟩ := h.links row hmem
  obtain rfl := P.hashRaw_injective hsha (hhash.symm.trans hhash')
  obtain ⟨-, rfl⟩ := (h.single token).sent _ _ _ _ hsent hsent'
  have hrows : ∀ l ∈ (s.links.modify link.id (useLink s.clock) (pk_useLink s.clock)).rows,
      (l ∈ s.links.rows ∧ l.id ≠ link.id) ∨ l = useLink s.clock row := by
    intro l hl
    obtain ⟨l₀, hl₀, rfl⟩ := Table.mem_modify.mp hl
    split
    · next heq =>
      obtain rfl := Table.eq_of_pk hl₀ hmem (heq.trans hid.symm)
      exact Or.inr rfl
    · next hne => exact Or.inl ⟨hl₀, hne⟩
  refine ⟨fun l hl => ?_, fun l hl l' hl' heq => ?_, fun raw u t hverified l hl hraw => ?_,
    fun other raw other_link u hq => ?_, fun raw => ⟨?_, fun u t hverified => ?_, ?_⟩⟩
  · rcases hrows l hl with ⟨hold, -⟩ | rfl
    · obtain ⟨raw, hraw, hsent⟩ := h.links l hold
      exact ⟨raw, hraw, List.mem_cons_of_mem _ hsent⟩
    · exact ⟨token, hhash, List.mem_cons_of_mem _ hsent'⟩
  · rcases hrows l hl with ⟨hold, hne⟩ | rfl <;> rcases hrows l' hl' with ⟨hold', hne'⟩ | rfl
    · exact h.unique l hold l' hold' heq
    · obtain rfl := h.unique l hold row hmem heq
      exact absurd hid hne
    · obtain rfl := h.unique row hmem l' hold' heq
      exact absurd hid hne'
    · rfl
  · rcases hrows l hl with ⟨hold, hne⟩ | rfl
    · rcases List.mem_cons.mp hverified with heq | hverified
      · obtain ⟨rfl, -, -⟩ := SignInEvent.verified.inj heq
        obtain rfl := h.unique l hold row hmem (hraw.trans hhash.symm)
        exact absurd hid hne
      · exact h.used raw u t hverified l hold hraw
    · rfl
  · rcases Pool.set_eq_some.mp hq with ⟨-, hself⟩ | ⟨-, hother⟩
    · simp at hself
    · obtain ⟨hle, ⟨expiresAt, hsent⟩, hlink⟩ := h.consuming other raw other_link u hother
      refine ⟨hle, ⟨expiresAt, List.mem_cons_of_mem _ hsent⟩, fun l hl heq => ?_⟩
      rcases hrows l hl with ⟨hold, -⟩ | rfl
      · exact hlink l hold heq
      · exact hlink row hmem heq
  · have honce := (h.single raw).once
    by_cases hraw : token = raw
    · subst hraw
      have hzero : s.history.countP (·.verifies token) = 0 := by
        refine List.countP_eq_zero.mpr fun x hx hverifies => ?_
        cases x with
        | verified raw u t =>
          obtain rfl := eq_of_beq hverifies
          exact hnever u t hx
        | sent | confirmed | issued => simp [SignInEvent.verifies] at hverifies
      change List.countP _ (SignInEvent.verified token user.id s.clock :: s.history) ≤ 1
      rw [List.countP_cons, hzero]
      split <;> omega
    · simpa [happened, setProcess, SignInEvent.verifies, hraw] using honce
  · rcases List.mem_cons.mp hverified with heq | hverified
    · obtain ⟨rfl, rfl, rfl⟩ := SignInEvent.verified.inj heq
      exact ⟨row.expiresAt, List.mem_cons_of_mem _ hsent, hahead⟩
    · obtain ⟨expiresAt, hsent, hlt⟩ := (h.single raw).verified u t hverified
      exact ⟨expiresAt, List.mem_cons_of_mem _ hsent, hlt⟩
  · intro u expiresAt u' expiresAt' hsent hsent'
    refine (h.single raw).sent u expiresAt u' expiresAt' ?_ ?_
    · simpa [happened, setProcess] using hsent
    · simpa [happened, setProcess] using hsent'

/-- The next statement of a request keeps the invariant. -/
theorem Sound.advance (hsha : Function.Injective P.sha256) (h : s.Sound P) {rid : ℕ}
    {token : String} (hfresh : s.wasSent token = false) {p : SignInProcess}
    (hp : s.processes rid = some p) : (s.advance P rid token p).Sound P := by
  have hends : ∀ {q : Option SignInProcess} {other raw link u},
      (∀ raw link u, q ≠ some (.consuming raw link u)) →
        s.processes.set rid q other = some (.consuming raw link u) →
          s.processes other = some (.consuming raw link u) ∨
            s.findLink P raw = some (link, u) := by
    intro q other raw link u hq hset
    rcases Pool.set_eq_some.mp hset with ⟨-, hself⟩ | ⟨-, hother⟩
    · exact absurd hself (hq raw link u)
    · exact Or.inl hother
  cases p with
  | requesting user =>
    simp only [SignIn.advance]
    split
    · next hcan => exact h.send hsha hfresh hcan.2
    · exact h.keep hsha (.refl _) ⟨[], rfl, by simp⟩ fun _ _ _ _ => hends (by simp)
  | consuming raw link user =>
    simp only [SignIn.advance]
    split
    · next hcan =>
      obtain ⟨row, hrow⟩ := Option.isSome_iff_exists.mp hcan
      exact h.consume hsha hp hrow
    · exact h.keep hsha (.refl _) ⟨[], rfl, by simp⟩ fun _ _ _ _ => hends (by simp)
  | confirming user link =>
    simp only [SignIn.advance]
    split
    · exact h.keep hsha (.refl _) ⟨[_], rfl, by simp [SignInEvent.ofLink]⟩
        fun _ _ _ _ => hends (by simp)
    · exact h.keep hsha (.refl _) ⟨[], rfl, by simp⟩ fun _ _ _ _ => hends (by simp)
  | issuing path user =>
    simp only [SignIn.advance]
    split
    · exact h.keep hsha (.refl _) ⟨[_], rfl, by simp [SignInEvent.ofLink]⟩
        fun _ _ _ _ => hends (by simp)
    · exact h.keep hsha (.refl _) ⟨[], rfl, by simp⟩ fun _ _ _ _ => hends (by simp)

theorem magic_links_sound (hsha : Function.Injective P.sha256) :
    (signIn P).Preserves (fun _ _ => True) (Sound P) := by
  intro s a t h _ hstep
  -- a request that begins
  have hbegins : ∀ (rid : ℕ) (q : Option SignInProcess),
      (∀ raw link u, q = some (.consuming raw link u) → s.findLink P raw = some (link, u)) →
        (s.setProcess rid q).Sound P := by
    intro rid q hq
    refine h.keep hsha (.refl _) ⟨[], rfl, by simp⟩ fun other raw link u hset => ?_
    rcases Pool.set_eq_some.mp hset with ⟨-, hself⟩ | ⟨-, hother⟩
    · exact Or.inr (hq raw link u hself)
    · exact Or.inl hother
  cases a with
  | tick microseconds =>
    obtain rfl := Option.some.inj hstep
    exact h.keep hsha (.refl _) ⟨[], rfl, by simp⟩ fun _ _ _ _ hp => Or.inl hp
  | register email password =>
    obtain rfl := Option.some.inj hstep
    exact h.keep hsha (.refl _) ⟨[], rfl, by simp⟩ fun _ _ _ _ hp => Or.inl hp
  | edit users =>
    simp only [signIn, step] at hstep
    split at hstep
    · obtain rfl := Option.some.inj hstep
      exact h.keep hsha (Table.shrinks_delete _ _) ⟨[], rfl, by simp⟩
        fun _ _ _ _ hp => Or.inl hp
    · simp at hstep
  | flush now =>
    simp only [signIn, step] at hstep
    split at hstep
    · obtain rfl := Option.some.inj hstep
      exact h.keep hsha (Table.shrinks_delete _ _) ⟨[], rfl, by simp⟩
        fun _ _ _ _ hp => Or.inl hp
    · simp at hstep
  | requestLink rid email =>
    simp only [signIn, step] at hstep
    split at hstep
    · obtain rfl := Option.some.inj hstep
      exact hbegins rid _ (by simp)
    · simp at hstep
  | verify rid token =>
    simp only [signIn, step] at hstep
    split at hstep
    · obtain rfl := Option.some.inj hstep
      refine hbegins rid _ fun raw link u hq => ?_
      obtain ⟨⟨link', user'⟩, hfound, heq⟩ := Option.map_eq_some_iff.mp hq
      obtain ⟨rfl, rfl, rfl⟩ := SignInProcess.consuming.inj heq
      exact hfound
    · simp at hstep
  | confirm rid user link =>
    simp only [signIn, step] at hstep
    split at hstep
    · obtain rfl := Option.some.inj hstep
      exact hbegins rid _ (by simp)
    · simp at hstep
  | login rid email password =>
    simp only [signIn, step] at hstep
    split at hstep
    · obtain rfl := Option.some.inj hstep
      exact hbegins rid _ (by simp)
    · simp at hstep
  | advance rid token =>
    simp only [signIn, step] at hstep
    split at hstep
    · simp at hstep
    · next hfresh =>
      obtain ⟨p, hp, rfl⟩ := Option.map_eq_some_iff.mp hstep
      exact h.advance hsha (by simpa using hfresh) hp

/-! ### Confirmations -/

/-- A user who was confirmed once has the flag set. -/
structure ConfirmedOnce (user : ℕ) (s : SignIn) : Prop where
  once : s.history.countP (·.confirms user) ≤ 1
  stays : 0 < s.history.countP (·.confirms user) →
    ∃ u, s.users.get? user = some u ∧ u.emailConfirmed = true

theorem ConfirmedOnce.keep {user : ℕ} (h : s.ConfirmedOnce user)
    (hcount : t.history.countP (·.confirms user) = s.history.countP (·.confirms user))
    (husers : ∀ u, s.users.get? user = some u → t.users.get? user = some u ∨
      ∃ u', t.users.get? user = some u' ∧ u'.emailConfirmed = true) : t.ConfirmedOnce user := by
  refine ⟨hcount ▸ h.once, fun hpos => ?_⟩
  obtain ⟨u, hu, hconfirmed⟩ := h.stays (hcount ▸ hpos)
  rcases husers u hu with hsame | hset
  · exact ⟨u, hsame, hconfirmed⟩
  · exact hset

theorem ConfirmedOnce.advance {user : ℕ} (h : s.ConfirmedOnce user) (P : SignInPlatform)
    (rid : ℕ) (token : String) (p : SignInProcess) :
    (s.advance P rid token p).ConfirmedOnce user := by
  cases p with
  | requesting u =>
    simp only [SignIn.advance]
    split
    · exact h.keep (by simp [happened, setProcess, SignInEvent.confirms]) fun _ hu => Or.inl hu
    · exact h.keep rfl fun _ hu => Or.inl hu
  | consuming raw link u =>
    simp only [SignIn.advance]
    split
    · exact h.keep (by simp [happened, setProcess, SignInEvent.confirms]) fun _ hu => Or.inl hu
    · exact h.keep rfl fun _ hu => Or.inl hu
  | issuing path u =>
    simp only [SignIn.advance]
    split
    · exact h.keep (by simp [happened, setProcess, SignInEvent.confirms]) fun _ hu => Or.inl hu
    · exact h.keep rfl fun _ hu => Or.inl hu
  | confirming u link =>
    simp only [SignIn.advance]
    split
    · next hunset =>
      obtain ⟨row, hrow, hflag⟩ := (Option.any_eq_true _ _).mp hunset
      have hget : ∀ k, (s.users.modify u.id confirmUser pk_confirmUser).get? k =
          (s.users.get? k).map fun r => if pk r = u.id then confirmUser r else r :=
        Table.get?_modify s.users u.id confirmUser pk_confirmUser
      by_cases huser : u.id = user
      · -- the flag was not set: this is the first confirmation
        subst huser
        have hzero : s.history.countP (·.confirms u.id) = 0 := by
          by_contra hpos
          obtain ⟨row', hrow', hset⟩ := h.stays (Nat.pos_of_ne_zero hpos)
          obtain rfl := Option.some.inj (hrow.symm.trans hrow')
          simp [hset] at hflag
        refine ⟨?_, fun _ => ⟨confirmUser row, ?_, rfl⟩⟩
        · change List.countP _ (SignInEvent.confirmed u.id link :: s.history) ≤ 1
          rw [List.countP_cons, hzero]
          split <;> omega
        · change (s.users.modify u.id confirmUser pk_confirmUser).get? u.id = _
          have hid : pk row = u.id := (Table.get?_eq_some.mp hrow).2
          rw [hget, hrow, Option.map_some, if_pos hid]
      · refine h.keep (by simp [happened, setProcess, SignInEvent.confirms, huser])
          fun r hr => Or.inl ?_
        change (s.users.modify u.id confirmUser pk_confirmUser).get? user = _
        have hid : pk r = user := (Table.get?_eq_some.mp hr).2
        rw [hget, hr, Option.map_some, if_neg fun heq => huser (heq.symm.trans hid)]
    · exact h.keep rfl fun _ hu => Or.inl hu

theorem confirmedOnce_preserves (P : SignInPlatform) (user : ℕ) :
    (signIn P).Preserves (KeepsUser user) (ConfirmedOnce user) := by
  intro s a t h hok hstep
  cases a with
  | tick microseconds =>
    obtain rfl := Option.some.inj hstep
    exact h.keep rfl fun _ hu => Or.inl hu
  | register email password =>
    obtain rfl := Option.some.inj hstep
    refine h.keep rfl fun u hu => Or.inl ?_
    dsimp only
    split
    · exact hu
    · obtain ⟨hmem, hid⟩ := Table.get?_eq_some.mp hu
      exact Table.get?_eq_some.mpr ⟨Table.mem_insert.mpr (Or.inl hmem), hid⟩
  | edit users =>
    have hkeeps : users.get? user = s.users.get? user := hok
    simp only [signIn, step] at hstep
    split at hstep
    · obtain rfl := Option.some.inj hstep
      exact h.keep rfl fun u hu => Or.inl (hkeeps.trans hu)
    · simp at hstep
  | flush now =>
    simp only [signIn, step] at hstep
    split at hstep
    · obtain rfl := Option.some.inj hstep
      exact h.keep rfl fun _ hu => Or.inl hu
    · simp at hstep
  | requestLink | verify | confirm | login =>
    simp only [signIn, step] at hstep
    split at hstep
    · obtain rfl := Option.some.inj hstep
      exact h.keep rfl fun _ hu => Or.inl hu
    · simp at hstep
  | advance rid token =>
    simp only [signIn, step] at hstep
    split at hstep
    · simp at hstep
    · obtain ⟨p, -, rfl⟩ := Option.map_eq_some_iff.mp hstep
      exact h.advance P rid token p

end SignIn

namespace Sample

def signInPlatform : SignInPlatform where
  django := django
  sha256 := digest
  upper s := String.ofList (s.toList.map Char.toUpper)
  lower s := String.ofList (s.toList.map Char.toLower)

/-- The user of the samples, who has no link yet. -/
def signIn : SignIn where
  clock := noon
  users := Table.empty.put user

/-- A link that two requests verify at once, and a confirmation that two requests make. -/
def doubleClicks : List SignInAction :=
  [.requestLink 0 " A@b", .advance 0 "secret", .tick 60000000,
    .verify 1 "secret", .verify 2 "secret", .advance 2 "", .advance 1 "", .advance 2 "",
    .flush noon, .verify 3 "secret",
    .register "c@d" "second-password", .confirm 4 2 "confirm-c@d", .confirm 5 2 "confirm-c@d",
    .advance 5 "", .advance 4 ""]

end Sample

end PushIT
