import PushIT.Accounts

/-!
# Entitlement pushes

`billing/api_views.py`: the billing centre pushes the entitlement of a user, signed, under a
delivery id.  `EntitlementView.post` stores a receipt for the id, looks the user up and writes
the cached entitlement, in statements that no transaction encloses.  Each of them can raise: the
body holds any JSON values, and the database or the process can fail at any statement.

## Main definitions

* `Json`, `Payload`: the body of a push, and what Python makes of its values.
* `Platform`: the conversions and the database that the endpoint relies on.
* `applyEntitlement`, `EntitlementView.post`: the endpoint, statement by statement.
* `PushesAtomically`, `Unbroken`: the atomicity of a push, and when it holds.

## Main results

* `pushes_atomically_iff`: a push is atomic exactly when nothing raises after its receipt.
* `receipt_without_entitlement`: a push that is not.
-/

namespace PushIT

open Relational

/-! ### Values -/

/-- A JSON value; `decimal` is a number with a fraction or an exponent. -/
inductive Json
  | null
  | bool (value : Bool)
  | int (value : ℤ)
  | decimal (mantissa exponent : ℤ)
  | string (value : String)
  | array (items : List Json)
  | object (members : List (String × Json))

/-- The truth value of the Python object. -/
def Json.truthy : Json → Bool
  | null => false
  | bool value => value
  | int value => value != 0
  | decimal mantissa _ => mantissa != 0
  | string value => value != ""
  | array items => !items.isEmpty
  | object members => !members.isEmpty

/-- The body of a request that is a JSON object. -/
abbrev Payload := List (String × Json)

/-- `payload.get(key)`. -/
def Payload.get (payload : Payload) (key : String) : Json :=
  (payload.lookup key).getD .null

/-- `payload.get(key) or default`. -/
def Payload.getOr (payload : Payload) (key : String) (default : Json) : Json :=
  if (payload.get key).truthy then payload.get key else default

/-! ### Rows -/

/-- The key of a receipt, a UUID. -/
abbrev DeliveryId := ℕ

/-- The cached entitlement of a user. -/
structure Subscription where
  id : ℕ
  userId : ℕ
  stripeCustomerId : String := ""
  status : String := ""
  plan : String := ""
  interval : String := ""
  currentPeriodEnd : Option Instant := none
  isPaid : Bool := false
  quotas : Json := .object []
  graceUntil : Option Instant := none

instance : Keyed Subscription := ⟨Subscription.id⟩

@[simp] theorem pk_subscription (sub : Subscription) : pk sub = sub.id := rfl

/-- The tables an entitlement push reads or writes. -/
structure Billing where
  users : Table User
  receipts : List DeliveryId := []
  subscriptions : Table Subscription := .empty

/-! ### The platform -/

/-- What the endpoint relies on: the settings, the conversions of Python and Django, where `none`
means that they raise, and the rows that the database accepts. -/
structure Platform where
  billingConfigured : Bool
  /-- `UUIDField.to_python`. -/
  toUuid : Json → Option DeliveryId
  /-- The value a look-up by primary key compares with; `some none` finds no row. -/
  toKey : Json → Option (Option ℕ)
  /-- `parse_datetime` of a value that is true; `some none` is a text it does not recognise. -/
  parseDatetime : Json → Option (Option Instant)
  /-- `CharField.to_python`. -/
  toText : Json → String
  accepts : Subscription → Bool

/-- The statements of a push at which the database or the process can fail. -/
inductive PushStatement
  | receipt
  | user
  | subscription
  | save
  deriving DecidableEq, Repr

/-- A push: whether `verify_inbound` accepts it, and its body if that is a JSON object. -/
structure PushRequest where
  verified : Bool := true
  data : Option Payload

/-- The end of a push: the tables, the status of the answer, `none` when it raised, and the
entitlement it wrote. -/
structure PushOutcome where
  billing : Billing
  status : Option ℕ := none
  applied : Option Subscription := none

/-! ### The endpoint -/

/-- `Subscription.objects.get_or_create(user=user)`. -/
def getOrCreateSubscription (subscriptions : Table Subscription) (user : ℕ) :
    Subscription × Table Subscription :=
  match subscriptions.rows.find? fun sub => sub.userId == user with
  | some sub => (sub, subscriptions)
  | none =>
    ({ id := subscriptions.seq + 1, userId := user },
      subscriptions.insert (fun id => { id, userId := user }) (fun _ => rfl))

namespace Platform

variable (platform : Platform)

/-- `parse_datetime(value) if value else None`. -/
def date (value : Json) : Option (Option Instant) :=
  if value.truthy then platform.parseDatetime value else some none

/-- The fields `apply_entitlement` sets on the row, before its save. -/
def entitled (payload : Payload) (sub : Subscription) : Option Subscription :=
  (platform.date (payload.get "current_period_end")).bind fun periodEnd =>
    (platform.date (payload.get "grace_until")).map fun grace =>
      let customerId := payload.getOr "stripe_customer_id" (.string "")
      { sub with
        isPaid := (payload.get "is_paid").truthy
        status := platform.toText (payload.getOr "status" (.string ""))
        plan := platform.toText (payload.getOr "plan" (.string ""))
        interval := platform.toText (payload.getOr "interval" (.string ""))
        quotas := payload.getOr "quotas" (.object [])
        currentPeriodEnd := periodEnd
        graceUntil := grace
        stripeCustomerId :=
          if customerId.truthy then platform.toText customerId else sub.stripeCustomerId }

variable (fails : PushStatement → Bool)

/-- `apply_entitlement`. -/
def applyEntitlement (s : Billing) (user : ℕ) (payload : Payload) : PushOutcome :=
  if fails .subscription then { billing := s }
  else
    let (sub, subscriptions) := getOrCreateSubscription s.subscriptions user
    let s := { s with subscriptions }
    match platform.entitled payload sub with
    | none => { billing := s }
    | some sub =>
      if fails .save || !platform.accepts sub then { billing := s }
      else
        { billing := { s with subscriptions := s.subscriptions.put sub }
          status := some 200
          applied := some sub }

/-- The end of `EntitlementView.post`, from the look-up of the user. -/
def applyToUser (s : Billing) (payload : Payload) : PushOutcome :=
  if fails .user then { billing := s }
  else
    match platform.toKey (payload.get "external_user_id") with
    | none => { billing := s }
    | some key =>
      match key.bind s.users.get? with
      | none => { billing := s, status := some 200 }
      | some user => platform.applyEntitlement fails s user.id payload

/-- `EntitlementView.post` up to the receipt: the payload and its delivery id, or the status of
the answer, `none` when it raises. -/
def receive (s : Billing) (request : PushRequest) :
    Except (Option ℕ) (Payload × DeliveryId) :=
  if !platform.billingConfigured then .error (some 503)
  else if !request.verified then .error (some 401)
  else
    match request.data with
    | none => .error none
    | some payload =>
      if (payload.get "ping").truthy then .error (some 200)
      else if !(payload.get "delivery_id").truthy then .error (some 400)
      else
        match platform.toUuid (payload.get "delivery_id") with
        | none => .error none
        | some id =>
          if fails .receipt then .error none
          else if s.receipts.contains id then .error (some 409)
          else .ok (payload, id)

/-- `EntitlementView.post`. -/
def post (s : Billing) (request : PushRequest) : PushOutcome :=
  match platform.receive fails s request with
  | .error status => { billing := s, status }
  | .ok (payload, id) =>
    platform.applyToUser fails { s with receipts := id :: s.receipts } payload

/-! ### Atomicity -/

/-- The push stores a receipt: nothing ends it before. -/
def Receipted (s : Billing) (request : PushRequest) (payload : Payload) (id : DeliveryId) : Prop :=
  platform.billingConfigured = true ∧ request.verified = true ∧ request.data = some payload ∧
    (payload.get "ping").truthy = false ∧ (payload.get "delivery_id").truthy = true ∧
    platform.toUuid (payload.get "delivery_id") = some id ∧ fails .receipt = false ∧
    id ∉ s.receipts

/-- The user of a push is unknown here. -/
def UnknownUser (s : Billing) (payload : Payload) : Prop :=
  ∃ key, platform.toKey (payload.get "external_user_id") = some key ∧
    key.bind s.users.get? = none

/-- The entitlement of the payload was written to the row of its user. -/
def AppliesTo (s : Billing) (payload : Payload) (o : PushOutcome) : Prop :=
  ∃ key user sub, platform.toKey (payload.get "external_user_id") = some (some key) ∧
    s.users.get? key = some user ∧ o.applied = some sub ∧
    platform.entitled payload (getOrCreateSubscription s.subscriptions user.id).1 = some sub ∧
    sub ∈ o.billing.subscriptions.rows

end Platform

/-- The receipt of a push and its entitlement are written together: a receipt that the push
stored means that its entitlement was applied or its user is unknown, and a push that raises
stores none. -/
structure PushesAtomically (platform : Platform) (fails : PushStatement → Bool) (s : Billing)
    (request : PushRequest) : Prop where
  receipt : ∀ id ∈ (platform.post fails s request).billing.receipts, id ∉ s.receipts →
    ∃ payload, request.data = some payload ∧
      (platform.UnknownUser s payload ∨
        platform.AppliesTo s payload (platform.post fails s request))
  raises : (platform.post fails s request).status = none →
    (platform.post fails s request).billing.receipts = s.receipts

/-- Nothing raises when the entitlement is written: no statement fails, `parse_datetime` takes the
dates and the database accepts the row. -/
def Platform.Writes (platform : Platform) (fails : PushStatement → Bool) (s : Billing)
    (user : ℕ) (payload : Payload) : Prop :=
  fails .subscription = false ∧ fails .save = false ∧
    ∃ sub, platform.entitled payload (getOrCreateSubscription s.subscriptions user).1 = some sub ∧
      platform.accepts sub = true

/-- Nothing raises after the receipt: the look-up takes the user id, and when it finds a user the
entitlement is written. -/
def Platform.Completes (platform : Platform) (fails : PushStatement → Bool) (s : Billing)
    (payload : Payload) : Prop :=
  fails .user = false ∧ ∃ key, platform.toKey (payload.get "external_user_id") = some key ∧
    ∀ user, key.bind s.users.get? = some user → platform.Writes fails s user.id payload

/-- A push that stores a receipt completes. -/
def Unbroken (platform : Platform) (fails : PushStatement → Bool) (s : Billing)
    (request : PushRequest) : Prop :=
  ∀ payload id, platform.Receipted fails s request payload id → platform.Completes fails s payload

namespace Platform

variable {platform : Platform} {fails : PushStatement → Bool} {s : Billing} {user : ℕ}
  {payload : Payload} {request : PushRequest}

/-- An application writes the entitlement and answers, or raises and writes none. -/
theorem applyEntitlement_cases (platform : Platform) (fails : PushStatement → Bool) (s : Billing)
    (user : ℕ) (payload : Payload) :
    (platform.applyEntitlement fails s user payload).billing.receipts = s.receipts ∧
    ((platform.Writes fails s user payload ∧ ∃ sub,
      platform.entitled payload (getOrCreateSubscription s.subscriptions user).1 = some sub ∧
      (platform.applyEntitlement fails s user payload).status = some 200 ∧
      (platform.applyEntitlement fails s user payload).applied = some sub ∧
      sub ∈ (platform.applyEntitlement fails s user payload).billing.subscriptions.rows) ∨
    (¬platform.Writes fails s user payload ∧
      (platform.applyEntitlement fails s user payload).status = none)) := by
  unfold applyEntitlement Writes
  split
  · next hfails => exact ⟨rfl, Or.inr ⟨by simp [hfails], rfl⟩⟩
  · next hfails =>
    dsimp only
    split
    · next hentitled => exact ⟨rfl, Or.inr ⟨by simp [hentitled], rfl⟩⟩
    · next sub hentitled =>
      split
      · next hsave =>
        refine ⟨rfl, Or.inr ⟨?_, rfl⟩⟩
        rintro ⟨-, hnotfails, sub', hsub', haccepts⟩
        obtain rfl := Option.some.inj (hentitled.symm.trans hsub')
        simp [hnotfails, haccepts] at hsave
      · next hsave =>
        simp only [Bool.or_eq_true, Bool.not_eq_true', not_or, Bool.not_eq_true,
          Bool.not_eq_false] at hsave
        refine ⟨rfl, Or.inl ⟨⟨by simpa using hfails, hsave.1, sub, hentitled, hsave.2⟩, sub,
          hentitled, rfl, rfl, ?_⟩⟩
        exact Table.mem_put.mpr (Or.inl rfl)

theorem receive_eq_ok {id : DeliveryId} :
    platform.receive fails s request = .ok (payload, id) ↔
      platform.Receipted fails s request payload id := by
  unfold receive Receipted
  constructor
  · intro h
    split at h
    · simp at h
    next hconfigured =>
    split at h
    · simp at h
    next hverified =>
    split at h
    · simp at h
    next payload' hdata =>
    split at h
    · simp at h
    next hping =>
    split at h
    · simp at h
    next hdelivery =>
    split at h
    · simp at h
    next id' huuid =>
    split at h
    · simp at h
    next hfails =>
    split at h
    · simp at h
    next hnew =>
    obtain ⟨rfl, rfl⟩ : payload' = payload ∧ id' = id := by simpa using h
    exact ⟨by simpa using hconfigured, by simpa using hverified, hdata, by simpa using hping,
      by simpa using hdelivery, huuid, by simpa using hfails, by simpa using hnew⟩
  · rintro ⟨hconfigured, hverified, hdata, hping, hdelivery, huuid, hfails, hnew⟩
    simp [hconfigured, hverified, hdata, hping, hdelivery, huuid, hfails, hnew]

/-- After its receipt a push applies the entitlement, or finds no user, or raises. -/
theorem applyToUser_cases (platform : Platform) (fails : PushStatement → Bool) (s : Billing)
    (payload : Payload) :
    (platform.applyToUser fails s payload).billing.receipts = s.receipts ∧
    ((platform.Completes fails s payload ∧
      (platform.applyToUser fails s payload).status = some 200 ∧
      (platform.UnknownUser s payload ∨
        platform.AppliesTo s payload (platform.applyToUser fails s payload))) ∨
    (¬platform.Completes fails s payload ∧
      (platform.applyToUser fails s payload).status = none)) := by
  unfold applyToUser Completes
  split
  · next hfails => exact ⟨rfl, Or.inr ⟨by simp [hfails], rfl⟩⟩
  · next hfails =>
    have hfails : fails .user = false := by simpa using hfails
    split
    · next hkey => exact ⟨rfl, Or.inr ⟨by simp [hkey], rfl⟩⟩
    · next key hkey =>
      split
      · next huser =>
        refine ⟨rfl, Or.inl ⟨⟨hfails, key, hkey, ?_⟩, rfl, Or.inl ⟨key, hkey, huser⟩⟩⟩
        simp [huser]
      · next user huser =>
        obtain ⟨hreceipts, hcases⟩ :=
          applyEntitlement_cases platform fails s user.id payload
        refine ⟨hreceipts, ?_⟩
        rcases hcases with ⟨hwrites, sub, hentitled, hstatus, happlied, hmem⟩ |
          ⟨hwrites, hstatus⟩
        · left
          refine ⟨⟨hfails, key, hkey, ?_⟩, hstatus, Or.inr ?_⟩
          · intro user' huser'
            obtain rfl := Option.some.inj (huser.symm.trans huser')
            exact hwrites
          · obtain ⟨k, rfl, hget⟩ := Option.bind_eq_some_iff.mp huser
            exact ⟨k, user, sub, hkey, hget, happlied, hentitled, hmem⟩
        · right
          refine ⟨?_, hstatus⟩
          rintro ⟨-, key', hkey', hall⟩
          obtain rfl := Option.some.inj (hkey.symm.trans hkey')
          exact hwrites (hall user huser)

end Platform

/-- A push is atomic with its receipt exactly when nothing raises after the receipt. -/
theorem pushes_atomically_iff (platform : Platform) (fails : PushStatement → Bool) (s : Billing)
    (request : PushRequest) :
    PushesAtomically platform fails s request ↔ Unbroken platform fails s request := by
  cases hreceive : platform.receive fails s request with
  | error status =>
    have hpost : platform.post fails s request = { billing := s, status } := by
      simp [Platform.post, hreceive]
    constructor
    · intro _ payload id hreceipted
      rw [Platform.receive_eq_ok.mpr hreceipted] at hreceive
      simp at hreceive
    · intro _
      refine ⟨fun id hid hnew => ?_, fun _ => ?_⟩
      · rw [hpost] at hid
        exact absurd hid hnew
      · rw [hpost]
  | ok received =>
    obtain ⟨payload, id⟩ := received
    have hreceipted := Platform.receive_eq_ok.mp hreceive
    have hdata : request.data = some payload := hreceipted.2.2.1
    have hnew : id ∉ s.receipts := hreceipted.2.2.2.2.2.2.2
    have hpost : platform.post fails s request =
        platform.applyToUser fails { s with receipts := id :: s.receipts } payload := by
      simp [Platform.post, hreceive]
    obtain ⟨hreceipts, hcases⟩ :=
      Platform.applyToUser_cases platform fails { s with receipts := id :: s.receipts } payload
    constructor
    · intro hatomic payload' id' hreceipted'
      obtain ⟨rfl, rfl⟩ : payload = payload' ∧ id = id' := by
        have := hreceive.symm.trans (Platform.receive_eq_ok.mpr hreceipted')
        simpa using this
      rcases hcases with ⟨hcompletes, -, -⟩ | ⟨-, hstatus⟩
      · exact hcompletes
      · have hkept := hatomic.raises (hpost ▸ hstatus)
        rw [hpost, hreceipts] at hkept
        exact absurd hkept (by simp)
    · intro hunbroken
      have hcompletes := hunbroken payload id hreceipted
      rcases hcases with ⟨-, hstatus, happlied⟩ | ⟨hnot, -⟩
      · refine ⟨fun _ _ _ => ⟨payload, hdata, ?_⟩, fun hnone => ?_⟩
        · rw [hpost]
          exact happlied
        · rw [hpost, hstatus] at hnone
          simp at hnone
      · exact absurd hcompletes hnot

/-! ### Samples -/

namespace Sample

/-- The value of a hexadecimal digit, `0` for a dash. -/
def hexDigit (c : Char) : Option ℕ :=
  if c.isDigit then some (c.toNat - '0'.toNat)
  else if 'a' ≤ c ∧ c ≤ 'f' then some (c.toNat - 'a'.toNat + 10)
  else none

/-- The number that the digits among the characters write in a base. -/
def digits (base : ℕ) (cs : List Char) : ℕ :=
  (cs.filterMap hexDigit).foldl (fun n d => base * n + d) 0

/-- UUIDs in their usual form, keys in decimal, one date, and the column widths. -/
def platform : Platform where
  billingConfigured := true
  toUuid
    | .string s => if s.length = 36 then some (digits 16 s.toList) else none
    | _ => none
  toKey
    | .null => some none
    | .string s => if s.toList.all Char.isDigit then some (some (digits 10 s.toList)) else none
    | .int n => some (some n.toNat)
    | _ => none
  parseDatetime
    | .string s => some (if s = "2030-01-01T12:00:00Z" then some 1893499200000000 else none)
    | _ => none
  toText
    | .string s => s
    | _ => ""
  accepts sub := decide (sub.status.length ≤ 32 ∧ sub.plan.length ≤ 32 ∧ sub.interval.length ≤ 8 ∧
    sub.stripeCustomerId.length ≤ 64)

def billing : Billing where
  users := Table.empty.put { id := 1, email := "a@b", password := "pbkdf2_sha256$1$first-password" }

/-- The push of a paid entitlement that ends at `periodEnd`. -/
def push (periodEnd : Json) : PushRequest where
  data := some
    [("delivery_id", .string "00000000-0000-4000-8000-000000000001"),
      ("external_user_id", .string "1"), ("is_paid", .bool true), ("status", .string "active"),
      ("current_period_end", periodEnd)]

end Sample

/-- A push whose end of period is a number leaves its receipt and no entitlement, and the
delivery of the corrected body is answered as already processed. -/
theorem receipt_without_entitlement :
    ¬PushesAtomically Sample.platform (fun _ => false) Sample.billing
        (Sample.push (.int 1893499200)) ∧
      ∃ o : PushOutcome, o = Sample.platform.post (fun _ => false)
          (Sample.platform.post (fun _ => false) Sample.billing
            (Sample.push (.int 1893499200))).billing
          (Sample.push (.string "2030-01-01T12:00:00Z")) ∧
        o.status = some 409 ∧ o.billing.subscriptions.rows.map (·.isPaid) = [false] := by
  constructor
  · intro hatomic
    have hkept := hatomic.raises (by decide)
    exact absurd hkept (by decide)
  · exact ⟨_, rfl, by decide, by decide⟩

end PushIT
