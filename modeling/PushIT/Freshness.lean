import PushIT.Billing
import PushIT.Library.Transition

/-!
# Freshness of the cached entitlement

The billing centre produces a sequence of entitlement states for each user.  A push carries one
of them to `EntitlementView`, under a delivery id that the centre may use again; the refresh of
the subscription page asks for the latest one.  Both write the row of the user with
`apply_entitlement`, which loads it, sets the fields and saves it.  Neither compares the state it
carries with the one the row has.

## Main definitions

* `EntitlementWorld.step`: the centre, the deliveries and the refreshes, statement by statement.
* `EntitlementWorld.InOrder`: no push comes late and no request is overtaken.

## Main results

* `EntitlementWorld.push_uninterrupted`: a push nothing comes between is that of the endpoint.
* `entitlement_fresh`: the row never goes back to an older state in such a run.
* `late_push_restores`: a late push that puts an unpaid user back to paid.
-/

namespace PushIT

open Relational Transition

/-! ### The centre and its messages -/

/-- The body of a push: a state under a delivery id, with the key of its user. -/
def pushBody (deliveryId userKey : Json) (state : Payload) : Payload :=
  ("delivery_id", deliveryId) :: ("external_user_id", userKey) :: state

/-- A push or a refresh between two of its statements, with the state it carries by its position
in the sequence of the centre. -/
inductive EntitlementRequest
  /-- It knows the state; the row of the user is loaded next. -/
  | loading (user index : ℕ) (payload : Payload)
  /-- The fields of the loaded instance are set; it is saved next. -/
  | saving (user index : ℕ) (sub : Subscription)

def EntitlementRequest.user : EntitlementRequest → ℕ
  | loading user _ _ | saving user _ _ => user

def EntitlementRequest.index : EntitlementRequest → ℕ
  | loading _ index _ | saving _ index _ => index

structure EntitlementWorld where
  billing : Billing
  /-- The states the centre produced for each user, the oldest first. -/
  central : ℕ → List Payload := fun _ => []
  requests : Pool EntitlementRequest := .idle
  /-- The state that was saved last to the row of a user; no action reads it. -/
  reflects : ℕ → Option ℕ := fun _ => none

inductive EntitlementAction
  /-- The centre produces a state. -/
  | produce (user : ℕ) (state : Payload)
  /-- A push with a state of the user arrives, for the first time or again. -/
  | push (rid user index : ℕ) (deliveryId userKey : Json)
  /-- The user opens the subscription page with `?refresh=1`. -/
  | pull (rid user : ℕ)
  /-- A push or a refresh performs its next statement. -/
  | advance (rid : ℕ)
  /-- One of its statements raises. -/
  | fail (rid : ℕ)

namespace EntitlementWorld

def setRequest (w : EntitlementWorld) (rid : ℕ) (r : Option EntitlementRequest) :
    EntitlementWorld :=
  { w with requests := w.requests.set rid r }

def produce (w : EntitlementWorld) (user : ℕ) (state : Payload) : EntitlementWorld :=
  { w with central := fun u => if u = user then w.central u ++ [state] else w.central u }

/-- `EntitlementView.post` up to the look-up of the user. -/
def receivePush (platform : Platform) (w : EntitlementWorld) (rid user index : ℕ)
    (payload : Payload) : EntitlementWorld :=
  match platform.receive (fun _ => false) w.billing { data := some payload } with
  | .error _ => w
  | .ok (payload, id) =>
    let w' := { w with billing := { w.billing with receipts := id :: w.billing.receipts } }
    if (w.billing.users.get? user).isSome then
      w'.setRequest rid (some (.loading user index payload))
    else w'

/-- The row was saved with a state. -/
def save (w : EntitlementWorld) (rid user index : ℕ) (sub : Subscription) : EntitlementWorld :=
  { w with
    billing := { w.billing with subscriptions := w.billing.subscriptions.put sub }
    requests := w.requests.set rid none
    reflects := fun u => if u = user then some index else w.reflects u }

/-- The statements of `apply_entitlement`. -/
def applyStep (platform : Platform) (w : EntitlementWorld) (rid : ℕ) :
    EntitlementRequest → EntitlementWorld
  | .loading user index payload =>
    let (sub, subscriptions) := getOrCreateSubscription w.billing.subscriptions user
    let w' := { w with billing := { w.billing with subscriptions } }
    w'.setRequest rid ((platform.entitled payload sub).map (.saving user index))
  | .saving user index sub =>
    if platform.accepts sub then w.save rid user index sub else w.setRequest rid none

def step (platform : Platform) (w : EntitlementWorld) : EntitlementAction → Option EntitlementWorld
  | .produce user state => some (w.produce user state)
  | .push rid user index deliveryId userKey =>
    -- the centre names the user by a key that PushIT resolves
    if (w.requests rid).isNone ∧ platform.toKey userKey = some (some user) then
      (w.central user)[index]?.map fun state =>
        w.receivePush platform rid user index (pushBody deliveryId userKey state)
    else none
  | .pull rid user =>
    if (w.requests rid).isNone ∧ platform.billingConfigured ∧
        (w.billing.users.get? user).isSome then
      some (match (w.central user).getLast? with
        | none => w
        | some state => w.setRequest rid (some (.loading user ((w.central user).length - 1) state)))
    else none
  | .advance rid => (w.requests rid).map (w.applyStep platform rid)
  | .fail rid => (w.requests rid).map fun _ => w.setRequest rid none

/-- A push that is not answered as a duplicate carries no older state than the row of its user
has, and no request saves a state while another one of the user still holds an older one. -/
def InOrder (platform : Platform) (w : EntitlementWorld) : EntitlementAction → Prop
  | .push _ user index deliveryId _ =>
    ∀ id ∈ platform.toUuid deliveryId, id ∉ w.billing.receipts → ∀ n ∈ w.reflects user, n ≤ index
  | .advance rid => ∀ user index sub, w.requests rid = some (.saving user index sub) →
      ∀ other r, other ≠ rid → w.requests other = some r → r.user = user → index ≤ r.index
  | _ => True

end EntitlementWorld

/-- The centre, the pushes and the refreshes as a transition system. -/
def entitlementServer (platform : Platform) : System EntitlementWorld EntitlementAction :=
  ⟨EntitlementWorld.step platform⟩

/-! ### What a row reflects -/

/-- The row was written from the state with a position in the sequence of its user. -/
def EntitlementWorld.Matches (platform : Platform) (w : EntitlementWorld) (user index : ℕ)
    (sub : Subscription) : Prop :=
  ∃ state base, (w.central user)[index]? = some state ∧ platform.entitled state base = some sub

/-- `apply_entitlement` writes the row it loaded. -/
theorem Platform.entitled_keeps {platform : Platform} {payload : Payload}
    {base sub : Subscription} (h : platform.entitled payload base = some sub) :
    sub.id = base.id ∧ sub.userId = base.userId := by
  obtain ⟨periodEnd, -, h⟩ := Option.bind_eq_some_iff.mp h
  obtain ⟨grace, -, rfl⟩ := Option.map_eq_some_iff.mp h
  exact ⟨rfl, rfl⟩

/-- The delivery id and the key of the user are no fields of the entitlement. -/
theorem Platform.entitled_pushBody (platform : Platform) (deliveryId userKey : Json)
    (state : Payload) (base : Subscription) :
    platform.entitled (pushBody deliveryId userKey state) base = platform.entitled state base := by
  have hget : ∀ key, key ≠ "delivery_id" → key ≠ "external_user_id" →
      (pushBody deliveryId userKey state).get key = state.get key := by
    intro key hid huser
    have hid : (key == "delivery_id") = false := by simpa using hid
    have huser : (key == "external_user_id") = false := by simpa using huser
    simp [pushBody, Payload.get, List.lookup_cons, hid, huser]
  simp only [Platform.entitled, Payload.getOr, hget "current_period_end" (by decide) (by decide),
    hget "grace_until" (by decide) (by decide), hget "stripe_customer_id" (by decide) (by decide),
    hget "is_paid" (by decide) (by decide), hget "status" (by decide) (by decide),
    hget "plan" (by decide) (by decide), hget "interval" (by decide) (by decide),
    hget "quotas" (by decide) (by decide)]
  rfl

/-- The instance that is loaded is the row of the user, which is the old one or a new one. -/
theorem getOrCreateSubscription_spec (subscriptions : Table Subscription) (user : ℕ) :
    (getOrCreateSubscription subscriptions user).1 ∈
        (getOrCreateSubscription subscriptions user).2.rows ∧
      (getOrCreateSubscription subscriptions user).1.userId = user ∧
      (∀ r ∈ subscriptions.rows, r ∈ (getOrCreateSubscription subscriptions user).2.rows) ∧
      ∀ r ∈ (getOrCreateSubscription subscriptions user).2.rows, r ∈ subscriptions.rows ∨
        r = (getOrCreateSubscription subscriptions user).1 ∧
          ∀ s ∈ subscriptions.rows, s.userId ≠ user := by
  unfold getOrCreateSubscription
  cases hfind : subscriptions.rows.find? fun sub => sub.userId == user with
  | some sub =>
    have hmem := List.mem_of_find?_eq_some hfind
    have huser : sub.userId = user := by simpa using List.find?_some hfind
    exact ⟨hmem, huser, fun r hr => hr, fun r hr => Or.inl hr⟩
  | none =>
    have habsent : ∀ s ∈ subscriptions.rows, s.userId ≠ user := by
      intro s hs
      simpa using List.find?_eq_none.mp hfind s hs
    refine ⟨Table.mem_insert.mpr (Or.inr rfl), rfl, fun r hr => Table.mem_insert.mpr (Or.inl hr),
      fun r hr => ?_⟩
    rcases Table.mem_insert.mp hr with hr | rfl
    · exact Or.inl hr
    · exact Or.inr ⟨rfl, habsent⟩

/-! ### The invariant -/

/-- What a request holds: a state of its user and, after the load, the row of the user with the
fields of that state. -/
def EntitlementWorld.Holds (platform : Platform) (w : EntitlementWorld) :
    EntitlementRequest → Prop
  | .loading user index payload => ∃ state, (w.central user)[index]? = some state ∧
      ∀ base, platform.entitled payload base = platform.entitled state base
  | .saving user index sub => w.Matches platform user index sub ∧ sub.userId = user ∧
      ∃ row ∈ w.billing.subscriptions.rows, row.id = sub.id ∧ row.userId = user

namespace EntitlementWorld

variable {platform : Platform} {w w' : EntitlementWorld} {rid : ℕ}

/-- A user has one row, it has the state it reflects, and no request holds an older one. -/
structure Consistent (platform : Platform) (w : EntitlementWorld) : Prop where
  single : ∀ r ∈ w.billing.subscriptions.rows, ∀ s ∈ w.billing.subscriptions.rows,
    r.userId = s.userId → r = s
  written : ∀ user n, w.reflects user = some n →
    ∃ sub ∈ w.billing.subscriptions.rows, sub.userId = user
  faithful : ∀ user n, w.reflects user = some n → ∀ sub ∈ w.billing.subscriptions.rows,
    sub.userId = user → w.Matches platform user n sub
  held : ∀ rid r, w.requests rid = some r → w.Holds platform r
  fresh : ∀ rid r, w.requests rid = some r → ∀ n, w.reflects r.user = some n → n ≤ r.index

/-- No request is under way, a user has one row at most, and no state of the centre was saved
yet. -/
structure Initial (w : EntitlementWorld) : Prop where
  single : ∀ r ∈ w.billing.subscriptions.rows, ∀ s ∈ w.billing.subscriptions.rows,
    r.userId = s.userId → r = s
  requests : w.requests = .idle
  reflects : w.reflects = fun _ => none

/-- A row reflects a state of the sequence. -/
theorem Consistent.reflects_lt (h : w.Consistent platform) {user n : ℕ}
    (hn : w.reflects user = some n) : n < (w.central user).length := by
  obtain ⟨sub, hsub, huser⟩ := h.written user n hn
  obtain ⟨state, base, hstate, -⟩ := h.faithful user n hn sub hsub huser
  exact (List.getElem?_eq_some_iff.mp hstate).1

theorem Initial.consistent (h : w.Initial) : w.Consistent platform where
  single := h.single
  written := by simp [h.reflects]
  faithful := by simp [h.reflects]
  held := by simp [h.requests]
  fresh := by simp [h.requests]

/-- A state keeps its position in the sequence of the centre. -/
theorem getElem?_produce (u : ℕ) (state : Payload) {user index : ℕ} {old : Payload}
    (h : (w.central user)[index]? = some old) :
    ((w.produce u state).central user)[index]? = some old := by
  obtain ⟨hlt, -⟩ := List.getElem?_eq_some_iff.mp h
  show (if user = u then w.central user ++ [state] else w.central user)[index]? = some old
  by_cases hu : user = u
  · rw [if_pos hu, List.getElem?_append_left hlt]
    exact h
  · rw [if_neg hu]
    exact h

theorem Matches.produce {user index : ℕ} {sub : Subscription} (u : ℕ) (state : Payload)
    (h : w.Matches platform user index sub) :
    (w.produce u state).Matches platform user index sub := by
  obtain ⟨old, base, hold, hsub⟩ := h
  exact ⟨old, base, getElem?_produce u state hold, hsub⟩

theorem Consistent.produce (h : w.Consistent platform) (u : ℕ) (state : Payload) :
    (w.produce u state).Consistent platform where
  single := h.single
  written := h.written
  faithful user n hn sub hsub huser := (h.faithful user n hn sub hsub huser).produce u state
  held rid r hr := by
    have hheld := h.held rid r hr
    cases r with
    | loading user index payload =>
      obtain ⟨old, hold, hentitled⟩ := hheld
      exact ⟨old, getElem?_produce u state hold, hentitled⟩
    | saving user index sub => exact ⟨hheld.1.produce u state, hheld.2⟩
  fresh := h.fresh

/-- A request may begin, or go on, with a state that is as new as the row of its user. -/
theorem Consistent.setRequest (h : w.Consistent platform) {r : Option EntitlementRequest}
    (hholds : ∀ x, r = some x → w.Holds platform x)
    (hfresh : ∀ x, r = some x → ∀ n, w.reflects x.user = some n → n ≤ x.index) :
    (w.setRequest rid r).Consistent platform where
  single := h.single
  written := h.written
  faithful := h.faithful
  held := by
    have hset := Pool.forall_set (i := rid) h.held hholds
    intro j x hx
    have hheld := hset j x hx
    cases x with
    | loading => exact hheld
    | saving => exact hheld
  fresh := Pool.forall_set h.fresh hfresh

theorem Consistent.endRequest (h : w.Consistent platform) :
    (w.setRequest rid none).Consistent platform :=
  h.setRequest (by simp) (by simp)

theorem Consistent.storeReceipt (h : w.Consistent platform) (receipts : List DeliveryId) :
    { w with billing := { w.billing with receipts } }.Consistent platform where
  single := h.single
  written := h.written
  faithful := h.faithful
  held rid r hr := by
    have hheld := h.held rid r hr
    cases r with
    | loading => exact hheld
    | saving => exact hheld
  fresh := h.fresh

/-- Loading the row of a user adds one without a state at most. -/
theorem Consistent.load (h : w.Consistent platform) (user : ℕ) :
    { w with billing := { w.billing with
        subscriptions := (getOrCreateSubscription w.billing.subscriptions user).2 } }.Consistent
      platform := by
  obtain ⟨-, hnew, hkept, hcases⟩ := getOrCreateSubscription_spec w.billing.subscriptions user
  refine ⟨?_, ?_, ?_, ?_, h.fresh⟩
  · intro r hr s hs heq
    rcases hcases r hr with hold | ⟨rfl, habsent⟩ <;>
      rcases hcases s hs with hold' | ⟨rfl, habsent'⟩
    · exact h.single r hold s hold' heq
    · exact absurd (heq.trans hnew) (habsent' r hold)
    · exact absurd (heq.symm.trans hnew) (habsent s hold')
    · rfl
  · intro u n hn
    obtain ⟨sub, hsub, huser⟩ := h.written u n hn
    exact ⟨sub, hkept sub hsub, huser⟩
  · intro u n hn sub hsub huser
    obtain ⟨old, hold, holduser⟩ := h.written u n hn
    rcases hcases sub hsub with hsub | ⟨rfl, habsent⟩
    · exact h.faithful u n hn sub hsub huser
    · exact absurd (holduser.trans (huser.symm.trans hnew)) (habsent old hold)
  · intro rid r hr
    have hheld := h.held rid r hr
    cases r with
    | loading => exact hheld
    | saving user index sub =>
      obtain ⟨hmatches, huser, row, hrow, hid, hrowuser⟩ := hheld
      exact ⟨hmatches, huser, row, hkept row hrow, hid, hrowuser⟩

/-- A save that no other request of the user is behind. -/
theorem Consistent.save (h : w.Consistent platform) {user index : ℕ} {sub : Subscription}
    (hr : w.requests rid = some (.saving user index sub))
    (hothers : ∀ other r, other ≠ rid → w.requests other = some r → r.user = user →
      index ≤ r.index) :
    (w.save rid user index sub).Consistent platform := by
  obtain ⟨hmatches, huser, row, hrow, hid, hrowuser⟩ := h.held rid _ hr
  -- the saved instance takes the place of the row of its user
  have hplace : ∀ s ∈ w.billing.subscriptions.rows, s.userId = user ↔ s.id = sub.id := by
    intro s hs
    constructor
    · intro hsuser
      rw [h.single s hs row hrow (hsuser.trans hrowuser.symm), hid]
    · intro hsid
      rw [Table.eq_of_pk hs hrow (hsid.trans hid.symm), hrowuser]
  have hrows : ∀ s, s ∈ (w.save rid user index sub).billing.subscriptions.rows ↔
      s = sub ∨ (s ∈ w.billing.subscriptions.rows ∧ s.id ≠ sub.id) := fun s => Table.mem_put
  have hreflects : ∀ u, (w.save rid user index sub).reflects u =
      if u = user then some index else w.reflects u := fun _ => rfl
  refine ⟨?_, ?_, ?_, ?_, ?_⟩
  · intro r hr s hs heq
    rcases (hrows r).mp hr with rfl | ⟨hold, hrid⟩ <;>
      rcases (hrows s).mp hs with rfl | ⟨hold', hsid⟩
    · rfl
    · exact absurd ((hplace s hold').mp (heq.symm.trans huser)) hsid
    · exact absurd ((hplace r hold).mp (heq.trans huser)) hrid
    · exact h.single r hold s hold' heq
  · intro u n hn
    by_cases hu : u = user
    · exact ⟨sub, (hrows sub).mpr (Or.inl rfl), huser.trans hu.symm⟩
    · rw [hreflects, if_neg hu] at hn
      obtain ⟨s, hs, hsuser⟩ := h.written u n hn
      have hsid : s.id ≠ sub.id := fun hsid => hu (hsuser.symm.trans ((hplace s hs).mpr hsid))
      exact ⟨s, (hrows s).mpr (Or.inr ⟨hs, hsid⟩), hsuser⟩
  · intro u n hn s hs hsuser
    rw [hreflects] at hn
    rcases (hrows s).mp hs with rfl | ⟨hs, hsid⟩
    · obtain rfl := huser.symm.trans hsuser
      obtain rfl := Option.some.inj ((if_pos rfl).symm.trans hn)
      exact hmatches
    · have hu : u ≠ user := fun hu => hsid ((hplace s hs).mp (hsuser.trans hu))
      exact h.faithful u n ((if_neg hu).symm.trans hn) s hs hsuser
  · refine Pool.forall_set (fun other r hother => ?_) (by simp)
    have hheld := h.held other r hother
    cases r with
    | loading => exact hheld
    | saving u i s =>
      obtain ⟨hsmatches, hsuser, old, hold, holdid, holduser⟩ := hheld
      refine ⟨hsmatches, hsuser, ?_⟩
      by_cases hold' : old.id = sub.id
      · have hu : user = u := ((hplace old hold).mpr hold').symm.trans holduser
        exact ⟨sub, (hrows sub).mpr (Or.inl rfl), hold'.symm.trans holdid, huser.trans hu⟩
      · exact ⟨old, (hrows old).mpr (Or.inr ⟨hold, hold'⟩), holdid, holduser⟩
  · intro other r hother n hn
    rw [hreflects] at hn
    rcases Pool.set_eq_some.mp hother with ⟨-, hnone⟩ | ⟨hne, hother⟩
    · simp at hnone
    · by_cases hu : r.user = user
      · obtain rfl := Option.some.inj ((if_pos hu).symm.trans hn)
        exact hothers other r hne hother hu
      · exact h.fresh other r hother n ((if_neg hu).symm.trans hn)

/-! ### The steps -/

theorem receivePush_cases (platform : Platform) (w : EntitlementWorld) (rid user index : ℕ)
    (payload : Payload) :
    w.receivePush platform rid user index payload = w ∨
      ∃ receipts, w.receivePush platform rid user index payload =
          { w with billing := { w.billing with receipts } } ∨
        w.receivePush platform rid user index payload =
            { w with billing := { w.billing with receipts } }.setRequest rid
              (some (.loading user index payload)) ∧
          ∃ id, platform.toUuid (payload.get "delivery_id") = some id ∧
            id ∉ w.billing.receipts := by
  unfold receivePush
  cases hreceive : platform.receive (fun _ => false) w.billing { data := some payload } with
  | error status => exact Or.inl rfl
  | ok received =>
    obtain ⟨payload', id⟩ := received
    obtain ⟨-, -, hdata, -, -, huuid, -, hnew⟩ := Platform.receive_eq_ok.mp hreceive
    obtain rfl : payload = payload' := Option.some.inj hdata
    refine Or.inr ⟨id :: w.billing.receipts, ?_⟩
    dsimp only
    split
    · exact Or.inr ⟨rfl, id, huuid, hnew⟩
    · exact Or.inl rfl

/-- No row went back to an older state. -/
def Follows (w w' : EntitlementWorld) : Prop :=
  ∀ user n, w.reflects user = some n → ∃ m, n ≤ m ∧ w'.reflects user = some m

theorem Follows.of_eq (h : w'.reflects = w.reflects) : w.Follows w' :=
  fun _ n hn => ⟨n, le_rfl, h ▸ hn⟩

theorem Follows.trans {w'' : EntitlementWorld} (h : w.Follows w') (h' : w'.Follows w'') :
    w.Follows w'' := by
  intro user n hn
  obtain ⟨m, hm, hreflects⟩ := h user n hn
  obtain ⟨k, hk, hreflects⟩ := h' user m hreflects
  exact ⟨k, hm.trans hk, hreflects⟩

theorem Consistent.applyStep (h : w.Consistent platform) {r : EntitlementRequest}
    (hr : w.requests rid = some r) (ha : w.InOrder platform (.advance rid)) :
    (w.applyStep platform rid r).Consistent platform ∧ w.Follows (w.applyStep platform rid r) := by
  cases r with
  | loading user index payload =>
    refine ⟨(h.load user).setRequest ?_ ?_, .of_eq rfl⟩
    · intro x hx
      obtain ⟨sub, hsub, rfl⟩ := Option.map_eq_some_iff.mp hx
      obtain ⟨state, hstate, hentitled⟩ := h.held rid _ hr
      obtain ⟨hrow, huser, -⟩ := getOrCreateSubscription_spec w.billing.subscriptions user
      obtain ⟨hid, hkeeps⟩ := Platform.entitled_keeps hsub
      rw [hentitled] at hsub
      exact ⟨⟨state, _, hstate, hsub⟩, hkeeps.trans huser, _, hrow, hid.symm, huser⟩
    · intro x hx n hn
      obtain ⟨sub, -, rfl⟩ := Option.map_eq_some_iff.mp hx
      exact h.fresh rid _ hr n hn
  | saving user index sub =>
    unfold EntitlementWorld.applyStep
    dsimp only
    split
    · refine ⟨h.save hr (ha user index sub hr), fun u n hn => ?_⟩
      by_cases hu : u = user
      · subst hu
        exact ⟨index, h.fresh rid _ hr n hn, if_pos rfl⟩
      · exact ⟨n, le_rfl, (if_neg hu).trans hn⟩
    · exact ⟨h.endRequest, .of_eq rfl⟩

theorem Consistent.receivePush (h : w.Consistent platform) {user index : ℕ}
    {deliveryId userKey : Json} {state : Payload} (hstate : (w.central user)[index]? = some state)
    (ha : w.InOrder platform (.push rid user index deliveryId userKey)) :
    (w.receivePush platform rid user index (pushBody deliveryId userKey state)).Consistent
        platform ∧
      w.Follows (w.receivePush platform rid user index (pushBody deliveryId userKey state)) := by
  rcases receivePush_cases platform w rid user index (pushBody deliveryId userKey state) with
    heq | ⟨receipts, heq | ⟨heq, id, hid, hnew⟩⟩
  · rw [heq]
    exact ⟨h, .of_eq rfl⟩
  · rw [heq]
    exact ⟨h.storeReceipt receipts, .of_eq rfl⟩
  · rw [heq]
    refine ⟨(h.storeReceipt receipts).setRequest ?_ ?_, .of_eq rfl⟩
    · intro x hx
      obtain rfl := Option.some.inj hx
      exact ⟨state, hstate, platform.entitled_pushBody deliveryId userKey state⟩
    · intro x hx n hn
      obtain rfl := Option.some.inj hx
      exact ha id hid hnew n hn

/-- A consistent state stays so, and no row goes back. -/
theorem Consistent.step {a : EntitlementAction} (h : w.Consistent platform)
    (ha : w.InOrder platform a) (hs : w.step platform a = some w') :
    w'.Consistent platform ∧ w.Follows w' := by
  cases a with
  | produce user state =>
    obtain rfl := Option.some.inj hs
    exact ⟨h.produce user state, .of_eq rfl⟩
  | push rid user index deliveryId userKey =>
    simp only [EntitlementWorld.step] at hs
    split at hs
    · obtain ⟨state, hstate, rfl⟩ := Option.map_eq_some_iff.mp hs
      exact h.receivePush hstate ha
    · simp at hs
  | pull rid user =>
    simp only [EntitlementWorld.step] at hs
    split at hs
    · obtain rfl := Option.some.inj hs
      cases hlast : (w.central user).getLast? with
      | none => exact ⟨h, .of_eq rfl⟩
      | some state =>
        have hstate : (w.central user)[(w.central user).length - 1]? = some state := by
          rw [← List.getLast?_eq_getElem?, hlast]
        refine ⟨h.setRequest ?_ ?_, .of_eq rfl⟩
        · intro x hx
          obtain rfl := Option.some.inj hx
          exact ⟨state, hstate, fun _ => rfl⟩
        · intro x hx n hn
          obtain rfl := Option.some.inj hx
          exact Nat.le_sub_one_of_lt (h.reflects_lt hn)
    · simp at hs
  | advance rid =>
    obtain ⟨r, hr, rfl⟩ := Option.map_eq_some_iff.mp hs
    exact h.applyStep hr ha
  | fail rid =>
    obtain ⟨r, hr, rfl⟩ := Option.map_eq_some_iff.mp hs
    exact ⟨h.endRequest, .of_eq rfl⟩

theorem requests_applyStep {other : ℕ} (r : EntitlementRequest) (hne : other ≠ rid) :
    (w.applyStep platform rid r).requests other = w.requests other := by
  cases r with
  | loading user index payload => exact Pool.set_of_ne w.requests _ hne
  | saving user index sub =>
    unfold EntitlementWorld.applyStep
    dsimp only
    split
    · exact Pool.set_of_ne w.requests _ hne
    · exact Pool.set_of_ne w.requests _ hne

/-- The statements of `apply_entitlement`, one after the other. -/
theorem apply_uninterrupted (platform : Platform) (w : EntitlementWorld)
    (hidle : w.requests rid = none) (user index : ℕ) (payload : Payload) :
    ∃ w', (entitlementServer platform).Reach (fun _ _ => True)
        (w.setRequest rid (some (.loading user index payload))) w' ∧
      w'.requests = w.requests ∧
      w'.billing = (platform.applyEntitlement (fun _ => false) w.billing user payload).billing := by
  have hadvance : ∀ (v : EntitlementWorld) (r : EntitlementRequest), v.requests rid = some r →
      (entitlementServer platform).step v (.advance rid) = some (v.applyStep platform rid r) := by
    intro v r hr
    show Option.map _ (v.requests rid) = _
    rw [hr, Option.map_some]
  have hload := hadvance (w.setRequest rid (some (.loading user index payload))) _
    (Pool.set_self w.requests rid _)
  unfold Platform.applyEntitlement
  simp only [Bool.false_eq_true, if_false, Bool.false_or]
  cases hentitled : platform.entitled payload
      (getOrCreateSubscription w.billing.subscriptions user).1 with
  | none =>
    refine ⟨_, .head trivial hload (.refl _), ?_, ?_⟩ <;>
      simp [EntitlementWorld.applyStep, setRequest, hentitled, Pool.set_eq_self hidle]
  | some sub =>
    have hsave := hadvance ((w.setRequest rid (some (.loading user index payload))).applyStep
      platform rid (.loading user index payload)) (.saving user index sub)
        (by simp [EntitlementWorld.applyStep, setRequest, hentitled])
    refine ⟨_, .head trivial hload (.head trivial hsave (.refl _)), ?_, ?_⟩ <;>
      by_cases haccepts : platform.accepts sub = true <;>
        simp [EntitlementWorld.applyStep, setRequest, EntitlementWorld.save, hentitled, haccepts,
          Pool.set_eq_self hidle]

/-- A push that nothing comes between is the one of `EntitlementView.post`. -/
theorem push_uninterrupted (w : EntitlementWorld) {user index : ℕ} {deliveryId userKey : Json}
    {state : Payload} (hidle : w.requests rid = none)
    (hkey : platform.toKey userKey = some (some user))
    (hstate : (w.central user)[index]? = some state) :
    ∃ w', (entitlementServer platform).Reach (fun _ _ => True) w w' ∧ w'.requests = w.requests ∧
      w'.billing = (platform.post (fun _ => false) w.billing
        { data := some (pushBody deliveryId userKey state) }).billing := by
  have hpush : (entitlementServer platform).step w (.push rid user index deliveryId userKey) =
      some (w.receivePush platform rid user index (pushBody deliveryId userKey state)) := by
    show EntitlementWorld.step platform w (.push rid user index deliveryId userKey) = _
    simp [EntitlementWorld.step, hidle, hkey, hstate]
  have huserKey : (pushBody deliveryId userKey state).get "external_user_id" = userKey := rfl
  unfold EntitlementWorld.receivePush at hpush
  unfold Platform.post
  cases hreceive : platform.receive (fun _ => false) w.billing
      { data := some (pushBody deliveryId userKey state) } with
  | error status =>
    rw [hreceive] at hpush
    exact ⟨w, .refl _, rfl, rfl⟩
  | ok received =>
    obtain ⟨payload, id⟩ := received
    obtain ⟨-, -, hdata, -⟩ := Platform.receive_eq_ok.mp hreceive
    obtain rfl := Option.some.inj hdata
    rw [hreceive] at hpush
    dsimp only at hpush ⊢
    simp only [Platform.applyToUser, huserKey, hkey, Bool.false_eq_true, if_false,
      Option.bind_some]
    cases huser : w.billing.users.get? user with
    | none =>
      simp only [huser, Option.isSome_none, Bool.false_eq_true, if_false] at hpush
      exact ⟨_, .head trivial hpush (.refl _), rfl, rfl⟩
    | some u =>
      obtain rfl : u.id = user := (Table.get?_eq_some.mp huser).2
      simp only [huser, Option.isSome_some, if_true] at hpush
      obtain ⟨w', hreach, hrequests, hbilling⟩ := apply_uninterrupted platform
        { w with billing := { w.billing with receipts := id :: w.billing.receipts } } hidle u.id
        index (pushBody deliveryId userKey state)
      exact ⟨w', .head trivial hpush hreach, hrequests, hbilling⟩

/-! ### A single worker -/

/-- One worker handles the requests, and no push carries an older state than the row has. -/
def SingleWorker (rid : ℕ) (w : EntitlementWorld) : EntitlementAction → Prop
  | .push r user index _ _ => r = rid ∧ ∀ n ∈ w.reflects user, n ≤ index
  | .pull r _ | .advance r | .fail r => r = rid
  | .produce _ _ => True

instance (rid : ℕ) (w : EntitlementWorld) (a : EntitlementAction) :
    Decidable (w.SingleWorker rid a) := by
  rcases a with _ | _ <;> unfold SingleWorker <;> infer_instance

theorem preserves_singleWorker (platform : Platform) (rid : ℕ) :
    (entitlementServer platform).Preserves (SingleWorker rid)
      fun w => ∀ other, other ≠ rid → w.requests other = none := by
  intro w a w' h ha hs other hne
  have hold := h other hne
  cases a with
  | produce user state =>
    obtain rfl := Option.some.inj hs
    exact hold
  | push r user index deliveryId userKey =>
    obtain ⟨rfl, -⟩ := ha
    replace hs : w.step platform (.push r user index deliveryId userKey) = some w' := hs
    simp only [EntitlementWorld.step] at hs
    split at hs
    · obtain ⟨state, -, rfl⟩ := Option.map_eq_some_iff.mp hs
      rcases receivePush_cases platform w r user index (pushBody deliveryId userKey state) with
        heq | ⟨receipts, heq | ⟨heq, -⟩⟩
      · rw [heq]
        exact hold
      · rw [heq]
        exact hold
      · rw [heq]
        exact (Pool.set_of_ne w.requests _ hne).trans hold
    · simp at hs
  | pull r user =>
    obtain rfl : r = rid := ha
    replace hs : w.step platform (.pull r user) = some w' := hs
    simp only [EntitlementWorld.step] at hs
    split at hs
    · obtain rfl := Option.some.inj hs
      split
      · exact hold
      · exact (Pool.set_of_ne w.requests _ hne).trans hold
    · simp at hs
  | advance r =>
    obtain rfl : r = rid := ha
    obtain ⟨x, -, rfl⟩ := Option.map_eq_some_iff.mp hs
    exact (requests_applyStep x hne).trans hold
  | fail r =>
    obtain rfl : r = rid := ha
    obtain ⟨x, -, rfl⟩ := Option.map_eq_some_iff.mp hs
    exact (Pool.set_of_ne w.requests _ hne).trans hold

/-- A single worker overtakes no request. -/
theorem reach_of_singleWorker (h : (entitlementServer platform).Reach (SingleWorker rid) w w')
    (hidle : ∀ other, other ≠ rid → w.requests other = none) :
    (entitlementServer platform).Reach (InOrder platform) w w' := by
  refine h.mono_of_invariant _ (preserves_singleWorker platform rid) (fun v a hv ha => ?_) hidle
  cases a with
  | push r user index deliveryId userKey => exact fun _ _ _ => ha.2
  | advance r =>
    obtain rfl : r = rid := ha
    intro user index sub _ other x hne hx
    rw [hv other hne] at hx
    simp at hx
  | _ => trivial

end EntitlementWorld

/-- The centre, the pushes and the refreshes keep the consistent states. -/
theorem preserves_consistent (platform : Platform) :
    (entitlementServer platform).Preserves (EntitlementWorld.InOrder platform)
      (EntitlementWorld.Consistent platform) :=
  fun _ _ _ h ha hs => (h.step ha hs).1

/-- When no push comes late and no request is overtaken, the row of a user never goes back to an
older state: a run continues from a row that has the state `n` to one that has that state or a
newer one. -/
theorem entitlement_fresh {platform : Platform} {w₀ w w' : EntitlementWorld} (h₀ : w₀.Initial)
    (h : (entitlementServer platform).Reach (EntitlementWorld.InOrder platform) w₀ w)
    (h' : (entitlementServer platform).Reach (EntitlementWorld.InOrder platform) w w')
    {user n : ℕ} (hn : w.reflects user = some n) :
    ∃ m, n ≤ m ∧ w'.reflects user = some m ∧
      ∀ sub ∈ w'.billing.subscriptions.rows, sub.userId = user →
        w'.Matches platform user m sub := by
  have hpreserves := preserves_consistent platform
  have hconsistent := h.invariant hpreserves h₀.consistent
  have hfollows : w.Follows w' :=
    h'.relation (R := EntitlementWorld.Follows) hpreserves (fun _ => .of_eq rfl)
      (fun _ _ _ => .trans) (fun _ _ _ hs ha hstep => (hs.step ha hstep).2) hconsistent
  obtain ⟨m, hm, hreflects⟩ := hfollows user n hn
  exact ⟨m, hm, hreflects, (h'.invariant hpreserves hconsistent).faithful user m hreflects⟩

/-! ### Samples -/

namespace Sample

/-- The user paid, and the subscription ended. -/
def history : List Payload :=
  [[("is_paid", .bool true), ("status", .string "active")],
    [("is_paid", .bool false), ("status", .string "canceled")]]

def entitlementWorld : EntitlementWorld where
  billing := billing
  central := fun user => if user = 1 then history else []

theorem entitlementWorld_initial : entitlementWorld.Initial where
  single := by simp [entitlementWorld, billing, Table.empty]
  requests := rfl
  reflects := rfl

def firstDelivery : Json := .string "00000000-0000-4000-8000-000000000001"

end Sample

/-- A refresh that comes after a push in order keeps the newer state. -/
theorem sample_entitlement_fresh : ∃ w w' : EntitlementWorld,
    (entitlementServer Sample.platform).Reach (EntitlementWorld.InOrder Sample.platform)
      Sample.entitlementWorld w ∧
    (entitlementServer Sample.platform).Reach (EntitlementWorld.InOrder Sample.platform) w w' ∧
    w.reflects 1 = some 0 ∧ ∃ m, 0 ≤ m ∧ w'.reflects 1 = some m ∧
      ∀ sub ∈ w'.billing.subscriptions.rows, sub.userId = 1 →
        w'.Matches Sample.platform 1 m sub := by
  obtain ⟨w, w', hpush, hfirst, hpull, -⟩ := System.exists_reach_reach_of_guardedRun
    (entitlementServer Sample.platform) (EntitlementWorld.SingleWorker 1) Sample.entitlementWorld
    [.push 1 1 0 Sample.firstDelivery (.string "1"), .advance 1, .advance 1]
    [.pull 1 1, .advance 1, .advance 1]
    (fun w => decide (w.reflects 1 = some 0)) (fun _ => true) (by decide)
  have hidle : ∀ other, other ≠ 1 → Sample.entitlementWorld.requests other = none :=
    fun _ _ => rfl
  have hidle' := hpush.invariant (EntitlementWorld.preserves_singleWorker _ 1) hidle
  have hpush := EntitlementWorld.reach_of_singleWorker hpush hidle
  have hpull := EntitlementWorld.reach_of_singleWorker hpull hidle'
  have hfirst := of_decide_eq_true hfirst
  exact ⟨w, w', hpush, hpull, hfirst,
    entitlement_fresh Sample.entitlementWorld_initial hpush hpull hfirst⟩

/-- A push is delivered late, after a refresh wrote the newer state. -/
theorem late_push_restores : ¬∀ (platform : Platform) (w₀ w w' : EntitlementWorld), w₀.Initial →
    (entitlementServer platform).Reach (fun _ _ => True) w₀ w →
    (entitlementServer platform).Reach (fun _ _ => True) w w' →
    ∀ user n, w.reflects user = some n → ∃ m, n ≤ m ∧ w'.reflects user = some m := by
  intro hclaim
  obtain ⟨w, w', hreach, hnew, hreach', hold⟩ := System.exists_reach_reach_of_guardedRun
    (entitlementServer Sample.platform) (fun _ _ => True) Sample.entitlementWorld
    [.pull 1 1, .advance 1, .advance 1]
    [.push 2 1 0 Sample.firstDelivery (.string "1"), .advance 2, .advance 2]
    (fun w => decide (w.reflects 1 = some 1 ∧
      w.billing.subscriptions.rows.map (·.isPaid) = [false]))
    (fun w => decide (w.reflects 1 = some 0 ∧
      w.billing.subscriptions.rows.map (·.isPaid) = [true])) (by decide)
  obtain ⟨m, hm, hreflects⟩ := hclaim Sample.platform _ w w' Sample.entitlementWorld_initial hreach
    hreach' 1 1 (of_decide_eq_true hnew).1
  rw [(of_decide_eq_true hold).1] at hreflects
  obtain rfl := Option.some.inj hreflects
  exact absurd hm (by decide)

end PushIT
