import PushIT.Sending
import PushIT.Views

/-!
# Opened receipts

`NotificationOpenedReceiptApiView.post`: the device reports that its user opened a notification.
The handler reads the delivery, sets the receipt fields that are null in the instance it read,
and saves those fields; `opened_at` of the instance is what the response reports.  Between two
statements the handlers of other POSTs may run.

The first timestamps are kept as long as each handler that saves finds null, or the timestamp it
writes, in the fields it saves.  Two handlers that read the delivery before either has saved it
both write: the second one moves `opened_at`.

## Main definitions

* `openReceipt`, `saveReceipt`: what the handler decides and what it writes.
* `ReceiptDesk`, `receiptDesk`: any number of such POSTs under way.
* `ReceiptDesk.SavesFirst`: no save meets a receipt saved by another POST.

## Main results

* `ReceiptDesk.Consistent.step`: what one statement preserves.
* `receipts_write_once`: what holds in every run; `receipts_overwritten`: a run that moves a
  receipt.
-/

namespace PushIT

open Relational Transition

/-! ### The handler -/

/-- The response to a receipt. -/
inductive ReceiptResponse
  | error (code detail : String) (httpStatus : ℕ)
  | ok (openedAt : Option Instant)
  deriving DecidableEq, Repr

namespace ReceiptResponse

def pushTokenRequired : ReceiptResponse := .error "validation_error" "push_token is required." 400

def deviceNotFound : ReceiptResponse :=
  .error "device_not_found" "No device found for this push token." 404

def deliveryNotFound : ReceiptResponse :=
  .error "delivery_not_found" "This notification was not delivered to this device." 404

end ReceiptResponse

/-- The receipt fields of a delivery. -/
inductive ReceiptField
  | openedAt
  | deliveredAt
  deriving DecidableEq, Repr

/-- The instance with its null receipt fields set, and `update_fields`. -/
def openReceipt (now : Instant) (delivery : NotificationDelivery) :
    NotificationDelivery × List ReceiptField :=
  let (delivery, updateFields) : NotificationDelivery × List ReceiptField :=
    if delivery.openedAt.isNone then ({ delivery with openedAt := some now }, [.openedAt])
    else (delivery, [])
  if delivery.deliveredAt.isNone then
    ({ delivery with deliveredAt := some now }, updateFields ++ [.deliveredAt])
  else (delivery, updateFields)

/-- `delivery.save(update_fields=update_fields)`, on the stored row. -/
def saveReceipt (delivery : NotificationDelivery) (updateFields : List ReceiptField)
    (row : NotificationDelivery) : NotificationDelivery :=
  { row with
    openedAt := if .openedAt ∈ updateFields then delivery.openedAt else row.openedAt
    deliveredAt := if .deliveredAt ∈ updateFields then delivery.deliveredAt else row.deliveredAt }

theorem pk_saveReceipt (delivery : NotificationDelivery) (updateFields : List ReceiptField)
    (row : NotificationDelivery) : pk (saveReceipt delivery updateFields row) = pk row := rfl

/-- `NotificationDelivery.objects.filter(notification_id=..., device=...).first()`. -/
def deliveryTo (db : Db) (notificationId deviceId : ℕ) : Option NotificationDelivery :=
  (db.deliveries.select fun d =>
    d.notificationId == notificationId && d.deviceId == deviceId).head?

/-- Where a POST stands: the statement it performs next. -/
inductive ReceiptStage
  /-- The query for the caller's device. -/
  | device (user : ℕ) (pushToken : String) (notificationId : ℕ)
  /-- The query for the delivery. -/
  | delivery (deviceId notificationId : ℕ)
  /-- `timezone.now()`, and the null fields of the instance are set. -/
  | deciding (delivery : NotificationDelivery)
  /-- The fields that were set are saved. -/
  | saving (delivery : NotificationDelivery) (updateFields : List ReceiptField)
  /-- The response. -/
  | responding (delivery : NotificationDelivery)

/-- A response that was given, with the delivery it is about. -/
structure ReceiptAnswer where
  delivery : Option ℕ
  response : ReceiptResponse
  deriving DecidableEq, Repr

/-- The POSTs under way and the responses given so far. -/
structure ReceiptDesk where
  clock : Instant
  db : Db
  posts : Pool ReceiptStage := .idle
  answers : List ReceiptAnswer := []

/-- What can happen next. -/
inductive ReceiptAction
  | tick (duration : ℕ)
  | post (rid user : ℕ) (pushToken : Option String) (notificationId : ℕ)
  | advance (rid : ℕ)

namespace ReceiptDesk

/-- The POST goes on. -/
def goesOn (w : ReceiptDesk) (rid : ℕ) (stage : ReceiptStage) : ReceiptDesk :=
  { w with posts := w.posts.set rid (some stage) }

/-- The POST is answered. -/
def answered (w : ReceiptDesk) (rid : ℕ) (delivery : Option ℕ) (response : ReceiptResponse) :
    ReceiptDesk :=
  { w with posts := w.posts.set rid none, answers := ⟨delivery, response⟩ :: w.answers }

/-- The next statement of a POST. -/
def advance (w : ReceiptDesk) (rid : ℕ) : ReceiptStage → ReceiptDesk
  | .device user pushToken notificationId =>
    match ownDevice w.db user pushToken with
    | some d => w.goesOn rid (.delivery d.id notificationId)
    | none => w.answered rid none .deviceNotFound
  | .delivery deviceId notificationId =>
    match deliveryTo w.db notificationId deviceId with
    | some d => w.goesOn rid (.deciding d)
    | none => w.answered rid none .deliveryNotFound
  | .deciding d =>
    match openReceipt w.clock d with
    | (d, []) => w.goesOn rid (.responding d)
    | (d, updateFields) => w.goesOn rid (.saving d updateFields)
  | .saving d updateFields =>
    match w.db.saveDelivery d.id (saveReceipt d updateFields) (pk_saveReceipt d updateFields) with
    | some db => { w with db }.goesOn rid (.responding d)
    -- the row is gone: the exception leaves the view
    | none => { w with posts := w.posts.set rid none }
  | .responding d => w.answered rid (some d.id) (.ok d.openedAt)

/-- One action; `none` when nothing can perform it. -/
def step (w : ReceiptDesk) : ReceiptAction → Option ReceiptDesk
  | .tick duration => some { w with clock := w.clock + duration }
  | .post rid user pushToken notificationId =>
    if (w.posts rid).isNone then
      let pushToken := strip (pushToken.getD "")
      some (if pushToken = "" then w.answered rid none .pushTokenRequired
        else w.goesOn rid (.device user pushToken notificationId))
    else none
  | .advance rid => (w.posts rid).map (w.advance rid)

/-- No POST is under way and none was answered. -/
structure Initial (w : ReceiptDesk) : Prop where
  posts : w.posts = .idle
  answers : w.answers = []

end ReceiptDesk

/-- The handlers of the receipts as a transition system. -/
def receiptDesk : System ReceiptDesk ReceiptAction := ⟨ReceiptDesk.step⟩

/-! ### Receipts -/

namespace NotificationDelivery

/-- The receipts lie in the past, and an opened delivery was delivered, not later. -/
structure ReceiptsOrdered (clock : Instant) (d : NotificationDelivery) : Prop where
  past : ∀ s, d.deliveredAt = some s → s ≤ clock
  opened : ∀ t, d.openedAt = some t → ∃ s, d.deliveredAt = some s ∧ s ≤ t

/-- The receipts that are set stay. -/
structure ReceiptsKept (d d' : NotificationDelivery) : Prop where
  openedAt : ∀ t, d.openedAt = some t → d'.openedAt = some t
  deliveredAt : ∀ t, d.deliveredAt = some t → d'.deliveredAt = some t

variable {clock clock' : Instant} {d d' d'' : NotificationDelivery}

theorem ReceiptsKept.refl (d : NotificationDelivery) : d.ReceiptsKept d :=
  ⟨fun _ h => h, fun _ h => h⟩

theorem ReceiptsKept.trans (h : d.ReceiptsKept d') (h' : d'.ReceiptsKept d'') :
    d.ReceiptsKept d'' :=
  ⟨fun t ht => h'.openedAt t (h.openedAt t ht), fun t ht => h'.deliveredAt t (h.deliveredAt t ht)⟩

theorem ReceiptsOrdered.mono (h : d.ReceiptsOrdered clock) (hle : clock ≤ clock') :
    d.ReceiptsOrdered clock' :=
  ⟨fun s hs => (h.past s hs).trans hle, h.opened⟩

/-- An opened delivery that is ordered has both receipts. -/
theorem ReceiptsOrdered.delivered (h : d.ReceiptsOrdered clock) (hopened : d.openedAt ≠ none) :
    d.deliveredAt ≠ none := by
  obtain ⟨t, ht⟩ := Option.ne_none_iff_exists'.mp hopened
  obtain ⟨s, hs, -⟩ := h.opened t ht
  simp [hs]

end NotificationDelivery

/-- What the handler decides: both receipts are set in the instance, and the fields that are not
saved are as they were read. -/
structure Opens (clock : Instant) (d d' : NotificationDelivery)
    (updateFields : List ReceiptField) : Prop where
  id : d'.id = d.id
  ordered : d'.ReceiptsOrdered clock
  opened : d'.openedAt ≠ none
  openedAt : .openedAt ∉ updateFields → d.openedAt = d'.openedAt
  deliveredAt : .deliveredAt ∉ updateFields → d.deliveredAt = d'.deliveredAt

theorem openReceipt_opens {clock : Instant} {d : NotificationDelivery}
    (h : d.ReceiptsOrdered clock) :
    Opens clock d (openReceipt clock d).1 (openReceipt clock d).2 := by
  cases hopened : d.openedAt with
  | some t =>
    -- nothing is null: an opened delivery was delivered
    obtain ⟨s, hs, hle⟩ := h.opened t hopened
    have hsame : openReceipt clock d = (d, []) := by simp [openReceipt, hopened, hs]
    rw [hsame]
    exact ⟨rfl, h, by simp [hopened], fun _ => rfl, fun _ => rfl⟩
  | none =>
    cases hdelivered : d.deliveredAt with
    | some s =>
      have hset : openReceipt clock d = ({ d with openedAt := some clock }, [.openedAt]) := by
        simp [openReceipt, hopened, hdelivered]
      rw [hset]
      refine ⟨rfl, ⟨h.past, ?_⟩, by simp, by simp, fun _ => rfl⟩
      rintro t ⟨⟩
      exact ⟨s, hdelivered, h.past s hdelivered⟩
    | none =>
      have hset : openReceipt clock d =
          ({ d with openedAt := some clock, deliveredAt := some clock },
            [.openedAt, .deliveredAt]) := by
        simp [openReceipt, hopened, hdelivered]
      rw [hset]
      refine ⟨rfl, ⟨?_, ?_⟩, by simp, by simp, by simp⟩
      · rintro s ⟨⟩
        exact le_rfl
      · rintro t ⟨⟩
        exact ⟨clock, rfl, le_rfl⟩

/-- A POST that saves finds null, or what it writes, in the fields it saves: no other POST has
saved another receipt for the delivery since it read the row. -/
def ReceiptStage.SavesFirst (db : Db) : ReceiptStage → Prop
  | .saving d updateFields => ∀ row ∈ db.deliveries.get? d.id,
      (.openedAt ∈ updateFields → row.openedAt = none ∨ row.openedAt = d.openedAt) ∧
      (.deliveredAt ∈ updateFields → row.deliveredAt = none ∨ row.deliveredAt = d.deliveredAt)
  | _ => True

instance (db : Db) (stage : ReceiptStage) : Decidable (stage.SavesFirst db) := by
  cases stage with
  | saving d updateFields =>
    unfold ReceiptStage.SavesFirst
    infer_instance
  | _ => exact instDecidableTrue

namespace ReceiptDesk

variable {w w' : ReceiptDesk} {rid : ℕ}

/-- A POST agrees with the row of its delivery. -/
def Follows (clock : Instant) (db : Db) : ReceiptStage → Prop
  | .device _ _ _ | .delivery _ _ => True
  | .deciding d => d.ReceiptsOrdered clock ∧
      ∃ row, db.deliveries.get? d.id = some row ∧ d.ReceiptsKept row
  | .saving d updateFields => d.ReceiptsOrdered clock ∧ d.openedAt ≠ none ∧
      ∃ row, db.deliveries.get? d.id = some row ∧
        (.openedAt ∉ updateFields → row.openedAt = d.openedAt) ∧
        (.deliveredAt ∉ updateFields → row.deliveredAt = d.deliveredAt)
  | .responding d => d.openedAt ≠ none ∧
      ∃ row, db.deliveries.get? d.id = some row ∧ row.openedAt = d.openedAt

/-- The receipts are ordered, the POSTs agree with the rows, and so do the answers. -/
structure Consistent (w : ReceiptDesk) : Prop where
  ordered : ∀ d ∈ w.db.deliveries.rows, d.ReceiptsOrdered w.clock
  posts : ∀ rid stage, w.posts rid = some stage → Follows w.clock w.db stage
  answers : ∀ δ t, ⟨some δ, .ok t⟩ ∈ w.answers →
    t ≠ none ∧ ∃ row, w.db.deliveries.get? δ = some row ∧ row.openedAt = t

/-- The rows stay, with their receipts. -/
def RowsKept (db db' : Db) : Prop :=
  ∀ δ row, db.deliveries.get? δ = some row →
    ∃ row', db'.deliveries.get? δ = some row' ∧ row.ReceiptsKept row'

theorem RowsKept.refl (db : Db) : RowsKept db db := fun _ row h => ⟨row, h, .refl row⟩

theorem RowsKept.trans {a b c : Db} (h : RowsKept a b) (h' : RowsKept b c) : RowsKept a c := by
  intro δ row hrow
  obtain ⟨row', hrow', hkept⟩ := h δ row hrow
  obtain ⟨row'', hrow'', hkept'⟩ := h' δ row' hrow'
  exact ⟨row'', hrow'', hkept.trans hkept'⟩

/-- A receipt that is set in a row that stays is the same afterwards. -/
private theorem eq_of_kept {a b : Option Instant} {x : Option Instant} (hx : x ≠ none)
    (ha : a = x) (h : ∀ t, a = some t → b = some t) : b = x := by
  obtain ⟨t, rfl⟩ := Option.ne_none_iff_exists'.mp hx
  exact h t ha

theorem Follows.mono {clock clock' : Instant} {db db' : Db} {stage : ReceiptStage}
    (h : Follows clock db stage) (hle : clock ≤ clock') (hkept : RowsKept db db') :
    Follows clock' db' stage := by
  cases stage with
  | device | delivery => trivial
  | deciding d =>
    obtain ⟨hordered, row, hrow, hd⟩ := h
    obtain ⟨row', hrow', hrowkept⟩ := hkept _ row hrow
    exact ⟨hordered.mono hle, row', hrow', hd.trans hrowkept⟩
  | saving d updateFields =>
    obtain ⟨hordered, hopened, row, hrow, ho, hd⟩ := h
    obtain ⟨row', hrow', hrowkept⟩ := hkept _ row hrow
    exact ⟨hordered.mono hle, hopened, row', hrow',
      fun hf => eq_of_kept hopened (ho hf) hrowkept.openedAt,
      fun hf => eq_of_kept (hordered.delivered hopened) (hd hf) hrowkept.deliveredAt⟩
  | responding d =>
    obtain ⟨hopened, row, hrow, ho⟩ := h
    obtain ⟨row', hrow', hrowkept⟩ := hkept _ row hrow
    exact ⟨hopened, row', hrow', eq_of_kept hopened ho hrowkept.openedAt⟩

/-- Every POST that saves in this action saves first. -/
def SavesFirst (w : ReceiptDesk) : ReceiptAction → Prop
  | .advance rid => ∀ stage ∈ w.posts rid, stage.SavesFirst w.db
  | _ => True

instance (w : ReceiptDesk) (a : ReceiptAction) : Decidable (w.SavesFirst a) := by
  cases a with
  | advance rid =>
    unfold SavesFirst
    infer_instance
  | _ => exact instDecidableTrue

/-- A save that comes first leaves the receipts of the instance in the row, and keeps those that
were set. -/
private theorem saveReceipt_eq {d row : NotificationDelivery} {updateFields : List ReceiptField}
    (ho : .openedAt ∉ updateFields → row.openedAt = d.openedAt)
    (hd : .deliveredAt ∉ updateFields → row.deliveredAt = d.deliveredAt)
    (hfirst : .openedAt ∈ updateFields → row.openedAt = none ∨ row.openedAt = d.openedAt)
    (hfirst' : .deliveredAt ∈ updateFields →
      row.deliveredAt = none ∨ row.deliveredAt = d.deliveredAt) :
    (saveReceipt d updateFields row).openedAt = d.openedAt ∧
      (saveReceipt d updateFields row).deliveredAt = d.deliveredAt ∧
      row.ReceiptsKept (saveReceipt d updateFields row) := by
  have hopenedAt : (saveReceipt d updateFields row).openedAt = d.openedAt := by
    by_cases hf : .openedAt ∈ updateFields <;> simp [saveReceipt, hf, ho]
  have hdeliveredAt : (saveReceipt d updateFields row).deliveredAt = d.deliveredAt := by
    by_cases hf : .deliveredAt ∈ updateFields <;> simp [saveReceipt, hf, hd]
  refine ⟨hopenedAt, hdeliveredAt, fun t ht => ?_, fun t ht => ?_⟩
  · rw [hopenedAt]
    by_cases hf : .openedAt ∈ updateFields
    · rw [← (hfirst hf).resolve_left (by simp [ht]), ht]
    · rw [← ho hf, ht]
  · rw [hdeliveredAt]
    by_cases hf : .deliveredAt ∈ updateFields
    · rw [← (hfirst' hf).resolve_left (by simp [ht]), ht]
    · rw [← hd hf, ht]

theorem RowsKept.withDelivery {db : Db} {δ : ℕ}
    {f : NotificationDelivery → NotificationDelivery} {hf : ∀ d, pk (f d) = pk d}
    {row : NotificationDelivery} (hrow : db.deliveries.get? δ = some row)
    (hkept : row.ReceiptsKept (f row)) : RowsKept db (Pass.withDelivery db δ f hf) := by
  intro δ' r hr
  simp only [Pass.withDelivery]
  by_cases hδ : δ' = δ
  · subst hδ
    obtain rfl := Option.some.inj (hrow.symm.trans hr)
    exact ⟨f row, by rw [Table.get?_modify_self, hrow]; rfl, hkept⟩
  · exact ⟨r, by rw [Table.get?_modify_of_ne _ _ _ hδ, hr], .refl r⟩

/-- What the handler has decided to save agrees with the row. -/
theorem follows_of_opens {clock : Instant} {db : Db} {d d' row : NotificationDelivery}
    {updateFields : List ReceiptField} (h : Opens clock d d' updateFields)
    (hrow : db.deliveries.get? d.id = some row) (hkept : d.ReceiptsKept row) :
    Follows clock db (.saving d' updateFields) :=
  ⟨h.ordered, h.opened, row, by rw [h.id, hrow],
    fun hf => eq_of_kept h.opened (h.openedAt hf) hkept.openedAt,
    fun hf => eq_of_kept (h.ordered.delivered h.opened) (h.deliveredAt hf) hkept.deliveredAt⟩

/-- With nothing to save the row has the `opened_at` of the instance. -/
theorem Follows.responding {clock : Instant} {db : Db} {d : NotificationDelivery}
    (h : Follows clock db (.saving d [])) : Follows clock db (.responding d) := by
  obtain ⟨-, hopened, row, hrow, ho, -⟩ := h
  exact ⟨hopened, row, hrow, ho List.not_mem_nil⟩

/-- A POST goes on without writing. -/
theorem Consistent.goesOn (hw : w.Consistent) (rid : ℕ) {stage : ReceiptStage}
    (hstage : Follows w.clock w.db stage) : (w.goesOn rid stage).Consistent := by
  refine ⟨hw.ordered, Pool.forall_set hw.posts ?_, hw.answers⟩
  rintro x ⟨⟩
  exact hstage

/-- A POST is answered. -/
theorem Consistent.answered (hw : w.Consistent) (rid : ℕ) {delivery : Option ℕ}
    {response : ReceiptResponse}
    (hanswer : ∀ δ t, delivery = some δ → response = .ok t →
      t ≠ none ∧ ∃ row, w.db.deliveries.get? δ = some row ∧ row.openedAt = t) :
    (w.answered rid delivery response).Consistent := by
  refine ⟨hw.ordered, Pool.forall_set hw.posts (by simp), fun δ t hmem => ?_⟩
  rcases List.mem_cons.mp hmem with heq | hmem
  · obtain ⟨hdelivery, hresponse⟩ := ReceiptAnswer.mk.inj heq
    exact hanswer δ t hdelivery.symm hresponse.symm
  · exact hw.answers δ t hmem

/-- A POST saves first. -/
theorem Consistent.saves (hw : w.Consistent) (rid : ℕ) {d : NotificationDelivery}
    {updateFields : List ReceiptField} (hfollows : Follows w.clock w.db (.saving d updateFields))
    (hfirst : ReceiptStage.SavesFirst w.db (.saving d updateFields)) :
    (w.advance rid (.saving d updateFields)).Consistent ∧
      RowsKept w.db (w.advance rid (.saving d updateFields)).db := by
  obtain ⟨hordered, hopened, row, hrow, ho, hd⟩ := hfollows
  obtain ⟨hfirst, hfirst'⟩ := hfirst row hrow
  obtain ⟨hopenedAt, hdeliveredAt, hkept⟩ := saveReceipt_eq ho hd hfirst hfirst'
  have hsave : w.db.saveDelivery d.id (saveReceipt d updateFields)
      (pk_saveReceipt d updateFields) = some (Pass.withDelivery w.db d.id
        (saveReceipt d updateFields) (pk_saveReceipt d updateFields)) := by
    simp [Db.saveDelivery, Pass.withDelivery, hrow]
  have hrows : RowsKept w.db (Pass.withDelivery w.db d.id (saveReceipt d updateFields)
      (pk_saveReceipt d updateFields)) := .withDelivery hrow hkept
  have hrow' := Table.get?_modify_self w.db.deliveries d.id (saveReceipt d updateFields)
    (pk_saveReceipt d updateFields)
  rw [hrow] at hrow'
  simp only [advance, hsave]
  refine ⟨⟨?_, ?_, ?_⟩, hrows⟩
  · intro r hr
    change r ∈ (w.db.deliveries.modify d.id (saveReceipt d updateFields)
      (pk_saveReceipt d updateFields)).rows at hr
    obtain ⟨s, hs, rfl⟩ := Table.mem_modify.mp hr
    split
    · next hid =>
      have hsrow : some s = some row := (Table.get?_pk hs).symm.trans (hid ▸ hrow)
      obtain rfl := Option.some.inj hsrow
      exact ⟨fun t ht => hordered.past t (hdeliveredAt ▸ ht),
        fun t ht => hdeliveredAt ▸ hordered.opened t (hopenedAt ▸ ht)⟩
    · exact hw.ordered s hs
  · refine Pool.forall_set (fun j x hx => (hw.posts j x hx).mono le_rfl hrows) ?_
    rintro x ⟨⟩
    exact ⟨hopened, _, hrow', hopenedAt⟩
  · intro δ t hmem
    obtain ⟨ht, r, hr, hrt⟩ := hw.answers δ t hmem
    obtain ⟨r', hr', hrkept⟩ := hrows δ r hr
    exact ⟨ht, r', hr', eq_of_kept ht hrt hrkept.openedAt⟩

/-- One statement keeps the receipts and the agreement, where it saves first. -/
theorem Consistent.step (hw : w.Consistent) {a : ReceiptAction} (hok : w.SavesFirst a)
    (h : w.step a = some w') : w'.Consistent ∧ RowsKept w.db w'.db := by
  cases a with
  | tick duration =>
    obtain rfl := Option.some.inj h
    have hle : w.clock ≤ w.clock + duration := by
      unfold Instant
      omega
    exact ⟨⟨fun d hd => (hw.ordered d hd).mono hle,
      fun rid stage hstage => (hw.posts rid stage hstage).mono hle (.refl _), hw.answers⟩, .refl _⟩
  | post rid user pushToken notificationId =>
    simp only [ReceiptDesk.step] at h
    split at h
    · obtain rfl := Option.some.inj h
      split
      · exact ⟨hw.answered rid (by simp), .refl _⟩
      · exact ⟨hw.goesOn rid trivial, .refl _⟩
    · simp at h
  | advance rid =>
    obtain ⟨stage, hstage, rfl⟩ := Option.map_eq_some_iff.mp h
    have hfollows := hw.posts rid stage hstage
    cases stage with
    | device user pushToken notificationId =>
      simp only [ReceiptDesk.advance]
      split
      · exact ⟨hw.goesOn rid trivial, .refl _⟩
      · exact ⟨hw.answered rid (by simp), .refl _⟩
    | delivery deviceId notificationId =>
      simp only [ReceiptDesk.advance]
      split
      · next d hd =>
        have hmem : d ∈ w.db.deliveries.rows :=
          (Table.mem_select.mp (List.mem_of_mem_head? hd)).1
        exact ⟨hw.goesOn rid ⟨hw.ordered d hmem, d, Table.get?_pk hmem, .refl d⟩, .refl _⟩
      · exact ⟨hw.answered rid (by simp), .refl _⟩
    | deciding d =>
      obtain ⟨hordered, row, hrow, hkept⟩ := hfollows
      have hdecided := follows_of_opens (openReceipt_opens hordered) hrow hkept
      simp only [ReceiptDesk.advance]
      split
      · next d' heq =>
        rw [heq] at hdecided
        exact ⟨hw.goesOn rid hdecided.responding, .refl _⟩
      · next d' updateFields _ heq =>
        rw [heq] at hdecided
        exact ⟨hw.goesOn rid hdecided, .refl _⟩
    | saving d updateFields => exact hw.saves rid hfollows (hok _ hstage)
    | responding d =>
      refine ⟨hw.answered rid ?_, .refl _⟩
      rintro δ t ⟨⟩ ⟨⟩
      exact hfollows

/-- The receipts that are set stay as they are. -/
def Keeps (w w' : ReceiptDesk) : Prop :=
  ∀ d ∈ w.db.deliveries.rows, ∃ d' ∈ w'.db.deliveries.rows, d'.id = d.id ∧ d.ReceiptsKept d'

/-- An opened delivery was delivered, not later, and every response reports the stored
`opened_at`. -/
structure Truthful (w : ReceiptDesk) : Prop where
  opened : ∀ d ∈ w.db.deliveries.rows, ∀ t, d.openedAt = some t →
    ∃ s, d.deliveredAt = some s ∧ s ≤ t
  reported : ∀ δ t, ⟨some δ, .ok t⟩ ∈ w.answers →
    t ≠ none ∧ ∃ d ∈ w.db.deliveries.rows, d.id = δ ∧ d.openedAt = t

theorem Consistent.truthful (hw : w.Consistent) : w.Truthful where
  opened := fun d hd => (hw.ordered d hd).opened
  reported := by
    intro δ t hmem
    obtain ⟨ht, row, hrow, hopened⟩ := hw.answers δ t hmem
    obtain ⟨hmem', hid⟩ := Table.get?_eq_some.mp hrow
    exact ⟨ht, row, hmem', hid, hopened⟩

theorem Initial.consistent (hw : w.Initial)
    (hordered : ∀ d ∈ w.db.deliveries.rows, d.ReceiptsOrdered w.clock) : w.Consistent :=
  ⟨hordered, by simp [hw.posts], by simp [hw.answers]⟩

theorem RowsKept.keeps (h : RowsKept w.db w'.db) : w.Keeps w' := by
  intro d hd
  obtain ⟨d', hd', hkept⟩ := h d.id d (Table.get?_pk hd)
  obtain ⟨hmem, hid⟩ := Table.get?_eq_some.mp hd'
  exact ⟨d', hmem, hid, hkept⟩

end ReceiptDesk

namespace Sample

/-- The delivery of the sample was sent, and its device has reported nothing yet. -/
def receiptDesk : ReceiptDesk where
  clock := 0
  db := { db with deliveries := single { delivery with status := .sent, sentAt := some 0 } }

/-- The statements of a POST for the sample's notification, up to its decision. -/
def postReceipt (rid : ℕ) : List ReceiptAction :=
  .post rid 2 (some "aaaaaaaaaaaaaaaaaaaa") 1 :: List.replicate 3 (.advance rid)

theorem receiptDesk_initial : receiptDesk.Initial := ⟨rfl, rfl⟩

theorem receiptDesk_ordered :
    ∀ d ∈ receiptDesk.db.deliveries.rows, d.ReceiptsOrdered receiptDesk.clock := by
  intro d hd
  obtain rfl := List.mem_singleton.mp hd
  exact ⟨by simp [delivery], by simp [delivery]⟩

end Sample

end PushIT
