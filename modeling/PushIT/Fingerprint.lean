import PushIT.Creation
import PushIT.Library.JsonText

/-!
# App-token payloads and their fingerprint

`NotificationCreateWithAppTokenSerializer` validates the body of a create or send request of the
app-token API, expanding a template into title and message, and `compute_request_fingerprint`
hashes the validated data.  The hash function and the treatment of dates by the two libraries,
parsing and JSON encoding, are parameters.

## Main definitions

* `CreatePayload.validate`: the serializer.
* `computeRequestFingerprint`: the fingerprint of validated data.
* `ValidatedData.creation`: the arguments of the creation.

## Main results

* `fingerprint_identifies`: fingerprints tell creations apart exactly where no request writes
  `scheduled_for` as null where the other omits it, and no two dates are encoded alike.
-/

namespace PushIT

open Relational JsonText

/-! ### Templates -/

structure NotificationTemplate where
  id : ℕ
  applicationId : ℕ
  name : String := ""
  titleTemplate : String
  messageTemplate : String
  deriving DecidableEq, Repr

instance : Keyed NotificationTemplate := ⟨NotificationTemplate.id⟩

@[simp] theorem pk_template (t : NotificationTemplate) : pk t = t.id := rfl

/-- `str.replace` with a pattern that is not empty; the first argument counts the characters of a
match still to skip. -/
def replaceFrom (old new : List Char) : ℕ → List Char → List Char
  | _, [] => []
  | skip + 1, _ :: cs => replaceFrom old new skip cs
  | 0, c :: cs =>
    if old.isPrefixOf (c :: cs) then new ++ replaceFrom old new (old.length - 1) cs
    else c :: replaceFrom old new 0 cs

/-- One round of the loop of `NotificationTemplate.render`. -/
def replaceVariable (text : List Char) (v : String × String) : List Char :=
  replaceFrom ("\x7b\x7b".toList ++ v.1.toList ++ "\x7d\x7d".toList) v.2.toList 0 text

/-- `NotificationTemplate.render`. -/
def NotificationTemplate.render (t : NotificationTemplate) (variables_ : List (String × String)) :
    String × String :=
  (String.ofList (variables_.foldl replaceVariable t.titleTemplate.toList),
    String.ofList (variables_.foldl replaceVariable t.messageTemplate.toList))

/-! ### Dates -/

/-- Two instants have the same text in JSON: the text stops at the milliseconds, and shows none
on a whole second. -/
def SameText (a b : Instant) : Prop :=
  a / 1000 = b / 1000 ∧ (a % 1000000 = 0 ↔ b % 1000000 = 0)

instance (a b : Instant) : Decidable (SameText a b) := instDecidableAnd

/-- The treatment of dates by the libraries, in the current time zone: `toInternalValue` of
`DateTimeField`, and the text `DjangoJSONEncoder` writes. -/
structure DateTimes where
  toInternalValue : String → Option Instant
  encode : Instant → String
  encode_eq_iff : ∀ {s s' a b}, toInternalValue s = some a → toInternalValue s' = some b →
    (encode a = encode b ↔ SameText a b)

/-! ### The serializer -/

/-- The body of a request: the text of each field that was sent.  A date sent as null is
`some none`. -/
structure CreatePayload where
  title : Option String := none
  message : Option String := none
  templateId : Option ℤ := none
  variables_ : Option (List (String × String)) := none
  scheduledFor : Option (Option String) := none
  deriving DecidableEq, Repr

/-- An error of a field: one of the library, by its code, or one of the serializer. -/
inductive FieldError
  | library (code : String)
  | detail (text : String)
  deriving DecidableEq, Repr

/-- Errors by field. -/
abbrev ValidationErrors := List (String × List FieldError)

/-- `run_validation` of a `CharField` that trims and may not be blank. -/
def charField (maxLength : Option ℕ) (value : String) : Except (List FieldError) String :=
  let trimmed := strip value
  if trimmed = "" then .error [.library "blank"]
  else
    let errors :=
      (if maxLength.any (fun m => decide (m < trimmed.length)) then
        [FieldError.library "max_length"] else []) ++
      (if trimmed.toList.contains (Char.ofNat 0) then
        [.library "null_characters_not_allowed"] else [])
    if errors = [] then .ok trimmed else .error errors

/-- `validate_title`. -/
def validateTitle (value : String) : Except (List FieldError) String :=
  if strip value = "" then .error [.detail "Title cannot be empty."] else .ok value

/-- `validate_message`. -/
def validateMessage (value : String) : Except (List FieldError) String :=
  if strip value = "" then .error [.detail "Message cannot be empty."]
  else if (strip value).length > notificationMessageMaxLength then
    .error [.detail "Message is too long."]
  else .ok value

/-- `DateTimeField(allow_null=True)` and `validate_scheduled_for`. -/
def validateScheduledFor (D : DateTimes) (now : Instant) :
    Option String → Except (List FieldError) (Option Instant)
  | none => .ok none
  | some text =>
    match D.toInternalValue text with
    | none => .error [.library "invalid"]
    | some t =>
      if t ≤ now then .error [.detail "Scheduled date must be in the future."] else .ok (some t)

/-- A field that was not sent is left out. -/
def optionalField {α β : Type} (validate : α → Except (List FieldError) β) :
    Option α → Except (List FieldError) (Option β)
  | none => .ok none
  | some a => (validate a).map some

/-- The errors of a field, under its name. -/
def errorsOf {β : Type} (field : String) : Except (List FieldError) β → ValidationErrors
  | .ok _ => []
  | .error errors => [(field, errors)]

/-- `DictField(child=CharField())`, with the errors of each value under its key. -/
def validateVariables (variables_ : List (String × String)) :
    Except ValidationErrors (List (String × String)) :=
  let errors := variables_.flatMap fun v => errorsOf ("variables." ++ v.1) (charField none v.2)
  if errors = [] then .ok (variables_.map fun v => (v.1, strip v.2)) else .error errors

/-- The fields before `validate`. -/
structure FieldValues where
  title : Option String
  message : Option String
  variables_ : List (String × String)
  scheduledFor : Option (Option Instant)

/-- `to_internal_value`: the fields one by one, with the errors of all of them. -/
def CreatePayload.toInternalValue (D : DateTimes) (now : Instant) (p : CreatePayload) :
    Except ValidationErrors FieldValues :=
  let title := optionalField (fun s =>
    (charField (some notificationTitleMaxLength) s).bind validateTitle) p.title
  let message := optionalField (fun s => (charField none s).bind validateMessage) p.message
  let variables_ := validateVariables (p.variables_.getD [])
  let scheduledFor := optionalField (validateScheduledFor D now) p.scheduledFor
  match title, message, variables_, scheduledFor with
  | .ok title, .ok message, .ok variables_, .ok scheduledFor =>
    .ok { title, message, variables_, scheduledFor }
  | _, _, _, _ =>
    .error (errorsOf "title" title ++ errorsOf "message" message ++
      (match variables_ with | .ok _ => [] | .error errors => errors) ++
      errorsOf "scheduled_for" scheduledFor)

/-- The bounds on a rendered template. -/
def renderedErrors (title message : String) : ValidationErrors :=
  (if strip title = "" then [("title", [.detail "Rendered title cannot be empty."])]
    else if title.length > notificationTitleMaxLength then
      [("title", [.detail "Rendered title exceeds 255 characters."])]
    else []) ++
  (if strip message = "" then [("message", [.detail "Rendered message cannot be empty."])]
    else if (strip message).length > notificationMessageMaxLength then
      [("message", [.detail "Rendered message exceeds 5000 characters."])]
    else [])

/-- The template of an application with an id. -/
def findTemplate (templates : Table NotificationTemplate) (applicationId : ℕ) (templateId : ℤ) :
    Option NotificationTemplate :=
  templates.rows.find? fun t => (t.id : ℤ) == templateId && t.applicationId == applicationId

/-- `_resolve_template`: the title and the message. -/
def resolveTemplate (templates : Table NotificationTemplate) (applicationId : ℕ)
    (templateId : Option ℤ) (f : FieldValues) : Except ValidationErrors (String × String) :=
  match templateId with
  | some id =>
    if f.title.isSome || f.message.isSome then
      .error [("template_id", [.detail "Cannot use template_id together with title/message."])]
    else
      match findTemplate templates applicationId id with
      | none => .error [("template_id", [.detail "Template not found."])]
      | some t =>
        let rendered := t.render f.variables_
        let errors := renderedErrors rendered.1 rendered.2
        if errors = [] then .ok rendered else .error errors
  | none =>
    match f.title, f.message with
    | none, _ =>
      .error [("title", [.detail "This field is required when template_id is not provided."])]
    | some _, none =>
      .error [("message", [.detail "This field is required when template_id is not provided."])]
    | some title, some message => .ok (title, message)

/-- `validated_data`; a date sent as null is `some none`. -/
structure ValidatedData where
  title : String
  message : String
  scheduledFor : Option (Option Instant)
  deriving DecidableEq, Repr

/-- `is_valid` and `validated_data`. -/
def CreatePayload.validate (D : DateTimes) (templates : Table NotificationTemplate)
    (applicationId : ℕ) (now : Instant) (p : CreatePayload) :
    Except ValidationErrors ValidatedData := do
  let f ← p.toInternalValue D now
  let (title, message) ← resolveTemplate templates applicationId p.templateId f
  pure { title, message, scheduledFor := f.scheduledFor }

/-! ### The fingerprint -/

/-- A date as a JSON value. -/
def dateScalar (encode : Instant → String) : Option Instant → Scalar
  | none => .null
  | some t => .text (encode t)

/-- The validated data as the members of a JSON object. -/
def ValidatedData.members (encode : Instant → String) (v : ValidatedData) : List Member :=
  ("title", .text v.title) :: ("message", .text v.message) ::
    (v.scheduledFor.map fun t => ("scheduled_for", dateScalar encode t)).toList

/-- `compute_request_fingerprint`. -/
def computeRequestFingerprint (sha256 : ByteArray → String) (encode : Instant → String)
    (v : ValidatedData) : String :=
  sha256 (dumps (v.members encode)).toUTF8

/-- The arguments of `create_notification_with_optional_idempotency`. -/
structure CreationCall where
  applicationId : ℕ
  title : String
  message : String
  scheduledFor : Option Instant := none
  idempotencyKey : String := ""
  requestFingerprint : String := ""
  deriving DecidableEq, Repr

/-- The call the create endpoint makes. -/
def ValidatedData.creation (sha256 : ByteArray → String) (encode : Instant → String)
    (applicationId : ℕ) (idempotencyKey : String) (v : ValidatedData) : CreationCall where
  applicationId
  title := v.title
  message := v.message
  scheduledFor := v.scheduledFor.join
  idempotencyKey
  requestFingerprint := computeRequestFingerprint sha256 encode v

/-- The calls create equal notifications. -/
def CreationCall.SameNotification (c d : CreationCall) : Prop :=
  c.title = d.title ∧ c.message = d.message ∧ c.scheduledFor = d.scheduledFor

/-! ### What validated data are -/

theorem optionalField_eq_ok {α β : Type} {validate : α → Except (List FieldError) β}
    {a : Option α} {b : Option β} (h : optionalField validate a = .ok b) :
    (a = none ∧ b = none) ∨ ∃ x y, a = some x ∧ b = some y ∧ validate x = .ok y := by
  cases a with
  | none =>
    obtain rfl := Except.ok.inj h
    exact Or.inl ⟨rfl, rfl⟩
  | some x =>
    cases hx : validate x with
    | error errors => simp [optionalField, hx, Except.map] at h
    | ok y =>
      simp only [optionalField, hx, Except.map, Except.ok.injEq] at h
      exact Or.inr ⟨x, y, rfl, h.symm, hx⟩

/-- A date that passes validation was parsed, and lies ahead. -/
theorem validateScheduledFor_eq_ok {D : DateTimes} {now : Instant} {text : Option String}
    {t : Option Instant} (h : validateScheduledFor D now text = .ok t) :
    t = text.bind D.toInternalValue ∧ (∀ s ∈ text, (D.toInternalValue s).isSome) ∧
      ∀ d ∈ t, now < d := by
  cases text with
  | none =>
    obtain rfl := Except.ok.inj h
    simp
  | some s =>
    unfold validateScheduledFor at h
    cases hs : D.toInternalValue s with
    | none => simp [hs] at h
    | some d =>
      simp only [hs] at h
      split at h
      · simp at h
      · next hlt =>
        obtain rfl := Except.ok.inj h
        simp [hs, Int.not_le.mp hlt]

namespace CreatePayload

variable {D : DateTimes} {templates : Table NotificationTemplate} {applicationId : ℕ}
  {now : Instant} {p : CreatePayload}

theorem toInternalValue_eq_ok {f : FieldValues} (h : p.toInternalValue D now = .ok f) :
    optionalField (fun s => (charField (some notificationTitleMaxLength) s).bind validateTitle)
        p.title = .ok f.title ∧
      optionalField (fun s => (charField none s).bind validateMessage) p.message =
        .ok f.message ∧
      validateVariables (p.variables_.getD []) = .ok f.variables_ ∧
      optionalField (validateScheduledFor D now) p.scheduledFor = .ok f.scheduledFor := by
  simp only [toInternalValue] at h
  split at h
  · next htitle hmessage hvariables hscheduled =>
    obtain rfl := Except.ok.inj h
    exact ⟨htitle, hmessage, hvariables, hscheduled⟩
  · simp at h

theorem validate_eq_ok {v : ValidatedData}
    (h : p.validate D templates applicationId now = .ok v) :
    ∃ f, p.toInternalValue D now = .ok f ∧
      resolveTemplate templates applicationId p.templateId f = .ok (v.title, v.message) ∧
      v.scheduledFor = f.scheduledFor := by
  unfold validate at h
  cases hf : p.toInternalValue D now with
  | error errors => simp [hf, bind, Except.bind] at h
  | ok f =>
    cases hr : resolveTemplate templates applicationId p.templateId f with
    | error errors => simp [hf, hr, bind, Except.bind] at h
    | ok r =>
      simp only [hf, hr, bind, Except.bind, pure, Except.pure, Except.ok.injEq] at h
      subst h
      exact ⟨f, rfl, hr, rfl⟩

/-- The date of validated data: absent, null or parsed, as in the body. -/
theorem scheduledFor_of_validate {v : ValidatedData}
    (h : p.validate D templates applicationId now = .ok v) :
    v.scheduledFor = p.scheduledFor.map (fun text => text.bind D.toInternalValue) ∧
      (∀ text ∈ p.scheduledFor, ∀ s ∈ text, (D.toInternalValue s).isSome) ∧
      ∀ d ∈ v.scheduledFor.join, now < d := by
  obtain ⟨f, hf, -, hv⟩ := validate_eq_ok h
  obtain ⟨-, -, -, hscheduled⟩ := toInternalValue_eq_ok hf
  rw [hv]
  rcases optionalField_eq_ok hscheduled with ⟨hp, hnone⟩ | ⟨text, t, hp, hsome, ht⟩
  · simp [hp, hnone]
  · obtain ⟨rfl, hparsed, hahead⟩ := validateScheduledFor_eq_ok ht
    simp only [hp, hsome, Option.map_some, Option.join_some, Option.mem_def, Option.some.injEq,
      forall_eq', true_and]
    exact ⟨hparsed, hahead⟩

end CreatePayload

/-! ### What a fingerprint tells -/

theorem sortKeys_members (encode : Instant → String) (v : ValidatedData) :
    sortKeys (v.members encode) = ("message", .text v.message) ::
      ((v.scheduledFor.map fun t => ("scheduled_for", dateScalar encode t)).toList ++
        [("title", .text v.title)]) := by
  have hmt : ("message" : String) ≤ "title" := by decide
  have htm : ¬("title" : String) ≤ "message" := by decide
  have hms : ("message" : String) ≤ "scheduled_for" := by decide
  have hts : ¬("title" : String) ≤ "scheduled_for" := by decide
  cases h : v.scheduledFor <;>
    simp [sortKeys, ValidatedData.members, h, List.insertionSort, List.orderedInsert, htm, hms, hts]

/-- With an injective hash, a fingerprint tells the texts of the validated data. -/
theorem computeRequestFingerprint_eq_iff {sha256 : ByteArray → String}
    (hsha : Function.Injective sha256) (encode : Instant → String) (v v' : ValidatedData) :
    computeRequestFingerprint sha256 encode v = computeRequestFingerprint sha256 encode v' ↔
      v.title = v'.title ∧ v.message = v'.message ∧
        v.scheduledFor.map (dateScalar encode) = v'.scheduledFor.map (dateScalar encode) := by
  constructor
  · intro h
    have hmembers := dumps_inj (String.toByteArray_inj.mp (hsha h))
    rw [sortKeys_members, sortKeys_members] at hmembers
    cases hs : v.scheduledFor <;> cases hs' : v'.scheduledFor <;> simp_all
  · rintro ⟨htitle, hmessage, hscheduled⟩
    have hmembers : v.members encode = v'.members encode := by
      simp only [ValidatedData.members, htitle, hmessage]
      cases hs : v.scheduledFor <;> cases hs' : v'.scheduledFor <;> simp_all
    rw [computeRequestFingerprint, computeRequestFingerprint, hmembers]

/-- One body writes `scheduled_for` as null and the other omits it. -/
def CreatePayload.NullAgainstAbsent (p q : CreatePayload) : Prop :=
  (p.scheduledFor = some none ∧ q.scheduledFor = none) ∨
    (p.scheduledFor = none ∧ q.scheduledFor = some none)

/-- The bodies carry different dates that have the same text in JSON. -/
def CreatePayload.DatesMerge (D : DateTimes) (p q : CreatePayload) : Prop :=
  ∃ a b, p.scheduledFor.join.bind D.toInternalValue = some a ∧
    q.scheduledFor.join.bind D.toInternalValue = some b ∧ a ≠ b ∧ SameText a b

/-- On the dates of two accepted bodies, the hashed texts and the stored values agree unless
null stands against an absent field, or two dates share a text. -/
private theorem schedule_identifies (D : DateTimes) {p q : CreatePayload}
    (hp : ∀ text ∈ p.scheduledFor, ∀ s ∈ text, (D.toInternalValue s).isSome)
    (hq : ∀ text ∈ q.scheduledFor, ∀ s ∈ text, (D.toInternalValue s).isSome) :
    ((p.scheduledFor.map fun text => dateScalar D.encode (text.bind D.toInternalValue)) =
        (q.scheduledFor.map fun text => dateScalar D.encode (text.bind D.toInternalValue)) ↔
      p.scheduledFor.join.bind D.toInternalValue =
        q.scheduledFor.join.bind D.toInternalValue) ↔
    ¬(p.NullAgainstAbsent q ∨ p.DatesMerge D q) := by
  simp only [CreatePayload.NullAgainstAbsent, CreatePayload.DatesMerge]
  rcases hps : p.scheduledFor with _ | _ | s
  · rcases hqs : q.scheduledFor with _ | _ | s'
    · simp
    · simp
    · obtain ⟨b, hb⟩ := Option.isSome_iff_exists.mp (hq _ hqs s' rfl)
      simp [hb]
  · rcases hqs : q.scheduledFor with _ | _ | s'
    · simp
    · simp
    · obtain ⟨b, hb⟩ := Option.isSome_iff_exists.mp (hq _ hqs s' rfl)
      simp [hb, dateScalar]
  · obtain ⟨a, ha⟩ := Option.isSome_iff_exists.mp (hp _ hps s rfl)
    rcases hqs : q.scheduledFor with _ | _ | s'
    · simp [ha]
    · simp [ha, dateScalar]
    · obtain ⟨b, hb⟩ := Option.isSome_iff_exists.mp (hq _ hqs s' rfl)
      have hself : a = b → SameText a b := by
        rintro rfl
        exact ⟨rfl, Iff.rfl⟩
      simp only [Option.map_some, Option.bind_some, Option.join_some, ha, hb, dateScalar,
        Option.some.injEq, Scalar.text.injEq, D.encode_eq_iff ha hb]
      grind

/-- Two accepted bodies have the same fingerprint exactly when they create equal notifications,
if and only if they do not agree on title and message while `scheduled_for` is null in one and
absent in the other, or holds two dates with the same text. -/
theorem fingerprint_identifies {sha256 : ByteArray → String} (hsha : Function.Injective sha256)
    (D : DateTimes) {applicationId : ℕ} {templates templates' : Table NotificationTemplate}
    {now now' : Instant} {p q : CreatePayload} {v v' : ValidatedData}
    (hp : p.validate D templates applicationId now = .ok v)
    (hq : q.validate D templates' applicationId now' = .ok v') (key key' : String) :
    ((v.creation sha256 D.encode applicationId key).requestFingerprint =
        (v'.creation sha256 D.encode applicationId key').requestFingerprint ↔
      (v.creation sha256 D.encode applicationId key).SameNotification
        (v'.creation sha256 D.encode applicationId key')) ↔
    ¬(v.title = v'.title ∧ v.message = v'.message ∧
      (p.NullAgainstAbsent q ∨ p.DatesMerge D q)) := by
  obtain ⟨hsp, hparsed, -⟩ := CreatePayload.scheduledFor_of_validate hp
  obtain ⟨hsq, hparsed', -⟩ := CreatePayload.scheduledFor_of_validate hq
  have hschedule := schedule_identifies D hparsed hparsed'
  have hjoin : ∀ o : Option (Option String),
      (o.map fun text => text.bind D.toInternalValue).join = o.join.bind D.toInternalValue := by
    rintro (_ | _ | s) <;> rfl
  simp only [ValidatedData.creation, CreationCall.SameNotification,
    computeRequestFingerprint_eq_iff hsha, hsp, hsq, Option.map_map, Function.comp_def, hjoin]
  by_cases htitle : v.title = v'.title
  · by_cases hmessage : v.message = v'.message
    · simpa only [htitle, hmessage, true_and] using hschedule
    · simp [hmessage]
  · simp [htitle]

/-! ### A sample -/

namespace Sample

/-- The first day of 2030, at noon. -/
def noon : Instant := 1893499200000000

/-- The texts of a few dates, in the time zone of Brussels. -/
def dateTimes : DateTimes where
  toInternalValue s :=
    if s = "2030-01-01T12:00:00Z" ∨ s = "2030-01-01T13:00:00+01:00" then some noon
    else if s = "2030-01-01T12:00:00.000100Z" then some (noon + 100)
    else if s = "2030-01-01T12:00:00.000200Z" then some (noon + 200)
    else none
  encode t :=
    if t = noon then "2030-01-01T13:00:00+01:00" else "2030-01-01T13:00:00.000+01:00"
  encode_eq_iff := by
    intro s s' a b ha hb
    have hvalues : ∀ {s : String} {a : Instant},
        (if s = "2030-01-01T12:00:00Z" ∨ s = "2030-01-01T13:00:00+01:00" then some noon
          else if s = "2030-01-01T12:00:00.000100Z" then some (noon + 100)
          else if s = "2030-01-01T12:00:00.000200Z" then some (noon + 200)
          else none) = some a → a = noon ∨ a = noon + 100 ∨ a = noon + 200 := by
      intro s a h
      grind
    rcases hvalues ha with rfl | rfl | rfl <;> rcases hvalues hb with rfl | rfl | rfl <;> decide

/-- A hash function without collisions. -/
def digest (bytes : ByteArray) : String :=
  String.ofList (bytes.data.toList.map Char.ofUInt8)

theorem digest_injective : Function.Injective digest := by
  intro a b h
  have hchars := String.ofList_inj.mp h
  have hinj : Function.Injective Char.ofUInt8 := fun x y hxy =>
    UInt8.toUInt32_inj.mp (congrArg Char.val hxy)
  exact ByteArray.ext (Array.toList_inj.mp (List.map_injective_iff.mpr hinj hchars))

/-- A body with a title and a message. -/
def payload (scheduledFor : Option (Option String)) : CreatePayload :=
  { title := some "Evening offer", message := some " Available from 7pm.", scheduledFor }

/-- What the body validates to, with its date as given. -/
def validated (scheduledFor : Option (Option Instant)) : ValidatedData :=
  ⟨"Evening offer", "Available from 7pm.", scheduledFor⟩

theorem validate_payload (scheduledFor : Option (Option String)) (date : Option (Option Instant))
    (h : optionalField (validateScheduledFor dateTimes 0) scheduledFor = .ok date) :
    (payload scheduledFor).validate dateTimes .empty 1 0 = .ok (validated date) := by
  have htitle : optionalField (fun s =>
      (charField (some notificationTitleMaxLength) s).bind validateTitle)
        (some "Evening offer") = .ok (some "Evening offer") := by decide
  have hmessage : optionalField (fun s => (charField none s).bind validateMessage)
      (some " Available from 7pm.") = .ok (some "Available from 7pm.") := by decide
  have hvariables : validateVariables [] = .ok [] := rfl
  have hvalues : (payload scheduledFor).toInternalValue dateTimes 0 =
      .ok ⟨some "Evening offer", some "Available from 7pm.", [], date⟩ := by
    simp only [CreatePayload.toInternalValue, payload, Option.getD_none, htitle, hmessage,
      hvariables, h]
  simp only [CreatePayload.validate, hvalues]
  rfl

end Sample

/-- Two spellings of one date share their fingerprint. -/
theorem sample_fingerprint_identifies :
    ((Sample.validated (some (some Sample.noon))).creation Sample.digest
        Sample.dateTimes.encode 1 "a").requestFingerprint =
      ((Sample.validated (some (some Sample.noon))).creation Sample.digest
        Sample.dateTimes.encode 1 "b").requestFingerprint ↔
    ((Sample.validated (some (some Sample.noon))).creation Sample.digest
        Sample.dateTimes.encode 1 "a").SameNotification
      ((Sample.validated (some (some Sample.noon))).creation Sample.digest
        Sample.dateTimes.encode 1 "b") := by
  have hp := Sample.validate_payload (some (some "2030-01-01T12:00:00Z")) _ rfl
  have hq := Sample.validate_payload (some (some "2030-01-01T13:00:00+01:00")) _ rfl
  refine (fingerprint_identifies Sample.digest_injective Sample.dateTimes hp hq "a" "b").mpr ?_
  rintro ⟨-, -, hnull | ⟨a, b, ha, hb, hne, -⟩⟩
  · simp [CreatePayload.NullAgainstAbsent, Sample.payload] at hnull
  · exact hne (Option.some.inj (ha.symm.trans hb))

/-- A null date and an absent one create equal notifications under different fingerprints, and
two dates within a millisecond create different ones under the same fingerprint. -/
theorem fingerprint_misidentifies :
    (∃ (p q : CreatePayload) (v v' : ValidatedData),
      p.validate Sample.dateTimes .empty 1 0 = .ok v ∧
      q.validate Sample.dateTimes .empty 1 0 = .ok v' ∧
      (v.creation Sample.digest Sample.dateTimes.encode 1 "a").SameNotification
        (v'.creation Sample.digest Sample.dateTimes.encode 1 "a") ∧
      (v.creation Sample.digest Sample.dateTimes.encode 1 "a").requestFingerprint ≠
        (v'.creation Sample.digest Sample.dateTimes.encode 1 "a").requestFingerprint) ∧
    ∃ (p q : CreatePayload) (v v' : ValidatedData),
      p.validate Sample.dateTimes .empty 1 0 = .ok v ∧
      q.validate Sample.dateTimes .empty 1 0 = .ok v' ∧
      (v.creation Sample.digest Sample.dateTimes.encode 1 "a").requestFingerprint =
        (v'.creation Sample.digest Sample.dateTimes.encode 1 "a").requestFingerprint ∧
      ¬(v.creation Sample.digest Sample.dateTimes.encode 1 "a").SameNotification
        (v'.creation Sample.digest Sample.dateTimes.encode 1 "a") := by
  refine ⟨⟨Sample.payload (some none), Sample.payload none, _, _,
    Sample.validate_payload _ _ rfl, Sample.validate_payload _ _ rfl, ⟨rfl, rfl, rfl⟩, fun h => ?_⟩,
    Sample.payload (some (some "2030-01-01T12:00:00.000100Z")),
    Sample.payload (some (some "2030-01-01T12:00:00.000200Z")), _, _,
    Sample.validate_payload _ _ rfl, Sample.validate_payload _ _ rfl, ?_, fun h => ?_⟩
  · exact absurd ((computeRequestFingerprint_eq_iff Sample.digest_injective _ _ _).mp h).2.2
      (by simp [Sample.validated, dateScalar])
  · exact (computeRequestFingerprint_eq_iff Sample.digest_injective _ _ _).mpr ⟨rfl, rfl, by decide⟩
  · exact absurd h.2.2 (by decide)

end PushIT
