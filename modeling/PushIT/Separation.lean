import PushIT.ApplicationSteps
import PushIT.Fingerprint
import PushIT.Library.Lifecycle

/-!
# Enrolling and sending are separate

`applications/authentication.py` and `applications/models_send_token.py`: a terminal is enrolled
with the enrolment code of an application or with its historical token, a notification is sent
with one of its send tokens.  Two kinds of tokens share the prefix `apt_`, and both are stored as
hashes.  The generators give each kind a length or a prefix of its own, so that no string is of
two kinds; and a credential that is replaced or revoked was drawn once and is never stored again.

## Main definitions

* `getApplicationForEnrolment`, `getApplicationForRawAppToken`: the two look-ups.
* `CredentialStore.step`: the requests of the console, the send tokens and the look-ups.
* `CredentialStore.Genuine`: what is drawn is of its kind and new, and saves write columns.

## Main results

* `credentials_separated`: no string opens both doors, a door opens to stored credentials only,
  and never again to one that was replaced or revoked.
-/

namespace PushIT

open Relational Transition

/-! ### Generated values -/

/-- What `secrets.token_hex(24)` returns, behind its prefix. -/
structure LegacyToken where
  digits : List Char
  length : digits.length = 48
  hex : ∀ c ∈ digits, c.isDigit ∨ ('a' ≤ c ∧ c ≤ 'f')

/-- `Application.generate_raw_app_token`. -/
def LegacyToken.raw (t : LegacyToken) : String := String.ofList ("apt_".toList ++ t.digits)

/-- The letters of a send token. -/
structure SendToken where
  letters : List Char
  length : letters.length = 22
  base62 : ∀ c ∈ letters, c.isAlphanum

/-- `AppSendToken.generate_raw`. -/
def SendToken.raw (t : SendToken) : String := String.ofList ("apt_".toList ++ t.letters)

/-- What is left of `secrets.token_urlsafe(24)` without `-` and `_`. -/
structure EnrolmentCode where
  letters : List Char
  length : letters.length ≤ 12
  base62 : ∀ c ∈ letters, c.isAlphanum

/-- `Application.generate_enrolment_code`. -/
def EnrolmentCode.raw (c : EnrolmentCode) : String := String.ofList ("apk_".toList ++ c.letters)

/-- `raw.startswith(start)`. -/
def startsWith (start raw : String) : Bool := start.toList.isPrefixOf raw.toList

/-- `Application.hash_app_token` and `AppSendToken.hash_raw`. -/
def hashRaw (sha256 : ByteArray → String) (raw : String) : String := sha256 raw.toUTF8

/-- A credential as it is stored. -/
inductive Credential
  | legacyToken (hash : String)
  | enrolmentCode (code : String)
  | sendToken (hash : String)
  deriving DecidableEq, Repr

/-- The credential is the stored form of a generated value of its kind. -/
def Credential.IsGenerated (sha256 : ByteArray → String) : Credential → Prop
  | legacyToken hash => ∃ t : LegacyToken, hash = hashRaw sha256 t.raw
  | enrolmentCode code => ∃ c : EnrolmentCode, code = c.raw
  | sendToken hash => ∃ t : SendToken, hash = hashRaw sha256 t.raw

/-! ### Rows and state -/

structure AppSendToken where
  id : ℕ
  applicationId : ℕ
  name : String
  tokenPrefix : String
  tokenHash : String
  createdAt : Instant
  lastUsedAt : Option Instant := none
  revokedAt : Option Instant := none
  deriving DecidableEq, Repr

instance : Keyed AppSendToken := ⟨AppSendToken.id⟩

@[simp] theorem pk_appSendToken (t : AppSendToken) : pk t = t.id := rfl

/-- The console with the send tokens, and the credentials drawn so far; no action reads these. -/
structure CredentialStore where
  console : Console
  sendTokens : Table AppSendToken := .empty
  drawn : List Credential := []

/-- `MAX_TOKENS_PER_APPLICATION`. -/
def maxTokensPerApplication : ℕ := 10

/-! ### The look-ups -/

/-- An exception of the look-ups, by the status of its answer. -/
structure AuthRefusal where
  httpStatus : ℕ
  detail : String
  code : String
  deriving DecidableEq, Repr

def permissionDenied (detail code : String) : AuthRefusal := ⟨403, detail, code⟩

def authenticationFailed (detail code : String) : AuthRefusal := ⟨401, detail, code⟩

/-- `_legacy_application`. -/
def legacyApplication (sha256 : ByteArray → String) (w : CredentialStore) (raw : String) :
    Except AuthRefusal ConsoleApplication :=
  if !startsWith "apt_" raw then
    .error (permissionDenied "Invalid app token format." "app_token_invalid_format")
  else
    match w.console.applications.select fun a => a.appTokenHash == hashRaw sha256 raw with
    | [application] =>
      if !application.isActive then
        .error (permissionDenied "Inactive application." "app_token_inactive")
      else if application.revokedAt.isSome then
        .error (permissionDenied "App token has been revoked." "app_token_revoked")
      else .ok application
    -- none, or more than one: `DoesNotExist` and `MultipleObjectsReturned`
    | _ => .error (permissionDenied "Invalid app token." "app_token_invalid")

/-- `get_application_for_enrolment`. -/
def getApplicationForEnrolment (sha256 : ByteArray → String) (w : CredentialStore)
    (rawCode : Option String) : Except AuthRefusal ConsoleApplication :=
  match rawCode.filter (· != "") with
  | none => .error (permissionDenied "Missing app token." "app_token_missing")
  | some rawCode =>
    if startsWith "apk_" rawCode then
      match w.console.applications.rows.find? fun a => a.enrolmentCode == rawCode with
      | none => .error (permissionDenied "Invalid app token." "app_token_invalid")
      | some application =>
        if !application.isActive then
          .error (permissionDenied "Inactive application." "app_token_inactive")
        else .ok application
    else legacyApplication sha256 w rawCode

/-- The send token with the hash of a string, and its application. -/
def CredentialStore.findSendToken (sha256 : ByteArray → String) (w : CredentialStore)
    (raw : String) : Option (AppSendToken × ConsoleApplication) :=
  (w.sendTokens.rows.find? fun t => t.tokenHash == hashRaw sha256 raw).bind fun t =>
    (w.console.applications.get? t.applicationId).map fun a => (t, a)

/-- `get_application_for_raw_app_token`. -/
def getApplicationForRawAppToken (sha256 : ByteArray → String) (w : CredentialStore)
    (rawToken : Option String) : Except AuthRefusal ConsoleApplication :=
  match rawToken.filter (· != "") with
  | none => .error (authenticationFailed "Missing app token." "app_token_missing")
  | some rawToken =>
    if !startsWith "apt_" rawToken then
      .error (authenticationFailed "Invalid app token format." "app_token_invalid_format")
    else
      match w.findSendToken sha256 rawToken with
      | some (token, application) =>
        if token.revokedAt.isSome then
          .error (authenticationFailed "Revoked app token." "app_token_revoked")
        else if !application.isActive then
          .error (authenticationFailed "Inactive application." "app_token_inactive")
        else .ok application
      | none =>
        .error (authenticationFailed
          ("This application token no longer authorises sending. " ++
            "Create a send token from the console and use it instead.")
          "app_token_retired")

/-! ### The requests -/

inductive CredentialAction
  /-- A request of the console on applications performs a statement. -/
  | console (a : ConsoleAction)
  /-- `AppSendToken.issue` for an application of the user, with the value that is drawn. -/
  | issue (now : Instant) (owner applicationId : ℕ) (name raw : String)
  /-- `AppSendToken.revoke`. -/
  | revoke (now : Instant) (owner applicationId tokenId : ℕ)
  /-- A string is presented to enrol a terminal. -/
  | enrol (now : Instant) (rawCode : Option String)
  /-- A string is presented to send. -/
  | send (now : Instant) (rawToken : Option String)

/-- The credentials the body of a request draws. -/
def ConsoleRequest.drawn : ConsoleRequest → List Credential
  | .create _ _ _ draw | .regenerateToken _ _ draw => [.legacyToken draw.appTokenHash]
  | .rotateEnrolmentCode _ _ draw => [.enrolmentCode draw.enrolmentCode]
  | _ => []

/-- The credentials a save draws for the blank columns of its instance. -/
def ConsoleProcess.drawn (draw : Draw) : ConsoleProcess → List Credential
  | .saving object _ _ =>
    (if object.appTokenHash = "" then [.legacyToken draw.appTokenHash] else []) ++
      if object.enrolmentCode = "" then [.enrolmentCode draw.enrolmentCode] else []
  | _ => []

namespace CredentialStore

variable (sha256 : ByteArray → String)

/-- The credentials an action draws. -/
def drawnBy (w : CredentialStore) : CredentialAction → List Credential
  | .console (.request _ _ r) => r.drawn
  | .console (.advance rid input) =>
    ((w.console.processes rid).map (·.drawn input.draw)).getD []
  | .issue _ _ _ _ raw => [.sendToken (hashRaw sha256 raw)]
  | _ => []

/-- A send token as `issue` creates it. -/
def newSendToken (now : Instant) (applicationId : ℕ) (name raw : String) (id : ℕ) :
    AppSendToken :=
  { id
    applicationId
    name := String.ofList (name.toList.take 60)
    tokenPrefix := String.ofList (raw.toList.take 12)
    tokenHash := hashRaw sha256 raw
    createdAt := now }

/-- The creation of a send token. -/
def issue (w : CredentialStore) (now : Instant) (owner applicationId : ℕ) (name raw : String) :
    CredentialStore :=
  match w.console.load owner applicationId with
  | none => w
  | some a =>
    if maxTokensPerApplication ≤
        (w.sendTokens.select fun t => t.applicationId == a.id && t.revokedAt.isNone).length then w
    else if strip name = "" then w
    -- the hash is unique
    else if w.sendTokens.rows.any (·.tokenHash == hashRaw sha256 raw) then w
    else
      { w with
        sendTokens := w.sendTokens.insert (newSendToken sha256 now a.id (strip name) raw)
          (fun _ => rfl) }

/-- The revocation of a send token; a revoked one keeps its date. -/
def revoke (w : CredentialStore) (now : Instant) (owner applicationId tokenId : ℕ) :
    CredentialStore :=
  match w.console.load owner applicationId with
  | none => w
  | some a =>
    { w with
      sendTokens := w.sendTokens.update
        (fun t => t.id == tokenId && t.applicationId == a.id && t.revokedAt.isNone)
        (fun t => { t with revokedAt := some now }) (fun _ => rfl) }

/-- The application was used. -/
def useApplication (w : CredentialStore) (now : Instant) (id : ℕ) : CredentialStore :=
  { w with
    console := { w.console with
      applications := w.console.applications.modify id
        (fun a => { a with lastUsedAt := some now }) (fun _ => rfl) } }

/-- `_legacy_application` stores the use of an application every five minutes at most. -/
def enrol (w : CredentialStore) (now : Instant) (rawCode : Option String) : CredentialStore :=
  match getApplicationForEnrolment sha256 w rawCode with
  | .error _ => w
  | .ok a =>
    if (rawCode.any (startsWith "apk_")) || a.lastUsedAt.any (fun t => now - minutes 5 ≤ t) then w
    else w.useApplication now a.id

/-- A send token stores its use with that of its application. -/
def send (w : CredentialStore) (now : Instant) (rawToken : Option String) : CredentialStore :=
  match getApplicationForRawAppToken sha256 w rawToken, rawToken.bind (w.findSendToken sha256) with
  | .ok a, some (token, _) =>
    let w' := { w with
      sendTokens := w.sendTokens.modify token.id (fun t => { t with lastUsedAt := some now })
        (fun _ => rfl) }
    w'.useApplication now a.id
  | _, _ => w

/-- What an action changes. -/
def perform (w : CredentialStore) : CredentialAction → Option CredentialStore
  | .console a => (w.console.step a).map fun console =>
    { w with
      console
      -- the tokens of an application go with it
      sendTokens := w.sendTokens.delete fun t =>
        (console.applications.get? t.applicationId).isNone }
  | .issue now owner applicationId name raw =>
    some (w.issue sha256 now owner applicationId name raw)
  | .revoke now owner applicationId tokenId => some (w.revoke now owner applicationId tokenId)
  | .enrol now rawCode => some (w.enrol sha256 now rawCode)
  | .send now rawToken => some (w.send sha256 now rawToken)

/-- One action; `none` when nothing can perform it. -/
def step (w : CredentialStore) (a : CredentialAction) : Option CredentialStore :=
  (w.perform sha256 a).map fun w' => { w' with drawn := w.drawnBy sha256 a ++ w.drawn }

end CredentialStore

/-- The credentials as a transition system. -/
def credentialServer (sha256 : ByteArray → String) : System CredentialStore CredentialAction :=
  ⟨CredentialStore.step sha256⟩

/-! ### Kinds -/

/-- A string starts with the letters it was made with first. -/
theorem startsWith_ofList (start : String) (rest : List Char) :
    startsWith start (String.ofList (start.toList ++ rest)) = true := by
  rw [startsWith, String.toList_ofList]
  exact List.isPrefixOf_iff_prefix.mpr (List.prefix_append _ _)

theorem LegacyToken.startsWith_raw (t : LegacyToken) : startsWith "apt_" t.raw = true :=
  startsWith_ofList "apt_" t.digits

theorem EnrolmentCode.startsWith_raw (c : EnrolmentCode) : startsWith "apk_" c.raw = true :=
  startsWith_ofList "apk_" c.letters

/-- No string has both prefixes. -/
theorem not_startsWith_both {raw : String} (h : startsWith "apk_" raw = true) :
    startsWith "apt_" raw = false := by
  unfold startsWith at h ⊢
  obtain ⟨rest, hrest⟩ := List.isPrefixOf_iff_prefix.mp h
  rw [← hrest]
  rfl

/-- A historical token is longer than a send token. -/
theorem LegacyToken.raw_ne (t : LegacyToken) (s : SendToken) : t.raw ≠ s.raw := by
  intro h
  have hlist := congrArg List.length (String.ofList_inj.mp h)
  simp only [List.length_append, t.length, s.length] at hlist
  omega

/-- Strings with one hash are equal. -/
theorem hashRaw_injective {sha256 : ByteArray → String} (h : Function.Injective sha256) :
    Function.Injective (hashRaw sha256) :=
  fun _ _ heq => String.toByteArray_inj.mp (h heq)

/-! ### What a process holds -/

/-- The credentials a save with this purpose is about to write. -/
def SavePurpose.holds (object : ConsoleApplication) : SavePurpose → List Credential
  | .create =>
    (if object.appTokenHash = "" then [] else [.legacyToken object.appTokenHash]) ++
      if object.enrolmentCode = "" then [] else [.enrolmentCode object.enrolmentCode]
  | .update .appToken => [.legacyToken object.appTokenHash]
  | .update .enrolment => [.enrolmentCode object.enrolmentCode]
  | _ => []

def ConsoleProcess.holds : ConsoleProcess → List Credential
  | .saving object purpose _ => purpose.holds object
  | _ => []

theorem ConsoleApplication.appTokenHash_fillBlanks (a : ConsoleApplication) (draw : Draw) :
    (a.fillBlanks draw).appTokenHash =
      if a.appTokenHash = "" then draw.appTokenHash else a.appTokenHash := by
  unfold fillBlanks
  dsimp only
  split <;> split <;> split <;> rfl

theorem ConsoleApplication.enrolmentCode_fillBlanks (a : ConsoleApplication) (draw : Draw) :
    (a.fillBlanks draw).enrolmentCode =
      if a.enrolmentCode = "" then draw.enrolmentCode else a.enrolmentCode := by
  by_cases hhash : a.appTokenHash = "" <;> by_cases hcode : a.enrolmentCode = "" <;>
    simp only [fillBlanks, setNewAppToken, hhash, hcode, if_true, if_false] <;> split <;> rfl

/-- The token and the code of a creation were held, or are drawn now. -/
theorem fillBlanks_credentials (object : ConsoleApplication) (draw : Draw) (attempts : ℕ) :
    (Credential.legacyToken (object.fillBlanks draw).appTokenHash ∈
        SavePurpose.holds object .create ∨
      Credential.legacyToken (object.fillBlanks draw).appTokenHash ∈
        (ConsoleProcess.saving object .create attempts).drawn draw) ∧
    (Credential.enrolmentCode (object.fillBlanks draw).enrolmentCode ∈
        SavePurpose.holds object .create ∨
      Credential.enrolmentCode (object.fillBlanks draw).enrolmentCode ∈
        (ConsoleProcess.saving object .create attempts).drawn draw) := by
  rw [object.appTokenHash_fillBlanks, object.enrolmentCode_fillBlanks]
  constructor
  · by_cases hblank : object.appTokenHash = ""
    · exact Or.inr (by simp [ConsoleProcess.drawn, hblank])
    · exact Or.inl (by simp [SavePurpose.holds, hblank])
  · by_cases hblank : object.enrolmentCode = ""
    · exact Or.inr (by simp [ConsoleProcess.drawn, hblank])
    · exact Or.inl (by simp [SavePurpose.holds, hblank])

/-- The credential is stored in a row with this key, and not revoked. -/
def CredentialStore.StoredAt (w : CredentialStore) (id : ℕ) : Credential → Prop
  | .legacyToken hash => ∃ a ∈ w.console.applications.rows, a.id = id ∧ a.appTokenHash = hash ∧
      a.revokedAt = none
  | .enrolmentCode code => ∃ a ∈ w.console.applications.rows, a.id = id ∧ a.enrolmentCode = code
  | .sendToken hash => ∃ t ∈ w.sendTokens.rows, t.id = id ∧ t.tokenHash = hash ∧ t.revokedAt = none

/-- The credential is in a row with this key, revoked or not. -/
def CredentialStore.InRow (w : CredentialStore) (id : ℕ) : Credential → Prop
  | .legacyToken hash => ∃ a ∈ w.console.applications.rows, a.id = id ∧ a.appTokenHash = hash
  | .enrolmentCode code => ∃ a ∈ w.console.applications.rows, a.id = id ∧ a.enrolmentCode = code
  | .sendToken hash => ∃ t ∈ w.sendTokens.rows, t.id = id ∧ t.tokenHash = hash

/-- The stages of the credentials. -/
def CredentialStore.ledger (w : CredentialStore) : Ledger ℕ ℕ Credential where
  drawn := {v | v ∈ w.drawn}
  held rid := {v | ∃ p, w.console.processes rid = some p ∧ v ∈ p.holds}
  stored id := {v | w.StoredAt id v}

/-! ### Assumptions on a run -/

/-- The requests that save columns: all but the PATCH and the regeneration of the address. -/
def ConsoleRequest.SavesColumns : ConsoleRequest → Prop
  | .patch _ _ _ | .regenerateEmail _ _ => False
  | _ => True

def CredentialAction.SavesColumns : CredentialAction → Prop
  | .console (.request _ _ r) => r.SavesColumns
  | _ => True

instance (r : ConsoleRequest) : Decidable r.SavesColumns := by
  rcases r with _ | _ <;> unfold ConsoleRequest.SavesColumns <;> infer_instance

instance (a : CredentialAction) : Decidable a.SavesColumns := by
  rcases a with (_ | _) | _ <;> unfold CredentialAction.SavesColumns <;> infer_instance

/-- A value that is drawn comes from the generator of its kind, and is new. -/
def CredentialStore.Genuine (sha256 : ByteArray → String) (w : CredentialStore)
    (a : CredentialAction) : Prop :=
  a.SavesColumns ∧ ∀ v ∈ w.drawnBy sha256 a, v.IsGenerated sha256 ∧ v ∉ w.drawn

/-- The save of a request on columns; the one of a revocation has a date. -/
def ConsoleProcess.SavesColumns : ConsoleProcess → Prop
  | .saving _ .patch _ | .saving _ (.regenerateEmail _) _ => False
  | .saving object (.update .revokedAt) _ => object.revokedAt ≠ none
  | _ => True

/-- A request begins with a save of columns, which holds what its body drew. -/
theorem Console.begin_savesColumns (s : Console) (rid : ℕ) (now : Instant) {r : ConsoleRequest}
    (hr : r.SavesColumns) :
    (s.begin rid now r).applications = s.applications ∧
      ((s.begin rid now r).processes = s.processes ∨
        ∃ p, (s.begin rid now r).processes = s.processes.set rid (some p) ∧ p.SavesColumns ∧
          ∀ v ∈ p.holds, v ∈ r.drawn) := by
  cases r with
  | create owner name description draw =>
    refine ⟨rfl, Or.inr ⟨_, rfl, trivial, fun v hv => ?_⟩⟩
    simpa [ConsoleProcess.holds, SavePurpose.holds, newApplication,
      ConsoleApplication.setNewAppToken, ConsoleRequest.drawn, draw.appTokenHash_ne] using hv
  | patch => exact hr.elim
  | regenerateEmail => exact hr.elim
  | regenerateToken owner id draw =>
    simp only [begin]
    split
    · exact ⟨rfl, Or.inr ⟨_, rfl, trivial, fun v hv => hv⟩⟩
    · exact ⟨rfl, Or.inl rfl⟩
  | rotateEnrolmentCode owner id draw =>
    simp only [begin]
    split
    · exact ⟨rfl, Or.inr ⟨_, rfl, trivial, fun v hv => hv⟩⟩
    · exact ⟨rfl, Or.inl rfl⟩
  | revoke owner id =>
    simp only [begin]
    split
    · exact ⟨rfl, Or.inr ⟨_, rfl, by simp [ConsoleProcess.SavesColumns,
        ConsoleApplication.revokeToken], fun v hv => hv⟩⟩
    · exact ⟨rfl, Or.inl rfl⟩
  | setActive owner id isActive =>
    simp only [begin]
    split
    · simp only [beginOn]
      split
      · exact ⟨rfl, Or.inl rfl⟩
      · exact ⟨rfl, Or.inr ⟨_, rfl, trivial, fun v hv => hv⟩⟩
    · exact ⟨rfl, Or.inl rfl⟩
  | rotateWebhookSecret | setLogo | destroy =>
    simp only [begin]
    split
    · exact ⟨rfl, Or.inr ⟨_, rfl, trivial, fun v hv => hv⟩⟩
    · exact ⟨rfl, Or.inl rfl⟩

/-! ### The invariant -/

namespace CredentialStore

variable {sha256 : ByteArray → String} {w w' : CredentialStore}

/-- Every credential that is stored or held is genuine, and each is at one stage. -/
structure Consistent (sha256 : ByteArray → String) (w : CredentialStore) : Prop where
  console : w.console.WellFormed
  saves : ∀ rid p, w.console.processes rid = some p → p.SavesColumns
  held : ∀ rid, ∀ v ∈ w.ledger.held rid, v.IsGenerated sha256
  inRow : ∀ id v, w.InRow id v → v.IsGenerated sha256
  ledger : w.ledger.Sound

/-- Nothing is stored, under way or drawn. -/
structure Initial (w : CredentialStore) : Prop where
  applications : w.console.applications.rows = []
  processes : w.console.processes = .idle
  sendTokens : w.sendTokens.rows = []

theorem StoredAt.inRow {id : ℕ} {v : Credential} (h : w.StoredAt id v) : w.InRow id v := by
  cases v with
  | legacyToken =>
    obtain ⟨a, ha, hid, hhash, -⟩ := h
    exact ⟨a, ha, hid, hhash⟩
  | enrolmentCode => exact h
  | sendToken =>
    obtain ⟨t, ht, hid, hhash, -⟩ := h
    exact ⟨t, ht, hid, hhash⟩

theorem Initial.consistent (h : w.Initial) : w.Consistent sha256 := by
  have hheld : ∀ i v, v ∉ w.ledger.held i := by
    rintro i v ⟨p, hp, -⟩
    simp [h.processes] at hp
  have hinRow : ∀ id v, ¬w.InRow id v := by
    intro id v hv
    cases v with
    | legacyToken | enrolmentCode =>
      obtain ⟨a, ha, -⟩ := hv
      simp [h.applications] at ha
    | sendToken =>
      obtain ⟨t, ht, -⟩ := hv
      simp [h.sendTokens] at ht
  have hstored : ∀ k v, v ∉ w.ledger.stored k := fun k v hv => hinRow k v hv.inRow
  exact {
    console := ⟨by simp [h.applications], by simp [h.processes]⟩
    saves := by simp [h.processes]
    held := fun i v hv => absurd hv (hheld i v)
    inRow := fun id v hv => absurd hv (hinRow id v)
    ledger := ⟨fun i v hv => absurd hv (hheld i v), fun k v hv => absurd hv (hstored k v),
      fun i _ v hv => absurd hv (hheld i v), fun i _ v hv => absurd hv (hheld i v),
      fun k _ v hv => absurd hv (hstored k v)⟩ }

/-- The rows and tokens of the second store have their credentials from the first, and no request
of the console did anything. -/
structure Retains (w w' : CredentialStore) : Prop where
  applications : ∀ a ∈ w'.console.applications.rows, ∃ b ∈ w.console.applications.rows,
    b.id = a.id ∧ b.appTokenHash = a.appTokenHash ∧ b.revokedAt = a.revokedAt ∧
      b.enrolmentCode = a.enrolmentCode
  sendTokens : ∀ t ∈ w'.sendTokens.rows, ∃ u ∈ w.sendTokens.rows,
    u.id = t.id ∧ u.tokenHash = t.tokenHash ∧ (t.revokedAt = none → u.revokedAt = none)
  processes : w'.console.processes = w.console.processes
  wellFormed : w.console.WellFormed → w'.console.WellFormed

theorem Retains.inRow (h : w.Retains w') {id : ℕ} {v : Credential} (hv : w'.InRow id v) :
    w.InRow id v := by
  cases v with
  | legacyToken =>
    obtain ⟨a, ha, rfl, rfl⟩ := hv
    obtain ⟨b, hb, hid, hhash, -, -⟩ := h.applications a ha
    exact ⟨b, hb, hid, hhash⟩
  | enrolmentCode =>
    obtain ⟨a, ha, rfl, rfl⟩ := hv
    obtain ⟨b, hb, hid, -, -, hcode⟩ := h.applications a ha
    exact ⟨b, hb, hid, hcode⟩
  | sendToken =>
    obtain ⟨t, ht, rfl, rfl⟩ := hv
    obtain ⟨u, hu, hid, hhash, -⟩ := h.sendTokens t ht
    exact ⟨u, hu, hid, hhash⟩

theorem Retains.storedAt (h : w.Retains w') {id : ℕ} {v : Credential} (hv : w'.StoredAt id v) :
    w.StoredAt id v := by
  cases v with
  | legacyToken =>
    obtain ⟨a, ha, rfl, rfl, hrevoked⟩ := hv
    obtain ⟨b, hb, hid, hhash, hsame, -⟩ := h.applications a ha
    exact ⟨b, hb, hid, hhash, hsame.trans hrevoked⟩
  | enrolmentCode =>
    have hrow := h.inRow (StoredAt.inRow hv)
    exact hrow
  | sendToken =>
    obtain ⟨t, ht, rfl, rfl, hrevoked⟩ := hv
    obtain ⟨u, hu, hid, hhash, hlive⟩ := h.sendTokens t ht
    exact ⟨u, hu, hid, hhash, hlive hrevoked⟩

/-- The step of a request keeps consistency when what it holds and stores is what it held or
drew. -/
theorem Consistent.moves (h : w.Consistent sha256) (rid k : ℕ) (hconsole : w'.console.WellFormed)
    (hdrawn : ∀ v ∈ w.drawn, v ∈ w'.drawn)
    (hothers : ∀ j, j ≠ rid → w'.console.processes j = w.console.processes j)
    (hsaves : ∀ p, w'.console.processes rid = some p → p.SavesColumns)
    (hfresh : ∀ v, w.ledger.Fresh w'.ledger v → v.IsGenerated sha256)
    (hheld : ∀ v ∈ w'.ledger.held rid, v ∈ w.ledger.held rid ∨ w.ledger.Fresh w'.ledger v)
    (hinRow : ∀ id v, w'.InRow id v → w.InRow id v ∨ v ∈ w.ledger.held rid ∨
      w.ledger.Fresh w'.ledger v)
    (hstored : ∀ id v, w'.StoredAt id v → w.StoredAt id v ∨
      id = k ∧ (v ∈ w.ledger.held rid ∨ w.ledger.Fresh w'.ledger v) ∧ v ∉ w'.ledger.held rid) :
    w'.Consistent sha256 ∧ ∃ i k, w.ledger.Moves w'.ledger i k := by
  have hkept : ∀ j, j ≠ rid → w'.ledger.held j = w.ledger.held j := by
    intro j hj
    simp only [CredentialStore.ledger, hothers j hj]
  have hmoves : w.ledger.Moves w'.ledger rid k :=
    ⟨hdrawn, hheld, fun j hj v hv => hkept j hj ▸ hv, hstored⟩
  have hgenuine : ∀ v, v ∈ w.ledger.held rid ∨ w.ledger.Fresh w'.ledger v →
      v.IsGenerated sha256 := fun v hv => hv.elim (h.held rid v) (hfresh v)
  refine ⟨⟨hconsole, fun j p hp => ?_, fun j v hv => ?_, fun id v hv => ?_, h.ledger.moves hmoves⟩,
    rid, k, hmoves⟩
  · by_cases hj : j = rid
    · subst hj
      exact hsaves p hp
    · exact h.saves j p (hothers j hj ▸ hp)
  · by_cases hj : j = rid
    · subst hj
      exact hgenuine v (hheld v hv)
    · exact h.held j v (hkept j hj ▸ hv)
  · exact (hinRow id v hv).elim (h.inRow id v) (hgenuine v)

/-- Nothing but the list of drawn values has new credentials. -/
theorem Consistent.retains (h : w.Consistent sha256) (hr : w.Retains w') (drawn : List Credential)
    (hdrawn : ∀ v ∈ w.drawn, v ∈ drawn)
    (hfresh : ∀ v, v ∉ w.drawn ∧ v ∈ drawn → v.IsGenerated sha256) :
    { w' with drawn }.Consistent sha256 ∧
      ∃ i k, w.ledger.Moves { w' with drawn }.ledger i k := by
  have hheld : { w' with drawn }.ledger.held = w.ledger.held := by
    simp only [CredentialStore.ledger, hr.processes]
  have hretains : w.Retains { w' with drawn } :=
    ⟨hr.applications, hr.sendTokens, hr.processes, hr.wellFormed⟩
  exact h.moves 0 0 (hr.wellFormed h.console) hdrawn (fun j _ => congrFun hr.processes j)
    (fun p hp => h.saves 0 p (hr.processes ▸ hp)) hfresh (fun v hv => Or.inl (hheld ▸ hv))
    (fun id v hv => Or.inl (hretains.inRow hv)) fun id v hv => Or.inl (hretains.storedAt hv)

/-! ### The requests on send tokens and the look-ups -/

theorem Retains.refl (w : CredentialStore) : w.Retains w where
  applications a ha := ⟨a, ha, rfl, rfl, rfl, rfl⟩
  sendTokens t ht := ⟨t, ht, rfl, rfl, id⟩
  processes := rfl
  wellFormed := id

theorem Retains.trans {w'' : CredentialStore} (h : w.Retains w') (h' : w'.Retains w'') :
    w.Retains w'' where
  applications a ha := by
    obtain ⟨b, hb, hid, hhash, hrevoked, hcode⟩ := h'.applications a ha
    obtain ⟨c, hc, hid', hhash', hrevoked', hcode'⟩ := h.applications b hb
    exact ⟨c, hc, hid'.trans hid, hhash'.trans hhash, hrevoked'.trans hrevoked,
      hcode'.trans hcode⟩
  sendTokens t ht := by
    obtain ⟨u, hu, hid, hhash, hlive⟩ := h'.sendTokens t ht
    obtain ⟨x, hx, hid', hhash', hlive'⟩ := h.sendTokens u hu
    exact ⟨x, hx, hid'.trans hid, hhash'.trans hhash, hlive' ∘ hlive⟩
  processes := h'.processes.trans h.processes
  wellFormed := h'.wellFormed ∘ h.wellFormed

theorem retains_useApplication (w : CredentialStore) (now : Instant) (id : ℕ) :
    w.Retains (w.useApplication now id) := by
  have hrows : ∀ a ∈ (w.useApplication now id).console.applications.rows,
      ∃ b ∈ w.console.applications.rows,
        a = if b.id = id then { b with lastUsedAt := some now } else b := by
    intro a ha
    change a ∈ (w.console.applications.modify id (fun a => { a with lastUsedAt := some now })
      fun _ => rfl).rows at ha
    exact Table.mem_modify.mp ha
  refine ⟨fun a ha => ?_, (Retains.refl w).sendTokens, rfl, fun hw => ⟨fun a ha => ?_,
    hw.processes⟩⟩
  · obtain ⟨b, hb, rfl⟩ := hrows a ha
    refine ⟨b, hb, ?_⟩
    split <;> exact ⟨rfl, rfl, rfl, rfl⟩
  · obtain ⟨b, hb, rfl⟩ := hrows a ha
    have hcomplete := hw.rows b hb
    split
    · exact { hcomplete with }
    · exact hcomplete

theorem retains_enrol (sha256 : ByteArray → String) (w : CredentialStore) (now : Instant)
    (rawCode : Option String) : w.Retains (w.enrol sha256 now rawCode) := by
  unfold CredentialStore.enrol
  split
  · exact .refl w
  · split
    · exact .refl w
    · exact retains_useApplication w now _

/-- An update of the send tokens that revives none. -/
theorem retains_updateTokens (w : CredentialStore) (p : AppSendToken → Bool)
    (f : AppSendToken → AppSendToken) (hf : ∀ t, pk (f t) = pk t)
    (hhash : ∀ t, (f t).tokenHash = t.tokenHash)
    (hlive : ∀ t, (f t).revokedAt = none → t.revokedAt = none) :
    w.Retains { w with sendTokens := w.sendTokens.update p f hf } := by
  refine ⟨(Retains.refl w).applications, fun t ht => ?_, rfl, id⟩
  change t ∈ (w.sendTokens.update p f hf).rows at ht
  obtain ⟨u, hu, rfl⟩ := Table.mem_update.mp ht
  refine ⟨u, hu, ?_⟩
  split
  · exact ⟨(hf u).symm, (hhash u).symm, hlive u⟩
  · exact ⟨rfl, rfl, id⟩

theorem retains_revoke (w : CredentialStore) (now : Instant) (owner applicationId tokenId : ℕ) :
    w.Retains (w.revoke now owner applicationId tokenId) := by
  unfold CredentialStore.revoke
  split
  · exact .refl w
  · exact retains_updateTokens w _ _ _ (fun _ => rfl) (fun t hnone => nomatch hnone)

theorem retains_send (sha256 : ByteArray → String) (w : CredentialStore) (now : Instant)
    (rawToken : Option String) : w.Retains (w.send sha256 now rawToken) := by
  unfold CredentialStore.send
  split
  · next a token application hlookup hfind =>
    have htokens := retains_updateTokens w (fun t => pk t == token.id)
      (fun t => { t with lastUsedAt := some now }) (fun _ => rfl) (fun _ => rfl) fun _ => id
    exact htokens.trans (retains_useApplication _ now a.id)
  · exact .refl w

/-- A new send token is the value that was drawn. -/
theorem Consistent.issue (h : w.Consistent sha256) (now : Instant) (owner applicationId : ℕ)
    (name raw : String) (drawn : List Credential) (hdrawn : ∀ v ∈ w.drawn, v ∈ drawn)
    (hfresh : ∀ v, v ∉ w.drawn ∧ v ∈ drawn → v.IsGenerated sha256)
    (hnew : Credential.sendToken (hashRaw sha256 raw) ∉ w.drawn ∧
      Credential.sendToken (hashRaw sha256 raw) ∈ drawn) :
    { w.issue sha256 now owner applicationId name raw with drawn }.Consistent sha256 ∧
      ∃ i k, w.ledger.Moves
        { w.issue sha256 now owner applicationId name raw with drawn }.ledger i k := by
  have hrefused := h.retains (.refl w) drawn hdrawn hfresh
  unfold CredentialStore.issue
  split
  · exact hrefused
  next a ha =>
  split
  · exact hrefused
  split
  · exact hrefused
  split
  · exact hrefused
  have hrows : ∀ t ∈ (w.sendTokens.insert (newSendToken sha256 now a.id (strip name) raw)
      fun _ => rfl).rows, t ∈ w.sendTokens.rows ∨
        t = newSendToken sha256 now a.id (strip name) raw (w.sendTokens.seq + 1) :=
    fun t ht => Table.mem_insert.mp ht
  -- no request holds the value
  have hnotHeld : ∀ i, Credential.sendToken (hashRaw sha256 raw) ∉ w.ledger.held i :=
    fun i hv => hnew.1 (h.ledger.held_drawn i _ hv)
  refine h.moves 0 (w.sendTokens.seq + 1) h.console hdrawn (fun _ _ => rfl) (h.saves 0) hfresh
    (fun v hv => Or.inl hv) (fun id v hv => ?_) fun id v hv => ?_
  · cases v with
    | legacyToken | enrolmentCode => exact Or.inl hv
    | sendToken =>
      obtain ⟨t, ht, rfl, rfl⟩ := hv
      rcases hrows t ht with ht | rfl
      · exact Or.inl ⟨t, ht, rfl, rfl⟩
      · exact Or.inr (Or.inr hnew)
  · cases v with
    | legacyToken | enrolmentCode => exact Or.inl hv
    | sendToken =>
      obtain ⟨t, ht, rfl, rfl, hlive⟩ := hv
      rcases hrows t ht with ht | rfl
      · exact Or.inl ⟨t, ht, rfl, rfl, hlive⟩
      · exact Or.inr ⟨rfl, Or.inr hnew, hnotHeld 0⟩

/-! ### The requests of the console -/

/-- The rows after a save: a credential was there, or is one of the row that was written. -/
theorem inRow_put {a : ConsoleApplication} (h : w'.console.applications =
    w.console.applications.put a) (htokens : ∀ t ∈ w'.sendTokens.rows, t ∈ w.sendTokens.rows)
    {id : ℕ} {v : Credential} (hv : w'.InRow id v) :
    w.InRow id v ∨ id = a.id ∧ (v = .legacyToken a.appTokenHash ∨
      v = .enrolmentCode a.enrolmentCode) := by
  cases v with
  | legacyToken =>
    obtain ⟨b, hb, rfl, rfl⟩ := hv
    rcases Table.mem_put.mp (h ▸ hb) with rfl | ⟨hb, -⟩
    · exact Or.inr ⟨rfl, Or.inl rfl⟩
    · exact Or.inl ⟨b, hb, rfl, rfl⟩
  | enrolmentCode =>
    obtain ⟨b, hb, rfl, rfl⟩ := hv
    rcases Table.mem_put.mp (h ▸ hb) with rfl | ⟨hb, -⟩
    · exact Or.inr ⟨rfl, Or.inr rfl⟩
    · exact Or.inl ⟨b, hb, rfl, rfl⟩
  | sendToken =>
    obtain ⟨t, ht, hid⟩ := hv
    exact Or.inl ⟨t, htokens t ht, hid⟩

theorem storedAt_put {a : ConsoleApplication} (h : w'.console.applications =
    w.console.applications.put a) (htokens : ∀ t ∈ w'.sendTokens.rows, t ∈ w.sendTokens.rows)
    {id : ℕ} {v : Credential} (hv : w'.StoredAt id v) :
    w.StoredAt id v ∨ id = a.id ∧ (v = .legacyToken a.appTokenHash ∧ a.revokedAt = none ∨
      v = .enrolmentCode a.enrolmentCode) := by
  cases v with
  | legacyToken =>
    obtain ⟨b, hb, rfl, rfl, hlive⟩ := hv
    rcases Table.mem_put.mp (h ▸ hb) with rfl | ⟨hb, -⟩
    · exact Or.inr ⟨rfl, Or.inl ⟨rfl, hlive⟩⟩
    · exact Or.inl ⟨b, hb, rfl, rfl, hlive⟩
  | enrolmentCode =>
    obtain ⟨b, hb, rfl, rfl⟩ := hv
    rcases Table.mem_put.mp (h ▸ hb) with rfl | ⟨hb, -⟩
    · exact Or.inr ⟨rfl, Or.inr rfl⟩
    · exact Or.inl ⟨b, hb, rfl, rfl⟩
  | sendToken =>
    obtain ⟨t, ht, hid⟩ := hv
    exact Or.inl ⟨t, htokens t ht, hid⟩

/-- A save writes what the process held, or what the row had. -/
theorem copy_credentials {object : ConsoleApplication} (row : ConsoleApplication)
    {columns : Columns} {attempts : ℕ} (hcolumns : columns ≠ .all)
    (hsaves : (ConsoleProcess.saving object (.update columns) attempts).SavesColumns) :
    (columns.copy object row).id = row.id ∧
    (Credential.legacyToken (columns.copy object row).appTokenHash ∈
        SavePurpose.holds object (.update columns) ∨
      (columns.copy object row).appTokenHash = row.appTokenHash ∧
        ((columns.copy object row).revokedAt = none → row.revokedAt = none)) ∧
    (Credential.enrolmentCode (columns.copy object row).enrolmentCode ∈
        SavePurpose.holds object (.update columns) ∨
      (columns.copy object row).enrolmentCode = row.enrolmentCode) := by
  cases columns with
  | all => exact absurd rfl hcolumns
  | appToken => exact ⟨rfl, Or.inl (by simp [SavePurpose.holds, Columns.copy]), Or.inr rfl⟩
  | enrolment =>
    exact ⟨rfl, Or.inr ⟨rfl, id⟩, Or.inl (by simp [SavePurpose.holds, Columns.copy])⟩
  | revokedAt => exact ⟨rfl, Or.inr ⟨rfl, fun hnone => absurd hnone hsaves⟩, Or.inr rfl⟩
  | none | webhookSecret | inboundEmail | isActive | logo =>
    exact ⟨rfl, Or.inr ⟨rfl, id⟩, Or.inr rfl⟩

/-- Rows that were there, in a step of a request of the console. -/
theorem retained_of_rows (hrows : ∀ a ∈ w'.console.applications.rows,
      a ∈ w.console.applications.rows)
    (htokens : ∀ t ∈ w'.sendTokens.rows, t ∈ w.sendTokens.rows) {id : ℕ} {v : Credential} :
    (w'.InRow id v → w.InRow id v) ∧ (w'.StoredAt id v → w.StoredAt id v) := by
  cases v with
  | legacyToken | enrolmentCode =>
    exact ⟨fun ⟨a, ha, hv⟩ => ⟨a, hrows a ha, hv⟩, fun ⟨a, ha, hv⟩ => ⟨a, hrows a ha, hv⟩⟩
  | sendToken =>
    exact ⟨fun ⟨t, ht, hv⟩ => ⟨t, htokens t ht, hv⟩, fun ⟨t, ht, hv⟩ => ⟨t, htokens t ht, hv⟩⟩

/-- A request of the console begins. -/
theorem Consistent.beginRequest (h : w.Consistent sha256) {rid : ℕ} {now : Instant}
    {r : ConsoleRequest} (hr : r.SavesColumns)
    (hstep : w.console.step (.request rid now r) = some w'.console)
    (htokens : ∀ t ∈ w'.sendTokens.rows, t ∈ w.sendTokens.rows)
    (hdrawn : ∀ v ∈ w.drawn, v ∈ w'.drawn)
    (hfresh : ∀ v, w.ledger.Fresh w'.ledger v → v.IsGenerated sha256)
    (hnew : ∀ v ∈ r.drawn, w.ledger.Fresh w'.ledger v) :
    w'.Consistent sha256 ∧ ∃ i k, w.ledger.Moves w'.ledger i k := by
  have hsteps := Console.step_cases h.console hstep
  simp only [Console.step] at hstep
  split at hstep
  · have hbegin := Option.some.inj hstep
    obtain ⟨happlications, hprocesses⟩ := w.console.begin_savesColumns rid now hr
    rw [hbegin] at happlications hprocesses
    have hrows : ∀ a ∈ w'.console.applications.rows, a ∈ w.console.applications.rows :=
      fun a ha => happlications ▸ ha
    refine h.moves rid 0 (hsteps.wellFormed h.console) hdrawn
      (fun j hj => hsteps.processes_of_ne hj) (fun p hp => ?_) hfresh (fun v hv => ?_)
      (fun id v hv => Or.inl ((retained_of_rows hrows htokens).1 hv))
      fun id v hv => Or.inl ((retained_of_rows hrows htokens).2 hv)
    · rcases hprocesses with hsame | ⟨q, hset, hsaves, -⟩
      · exact h.saves rid p (hsame ▸ hp)
      · rw [hset, Pool.set_self] at hp
        exact Option.some.inj hp ▸ hsaves
    · obtain ⟨p, hp, hv⟩ := hv
      rcases hprocesses with hsame | ⟨q, hset, -, hholds⟩
      · exact Or.inl ⟨p, hsame ▸ hp, hv⟩
      · rw [hset, Pool.set_self] at hp
        obtain rfl := Option.some.inj hp
        exact Or.inr (hnew v (hholds v hv))
  · simp at hstep

/-- A request writes a row whose credentials it held or drew, or the row had. -/
theorem Consistent.writeRow (h : w.Consistent sha256) {rid : ℕ} {a : ConsoleApplication}
    (hconsole : w'.console.WellFormed)
    (happlications : w'.console.applications = w.console.applications.put a)
    (htokens : ∀ t ∈ w'.sendTokens.rows, t ∈ w.sendTokens.rows)
    (hdrawn : ∀ v ∈ w.drawn, v ∈ w'.drawn)
    (hfresh : ∀ v, w.ledger.Fresh w'.ledger v → v.IsGenerated sha256)
    (hothers : ∀ j, j ≠ rid → w'.console.processes j = w.console.processes j)
    (hprocess : ∀ p, w'.console.processes rid = some p → p.SavesColumns ∧ p.holds = [])
    (htoken : (Credential.legacyToken a.appTokenHash ∈ w.ledger.held rid ∨
        w.ledger.Fresh w'.ledger (.legacyToken a.appTokenHash)) ∨
      ∃ b ∈ w.console.applications.rows, b.id = a.id ∧ b.appTokenHash = a.appTokenHash ∧
        (a.revokedAt = none → b.revokedAt = none))
    (hcode : (Credential.enrolmentCode a.enrolmentCode ∈ w.ledger.held rid ∨
        w.ledger.Fresh w'.ledger (.enrolmentCode a.enrolmentCode)) ∨
      ∃ b ∈ w.console.applications.rows, b.id = a.id ∧ b.enrolmentCode = a.enrolmentCode) :
    w'.Consistent sha256 ∧ ∃ i k, w.ledger.Moves w'.ledger i k := by
  have hgiven : ∀ v, v ∉ w'.ledger.held rid := by
    rintro v ⟨p, hp, hv⟩
    rw [(hprocess p hp).2] at hv
    simp at hv
  refine h.moves rid a.id hconsole hdrawn hothers (fun p hp => (hprocess p hp).1) hfresh
    (fun v hv => absurd hv (hgiven v)) (fun id v hv => ?_) fun id v hv => ?_
  · rcases inRow_put happlications htokens hv with hold | ⟨rfl, rfl | rfl⟩
    · exact Or.inl hold
    · rcases htoken with hnew | ⟨b, hb, hid, hhash, -⟩
      · exact Or.inr hnew
      · exact Or.inl ⟨b, hb, hid, hhash⟩
    · rcases hcode with hnew | ⟨b, hb, hid, hcode⟩
      · exact Or.inr hnew
      · exact Or.inl ⟨b, hb, hid, hcode⟩
  · rcases storedAt_put happlications htokens hv with hold | ⟨rfl, ⟨rfl, hlive⟩ | rfl⟩
    · exact Or.inl hold
    · rcases htoken with hnew | ⟨b, hb, hid, hhash, hrevoked⟩
      · exact Or.inr ⟨rfl, hnew, hgiven _⟩
      · exact Or.inl ⟨b, hb, hid, hhash, hrevoked hlive⟩
    · rcases hcode with hnew | ⟨b, hb, hid, hcode⟩
      · exact Or.inr ⟨rfl, hnew, hgiven _⟩
      · exact Or.inl ⟨b, hb, hid, hcode⟩

/-- A request of the console performs its next statement. -/
theorem Consistent.advanceRequest (h : w.Consistent sha256) {rid : ℕ} {input : ConsoleInput}
    (hstep : w.console.step (.advance rid input) = some w'.console)
    (htokens : ∀ t ∈ w'.sendTokens.rows, t ∈ w.sendTokens.rows)
    (hdrawn : ∀ v ∈ w.drawn, v ∈ w'.drawn)
    (hfresh : ∀ v, w.ledger.Fresh w'.ledger v → v.IsGenerated sha256)
    (hnew : ∀ p, w.console.processes rid = some p → ∀ v ∈ p.drawn input.draw,
      w.ledger.Fresh w'.ledger v) :
    w'.Consistent sha256 ∧ ∃ i k, w.ledger.Moves w'.ledger i k := by
  have hsteps := Console.step_cases h.console hstep
  have hwellFormed := hsteps.wellFormed h.console
  have hothers : ∀ j, j ≠ rid → w'.console.processes j = w.console.processes j :=
    fun j hj => hsteps.processes_of_ne hj
  -- the rows stay or are deleted
  have hkeeps : (∀ a ∈ w'.console.applications.rows, a ∈ w.console.applications.rows) →
      (∀ p, w'.console.processes rid = some p → p.SavesColumns) →
      (∀ v ∈ w'.ledger.held rid, v ∈ w.ledger.held rid ∨ w.ledger.Fresh w'.ledger v) →
      w'.Consistent sha256 ∧ ∃ i k, w.ledger.Moves w'.ledger i k := by
    intro hrows hsaves hheld
    exact h.moves rid 0 hwellFormed hdrawn hothers hsaves hfresh hheld
      (fun id v hv => Or.inl ((retained_of_rows hrows htokens).1 hv))
      fun id v hv => Or.inl ((retained_of_rows hrows htokens).2 hv)
  -- a process that ended, or holds nothing
  have hends : (∀ a ∈ w'.console.applications.rows, a ∈ w.console.applications.rows) →
      (∀ p, w'.console.processes rid = some p → p.SavesColumns ∧ p.holds = []) →
      w'.Consistent sha256 ∧ ∃ i k, w.ledger.Moves w'.ledger i k := by
    intro hrows hprocess
    refine hkeeps hrows (fun p hp => (hprocess p hp).1) ?_
    rintro v ⟨p, hp, hv⟩
    rw [(hprocess p hp).2] at hv
    simp at hv
  generalize hc : w'.console = c at hsteps
  cases hsteps with
  | fails _ _ object purpose attempts hp =>
    exact hends (by simp [hc, Console.setProcess]) (by simp [hc, Console.setProcess])
  | retries _ _ object purpose attempts k hp hready =>
    refine hkeeps (by simp [hc, Console.setProcess]) (fun p hp' => ?_) ?_
    · rw [hc] at hp'
      obtain rfl := Option.some.inj ((Pool.set_self _ _ _).symm.trans hp')
      have hsaves := h.saves rid _ hp
      cases purpose with
      | create => trivial
      | patch => exact hsaves
      | regenerateEmail => exact hsaves
      | update columns =>
        rw [(h.console.processes rid _ hp).1.toFilled.fillBlanks]
        cases columns <;> exact hsaves
    · rintro v ⟨p, hp', hv⟩
      rw [hc] at hp'
      obtain rfl := Option.some.inj ((Pool.set_self _ _ _).symm.trans hp')
      cases purpose with
      | create =>
        obtain ⟨htoken, hcode⟩ := fillBlanks_credentials object input.draw attempts
        have hfilled := object.filled_fillBlanks input.draw
        obtain rfl | rfl : v = .legacyToken (object.fillBlanks input.draw).appTokenHash ∨
            v = .enrolmentCode (object.fillBlanks input.draw).enrolmentCode := by
          simpa [ConsoleProcess.holds, SavePurpose.holds, hfilled.appTokenHash,
            hfilled.enrolmentCode] using hv
        · exact htoken.imp (fun hheld => ⟨_, hp, hheld⟩) (hnew _ hp _)
        · exact hcode.imp (fun hheld => ⟨_, hp, hheld⟩) (hnew _ hp _)
      | patch => exact (h.saves rid _ hp).elim
      | regenerateEmail => exact (h.saves rid _ hp).elim
      | update columns =>
        rw [(h.console.processes rid _ hp).1.toFilled.fillBlanks] at hv
        exact Or.inl ⟨_, hp, hv⟩
  | patches _ _ object attempts hp hobject => exact (h.saves rid _ hp).elim
  | updates _ _ object columns attempts row hp hobject hcolumns hget =>
    obtain ⟨hrow, hid⟩ := Table.get?_eq_some.mp hget
    obtain ⟨hcopyid, htoken, hcode⟩ := copy_credentials row hcolumns.1 (h.saves rid _ hp)
    refine h.writeRow hwellFormed (by rw [hc]; rfl) htokens hdrawn hfresh hothers
      (by simp [hc, Console.written]) ?_ ?_
    · refine htoken.imp (fun hheld => Or.inl ⟨_, hp, hheld⟩) fun hsame => ?_
      exact ⟨row, hrow, hcopyid.symm, hsame.1.symm, hsame.2⟩
    · refine hcode.imp (fun hheld => Or.inl ⟨_, hp, hheld⟩) fun hsame => ?_
      exact ⟨row, hrow, hcopyid.symm, hsame.symm⟩
  | creates _ _ object attempts a hp ha hunique =>
    obtain ⟨htoken, hcode⟩ := fillBlanks_credentials object input.draw attempts
    refine h.writeRow hwellFormed (by rw [hc]; rfl) htokens hdrawn hfresh hothers
      (fun p hp' => ?_) (Or.inl ?_) (Or.inl ?_)
    · rw [hc] at hp'
      obtain rfl := Option.some.inj ((Pool.set_self _ _ _).symm.trans hp')
      exact ⟨trivial, rfl⟩
    · rw [ha]
      exact htoken.imp (fun hheld => ⟨_, hp, hheld⟩) (hnew _ hp _)
    · rw [ha]
      exact hcode.imp (fun hheld => ⟨_, hp, hheld⟩) (hnew _ hp _)
  | regenerates _ _ object old attempts hp hobject hold hunique => exact (h.saves rid _ hp).elim
  | provisions _ _ alias_ old hp =>
    refine hends (by simp [hc, Console.advance]) fun p hp' => ?_
    rw [hc] at hp'
    simp only [Console.advance, Pool.set_self] at hp'
    split at hp'
    · obtain rfl := Option.some.inj hp'
      exact ⟨trivial, rfl⟩
    · simp at hp'
  | deprovisions _ _ alias_ hp =>
    exact hends (by simp [hc, Console.advance]) (by simp [hc, Console.advance])
  | destroys _ _ object hp hobject =>
    refine hends (fun a ha => ?_) fun p hp' => ?_
    · rw [hc] at ha
      exact (Table.mem_delete.mp ha).1
    · rw [hc] at hp'
      simp only [Console.advance, Pool.set_self] at hp'
      split at hp'
      · obtain rfl := Option.some.inj hp'
        exact ⟨trivial, rfl⟩
      · simp at hp'

/-- Every action keeps consistency and moves the credentials forward. -/
theorem Consistent.step {a : CredentialAction} (h : w.Consistent sha256)
    (ha : w.Genuine sha256 a) (hs : w.step sha256 a = some w') :
    w'.Consistent sha256 ∧ ∃ i k, w.ledger.Moves w'.ledger i k := by
  obtain ⟨w', hperform, rfl⟩ := Option.map_eq_some_iff.mp hs
  have hdrawn : ∀ v ∈ w.drawn, v ∈ w.drawnBy sha256 a ++ w.drawn :=
    fun v hv => List.mem_append_right _ hv
  have hfresh : ∀ v, v ∉ w.drawn ∧ v ∈ w.drawnBy sha256 a ++ w.drawn → v.IsGenerated sha256 :=
    fun v hv => (ha.2 v ((List.mem_append.mp hv.2).resolve_right hv.1)).1
  have hnew : ∀ v ∈ w.drawnBy sha256 a, v ∉ w.drawn ∧ v ∈ w.drawnBy sha256 a ++ w.drawn :=
    fun v hv => ⟨(ha.2 v hv).2, List.mem_append_left _ hv⟩
  cases a with
  | console a =>
    obtain ⟨console, hstep, rfl⟩ := Option.map_eq_some_iff.mp hperform
    have htokens : ∀ t ∈ (w.sendTokens.delete fun t =>
        (console.applications.get? t.applicationId).isNone).rows, t ∈ w.sendTokens.rows :=
      fun t ht => (Table.mem_delete.mp ht).1
    cases a with
    | request rid now r => exact h.beginRequest ha.1 hstep htokens hdrawn hfresh hnew
    | advance rid input =>
      refine h.advanceRequest hstep htokens hdrawn hfresh fun p hp v hv => hnew v ?_
      simpa only [drawnBy, hp, Option.map_some, Option.getD_some] using hv
  | issue now owner applicationId name raw =>
    obtain rfl := Option.some.inj hperform
    exact h.issue now owner applicationId name raw _ hdrawn hfresh
      (hnew _ (List.mem_singleton_self _))
  | revoke now owner applicationId tokenId =>
    obtain rfl := Option.some.inj hperform
    exact h.retains (retains_revoke w now owner applicationId tokenId) _ hdrawn hfresh
  | enrol now rawCode =>
    obtain rfl := Option.some.inj hperform
    exact h.retains (retains_enrol sha256 w now rawCode) _ hdrawn hfresh
  | send now rawToken =>
    obtain rfl := Option.some.inj hperform
    exact h.retains (retains_send sha256 w now rawToken) _ hdrawn hfresh

end CredentialStore

/-! ### What the look-ups accept -/

/-- The string is a stored credential of the application that enrols, and not revoked. -/
def CredentialStore.Enrols (sha256 : ByteArray → String) (w : CredentialStore) (raw : String)
    (a : ConsoleApplication) : Prop :=
  a ∈ w.console.applications.rows ∧
    ((∃ c : EnrolmentCode, c.raw = raw ∧ a.enrolmentCode = raw) ∨
      a.revokedAt = none ∧ ∃ t : LegacyToken, t.raw = raw ∧ a.appTokenHash = hashRaw sha256 raw)

/-- The string is the send token, which is not revoked. -/
def AppSendToken.Sends (sha256 : ByteArray → String) (raw : String) (t : AppSendToken) : Prop :=
  t.revokedAt = none ∧ ∃ s : SendToken, s.raw = raw ∧ t.tokenHash = hashRaw sha256 raw

theorem filter_ne_blank {raw : Option String} {s : String} (h : raw.filter (· != "") = some s) :
    raw = some s := (Option.filter_eq_some_iff.mp h).1

theorem legacyApplication_eq_ok {sha256 : ByteArray → String} {w : CredentialStore} {raw : String}
    {a : ConsoleApplication} (h : legacyApplication sha256 w raw = .ok a) :
    startsWith "apt_" raw = true ∧ a ∈ w.console.applications.rows ∧
      a.appTokenHash = hashRaw sha256 raw ∧ a.isActive = true ∧ a.revokedAt = none := by
  unfold legacyApplication at h
  split at h
  · simp at h
  next hformat =>
  split at h
  · next application hselect =>
    have hmem : application ∈ w.console.applications.select fun a =>
        a.appTokenHash == hashRaw sha256 raw := hselect ▸ List.mem_singleton_self _
    obtain ⟨hrow, hhash⟩ := Table.mem_select.mp hmem
    split at h
    · simp at h
    next hactive =>
    split at h
    · simp at h
    next hrevoked =>
    obtain rfl := Except.ok.inj h
    exact ⟨by simpa using hformat, hrow, by simpa using hhash, by simpa using hactive,
      by simpa using hrevoked⟩
  · simp at h

theorem getApplicationForEnrolment_eq_ok {sha256 : ByteArray → String} {w : CredentialStore}
    {raw : Option String} {a : ConsoleApplication}
    (h : getApplicationForEnrolment sha256 w raw = .ok a) :
    ∃ s, raw = some s ∧ a ∈ w.console.applications.rows ∧ a.isActive = true ∧
      (startsWith "apk_" s = true ∧ a.enrolmentCode = s ∨
        startsWith "apt_" s = true ∧ a.appTokenHash = hashRaw sha256 s ∧ a.revokedAt = none) := by
  unfold getApplicationForEnrolment at h
  split at h
  · simp at h
  next s hraw =>
  refine ⟨s, filter_ne_blank hraw, ?_⟩
  split at h
  · next hcode =>
    split at h
    · simp at h
    next application hfind =>
    have hsame : application.enrolmentCode = s := by simpa using List.find?_some hfind
    split at h
    · simp at h
    next hactive =>
    obtain rfl := Except.ok.inj h
    exact ⟨List.mem_of_find?_eq_some hfind, by simpa using hactive, Or.inl ⟨hcode, hsame⟩⟩
  · obtain ⟨hformat, hrow, hhash, hactive, hrevoked⟩ := legacyApplication_eq_ok h
    exact ⟨hrow, hactive, Or.inr ⟨hformat, hhash, hrevoked⟩⟩

theorem getApplicationForRawAppToken_eq_ok {sha256 : ByteArray → String} {w : CredentialStore}
    {raw : Option String} {a : ConsoleApplication}
    (h : getApplicationForRawAppToken sha256 w raw = .ok a) :
    ∃ s, raw = some s ∧ startsWith "apt_" s = true ∧ a ∈ w.console.applications.rows ∧
      a.isActive = true ∧ ∃ t ∈ w.sendTokens.rows, t.applicationId = a.id ∧
        t.tokenHash = hashRaw sha256 s ∧ t.revokedAt = none := by
  unfold getApplicationForRawAppToken at h
  split at h
  · simp at h
  next s hraw =>
  split at h
  · simp at h
  next hformat =>
  split at h
  · next token application hfind =>
    obtain ⟨t, ht, hget⟩ := Option.bind_eq_some_iff.mp hfind
    obtain ⟨b, hb, hpair⟩ := Option.map_eq_some_iff.mp hget
    obtain ⟨rfl, rfl⟩ := Prod.mk.inj hpair
    obtain ⟨hrow, hid⟩ := Table.get?_eq_some.mp hb
    split at h
    · simp at h
    next hrevoked =>
    split at h
    · simp at h
    next hactive =>
    obtain rfl := Except.ok.inj h
    exact ⟨s, filter_ne_blank hraw, by simpa using hformat, hrow, by simpa using hactive, t,
      List.mem_of_find?_eq_some ht, hid.symm, by simpa using List.find?_some ht,
      by simpa using hrevoked⟩
  · simp at h

/-! ### Separation -/

/-- No string opens both doors, and a door opens to a stored credential of its kind only. -/
structure CredentialsSeparated (sha256 : ByteArray → String) (w : CredentialStore) : Prop where
  exclusive : ∀ raw a b, getApplicationForEnrolment sha256 w raw = .ok a →
    getApplicationForRawAppToken sha256 w raw ≠ .ok b
  enrols : ∀ raw a, getApplicationForEnrolment sha256 w raw = .ok a →
    ∃ s, raw = some s ∧ a.isActive = true ∧ w.Enrols sha256 s a
  sends : ∀ raw a, getApplicationForRawAppToken sha256 w raw = .ok a →
    ∃ s, raw = some s ∧ a ∈ w.console.applications.rows ∧ a.isActive = true ∧
      ∃ t ∈ w.sendTokens.rows, t.applicationId = a.id ∧ t.Sends sha256 s

/-- A credential of the state `w` that is replaced, revoked or deleted in `w'` opens no door in
`w''`. -/
structure NeverAgain (sha256 : ByteArray → String) (w w' w'' : CredentialStore) : Prop where
  enrols : ∀ raw a, w.Enrols sha256 raw a → (∀ b, b.id = a.id → ¬w'.Enrols sha256 raw b) →
    ∀ c, getApplicationForEnrolment sha256 w'' (some raw) ≠ .ok c
  sends : ∀ raw, ∀ t ∈ w.sendTokens.rows, t.Sends sha256 raw →
    (∀ u ∈ w'.sendTokens.rows, u.id = t.id → ¬u.Sends sha256 raw) →
    ∀ c, getApplicationForRawAppToken sha256 w'' (some raw) ≠ .ok c

namespace CredentialStore

variable {sha256 : ByteArray → String} {w w' w'' : CredentialStore}

theorem Consistent.separated (hsha : Function.Injective sha256) (h : w.Consistent sha256) :
    CredentialsSeparated sha256 w := by
  have htokens : ∀ a ∈ w.console.applications.rows,
      ∃ t : LegacyToken, a.appTokenHash = hashRaw sha256 t.raw :=
    fun a ha => h.inRow a.id (.legacyToken a.appTokenHash) ⟨a, ha, rfl, rfl⟩
  have hcodes : ∀ a ∈ w.console.applications.rows, ∃ c : EnrolmentCode, a.enrolmentCode = c.raw :=
    fun a ha => h.inRow a.id (.enrolmentCode a.enrolmentCode) ⟨a, ha, rfl, rfl⟩
  have hsendTokens : ∀ t ∈ w.sendTokens.rows,
      ∃ s : SendToken, t.tokenHash = hashRaw sha256 s.raw :=
    fun t ht => h.inRow t.id (.sendToken t.tokenHash) ⟨t, ht, rfl, rfl⟩
  have hinj := hashRaw_injective hsha
  refine ⟨fun raw a b henrol hsend => ?_, fun raw a henrol => ?_, fun raw a hsend => ?_⟩
  · obtain ⟨s, rfl, ha, -, hkind⟩ := getApplicationForEnrolment_eq_ok henrol
    obtain ⟨s', hs', hformat, -, -, t, ht, -, hhash, -⟩ := getApplicationForRawAppToken_eq_ok hsend
    obtain rfl := Option.some.inj hs'
    rcases hkind with ⟨hcode, -⟩ | ⟨-, hlegacy, -⟩
    · rw [not_startsWith_both hcode] at hformat
      simp at hformat
    · -- the string would be a token of both kinds
      obtain ⟨token, htoken⟩ := htokens a ha
      obtain ⟨sendToken, hsendToken⟩ := hsendTokens t ht
      have hraw := hinj (hlegacy.symm.trans htoken)
      have hraw' := hinj (hhash.symm.trans hsendToken)
      exact token.raw_ne sendToken (hraw.symm.trans hraw')
  · obtain ⟨s, rfl, ha, hactive, hkind⟩ := getApplicationForEnrolment_eq_ok henrol
    refine ⟨s, rfl, hactive, ha, ?_⟩
    rcases hkind with ⟨-, hcode⟩ | ⟨-, hlegacy, hrevoked⟩
    · obtain ⟨c, hc⟩ := hcodes a ha
      exact Or.inl ⟨c, hc.symm.trans hcode, hcode⟩
    · obtain ⟨token, htoken⟩ := htokens a ha
      exact Or.inr ⟨hrevoked, token, hinj (htoken.symm.trans hlegacy), hlegacy⟩
  · obtain ⟨s, rfl, -, ha, hactive, t, ht, hid, hhash, hrevoked⟩ :=
      getApplicationForRawAppToken_eq_ok hsend
    obtain ⟨sendToken, hsendToken⟩ := hsendTokens t ht
    exact ⟨s, rfl, ha, hactive, t, ht, hid, hrevoked, sendToken,
      hinj (hsendToken.symm.trans hhash), hhash⟩

end CredentialStore

/-- The run keeps the credentials consistent. -/
theorem preserves_credentials (sha256 : ByteArray → String) :
    (credentialServer sha256).Preserves (CredentialStore.Genuine sha256)
      (CredentialStore.Consistent sha256) :=
  fun _ _ _ h ha hs => (h.step ha hs).1

theorem CredentialStore.Consistent.neverAgain {sha256 : ByteArray → String}
    {w w' w'' : CredentialStore} (h : w.Consistent sha256)
    (hto : (credentialServer sha256).Reach (CredentialStore.Genuine sha256) w w')
    (hon : (credentialServer sha256).Reach (CredentialStore.Genuine sha256) w' w'') :
    NeverAgain sha256 w w' w'' := by
  have hnever : ∀ id v, w.StoredAt id v → ¬w'.StoredAt id v → ∀ l, ¬w''.StoredAt l v :=
    fun id v hv hout l => Ledger.not_stored_again CredentialStore.ledger
      (preserves_credentials sha256) (fun _ hs => hs.ledger)
      (fun _ _ _ hs ha hstep => (hs.step ha hstep).2) h hto hon hv hout l
  refine ⟨fun raw a henrols hout c hc => ?_, fun raw t ht hsends hout c hc => ?_⟩
  · obtain ⟨s, hs, hrow, -, hkind⟩ := getApplicationForEnrolment_eq_ok hc
    obtain rfl := Option.some.inj hs
    obtain ⟨ha, ⟨code, rfl, hcode⟩ | ⟨hrevoked, token, rfl, hhash⟩⟩ := henrols
    · refine hnever a.id (.enrolmentCode code.raw) ⟨a, ha, rfl, hcode⟩ ?_ c.id ?_
      · rintro ⟨b, hb, hid, hcode'⟩
        exact hout b hid ⟨hb, Or.inl ⟨code, rfl, hcode'⟩⟩
      · rcases hkind with ⟨-, hsame⟩ | ⟨hformat, -⟩
        · exact ⟨c, hrow, rfl, hsame⟩
        · rw [not_startsWith_both code.startsWith_raw] at hformat
          simp at hformat
    · refine hnever a.id (.legacyToken (hashRaw sha256 token.raw)) ⟨a, ha, rfl, hhash, hrevoked⟩
        ?_ c.id ?_
      · rintro ⟨b, hb, hid, hhash', hrevoked'⟩
        exact hout b hid ⟨hb, Or.inr ⟨hrevoked', token, rfl, hhash'⟩⟩
      · rcases hkind with ⟨hformat, -⟩ | ⟨-, hsame, hlive⟩
        · have hboth := not_startsWith_both hformat
          rw [token.startsWith_raw] at hboth
          simp at hboth
        · exact ⟨c, hrow, rfl, hsame, hlive⟩
  · obtain ⟨hrevoked, token, rfl, hhash⟩ := hsends
    obtain ⟨s, hs, -, -, -, u, hu, -, hsame, hlive⟩ := getApplicationForRawAppToken_eq_ok hc
    obtain rfl := Option.some.inj hs
    refine hnever t.id (.sendToken (hashRaw sha256 token.raw)) ⟨t, ht, rfl, hhash, hrevoked⟩ ?_
      u.id ⟨u, hu, rfl, hsame, hlive⟩
    rintro ⟨b, hb, hid, hhash', hrevoked'⟩
    exact hout b hb hid ⟨hrevoked', token, rfl, hhash'⟩

/-- In every run from an empty installation, whatever is presented: no string enrols and sends,
each look-up succeeds for an active application and a stored credential of its kind only, and a
credential that was replaced or revoked never succeeds again. -/
theorem credentials_separated {sha256 : ByteArray → String} (hsha : Function.Injective sha256)
    {w₀ w w' w'' : CredentialStore} (h₀ : w₀.Initial)
    (h : (credentialServer sha256).Reach (CredentialStore.Genuine sha256) w₀ w)
    (h' : (credentialServer sha256).Reach (CredentialStore.Genuine sha256) w w')
    (h'' : (credentialServer sha256).Reach (CredentialStore.Genuine sha256) w' w'') :
    CredentialsSeparated sha256 w ∧ NeverAgain sha256 w w' w'' := by
  have hconsistent := h.invariant (preserves_credentials sha256) h₀.consistent
  exact ⟨hconsistent.separated hsha, hconsistent.neverAgain h' h''⟩

/-! ### Samples -/

namespace Sample

/-- The historical token that repeats a digit. -/
def legacyToken (digit : Char) (h : digit.isDigit) : LegacyToken where
  digits := List.replicate 48 digit
  length := List.length_replicate
  hex := fun _ hc => Or.inl ((List.eq_of_mem_replicate hc) ▸ h)

/-- The send token that repeats a digit. -/
def sendToken : SendToken where
  letters := List.replicate 22 '5'
  length := List.length_replicate
  base62 := fun _ hc => (List.eq_of_mem_replicate hc) ▸ by decide

/-- The enrolment code that repeats a digit. -/
def enrolmentCode (digit : Char) (h : digit.isAlphanum) : EnrolmentCode where
  letters := List.replicate 12 digit
  length := by simp
  base62 := fun _ hc => (List.eq_of_mem_replicate hc) ▸ h

/-- The first and the second token and code, and the send token, as they are stored. -/
def generated : List Credential :=
  [.legacyToken "apt_111111111111111111111111111111111111111111111111",
    .legacyToken "apt_222222222222222222222222222222222222222222222222",
    .enrolmentCode "apk_111111111111", .enrolmentCode "apk_222222222222",
    .sendToken "apt_5555555555555555555555"]

theorem generated_isGenerated : ∀ v ∈ generated, v.IsGenerated digest := by
  intro v hv
  simp only [generated, List.mem_cons, List.not_mem_nil, or_false] at hv
  rcases hv with rfl | rfl | rfl | rfl | rfl
  · exact ⟨legacyToken '1' (by decide), by decide⟩
  · exact ⟨legacyToken '2' (by decide), by decide⟩
  · exact ⟨enrolmentCode '1' (by decide), by decide⟩
  · exact ⟨enrolmentCode '2' (by decide), by decide⟩
  · exact ⟨sendToken, by decide⟩

/-- What is drawn is one of them, and new. -/
def DrawsGenerated (w : CredentialStore) (a : CredentialAction) : Prop :=
  a.SavesColumns ∧ ∀ v ∈ w.drawnBy digest a, v ∈ generated ∧ v ∉ w.drawn

instance (w : CredentialStore) (a : CredentialAction) : Decidable (DrawsGenerated w a) :=
  inferInstanceAs (Decidable (_ ∧ _))

def firstCredentials : Draw :=
  { Draw.bare with
    appTokenHash := "apt_111111111111111111111111111111111111111111111111"
    enrolmentCode := "apk_111111111111"
    appTokenHash_ne := by decide
    enrolmentCode_ne := by decide }

def secondCredentials : Draw :=
  { Draw.bare with
    appTokenHash := "apt_222222222222222222222222222222222222222222222222"
    enrolmentCode := "apk_222222222222"
    appTokenHash_ne := by decide
    enrolmentCode_ne := by decide }

def emptyStore : CredentialStore where
  console := { applications := .empty }

theorem emptyStore_initial : emptyStore.Initial := ⟨rfl, rfl, rfl⟩

/-- An application is created, and a send token for it. -/
def creations : List CredentialAction :=
  [.console (.request 1 0 (.create 1 "App" "" firstCredentials)),
    .console (.advance 1 { draw := firstCredentials }), .console (.advance 1 {}),
    .issue 1 1 1 "server" "apt_5555555555555555555555"]

/-- The token and the code are replaced, and the send token is revoked. -/
def rotations : List CredentialAction :=
  [.console (.request 1 2 (.regenerateToken 1 1 secondCredentials)),
    .console (.advance 1 {}),
    .console (.request 1 3 (.rotateEnrolmentCode 1 1 secondCredentials)),
    .console (.advance 1 {}), .revoke 4 1 1 1]

end Sample

/-- A code enrols until it is rotated, a token sends until it is revoked. -/
theorem sample_credentials_separated : ∃ w w' : CredentialStore,
    (getApplicationForEnrolment Sample.digest w (some "apk_111111111111")).isOk = true ∧
    (getApplicationForRawAppToken Sample.digest w (some "apt_5555555555555555555555")).isOk =
      true ∧
    (getApplicationForEnrolment Sample.digest w' (some "apk_111111111111")).isOk = false ∧
    (getApplicationForRawAppToken Sample.digest w' (some "apt_5555555555555555555555")).isOk =
      false ∧
    CredentialsSeparated Sample.digest w ∧ NeverAgain Sample.digest w w' w' := by
  obtain ⟨w, w', hreach, hopen, hreach', hclosed⟩ := System.exists_reach_reach_of_guardedRun
    (credentialServer Sample.digest) Sample.DrawsGenerated Sample.emptyStore Sample.creations
    Sample.rotations
    (fun w =>
      (getApplicationForEnrolment Sample.digest w (some "apk_111111111111")).isOk &&
        (getApplicationForRawAppToken Sample.digest w (some "apt_5555555555555555555555")).isOk)
    (fun w =>
      !(getApplicationForEnrolment Sample.digest w (some "apk_111111111111")).isOk &&
        !(getApplicationForRawAppToken Sample.digest w (some "apt_5555555555555555555555")).isOk)
    (by decide)
  simp only [Bool.and_eq_true, Bool.not_eq_true'] at hopen hclosed
  have hgenuine : ∀ w a, Sample.DrawsGenerated w a →
      CredentialStore.Genuine Sample.digest w a :=
    fun w a h => ⟨h.1, fun v hv => ⟨Sample.generated_isGenerated v (h.2 v hv).1, (h.2 v hv).2⟩⟩
  exact ⟨w, w', hopen.1, hopen.2, hclosed.1, hclosed.2,
    credentials_separated Sample.digest_injective Sample.emptyStore_initial
      (hreach.mono _ hgenuine) (hreach'.mono _ hgenuine) (.refl _)⟩

end PushIT
