import Mathlib.Data.List.DropRight
import PushIT.Library.Delimited

/-!
# Signatures of the billing exchanges

`billing/client.py`: both directions are signed with an HMAC over the timestamp, the method, the
path and the body.  The three texts are joined by full stops, and the body follows another one.
A path and a body may hold full stops themselves, so that a signature binds its request up to a
full stop that changes sides.

## Main definitions

* `signingPayload`, `sign`, `headers`, `verifyInbound`: the signature and its verification.
* `SignedRequest.Shifts`: a second request takes the beginning of the body into its path.
* `Binds`, `Confusable`: what a signature is to guarantee, and when it does not.

## Main results

* `signature_binds_iff`: the signature separates exactly the requests that are not confusable.
* `signature_opens_another_route`: a request whose signature verifies for another path.
-/

namespace PushIT

/-! ### The builtins -/

/-- White space in the text of a header. -/
def isHeaderSpace (c : Char) : Bool :=
  [9, 10, 11, 12, 13, 28, 29, 30, 31, 32, 133, 160].contains c.toNat

/-- Decimal digits, with single underscores between them. -/
def decimalDigits (cs : List Char) : Option ℕ :=
  if (cs.splitOn '_').all fun group => !group.isEmpty && group.all Char.isDigit then
    some (Nat.ofDigitChars 10 (cs.filter (· != '_')) 0)
  else none

/-- Decimal digits after an optional sign. -/
def signedDigits : List Char → Option ℤ
  | '-' :: cs => (decimalDigits cs).map fun n : ℕ => -(n : ℤ)
  | '+' :: cs => (decimalDigits cs).map Int.ofNat
  | cs => (decimalDigits cs).map Int.ofNat

/-- `text.strip()`. -/
def stripSpace (cs : List Char) : List Char :=
  (cs.dropWhile isHeaderSpace).rdropWhile isHeaderSpace

/-- `int(text)` of the text of a header; `none` when it raises. -/
def pythonInt (text : String) : Option ℤ := signedDigits (stripSpace text.toList)

/-- The characters of an HTTP token besides letters and digits, without the full stop. -/
def tokenMarks : List Char :=
  ['!', '#', '$', '%', '&', '*', '+', '-', '^', '_', '|', '~', Char.ofNat 39, Char.ofNat 96]

/-- An HTTP method without a full stop. -/
structure HttpMethod where
  value : String
  token : ∀ c ∈ value.toList, c.isAlphanum ∨ c ∈ tokenMarks
  deriving DecidableEq

/-- `method.upper()`. -/
def HttpMethod.upper (method : HttpMethod) : String :=
  String.ofList (method.value.toList.map Char.toUpper)

/-! ### The client -/

/-- What a signature is about. -/
structure SignedRequest where
  timestamp : ℤ
  method : HttpMethod
  path : String
  body : List UInt8
  deriving DecidableEq

/-- The bytes that `_sign` passes to the HMAC. -/
def signingPayload (r : SignedRequest) : List UInt8 :=
  Utf8.encode (toString r.timestamp ++ "." ++ r.method.upper ++ "." ++ r.path ++ ".") ++ r.body

section Client

-- `hmac.new(secret.encode(), payload, hashlib.sha256).hexdigest()`
variable (hexdigest : String → List UInt8 → String)

/-- `_sign`. -/
def sign (secret : String) (r : SignedRequest) : String :=
  "sha256=" ++ hexdigest secret (signingPayload r)

/-- The headers of a signed request that the verification reads. -/
structure SignedHeaders where
  timestamp : String
  signature : String

/-- `_headers`. -/
def headers (secret : String) (now : ℤ) (method : HttpMethod) (path : String)
    (body : List UInt8) : SignedHeaders where
  timestamp := toString now
  signature := sign hexdigest secret { timestamp := now, method, path, body }

/-- `hmac.compare_digest` of two texts; it raises when one is not ASCII. -/
def compareDigest (a b : String) : Option Bool :=
  if (a.toList ++ b.toList).all fun c => c.toNat < 128 then some (a == b) else none

/-- `verify_inbound`; `none` when it raises. -/
def verifyInbound (secret : String) (now : ℤ) (method : HttpMethod) (path : String)
    (body : List UInt8) (headers : SignedHeaders) : Option Bool :=
  if headers.signature.isEmpty || !"sha256=".toList.isPrefixOf headers.signature.toList then
    some false
  else
    match pythonInt headers.timestamp with
    | none => some false
    | some ts =>
      if (now - ts).natAbs > 300 then some false
      else
        compareDigest (sign hexdigest secret { timestamp := ts, method, path, body })
          headers.signature

end Client

/-! ### What is bound -/

/-- The second request takes a full stop and the beginning of the body into its path. -/
def SignedRequest.Shifts (a b : SignedRequest) : Prop :=
  a.timestamp = b.timestamp ∧ a.method.upper = b.method.upper ∧
    ∃ s, b.path = a.path ++ "." ++ s ∧ a.body = Utf8.encode s ++ Utf8.dot :: b.body

/-- The requests differ in the letter case of the method only. -/
def SignedRequest.DiffersInCase (a b : SignedRequest) : Prop :=
  a ≠ b ∧ a.method.upper = b.method.upper ∧
    a = { b with method := a.method }

/-- Two requests with one signature. -/
def Confusable (a b : SignedRequest) : Prop :=
  a.Shifts b ∨ b.Shifts a ∨ a.DiffersInCase b

/-- The signed bytes tell the requests apart, and the signature of the first one does not verify
for the second. -/
structure Binds (hexdigest : String → List UInt8 → String) (a b : SignedRequest) : Prop where
  payload : signingPayload a = signingPayload b → a = b
  verifies : ∀ secret now h, h.signature = sign hexdigest secret a →
    pythonInt h.timestamp = some b.timestamp →
    verifyInbound hexdigest secret now b.method b.path b.body h = some true → a = b

/-! ### Reading the signed bytes -/

theorem decimalDigits_toDigits (n : ℕ) : decimalDigits (Nat.toDigits 10 n) = some n := by
  have hdigit : ∀ c ∈ Nat.toDigits 10 n, c.isDigit := fun c hc =>
    Nat.isDigit_of_mem_toDigits (by omega) (by omega) hc
  have hnot : ∀ c ∈ Nat.toDigits 10 n, c ≠ '_' := by
    rintro c hc rfl
    exact absurd (hdigit _ hc) (by decide)
  have hsplit : (Nat.toDigits 10 n).splitOn '_' = [Nat.toDigits 10 n] := by
    rw [List.splitOn_eq_splitOnP]
    exact List.splitOnP_eq_singleton fun c hc => by simpa using hnot c hc
  have hfilter : (Nat.toDigits 10 n).filter (· != '_') = Nat.toDigits 10 n :=
    List.filter_eq_self.mpr fun c hc => by simpa using hnot c hc
  simp [decimalDigits, hsplit, hfilter, List.all_eq_true.mpr hdigit]

/-- The characters of a number. -/
theorem mem_toString_int {n : ℤ} {c : Char} (h : c ∈ (toString n).toList) :
    c.isDigit ∨ c = '-' := by
  have hdigit : ∀ m : ℕ, c ∈ m.repr.toList → c.isDigit := fun m hc =>
    Nat.isDigit_of_mem_toDigits (by omega) (by omega) (Nat.toList_repr ▸ hc)
  rw [Int.toString_eq_repr, Int.repr_eq_if] at h
  split at h
  · exact Or.inl (hdigit _ h)
  · rcases List.mem_append.mp (String.toList_append ▸ h) with h | h
    · exact Or.inr (by simpa using h)
    · exact Or.inl (hdigit _ h)

theorem signedDigits_of_isDigit {cs : List Char} (h : ∀ c ∈ cs, c.isDigit) :
    signedDigits cs = (decimalDigits cs).map Int.ofNat := by
  unfold signedDigits
  split
  · exact absurd (h '-' (by simp)) (by decide)
  · exact absurd (h '+' (by simp)) (by decide)
  · rfl

theorem stripSpace_eq_self {cs : List Char} (h : ∀ c ∈ cs, isHeaderSpace c = false) :
    stripSpace cs = cs := by
  have hleft : cs.dropWhile isHeaderSpace = cs :=
    List.dropWhile_eq_self_iff.mpr fun hl => by simp [h _ (List.getElem_mem hl)]
  rw [stripSpace, hleft]
  exact List.rdropWhile_eq_self_iff.mpr fun hl => by simp [h _ (List.getLast_mem hl)]

theorem isHeaderSpace_of_isDigit {c : Char} (h : c.isDigit) : isHeaderSpace c = false := by
  have hdigit := Char.isDigit_iff_toNat.mp h
  rw [show '0'.toNat = 48 from rfl, show '9'.toNat = 57 from rfl] at hdigit
  simp only [isHeaderSpace, List.contains_eq_mem, decide_eq_false_iff_not, List.mem_cons,
    List.not_mem_nil, or_false]
  omega

/-- `int(str(n))` is `n`. -/
theorem pythonInt_toString (n : ℤ) : pythonInt (toString n) = some n := by
  have hspace : ∀ c ∈ (toString n).toList, isHeaderSpace c = false := by
    intro c hc
    rcases mem_toString_int hc with hdigit | rfl
    · exact isHeaderSpace_of_isDigit hdigit
    · decide
  rw [pythonInt, stripSpace_eq_self hspace, Int.toString_eq_repr, Int.repr_eq_if]
  split
  · next hn =>
    rw [Nat.toList_repr, signedDigits_of_isDigit fun c hc =>
      Nat.isDigit_of_mem_toDigits (by omega) (by omega) hc, decimalDigits_toDigits]
    exact congrArg some (Int.toNat_of_nonneg hn)
  · next hn =>
    have hneg : ((-n).toNat : ℤ) = -n := Int.toNat_of_nonneg (by omega)
    have hsigned : ∀ cs, signedDigits ('-' :: cs) = (decimalDigits cs).map fun m : ℕ => -(m : ℤ) :=
      fun _ => rfl
    rw [String.toList_append, Nat.toList_repr, show "-".toList = ['-'] from rfl,
      List.singleton_append, hsigned, decimalDigits_toDigits, Option.map_some, hneg, Int.neg_neg]

theorem toString_int_injective {m n : ℤ} (h : toString m = toString n) : m = n :=
  Option.some.inj (by rw [← pythonInt_toString m, h, pythonInt_toString])

theorem dot_not_mem_timestamp (timestamp : ℤ) : Utf8.dot ∉ Utf8.encode (toString timestamp) := by
  intro h
  rcases mem_toString_int (Utf8.dot_mem_encode h) with hdigit | heq
  · exact absurd hdigit (by decide)
  · exact absurd heq (by decide)

theorem toUpper_ne_dot {c : Char} (h : c ≠ '.') : c.toUpper ≠ '.' := by
  unfold Char.toUpper
  split
  · next hlower =>
    intro heq
    have hval := congrArg (fun c : Char => c.val.toNat) heq
    simp only [UInt32.toNat_add, show ('A'.val - 'a'.val).toNat = 4294967264 from rfl,
      show '.'.val.toNat = 46 from rfl] at hval
    have hle := UInt32.le_iff_toNat_le.mp hlower.1
    have hge := UInt32.le_iff_toNat_le.mp hlower.2
    rw [show 'a'.val.toNat = 97 from rfl] at hle
    rw [show 'z'.val.toNat = 122 from rfl] at hge
    omega
  · exact h

theorem dot_not_mem_upper (method : HttpMethod) : Utf8.dot ∉ Utf8.encode method.upper := by
  intro h
  have hmem := Utf8.dot_mem_encode h
  rw [HttpMethod.upper, String.toList_ofList] at hmem
  obtain ⟨c, hc, hupper⟩ := List.mem_map.mp hmem
  refine toUpper_ne_dot ?_ hupper
  rintro rfl
  exact absurd (method.token _ hc) (by decide)

theorem signingPayload_eq (r : SignedRequest) :
    signingPayload r = Utf8.encode (toString r.timestamp) ++ Utf8.dot ::
      (Utf8.encode r.method.upper ++ Utf8.dot :: (Utf8.encode r.path ++ Utf8.dot :: r.body)) := by
  simp [signingPayload]

/-- The readings of the path and the body. -/
theorem shifts_iff {a b : SignedRequest} :
    Delimited.Shifts Utf8.dot (Utf8.encode a.path) a.body (Utf8.encode b.path) b.body ↔
      ∃ s, b.path = a.path ++ "." ++ s ∧ a.body = Utf8.encode s ++ Utf8.dot :: b.body := by
  constructor
  · rintro ⟨m, hpath, hbody⟩
    have hprefix : Utf8.encode b.path = Utf8.encode (a.path ++ ".") ++ m := by simp [hpath]
    obtain ⟨s, hs, rfl⟩ := Utf8.encode_prefix hprefix
    exact ⟨s, hs, hbody⟩
  · rintro ⟨s, hs, hbody⟩
    exact ⟨Utf8.encode s, by simp [hs], hbody⟩

/-- Two requests have the same signed bytes exactly when they agree up to the case of the method
and a full stop that changes sides. -/
theorem signingPayload_eq_iff {a b : SignedRequest} :
    signingPayload a = signingPayload b ↔
      (a.method.upper = b.method.upper ∧ a = { b with method := a.method }) ∨
        a.Shifts b ∨ b.Shifts a := by
  rw [signingPayload_eq, signingPayload_eq]
  constructor
  · intro h
    obtain ⟨htimestamp, h⟩ := Delimited.append_cons_inj (dot_not_mem_timestamp _)
      (dot_not_mem_timestamp _) h
    obtain ⟨hmethod, h⟩ := Delimited.append_cons_inj (dot_not_mem_upper _)
      (dot_not_mem_upper _) h
    have htimestamp := toString_int_injective (Utf8.encode_injective htimestamp)
    have hmethod := Utf8.encode_injective hmethod
    rcases Delimited.append_cons_eq_iff.mp h with ⟨hpath, hbody⟩ | hshifts | hshifts
    · refine Or.inl ⟨hmethod, ?_⟩
      have hpath := Utf8.encode_injective hpath
      cases a
      cases b
      simp_all
    · exact Or.inr (Or.inl ⟨htimestamp, hmethod, shifts_iff.mp hshifts⟩)
    · exact Or.inr (Or.inr ⟨htimestamp.symm, hmethod.symm, shifts_iff.mp hshifts⟩)
  · have hshifted : ∀ {a b : SignedRequest}, a.Shifts b →
        Utf8.encode (toString a.timestamp) ++ Utf8.dot :: (Utf8.encode a.method.upper ++
            Utf8.dot :: (Utf8.encode a.path ++ Utf8.dot :: a.body)) =
          Utf8.encode (toString b.timestamp) ++ Utf8.dot :: (Utf8.encode b.method.upper ++
            Utf8.dot :: (Utf8.encode b.path ++ Utf8.dot :: b.body)) := by
      rintro a b ⟨htimestamp, hmethod, hshift⟩
      rw [htimestamp, hmethod, (shifts_iff.mpr hshift).append_cons_eq]
    rintro (⟨hmethod, h⟩ | h | h)
    · rw [h]
      simp [hmethod]
    · exact hshifted h
    · exact (hshifted h).symm

/-- Shifted requests differ. -/
theorem SignedRequest.Shifts.ne {a b : SignedRequest} (h : a.Shifts b) : a ≠ b := by
  rintro rfl
  obtain ⟨-, -, s, hpath, -⟩ := h
  have := congrArg String.length hpath
  rw [String.length_append, String.length_append, show ".".length = 1 from rfl] at this
  omega

/-- Two different requests have the same signed bytes exactly when they are confusable. -/
theorem confusable_iff {a b : SignedRequest} :
    Confusable a b ↔ signingPayload a = signingPayload b ∧ a ≠ b := by
  rw [signingPayload_eq_iff]
  constructor
  · rintro (h | h | ⟨hne, hmethod, h⟩)
    · exact ⟨Or.inr (Or.inl h), h.ne⟩
    · exact ⟨Or.inr (Or.inr h), h.ne.symm⟩
    · exact ⟨Or.inl ⟨hmethod, h⟩, hne⟩
  · rintro ⟨⟨hmethod, h⟩ | h | h, hne⟩
    · exact Or.inr (Or.inr ⟨hne, hmethod, h⟩)
    · exact Or.inl h
    · exact Or.inr (Or.inl h)

/-! ### Verification -/

section Verification

variable {hexdigest : String → List UInt8 → String}

/-- Only the signature of the same bytes verifies. -/
theorem sign_eq_of_verifyInbound {secret : String} {now : ℤ} {r : SignedRequest}
    {h : SignedHeaders} (htimestamp : pythonInt h.timestamp = some r.timestamp)
    (hverified : verifyInbound hexdigest secret now r.method r.path r.body h = some true) :
    sign hexdigest secret r = h.signature := by
  unfold verifyInbound at hverified
  split at hverified
  · simp at hverified
  · simp only [htimestamp] at hverified
    split at hverified
    · simp at hverified
    · unfold compareDigest at hverified
      split at hverified
      · simpa using hverified
      · simp at hverified

/-- What the client signs verifies for five minutes. -/
theorem verifyInbound_headers (hascii : ∀ secret payload c, c ∈ (hexdigest secret payload).toList →
    c.toNat < 128) (secret : String) {now later : ℤ} (hlater : (later - now).natAbs ≤ 300)
    (method : HttpMethod) (path : String) (body : List UInt8) :
    verifyInbound hexdigest secret later method path body
      (headers hexdigest secret now method path body) = some true := by
  have hsignature : ∀ r, (sign hexdigest secret r).toList =
      "sha256=".toList ++ (hexdigest secret (signingPayload r)).toList := fun r =>
    String.toList_append
  have hsign : ∀ r, ∀ c ∈ (sign hexdigest secret r).toList, c.toNat < 128 := by
    intro r c hc
    rcases List.mem_append.mp (hsignature r ▸ hc) with hc | hc
    · exact of_decide_eq_true (List.all_eq_true.mp
        (show "sha256=".toList.all (fun c => decide (c.toNat < 128)) = true by decide) c hc)
    · exact hascii _ _ c hc
  have hprefix : ∀ r, "sha256=".toList.isPrefixOf (sign hexdigest secret r).toList = true :=
    fun r => by rw [hsignature, List.isPrefixOf_iff_prefix]; exact List.prefix_append _ _
  have hempty : ∀ r, (sign hexdigest secret r).isEmpty = false := by
    intro r
    rw [String.isEmpty_eq_false_iff]
    intro h
    simpa [h] using hsignature r
  have hcompare : ∀ r, compareDigest (sign hexdigest secret r) (sign hexdigest secret r) =
      some true := by
    intro r
    have hall : ((sign hexdigest secret r).toList ++ (sign hexdigest secret r).toList).all
        (fun c => decide (c.toNat < 128)) = true := by
      simpa using hsign r
    rw [compareDigest, if_pos hall, beq_self_eq_true]
  rw [verifyInbound, headers, hempty, hprefix]
  simp only [pythonInt_toString, hcompare, Bool.not_true, Bool.or_self, Bool.false_eq_true,
    if_false]
  rw [if_neg (by omega)]

/-- The signature of a request binds it against another one exactly when the two are not
confusable. -/
theorem signature_binds_iff (hinjective : ∀ secret, Function.Injective (hexdigest secret))
    (a b : SignedRequest) : Binds hexdigest a b ↔ ¬Confusable a b := by
  rw [confusable_iff]
  constructor
  · rintro hbinds ⟨hpayload, hne⟩
    exact hne (hbinds.payload hpayload)
  · intro hnot
    have hpayload : signingPayload a = signingPayload b → a = b := fun h =>
      not_not.mp fun hne => hnot ⟨h, hne⟩
    refine ⟨hpayload, fun secret now h hsignature htimestamp hverified => hpayload ?_⟩
    have hsign := (sign_eq_of_verifyInbound htimestamp hverified).trans hsignature
    exact (hinjective secret (String.append_right_inj _ |>.mp hsign)).symm

end Verification

namespace Sample

def postMethod : HttpMethod where
  value := "POST"
  token _ hc := of_decide_eq_true (List.all_eq_true.mp (by decide :
    "POST".toList.all (fun c => decide (c.isAlphanum ∨ c ∈ tokenMarks)) = true) _ hc)

/-- A request with a path and a body, signed at one moment. -/
def signedRequest (path body : String) : SignedRequest :=
  { timestamp := 1700000000, method := postMethod, path, body := Utf8.encode body }

def firstPayload : List UInt8 :=
  signingPayload (signedRequest "/api/v1/billing/subscriptions/1" "5.00")

def secondPayload : List UInt8 :=
  signingPayload (signedRequest "/api/v1/billing/subscriptions/2" "5.00")

def firstDigest : String := "6dc7afc0c08a0ce1a32619d7a8bc77abc183de9925098a92b2d64c510149daeb"

def secondDigest : String := "d60d06c775a324644f3f7176c33e6081c04902a3542f4c06e51bf9407e2dd280"

/-- A text that is no digest. -/
def otherDigest (payload : List UInt8) : String := String.ofList ('x' :: payload.map Char.ofUInt8)

/-- The HMACs of two payloads under one secret, and different texts for everything else. -/
def hexdigest (secret : String) (payload : List UInt8) : String :=
  if secret = "pushit-secret" ∧ payload = firstPayload then firstDigest
  else if secret = "pushit-secret" ∧ payload = secondPayload then secondDigest
  else otherDigest payload

theorem hexdigest_cases (secret : String) (payload : List UInt8) :
    (payload = firstPayload ∧ hexdigest secret payload = firstDigest) ∨
      (payload = secondPayload ∧ hexdigest secret payload = secondDigest) ∨
      hexdigest secret payload = otherDigest payload := by
  unfold hexdigest
  split
  · next h => exact Or.inl ⟨h.2, rfl⟩
  · split
    · next h => exact Or.inr (Or.inl ⟨h.2, rfl⟩)
    · exact Or.inr (Or.inr rfl)

theorem hexdigest_injective (secret : String) : Function.Injective (hexdigest secret) := by
  have hbyte : Function.Injective Char.ofUInt8 := fun b c h =>
    UInt8.toUInt32_inj.mp (congrArg Char.val h)
  have hother : ∀ payload, (otherDigest payload).toList.head? = some 'x' := by simp [otherDigest]
  have hfirst : ∀ payload, firstDigest ≠ otherDigest payload := by
    intro payload h
    exact absurd (h ▸ hother payload) (by decide)
  have hsecond : ∀ payload, secondDigest ≠ otherDigest payload := by
    intro payload h
    exact absurd (h ▸ hother payload) (by decide)
  intro a b h
  rcases hexdigest_cases secret a with ⟨ha, hda⟩ | ⟨ha, hda⟩ | hda <;>
    rcases hexdigest_cases secret b with ⟨hb, hdb⟩ | ⟨hb, hdb⟩ | hdb <;> rw [hda, hdb] at h
  · exact ha.trans hb.symm
  · exact absurd h (by decide)
  · exact absurd h (hfirst b)
  · exact absurd h (by decide)
  · exact ha.trans hb.symm
  · exact absurd h (hsecond b)
  · exact absurd h.symm (hfirst a)
  · exact absurd h.symm (hsecond a)
  · exact List.map_injective_iff.mpr hbyte (List.cons.inj (String.ofList_injective h)).2

end Sample

/-- The signatures of two requests whose paths differ in a digit. -/
theorem sample_signature_binds :
    Binds Sample.hexdigest (Sample.signedRequest "/api/v1/billing/subscriptions/1" "5.00")
      (Sample.signedRequest "/api/v1/billing/subscriptions/2" "5.00") := by
  refine (signature_binds_iff Sample.hexdigest_injective _ _).mpr ?_
  rw [confusable_iff]
  exact fun h => absurd h.1 (by decide)

/-- The signature of a request verifies for a path and a body that share its signed bytes. -/
theorem signature_opens_another_route :
    ¬Binds Sample.hexdigest (Sample.signedRequest "/api/v1/billing/subscriptions/1" "5.00")
      (Sample.signedRequest "/api/v1/billing/subscriptions/1.5" "00") := by
  intro hbinds
  exact absurd (hbinds.payload (by decide)) (by decide)

end PushIT
