import Mathlib.Data.Nat.Notation
import Mathlib.Tactic.Common

/-!
# The readable copy of a send token

`applications/crypto.py`: a send token is stored once as a hash, which opens sends, and once
encrypted, so that its owner can read it again.  The first of the configured keys encrypts and
all of them decrypt; without a key the copy is blank.  The cipher is that of `cryptography`, and
a parameter.

## Main definitions

* `Fernet`, `Fernet.Sound`: the cipher, and what the code relies on.
* `encrypt`, `decrypt`: the two functions.
* `Sealed`: what a stored copy is a copy of.

## Main results

* `sealed_of_encrypt`: what is stored is blank or a ciphertext under the first key.
* `decrypt_eq_ok_iff`: which copies can be read, and what they show.
-/

namespace PushIT

/-- `cryptography.fernet.Fernet`; `entropy` stands for the clock and the random bytes. -/
structure Fernet (Key : Type) where
  /-- `Fernet(text.encode())`; `none` when it raises. -/
  parse : String → Option Key
  encrypt (key : Key) (entropy : ℕ) (raw : String) : List UInt8
  /-- `none` when it raises `InvalidToken`. -/
  decrypt (key : Key) (blob : List UInt8) : Option String

/-- A ciphertext is not empty, opens under its key and under no other. -/
structure Fernet.Sound {Key : Type} (F : Fernet Key) : Prop where
  encrypt_ne_nil : ∀ key entropy raw, F.encrypt key entropy raw ≠ []
  decrypt_encrypt : ∀ key entropy raw, F.decrypt key (F.encrypt key entropy raw) = some raw
  decrypt_of_ne : ∀ key key' entropy raw, key' ≠ key →
    F.decrypt key' (F.encrypt key entropy raw) = none

/-- The exceptions of the module. -/
inductive CryptoError
  | revealUnavailable (detail : String)
  | improperlyConfigured
  deriving DecidableEq, Repr

section Functions

variable {Key : Type} (F : Fernet Key)

/-- `_keys`. -/
def configuredKeys (keys : List String) : List String := keys.filter (· != "")

/-- `_cipher`: the keys of its `MultiFernet`. -/
def cipher (keys : List String) : Except CryptoError (List Key) :=
  if configuredKeys keys = [] then
    .error (.revealUnavailable "APP_TOKEN_ENCRYPTION_KEYS n'est pas configuré.")
  else
    match (configuredKeys keys).mapM F.parse with
    | some ks => .ok ks
    | none => .error .improperlyConfigured

/-- `encrypt`. -/
def encrypt (keys : List String) (entropy : ℕ) (raw : String) : Except CryptoError (List UInt8) :=
  if configuredKeys keys = [] then .ok []
  else
    match cipher F keys with
    | .error e => .error e
    | .ok [] => .ok []
    | .ok (key :: _) => .ok (F.encrypt key entropy raw)

/-- `decrypt`. -/
def decrypt (keys : List String) (blob : List UInt8) : Except CryptoError String :=
  if blob = [] then .error (.revealUnavailable "Ce jeton n'a pas de copie déchiffrable.")
  else
    match cipher F keys with
    | .error e => .error e
    | .ok ks =>
      match ks.findSome? (F.decrypt · blob) with
      | some raw => .ok raw
      | none => .error (.revealUnavailable "Aucune clé ne déchiffre ce jeton.")

end Functions

variable {Key : Type} {F : Fernet Key}

/-- A stored copy of a token: blank, or a ciphertext under a key. -/
inductive Sealed (F : Fernet Key) : Option Key → String → List UInt8 → Prop
  | blank (raw) : Sealed F none raw []
  | under (key entropy raw) : Sealed F (some key) raw (F.encrypt key entropy raw)

/-- The key that encrypts. -/
def firstKey (F : Fernet Key) (keys : List String) : Option Key :=
  match cipher F keys with
  | .ok (key :: _) => some key
  | _ => none

theorem cipher_ne_nil {keys : List String} {ks : List Key} (h : cipher F keys = .ok ks) :
    ks ≠ [] := by
  unfold cipher at h
  split at h
  · cases h
  · next hkeys =>
    split at h
    · next ks' hparse =>
      obtain rfl := Except.ok.inj h
      rintro rfl
      cases hlist : configuredKeys keys with
      | nil => exact hkeys hlist
      | cons key rest =>
        rw [hlist, List.mapM_cons] at hparse
        cases hkey : F.parse key with
        | none => simp [hkey] at hparse
        | some k => cases hrest : List.mapM F.parse rest <;> simp [hkey, hrest] at hparse
    · cases h

/-- The copy `issue` stores never holds the token in clear. -/
theorem sealed_of_encrypt {keys : List String} {entropy : ℕ} {raw : String} {blob : List UInt8}
    (h : encrypt F keys entropy raw = .ok blob) : Sealed F (firstKey F keys) raw blob := by
  unfold encrypt at h
  split at h
  · next hnone =>
    obtain rfl := Except.ok.inj h
    have hfirst : firstKey F keys = none := by simp [firstKey, cipher, hnone]
    rw [hfirst]
    exact .blank raw
  · split at h
    · cases h
    · next hcipher => exact absurd rfl (cipher_ne_nil hcipher)
    · next key rest hcipher =>
      obtain rfl := Except.ok.inj h
      have hfirst : firstKey F keys = some key := by simp [firstKey, hcipher]
      rw [hfirst]
      exact .under key entropy raw

/-- A ciphertext is found by its key, whatever the order of the keys. -/
theorem findSome?_decrypt [DecidableEq Key] (hF : F.Sound) (ks : List Key) (key : Key)
    (entropy : ℕ) (raw : String) :
    ks.findSome? (F.decrypt · (F.encrypt key entropy raw)) =
      if key ∈ ks then some raw else none := by
  induction ks with
  | nil => rfl
  | cons k ks ih =>
    rw [List.findSome?_cons]
    by_cases hk : k = key
    · subst hk
      simp [hF.decrypt_encrypt]
    · rw [hF.decrypt_of_ne key k entropy raw hk, ih]
      simp [Ne.symm hk]

/-- A copy can be read exactly while its key is configured and every configured key is well
formed, and then it shows the token it was made from. -/
theorem decrypt_eq_ok_iff [DecidableEq Key] (hF : F.Sound) {key? : Option Key} {raw : String}
    {blob : List UInt8} (h : Sealed F key? raw blob) (keys : List String) (shown : String) :
    decrypt F keys blob = .ok shown ↔
      shown = raw ∧ ∃ key ks, key? = some key ∧ cipher F keys = .ok ks ∧ key ∈ ks := by
  cases h with
  | blank => simp [decrypt]
  | under key entropy =>
    rw [decrypt, if_neg (hF.encrypt_ne_nil key entropy raw)]
    cases hcipher : cipher F keys with
    | error e => simp
    | ok ks =>
      simp only [findSome?_decrypt hF]
      by_cases hmem : key ∈ ks
      · simp [hmem, eq_comm]
      · simp [hmem]

/-! ### Samples -/

namespace Sample

/-- Three bytes for each letter. -/
def letterBytes (c : Char) : List UInt8 :=
  [UInt8.ofNat (c.toNat / 65536), UInt8.ofNat (c.toNat / 256 % 256), UInt8.ofNat (c.toNat % 256)]

def lettersOf : List UInt8 → List Char
  | a :: b :: c :: rest =>
    Char.ofNat (a.toNat * 65536 + b.toNat * 256 + c.toNat) :: lettersOf rest
  | _ => []

theorem lettersOf_flatMap (letters : List Char) :
    lettersOf (letters.flatMap letterBytes) = letters := by
  induction letters with
  | nil => rfl
  | cons c letters ih =>
    have hc : c.toNat / 65536 < 256 := by
      have hvalid : c.toNat < 0xd800 ∨ (0xdfff < c.toNat ∧ c.toNat < 0x110000) := c.valid
      omega
    have hsum : c.toNat / 65536 % 256 * 65536 + c.toNat / 256 % 256 % 256 * 256 +
        c.toNat % 256 % 256 = c.toNat := by omega
    simp only [List.flatMap_cons, letterBytes, List.cons_append, List.nil_append, lettersOf,
      UInt8.toNat_ofNat', ih]
    rw [hsum, Char.ofNat_toNat]

/-- A cipher that marks a text with its key. -/
def fernet : Fernet UInt8 where
  parse text := text.toList.head?.map fun c => UInt8.ofNat c.toNat
  encrypt key _ raw := key :: raw.toList.flatMap letterBytes
  decrypt key blob :=
    if blob.head? = some key then some (String.ofList (lettersOf blob.tail)) else none

theorem fernet_sound : fernet.Sound where
  encrypt_ne_nil _ _ _ := List.cons_ne_nil _ _
  decrypt_encrypt key _ raw := by simp [fernet, lettersOf_flatMap]
  decrypt_of_ne key key' _ raw h := by simp [fernet, h.symm]

end Sample

end PushIT
