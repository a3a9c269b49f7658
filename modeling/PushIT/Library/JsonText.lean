import Mathlib.Data.List.Sort
import Mathlib.Data.Nat.Notation
import Mathlib.Tactic.Common

/-!
# The text of flat JSON objects

The encoding of a flat JSON object as ASCII text without blanks, as `json.dumps` writes it with
`sort_keys=True` and `separators=(",", ":")`: a string is quoted, the quote, the backslash and
the control characters are escaped, and every other character outside ASCII becomes one or two
`\u` escapes.

## Main definitions

* `JsonText.escape`, `JsonText.quote`: the text of a character and of a string.
* `JsonText.Scalar`, `JsonText.dumps`: the values of a flat object, and the text of the object.

## Main results

* `JsonText.escape_append_inj`: the escapes are a prefix code.
* `JsonText.dumps_inj`: objects with the same text have the same members.
-/

namespace JsonText

/-! ### Characters -/

/-- The escape of a code unit. -/
def unicodeEscape (n : ℕ) : List Char :=
  ['\\', 'u', Nat.digitChar (n / 4096 % 16), Nat.digitChar (n / 256 % 16),
    Nat.digitChar (n / 16 % 16), Nat.digitChar (n % 16)]

/-- The characters with an escape of two letters. -/
def shortEscapes : List (Char × Char) :=
  [('"', '"'), ('\\', '\\'), ('\n', 'n'), ('\r', 'r'), ('\t', 't'), (Char.ofNat 8, 'b'),
    (Char.ofNat 12, 'f')]

/-- The text of a character inside a string; beyond the basic plane it is a surrogate pair. -/
def escape (c : Char) : List Char :=
  match shortEscapes.lookup c with
  | some e => ['\\', e]
  | none =>
    if 0x20 ≤ c.toNat ∧ c.toNat ≤ 0x7E then [c]
    else if c.toNat < 0x10000 then unicodeEscape c.toNat
    else
      unicodeEscape (0xD800 + (c.toNat - 0x10000) / 0x400) ++
        unicodeEscape (0xDC00 + (c.toNat - 0x10000) % 0x400)

/-- The four forms of the text of a character. -/
inductive Escaped (c : Char) : List Char → Prop
  | short (e : Char) (h : (c, e) ∈ shortEscapes) : Escaped c ['\\', e]
  | plain (hquote : c ≠ '"') (hbackslash : c ≠ '\\') : Escaped c [c]
  | unit (hlt : c.toNat < 0x10000) : Escaped c (unicodeEscape c.toNat)
  | pair (hle : 0x10000 ≤ c.toNat) :
    Escaped c (unicodeEscape (0xD800 + (c.toNat - 0x10000) / 0x400) ++
      unicodeEscape (0xDC00 + (c.toNat - 0x10000) % 0x400))

theorem escaped (c : Char) : Escaped c (escape c) := by
  unfold escape
  split
  · next e he =>
    obtain ⟨l, l', hl, -⟩ := List.lookup_eq_some_iff.mp he
    exact .short e (hl ▸ List.mem_append_right l List.mem_cons_self)
  · next hnone =>
    split
    · refine .plain ?_ ?_ <;> rintro rfl <;> exact absurd hnone (by decide)
    · split
      · next hlt => exact .unit hlt
      · next hle => exact .pair (not_lt.mp hle)

theorem digitChar_inj {a b : ℕ} (ha : a < 16) (hb : b < 16)
    (h : Nat.digitChar a = Nat.digitChar b) : a = b := by
  have hall : ∀ a b : Fin 16, Nat.digitChar a = Nat.digitChar b → a = b := by decide
  exact congrArg Fin.val (hall ⟨a, ha⟩ ⟨b, hb⟩ h)

theorem unicodeEscape_append_inj {n m : ℕ} (hn : n < 0x10000) (hm : m < 0x10000)
    {r r' : List Char} (h : unicodeEscape n ++ r = unicodeEscape m ++ r') : n = m ∧ r = r' := by
  simp only [unicodeEscape, List.cons_append, List.nil_append, List.cons.injEq, true_and] at h
  obtain ⟨h3, h2, h1, h0, hr⟩ := h
  have h3 := digitChar_inj (Nat.mod_lt _ (by omega)) (Nat.mod_lt _ (by omega)) h3
  have h2 := digitChar_inj (Nat.mod_lt _ (by omega)) (Nat.mod_lt _ (by omega)) h2
  have h1 := digitChar_inj (Nat.mod_lt _ (by omega)) (Nat.mod_lt _ (by omega)) h1
  have h0 := digitChar_inj (Nat.mod_lt _ (by omega)) (Nat.mod_lt _ (by omega)) h0
  exact ⟨by omega, hr⟩

/-- A character is not half of a surrogate pair. -/
theorem toNat_not_surrogate (c : Char) : c.toNat < 0xD800 ∨ 0xE000 ≤ c.toNat := by
  rcases c.valid with h | h
  · exact Or.inl h
  · exact Or.inr (Nat.succ_le_of_lt h.1)

theorem toNat_lt (c : Char) : c.toNat < 0x110000 := by
  rcases c.valid with h | h
  · exact lt_trans h (by decide)
  · exact h.2

/-- No text of a character begins with a quote. -/
theorem Escaped.ne_quote {c : Char} {e : List Char} (h : Escaped c e) (r r' : List Char) :
    e ++ r ≠ '"' :: r' := by
  cases h with
  | plain hquote _ => simp [hquote]
  | _ => simp [unicodeEscape]

/-- A short escape and a code unit differ in their second letter. -/
theorem short_ne_u {c e : Char} (h : (c, e) ∈ shortEscapes) : e ≠ 'u' := by
  rintro rfl
  simp [shortEscapes] at h

/-- The escapes are a prefix code. -/
theorem Escaped.append_inj {c d : Char} {e f : List Char} (hc : Escaped c e) (hd : Escaped d f)
    {r r' : List Char} (h : e ++ r = f ++ r') : c = d ∧ r = r' := by
  have hcs := toNat_not_surrogate c
  have hds := toNat_not_surrogate d
  have hct := toNat_lt c
  have hdt := toNat_lt d
  cases hc with
  | short x hx =>
    have hu := short_ne_u hx
    cases hd with
    | short y hy =>
      simp only [List.cons_append, List.nil_append, List.cons.injEq, true_and] at h
      obtain ⟨rfl, rfl⟩ := h
      refine ⟨?_, rfl⟩
      have hall : ∀ p ∈ shortEscapes, ∀ q ∈ shortEscapes, p.2 = q.2 → p.1 = q.1 := by decide
      exact hall _ hx _ hy rfl
    | plain _ hbackslash => simp_all [eq_comm]
    | unit => simp [unicodeEscape, hu] at h
    | pair => simp [unicodeEscape, hu] at h
  | plain _ hbackslash =>
    cases hd with
    | plain => simpa using h
    | _ => simp [unicodeEscape, hbackslash] at h
  | unit hlt =>
    cases hd with
    | short y hy => simp [unicodeEscape, (short_ne_u hy).symm] at h
    | plain _ hbackslash => simp [unicodeEscape, hbackslash.symm] at h
    | unit hlt' =>
      obtain ⟨hn, hr⟩ := unicodeEscape_append_inj hlt hlt' h
      exact ⟨Char.toNat_inj.mp hn, hr⟩
    | pair hle =>
      rw [List.append_assoc] at h
      obtain ⟨hn, -⟩ := unicodeEscape_append_inj hlt (by omega) h
      omega
  | pair hle =>
    rw [List.append_assoc] at h
    cases hd with
    | short y hy => simp [unicodeEscape, (short_ne_u hy).symm] at h
    | plain _ hbackslash => simp [unicodeEscape, hbackslash.symm] at h
    | unit hlt' =>
      obtain ⟨hn, -⟩ := unicodeEscape_append_inj (by omega) hlt' h
      omega
    | pair hle' =>
      rw [List.append_assoc] at h
      obtain ⟨hhigh, h⟩ := unicodeEscape_append_inj (by omega) (by omega) h
      obtain ⟨hlow, hr⟩ := unicodeEscape_append_inj (by omega) (by omega) h
      exact ⟨Char.toNat_inj.mp (by omega), hr⟩

theorem escape_append_inj {c d : Char} {r r' : List Char} (h : escape c ++ r = escape d ++ r') :
    c = d ∧ r = r' :=
  (escaped c).append_inj (escaped d) h

/-! ### Strings -/

/-- The text of a string. -/
def quote (s : String) : List Char :=
  '"' :: (s.toList.flatMap escape ++ ['"'])

private theorem flatMap_escape_inj {l l' : List Char} {r r' : List Char}
    (h : l.flatMap escape ++ '"' :: r = l'.flatMap escape ++ '"' :: r') : l = l' ∧ r = r' := by
  induction l generalizing l' with
  | nil =>
    cases l' with
    | nil => simpa using h
    | cons d l' =>
      rw [List.flatMap_cons, List.append_assoc] at h
      exact absurd h.symm ((escaped d).ne_quote _ _)
  | cons c l ih =>
    rw [List.flatMap_cons, List.append_assoc] at h
    cases l' with
    | nil => exact absurd h ((escaped c).ne_quote _ _)
    | cons d l' =>
      rw [List.flatMap_cons, List.append_assoc] at h
      obtain ⟨rfl, hrest⟩ := escape_append_inj h
      obtain ⟨rfl, hr⟩ := ih hrest
      exact ⟨rfl, hr⟩

theorem quote_append_inj {s t : String} {r r' : List Char} (h : quote s ++ r = quote t ++ r') :
    s = t ∧ r = r' := by
  simp only [quote, List.cons_append, List.append_assoc, List.nil_append, List.cons.injEq,
    true_and] at h
  obtain ⟨hl, hr⟩ := flatMap_escape_inj h
  exact ⟨String.toList_inj.mp hl, hr⟩

/-! ### Flat objects -/

/-- The values of a flat object. -/
inductive Scalar
  | null
  | text (s : String)
  deriving DecidableEq, Repr

/-- The text of a value. -/
def Scalar.dumps : Scalar → List Char
  | null => ['n', 'u', 'l', 'l']
  | text s => quote s

theorem Scalar.dumps_append_inj {a b : Scalar} {r r' : List Char}
    (h : a.dumps ++ r = b.dumps ++ r') : a = b ∧ r = r' := by
  cases a with
  | null =>
    cases b with
    | null => simpa [dumps] using h
    | text t => simp [dumps, quote] at h
  | text s =>
    cases b with
    | null => simp [dumps, quote] at h
    | text t =>
      obtain ⟨rfl, hr⟩ := quote_append_inj h
      exact ⟨rfl, hr⟩

/-- A member of an object: its key and its value. -/
abbrev Member := String × Scalar

/-- The text of a member. -/
def member (m : Member) : List Char :=
  quote m.1 ++ ':' :: m.2.dumps

theorem member_append_inj {m m' : Member} {r r' : List Char}
    (h : member m ++ r = member m' ++ r') : m = m' ∧ r = r' := by
  simp only [member, List.append_assoc, List.cons_append] at h
  obtain ⟨hkey, h⟩ := quote_append_inj h
  obtain ⟨hvalue, hr⟩ := Scalar.dumps_append_inj (List.cons.inj h).2
  exact ⟨Prod.ext hkey hvalue, hr⟩

/-- The text after the first member. -/
def furtherMembers (ms : List Member) : List Char :=
  ms.flatMap (fun m => ',' :: member m) ++ ['}']

/-- The text of an object. -/
def object : List Member → List Char
  | [] => ['{', '}']
  | m :: ms => '{' :: (member m ++ furtherMembers ms)

theorem furtherMembers_inj {ms ms' : List Member} (h : furtherMembers ms = furtherMembers ms') :
    ms = ms' := by
  induction ms generalizing ms' with
  | nil =>
    cases ms' with
    | nil => rfl
    | cons m' ms' => simp [furtherMembers] at h
  | cons m ms ih =>
    cases ms' with
    | nil => simp [furtherMembers] at h
    | cons m' ms' =>
      simp only [furtherMembers, List.flatMap_cons, List.cons_append, List.append_assoc,
        List.cons.injEq, true_and] at h
      obtain ⟨rfl, hrest⟩ := member_append_inj h
      rw [ih hrest]

theorem object_inj {ms ms' : List Member} (h : object ms = object ms') : ms = ms' := by
  cases ms with
  | nil =>
    cases ms' with
    | nil => rfl
    | cons m' ms' => simp [object, member, quote] at h
  | cons m ms =>
    cases ms' with
    | nil => simp [object, member, quote] at h
    | cons m' ms' =>
      obtain ⟨rfl, hrest⟩ := member_append_inj (List.cons.inj h).2
      rw [furtherMembers_inj hrest]

/-- The members in the order of their keys. -/
def sortKeys (ms : List Member) : List Member :=
  ms.insertionSort fun a b => a.1 ≤ b.1

/-- The text of an object whose keys are sorted. -/
def dumps (ms : List Member) : String :=
  String.ofList (object (sortKeys ms))

/-- Objects with the same text have the same members. -/
theorem dumps_inj {ms ms' : List Member} (h : dumps ms = dumps ms') :
    sortKeys ms = sortKeys ms' :=
  object_inj (String.ofList_inj.mp h)

end JsonText
