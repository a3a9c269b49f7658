import Mathlib.Data.Int.Notation
import Mathlib.Data.Nat.Notation
import Mathlib.Tactic.Common

/-!
# Reading JSON texts

The reading of a JSON text as `json.loads` performs it on a string: blanks around the tokens,
`NaN` and the infinities as numbers, the last of several members with one name, and three ways
to fail.  A text that is no JSON is refused; an integer with too many digits and a nesting deeper
than the recursion limit raise errors of their own.

## Main definitions

* `JsonText.Value`, `JsonText.LoadsError`: the values, and the ways to fail.
* `JsonText.loads`: the reader.
* `JsonText.Value.get`: `dict.get`.
-/

namespace JsonText

/-- A JSON value.  A string is the list of its code points, since an escape can be half of a
surrogate pair; a number that is no integer keeps its text. -/
inductive Value
  | null
  | bool (b : Bool)
  | int (n : ℤ)
  | float (text : List Char)
  | string (s : List ℕ)
  | array (items : List Value)
  | object (members : List (List ℕ × Value))

inductive LoadsError
  /-- `JSONDecodeError`. -/
  | decode
  /-- The `ValueError` of an integer with too many digits. -/
  | digits
  /-- `RecursionError`. -/
  | recursion
  deriving DecidableEq, Repr

/-- The code points of a text. -/
def codePoints (text : String) : List ℕ := text.toList.map Char.toNat

/-- `payload.get(name)`; of members with one name the last one stays. -/
def Value.get (name : String) (members : List (List ℕ × Value)) : Option Value :=
  (members.reverse.find? fun m => m.1 == codePoints name).map (·.2)

/-- A reader of a part of the text, with the rest of the text. -/
abbrev Scan (α : Type) := List Char → Except LoadsError (α × List Char)

def isBlank (c : Char) : Bool := c == ' ' || c == '\t' || c == '\n' || c == '\r'

def skipBlanks (cs : List Char) : List Char := cs.dropWhile isBlank

/-! ### Strings -/

def hexDigit? (c : Char) : Option ℕ :=
  if c.isDigit then some (c.toNat - '0'.toNat)
  else if 'a'.toNat ≤ c.toNat ∧ c.toNat ≤ 'f'.toNat then some (c.toNat - 'a'.toNat + 10)
  else if 'A'.toNat ≤ c.toNat ∧ c.toNat ≤ 'F'.toNat then some (c.toNat - 'A'.toNat + 10)
  else none

/-- The code unit of four hexadecimal digits. -/
def codeUnit? (a b c d : Char) : Option ℕ := do
  let a ← hexDigit? a
  let b ← hexDigit? b
  let c ← hexDigit? c
  let d ← hexDigit? d
  return a * 4096 + b * 256 + c * 16 + d

/-- The escapes of two characters. -/
def unescape? (c : Char) : Option ℕ :=
  [('"', 0x22), ('\\', 0x5C), ('/', 0x2F), ('b', 0x08), ('f', 0x0C), ('n', 0x0A), ('r', 0x0D),
    ('t', 0x09)].lookup c

/-- Two escaped surrogates that follow each other are one code point. -/
def joinSurrogates : List ℕ → List ℕ
  | high :: low :: rest =>
    if 0xD800 ≤ high ∧ high < 0xDC00 ∧ 0xDC00 ≤ low ∧ low < 0xE000 then
      (0x10000 + (high - 0xD800) * 0x400 + (low - 0xDC00)) :: joinSurrogates rest
    else high :: joinSurrogates (low :: rest)
  | units => units

/-- The code units of a string, after its opening quote. -/
def scanUnits : Scan (List ℕ)
  | [] => .error .decode
  | '"' :: cs => .ok ([], cs)
  | '\\' :: 'u' :: a :: b :: c :: d :: cs =>
    match codeUnit? a b c d with
    | some unit => (scanUnits cs).map fun r => (unit :: r.1, r.2)
    | none => .error .decode
  | '\\' :: c :: cs =>
    match unescape? c with
    | some unit => (scanUnits cs).map fun r => (unit :: r.1, r.2)
    | none => .error .decode
  | c :: cs =>
    if c.toNat < 0x20 || c == '\\' then .error .decode
    else (scanUnits cs).map fun r => (c.toNat :: r.1, r.2)

/-- A string, after its opening quote. -/
def scanString : Scan (List ℕ) := fun cs =>
  (scanUnits cs).map fun r => (joinSurrogates r.1, r.2)

/-! ### Numbers and names -/

/-- `sys.get_int_max_str_digits()`. -/
def maxIntDigits : ℕ := 4300

/-- The digits after a full stop, or nothing. -/
def scanFraction (cs : List Char) : List Char × List Char :=
  match cs with
  | '.' :: rest =>
    let digits := rest.takeWhile Char.isDigit
    if digits = [] then ([], cs) else ('.' :: digits, rest.dropWhile Char.isDigit)
  | _ => ([], cs)

/-- An exponent, or nothing. -/
def scanExponent (cs : List Char) : List Char × List Char :=
  match cs with
  | e :: rest =>
    if e = 'e' ∨ e = 'E' then
      let sign := rest.take 1 |>.filter fun c => c == '+' || c == '-'
      let digits := (rest.drop sign.length).takeWhile Char.isDigit
      if digits = [] then ([], cs)
      else (e :: sign ++ digits, (rest.drop sign.length).dropWhile Char.isDigit)
    else ([], cs)
  | [] => ([], cs)

def scanNumber : Scan Value := fun cs =>
  let sign := cs.take 1 |>.filter (· == '-')
  let rest := cs.drop sign.length
  let digits := if rest.head? = some '0' then ['0'] else rest.takeWhile Char.isDigit
  if digits = [] then .error .decode
  else
    let fraction := scanFraction (rest.drop digits.length)
    let exponent := scanExponent fraction.2
    if fraction.1 ++ exponent.1 = [] then
      if maxIntDigits < digits.length then .error .digits
      else
        let n := digits.foldl (fun n c => 10 * n + (c.toNat - '0'.toNat)) 0
        .ok (.int (if sign = [] then n else -n), exponent.2)
    else .ok (.float (sign ++ digits ++ fraction.1 ++ exponent.1), exponent.2)

/-- The names of `json`. -/
def names : List (String × Value) :=
  [("null", .null), ("true", .bool true), ("false", .bool false), ("NaN", .float "NaN".toList),
    ("Infinity", .float "Infinity".toList), ("-Infinity", .float "-Infinity".toList)]

/-- A value that is neither an array nor an object. -/
def scanScalar : Scan Value := fun cs =>
  match cs with
  | '"' :: rest => (scanString rest).map fun r => (.string r.1, r.2)
  | _ =>
    match names.find? fun n => n.1.toList.isPrefixOf cs with
    | some (name, v) => .ok (v, cs.drop name.length)
    | none => scanNumber cs

/-! ### Arrays and objects -/

/-- Items between commas, up to a closing bracket.  An item has a character at least, so that the
bound on their number is met at the end of the text, where every reader fails. -/
def scanItems {α : Type} (item : Scan α) (close : Char) : ℕ → Scan (List α)
  | 0, _ => .error .decode
  | n + 1, cs => do
    let (a, cs) ← item cs
    match skipBlanks cs with
    | c :: rest =>
      if c = close then .ok ([a], rest)
      else if c = ',' then
        let (as, rest) ← scanItems item close n (skipBlanks rest)
        .ok (a :: as, rest)
      else .error .decode
    | [] => .error .decode

/-- The items of an array or the members of an object, after the opening bracket. -/
def scanBracketed {α : Type} (item : Scan α) (close : Char) : Scan (List α) := fun cs =>
  let cs := skipBlanks cs
  if cs.head? = some close then .ok ([], cs.drop 1) else scanItems item close cs.length cs

/-- A member of an object. -/
def scanMember (value : Scan Value) : Scan (List ℕ × Value) := fun cs =>
  match cs with
  | '"' :: rest => do
    let (name, cs) ← scanString rest
    match skipBlanks cs with
    | ':' :: rest => do
      let (v, cs) ← value (skipBlanks rest)
      .ok ((name, v), cs)
    | _ => .error .decode
  | _ => .error .decode

/-- A value with at most so many brackets around each other. -/
def scanValue : ℕ → Scan Value
  | 0 => fun cs =>
    match cs with
    | '[' :: _ | '\x7b' :: _ => .error .recursion
    | _ => scanScalar cs
  | depth + 1 => fun cs =>
    match cs with
    | '[' :: rest =>
      (scanBracketed (scanValue depth) ']' rest).map fun r => (.array r.1, r.2)
    | '\x7b' :: rest =>
      (scanBracketed (scanMember (scanValue depth)) '\x7d' rest).map fun r => (.object r.1, r.2)
    | _ => scanScalar cs

/-- `json.loads`, where the recursion limit leaves room for `maxDepth` brackets. -/
def loads (maxDepth : ℕ) (text : List Char) : Except LoadsError Value := do
  let (v, rest) ← scanValue maxDepth (skipBlanks text)
  if skipBlanks rest = [] then .ok v else .error .decode

end JsonText
