import Mathlib.Data.List.Basic
import Mathlib.Data.Nat.Notation
import Mathlib.Tactic.Common

/-!
# Fields joined by a separator

Two fields with a separator between them are read back in one way only if the first field is free
of separators.  Otherwise a second reading moves a separator, and what stands before it, from the
second field into the first.

## Main results

* `Delimited.append_cons_inj`: fields without the separator are determined.
* `Delimited.append_cons_eq_iff`: the readings of two joined fields.
* `Utf8.encode_prefix`, `Utf8.dot_mem_encode`: the same for the bytes of a text.
-/

namespace Delimited

variable {α : Type*} {d : α} {a a' b b' : List α}

/-- The second reading `a'`, `b'` of the joined fields `a` and `b` takes the separator and the
beginning of `b` into its first field. -/
def Shifts (d : α) (a b a' b' : List α) : Prop :=
  ∃ m, a' = a ++ d :: m ∧ b = m ++ d :: b'

/-- The first field is the text before the first separator. -/
theorem append_cons_inj (ha : d ∉ a) (ha' : d ∉ a') (h : a ++ d :: b = a' ++ d :: b') :
    a = a' ∧ b = b' := by
  rcases List.append_eq_append_iff.mp h with ⟨m, rfl, hm⟩ | ⟨m, rfl, hm⟩ <;>
    rcases List.cons_eq_append_iff.mp hm with ⟨rfl, hb⟩ | ⟨n, rfl, -⟩
  · exact ⟨(List.append_nil _).symm, (List.cons.inj hb).2.symm⟩
  · exact absurd (by simp) ha'
  · exact ⟨List.append_nil _, (List.cons.inj hb).2⟩
  · exact absurd (by simp) ha

theorem Shifts.append_cons_eq (h : Shifts d a b a' b') : a ++ d :: b = a' ++ d :: b' := by
  obtain ⟨m, rfl, rfl⟩ := h
  simp

/-- Two readings of joined fields agree, or one is shifted against the other. -/
theorem append_cons_eq_iff :
    a ++ d :: b = a' ++ d :: b' ↔
      (a = a' ∧ b = b') ∨ Shifts d a b a' b' ∨ Shifts d a' b' a b := by
  constructor
  · intro h
    rcases List.append_eq_append_iff.mp h with ⟨m, rfl, hm⟩ | ⟨m, rfl, hm⟩ <;>
      rcases List.cons_eq_append_iff.mp hm with ⟨rfl, hb⟩ | ⟨n, rfl, hb⟩
    · exact Or.inl ⟨(List.append_nil _).symm, (List.cons.inj hb).2.symm⟩
    · exact Or.inr (Or.inl ⟨n, rfl, hb⟩)
    · exact Or.inl ⟨List.append_nil _, (List.cons.inj hb).2⟩
    · exact Or.inr (Or.inr ⟨n, rfl, hb⟩)
  · rintro (⟨rfl, rfl⟩ | h | h)
    · rfl
    · exact h.append_cons_eq
    · exact h.append_cons_eq.symm

end Delimited

/-! ### Bytes of a text -/

namespace Utf8

/-- `str.encode()`. -/
def encode (s : String) : List UInt8 := s.toList.flatMap String.utf8EncodeChar

/-- The byte of a full stop. -/
def dot : UInt8 := 46

theorem toByteArray_encode (s : String) : (encode s).toByteArray = s.toByteArray :=
  String.utf8Encode_toList

@[simp] theorem encode_append (s t : String) : encode (s ++ t) = encode s ++ encode t := by
  simp [encode]

theorem encode_injective {s t : String} (h : encode s = encode t) : s = t := by
  rw [← String.toByteArray_inj, ← toByteArray_encode, ← toByteArray_encode, h]

/-- What continues the bytes of a text to those of another one is a text. -/
theorem encode_prefix {s t : String} {bytes : List UInt8} (h : encode t = encode s ++ bytes) :
    ∃ u, t = s ++ u ∧ bytes = encode u := by
  have hbytes : s.toList.utf8Encode ++ bytes.toByteArray = t.toList.utf8Encode := by
    rw [String.utf8Encode_toList, String.utf8Encode_toList, ← toByteArray_encode,
      ← toByteArray_encode, h, List.toByteArray_append]
  obtain ⟨u, hu⟩ := List.isPrefix_of_utf8Encode_append_eq_utf8Encode _ hbytes
  have ht : t = s ++ String.ofList u := by
    rw [← String.toList_inj, String.toList_append, String.toList_ofList, hu]
  refine ⟨String.ofList u, ht, ?_⟩
  rw [ht, encode_append] at h
  exact (List.append_cancel_left h).symm

/-- Only a full stop is encoded with its byte. -/
theorem dot_mem_utf8EncodeChar {c : Char} (h : dot ∈ String.utf8EncodeChar c) : c = '.' := by
  have hne : ∀ n, 128 ≤ n % 256 → dot ≠ UInt8.ofNat n := by
    intro n hn heq
    have : dot.toNat = n % 256 := by rw [heq]; simp
    simp only [dot, UInt8.reduceToNat] at this
    omega
  have hval : c.val.toNat = c.toNat := rfl
  unfold String.utf8EncodeChar at h
  simp only [hval] at h
  split at h
  · next hle =>
    have hdot : dot.toNat = c.toNat % 256 := by rw [List.mem_singleton.mp h]; simp
    have htoNat : c.toNat = '.'.toNat := by
      simp only [dot, UInt8.reduceToNat] at hdot
      rw [show '.'.toNat = 46 from rfl]
      omega
    exact Char.toNat_inj.mp htoNat
  · -- the bytes of longer encodings are not below 128
    exfalso
    split at h
    · simp only [List.mem_cons, List.not_mem_nil, or_false] at h
      rcases h with h | h <;> exact hne _ (by omega) h
    · split at h <;> simp only [List.mem_cons, List.not_mem_nil, or_false] at h
      · rcases h with h | h | h <;> exact hne _ (by omega) h
      · rcases h with h | h | h | h <;> exact hne _ (by omega) h

theorem dot_mem_encode {s : String} (h : dot ∈ encode s) : '.' ∈ s.toList := by
  obtain ⟨c, hc, hdot⟩ := List.mem_flatMap.mp h
  exact dot_mem_utf8EncodeChar hdot ▸ hc

@[simp] theorem encode_dot : encode "." = [dot] := by decide

end Utf8
