import Mathlib.Data.List.Basic

/-!
# Strings as lists of bytes

The UTF-8 encoding of a string as a list of bytes, and its partial inverse. Lean's own encoder and
validator do the work; this file restates them for lists, which the byte streams of a protocol
are.

## Main definitions

* `Utf8.encode`, `Utf8.decode`.

## Main results

* `Utf8.decode_eq_some_iff`: the decoder inverts the encoder and accepts nothing else.
* `Utf8.encode_injective`.
-/

namespace Utf8

/-- The UTF-8 bytes of a string. -/
def encode (s : String) : List UInt8 := s.toList.flatMap String.utf8EncodeChar

/-- The string that a list of bytes encodes. -/
def decode (bs : List UInt8) : Option String := String.fromUTF8? bs.toByteArray

@[simp] theorem encode_append (s t : String) : encode (s ++ t) = encode s ++ encode t := by
  simp [encode]

@[simp] theorem encode_empty : encode "" = [] := rfl

theorem toByteArray_encode (s : String) : (encode s).toByteArray = s.toByteArray :=
  String.utf8Encode_toList

/-- The decoder inverts the encoder and accepts nothing else. -/
theorem decode_eq_some_iff {bs : List UInt8} {s : String} :
    decode bs = some s ↔ encode s = bs := by
  rw [← List.toByteArray_inj, toByteArray_encode, decode, String.fromUTF8?]
  constructor
  · intro h
    split_ifs at h
    rw [← Option.some.inj h]
    rfl
  · intro h
    have hv : bs.toByteArray.IsValidUTF8 := h ▸ s.isValidUTF8
    rw [dif_pos hv, Option.some.injEq, ← String.toByteArray_inj, h]
    rfl

@[simp] theorem decode_encode (s : String) : decode (encode s) = some s :=
  decode_eq_some_iff.2 rfl

theorem encode_injective : Function.Injective encode := fun s t h => by
  have hs := decode_encode s
  rw [h, decode_encode] at hs
  exact (Option.some.inj hs).symm

theorem encode_eq_nil_iff {s : String} : encode s = [] ↔ s = "" :=
  ⟨fun h => encode_injective (h.trans encode_empty.symm), fun h => by rw [h, encode_empty]⟩

end Utf8
