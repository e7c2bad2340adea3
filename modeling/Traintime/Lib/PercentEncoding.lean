import Mathlib.Tactic.SplitIfs
import Traintime.Lib.Utf8

/-!
# Percent encoding

The encoding of a URI component: the unreserved ASCII characters as they are, every other byte of
the UTF-8 encoding as `%` and two hexadecimal digits. The codes of two bytes never overlap, so the
encoding is injective.

## Main definitions

* `PercentEncoding.encodeUriComponent`.

## Main results

* `PercentEncoding.encodeUriComponent_injective`.
-/

namespace PercentEncoding

/-- Letters, digits and the marks that a component keeps. -/
def unreserved (b : UInt8) : Bool :=
  (0x30 ≤ b && b ≤ 0x39) || (0x41 ≤ b && b ≤ 0x5a) || (0x61 ≤ b && b ≤ 0x7a) ||
    [0x2d, 0x5f, 0x2e, 0x21, 0x7e, 0x2a, 0x27, 0x28, 0x29].contains b

/-- The hexadecimal digits, in upper case. -/
def hexDigit (d : ℕ) : Char := Char.ofNat (if d < 10 then 0x30 + d else 0x37 + d)

/-- The code of one byte. -/
def encodeByte (b : UInt8) : List Char :=
  if unreserved b then [Char.ofNat b.toNat]
  else ['%', hexDigit (b.toNat / 16), hexDigit (b.toNat % 16)]

/-- The encoding of a component. -/
def encodeUriComponent (s : String) : String := String.ofList ((Utf8.encode s).flatMap encodeByte)

theorem toNat_ofNat_of_lt {k : ℕ} (h : k < 256) : (Char.ofNat k).toNat = k := by
  have hvalid : k.isValidChar := Or.inl (by omega)
  rw [Char.ofNat, dif_pos hvalid]
  rfl

theorem toNat_hexDigit {d : ℕ} (h : d < 16) :
    (hexDigit d).toNat = if d < 10 then 0x30 + d else 0x37 + d :=
  toNat_ofNat_of_lt (by split_ifs <;> omega)

theorem toNat_ofNat_byte (b : UInt8) : (Char.ofNat b.toNat).toNat = b.toNat :=
  toNat_ofNat_of_lt b.toNat_lt

theorem ofNat_ne_percent {b : UInt8} (h : unreserved b = true) : Char.ofNat b.toNat ≠ '%' := by
  intro hc
  have hb : b.toNat = 0x25 := by rw [← toNat_ofNat_byte, hc]; rfl
  obtain rfl : b = 0x25 := UInt8.toNat_inj.1 hb
  exact absurd h (by decide)

/-- No code is a prefix of another one. -/
theorem encodeByte_append_inj {b c : UInt8} {x y : List Char}
    (h : encodeByte b ++ x = encodeByte c ++ y) : b = c ∧ x = y := by
  unfold encodeByte at h
  split_ifs at h with hb hc hc
  · obtain ⟨hhead, htail⟩ := List.cons.inj h
    refine ⟨UInt8.toNat_inj.1 ?_, htail⟩
    rw [← toNat_ofNat_byte b, ← toNat_ofNat_byte c, hhead]
  · exact absurd (List.cons.inj h).1 (ofNat_ne_percent hb)
  · exact absurd (List.cons.inj h).1.symm (ofNat_ne_percent hc)
  · simp only [List.cons_append, List.nil_append, List.cons.injEq, true_and] at h
    obtain ⟨hhi, hlo, htail⟩ := h
    have hb := b.toNat_lt
    have hc := c.toNat_lt
    have hhi' := congrArg Char.toNat hhi
    have hlo' := congrArg Char.toNat hlo
    rw [toNat_hexDigit (by omega), toNat_hexDigit (by omega)] at hhi' hlo'
    refine ⟨UInt8.toNat_inj.1 ?_, htail⟩
    split_ifs at hhi' hlo' <;> omega

theorem flatMap_encodeByte_injective :
    Function.Injective fun bs : List UInt8 => bs.flatMap encodeByte := by
  intro bs
  induction bs with
  | nil =>
    intro cs h
    cases cs with
    | nil => rfl
    | cons c cs =>
      exfalso
      simp only [List.flatMap_nil, List.flatMap_cons, encodeByte] at h
      split_ifs at h <;> simp at h
  | cons b bs ih =>
    intro cs h
    cases cs with
    | nil =>
      exfalso
      simp only [List.flatMap_nil, List.flatMap_cons, encodeByte] at h
      split_ifs at h <;> simp at h
    | cons c cs =>
      simp only [List.flatMap_cons] at h
      obtain ⟨rfl, htail⟩ := encodeByte_append_inj h
      rw [ih htail]

/-- Two components with one encoding are equal. -/
theorem encodeUriComponent_injective : Function.Injective encodeUriComponent := fun _ _ h =>
  Utf8.encode_injective (flatMap_encodeByte_injective (String.ofList_injective h))

end PercentEncoding
