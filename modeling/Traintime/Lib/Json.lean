import Mathlib.Data.List.DropRight
import Traintime.Lib.Numeral

/-!
# JSON texts

The values of JSON texts and the compact texts that a writer makes of them: no white space, and in
strings only what must be escaped. Numbers are kept as they are written, and of the fields of an
object the order and the repetitions.

## Main definitions

* `Json.Number`, `Json.Value`: numerals and values.
* `Json.Value.text`: the text of a value.
* `Json.Value.depth`: how deep arrays and objects are nested.
* `Json.ofInt`, `Json.toInt?`: integers as numerals.

## Main results

* `Json.toInt?_ofInt`: an integer is what its numeral says.
-/

namespace Json

/-! ### Numerals -/

/-- What follows one digit or more. -/
def dropDigits? : List Char → Option (List Char)
  | [] => none
  | c :: cs => if c.isDigit then some (cs.dropWhile Char.isDigit) else none

/-- Nothing, or an exponent. -/
def isExponent : List Char → Bool
  | [] => true
  | c :: cs =>
    Numeral.isExponentMark c && dropDigits? (match cs with
      | '+' :: ds => ds
      | '-' :: ds => ds
      | ds => ds) == some []

/-- A fraction, if there is one, and an exponent, if there is one. -/
def isFraction : List Char → Bool
  | '.' :: cs => (dropDigits? cs).any isExponent
  | cs => isExponent cs

/-- A numeral without a sign. There is no zero in front. -/
def isUnsigned : List Char → Bool
  | [] => false
  | c :: cs => if c = '0' then isFraction cs else (dropDigits? (c :: cs)).any isFraction

/-- A numeral of the grammar of JSON, with a minus sign or without one. -/
def isNumber : List Char → Bool
  | '-' :: cs => isUnsigned cs
  | cs => isUnsigned cs

/-- A numeral as a JSON text may have it. -/
structure Number where
  text : List Char
  valid : isNumber text = true
deriving DecidableEq

/-! ### Values -/

/-- The value of a JSON text. -/
inductive Value
  | null
  | bool (b : Bool)
  | num (n : Number)
  | str (s : List Char)
  | arr (l : List Value)
  | obj (fields : List (List Char × Value))

mutual

/-- How deep arrays and objects are nested. -/
def Value.depth : Value → ℕ
  | .arr l => depthList l + 1
  | .obj fields => depthFields fields + 1
  | _ => 0

/-- The depth of the deepest value of an array, 0 for an empty one. -/
def depthList : List Value → ℕ
  | [] => 0
  | v :: vs => max v.depth (depthList vs)

/-- The depth of the deepest value of an object, 0 for an empty one. -/
def depthFields : List (List Char × Value) → ℕ
  | [] => 0
  | (_, v) :: fields => max v.depth (depthFields fields)

end

theorem depth_le_depthList {l : List Value} {v : Value} (hv : v ∈ l) : v.depth ≤ depthList l := by
  induction l with
  | nil => cases hv
  | cons a l ih =>
    rw [depthList]
    rcases List.mem_cons.1 hv with rfl | hv
    · exact le_max_left _ _
    · exact (ih hv).trans (le_max_right _ _)

theorem depth_le_depthFields {fields : List (List Char × Value)} {x : List Char × Value}
    (hx : x ∈ fields) : x.2.depth ≤ depthFields fields := by
  induction fields with
  | nil => cases hx
  | cons a fields ih =>
    rw [depthFields]
    rcases List.mem_cons.1 hx with rfl | hx
    · exact le_max_left _ _
    · exact (ih hx).trans (le_max_right _ _)

section Induction

variable {motive : Value → Prop} (null : motive .null) (bool : ∀ b, motive (.bool b))
  (num : ∀ n, motive (.num n)) (str : ∀ s, motive (.str s))
  (arr : ∀ l, (∀ v ∈ l, motive v) → motive (.arr l))
  (obj : ∀ fields, (∀ x ∈ fields, motive (Prod.snd x)) → motive (.obj fields))

include null bool num str arr obj

/-- A property of the values in arrays and objects carries over to these. -/
theorem Value.induct (v : Value) : motive v := by
  refine @Value.rec motive (fun l => ∀ v ∈ l, motive v)
    (fun fields => ∀ x ∈ fields, motive (Prod.snd x)) (fun x => motive x.2) null bool num str arr
    obj nofun ?_ nofun ?_ ?_ v
  · exact fun v l hv hl => List.forall_mem_cons.2 ⟨hv, hl⟩
  · exact fun x fields hx hfields => List.forall_mem_cons.2 ⟨hx, hfields⟩
  · exact fun _ _ hv => hv

end Induction

/-! ### Writing -/

/-- The digits of a number below 16. -/
def hexDigit (n : ℕ) : Char := if n < 10 then .ofNat (0x30 + n) else .ofNat (0x57 + n)

/-- The letter that stands for a character after a backslash, if there is one. -/
def shortEscape? (c : Char) : Option Char :=
  match c.toNat with
  | 0x22 => some '"'
  | 0x5c => some '\\'
  | 0x08 => some 'b'
  | 0x09 => some 't'
  | 0x0a => some 'n'
  | 0x0c => some 'f'
  | 0x0d => some 'r'
  | _ => none

/-- A character in a string. -/
def escapeChar (c : Char) : List Char :=
  match shortEscape? c with
  | some e => ['\\', e]
  | none =>
    if c.toNat < 0x20 then ['\\', 'u', '0', '0', hexDigit (c.toNat / 16), hexDigit (c.toNat % 16)]
    else [c]

/-- A string in quotes. -/
def stringText (s : List Char) : List Char := '"' :: (s.flatMap escapeChar ++ ['"'])

/-- Texts with commas between them, and what closes them. -/
def closeList (close : Char) : List (List Char) → List Char
  | [] => [close]
  | [t] => t ++ [close]
  | t :: ts => t ++ ',' :: closeList close ts

mutual

/-- The text of a value. -/
def Value.text : Value → List Char
  | .null => ['n', 'u', 'l', 'l']
  | .bool true => ['t', 'r', 'u', 'e']
  | .bool false => ['f', 'a', 'l', 's', 'e']
  | .num n => n.text
  | .str s => stringText s
  | .arr l => '[' :: closeList ']' (texts l)
  | .obj fields => '\x7b' :: closeList '\x7d' (fieldTexts fields)

/-- The texts of the values of an array. -/
def texts : List Value → List (List Char)
  | [] => []
  | v :: vs => v.text :: texts vs

/-- The texts of the fields of an object, each a name in quotes, a colon and a value. -/
def fieldTexts : List (List Char × Value) → List (List Char)
  | [] => []
  | (name, v) :: fields => (stringText name ++ ':' :: v.text) :: fieldTexts fields

end

theorem texts_eq_map (l : List Value) : texts l = l.map Value.text := by
  induction l with
  | nil => rfl
  | cons v l ih => rw [texts, ih, List.map_cons]

/-- The text of a field. -/
def fieldText (x : List Char × Value) : List Char := stringText x.1 ++ ':' :: x.2.text

theorem fieldTexts_eq_map (fields : List (List Char × Value)) :
    fieldTexts fields = fields.map fieldText := by
  induction fields with
  | nil => rfl
  | cons x fields ih =>
    obtain ⟨name, v⟩ := x
    rw [fieldTexts, ih, List.map_cons, fieldText]

/-! ### Integers -/

/-- The digits of an integer with its sign, and no zero in front. -/
def intText (n : ℤ) : List Char := (if n < 0 then ['-'] else []) ++ Nat.toDigits 10 n.natAbs

/-- The integer that a numeral without a fraction and an exponent denotes. Minus zero is none. -/
def toInt? (n : Number) : Option ℤ :=
  match n.text with
  | '-' :: ds => (Decimal.parse ds).bind fun m => if m = 0 then none else some (-m)
  | ds => (Decimal.parse ds).map Int.ofNat

/-- Only the numeral of zero begins with a zero. -/
theorem head?_toDigits_ne_zero {n : ℕ} (hn : n ≠ 0) : (Nat.toDigits 10 n).head? ≠ some '0' := by
  induction n using Nat.strongRecOn with
  | ind n ih =>
    rcases Nat.lt_or_ge n 10 with h | h
    · have hdigit : ∀ n < 10, n ≠ 0 → [Nat.digitChar n].head? ≠ some '0' := by decide
      rw [Nat.toDigits_of_lt_base h]
      exact hdigit n h hn
    · rw [Nat.toDigits_of_base_le (by decide) h, List.head?_append_of_ne_nil _ Nat.toDigits_ne_nil]
      exact ih (n / 10) (by omega) (by omega)

theorem isUnsigned_toDigits (n : ℕ) : isUnsigned (Nat.toDigits 10 n) = true := by
  by_cases hn : n = 0
  · subst hn
    decide
  · have hhead := head?_toDigits_ne_zero hn
    have hdigits : Numeral.Digits (Nat.toDigits 10 n) := Numeral.digits_toDigits n
    cases hds : Nat.toDigits 10 n with
    | nil => exact absurd hds Nat.toDigits_ne_nil
    | cons c cs =>
      rw [hds] at hhead hdigits
      have hc : c ≠ '0' := fun h => hhead (by rw [h]; rfl)
      have hdrop : cs.dropWhile Char.isDigit = [] :=
        List.dropWhile_eq_nil_iff.2 fun x hx => hdigits x (List.mem_cons_of_mem c hx)
      rw [isUnsigned, if_neg hc, dropDigits?, if_pos (hdigits c List.mem_cons_self), hdrop]
      rfl

/-- A numeral that begins with a digit has no sign. -/
theorem isNumber_of_isUnsigned {s : List Char} (hs : ∀ c ∈ s.head?, c.isDigit = true)
    (h : isUnsigned s = true) : isNumber s = true := by
  unfold isNumber
  split
  · exact absurd (hs _ rfl) (by decide)
  · exact h

theorem isDigit_of_mem_head?_toDigits (n : ℕ) :
    ∀ c ∈ (Nat.toDigits 10 n).head?, c.isDigit = true := fun c hc =>
  Numeral.digits_toDigits n c (List.mem_of_mem_head? hc)

theorem isNumber_intText (n : ℤ) : isNumber (intText n) = true := by
  rw [intText]
  split_ifs
  · exact isUnsigned_toDigits n.natAbs
  · exact isNumber_of_isUnsigned (isDigit_of_mem_head?_toDigits _) (isUnsigned_toDigits n.natAbs)

/-- The numeral of an integer. -/
def ofInt (n : ℤ) : Number := ⟨intText n, isNumber_intText n⟩

/-- An integer is what its numeral says. -/
@[simp] theorem toInt?_ofInt (n : ℤ) : toInt? (ofInt n) = some n := by
  simp only [toInt?, ofInt, intText]
  by_cases hn : n < 0
  · have hne : n.natAbs ≠ 0 := by omega
    simp [hn, hne, abs_of_neg hn]
  · have habs : (n.natAbs : ℤ) = n := by omega
    simp only [hn, if_false, List.nil_append]
    split
    · next ds hds =>
      have hdigit := isDigit_of_mem_head?_toDigits n.natAbs '-' (by rw [hds]; rfl)
      exact absurd hdigit (by decide)
    · rw [Decimal.parse_toDigits]
      exact congrArg some habs

end Json
