import Mathlib.Data.List.DropRight
import Traintime.Lib.Binary64
import Traintime.Lib.Decimal

/-!
# Numerals of double precision numbers

Numerals with a decimal point and an exponent, and the shortest numeral of a number in double
precision, the one that Python writes: the fewest digits that read back to the number, and of these
the ones closest to it.

## Main definitions

* `Numeral.read`: the number that a numeral without a sign denotes.
* `Numeral.IsDouble`: the numbers of double precision.
* `Numeral.shortest`: the shortest numeral of a positive number.

## Main results

* `Numeral.nearest_read_shortest`: it reads back to the number.
-/

namespace Numeral

open Binary64 (nearest roundEven ulp)

/-! ### Reading -/

/-- The letter in front of an exponent. -/
def isExponentMark (c : Char) : Bool := c = 'e' ∨ c = 'E'

/-- The exponent behind its letter, with a sign or without one, and 0 where no letter stands. -/
def readExponent : List Char → Option ℤ
  | [] => some 0
  | _ :: '-' :: ds => (Decimal.parse ds).map fun n : ℕ => (-n : ℤ)
  | _ :: '+' :: ds => (Decimal.parse ds).map fun n : ℕ => (n : ℤ)
  | _ :: ds => (Decimal.parse ds).map fun n : ℕ => (n : ℤ)

/-- The number that a numeral without a sign denotes. -/
def read (s : List Char) : Option ℚ :=
  let mantissa := s.takeWhile fun c => !isExponentMark c
  let whole := mantissa.takeWhile (· != '.')
  let fraction := (mantissa.dropWhile (· != '.')).drop 1
  match Decimal.parse (whole ++ fraction),
    readExponent (s.dropWhile fun c => !isExponentMark c) with
  | some m, some e => some (m * 10 ^ (e - fraction.length))
  | _, _ => none

/-! ### Writing -/

/-- The exponent has a sign and at least two digits. -/
def exponent (e : ℤ) : List Char :=
  'e' :: (if e < 0 then '-' else '+') ::
    ((if e.natAbs < 10 then ['0'] else []) ++ Nat.toDigits 10 e.natAbs)

/-- The digits with the decimal point where it belongs, counted from the first of them. -/
def layout (digits : List Char) (point : ℤ) : List Char :=
  if point ≤ -4 ∨ 16 < point then
    digits.take 1 ++ (if digits.length ≤ 1 then [] else '.' :: digits.drop 1) ++
      exponent (point - 1)
  else if point ≤ 0 then
    '0' :: '.' :: (List.replicate (-point).toNat '0' ++ digits)
  else if digits.length ≤ point then
    digits ++ List.replicate (point.toNat - digits.length) '0' ++ ['.', '0']
  else digits.take point.toNat ++ '.' :: digits.drop point.toNat

/-- The exponent of the last of some digits of a number. -/
def lastPlace (q : ℚ) (n : ℕ) : ℤ := Int.log 10 q + 1 - n

/-- The numbers of so many digits on both sides of a number, the closer one first. -/
def candidates (q : ℚ) (n : ℕ) : List ℤ :=
  let x := q / 10 ^ lastPlace q n
  [roundEven x, if roundEven x = ⌊x⌋ then ⌊x⌋ + 1 else ⌊x⌋]

/-- The candidate of so many digits that reads back to the number. -/
def candidate? (q : ℚ) (n : ℕ) : Option ℤ :=
  (candidates q n).find? fun m => nearest (m * 10 ^ lastPlace q n) = q

/-! ### Reading what is written -/

/-- The number of some digits. -/
def digitsValue (ds : List Char) : ℕ := Nat.ofDigitChars 10 ds 0

/-- All characters are decimal digits. No character at all counts. -/
def Digits (ds : List Char) : Prop := ∀ c ∈ ds, c.isDigit = true

theorem digits_toDigits (n : ℕ) : Digits (Nat.toDigits 10 n) := fun _ hc =>
  Nat.isDigit_of_mem_toDigits (by decide) (Nat.le_refl 10) hc

theorem digits_replicate (n : ℕ) : Digits (List.replicate n '0') := fun c hc => by
  rw [List.eq_of_mem_replicate hc]
  rfl

theorem Digits.append {ds ds' : List Char} (h : Digits ds) (h' : Digits ds') :
    Digits (ds ++ ds') := fun c hc => (List.mem_append.mp hc).elim (h c) (h' c)

theorem Digits.parse {ds : List Char} (h : Digits ds) (hne : ds ≠ []) :
    Decimal.parse ds = some (digitsValue ds) :=
  if_pos ⟨hne, List.all_eq_true.mpr h⟩

theorem not_isExponentMark_of_isDigit {c : Char} (h : c.isDigit = true) :
    isExponentMark c = false := by
  rw [isExponentMark, decide_eq_false_iff_not]
  rintro (rfl | rfl) <;> exact absurd h (by decide)

theorem ne_point_of_isDigit {c : Char} (h : c.isDigit = true) : (c != '.') = true := by
  rw [bne_iff_ne]
  rintro rfl
  exact absurd h (by decide)

/-- The mantissa ends where the exponent begins. -/
theorem splitAt_exponent {mantissa ex : List Char} (hm : ∀ c ∈ mantissa, isExponentMark c = false)
    (hex : ∀ c ∈ ex.head?, isExponentMark c = true) :
    (mantissa ++ ex).takeWhile (fun c => !isExponentMark c) = mantissa ∧
      (mantissa ++ ex).dropWhile (fun c => !isExponentMark c) = ex := by
  have hpos : ∀ c ∈ mantissa, (!isExponentMark c) = true := fun c hc => by rw [hm c hc]; rfl
  rw [List.takeWhile_append_of_pos hpos, List.dropWhile_append_of_pos hpos]
  cases ex with
  | nil => exact ⟨List.append_nil _, rfl⟩
  | cons c ex =>
    have hc := hex c rfl
    rw [List.takeWhile_cons_of_neg (by simp [hc]), List.dropWhile_cons_of_neg (by simp [hc])]
    exact ⟨List.append_nil _, rfl⟩

theorem read_point {whole fraction ex : List Char} (hw : Digits whole) (hf : Digits fraction)
    (hne : whole ++ fraction ≠ []) (hex : ∀ c ∈ ex.head?, isExponentMark c = true) :
    read (whole ++ '.' :: fraction ++ ex) = (readExponent ex).map fun e : ℤ =>
      (digitsValue (whole ++ fraction) : ℚ) * 10 ^ (e - fraction.length) := by
  have hmantissa : ∀ c ∈ whole ++ '.' :: fraction, isExponentMark c = false := by
    intro c hc
    rcases List.mem_append.mp hc with hc | hc
    · exact not_isExponentMark_of_isDigit (hw c hc)
    · rcases List.mem_cons.mp hc with rfl | hc
      · decide
      · exact not_isExponentMark_of_isDigit (hf c hc)
  obtain ⟨htake, hdrop⟩ := splitAt_exponent hmantissa hex
  rw [read, htake, hdrop, List.takeWhile_append_of_pos fun c hc => ne_point_of_isDigit (hw c hc),
    List.dropWhile_append_of_pos fun c hc => ne_point_of_isDigit (hw c hc),
    List.takeWhile_cons_of_neg (by decide), List.dropWhile_cons_of_neg (by decide),
    List.append_nil, List.drop_one, List.tail_cons, (hw.append hf).parse hne]
  cases readExponent ex <;> rfl

theorem read_whole {whole ex : List Char} (hw : Digits whole) (hne : whole ≠ [])
    (hex : ∀ c ∈ ex.head?, isExponentMark c = true) :
    read (whole ++ ex) = (readExponent ex).map fun e : ℤ => (digitsValue whole : ℚ) * 10 ^ e := by
  obtain ⟨htake, hdrop⟩ := splitAt_exponent
    (fun c hc => not_isExponentMark_of_isDigit (hw c hc)) hex
  have hpoint : ∀ c ∈ whole, (c != '.') = true := fun c hc => ne_point_of_isDigit (hw c hc)
  have hdropPoint : whole.dropWhile (· != '.') = [] := List.dropWhile_eq_nil_iff.mpr hpoint
  have htakePoint : whole.takeWhile (· != '.') = whole := List.takeWhile_eq_self_iff.mpr hpoint
  rw [read, htake, hdrop, hdropPoint, htakePoint, List.drop_nil, List.append_nil, hw.parse hne]
  cases readExponent ex with
  | none => rfl
  | some e => simp

theorem digitsValue_append (ds ds' : List Char) :
    digitsValue (ds ++ ds') = 10 ^ ds'.length * digitsValue ds + digitsValue ds' := by
  rw [digitsValue, Nat.ofDigitChars_append, Nat.ofDigitChars_eq_ofDigitChars_zero]
  rfl

theorem digitsValue_replicate (n : ℕ) : digitsValue (List.replicate n '0') = 0 := by
  rw [digitsValue, Nat.ofDigitChars_replicate_zero, Nat.mul_zero]

theorem digitsValue_toDigits (n : ℕ) : digitsValue (Nat.toDigits 10 n) = n :=
  Nat.ofDigitChars_ten_toDigits

/-- The digits of a multiple of a power of ten. -/
theorem toDigits_mul_pow {n : ℕ} (hn : 0 < n) (k : ℕ) :
    Nat.toDigits 10 (n * 10 ^ k) = Nat.toDigits 10 n ++ List.replicate k '0' := by
  induction k with
  | zero => rw [pow_zero, mul_one, List.replicate_zero, List.append_nil]
  | succ k ih =>
    have hpos : 0 < n * 10 ^ k := by positivity
    have hsucc : n * 10 ^ (k + 1) = 10 * (n * 10 ^ k) + 0 := by ring
    rw [hsucc, ← Nat.toDigits_append_toDigits (by decide) hpos (by decide), ih, List.append_assoc,
      List.replicate_succ']
    rfl

theorem readExponent_exponent (e : ℤ) : readExponent (exponent e) = some e := by
  have hdigits : Decimal.parse ((if e.natAbs < 10 then ['0'] else []) ++
      Nat.toDigits 10 e.natAbs) = some e.natAbs := by
    rw [Digits.parse]
    · rw [digitsValue_append, digitsValue_toDigits]
      split_ifs <;> simp [digitsValue, Nat.ofDigitChars]
    · refine Digits.append ?_ (digits_toDigits _)
      split_ifs
      · exact digits_replicate 1
      · exact fun c hc => absurd hc List.not_mem_nil
    · exact List.append_ne_nil_of_right_ne_nil _ Nat.toDigits_ne_nil
  rw [exponent]
  split_ifs with hneg h h
  · rw [if_pos h] at hdigits
    rw [readExponent, hdigits, Option.map_some]
    exact congrArg some (by omega)
  · rw [if_neg h] at hdigits
    rw [readExponent, hdigits, Option.map_some]
    exact congrArg some (by omega)
  · rw [if_pos h] at hdigits
    rw [readExponent, hdigits, Option.map_some]
    exact congrArg some (by omega)
  · rw [if_neg h] at hdigits
    rw [readExponent, hdigits, Option.map_some]
    exact congrArg some (by omega)

/-- A numeral denotes its digits, moved to their place. -/
theorem read_layout {ds : List Char} (hds : Digits ds) (hne : ds ≠ []) (point : ℤ) :
    read (layout ds point) = some ((digitsValue ds : ℚ) * 10 ^ (point - ds.length)) := by
  have htake : ∀ n, Digits (ds.take n) := fun n c hc => hds c (List.mem_of_mem_take hc)
  have hdrop : ∀ n, Digits (ds.drop n) := fun n c hc => hds c (List.mem_of_mem_drop hc)
  have hlength : 0 < ds.length := List.length_pos_iff.mpr hne
  have hmark : ∀ e, ∀ c ∈ (exponent e).head?, isExponentMark c = true := by
    rintro e c hc
    cases hc
    rfl
  have hnil : ∀ c ∈ ([] : List Char).head?, isExponentMark c = true := nofun
  rw [layout]
  split_ifs with hexp hone hsmall hlarge
  · rw [List.take_of_length_le hone, List.append_nil, read_whole hds hne (hmark _),
      readExponent_exponent, Option.map_some]
    congr 3
    omega
  · rw [read_point (htake 1) (hdrop 1) (by rwa [List.take_append_drop]) (hmark _),
      readExponent_exponent, Option.map_some, List.take_append_drop, List.length_drop]
    congr 3
    omega
  · have hzero : Digits ['0'] := digits_replicate 1
    have hvalue : digitsValue ['0'] = 0 := rfl
    have htext : '0' :: '.' :: (List.replicate (-point).toNat '0' ++ ds) =
        ['0'] ++ '.' :: (List.replicate (-point).toNat '0' ++ ds) ++ [] := by
      rw [List.append_nil]
      rfl
    rw [htext, read_point hzero ((digits_replicate _).append hds) (List.cons_ne_nil _ _) hnil,
      readExponent, Option.map_some, digitsValue_append, digitsValue_append,
      digitsValue_replicate, hvalue, Nat.mul_zero, Nat.mul_zero, Nat.zero_add, Nat.zero_add,
      List.length_append, List.length_replicate]
    congr 3
    omega
  · have hzero : Digits ['0'] := digits_replicate 1
    have hvalue : digitsValue ['0'] = 0 := rfl
    have hwhole := hds.append (digits_replicate (point.toNat - ds.length))
    rw [← List.append_nil (ds ++ List.replicate (point.toNat - ds.length) '0' ++ ['.', '0']),
      read_point hwhole hzero (List.append_ne_nil_of_left_ne_nil (List.append_ne_nil_of_left_ne_nil
        hne _) _) hnil, readExponent, Option.map_some, digitsValue_append, digitsValue_append,
      digitsValue_replicate, hvalue, List.length_replicate]
    have hpoint : point = (point.toNat - ds.length : ℕ) + (ds.length : ℤ) := by omega
    rw [Option.some_inj]
    conv_rhs => rw [hpoint]
    push_cast
    rw [add_sub_cancel_right, zpow_natCast]
    norm_num
    ring
  · rw [← List.append_nil ('.' :: ds.drop _), ← List.append_assoc, read_point (htake _) (hdrop _)
      (by rwa [List.take_append_drop]) hnil, readExponent, Option.map_some, List.take_append_drop,
      List.length_drop]
    congr 3
    omega

/-! ### The extent of a numeral -/

/-- A numeral goes on with a digit, a point or a mark of an exponent, and with a sign after the
mark. -/
def continues (prev c : Char) : Bool :=
  c.isDigit || c = '.' || isExponentMark c || ((c = '+' || c = '-') && isExponentMark prev)

/-- A text that is scanned as one numeral. -/
structure Shape (s : List Char) : Prop where
  head : ∃ c ∈ s.head?, c.isDigit = true
  chain : s.IsChain fun prev c => continues prev c = true

/-- Digits and points need nothing in front. -/
theorem isChain_of_forall {s : List Char} (h : ∀ c ∈ s, c.isDigit = true ∨ c = '.') :
    s.IsChain fun prev c => continues prev c = true := by
  induction s with
  | nil => exact List.isChain_nil
  | cons c s ih =>
    refine List.isChain_cons.mpr ⟨fun c' hc' => ?_,
      ih fun c' hc' => h c' (List.mem_cons_of_mem _ hc')⟩
    rw [continues]
    rcases h c' (List.mem_cons_of_mem _ (List.mem_of_mem_head? hc')) with h | h <;> simp [h]

theorem Digits.shape {ds : List Char} (h : Digits ds) (hne : ds ≠ []) : Shape ds := by
  obtain ⟨c, t, rfl⟩ := List.exists_cons_of_ne_nil hne
  exact ⟨⟨c, rfl, h c List.mem_cons_self⟩, isChain_of_forall fun c hc => .inl (h c hc)⟩

theorem isChain_exponent (e : ℤ) :
    (exponent e).IsChain fun prev c => continues prev c = true := by
  have hdigits : Digits ((if e.natAbs < 10 then ['0'] else []) ++ Nat.toDigits 10 e.natAbs) := by
    refine Digits.append ?_ (digits_toDigits _)
    split_ifs
    · exact digits_replicate 1
    · exact fun c hc => absurd hc List.not_mem_nil
  rw [exponent]
  refine List.isChain_cons.mpr ⟨fun c hc => ?_, List.isChain_cons.mpr ⟨fun c hc => ?_, ?_⟩⟩
  · cases hc
    split_ifs <;> rfl
  · rw [continues, hdigits c (List.mem_of_mem_head? hc)]
    rfl
  · exact isChain_of_forall fun c hc => .inl (hdigits c hc)

/-- A mantissa with an exponent is scanned as one numeral. -/
theorem isChain_append_exponent {s : List Char} (h : ∀ c ∈ s, c.isDigit = true ∨ c = '.') (e : ℤ) :
    (s ++ exponent e).IsChain fun prev c => continues prev c = true := by
  refine (isChain_of_forall h).append (isChain_exponent e) fun x _ y hy => ?_
  cases hy
  simp [continues, isExponentMark]

theorem shape_layout {ds : List Char} (hds : Digits ds) (hne : ds ≠ []) (point : ℤ) :
    Shape (layout ds point) := by
  obtain ⟨d, t, rfl⟩ := List.exists_cons_of_ne_nil hne
  have hd := hds d List.mem_cons_self
  have hdigit : ∀ c ∈ d :: t, c.isDigit = true ∨ c = '.' := fun c hc => .inl (hds c hc)
  have hzero : ∀ n, ∀ c ∈ List.replicate n '0', c.isDigit = true ∨ c = '.' :=
    fun n c hc => .inl (digits_replicate n c hc)
  rw [layout]
  split_ifs with hexp hone hsmall hlarge
  · refine ⟨⟨d, rfl, hd⟩, isChain_append_exponent (fun c hc => ?_) _⟩
    rw [List.append_nil] at hc
    exact hdigit c (List.mem_of_mem_take hc)
  · refine ⟨⟨d, rfl, hd⟩, isChain_append_exponent (fun c hc => ?_) _⟩
    rcases List.mem_append.mp hc with hc | hc
    · exact hdigit c (List.mem_of_mem_take hc)
    · rcases List.mem_cons.mp hc with hc | hc
      · exact .inr hc
      · exact hdigit c (List.mem_of_mem_drop hc)
  · refine ⟨⟨'0', rfl, rfl⟩, isChain_of_forall fun c hc => ?_⟩
    rcases List.mem_cons.mp hc with rfl | hc
    · exact .inl rfl
    · rcases List.mem_cons.mp hc with hc | hc
      · exact .inr hc
      · exact (List.mem_append.mp hc).elim (hzero _ c) (hdigit c)
  · refine ⟨⟨d, rfl, hd⟩, isChain_of_forall fun c hc => ?_⟩
    rcases List.mem_append.mp hc with hc | hc
    · exact (List.mem_append.mp hc).elim (hdigit c) (hzero _ c)
    · rcases List.mem_pair.mp hc with rfl | rfl
      · exact .inr rfl
      · exact .inl rfl
  · have hpos : 0 < point.toNat := by omega
    obtain ⟨n, hn⟩ := Nat.exists_eq_succ_of_ne_zero hpos.ne'
    refine ⟨⟨d, by rw [hn]; rfl, hd⟩, isChain_of_forall fun c hc => ?_⟩
    rcases List.mem_append.mp hc with hc | hc
    · exact hdigit c (List.mem_of_mem_take hc)
    · rcases List.mem_cons.mp hc with hc | hc
      · exact .inr hc
      · exact hdigit c (List.mem_of_mem_drop hc)

/-! ### The shortest numeral -/

/-- The numbers of double precision. -/
def IsDouble (q : ℚ) : Prop := nearest q = q ∧ |q| < 2 ^ 1024

instance (q : ℚ) : Decidable (IsDouble q) := inferInstanceAs (Decidable (_ ∧ _))

theorem IsDouble.intCast {n : ℤ} (hn : |n| ≤ 2 ^ 53) : IsDouble n := by
  refine ⟨Binary64.nearest_intCast hn, ?_⟩
  have hq : |(n : ℚ)| ≤ 2 ^ 53 := by exact_mod_cast hn
  exact hq.trans_lt (pow_lt_pow_right₀ (by norm_num) (by norm_num))

/-- A number of double precision is an integer at some decimal place. -/
theorem exists_integer {q : ℚ} (h : nearest q = q) :
    ∃ n, ∃ z : ℤ, q / 10 ^ lastPlace q (n + 1) = z := by
  obtain ⟨z, e, hq⟩ : ∃ z e : ℤ, q = z * 2 ^ e := ⟨_, _, h.symm⟩
  let n := (Int.log 10 q + e.natAbs).toNat
  obtain ⟨t, ht⟩ : ∃ t : ℕ, lastPlace q (n + 1) = -(t : ℤ) :=
    ⟨(n - Int.log 10 q).toNat, by rw [lastPlace]; omega⟩
  obtain ⟨k, hk⟩ : ∃ k : ℕ, e + t = k := ⟨(e + t).toNat, by rw [lastPlace] at ht; omega⟩
  refine ⟨n, z * 2 ^ k * 5 ^ t, ?_⟩
  have hten : (10 : ℚ) ^ t = 2 ^ (t : ℤ) * 5 ^ t := by
    rw [zpow_natCast, ← mul_pow]
    norm_num
  rw [ht, zpow_neg, div_inv_eq_mul, zpow_natCast, hten]
  push_cast
  rw [← zpow_natCast 2 k, ← hk, zpow_add₀ two_ne_zero]
  conv_lhs => rw [hq]
  ring

theorem roundEven_eq_or (x : ℚ) : roundEven x = ⌊x⌋ ∨ roundEven x = ⌊x⌋ + 1 := by
  rw [roundEven]
  split_ifs
  · exact .inl rfl
  · exact .inr rfl
  · exact .inl rfl
  · exact .inr rfl

/-- The candidates are the integers on both sides. -/
theorem eq_floor_of_mem_candidates {q : ℚ} {n : ℕ} {m : ℤ} (h : m ∈ candidates q n) :
    m = ⌊q / 10 ^ lastPlace q n⌋ ∨ m = ⌊q / 10 ^ lastPlace q n⌋ + 1 := by
  have hround := roundEven_eq_or (q / 10 ^ lastPlace q n)
  rw [candidates, List.mem_pair] at h
  rcases h with h | h
  · rw [h]
    exact hround
  · rw [h]
    split_ifs
    · exact .inr rfl
    · exact .inl rfl

theorem nearest_of_candidate {q : ℚ} {n : ℕ} {m : ℤ} (h : candidate? q n = some m) :
    nearest (m * 10 ^ lastPlace q n) = q := by
  have hfind := List.find?_some h
  exact of_decide_eq_true hfind

/-- A number that ends at a decimal place is a candidate for itself there. -/
theorem isSome_candidate {q : ℚ} {n : ℕ} {z : ℤ} (h : nearest q = q)
    (hz : q / 10 ^ lastPlace q n = z) : (candidate? q n).isSome = true := by
  have hback : (z : ℚ) * 10 ^ lastPlace q n = q := by
    rw [← hz, div_mul_cancel₀ _ (zpow_ne_zero _ (by norm_num))]
  rw [candidate?, List.find?_isSome]
  refine ⟨z, ?_, by rw [hback, h]; exact decide_eq_true rfl⟩
  rw [candidates, hz, Binary64.roundEven_intCast]
  exact List.mem_cons_self

/-- Enough digits write a number of double precision as it is. -/
theorem exists_candidate {q : ℚ} (h : nearest q = q) :
    ∃ n, (candidate? q (n + 1)).isSome = true := by
  obtain ⟨n, z, hz⟩ := exists_integer h
  exact ⟨n, isSome_candidate h hz⟩

section Shortest

variable {q : ℚ} (h : nearest q = q)

/-- The number of digits of the shortest numeral, one less. -/
def shortestLength : ℕ := Nat.find (exists_candidate h)

/-- Its digits as a number. -/
def shortestNumber : ℤ :=
  (candidate? q (shortestLength h + 1)).get (Nat.find_spec (exists_candidate h))

/-- The shortest numeral of a positive number. -/
def shortest : List Char :=
  let ds := Nat.toDigits 10 (shortestNumber h).toNat
  layout (ds.rdropWhile (· = '0')) (ds.length + lastPlace q (shortestLength h + 1))

theorem shortestNumber_mem : shortestNumber h ∈ candidates q (shortestLength h + 1) :=
  List.mem_of_find?_eq_some (Option.some_get _).symm

theorem nearest_shortestNumber :
    nearest (shortestNumber h * 10 ^ lastPlace q (shortestLength h + 1)) = q :=
  nearest_of_candidate (Option.some_get _).symm

variable {h}

theorem shortestNumber_pos (hq : 0 < q) : 0 < shortestNumber h := by
  have hfloor : 0 ≤ ⌊q / 10 ^ lastPlace q (shortestLength h + 1)⌋ :=
    Int.floor_nonneg.mpr (div_nonneg hq.le (zpow_nonneg (by norm_num) _))
  have hnonneg : 0 ≤ shortestNumber h := by
    rcases eq_floor_of_mem_candidates (shortestNumber_mem h) with hmem | hmem <;> omega
  refine lt_of_le_of_ne hnonneg fun hzero => hq.ne ?_
  have hnearest := nearest_shortestNumber h
  rw [← hzero, Int.cast_zero, zero_mul] at hnearest
  rw [← hnearest]
  exact (Binary64.nearest_intCast (n := 0) (by norm_num)).symm.trans (by norm_num)

/-- The zeros at the end of a number are not written. -/
theorem exists_stripped (n : ℕ) :
    ∃ z, Nat.toDigits 10 n = (Nat.toDigits 10 n).rdropWhile (· = '0') ++ List.replicate z '0' := by
  have hzeros : (Nat.toDigits 10 n).rtakeWhile (· = '0') =
      List.replicate ((Nat.toDigits 10 n).rtakeWhile (· = '0')).length '0' :=
    List.eq_replicate_iff.mpr ⟨rfl, fun c hc => by simpa using List.mem_rtakeWhile_imp hc⟩
  exact ⟨_, by rw [← hzeros, List.rdropWhile_append_rtakeWhile]⟩

/-- What is written of a positive number are digits, and the first is not left out. -/
theorem stripped_digits {n : ℕ} (hn : 0 < n) :
    Digits ((Nat.toDigits 10 n).rdropWhile (· = '0')) ∧
      (Nat.toDigits 10 n).rdropWhile (· = '0') ≠ [] := by
  refine ⟨fun c hc => digits_toDigits n c ((List.rdropWhile_prefix _ _).subset hc), fun hnil => ?_⟩
  obtain ⟨z, hz⟩ := exists_stripped n
  have hvalue := digitsValue_toDigits n
  rw [hz, hnil, List.nil_append, digitsValue_replicate] at hvalue
  omega

theorem read_shortest (hq : 0 < q) :
    read (shortest h) =
      some ((shortestNumber h : ℚ) * 10 ^ lastPlace q (shortestLength h + 1)) := by
  obtain ⟨n, hn⟩ : ∃ n : ℕ, shortestNumber h = n :=
    ⟨_, (Int.toNat_of_nonneg (shortestNumber_pos hq).le).symm⟩
  have hpos : 0 < n := by
    have := shortestNumber_pos (h := h) hq
    omega
  obtain ⟨hdigits, hne⟩ := stripped_digits hpos
  obtain ⟨z, hz⟩ := exists_stripped n
  have hvalue := digitsValue_toDigits n
  rw [hz, digitsValue_append, digitsValue_replicate, List.length_replicate, Nat.add_zero] at hvalue
  have hlength := congrArg List.length hz
  rw [List.length_append, List.length_replicate] at hlength
  rw [shortest, hn, Int.toNat_natCast, read_layout hdigits hne, Option.some_inj]
  have hplace : ((Nat.toDigits 10 n).length + lastPlace q (shortestLength h + 1) -
      ((Nat.toDigits 10 n).rdropWhile (· = '0')).length : ℤ) =
        z + lastPlace q (shortestLength h + 1) := by omega
  rw [hplace, zpow_add₀ (by norm_num), zpow_natCast, ← mul_assoc]
  conv_rhs => rw [← hvalue]
  push_cast
  ring

theorem shape_shortest (hq : 0 < q) : Shape (shortest h) := by
  have hpos : 0 < (shortestNumber h).toNat := by
    have := shortestNumber_pos (h := h) hq
    omega
  obtain ⟨hdigits, hne⟩ := stripped_digits hpos
  exact shape_layout hdigits hne _

/-- The shortest numeral reads back to the number. -/
theorem nearest_read_shortest (hq : 0 < q) : ∃ x, read (shortest h) = some x ∧ nearest x = q :=
  ⟨_, read_shortest hq, nearest_shortestNumber h⟩

end Shortest

/-! ### Signs -/

theorem roundEven_neg (x : ℚ) : roundEven (-x) = -roundEven x := by
  by_cases hx : Int.fract x = 0
  · have hint : x = ⌊x⌋ := by
      rw [← Int.self_sub_floor, sub_eq_zero] at hx
      exact hx
    rw [hint, ← Int.cast_neg, Binary64.roundEven_intCast, Binary64.roundEven_intCast]
  · have hfract : Int.fract (-x) = 1 - Int.fract x := Int.fract_neg hx
    have hfloor : ⌊-x⌋ = -⌊x⌋ - 1 := by
      have hsum := Int.floor_add_fract (-x)
      have hsum' := Int.floor_add_fract x
      have : ((⌊-x⌋ : ℤ) : ℚ) = ((-⌊x⌋ - 1 : ℤ) : ℚ) := by
        push_cast
        linarith
      exact_mod_cast this
    rw [roundEven, roundEven, hfract, hfloor]
    split_ifs <;> first | omega | linarith

/-- Rounding does not look at the sign. -/
theorem nearest_neg (q : ℚ) : nearest (-q) = -nearest q := by
  have hulp : ulp (-q) = ulp q := by
    rw [ulp, ulp, Binary64.ulpExponent, Binary64.ulpExponent, abs_neg]
  rw [nearest, nearest, hulp, neg_div, roundEven_neg, Int.cast_neg, neg_mul]

theorem IsDouble.neg {q : ℚ} (h : IsDouble q) : IsDouble (-q) :=
  ⟨by rw [nearest_neg, h.1], by rw [abs_neg]; exact h.2⟩

/-- A numeral that rounds to a number of double precision is read as it. -/
theorem IsDouble.ofExact {q x : ℚ} (h : IsDouble q) (hx : nearest x = q) :
    Binary64.ofExact x = .finite q := by
  rw [Binary64.ofExact, hx, if_pos h.2]

end Numeral
