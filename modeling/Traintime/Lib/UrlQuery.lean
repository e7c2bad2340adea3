import Mathlib.Data.Bool.AllAny
import Mathlib.Data.List.DropRight
import Mathlib.Tactic.IntervalCases
import Traintime.Lib.PercentEncoding

/-!
# The query of a URL

How a URL parser takes the query out of the text of a URL, and how a receiver reads the parameters
of a form from a query. A receiver may do with bytes that are not UTF-8 what it likes, as long as it
takes ASCII for what it is.

## Main definitions

* `UrlQuery.query`: the query of the text of a URL.
* `UrlQuery.Decoder`, `UrlQuery.Decoder.parameters`: a receiver, and the parameters it reads.
* `UrlQuery.Plain`: the texts that can be written in a query as they are.

## Main results

* `UrlQuery.Decoder.parameters_field_iff`, `UrlQuery.Decoder.parameters_last_iff`: a parameter that
  is written as it is arrives exactly when it is plain.
-/

namespace UrlQuery

open PercentEncoding (hexDigit toNat_hexDigit)

/-! ### Parsing a URL -/

/-- A URL parser removes these at both ends. -/
def isControlOrSpace (c : Char) : Bool := c.toNat ≤ 0x20

/-- It removes these everywhere. -/
def isTabOrNewline (c : Char) : Bool := c = '\t' ∨ c = '\n' ∨ c = '\r'

/-- What a URL parser reads. -/
def clean (url : List Char) : List Char :=
  ((url.dropWhile isControlOrSpace).rdropWhile isControlOrSpace).filter fun c => !isTabOrNewline c

/-- The characters that stay as they are in a query. -/
def keeps (c : Char) : Bool :=
  0x21 ≤ c.toNat && c.toNat ≤ 0x7e && !"\"#<>'".toList.contains c

/-- A byte as `%` and two digits. -/
def percentByte (b : UInt8) : List Char :=
  ['%', hexDigit (b.toNat / 16), hexDigit (b.toNat % 16)]

/-- A character of a query as it is sent, by the bytes of its UTF-8 if it does not stay as it is. -/
def encodeChar (c : Char) : List Char :=
  if keeps c then [c] else (String.utf8EncodeChar c).flatMap percentByte

/-- The query is what stands between the first `?` and the fragment. -/
def query (url : List Char) : Option (List Char) :=
  match ((clean url).takeWhile (· != '#')).dropWhile (· != '?') with
  | [] => none
  | _ :: q => some (q.flatMap encodeChar)

/-! ### Reading a form -/

/-- The value of a digit of base 16, in either case. -/
def hexValue (c : Char) : Option ℕ :=
  if 0x30 ≤ c.toNat ∧ c.toNat ≤ 0x39 then some (c.toNat - 0x30)
  else if 0x61 ≤ c.toNat ∧ c.toNat ≤ 0x66 then some (c.toNat - 0x57)
  else if 0x41 ≤ c.toNat ∧ c.toNat ≤ 0x46 then some (c.toNat - 0x37)
  else none

/-- The byte of two digits. -/
def byteOf (a b : Char) : Option UInt8 :=
  match hexValue a, hexValue b with
  | some x, some y => some (UInt8.ofNat (16 * x + y))
  | _, _ => none

/-- `%` stands for itself when no two digits follow. -/
def percentDecode : List Char → List UInt8
  | '%' :: a :: b :: rest =>
    match byteOf a b with
    | some byte => byte :: percentDecode rest
    | none => 0x25 :: percentDecode (a :: b :: rest)
  | c :: rest => String.utf8EncodeChar c ++ percentDecode rest
  | [] => []

/-- The characters that UTF-8 writes as one byte. -/
def isAscii (c : Char) : Bool := c.toNat < 0x80

/-- How a receiver decodes UTF-8: text as what it is, and each byte of ASCII as its character, in
malformed text too. -/
structure Decoder where
  decode : List UInt8 → Option String
  decode_encode : ∀ s, decode (Utf8.encode s) = some s
  countP_isAscii : ∀ bs s, decode bs = some s →
    s.toList.countP isAscii = bs.countP fun b => decide (b < 0x80)

/-- A plus sign of a form stands for a space. -/
def plusToSpace (c : Char) : Char := if c = '+' then ' ' else c

namespace Decoder

variable (d : Decoder)

/-- The text of a name or a value: plus signs first, then escapes, then UTF-8. -/
def text (s : List Char) : Option String := d.decode (percentDecode (s.map plusToSpace))

/-- The name and the value of a parameter. -/
def pair (piece : List Char) : Option (String × String) := do
  let name ← d.text (piece.takeWhile (· != '='))
  let value ← d.text ((piece.dropWhile (· != '=')).drop 1)
  return (name, value)

/-- The parameters of a form. -/
def parameters (q : List Char) : Option (List (String × String)) :=
  ((q.splitOn '&').filter (· ≠ [])).mapM d.pair

end Decoder

/-! ### What can be written as it is -/

/-- The byte of the two digits in front. -/
def byteAt : List Char → Option UInt8
  | a :: b :: _ => byteOf a b
  | _ => none

/-- Somewhere `%` is followed by two digits. -/
def hasCode : List Char → Bool
  | [] => false
  | c :: rest => (c = '%' && (byteAt rest).isSome) || hasCode rest

/-- The text has none of the characters with a meaning in a query and no percent code. -/
def Plain (v : List Char) : Prop := (∀ c ∈ v, c ∉ "&#+\t\n\r".toList) ∧ hasCode v = false

instance : DecidablePred Plain := fun v =>
  decidable_of_iff ((v.all fun c => decide (c ∉ "&#+\t\n\r".toList)) = true ∧ hasCode v = false)
    (and_congr_left' List.all_iff_forall_prop)

/-! ### Percent codes -/

theorem hexValue_hexDigit {n : ℕ} (h : n < 16) : hexValue (hexDigit n) = some n := by
  interval_cases n <;> rfl

theorem percentDecode_percentByte (b : UInt8) (rest : List Char) :
    percentDecode (percentByte b ++ rest) = b :: percentDecode rest := by
  have hb := b.toNat_lt
  have hbyte : byteOf (hexDigit (b.toNat / 16)) (hexDigit (b.toNat % 16)) = some b := by
    rw [byteOf, hexValue_hexDigit (by omega), hexValue_hexDigit (by omega)]
    simp only [Nat.div_add_mod, UInt8.ofNat_toNat]
  simp only [percentByte, List.cons_append, List.nil_append, percentDecode, hbyte]

theorem percentDecode_flatMap_percentByte (bs : List UInt8) (rest : List Char) :
    percentDecode (bs.flatMap percentByte ++ rest) = bs ++ percentDecode rest := by
  induction bs with
  | nil => rfl
  | cons b bs ih =>
    rw [List.flatMap_cons, List.append_assoc, percentDecode_percentByte, ih, List.cons_append]

theorem percentDecode_cons_of_ne {c : Char} (h : c ≠ '%') (rest : List Char) :
    percentDecode (c :: rest) = String.utf8EncodeChar c ++ percentDecode rest := by
  rw [percentDecode]
  exact fun _ _ _ hc _ => h hc

/-- A `%` is read by what follows it. -/
theorem percentDecode_percent (rest : List Char) :
    percentDecode ('%' :: rest) =
      match byteAt rest with
      | some b => b :: percentDecode (rest.drop 2)
      | none => 0x25 :: percentDecode rest := by
  match rest with
  | [] => rfl
  | [_] => rfl
  | a :: b :: rest =>
    rw [percentDecode, byteAt]
    cases byteOf a b <;> rfl

/-! ### What a receiver is sent -/

/-- The text as the receiver decodes it. -/
def sent (u : List Char) : List Char := (u.flatMap encodeChar).map plusToSpace

theorem sent_cons (c : Char) (u : List Char) :
    sent (c :: u) = (encodeChar c).map plusToSpace ++ sent u := by
  rw [sent, List.flatMap_cons, List.map_append, sent]

theorem hexDigit_ne_plus {n : ℕ} (h : n < 16) : hexDigit n ≠ '+' := by
  interval_cases n <;> decide

theorem map_plusToSpace_percentByte (b : UInt8) :
    (percentByte b).map plusToSpace = percentByte b := by
  have hb := b.toNat_lt
  have hhigh : plusToSpace (hexDigit (b.toNat / 16)) = hexDigit (b.toNat / 16) :=
    if_neg (hexDigit_ne_plus (by omega))
  have hlow : plusToSpace (hexDigit (b.toNat % 16)) = hexDigit (b.toNat % 16) :=
    if_neg (hexDigit_ne_plus (by omega))
  simp only [percentByte, List.map_cons, List.map_nil, hhigh, hlow]
  rfl

/-- What is encoded has no plus. -/
theorem map_plusToSpace_encodeChar (c : Char) :
    (encodeChar c).map plusToSpace =
      if keeps c then [plusToSpace c] else (String.utf8EncodeChar c).flatMap percentByte := by
  rw [encodeChar]
  split_ifs
  · rfl
  · rw [List.map_flatMap]
    exact List.flatMap_congr fun b _ => map_plusToSpace_percentByte b

theorem percentDecode_sent_cons {c : Char} (h : c ≠ '%') (u : List Char) :
    percentDecode (sent (c :: u)) =
      String.utf8EncodeChar (plusToSpace c) ++ percentDecode (sent u) := by
  have hplus : plusToSpace c ≠ '%' := by
    rw [plusToSpace]
    split_ifs
    · decide
    · exact h
  rw [sent_cons, map_plusToSpace_encodeChar]
  split_ifs with hkeeps
  · exact percentDecode_cons_of_ne hplus _
  · have hc : plusToSpace c = c := if_neg fun hc => hkeeps (by rw [hc]; decide)
    rw [percentDecode_flatMap_percentByte, hc]

theorem keeps_of_hexValue {c : Char} (h : hexValue c ≠ none) : keeps c = true := by
  have hrange : 0x30 ≤ c.toNat ∧ c.toNat ≤ 0x39 ∨ 0x61 ≤ c.toNat ∧ c.toNat ≤ 0x66 ∨
      0x41 ≤ c.toNat ∧ c.toNat ≤ 0x46 := by
    rw [hexValue] at h
    split_ifs at h with hdigit hlower hupper
    · exact .inl hdigit
    · exact .inr (.inl hlower)
    · exact .inr (.inr hupper)
    · exact absurd rfl h
  have hmarks : ∀ m ∈ "\"#<>'".toList, c ≠ m := by
    intro m hm hc
    subst hc
    have hall : ∀ m ∈ "\"#<>'".toList, hexValue m = none :=
      List.all_iff_forall_prop.mp (by decide)
    exact h (hall c hm)
  have hmem : c ∉ "\"#<>'".toList := fun hm => hmarks c hm rfl
  simp only [keeps, Bool.and_eq_true, decide_eq_true_eq, Bool.not_eq_true']
  exact ⟨⟨by omega, by omega⟩, by simpa using hmem⟩

/-- What is sent for a character begins with a digit only if the character is one, which is then
sent as it is. -/
theorem encodeChar_front (c : Char) :
    ∃ h t, (encodeChar c).map plusToSpace = h :: t ∧ hexValue h = hexValue c ∧
      (hexValue c ≠ none → t = []) := by
  rw [map_plusToSpace_encodeChar]
  split_ifs with hkeeps
  · refine ⟨_, [], rfl, ?_, fun _ => rfl⟩
    rw [plusToSpace]
    split_ifs with hc
    · rw [hc]
      rfl
    · rfl
  · have hnone : hexValue c = none := by
      by_contra h
      exact hkeeps (keeps_of_hexValue h)
    obtain ⟨b, bs, hbs⟩ := List.exists_cons_of_ne_nil (String.utf8EncodeChar_ne_nil (c := c))
    rw [hbs]
    exact ⟨'%', _, rfl, hnone.symm, fun h => absurd hnone h⟩

theorem byteOf_of_hexValue_eq {a b a' b' : Char} (ha : hexValue a = hexValue a')
    (hb : hexValue b = hexValue b') : byteOf a b = byteOf a' b' := by
  rw [byteOf, byteOf, ha, hb]

theorem byteOf_eq_none_of_left {a b : Char} (h : hexValue a = none) : byteOf a b = none := by
  rw [byteOf, h]

theorem byteAt_cons_of_none {a : Char} (h : hexValue a = none) (u : List Char) :
    byteAt (a :: u) = none := by
  cases u with
  | nil => rfl
  | cons b u => exact byteOf_eq_none_of_left h

/-- Encoding makes no code out of a `%`, and breaks none. -/
theorem byteAt_sent (u : List Char) : byteAt (sent u) = byteAt u := by
  cases u with
  | nil => rfl
  | cons a u =>
    obtain ⟨h, t, hsent, hhex, hsingle⟩ := encodeChar_front a
    rw [sent_cons, hsent, List.cons_append]
    by_cases ha : hexValue a = none
    · rw [byteAt_cons_of_none (hhex.trans ha), byteAt_cons_of_none ha]
    · rw [hsingle ha, List.nil_append]
      cases u with
      | nil => rfl
      | cons b u =>
        obtain ⟨h', t', hsent', hhex', -⟩ := encodeChar_front b
        rw [sent_cons, hsent', List.cons_append, byteAt, byteAt]
        exact byteOf_of_hexValue_eq hhex hhex'

theorem drop_two_sent {u : List Char} (h : byteAt u ≠ none) :
    (sent u).drop 2 = sent (u.drop 2) := by
  match u with
  | [] => exact absurd rfl h
  | [_] => exact absurd rfl h
  | a :: b :: u =>
    have ha : hexValue a ≠ none := fun ha => h (byteAt_cons_of_none ha _)
    have hb : hexValue b ≠ none := by
      intro hb
      apply h
      rw [byteAt, byteOf, hb]
      cases hexValue a <;> rfl
    obtain ⟨x, t, hsent, -, hsingle⟩ := encodeChar_front a
    obtain ⟨y, t', hsent', -, hsingle'⟩ := encodeChar_front b
    rw [sent_cons, sent_cons, hsent, hsent', hsingle ha, hsingle' hb]
    rfl

/-- A `%` is sent as it is. -/
theorem percentDecode_sent_percent (u : List Char) :
    percentDecode (sent ('%' :: u)) =
      match byteAt u with
      | some b => b :: percentDecode (sent (u.drop 2))
      | none => 0x25 :: percentDecode (sent u) := by
  have hsent : sent ('%' :: u) = '%' :: sent u := by
    rw [sent_cons]
    rfl
  rw [hsent, percentDecode_percent, byteAt_sent]
  cases hbyte : byteAt u with
  | none => rfl
  | some b => rw [drop_two_sent (by rw [hbyte]; exact Option.some_ne_none b)]

/-- Without a percent code the receiver gets the text itself, but for the pluses. -/
theorem percentDecode_sent {u : List Char} (h : hasCode u = false) :
    percentDecode (sent u) = (u.map plusToSpace).flatMap String.utf8EncodeChar := by
  induction u with
  | nil => rfl
  | cons c u ih =>
    rw [hasCode, Bool.or_eq_false_iff] at h
    rw [List.map_cons, List.flatMap_cons, ← ih h.2]
    by_cases hc : c = '%'
    · subst hc
      have hbyte : byteAt u = none := by simpa using h.1
      rw [percentDecode_sent_percent, hbyte]
      rfl
    · exact percentDecode_sent_cons hc u

/-! ### Counting ASCII -/

theorem ofNat_lt_iff (n : ℕ) : UInt8.ofNat n < 0x80 ↔ n % 256 < 128 := by
  rw [UInt8.lt_iff_toNat_lt, UInt8.toNat_ofNat']
  rfl

theorem countP_utf8EncodeChar (c : Char) :
    (String.utf8EncodeChar c).countP (fun b => decide (b < 0x80)) = if isAscii c then 1 else 0 := by
  have hc : c.val.toNat = c.toNat := rfl
  have hvalid : c.toNat < 0x110000 := by
    have := c.valid
    rcases this with h | h
    · omega
    · exact h.2
  rw [String.utf8EncodeChar, isAscii]
  simp only [hc]
  split_ifs with h1 h2 h2 h3 h3 h4 h4 <;>
    simp only [List.countP_cons, List.countP_nil, ofNat_lt_iff, decide_eq_true_eq] at * <;>
    split_ifs <;> omega

theorem isAscii_of_hexValue {c : Char} (h : hexValue c ≠ none) : isAscii c = true := by
  have hkeeps := keeps_of_hexValue h
  simp only [keeps, Bool.and_eq_true, decide_eq_true_eq] at hkeeps
  exact decide_eq_true (by omega)

/-- Two digits are two characters of ASCII. -/
theorem countP_of_byteAt {u : List Char} (h : byteAt u ≠ none) :
    u.countP isAscii = (u.drop 2).countP isAscii + 2 := by
  match u with
  | [] => exact absurd rfl h
  | [_] => exact absurd rfl h
  | a :: b :: u =>
    have ha : hexValue a ≠ none := fun ha => h (byteAt_cons_of_none ha _)
    have hb : hexValue b ≠ none := by
      intro hb
      apply h
      rw [byteAt, byteOf, hb]
      cases hexValue a <;> rfl
    rw [List.countP_cons_of_pos (isAscii_of_hexValue ha),
      List.countP_cons_of_pos (isAscii_of_hexValue hb)]
    rfl

/-- A percent code makes one character of ASCII out of three, or none. -/
theorem countP_percentDecode_sent (u : List Char) :
    (percentDecode (sent u)).countP (fun b => decide (b < 0x80)) + (if hasCode u then 1 else 0) ≤
      u.countP isAscii := by
  induction hn : u.length using Nat.strong_induction_on generalizing u with
  | _ n ih =>
    cases u with
    | nil => exact le_refl _
    | cons c u =>
      subst hn
      have hrest := ih u.length (Nat.lt_succ_self _) u rfl
      by_cases hc : c = '%'
      · subst hc
        rw [percentDecode_sent_percent, List.countP_cons_of_pos (by decide), hasCode]
        cases hbyte : byteAt u with
        | none =>
          rw [List.countP_cons_of_pos (by decide)]
          simp only [Option.isSome_none, Bool.and_false, Bool.false_or]
          omega
        | some b =>
          have hdrop := ih (u.drop 2).length (by rw [List.length_drop, List.length_cons]; omega)
            (u.drop 2) rfl
          have hcount := countP_of_byteAt (u := u) (by rw [hbyte]; exact Option.some_ne_none b)
          simp only [List.countP_cons]
          split_ifs <;> omega
      · have hplus : isAscii (plusToSpace c) = isAscii c := by
          rw [plusToSpace]
          split_ifs with h
          · rw [h]
            rfl
          · rfl
        have hcode : hasCode (c :: u) = hasCode u := by simp [hasCode, hc]
        rw [percentDecode_sent_cons hc, List.countP_append, countP_utf8EncodeChar, hplus, hcode,
          List.countP_cons]
        omega

/-! ### Values -/

namespace Decoder

variable (d : Decoder)

theorem text_flatMap_encodeChar {u : List Char} (h : hasCode u = false) :
    d.text (u.flatMap encodeChar) = some (String.ofList (u.map plusToSpace)) := by
  have hbytes : percentDecode ((u.flatMap encodeChar).map plusToSpace) =
      Utf8.encode (String.ofList (u.map plusToSpace)) := by
    rw [← sent, percentDecode_sent h, Utf8.encode, String.toList_ofList]
  rw [text, hbytes, d.decode_encode]

/-- If a text arrives when at most some of it was sent, then it was sent whole and without codes and
pluses. -/
theorem of_text_eq_some {u v : List Char} (hsub : u.Sublist v)
    (h : d.text (u.flatMap encodeChar) = some (String.ofList v)) :
    u = v ∧ hasCode v = false ∧ '+' ∉ v := by
  have hcount := d.countP_isAscii _ _ h
  rw [String.toList_ofList, ← sent] at hcount
  have hcode : hasCode u = false := by
    have hsent := countP_percentDecode_sent u
    have hle := hsub.countP_le (p := isAscii)
    by_contra hne
    rw [if_pos (by simpa using hne)] at hsent
    omega
  rw [d.text_flatMap_encodeChar hcode, Option.some_inj] at h
  have hmap : u.map plusToSpace = v := String.ofList_injective h
  have hu : u = v := hsub.eq_of_length (by rw [← hmap, List.length_map])
  refine ⟨hu, hu ▸ hcode, fun hmem => ?_⟩
  rw [hu] at hmap
  rw [← hmap, List.mem_map] at hmem
  obtain ⟨c, -, hc⟩ := hmem
  rw [plusToSpace] at hc
  split_ifs at hc with hplus
  · exact absurd hc (by decide)
  · exact hplus hc

theorem text_eq_some_self {v : List Char} (hcode : hasCode v = false) (hplus : '+' ∉ v) :
    d.text (v.flatMap encodeChar) = some (String.ofList v) := by
  have hmap : v.map plusToSpace = v.map id :=
    List.map_congr_left fun c hc => if_neg fun (h : c = '+') => hplus (h ▸ hc)
  rw [d.text_flatMap_encodeChar hcode, hmap, List.map_id]

end Decoder

/-! ### Separators -/

/-- A character that separates, which is written as it is and is in no code. -/
structure Separator (m : Char) : Prop where
  keeps : keeps m = true
  ne_percent : m ≠ '%'
  hexValue : hexValue m = none

theorem separator_ampersand : Separator '&' := ⟨by decide, by decide, by decide⟩

theorem separator_equals : Separator '=' := ⟨by decide, by decide, by decide⟩

section Separator

variable {m : Char} (hm : Separator m)
include hm

theorem Separator.encodeChar_self : encodeChar m = [m] := if_pos hm.keeps

theorem Separator.mem_encodeChar_iff {c : Char} : m ∈ encodeChar c ↔ m = c := by
  rw [encodeChar]
  split_ifs with hkeeps
  · exact List.mem_singleton
  · refine ⟨fun hmem => ?_, fun h => absurd (h ▸ hm.keeps) hkeeps⟩
    obtain ⟨b, -, hb⟩ := List.mem_flatMap.mp hmem
    have hb' := b.toNat_lt
    have hdigit : ∀ n < 16, m ≠ hexDigit n := fun n hn h => by
      have hvalue := hm.hexValue
      rw [h, hexValue_hexDigit hn] at hvalue
      cases hvalue
    simp only [percentByte, List.mem_cons, List.not_mem_nil, or_false] at hb
    rcases hb with h | h | h
    · exact absurd h hm.ne_percent
    · exact absurd h (hdigit _ (by omega))
    · exact absurd h (hdigit _ (by omega))

theorem Separator.bne_of_mem {c x : Char} (hc : (c != m) = true) (hx : x ∈ encodeChar c) :
    (x != m) = true := by
  rw [bne_iff_ne] at hc ⊢
  exact fun h => hc (hm.mem_encodeChar_iff.mp (h ▸ hx)).symm

/-- Encoding does not move separators. -/
theorem Separator.takeWhile_flatMap (u : List Char) :
    (u.flatMap encodeChar).takeWhile (· != m) = (u.takeWhile (· != m)).flatMap encodeChar := by
  induction u with
  | nil => rfl
  | cons c u ih =>
    by_cases hc : (c != m) = true
    · rw [List.flatMap_cons, List.takeWhile_append_of_pos fun x hx => hm.bne_of_mem hc hx, ih,
        List.takeWhile_cons_of_pos (p := (· != m)) hc, List.flatMap_cons]
    · obtain rfl : c = m := by simpa using hc
      rw [List.flatMap_cons, hm.encodeChar_self, List.singleton_append,
        List.takeWhile_cons_of_neg (p := (· != c)) hc,
        List.takeWhile_cons_of_neg (p := (· != c)) hc, List.flatMap_nil]

theorem Separator.dropWhile_flatMap (u : List Char) :
    (u.flatMap encodeChar).dropWhile (· != m) = (u.dropWhile (· != m)).flatMap encodeChar := by
  induction u with
  | nil => rfl
  | cons c u ih =>
    by_cases hc : (c != m) = true
    · rw [List.flatMap_cons, List.dropWhile_append_of_pos fun x hx => hm.bne_of_mem hc hx, ih,
        List.dropWhile_cons_of_pos (p := (· != m)) hc]
    · obtain rfl : c = m := by simpa using hc
      rw [List.flatMap_cons, hm.encodeChar_self, List.singleton_append,
        List.dropWhile_cons_of_neg (p := (· != c)) hc,
        List.dropWhile_cons_of_neg (p := (· != c)) hc, List.flatMap_cons, hm.encodeChar_self,
        List.singleton_append]

theorem Separator.notMem_flatMap {u : List Char} (hu : m ∉ u) : m ∉ u.flatMap encodeChar := by
  intro hmem
  obtain ⟨c, hc, hmc⟩ := List.mem_flatMap.mp hmem
  exact hu (hm.mem_encodeChar_iff.mp hmc ▸ hc)

end Separator

theorem encodeChar_ne_nil (c : Char) : encodeChar c ≠ [] := by
  obtain ⟨h, t, hmap, -⟩ := encodeChar_front c
  intro hnil
  rw [hnil] at hmap
  cases hmap

theorem flatMap_encodeChar_ne_nil {u : List Char} (h : u ≠ []) : u.flatMap encodeChar ≠ [] := by
  obtain ⟨c, u, rfl⟩ := List.exists_cons_of_ne_nil h
  rw [List.flatMap_cons]
  exact List.append_ne_nil_of_left_ne_nil (encodeChar_ne_nil c) _

/-! ### Parameters -/

/-- The name of a parameter, which is written as it is. -/
structure Name (name : List Char) : Prop where
  ne_nil : name ≠ []
  keeps : ∀ c ∈ name, c ∉ "&=#+\t\n\r".toList
  hasCode : hasCode name = false

namespace Decoder

variable (d : Decoder)

theorem parameters_of_notMem {u : List Char} (hu : u ≠ []) (hamp : '&' ∉ u) :
    d.parameters (u.flatMap encodeChar) = (d.pair (u.flatMap encodeChar)).map fun p => [p] := by
  rw [parameters, List.splitOn_eq_singleton (separator_ampersand.notMem_flatMap hamp),
    List.filter_cons_of_pos (by simpa using flatMap_encodeChar_ne_nil hu), List.filter_nil,
    List.mapM_cons]
  cases d.pair (u.flatMap encodeChar) <;> rfl

theorem parameters_append {u : List Char} (hu : u ≠ []) (hamp : '&' ∉ u) (rest : List Char) :
    d.parameters ((u ++ '&' :: rest).flatMap encodeChar) =
      (d.pair (u.flatMap encodeChar)).bind fun p =>
        (d.parameters (rest.flatMap encodeChar)).map fun ps => p :: ps := by
  rw [parameters, List.flatMap_append, List.flatMap_cons, separator_ampersand.encodeChar_self,
    List.singleton_append,
    List.splitOn_append_cons_self_of_not_mem (separator_ampersand.notMem_flatMap hamp),
    List.filter_cons_of_pos (by simpa using flatMap_encodeChar_ne_nil hu), List.mapM_cons,
    ← parameters]
  cases d.pair (u.flatMap encodeChar) with
  | none => rfl
  | some p => cases d.parameters (rest.flatMap encodeChar) <;> rfl

theorem pair_flatMap {name : List Char} (hname : Name name) (x : List Char) :
    d.pair ((name ++ '=' :: x).flatMap encodeChar) =
      (d.text (x.flatMap encodeChar)).map fun value => (String.ofList name, value) := by
  have hne : ∀ c ∈ name, (c != '=') = true := fun c hc => by
    rw [bne_iff_ne]
    rintro rfl
    exact hname.keeps _ hc (by decide)
  have hplus : '+' ∉ name := fun h => hname.keeps _ h (by decide)
  rw [pair, separator_equals.takeWhile_flatMap, separator_equals.dropWhile_flatMap,
    List.takeWhile_append_of_pos hne, List.takeWhile_cons_of_neg (by decide), List.append_nil,
    List.dropWhile_append_of_pos hne, List.dropWhile_cons_of_neg (by decide), List.flatMap_cons,
    separator_equals.encodeChar_self, List.singleton_append, List.drop_one, List.tail_cons,
    d.text_eq_some_self hname.hasCode hplus]
  cases d.text (x.flatMap encodeChar) <;> rfl

/-- The first parameter ends at the first separator. -/
theorem text_of_parameters {name x : List Char} (hname : Name name) {n v : String}
    {ps : List (String × String)}
    (h : d.parameters ((name ++ '=' :: x).flatMap encodeChar) = some ((n, v) :: ps)) :
    d.text ((x.takeWhile (· != '&')).flatMap encodeChar) = some v := by
  have hamp : '&' ∉ name := fun hmem => hname.keeps _ hmem (by decide)
  have hne : name ≠ [] := hname.ne_nil
  have hfirst : '&' ∉ name ++ '=' :: x.takeWhile (· != '&') := by
    rw [List.mem_append, List.mem_cons]
    rintro (hmem | hmem | hmem)
    · exact hamp hmem
    · exact absurd hmem (by decide)
    · exact absurd (List.mem_takeWhile_imp hmem) (by decide)
  have hfirst' : name ++ '=' :: x.takeWhile (· != '&') ≠ [] :=
    List.append_ne_nil_of_left_ne_nil hne _
  have hsplit := List.takeWhile_append_dropWhile (p := (· != '&')) (l := x)
  cases hrest : x.dropWhile (· != '&') with
  | nil =>
    rw [hrest, List.append_nil] at hsplit
    rw [← hsplit, d.parameters_of_notMem hfirst' hfirst, d.pair_flatMap hname] at h
    cases htext : d.text ((x.takeWhile (· != '&')).flatMap encodeChar) with
    | none =>
      rw [htext] at h
      cases h
    | some value =>
      rw [htext] at h
      cases h
      rfl
  | cons c rest =>
    have hc : c = '&' := by
      have hhead := List.head_dropWhile_not (· != '&') (l := x)
        (by rw [hrest]; exact List.cons_ne_nil _ _)
      simpa [hrest] using hhead
    subst hc
    rw [hrest] at hsplit
    rw [← hsplit, ← List.cons_append, ← List.append_assoc, d.parameters_append hfirst' hfirst,
      d.pair_flatMap hname] at h
    cases htext : d.text ((x.takeWhile (· != '&')).flatMap encodeChar) with
    | none =>
      rw [htext] at h
      cases h
    | some value =>
      rw [htext] at h
      cases hps : d.parameters (rest.flatMap encodeChar) with
      | none =>
        rw [hps] at h
        cases h
      | some ps =>
        rw [hps] at h
        cases h
        rfl

end Decoder

/-- Of the bytes of a text those of its ASCII characters are small. -/
theorem countP_isAscii_of_decode (bs : List UInt8) (s : String) (h : Utf8.decode bs = some s) :
    s.toList.countP isAscii = bs.countP fun b => decide (b < 0x80) := by
  rw [← Utf8.decode_eq_some_iff.mp h, Utf8.encode]
  induction s.toList with
  | nil => rfl
  | cons c l ih =>
    rw [List.flatMap_cons, List.countP_append, countP_utf8EncodeChar, List.countP_cons, ih]
    omega

/-- The decoder that rejects malformed text. -/
def Decoder.strict : Decoder where
  decode := Utf8.decode
  decode_encode := Utf8.decode_encode
  countP_isAscii := countP_isAscii_of_decode

/-! ### Values in a URL -/

/-- What a URL parser keeps of the rest of a query. -/
def kept (s : List Char) : List Char := (s.filter fun c => !isTabOrNewline c).takeWhile (· != '#')

theorem kept_sublist (s : List Char) : (kept s).Sublist s :=
  (List.takeWhile_sublist _).trans List.filter_sublist

theorem Plain.kept_append {v : List Char} (h : Plain v) (rest : List Char) :
    kept (v ++ rest) = v ++ kept rest := by
  have hfilter : v.filter (fun c => !isTabOrNewline c) = v := by
    refine List.filter_eq_self.mpr fun c hc => ?_
    have hmem := h.1 c hc
    simp only [isTabOrNewline, Bool.not_eq_true', decide_eq_false_iff_not]
    rintro (rfl | rfl | rfl) <;> exact hmem (by decide)
  rw [kept, List.filter_append, hfilter, List.takeWhile_append_of_pos, ← kept]
  intro c hc
  rw [bne_iff_ne]
  rintro rfl
  exact h.1 _ hc (by decide)

theorem kept_cons {c : Char} (hc : isTabOrNewline c = false) (hhash : c ≠ '#') (rest : List Char) :
    kept (c :: rest) = c :: kept rest := by
  rw [kept, List.filter_cons_of_pos (by rw [hc]; rfl),
    List.takeWhile_cons_of_pos (p := (· != '#')) (bne_iff_ne.mpr hhash), ← kept]

theorem Plain.kept_eq {v : List Char} (h : Plain v) : kept v = v := by
  have hself := h.kept_append []
  rwa [List.append_nil, show kept [] = [] from rfl, List.append_nil] at hself

theorem Plain.ampersand_notMem {v : List Char} (h : Plain v) : '&' ∉ v :=
  fun hmem => h.1 _ hmem (by decide)

theorem rdropWhile_append_of_exists {p : Char → Bool} (s : List Char) {t : List Char}
    (h : ∃ c ∈ t, p c = false) : (s ++ t).rdropWhile p = s ++ t.rdropWhile p := by
  induction t using List.reverseRecOn with
  | nil => simp at h
  | append_singleton t c ih =>
    rw [← List.append_assoc, List.rdropWhile_concat, List.rdropWhile_concat]
    split_ifs with hc
    · refine ih ?_
      obtain ⟨x, hx, hpx⟩ := h
      rcases List.mem_append.mp hx with hmem | hmem
      · exact ⟨x, hmem, hpx⟩
      · rw [List.mem_singleton.mp hmem, hc] at hpx
        cases hpx
    · exact List.append_assoc _ _ _

/-- The part of a URL before its query. -/
structure Base (base : List Char) : Prop where
  head : ∃ c ∈ base.head?, isControlOrSpace c = false
  keeps : ∀ c ∈ base, c ∉ "?#\t\n\r".toList

/-- A URL loses the end of its query, and what a URL parser does not keep. -/
theorem query_append {base : List Char} (h : Base base) (q : List Char) :
    query (base ++ '?' :: q) =
      some ((kept (q.rdropWhile isControlOrSpace)).flatMap encodeChar) := by
  obtain ⟨c, hc, hhead⟩ := h.head
  obtain ⟨t, rfl⟩ : ∃ t, base = c :: t := List.head?_eq_some_iff.mp hc
  have hfilter : (c :: t).filter (fun c => !isTabOrNewline c) = c :: t := by
    refine List.filter_eq_self.mpr fun x hx => ?_
    have hmem := h.keeps x hx
    simp only [isTabOrNewline, Bool.not_eq_true', decide_eq_false_iff_not]
    rintro (rfl | rfl | rfl) <;> exact hmem (by decide)
  have hne : ∀ m ∈ "?#\t\n\r".toList, ∀ x ∈ c :: t, (x != m) = true := by
    intro m hm x hx
    rw [bne_iff_ne]
    rintro rfl
    exact h.keeps _ hx hm
  have hstrip : (c :: t ++ '?' :: q).rdropWhile isControlOrSpace =
      c :: t ++ '?' :: q.rdropWhile isControlOrSpace := by
    have hcons : ('?' :: q).rdropWhile isControlOrSpace = '?' :: q.rdropWhile isControlOrSpace := by
      induction q using List.reverseRecOn with
      | nil => decide
      | append_singleton q x ih =>
        rw [← List.cons_append, List.rdropWhile_concat, List.rdropWhile_concat]
        split_ifs
        · exact ih
        · rfl
    rw [rdropWhile_append_of_exists _ ⟨'?', List.mem_cons_self, by decide⟩, hcons]
  have hclean : (clean (c :: t ++ '?' :: q)).takeWhile (· != '#') =
      c :: t ++ '?' :: kept (q.rdropWhile isControlOrSpace) := by
    rw [clean, List.cons_append, List.dropWhile_cons_of_neg (by simpa using hhead),
      ← List.cons_append, hstrip, List.filter_append, hfilter,
      List.takeWhile_append_of_pos (hne '#' (by decide)), ← kept, kept_cons (by decide) (by decide)]
  rw [query, hclean, List.dropWhile_append_of_pos (hne '?' (by decide)),
    List.dropWhile_cons_of_neg (by decide)]

/-- Nothing after a separator matters to the value before it. -/
theorem takeWhile_kept_append (v rest : List Char) :
    (kept (v ++ '&' :: rest)).takeWhile (· != '&') = (kept v).takeWhile (· != '&') := by
  rw [kept, kept, List.takeWhile_takeWhile, List.takeWhile_takeWhile, List.filter_append,
    List.filter_cons_of_pos (by decide), List.takeWhile_append]
  split_ifs with hlength
  · have hself := (List.takeWhile_sublist _).eq_of_length hlength
    rw [List.takeWhile_cons_of_neg (by decide), List.append_nil, hself]
  · rfl

/-- A value that is kept whole is plain, if it has no code and no plus. -/
theorem plain_of_takeWhile_kept {v : List Char} (h : (kept v).takeWhile (· != '&') = v)
    (hcode : hasCode v = false) (hplus : '+' ∉ v) : Plain v := by
  refine ⟨fun c hc hmark => ?_, hcode⟩
  have htake : c ∈ (kept v).takeWhile (· != '&') := h.symm ▸ hc
  have hamp := List.mem_takeWhile_imp htake
  have hkept := (List.takeWhile_sublist _).subset htake
  have hhash := List.mem_takeWhile_imp hkept
  have htab := (List.mem_filter.mp ((List.takeWhile_sublist _).subset hkept)).2
  have hmarks : ∀ c ∈ "&#+\t\n\r".toList, (c != '&') = true → (c != '#') = true →
      (!isTabOrNewline c) = true → c = '+' := List.all_iff_forall_prop.mp (by decide)
  exact hplus (hmarks c hmark hamp hhash htab ▸ hc)

namespace Decoder

variable (d : Decoder) {name : List Char}

/-- A parameter written as it is, with more to follow, arrives exactly when its value is plain. -/
theorem parameters_field_iff (hname : Name name) (v rest : List Char)
    (ps : List (String × String)) :
    d.parameters ((name ++ '=' :: kept (v ++ '&' :: rest)).flatMap encodeChar) =
        some ((String.ofList name, String.ofList v) :: ps) ↔
      Plain v ∧ d.parameters ((kept rest).flatMap encodeChar) = some ps := by
  have hne : ∀ x, name ++ '=' :: x ≠ [] := fun x => List.append_ne_nil_of_left_ne_nil hname.ne_nil _
  have hfirst : Plain v →
      d.parameters ((name ++ '=' :: kept (v ++ '&' :: rest)).flatMap encodeChar) =
      (d.parameters ((kept rest).flatMap encodeChar)).map
        fun ps => (String.ofList name, String.ofList v) :: ps := by
    intro hv
    have hamp : '&' ∉ name ++ '=' :: v := by
      rw [List.mem_append, List.mem_cons]
      rintro (hmem | hmem | hmem)
      · exact hname.keeps _ hmem (by decide)
      · exact absurd hmem (by decide)
      · exact hv.ampersand_notMem hmem
    rw [hv.kept_append, kept_cons (by decide) (by decide), ← List.cons_append, ← List.append_assoc,
      d.parameters_append (hne _) hamp, d.pair_flatMap hname,
      d.text_eq_some_self hv.2 fun hmem => hv.1 _ hmem (by decide)]
    rfl
  constructor
  · intro h
    have htext := d.text_of_parameters hname h
    rw [takeWhile_kept_append] at htext
    have hsub := (List.takeWhile_sublist (· != '&')).trans (kept_sublist v)
    obtain ⟨hself, hcode, hplus⟩ := d.of_text_eq_some hsub htext
    have hv := plain_of_takeWhile_kept hself hcode hplus
    rw [hfirst hv, Option.map_eq_some_iff] at h
    obtain ⟨ps', hps', heq⟩ := h
    exact ⟨hv, hps'.trans (congrArg some (List.cons.inj heq).2)⟩
  · rintro ⟨hv, hps⟩
    rw [hfirst hv, hps, Option.map_some]

/-- The last parameter, of whose value an end may be lost, arrives exactly when nothing was lost and
its value is plain. -/
theorem parameters_last_iff (hname : Name name) {u v : List Char} (hsub : u.Sublist v) :
    d.parameters ((name ++ '=' :: kept u).flatMap encodeChar) =
        some [(String.ofList name, String.ofList v)] ↔ u = v ∧ Plain v := by
  constructor
  · intro h
    have htext := d.text_of_parameters hname h
    have hkept := (List.takeWhile_sublist (· != '&')).trans (kept_sublist u)
    obtain ⟨hself, hcode, hplus⟩ := d.of_text_eq_some (hkept.trans hsub) htext
    have hu : u = v := hsub.eq_of_length (le_antisymm hsub.length_le (hself ▸ hkept.length_le))
    subst hu
    exact ⟨rfl, plain_of_takeWhile_kept hself hcode hplus⟩
  · rintro ⟨rfl, hu⟩
    have hamp : '&' ∉ name ++ '=' :: u := by
      rw [List.mem_append, List.mem_cons]
      rintro (hmem | hmem | hmem)
      · exact hname.keeps _ hmem (by decide)
      · exact absurd hmem (by decide)
      · exact hu.ampersand_notMem hmem
    rw [hu.kept_eq, d.parameters_of_notMem (List.append_ne_nil_of_left_ne_nil hname.ne_nil _) hamp,
      d.pair_flatMap hname, d.text_eq_some_self hu.2 fun hmem => hu.1 _ hmem (by decide)]
    rfl

end Decoder

end UrlQuery
