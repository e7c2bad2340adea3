import Traintime.Lib.Json

/-!
# Reading JSON texts

A reader of JSON texts, which may have white space between the tokens and any escape in a string. It
gives up where arrays and objects are nested too deep, and so does not read everything that is
written.

## Main definitions

* `Json.readValue`: a value at the beginning of a text, and what follows it.
* `Json.read`: the value of a text.
* `Json.readInRange`: the value of a text whose numbers are all in the range of double precision.

## Main results

* `Json.readValue_text`: a value that is written is read again, whatever follows it.
* `Json.read_text`: what is written and not nested too deep is read again.
-/

namespace Json

/-! ### Tokens -/

/-- The white space of JSON, which is less than that of Unicode. -/
def isSpace (c : Char) : Bool := c = ' ' ∨ c = '\n' ∨ c = '\t' ∨ c = '\r'

/-- The text behind the white space in front of a token. -/
def skip (s : List Char) : List Char := s.dropWhile isSpace

/-- The characters of numerals. -/
def isNumeral (c : Char) : Bool := c.isDigit || c = '-' || c = '+' || c = '.' || c = 'e' || c = 'E'

/-- The value of a digit of base 16, in either case. -/
def hexValue? (c : Char) : Option ℕ :=
  if c.isDigit then some (c.toNat - 0x30)
  else if 'a' ≤ c ∧ c ≤ 'f' then some (c.toNat - 0x57)
  else if 'A' ≤ c ∧ c ≤ 'F' then some (c.toNat - 0x37)
  else none

/-- The number of four digits of base 16. -/
def readHex : List Char → Option (ℕ × List Char)
  | a :: b :: c :: d :: cs => do
    let a ← hexValue? a
    let b ← hexValue? b
    let c ← hexValue? c
    let d ← hexValue? d
    return (((a * 16 + b) * 16 + c) * 16 + d, cs)
  | _ => none

/-- The first code unit of a surrogate pair. -/
def isLead (n : ℕ) : Bool := 0xd800 ≤ n && n < 0xdc00

/-- The second code unit of a surrogate pair. -/
def isTrail (n : ℕ) : Bool := 0xdc00 ≤ n && n < 0xe000

/-- The character of a code unit, or of two that make a pair. -/
def readCode (cs : List Char) : Option (Char × List Char) := do
  let (n, cs) ← readHex cs
  if isLead n then
    match cs with
    | '\\' :: 'u' :: cs =>
      let (m, cs) ← readHex cs
      if isTrail m then some (.ofNat (0x10000 + (n - 0xd800) * 0x400 + (m - 0xdc00)), cs) else none
    | _ => none
  else if isTrail n then none
  else some (.ofNat n, cs)

/-- The character that a letter stands for after a backslash. -/
def escaped? (c : Char) : Option Char :=
  match c with
  | '"' => some '"'
  | '\\' => some '\\'
  | '/' => some '/'
  | 'b' => some (.ofNat 0x08)
  | 't' => some (.ofNat 0x09)
  | 'n' => some (.ofNat 0x0a)
  | 'f' => some (.ofNat 0x0c)
  | 'r' => some (.ofNat 0x0d)
  | _ => none

/-- The character that is written after a backslash. -/
def readEscape : List Char → Option (Char × List Char)
  | [] => none
  | c :: cs =>
    match escaped? c with
    | some x => some (x, cs)
    | none => if c = 'u' then readCode cs else none

/-- The next character of a string. -/
def readChar : List Char → Option (Char × List Char)
  | [] => none
  | c :: cs =>
    if c = '\\' then readEscape cs
    else if c.toNat < 0x20 ∨ c = '"' then none
    else some (c, cs)

/-- The rest of a string of fewer than `n` characters. -/
def readChars : ℕ → List Char → Option (List Char × List Char)
  | 0, _ => none
  | n + 1, s =>
    if s.head? = some '"' then some ([], s.tail)
    else do
      let (c, cs) ← readChar s
      let (l, rest) ← readChars n cs
      return (c :: l, rest)

/-- A string with its quotes. Its length bounds the number of characters that are read. -/
def readString (s : List Char) : Option (List Char × List Char) :=
  match s with
  | '"' :: cs => readChars s.length cs
  | _ => none

/-- The longest run of characters of numerals, if it is a numeral. -/
def readNumber (s : List Char) : Option (Number × List Char) :=
  if h : isNumber (s.takeWhile isNumeral) = true then some (⟨_, h⟩, s.dropWhile isNumeral) else none

/-! ### Values -/

section Seq

variable {α : Type} (close : Char) (p : List Char → Option (α × List Char))

/-- At most `n` items, with commas between them. -/
def readItems : ℕ → List Char → Option (List α × List Char)
  | 0, _ => none
  | n + 1, s => do
    let (a, rest) ← p s
    match skip rest with
    | [] => none
    | c :: cs =>
      if c = ',' then
        let (l, rest) ← readItems n cs
        return (a :: l, rest)
      else if c = close then some ([a], cs)
      else none

/-- The items of an array or an object, which may have none. -/
def readSeq (s : List Char) : Option (List α × List Char) :=
  if (skip s).head? = some close then some ([], (skip s).tail) else readItems close p s.length s

end Seq

/-- A field of an object. -/
def readField {α : Type} (p : List Char → Option (α × List Char)) (s : List Char) :
    Option ((List Char × α) × List Char) := do
  let (name, rest) ← readString (skip s)
  match skip rest with
  | ':' :: cs =>
    let (a, rest) ← p cs
    return ((name, a), rest)
  | _ => none

/-- What follows a word at the beginning of a text. -/
def readWord (w s : List Char) : Option (List Char) :=
  if w <+: s then some (s.drop w.length) else none

/-- A value in which arrays and objects are nested `d` deep at most. -/
def readValue (d : ℕ) (s : List Char) : Option (Value × List Char) :=
  match skip s with
  | [] => none
  | c :: cs =>
    if c = '"' then (readString (c :: cs)).map fun (l, rest) => (.str l, rest)
    else if c = '[' then
      match d with
      | 0 => none
      | d + 1 => (readSeq ']' (readValue d) cs).map fun (l, rest) => (.arr l, rest)
    else if c = '\x7b' then
      match d with
      | 0 => none
      | d + 1 => (readSeq '\x7d' (readField (readValue d)) cs).map fun (l, rest) => (.obj l, rest)
    else if c = 'n' then (readWord ['u', 'l', 'l'] cs).map fun rest => (.null, rest)
    else if c = 't' then (readWord ['r', 'u', 'e'] cs).map fun rest => (.bool true, rest)
    else if c = 'f' then (readWord ['a', 'l', 's', 'e'] cs).map fun rest => (.bool false, rest)
    else (readNumber (c :: cs)).map fun (n, rest) => (.num n, rest)

/-- The value of a text. -/
def read (s : List Char) : Option Value :=
  match readValue 127 s with
  | some (v, rest) => if skip rest = [] then some v else none
  | none => none

/-- The numeral stands for a number that rounds to a finite one of double precision. -/
def Number.inRange (n : Number) : Bool :=
  (Numeral.read (n.text.dropWhile (· = '-'))).any fun q => (Binary64.ofExact q).isFinite

mutual

/-- All numerals of the value are in range. -/
def Value.inRange : Value → Bool
  | .num n => n.inRange
  | .arr l => inRangeList l
  | .obj fields => inRangeFields fields
  | _ => true

/-- All numerals of the values of an array are in range. -/
def inRangeList : List Value → Bool
  | [] => true
  | v :: vs => v.inRange && inRangeList vs

/-- All numerals of the values of an object are in range. -/
def inRangeFields : List (List Char × Value) → Bool
  | [] => true
  | (_, v) :: fields => v.inRange && inRangeFields fields

end

/-- The value of a text, where a numeral that is out of range is an error. -/
def readInRange (s : List Char) : Option Value := (read s).filter Value.inRange

example : (readInRange "[-1e308]".toList).isSome = true := by decide +kernel

example : (readInRange "[-1e309]".toList).isSome = false := by decide +kernel

/-! ### Reading what is written -/

/-- The numeral before it ends here. -/
def Follows (r : List Char) : Prop := ∀ c ∈ r.head?, isNumeral c = false

theorem skip_cons {c : Char} (h : isSpace c = false) (r : List Char) : skip (c :: r) = c :: r :=
  List.dropWhile_cons_of_neg (by simp [h])

section Strings

theorem hexValue?_hexDigit : ∀ n < 16, hexValue? (hexDigit n) = some n := by decide

theorem readHex_hexDigit {n : ℕ} (hn : n < 0x20) (r : List Char) :
    readHex ('0' :: '0' :: hexDigit (n / 16) :: hexDigit (n % 16) :: r) = some (n, r) := by
  have hzero : hexValue? '0' = some 0 := by decide
  have hvalue : ((0 * 16 + 0) * 16 + n / 16) * 16 + n % 16 = n := by omega
  rw [readHex, hzero, hexValue?_hexDigit _ (by omega), hexValue?_hexDigit _ (by omega)]
  simp only [Option.bind_eq_bind, Option.bind_some, hvalue]
  rfl

theorem readCode_hexDigit {c : Char} (hc : c.toNat < 0x20) (r : List Char) :
    readCode ('0' :: '0' :: hexDigit (c.toNat / 16) :: hexDigit (c.toNat % 16) :: r) =
      some (c, r) := by
  have hlead : isLead c.toNat = false := by
    rw [isLead, Bool.and_eq_false_iff]
    exact .inl (decide_eq_false (by omega))
  have htrail : isTrail c.toNat = false := by
    rw [isTrail, Bool.and_eq_false_iff]
    exact .inl (decide_eq_false (by omega))
  simp [readCode, readHex_hexDigit hc, hlead, htrail]

theorem escaped?_of_shortEscape? {c e : Char} (h : shortEscape? c = some e) :
    escaped? e = some c := by
  unfold shortEscape? at h
  split at h <;> cases h <;> rw [← Char.ofNat_toNat c, ‹c.toNat = _›] <;> rfl

theorem ne_of_shortEscape?_eq_none {c : Char} (h : shortEscape? c = none) :
    c ≠ '\\' ∧ c ≠ '"' := by
  constructor
  · rintro rfl
    exact absurd h (by decide)
  · rintro rfl
    exact absurd h (by decide)

theorem readChar_escapeChar (c : Char) (r : List Char) :
    readChar (escapeChar c ++ r) = some (c, r) := by
  unfold escapeChar
  split
  · next e he =>
    have hread : escaped? e = some c := escaped?_of_shortEscape? he
    simp [readChar, readEscape, hread]
  · next hshort =>
    obtain ⟨hslash, hquote⟩ := ne_of_shortEscape?_eq_none hshort
    split_ifs with hc
    · have hu : escaped? 'u' = none := rfl
      simp [readChar, readEscape, hu, readCode_hexDigit hc]
    · simp [readChar, hslash, hquote, hc]

theorem head?_escapeChar (c : Char) (r : List Char) : (escapeChar c ++ r).head? ≠ some '"' := by
  unfold escapeChar
  split
  · simp
  · next hshort =>
    split_ifs
    · simp
    · simpa using (ne_of_shortEscape?_eq_none hshort).2

theorem readChars_escapeChar {s : List Char} {n : ℕ} (hn : s.length < n) (r : List Char) :
    readChars n (s.flatMap escapeChar ++ '"' :: r) = some (s, r) := by
  induction s generalizing n with
  | nil =>
    obtain ⟨n, rfl⟩ : ∃ m, n = m + 1 := ⟨n - 1, by simp at hn; omega⟩
    rfl
  | cons c s ih =>
    obtain ⟨n, rfl⟩ : ∃ m, n = m + 1 := ⟨n - 1, by simp at hn; omega⟩
    have hs : s.length < n := by simpa using hn
    rw [List.flatMap_cons, List.append_assoc, readChars, if_neg (head?_escapeChar c _)]
    simp [readChar_escapeChar, ih hs]

theorem escapeChar_ne_nil (c : Char) : escapeChar c ≠ [] := by
  unfold escapeChar
  split
  · simp
  · split_ifs <;> simp

theorem length_le_flatMap_escapeChar (s : List Char) :
    s.length ≤ (s.flatMap escapeChar).length := by
  induction s with
  | nil => exact le_rfl
  | cons c s ih =>
    have hc : 0 < (escapeChar c).length := List.length_pos_of_ne_nil (escapeChar_ne_nil c)
    rw [List.flatMap_cons, List.length_append, List.length_cons]
    omega

/-- A string is read again, whatever follows it. -/
theorem readString_stringText (s r : List Char) : readString (stringText s ++ r) = some (s, r) := by
  have hlen := length_le_flatMap_escapeChar s
  rw [stringText, List.cons_append, readString, List.append_assoc]
  refine readChars_escapeChar ?_ r
  simp only [List.length_cons, List.length_append, List.length_nil]
  omega

end Strings

section Numbers

theorem isNumeral_of_isDigit {c : Char} (h : c.isDigit = true) : isNumeral c = true := by
  simp [isNumeral, h]

/-- Digits and what follows them are the characters of a numeral. -/
theorem forall_of_dropDigits? {s rest : List Char} (h : dropDigits? s = some rest)
    (hrest : ∀ c ∈ rest, isNumeral c = true) : ∀ c ∈ s, isNumeral c = true := by
  cases s with
  | nil => exact nofun
  | cons c cs =>
    rw [dropDigits?] at h
    split_ifs at h with hc
    obtain rfl := Option.some.inj h
    rw [← List.takeWhile_append_dropWhile (p := Char.isDigit) (l := cs)]
    intro x hx
    rcases List.mem_cons.1 hx with rfl | hx
    · exact isNumeral_of_isDigit hc
    · rcases List.mem_append.1 hx with hx | hx
      · exact isNumeral_of_isDigit (List.mem_takeWhile_imp hx)
      · exact hrest x hx

theorem forall_of_isExponent {s : List Char} (h : isExponent s = true) :
    ∀ c ∈ s, isNumeral c = true := by
  cases s with
  | nil => exact nofun
  | cons c cs =>
    obtain ⟨hc, hds⟩ := Bool.and_eq_true_iff.1 h
    have hmark : isNumeral c = true := by
      rcases of_decide_eq_true hc with rfl | rfl <;> rfl
    have hrest : ∀ x ∈ cs, isNumeral x = true := by
      split at hds
      · exact List.forall_mem_cons.2 ⟨rfl, forall_of_dropDigits? (beq_iff_eq.1 hds) nofun⟩
      · exact List.forall_mem_cons.2 ⟨rfl, forall_of_dropDigits? (beq_iff_eq.1 hds) nofun⟩
      · exact forall_of_dropDigits? (beq_iff_eq.1 hds) nofun
    exact List.forall_mem_cons.2 ⟨hmark, hrest⟩

theorem forall_of_isFraction {s : List Char} (h : isFraction s = true) :
    ∀ c ∈ s, isNumeral c = true := by
  unfold isFraction at h
  split at h
  · obtain ⟨rest, hrest, hexp⟩ := (Option.any_eq_true _ _).1 h
    exact List.forall_mem_cons.2 ⟨rfl, forall_of_dropDigits? hrest (forall_of_isExponent hexp)⟩
  · exact forall_of_isExponent h

theorem forall_of_isUnsigned {s : List Char} (h : isUnsigned s = true) :
    ∀ c ∈ s, isNumeral c = true := by
  cases s with
  | nil => exact nofun
  | cons c cs =>
    rw [isUnsigned] at h
    split_ifs at h with hc
    · exact List.forall_mem_cons.2 ⟨by rw [hc]; rfl, forall_of_isFraction h⟩
    · obtain ⟨rest, hrest, hfrac⟩ := (Option.any_eq_true _ _).1 h
      exact forall_of_dropDigits? hrest (forall_of_isFraction hfrac)

/-- A numeral has no other characters. -/
theorem forall_isNumeral (n : Number) : ∀ c ∈ n.text, isNumeral c = true := by
  have h := n.valid
  unfold isNumber at h
  split at h
  · rw [‹n.text = _›]
    exact List.forall_mem_cons.2 ⟨rfl, forall_of_isUnsigned h⟩
  · exact forall_of_isUnsigned h

/-- A numeral is read again before anything that ends it. -/
theorem readNumber_text (n : Number) {r : List Char} (hr : Follows r) :
    readNumber (n.text ++ r) = some (n, r) := by
  have hall := forall_isNumeral n
  have hr' : r.takeWhile isNumeral = [] ∧ r.dropWhile isNumeral = r := by
    cases r with
    | nil => exact ⟨rfl, rfl⟩
    | cons c r =>
      have hc : ¬ isNumeral c = true := by rw [hr c rfl]; decide
      exact ⟨List.takeWhile_cons_of_neg hc, List.dropWhile_cons_of_neg hc⟩
  have htake : (n.text ++ r).takeWhile isNumeral = n.text := by
    rw [List.takeWhile_append_of_pos hall, hr'.1, List.append_nil]
  have hdrop : (n.text ++ r).dropWhile isNumeral = r := by
    rw [List.dropWhile_append_of_pos hall, hr'.2]
  simp [readNumber, htake, hdrop, n.valid]

/-- A numeral begins with a digit or a minus sign. -/
theorem exists_text_eq_cons (n : Number) :
    ∃ c cs, n.text = c :: cs ∧ (c.isDigit = true ∨ c = '-') := by
  have h := n.valid
  cases ht : n.text with
  | nil =>
    rw [ht] at h
    cases h
  | cons c cs =>
    refine ⟨c, cs, rfl, ?_⟩
    by_cases hc : c = '-'
    · exact .inr hc
    · have hu : isUnsigned (c :: cs) = true := by
        rw [ht] at h
        unfold isNumber at h
        split at h
        · next heq => exact absurd (List.cons.inj heq).1 hc
        · exact h
      rw [isUnsigned] at hu
      split_ifs at hu with hzero
      · exact .inl (by rw [hzero]; rfl)
      · by_contra hdigit
        rw [dropDigits?, if_neg fun h => hdigit (.inl h)] at hu
        cases hu

end Numbers

/-! ### Sequences -/

section Seq

variable {α : Type} {close : Char} {p : List Char → Option (α × List Char)} {w : α → List Char}
  {l : List α}

/-- What is written for an item can be told from what closes the sequence. -/
def Opens (close : Char) (s : List Char) : Prop :=
  ∃ c cs, s = c :: cs ∧ isSpace c = false ∧ c ≠ close

/-- The closing brackets. -/
def Closing (c : Char) : Prop := isSpace c = false ∧ isNumeral c = false ∧ c ≠ ','

theorem readItems_closeList (hclose : Closing close) {n : ℕ} {a : α} (hn : l.length < n)
    (hp : ∀ b ∈ a :: l, ∀ r, Follows r → p (w b ++ r) = some (b, r)) (r : List Char) :
    readItems close p n (closeList close ((a :: l).map w) ++ r) = some (a :: l, r) := by
  obtain ⟨hspace, hnum, hcomma⟩ := hclose
  induction l generalizing a n with
  | nil =>
    obtain ⟨n, rfl⟩ : ∃ m, n = m + 1 := ⟨n - 1, by omega⟩
    have ha : p (w a ++ (close :: r)) = some (a, close :: r) :=
      hp a List.mem_cons_self _ fun c hc => Option.some.inj hc ▸ hnum
    simp [closeList, readItems, ha, skip_cons hspace, hcomma]
  | cons b l ih =>
    obtain ⟨n, rfl⟩ : ∃ m, n = m + 1 := ⟨n - 1, by omega⟩
    have ha : ∀ r, p (w a ++ (',' :: r)) = some (a, ',' :: r) := fun r =>
      hp a List.mem_cons_self _ fun c hc => Option.some.inj hc ▸ rfl
    have hb := ih (a := b) (n := n) (by simpa using hn) fun x hx => hp x (List.mem_cons_of_mem a hx)
    have hskip : ∀ r, skip (',' :: r) = ',' :: r := skip_cons rfl
    simp only [List.map_cons] at hb ⊢
    simp [closeList, readItems, ha, hskip, hb]

theorem length_le_closeList (close : Char) (ts : List (List Char)) :
    ts.length ≤ (closeList close ts).length := by
  induction ts with
  | nil => simp
  | cons t ts ih =>
    cases ts with
    | nil => simp [closeList]
    | cons t' ts =>
      simp only [closeList, List.length_append, List.length_cons] at ih ⊢
      omega

/-- A sequence is read again if its items are. -/
theorem readSeq_closeList (hclose : Closing close) (hopens : ∀ a ∈ l, Opens close (w a))
    (hp : ∀ a ∈ l, ∀ r, Follows r → p (w a ++ r) = some (a, r)) (r : List Char) :
    readSeq close p (closeList close (l.map w) ++ r) = some (l, r) := by
  cases l with
  | nil => simp [closeList, readSeq, skip_cons hclose.1]
  | cons a l =>
    obtain ⟨c, cs, hw, hc, hne⟩ := hopens a List.mem_cons_self
    obtain ⟨rest, hrest⟩ : ∃ rest, closeList close ((a :: l).map w) = c :: rest := by
      cases l <;> simp [closeList, hw]
    have hlen := length_le_closeList close ((a :: l).map w)
    have hhead : (skip (closeList close ((a :: l).map w) ++ r)).head? ≠ some close := by
      rw [hrest, List.cons_append, skip_cons hc]
      simpa using hne
    rw [readSeq, if_neg hhead]
    refine readItems_closeList hclose ?_ hp r
    simp only [List.length_map, List.length_cons, List.length_append] at hlen ⊢
    omega

end Seq

/-! ### Values -/

theorem readField_fieldText {p : List Char → Option (Value × List Char)} {x : List Char × Value}
    (hp : ∀ r, Follows r → p (x.2.text ++ r) = some (x.2, r)) {r : List Char} (hr : Follows r) :
    readField p (fieldText x ++ r) = some (x, r) := by
  have hquote : skip (stringText x.1 ++ (':' :: (x.2.text ++ r))) =
      stringText x.1 ++ (':' :: (x.2.text ++ r)) := skip_cons rfl _
  have hcolon : skip (':' :: (x.2.text ++ r)) = ':' :: (x.2.text ++ r) := skip_cons rfl _
  rw [readField, fieldText, List.append_assoc, List.cons_append, hquote, readString_stringText]
  simp [hcolon, hp r hr]

/-- What a numeral does not begin with. -/
theorem ne_of_begins {c x : Char} (h : c.isDigit = true ∨ c = '-')
    (hx : x.isDigit = false ∧ x ≠ '-') : c ≠ x := by
  rintro rfl
  rcases h with h | h
  · rw [hx.1] at h
    cases h
  · exact hx.2 h

theorem isSpace_of_begins {c : Char} (h : c.isDigit = true ∨ c = '-') : isSpace c = false := by
  rw [isSpace, decide_eq_false_iff_not]
  rintro (rfl | rfl | rfl | rfl) <;> exact absurd h (by decide)

/-- The text of a value begins with no white space and no closing bracket. -/
theorem opens_text (v : Value) : Opens ']' v.text := by
  cases v with
  | bool b => cases b <;> exact ⟨_, _, rfl, rfl, by decide⟩
  | num n =>
    obtain ⟨c, cs, hc, hbegins⟩ := exists_text_eq_cons n
    exact ⟨c, cs, hc, isSpace_of_begins hbegins, ne_of_begins hbegins (by decide)⟩
  | _ => exact ⟨_, _, rfl, rfl, by decide⟩

theorem readWord_append (w r : List Char) : readWord w (w ++ r) = some r := by
  rw [readWord, if_pos (List.prefix_append w r), List.drop_left]

/-- A value that is not nested too deep is read again before anything that ends it. -/
theorem readValue_text (v : Value) {d : ℕ} (hd : v.depth ≤ d) {r : List Char} (hr : Follows r) :
    readValue d (v.text ++ r) = some (v, r) := by
  induction v using Value.induct generalizing d r with
  | null =>
    rw [Value.text, List.cons_append, readValue.eq_def, skip_cons rfl]
    simpa using readWord_append ['u', 'l', 'l'] r
  | bool b =>
    cases b with
    | true =>
      rw [Value.text, List.cons_append, readValue.eq_def, skip_cons rfl]
      simpa using readWord_append ['r', 'u', 'e'] r
    | false =>
      rw [Value.text, List.cons_append, readValue.eq_def, skip_cons rfl]
      simpa using readWord_append ['a', 'l', 's', 'e'] r
  | num n =>
    have hread := readNumber_text n hr
    obtain ⟨c, cs, hc, hbegins⟩ := exists_text_eq_cons n
    rw [hc, List.cons_append] at hread
    have hne : ∀ {x : Char}, x.isDigit = false ∧ x ≠ '-' → c ≠ x := ne_of_begins hbegins
    rw [Value.text, hc, List.cons_append, readValue.eq_def, skip_cons (isSpace_of_begins hbegins)]
    simp [hne (x := '"') (by decide), hne (x := '[') (by decide), hne (x := '\x7b') (by decide),
      hne (x := 'n') (by decide), hne (x := 't') (by decide), hne (x := 'f') (by decide), hread]
  | str s =>
    have hread := readString_stringText s r
    rw [Value.text]
    rw [stringText, List.cons_append] at hread ⊢
    rw [readValue.eq_def, skip_cons rfl]
    simp only [if_true, hread, Option.map_some]
  | arr l ih =>
    obtain ⟨d, rfl⟩ : ∃ m, d = m + 1 := ⟨d - 1, by rw [Value.depth] at hd; omega⟩
    have hitems : readSeq ']' (readValue d) (closeList ']' (l.map Value.text) ++ r) =
        some (l, r) := by
      refine readSeq_closeList ⟨rfl, rfl, by decide⟩ (fun v _ => opens_text v) ?_ r
      intro v hv r' hr'
      refine ih v hv ?_ hr'
      have := depth_le_depthList hv
      rw [Value.depth] at hd
      omega
    rw [Value.text, texts_eq_map, List.cons_append, readValue.eq_def, skip_cons rfl]
    simp [hitems]
  | obj fields ih =>
    obtain ⟨d, rfl⟩ : ∃ m, d = m + 1 := ⟨d - 1, by rw [Value.depth] at hd; omega⟩
    have hitems : readSeq '\x7d' (readField (readValue d))
        (closeList '\x7d' (fields.map fieldText) ++ r) = some (fields, r) := by
      refine readSeq_closeList ⟨rfl, rfl, by decide⟩ (fun x _ => ⟨_, _, rfl, rfl, by decide⟩) ?_ r
      intro x hx r' hr'
      refine readField_fieldText (fun r'' hr'' => ih x hx ?_ hr'') hr'
      have := depth_le_depthFields hx
      rw [Value.depth] at hd
      omega
    rw [Value.text, fieldTexts_eq_map, List.cons_append, readValue.eq_def, skip_cons rfl]
    simp [hitems]

/-- **What is written is read again.** -/
theorem read_text {v : Value} (hd : v.depth ≤ 127) : read v.text = some v := by
  have hv := readValue_text v hd (r := []) nofun
  rw [List.append_nil] at hv
  simp [read, hv, skip]

end Json
