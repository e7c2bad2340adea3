import Traintime.Server.Memcached.Pool

/-!
# Any reply to a get

What `get_on` and `Memcached::call` of `server/src/memcached.rs` make of any bytes that a server
sends in reply to a get, whole, cut off or followed by more, before it closes the connection or
falls silent.

The sum `len + 2` is made in 64 bits. It panics where the build checks for overflow and wraps where
it does not. A buffer that is larger than an allocation can be panics too, and one that the
allocator has no memory for ends the process.

## Main definitions

* `getOn`, `callGet`: the functions of the source for a build and a memory.
* `IsHit`, `IsMiss`: the replies of the protocol.
* `CostsAMiss`: a reply does no more harm than a miss.
* `Framed`: the lengths, the line ends and the end of a reply are right.

## Main results

* `getOn_eq_getReply`: with overflow checks and all memory this is the reader of the pool.
* `exists_run_callGet`: the steps of the pool do what `callGet` says.
* `costsAMiss_iff`: the replies that do no more harm than a miss.
-/

namespace Traintime.Server.Memcached

/-! ### The functions of the source -/

/-- `len + 2`, which panics or wraps when it does not fit. -/
def blockLen (checks : Bool) (len : ℕ) : Option ℕ :=
  if len + 2 < 2 ^ 64 then some (len + 2)
  else if checks then none else some ((len + 2) % 2 ^ 64)

/-- The part of `get_on` after a header, with a buffer of `size` bytes for a value of `len`. -/
def valueBlock (len size : ℕ) : Reader (Option String) :=
  (Reader.exact size).bind fun data =>
    readLine.bind fun trailer =>
      if trailer ≠ "END" then .fail
      else
        match Utf8.decode (data.take len) with
        | some v => .pure (some v)
        | none => .fail

/-- How `get_on` reads its reply, in a build with overflow checks or without, where the allocator
serves at most `memory` bytes at once. -/
def getOn (checks : Bool) (memory : ℕ) : Reader (Option String) :=
  readLine.bind fun header =>
    if header = "END" then .pure none
    else
      match valueLen header with
      | none => .fail
      | some len =>
        match blockLen checks len with
        | none => .panic
        | some size => if min memory maxAlloc < size then .panic else valueBlock len size

/-- How a call ends: it returns, or it panics. In a build without overflow checks it may return what
nobody has stored. -/
inductive CallEnd
  /-- It returns, and the connection is back in the pool with these bytes unread, or dropped. -/
  | returned (got : Option String) (pooled : Option (List UInt8))
  | panicked
deriving DecidableEq, Repr

/-- `Memcached::get` after its request is written, with so many idle connections in the pool. A
reply that does not come to an end runs into the timeout. -/
def callGet (checks : Bool) (memory idle : ℕ) (bs : List UInt8) (eof : Bool) : CallEnd :=
  match getOn checks memory bs eof with
  | .done out rest => .returned out (if idle < poolSize then some rest else none)
  | .fail => .returned none none
  | .more => .returned none none
  | .panic => .panicked

/-! ### The replies of the protocol -/

/-- The bytes are a line with this text before its line end. -/
def LineOf (eof : Bool) (l rest : List UInt8) (text : String) : Prop :=
  Reader.IsLine eof l rest ∧ ∃ s, Utf8.encode s = l ∧ trimEnd s = text

/-- `VALUE <key> <flags> <bytes>`, possibly with more words. -/
def IsValueHeader (header : String) (n : ℕ) : Prop :=
  ∃ key flags bytes more : List Char,
    header.toList = "VALUE ".toList ++ key ++ ' ' :: (flags ++ ' ' :: (bytes ++ more)) ∧
    ' ' ∉ key ∧ ' ' ∉ flags ∧ ' ' ∉ bytes ∧ (∀ c ∈ more.head?, c = ' ') ∧
    parseUsize bytes = some n

/-- The reply with the value: a header with its length, its bytes, CRLF and the line `END`. -/
def IsHit (eof : Bool) (bs : List UInt8) (v : String) : Prop :=
  ∃ header text last, bs = header ++ (Utf8.encode v ++ [0x0d, 0x0a] ++ last) ∧
    LineOf eof header (Utf8.encode v ++ [0x0d, 0x0a] ++ last) text ∧
    IsValueHeader text (Utf8.encode v).length ∧ LineOf eof last [] "END"

/-- The reply without a value: the line `END`. -/
def IsMiss (eof : Bool) (bs : List UInt8) : Prop := LineOf eof bs [] "END"

/-- A reply does no more harm than a miss. -/
structure CostsAMiss (checks : Bool) (memory : ℕ) (bs : List UInt8) (eof : Bool) : Prop where
  /-- The sum in the length of the buffer does not overflow. -/
  no_overflow : ∀ l rest header n, bs = l ++ rest → LineOf eof l rest header →
    IsValueHeader header n → n + 2 < 2 ^ 64
  /-- `get_on` ends with `Ok` or `Err`, unless the stream neither ends nor goes on. -/
  ends : getOn checks memory bs eof ≠ .panic ∧ (eof = true → getOn checks memory bs eof ≠ .more)
  /-- A value is that of a reply with it. -/
  value : ∀ v rest, getOn checks memory bs eof = .done (some v) rest → IsHit eof bs v
  /-- After any other reply the call returns nothing, and its connection is not used again. -/
  other : (∀ v, ¬ IsHit eof bs v) → ¬ IsMiss eof bs →
    ∀ idle, callGet checks memory idle bs eof = .returned none none

/-- The lengths, the line ends and the end of a reply are right, as far as it gets. -/
structure Framed (memory : ℕ) (bs : List UInt8) (eof : Bool) : Prop where
  /-- A buffer for the announced bytes and two more can be allocated. -/
  fits : ∀ l rest header n, bs = l ++ rest → LineOf eof l rest header → IsValueHeader header n →
    n + 2 ≤ min memory maxAlloc
  /-- What stands between the announced bytes, if they are text, and a line `END` is CRLF, and
  nothing follows this line. -/
  crlf : ∀ l text header n block last rest, bs = l ++ (block ++ (last ++ rest)) →
    LineOf eof l (block ++ (last ++ rest)) header → IsValueHeader header n →
    block.length = n + 2 → LineOf eof last rest "END" → Utf8.decode (block.take n) = some text →
    block.drop n = [0x0d, 0x0a] ∧ rest = []
  /-- Nothing follows a line `END` that is the first one. -/
  alone : ∀ l rest, bs = l ++ rest → LineOf eof l rest "END" → rest = []

/-! ### Lines and headers -/

section Lines

variable {l l' bs rest rest' : List UInt8} {eof : Bool} {text text' : String}

/-- What `read_line` gives is the text of the first line. -/
theorem readLine_eq_done_iff :
    readLine bs eof = .done text rest ↔ ∃ l, bs = l ++ rest ∧ LineOf eof l rest text := by
  rw [readLine, Reader.bind_eq_done_iff]
  constructor
  · rintro ⟨l, bs', hline, hread⟩
    by_cases hne : l = []
    · rw [if_pos hne] at hread
      cases hread
    rw [if_neg hne] at hread
    cases hdecode : Utf8.decode l with
    | none =>
      rw [hdecode] at hread
      cases hread
    | some s =>
      rw [hdecode] at hread
      obtain ⟨rfl, rfl⟩ := Reader.Result.done.inj hread
      obtain ⟨hbs, hl⟩ := (Reader.line_eq_done_iff hne).1 hline
      exact ⟨l, hbs, hl, s, Utf8.decode_eq_some_iff.1 hdecode, rfl⟩
  · rintro ⟨l, hbs, hl, s, hs, rfl⟩
    refine ⟨l, rest, (Reader.line_eq_done_iff hl.ne_nil).2 ⟨hbs, hl⟩, ?_⟩
    rw [if_neg hl.ne_nil, Utf8.decode_eq_some_iff.2 hs]
    rfl

/-- A stream has one first line, with one text. -/
theorem LineOf.inj (h : LineOf eof l rest text) (h' : LineOf eof l' rest' text')
    (heq : l ++ rest = l' ++ rest') : l = l' ∧ rest = rest' ∧ text = text' := by
  obtain ⟨hl, s, hs, rfl⟩ := h
  obtain ⟨hl', s', hs', rfl⟩ := h'
  obtain ⟨rfl, rfl⟩ := hl.inj hl' heq
  obtain rfl := Utf8.encode_injective (hs.trans hs'.symm)
  exact ⟨rfl, rfl, rfl⟩

end Lines

section Words

variable {c : Char} {l w : List Char} {k : ℕ}

/-- The first word goes up to the first separator or to the end. -/
theorem getElem?_zero_splitOn :
    (l.splitOn c)[0]? = some w ↔ c ∉ w ∧ ∃ more, l = w ++ more ∧ ∀ d ∈ more.head?, d = c := by
  constructor
  · intro h
    by_cases hc : c ∈ l
    · obtain ⟨a, b, rfl, ha⟩ := List.eq_append_cons_of_mem hc
      rw [List.splitOn_append_cons_self_of_not_mem ha] at h
      obtain rfl := Option.some.inj h
      exact ⟨ha, c :: b, rfl, by simp⟩
    · rw [List.splitOn_eq_singleton hc] at h
      obtain rfl := Option.some.inj h
      exact ⟨hc, [], (List.append_nil l).symm, by simp⟩
  · rintro ⟨hw, more, rfl, hmore⟩
    cases more with
    | nil => rw [List.append_nil, List.splitOn_eq_singleton hw, List.getElem?_cons_zero]
    | cons d more =>
      obtain rfl := hmore d rfl
      rw [List.splitOn_append_cons_self_of_not_mem hw, List.getElem?_cons_zero]

/-- The other words are those after the first separator. -/
theorem getElem?_succ_splitOn :
    (l.splitOn c)[k + 1]? = some w ↔
      ∃ a b, l = a ++ c :: b ∧ c ∉ a ∧ (b.splitOn c)[k]? = some w := by
  constructor
  · intro h
    by_cases hc : c ∈ l
    · obtain ⟨a, b, rfl, ha⟩ := List.eq_append_cons_of_mem hc
      rw [List.splitOn_append_cons_self_of_not_mem ha, List.getElem?_cons_succ] at h
      exact ⟨a, b, rfl, ha, h⟩
    · rw [List.splitOn_eq_singleton hc] at h
      cases h
  · rintro ⟨a, b, rfl, ha, h⟩
    rw [List.splitOn_append_cons_self_of_not_mem ha, List.getElem?_cons_succ]
    exact h

end Words

/-- The length is the third word after `VALUE `. -/
theorem valueLen_eq_some_iff {header : String} {n : ℕ} :
    valueLen header = some n ↔ IsValueHeader header n := by
  have hlen : valueLen header = some n ↔ ∃ rest, header.toList = "VALUE ".toList ++ rest ∧
      ∃ bytes, (rest.splitOn ' ')[2]? = some bytes ∧ parseUsize bytes = some n := by
    rw [valueLen]
    split
    · next rest heq =>
      rw [heq, Option.bind_eq_some_iff]
      simp
    · next hne =>
      refine iff_of_false (by simp) ?_
      rintro ⟨rest, heq, -⟩
      exact hne rest heq
  rw [hlen]
  simp only [getElem?_succ_splitOn, getElem?_zero_splitOn]
  constructor
  · rintro ⟨_, heq, bytes, ⟨key, _, rfl, hkey, flags, _, rfl, hflags, hbytes, more, rfl, hmore⟩, hn⟩
    exact ⟨key, flags, bytes, more, by simpa using heq, hkey, hflags, hbytes, hmore, hn⟩
  · rintro ⟨key, flags, bytes, more, heq, hkey, hflags, hbytes, hmore, hn⟩
    exact ⟨_, by simpa using heq, bytes,
      ⟨key, _, rfl, hkey, flags, _, rfl, hflags, hbytes, more, rfl, hmore⟩, hn⟩

theorem IsValueHeader.ne_end {header : String} {n : ℕ} (h : IsValueHeader header n) :
    header ≠ "END" := by
  rintro rfl
  obtain ⟨key, flags, bytes, more, heq, -⟩ := h
  simp at heq

/-! ### What is read of a reply -/

theorem settles_readLine : Reader.Settles readLine := by
  refine Reader.settles_line.bind fun l => ?_
  split_ifs
  · exact Reader.settles_fail
  · split
    · exact Reader.settles_pure _
    · exact Reader.settles_fail

theorem settles_valueBlock (len size : ℕ) : Reader.Settles (valueBlock len size) := by
  refine (Reader.settles_exact size).bind fun data => settles_readLine.bind fun trailer => ?_
  split_ifs
  · exact Reader.settles_fail
  · split
    · exact Reader.settles_pure _
    · exact Reader.settles_fail

section Read

variable {l bs rest : List UInt8} {eof checks : Bool} {memory n size : ℕ} {header : String}
  {out : Option String}

theorem valueBlock_eq_done_iff : valueBlock n size bs eof = .done out rest ↔
    ∃ block last text, bs = block ++ (last ++ rest) ∧ block.length = size ∧
      LineOf eof last rest "END" ∧ Utf8.decode (block.take n) = some text ∧ out = some text := by
  rw [valueBlock, Reader.bind_eq_done_iff]
  simp only [Reader.bind_eq_done_iff, Reader.exact_eq_done_iff, readLine_eq_done_iff]
  constructor
  · rintro ⟨block, _, ⟨rfl, hsize⟩, trailer, bs', ⟨last, rfl, hlast⟩, h⟩
    by_cases htrailer : trailer = "END"
    · subst htrailer
      rw [if_neg (not_not_intro rfl)] at h
      cases hdecode : Utf8.decode (block.take n) with
      | none =>
        rw [hdecode] at h
        cases h
      | some text =>
        rw [hdecode] at h
        obtain ⟨rfl, rfl⟩ := Reader.Result.done.inj h
        exact ⟨block, last, text, rfl, hsize, hlast, hdecode, rfl⟩
    · rw [if_pos htrailer] at h
      cases h
  · rintro ⟨block, last, text, rfl, hsize, hlast, hdecode, rfl⟩
    refine ⟨block, _, ⟨rfl, hsize⟩, "END", rest, ⟨last, rfl, hlast⟩, ?_⟩
    rw [if_neg (not_not_intro rfl), hdecode]
    rfl

theorem getOn_of_end (h : LineOf eof l rest "END") :
    getOn checks memory (l ++ rest) eof = .done none rest := by
  rw [getOn, Reader.bind_of_done (readLine_eq_done_iff.2 ⟨l, rfl, h⟩), if_pos rfl]
  rfl

/-- After a header whose length fits with two more, a buffer of that size is filled. -/
theorem getOn_of_header (h : LineOf eof l rest header) (hn : IsValueHeader header n)
    (hfits : n + 2 < 2 ^ 64) :
    getOn checks memory (l ++ rest) eof =
      if min memory maxAlloc < n + 2 then .panic else valueBlock n (n + 2) rest eof := by
  rw [getOn, Reader.bind_of_done (readLine_eq_done_iff.2 ⟨l, rfl, h⟩), if_neg hn.ne_end]
  simp only [valueLen_eq_some_iff.2 hn, blockLen, if_pos hfits]
  split_ifs <;> rfl

/-- A reply that is neither a line `END` nor begins with a header of a value fails, or more of it is
awaited. -/
theorem getOn_cases (checks : Bool) (memory : ℕ) (bs : List UInt8) (eof : Bool) :
    (∃ l rest, bs = l ++ rest ∧ LineOf eof l rest "END") ∨
      (∃ l rest header n, bs = l ++ rest ∧ LineOf eof l rest header ∧ IsValueHeader header n) ∨
      getOn checks memory bs eof = .fail ∨
      (getOn checks memory bs eof = .more ∧ eof = false) := by
  cases hline : readLine bs eof with
  | more =>
    refine .inr (.inr (.inr ⟨by rw [getOn, Reader.bind, hline], ?_⟩))
    by_contra heof
    exact (settles_readLine bs eof).2 (eq_true_of_ne_false heof) hline
  | fail => exact .inr (.inr (.inl (by rw [getOn, Reader.bind, hline])))
  | panic => exact absurd hline (settles_readLine bs eof).1
  | done header rest =>
    obtain ⟨l, rfl, hl⟩ := readLine_eq_done_iff.1 hline
    by_cases hend : header = "END"
    · subst hend
      exact .inl ⟨l, rest, rfl, hl⟩
    · cases hlen : valueLen header with
      | none =>
        refine .inr (.inr (.inl ?_))
        rw [getOn, Reader.bind_of_done hline, if_neg hend]
        simp only [hlen]
        rfl
      | some n => exact .inr (.inl ⟨l, rest, header, n, rfl, hl, valueLen_eq_some_iff.1 hlen⟩)

end Read

/-! ### The replies that cost a miss at most -/

section Replies

variable {checks eof : Bool} {memory : ℕ} {bs : List UInt8}

/-- The numbers that fit a buffer fit a `usize`. -/
theorem lt_of_le_maxAlloc {n : ℕ} (h : n + 2 ≤ min memory maxAlloc) : n + 2 < 2 ^ 64 := by
  have hle : n + 2 ≤ maxAlloc := h.trans (min_le_right _ _)
  rw [maxAlloc] at hle
  omega

theorem CostsAMiss.framed (h : CostsAMiss checks memory bs eof) : Framed memory bs eof := by
  have hfits : ∀ l rest header n, bs = l ++ rest → LineOf eof l rest header →
      IsValueHeader header n → n + 2 ≤ min memory maxAlloc := by
    rintro l rest header n rfl hl hn
    have hsum := h.no_overflow l rest header n rfl hl hn
    have hends := h.ends.1
    rw [getOn_of_header hl hn hsum] at hends
    by_contra hlt
    exact hends (if_pos (not_le.1 hlt))
  constructor
  · exact hfits
  · rintro l text header n block last rest rfl hl hn hblock hlast htext
    have hle := hfits l _ header n rfl hl hn
    have hread : getOn checks memory (l ++ (block ++ (last ++ rest))) eof =
        .done (some text) rest := by
      rw [getOn_of_header hl hn (lt_of_le_maxAlloc hle), if_neg (not_lt.2 hle)]
      exact valueBlock_eq_done_iff.2 ⟨block, last, text, rfl, hblock, hlast, htext, rfl⟩
    -- The reply is one with the value, and it has the same header, so the same bytes follow.
    obtain ⟨l', header', last', heq, hl', hn', hlast'⟩ := h.value text rest hread
    obtain ⟨rfl, htail, rfl⟩ := hl.inj hl' heq
    have hlen : (Utf8.encode text).length = n :=
      Option.some.inj ((valueLen_eq_some_iff.2 hn').symm.trans (valueLen_eq_some_iff.2 hn))
    have hsize : block.length = (Utf8.encode text ++ [0x0d, 0x0a]).length := by
      rw [hblock, List.length_append, hlen]
      rfl
    obtain ⟨rfl, hlasts⟩ := List.append_inj htail hsize
    obtain ⟨-, rfl, -⟩ := hlast.inj hlast' (hlasts.trans (List.append_nil last').symm)
    rw [← hlen, List.drop_left]
    exact ⟨rfl, rfl⟩
  · rintro l rest rfl hl
    by_contra hrest
    have hhit : ∀ v, ¬ IsHit eof (l ++ rest) v := by
      rintro v ⟨l', header, last, heq, hl', hn, -⟩
      exact hn.ne_end (hl.inj hl' heq).2.2.symm
    have hmiss : ¬ IsMiss eof (l ++ rest) := fun hmiss =>
      hrest (hl.inj hmiss (List.append_nil _).symm).2.1
    have hcall := h.other hhit hmiss 0
    rw [callGet, getOn_of_end hl] at hcall
    cases hcall

theorem Framed.costsAMiss (h : Framed memory bs eof) : CostsAMiss checks memory bs eof := by
  have hsettles : getOn checks memory bs eof ≠ .panic ∧
      (eof = true → getOn checks memory bs eof ≠ .more) := by
    rcases getOn_cases checks memory bs eof with
      ⟨l, rest, rfl, hl⟩ | ⟨l, rest, header, n, rfl, hl, hn⟩ | hfail | ⟨hmore, heof⟩
    · rw [getOn_of_end hl]
      simp
    · have hle := h.fits l rest header n rfl hl hn
      rw [getOn_of_header hl hn (lt_of_le_maxAlloc hle), if_neg (not_lt.2 hle)]
      exact settles_valueBlock n (n + 2) rest eof
    · rw [hfail]
      simp
    · rw [hmore, heof]
      simp
  have hvalue : ∀ v rest, getOn checks memory bs eof = .done (some v) rest → IsHit eof bs v := by
    intro v rest hread
    rcases getOn_cases checks memory bs eof with
      ⟨l, rest, rfl, hl⟩ | ⟨l, rest', header, n, rfl, hl, hn⟩ | hfail | ⟨hmore, -⟩
    · rw [getOn_of_end hl] at hread
      cases hread
    · have hle := h.fits l rest' header n rfl hl hn
      rw [getOn_of_header hl hn (lt_of_le_maxAlloc hle), if_neg (not_lt.2 hle)] at hread
      obtain ⟨block, last, text, rfl, hblock, hlast, htext, hv⟩ := valueBlock_eq_done_iff.1 hread
      obtain rfl := Option.some.inj hv
      obtain ⟨hcrlf, rfl⟩ := h.crlf l v header n block last rest rfl hl hn hblock hlast htext
      have hencode := Utf8.decode_eq_some_iff.1 htext
      have hbytes : block = Utf8.encode v ++ [0x0d, 0x0a] := by
        rw [hencode, ← hcrlf, List.take_append_drop]
      have hlen : (Utf8.encode v).length = n := by
        rw [hencode, List.length_take, hblock, Nat.min_eq_left (Nat.le_add_right n 2)]
      rw [List.append_nil, hbytes] at hl
      refine ⟨l, header, last, ?_, hl, hlen.symm ▸ hn, hlast⟩
      rw [List.append_nil, hbytes]
    · rw [hfail] at hread
      cases hread
    · rw [hmore] at hread
      cases hread
  constructor
  · intro l rest header n hbs hl hn
    exact lt_of_le_maxAlloc (h.fits l rest header n hbs hl hn)
  · exact hsettles
  · exact hvalue
  · intro hhit hmiss idle
    rw [callGet]
    cases hread : getOn checks memory bs eof with
    | more => rfl
    | fail => rfl
    | panic => exact absurd hread hsettles.1
    | done out rest =>
      cases out with
      | some v => exact absurd (hvalue v rest hread) (hhit v)
      | none =>
        rcases getOn_cases checks memory bs eof with
          ⟨l, rest, rfl, hl⟩ | ⟨l, rest', header, n, rfl, hl, hn⟩ | hfail | ⟨hmore, -⟩
        · obtain rfl := h.alone l rest rfl hl
          rw [List.append_nil] at hmiss
          exact absurd hl hmiss
        · have hle := h.fits l rest' header n rfl hl hn
          rw [getOn_of_header hl hn (lt_of_le_maxAlloc hle), if_neg (not_lt.2 hle)] at hread
          obtain ⟨_, _, _, -, -, -, -, hnone⟩ := valueBlock_eq_done_iff.1 hread
          cases hnone
        · rw [hfail] at hread
          cases hread
        · rw [hmore] at hread
          cases hread

/-- A reply to a get does no more harm than a miss exactly if its lengths, its line ends and its end
are right, in a build with overflow checks as in one without. -/
theorem costsAMiss_iff (checks : Bool) (memory : ℕ) (bs : List UInt8) (eof : Bool) :
    CostsAMiss checks memory bs eof ↔ Framed memory bs eof :=
  ⟨fun h => h.framed, fun h => h.costsAMiss⟩

end Replies

/-! ### A reply with a length that does not fit -/

/-- The header that announces the largest length of 64 bits, to which two more are added. -/
def hugeHeader : String := "VALUE k 0 18446744073709551615"

/-- A reply to a get with this header, and no data behind it. -/
def hugeReply : List UInt8 := Utf8.encode (hugeHeader ++ "\r\n") ++ Utf8.encode "END\r\n"

theorem lineOf_hugeHeader (rest : List UInt8) :
    LineOf false (Utf8.encode (hugeHeader ++ "\r\n")) rest hugeHeader :=
  ⟨.inl ⟨Utf8.encode (hugeHeader ++ "\r"), by decide, by decide⟩, _, rfl, by decide⟩

theorem isValueHeader_hugeHeader : IsValueHeader hugeHeader 18446744073709551615 :=
  valueLen_eq_some_iff.1 (by decide)

/-- The call panics where overflow is checked. Where it is not, a buffer of one byte is filled, and
the byte is the value if the line after it is `END`. -/
theorem hugeReply_not_costsAMiss :
    getOn true maxAlloc hugeReply false = .panic ∧
    getOn false maxAlloc (Utf8.encode (hugeHeader ++ "\r\n") ++ Utf8.encode "xEND\r\n") false =
      .done (some "x") [] ∧
    ∀ checks, ¬ CostsAMiss checks maxAlloc hugeReply false := by
  have hheader : ∀ rest, readLine (Utf8.encode (hugeHeader ++ "\r\n") ++ rest) false =
      .done hugeHeader rest := fun rest => readLine_eq_done_iff.2 ⟨_, rfl, lineOf_hugeHeader rest⟩
  have hlen := valueLen_eq_some_iff.2 isValueHeader_hugeHeader
  have hend := isValueHeader_hugeHeader.ne_end
  refine ⟨?_, ?_, fun checks h => ?_⟩
  · rw [getOn, hugeReply, Reader.bind_of_done (hheader _), if_neg hend, hlen]
    rfl
  · rw [getOn, Reader.bind_of_done (hheader _), if_neg hend, hlen]
    refine valueBlock_eq_done_iff.2
      ⟨Utf8.encode "x", Utf8.encode "END\r\n", "x", rfl, rfl, ?_, ?_, rfl⟩
    · exact ⟨.inl ⟨Utf8.encode "END\r", by decide, by decide⟩, _, rfl, by decide⟩
    · rw [List.take_of_length_le (by decide), Utf8.decode_encode]
  · exact absurd (h.no_overflow _ _ _ _ rfl (lineOf_hugeHeader _) isValueHeader_hugeHeader)
      (by decide)

/-! ### The steps of the pool -/

/-- With overflow checks, where memory is no matter, a reply is read as in the pool. -/
theorem getOn_eq_getReply : getOn true maxAlloc = getReply := by
  rw [getOn, getReply]
  congr 1
  funext header
  split_ifs with hend
  · rfl
  · cases valueLen header with
    | none => rfl
    | some len =>
      by_cases hlen : len + 2 < 2 ^ 64
      · simp only [blockLen, if_pos hlen, min_self]
        rfl
      · have hlt : maxAlloc < len + 2 := by
          rw [maxAlloc]
          omega
        simp only [blockLen, if_neg hlen, if_pos hlt]
        rfl

section Pool

variable {ι : Type} [DecidableEq ι] {op : ι → Op} {s : Pool ι} {r : ι} {c : ℕ} {key : String}
  {got : Option String} {pooled : Option (List UInt8)}

/-- A call that awaits its reply when its time is up ends in the pool as `callGet` says. -/
theorem exists_run_callGet (hpc : s.pc r = .reading c) (hop : op r = .get key)
    (hlate : s.deadline r ≤ s.now)
    (h : callGet true maxAlloc s.idle.length (s.conns c).arrived (s.conns c).closed =
      .returned got pooled) :
    ∃ (as : List (PoolAction ι)) (s' : Pool ι), Transition.run (poolStep op) as s = some s' ∧
      (∃ out, s'.pc r = .done out) ∧ (s'.pc r).got = got ∧
      s'.idle = (if pooled.isSome then c :: s.idle else s.idle) ∧
      ∀ unread ∈ pooled, (s'.conns c).arrived = unread := by
  have hreply : (op r).reply = getReply.bind fun v => .pure (.got v) := by
    rw [hop]
    rfl
  rw [callGet, getOn_eq_getReply] at h
  cases hread : getReply (s.conns c).arrived (s.conns c).closed with
  | more =>
    rw [hread] at h
    cases h
    have htimeout : callStep op s r .timeout = some (s.failed r) := by
      simp only [callStep, hpc]
      exact if_pos ⟨rfl, hlate⟩
    refine ⟨[.call r .timeout], s.failed r, ?_, ⟨none, ?_⟩, ?_, rfl, by simp⟩
    · simp [Transition.run, poolStep, htimeout]
    all_goals simp [Pool.failed, Pool.setPc, Pc.got]
  | fail =>
    rw [hread] at h
    cases h
    have hreceive : callStep op s r .receive = some (s.failed r) := by
      simp only [callStep, hpc, hreply, Reader.bind, hread]
    refine ⟨[.call r .receive], s.failed r, ?_, ⟨none, ?_⟩, ?_, rfl, by simp⟩
    · simp [Transition.run, poolStep, hreceive]
    all_goals simp [Pool.failed, Pool.setPc, Pc.got]
  | panic =>
    rw [hread] at h
    cases h
  | done out rest =>
    rw [hread] at h
    cases h
    let t := (s.setConn c { s.conns c with arrived := rest }).setPc r (.releasing c (.got got))
    let t' := { t with idle := if t.idle.length < poolSize then c :: t.idle else t.idle }.setPc r
      (.done (some (.got got)))
    have hreceive : callStep op s r .receive = some t := by
      simp only [callStep, hpc, hreply, Reader.bind, hread]
      rfl
    have hrelease : callStep op t r .release = some t' := by
      simp [callStep, t, t', Pool.setPc]
    refine ⟨[.call r .receive, .call r .release], t', ?_, ⟨some (.got got), ?_⟩, ?_, ?_, ?_⟩
    · simp [Transition.run, poolStep, hreceive, hrelease]
    · simp [t', Pool.setPc]
    · simp [t', Pool.setPc, Pc.got]
    · by_cases hidle : s.idle.length < poolSize <;>
        simp [t', t, Pool.setPc, Pool.setConn, hidle]
    · by_cases hidle : s.idle.length < poolSize <;>
        simp [t', t, Pool.setPc, Pool.setConn, hidle]

end Pool

end Traintime.Server.Memcached
