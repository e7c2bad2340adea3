import Mathlib.Data.List.Infix

/-!
# Readers of a byte stream that arrives in pieces

A reader sees the bytes of a stream that have arrived and whether the stream has ended. It asks
for more, fails, or takes some of the bytes and leaves the rest. What it does depends on the bytes
alone, not on the pieces they arrive in, as long as it asks for more on the shorter ones.

## Main definitions

* `Reader`, `Reader.bind`: readers and their sequence.
* `Reader.line`, `Reader.exact`: up to the end of a line, and a number of bytes.
* `Reader.Settles`: readers that come to an end.
* `Reader.IsLine`: the lines of a stream.

## Main results

* `Reader.line_append`, `Reader.line_of_isPrefix`: a line and its beginnings.
* `Reader.exact_append`, `Reader.exact_of_lt`: a block and its beginnings.
* `Reader.line_eq_done_iff`, `Reader.exact_eq_done_iff`: what has been read.
-/

/-- What a reader makes of the bytes that have arrived. -/
inductive Reader.Result (α : Type)
  | more
  | fail
  | panic
  | done (a : α) (rest : List UInt8)
deriving DecidableEq, Repr

/-- A reader of the bytes that have arrived, told whether the stream has ended after them. -/
def Reader (α : Type) := List UInt8 → Bool → Reader.Result α

namespace Reader

variable {α β : Type}

/-- The reader that takes nothing and gives a value. -/
def pure (a : α) : Reader α := fun bs _ => .done a bs

/-- The reader that gives up, whatever has arrived. -/
def fail : Reader α := fun _ _ => .fail

/-- The reader that ends with a panic, whatever has arrived. -/
def panic : Reader α := fun _ _ => .panic

/-- One reader after the other. -/
def bind (m : Reader α) (f : α → Reader β) : Reader β := fun bs eof =>
  match m bs eof with
  | .more => .more
  | .fail => .fail
  | .panic => .panic
  | .done a rest => f a rest eof

/-- The newline. -/
def nl : UInt8 := 0x0a

/-- The bytes up to a newline or the end of the stream. -/
def line : Reader (List UInt8) := fun bs eof =>
  if nl ∈ bs then
    .done (bs.takeWhile (· != nl) ++ [nl]) (bs.dropWhile (· != nl)).tail
  else if eof then .done bs [] else .more

/-- A number of bytes. -/
def exact (n : ℕ) : Reader (List UInt8) := fun bs eof =>
  if n ≤ bs.length then .done (bs.take n) (bs.drop n) else if eof then .fail else .more

variable {bs rest l p q : List UInt8} {eof : Bool} {a : α} {b : β} {n : ℕ}

theorem bind_eq_done_iff {m : Reader α} {f : α → Reader β} :
    m.bind f bs eof = .done b rest ↔
      ∃ a bs', m bs eof = .done a bs' ∧ f a bs' eof = .done b rest := by
  unfold bind
  cases m bs eof with
  | done a bs' => simp
  | more => simp
  | fail => simp
  | panic => simp

theorem bind_eq_panic_iff {m : Reader α} {f : α → Reader β} :
    m.bind f bs eof = .panic ↔
      m bs eof = .panic ∨ ∃ a bs', m bs eof = .done a bs' ∧ f a bs' eof = .panic := by
  unfold bind
  cases m bs eof with
  | done a bs' => simp
  | more => simp
  | fail => simp
  | panic => simp

theorem bind_eq_more_iff {m : Reader α} {f : α → Reader β} :
    m.bind f bs eof = .more ↔
      m bs eof = .more ∨ ∃ a bs', m bs eof = .done a bs' ∧ f a bs' eof = .more := by
  unfold bind
  cases m bs eof with
  | done a bs' => simp
  | more => simp
  | fail => simp
  | panic => simp

theorem bind_of_done {m : Reader α} {f : α → Reader β} (h : m bs eof = .done a rest) :
    m.bind f bs eof = f a rest eof := by
  rw [bind, h]

/-- A beginning of a stream of two parts ends in the first or has all of it. -/
theorem prefix_append_cases (h : p <+: l ++ q) :
    (p <+: l ∧ p ≠ l) ∨ ∃ r, r <+: q ∧ p = l ++ r := by
  rcases List.prefix_or_prefix_of_prefix h (List.prefix_append l q) with hpl | ⟨r, rfl⟩
  · by_cases hne : p = l
    · exact .inr ⟨[], List.nil_prefix, by rw [hne, List.append_nil]⟩
    · exact .inl ⟨hpl, hne⟩
  · exact .inr ⟨r, (List.prefix_append_right_inj l).1 h, rfl⟩

/-- A beginning of a line has no newline, unless it is the whole line. -/
theorem not_mem_of_isPrefix (hl : nl ∉ l) (hp : p <+: l ++ [nl]) (hne : p ≠ l ++ [nl]) : nl ∉ p := by
  rcases List.prefix_concat_iff.1 hp with h | h
  · exact absurd h hne
  · exact fun hnl => hl (h.subset hnl)

theorem line_append (hl : nl ∉ l) (q : List UInt8) (eof : Bool) :
    line (l ++ nl :: q) eof = .done (l ++ [nl]) q := by
  have hne : ∀ b ∈ l, (b != nl) = true := fun b hb => bne_iff_ne.2 fun h => hl (h ▸ hb)
  have hnl : (nl != nl) = false := rfl
  have htake : (l ++ nl :: q).takeWhile (· != nl) = l := by
    rw [List.takeWhile_append_of_pos hne, List.takeWhile_cons, hnl, if_neg (by decide),
      List.append_nil]
  have hdrop : (l ++ nl :: q).dropWhile (· != nl) = nl :: q := by
    rw [List.dropWhile_append_of_pos hne, List.dropWhile_cons, hnl, if_neg (by decide)]
  rw [line, if_pos (by simp), htake, hdrop, List.tail_cons]

theorem line_of_not_mem (hl : nl ∉ l) :
    line l eof = if eof then .done l [] else .more := by
  rw [line, if_neg hl]

/-- What is read of a beginning of a line is all of it. -/
theorem line_of_isPrefix (hl : nl ∉ l) (hp : p <+: l ++ [nl]) (h : line p eof = .done bs rest) :
    bs = p ∧ rest = [] ∧ (eof = true ∨ p = l ++ [nl]) := by
  by_cases hpl : p = l ++ [nl]
  · subst hpl
    rw [line_append hl] at h
    obtain ⟨rfl, rfl⟩ := Result.done.inj h
    exact ⟨rfl, rfl, .inr rfl⟩
  · rw [line_of_not_mem (not_mem_of_isPrefix hl hp hpl)] at h
    cases eof with
    | false => cases h
    | true =>
      obtain ⟨rfl, rfl⟩ := Result.done.inj h
      exact ⟨rfl, rfl, .inl rfl⟩

theorem exact_append (l q : List UInt8) (eof : Bool) :
    exact l.length (l ++ q) eof = .done l q := by
  rw [exact, if_pos (by simp), List.take_left, List.drop_left]

theorem exact_of_lt (h : bs.length < n) : exact n bs eof = if eof then .fail else .more := by
  rw [exact, if_neg (not_le.2 h)]

/-- A block is read in whole or not at all. -/
theorem exact_ne_done_of_lt (h : bs.length < n) : exact n bs eof ≠ .done l rest := by
  rw [exact_of_lt h]
  cases eof <;> simp

theorem exact_eq_done_iff : exact n bs eof = .done l rest ↔ bs = l ++ rest ∧ l.length = n := by
  constructor
  · intro h
    by_cases hn : bs.length < n
    · exact absurd h (exact_ne_done_of_lt hn)
    · rw [exact, if_pos (not_lt.1 hn)] at h
      obtain ⟨rfl, rfl⟩ := Result.done.inj h
      exact ⟨(List.take_append_drop n bs).symm, List.length_take_of_le (not_lt.1 hn)⟩
  · rintro ⟨rfl, rfl⟩
    exact exact_append l rest eof

/-! ### Readers that settle -/

/-- A reader that does not panic, and that asks for no more once the stream has ended. -/
def Settles (m : Reader α) : Prop := ∀ bs eof, m bs eof ≠ .panic ∧ (eof = true → m bs eof ≠ .more)

theorem settles_pure (a : α) : Settles (pure a) := by
  intro bs eof
  simp [pure]

theorem settles_fail : Settles (fail : Reader α) := by
  intro bs eof
  simp [fail]

theorem settles_line : Settles line := by
  intro bs eof
  rw [line]
  split_ifs with hnl heof <;> simp_all

theorem settles_exact (n : ℕ) : Settles (exact n) := by
  intro bs eof
  rw [exact]
  split_ifs with hn heof <;> simp_all

theorem Settles.bind {m : Reader α} {f : α → Reader β} (hm : Settles m) (hf : ∀ a, Settles (f a)) :
    Settles (m.bind f) := by
  intro bs eof
  constructor
  · rw [ne_eq, bind_eq_panic_iff]
    rintro (h | ⟨a, bs', -, h⟩)
    · exact (hm bs eof).1 h
    · exact (hf a bs' eof).1 h
  · intro heof
    rw [ne_eq, bind_eq_more_iff]
    rintro (h | ⟨a, bs', -, h⟩)
    · exact (hm bs eof).2 heof h
    · exact (hf a bs' eof).2 heof h

/-! ### Lines of a stream -/

/-- The bytes are a line before the rest of a stream: they end in their only newline, or the stream
ends with them. -/
def IsLine (eof : Bool) (l rest : List UInt8) : Prop :=
  (∃ m, nl ∉ m ∧ l = m ++ [nl]) ∨ (nl ∉ l ∧ l ≠ [] ∧ rest = [] ∧ eof = true)

theorem IsLine.ne_nil (h : IsLine eof l rest) : l ≠ [] := by
  rcases h with ⟨m, -, rfl⟩ | ⟨-, hne, -⟩
  · simp
  · exact hne

/-- What is read of a stream is its first line. -/
theorem line_eq_done_iff (hne : l ≠ []) :
    line bs eof = .done l rest ↔ bs = l ++ rest ∧ IsLine eof l rest := by
  constructor
  · intro h
    by_cases hnl : nl ∈ bs
    · obtain ⟨m, q, rfl, hm⟩ := List.eq_append_cons_of_mem hnl
      rw [line_append hm] at h
      obtain ⟨rfl, rfl⟩ := Result.done.inj h
      exact ⟨by simp, .inl ⟨m, hm, rfl⟩⟩
    · rw [line_of_not_mem hnl] at h
      cases eof with
      | false => cases h
      | true =>
        obtain ⟨rfl, rfl⟩ := Result.done.inj h
        exact ⟨(List.append_nil bs).symm, .inr ⟨hnl, hne, rfl, rfl⟩⟩
  · rintro ⟨rfl, ⟨m, hm, rfl⟩ | ⟨hnl, -, rfl, rfl⟩⟩
    · rw [List.append_assoc, List.singleton_append, line_append hm]
    · rw [List.append_nil, line_of_not_mem hnl, if_pos rfl]

/-- A stream has one first line. -/
theorem IsLine.inj {l' rest' : List UInt8} (h : IsLine eof l rest) (h' : IsLine eof l' rest')
    (heq : l ++ rest = l' ++ rest') : l = l' ∧ rest = rest' := by
  have hline := (line_eq_done_iff h.ne_nil).2 ⟨rfl, h⟩
  rw [heq, (line_eq_done_iff h'.ne_nil).2 ⟨rfl, h'⟩] at hline
  obtain ⟨rfl, rfl⟩ := Result.done.inj hline
  exact ⟨rfl, rfl⟩

end Reader
