import Traintime.Lib.Regex

/-!
# The syntax of patterns

The texts of patterns: letters, digits and some signs that stand for themselves, `[^c]`, `[a-z]`,
groups with and without capture, `?`, `*` and `+`, and the flag `(?i)` in front. Of a text with
anything else nothing is said.

## Main definitions

* `Regex.Token`, `Regex.lex`: the parts of a text.
* `Regex.parse`: the pattern of a text.
* `Regex.Denotes`: what a part of a text stands for.
* `Regex.Same`: patterns that match alike.

## Main results

* `Regex.Denotes.append`, `Regex.Denotes.parse_eq`: texts are read part by part.
* `Regex.Same.find_eq`, `Regex.Same.findIter_eq`: such patterns find the same matches.
-/

namespace Regex

/-! ### Reading -/

/-- A token of the text of a pattern. Only the syntax that is listed here is read. -/
inductive Token
  | literal (c : Char)
  /-- `[^c]`. -/
  | except (c : Char)
  /-- `[lo-hi]`, of small letters. -/
  | range (lo hi : Char)
  /-- `(?:` or `(`. -/
  | opening (capture : Bool)
  | closing
  /-- `?`. -/
  | optional
  /-- `*`. -/
  | repeated
  /-- `+`. -/
  | repeated1
deriving DecidableEq, Repr

/-- The characters that stand for themselves. -/
def isLiteral (c : Char) : Bool := c.isAlphanum || c ∈ ['<', '>', '/', ':', ' ', '"', '=', '_', ';']

/-- The tokens of a text. -/
def lex : List Char → Option (List Token)
  | [] => some []
  | c :: s =>
    if isLiteral c then (lex s).map (.literal c :: ·)
    else
      match c, s with
      | '[', '^' :: d :: ']' :: s => if isLiteral d then (lex s).map (.except d :: ·) else none
      | '[', lo :: '-' :: hi :: ']' :: s =>
        if lo.isLower && hi.isLower then (lex s).map (.range lo hi :: ·) else none
      | '(', '?' :: ':' :: s => (lex s).map (.opening false :: ·)
      | '(', '?' :: _ => none
      | '(', s => (lex s).map (.opening true :: ·)
      | ')', s => (lex s).map (.closing :: ·)
      | '?', s => (lex s).map (.optional :: ·)
      | '*', s => (lex s).map (.repeated :: ·)
      | '+', s => (lex s).map (.repeated1 :: ·)
      | _, _ => none

/-- One pattern after the other. -/
def sequence (l : List Regex) : Regex := l.foldr cat empty

/-- What has been read: the groups that are open, the inner ones first, each with the patterns before
it, and the patterns of the innermost, the last one first. -/
structure Groups where
  outer : List (Bool × List Regex)
  inner : List Regex

namespace Groups

/-- A pattern behind the others of the innermost group. -/
def push (st : Groups) (r : Regex) : Groups := { st with inner := r :: st.inner }

/-- A quantifier after the pattern. One after a quantifier has a meaning of its own. -/
def quantify : Token → Regex → Option Regex
  | .optional, many _ => none
  | .optional, opt _ => none
  | .optional, cat (set _) (many _) => none
  | .optional, r => some (opt r)
  | .repeated, set p => some (many p)
  | .repeated1, set p => some (many1 p)
  | _, _ => none

/-- Reads a token. -/
def read (ci : Bool) (st : Groups) : Token → Option Groups
  | .literal c => some (st.push (set (sameLetter ci c)))
  | .except c => some (st.push (set fun d => !sameLetter ci c d))
  | .range lo hi =>
    some (st.push (set fun d =>
      let d := if ci then foldCase d else d
      lo ≤ d && d ≤ hi))
  | .opening capture => some ⟨(capture, st.inner) :: st.outer, []⟩
  | .closing =>
    match st.outer with
    | (capture, before) :: outer =>
      let r := sequence st.inner.reverse
      some ⟨outer, (if capture then group r else r) :: before⟩
    | [] => none
  | quantifier =>
    match st.inner with
    | r :: inner => (quantify quantifier r).map fun r => ⟨st.outer, r :: inner⟩
    | [] => none

/-- The pattern, when no group is open. -/
def close (st : Groups) : Option Regex :=
  if st.outer.isEmpty then some (sequence st.inner.reverse) else none

end Groups

/-- The pattern of a text. -/
def parse (text : List Char) : Option Regex :=
  let (ci, s) := match text with
    | '(' :: '?' :: 'i' :: ')' :: s => (true, s)
    | s => (false, s)
  ((lex s).bind (List.foldlM (Groups.read ci) ⟨[], []⟩)).bind Groups.close

/-! ### What is read -/

/-- The text is read as the tokens, whatever follows. -/
def Lexes (text : List Char) (ts : List Token) : Prop :=
  ∀ s us, lex s = some us → lex (text ++ s) = some (ts ++ us)

theorem Lexes.append {x y : List Char} {ts us : List Token} (hx : Lexes x ts) (hy : Lexes y us) :
    Lexes (x ++ y) (ts ++ us) := fun s vs hs => by
  rw [List.append_assoc, List.append_assoc]
  exact hx _ _ (hy s vs hs)

theorem Lexes.lex_eq {x : List Char} {ts : List Token} (h : Lexes x ts) : lex x = some ts := by
  have hx := h [] [] rfl
  rwa [List.append_nil, List.append_nil] at hx

theorem Lexes.of_eq {x : List Char} {t : Token} (h : ∀ s, lex (x ++ s) = (lex s).map (t :: ·)) :
    Lexes x [t] := fun s us hs => by
  rw [h, hs]
  rfl

theorem lex_literal {c : Char} (hc : isLiteral c = true) (s : List Char) :
    lex (c :: s) = (lex s).map (.literal c :: ·) := by
  rw [lex.eq_def]
  exact if_pos hc

theorem lexes_word {w : List Char} (hw : ∀ c ∈ w, isLiteral c = true) :
    Lexes w (w.map .literal) := by
  intro s us hs
  induction w with
  | nil => exact hs
  | cons c w ih =>
    rw [List.cons_append, lex_literal (hw c List.mem_cons_self),
      ih fun d hd => hw d (List.mem_cons_of_mem c hd)]
    rfl

theorem lexes_except {c : Char} (hc : isLiteral c = true) :
    Lexes ['[', '^', c, ']'] [.except c] := by
  intro s us hs
  show (if isLiteral c then (lex s).map (.except c :: ·) else none) = _
  rw [if_pos hc, hs]
  rfl

theorem lexes_range {lo hi : Char} (hlo : lo.isLower = true) (hhi : hi.isLower = true) :
    Lexes ['[', lo, '-', hi, ']'] [.range lo hi] := by
  intro s us hs
  have hopen : isLiteral '[' = false := by decide
  have hne : lo ≠ '^' := by
    rintro rfl
    exact absurd hlo (by decide)
  rw [lex.eq_def]
  simp [hopen, hlo, hhi, hne, hs]

theorem lexes_opening : Lexes ['(', '?', ':'] [.opening false] := .of_eq fun _ => rfl

/-- A group is one with capture unless a question mark follows. -/
theorem lexes_capture {c : Char} {x : List Char} {ts : List Token} (hc : c ≠ '?')
    (h : Lexes (c :: x) ts) : Lexes ('(' :: c :: x) (.opening true :: ts) := by
  intro s us hs
  have hopen : isLiteral '(' = false := by decide
  have hrest := h s us hs
  rw [List.cons_append] at hrest
  rw [List.cons_append, List.cons_append, lex.eq_def]
  simp [hopen, hc, hrest]

theorem lexes_closing : Lexes [')'] [.closing] := .of_eq fun _ => rfl

theorem lexes_optional : Lexes ['?'] [.optional] := .of_eq fun _ => rfl

theorem lexes_repeated : Lexes ['*'] [.repeated] := .of_eq fun _ => rfl

theorem lexes_repeated1 : Lexes ['+'] [.repeated1] := .of_eq fun _ => rfl

/-! ### Characters without case -/

/-- Folding gives a small letter where it changes anything. -/
theorem foldCase_eq_self_or (d : Char) : foldCase d = d ∨ (foldCase d).isLower = true := by
  rw [foldCase]
  split_ifs
  · exact .inr (by decide)
  · exact .inr (by decide)
  · delta Char.toLower
    split_ifs with h
    · right
      delta Char.isLower
      simp only [ge_iff_le, UInt32.le_iff_toNat_le, Bool.and_eq_true, decide_eq_true_eq,
        UInt32.toNat_add] at h ⊢
      have hA : 'A'.val.toNat = 65 := rfl
      have hZ : 'Z'.val.toNat = 90 := rfl
      have ha : 'a'.val.toNat = 97 := rfl
      have hz : 'z'.val.toNat = 122 := rfl
      have hdiff : ('a'.val - 'A'.val).toNat = 32 := rfl
      omega
    · exact .inl rfl

/-- A sign has no case. -/
theorem sameLetter_sign {c : Char} (hc : c.isLower = false) (hfold : foldCase c = c) (ci : Bool) :
    sameLetter ci c = (· == c) := by
  funext d
  cases ci with
  | false => rfl
  | true =>
    show (foldCase d == foldCase c) = (d == c)
    rw [hfold]
    rcases foldCase_eq_self_or d with h | h
    · rw [h]
    · have hne : ∀ e : Char, e.isLower = true → e ≠ c := by
        rintro e he rfl
        rw [hc] at he
        cases he
      have hd : d ≠ c := by
        rintro rfl
        exact hne _ h hfold
      rw [beq_eq_false_iff_ne.2 (hne _ h), beq_eq_false_iff_ne.2 hd]

theorem range_eq_isLower (ci : Bool) :
    (fun d =>
      let d := if ci then foldCase d else d
      decide ('a' ≤ d) && decide (d ≤ 'z')) = isLower ci := by
  funext d
  have hrange : ∀ e : Char, (decide ('a' ≤ e) && decide (e ≤ 'z')) = e.isLower := fun e => rfl
  cases ci <;> exact hrange _

/-! ### Patterns that match alike -/

/-- The patterns match alike. -/
def Same (r r' : Regex) : Prop :=
  ∀ {β : Type} gs s (k : List (List Char) → Place → Option β), r.exec gs s k = r'.exec gs s k

variable {r r' : Regex}

namespace Same

theorem matchAt_eq (h : Same r r') (s : Place) : r.matchAt s = r'.matchAt s := h _ _ _

theorem find_eq (h : Same r r') (s : Place) : r.find s = r'.find s := by
  induction s with
  | nil => exact h.matchAt_eq []
  | cons c s ih => rw [find, find, h.matchAt_eq, ih]

theorem findIterFrom_eq (h : Same r r') (n : ℕ) (s : Place) :
    r.findIterFrom n s = r'.findIterFrom n s := by
  fun_induction findIterFrom r n s with
  | case1 n => rw [findIterFrom]
  | case2 n c s ih => rw [findIterFrom, ih]
  | case3 c s m hm ih => rw [findIterFrom, ← h.matchAt_eq, hm, ih]
  | case4 c s hm ih => rw [findIterFrom, ← h.matchAt_eq, hm, ih]

theorem findIter_eq (h : Same r r') (s : Place) : r.findIter s = r'.findIter s :=
  h.findIterFrom_eq 0 s

end Same

namespace Same

variable {a a' b b' c : Regex}

theorem trans (ha : Same a b) (hb : Same b c) : Same a c := fun gs s k =>
  (ha gs s k).trans (hb gs s k)

theorem cat (ha : Same a a') (hb : Same b b') : Same (a.cat b) (a'.cat b') := fun gs s k => by
  have hrest : (fun gs s => b.exec gs s k) = fun gs s => b'.exec gs s k := by
    funext gs s
    exact hb gs s k
  show a.exec gs s (fun gs s => b.exec gs s k) = a'.exec gs s fun gs s => b'.exec gs s k
  rw [hrest]
  exact ha gs s _

theorem opt (ha : Same a a') : Same a.opt a'.opt := fun gs s k =>
  congrArg (·.or (k gs s)) (ha gs s k)

theorem group (ha : Same a a') : Same a.group a'.group := fun gs s _ => ha gs s _

end Same

/-- Patterns in a row can be grouped. -/
theorem same_sequence_append (l l' : List Regex) :
    Same (sequence (l ++ l')) ((sequence l).cat (sequence l')) := by
  intro β gs s k
  induction l generalizing gs s with
  | nil => rfl
  | cons r l ih =>
    show r.exec gs s (fun gs s => (sequence (l ++ l')).exec gs s k) = _
    simp only [ih]
    rfl

theorem same_sequence_singleton (r : Regex) : Same (sequence [r]) r := fun _ _ _ => rfl

theorem same_sequence_word (ci : Bool) (w : List Char) :
    Same (sequence (w.map fun c => set (sameLetter ci c))) (text ci w) := by
  intro β gs s k
  induction w generalizing gs s with
  | nil => rfl
  | cons c w ih =>
    show (set (sameLetter ci c)).exec gs s (fun gs s =>
      (sequence (w.map fun c => set (sameLetter ci c))).exec gs s k) = _
    simp only [ih]
    rfl

/-! ### What a text stands for -/

/-- The text stands for the pattern, whatever is around it. -/
def Denotes (ci : Bool) (x : List Char) (r : Regex) : Prop :=
  ∃ ts rs, Lexes x ts ∧ Same (sequence rs) r ∧ ∀ st : Groups,
    ts.foldlM (Groups.read ci) st = some { st with inner := rs.reverse ++ st.inner }

theorem sequence_ne_many (rs : List Regex) (p : Char → Bool) : sequence rs ≠ many p := by
  cases rs <;> nofun

/-- What is in a group is not read as a repetition. -/
theorem quantify_sequence (rs : List Regex) :
    Groups.quantify .optional (sequence rs) = some (sequence rs).opt := by
  cases rs with
  | nil => rfl
  | cons r rs =>
    have hne := sequence_ne_many rs
    show Groups.quantify .optional (r.cat (sequence rs)) = some (r.cat (sequence rs)).opt
    generalize sequence rs = q at hne ⊢
    cases r <;> cases q <;> first | rfl | exact absurd rfl (hne _)

namespace Denotes

variable {ci : Bool} {x y : List Char} {q : Regex}

theorem append (hx : Denotes ci x r) (hy : Denotes ci y q) : Denotes ci (x ++ y) (r.cat q) := by
  obtain ⟨ts, rs, hx, hr, hts⟩ := hx
  obtain ⟨us, qs, hy, hq, hus⟩ := hy
  refine ⟨ts ++ us, rs ++ qs, hx.append hy, Same.trans (same_sequence_append rs qs) (hr.cat hq),
    fun st => ?_⟩
  rw [List.foldlM_append, hts, List.reverse_append, List.append_assoc]
  exact hus _

/-- The letters of a word stand for themselves. -/
theorem word {w : List Char} (hw : ∀ c ∈ w, isLiteral c = true) : Denotes ci w (text ci w) := by
  refine ⟨_, _, lexes_word hw, same_sequence_word ci w, fun st => ?_⟩
  clear hw
  induction w generalizing st with
  | nil => rfl
  | cons c w ih =>
    rw [List.map_cons, List.foldlM_cons, List.map_cons, List.reverse_cons, List.append_assoc]
    exact ih _

section Sign

variable {c : Char} (hc : isLiteral c = true) (hsmall : c.isLower = false) (hfold : foldCase c = c)

include hc hsmall hfold

theorem sign : Denotes ci [c] (char c) := by
  have hlex : Lexes [c] ([c].map .literal) := lexes_word (by simpa using hc)
  refine ⟨_, [set (sameLetter ci c)], hlex, ?_, fun st => rfl⟩
  rw [sameLetter_sign hsmall hfold]
  exact same_sequence_singleton _

/-- `[^c]*`. -/
theorem exceptMany : Denotes ci ['[', '^', c, ']', '*'] (many (· != c)) := by
  have hlex : Lexes ['[', '^', c, ']', '*'] [.except c, .repeated] :=
    (lexes_except hc).append lexes_repeated
  refine ⟨_, [many fun d => !sameLetter ci c d], hlex, ?_, fun st => rfl⟩
  rw [sameLetter_sign hsmall hfold]
  exact same_sequence_singleton _

end Sign

/-- `[a-z]+`. -/
theorem lowerMany1 : Denotes ci ['[', 'a', '-', 'z', ']', '+'] (many1 (isLower ci)) := by
  have hlex : Lexes ['[', 'a', '-', 'z', ']', '+'] [.range 'a' 'z', .repeated1] :=
    (lexes_range rfl rfl).append lexes_repeated1
  rw [← range_eq_isLower]
  exact ⟨_, [_], hlex, same_sequence_singleton _, fun st => rfl⟩

/-- `(x)`. -/
theorem capture {c : Char} (hc : c ≠ '?') (hx : Denotes ci (c :: x) r) :
    Denotes ci ('(' :: c :: x ++ [')']) r.group := by
  obtain ⟨ts, rs, hx, hr, hts⟩ := hx
  refine ⟨.opening true :: ts ++ [.closing], [(sequence rs).group],
    (lexes_capture hc hx).append lexes_closing, hr.group, fun st => ?_⟩
  rw [List.cons_append, List.foldlM_cons]
  show (ts ++ [Token.closing]).foldlM (Groups.read ci) ⟨(true, st.inner) :: st.outer, []⟩ = _
  rw [List.foldlM_append, hts, List.append_nil]
  show some _ = some _
  rw [List.reverse_reverse]
  rfl

/-- `(?:x)?`. -/
theorem optional (hx : Denotes ci x r) :
    Denotes ci (['(', '?', ':'] ++ x ++ [')', '?']) r.opt := by
  obtain ⟨ts, rs, hx, hr, hts⟩ := hx
  have hclose : Lexes [')', '?'] [.closing, .optional] := lexes_closing.append lexes_optional
  refine ⟨.opening false :: ts ++ [.closing, .optional], [(sequence rs).opt],
    (lexes_opening.append hx).append hclose, hr.opt, fun st => ?_⟩
  rw [List.cons_append, List.foldlM_cons]
  show (ts ++ [Token.closing, Token.optional]).foldlM (Groups.read ci)
    ⟨(false, st.inner) :: st.outer, []⟩ = _
  rw [List.foldlM_append, hts, List.append_nil]
  show ((Groups.quantify .optional (sequence rs.reverse.reverse)).map fun r =>
    (⟨st.outer, r :: st.inner⟩ : Groups)).bind some = _
  rw [List.reverse_reverse, quantify_sequence]
  rfl

theorem parse_eq (h : Denotes false x r) (hx : x.head? ≠ some '(') :
    ∃ r', parse x = some r' ∧ Same r' r := by
  obtain ⟨ts, rs, hlex, hr, hread⟩ := h
  have hflag : parse x =
      ((lex x).bind (List.foldlM (Groups.read false) ⟨[], []⟩)).bind Groups.close := by
    rw [parse]
    rintro s rfl
    exact hx rfl
  refine ⟨sequence rs, ?_, hr⟩
  rw [hflag, hlex.lex_eq, Option.bind_some, hread, List.append_nil, Option.bind_some]
  exact congrArg (some ∘ sequence) rs.reverse_reverse

theorem parse_flag_eq (h : Denotes true x r) :
    ∃ r', parse (['(', '?', 'i', ')'] ++ x) = some r' ∧ Same r' r := by
  obtain ⟨ts, rs, hlex, hr, hread⟩ := h
  refine ⟨sequence rs, ?_, hr⟩
  show ((lex x).bind (List.foldlM (Groups.read true) ⟨[], []⟩)).bind Groups.close = _
  rw [hlex.lex_eq, Option.bind_some, hread, List.append_nil, Option.bind_some]
  exact congrArg (some ∘ sequence) rs.reverse_reverse

end Denotes

end Regex
