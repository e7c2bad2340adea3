import Traintime.Lib.Numeral

/-!
# Scripts of SQL statements

Reading the text of a script that replaces and deletes rows: string literals with doubled quotes,
numerals that are read as numbers in double precision, words and symbols. A literal has no NUL.

## Main definitions

* `Sql.lex`: the tokens of a text.
* `Sql.Statement`, `Sql.read`: the statements of a script.
* `Sql.Scans`: a text that is read as some tokens whatever follows.

## Main results

* `Sql.scans_quote`, `Sql.scans_numeral`: literals are read back.
* `Sql.read_of_scans`: a script is read statement by statement.
-/

namespace Sql

/-! ### Tokens -/

/-- A token of a script: a word, a string literal with its quotes undone, a number, or a sign. -/
inductive Token
  | word (s : List Char)
  | text (s : List Char)
  | number (x : Binary64)
  | symbol (c : Char)
deriving DecidableEq, Repr

/-- What the characters read so far are the beginning of. -/
inductive State
  | ground
  | word (acc : List Char)
  | numeral (acc : List Char)
  | text (acc : List Char)
  /-- After a quote in a string literal, which ends there unless another one follows. -/
  | quote (acc : List Char)
deriving DecidableEq, Repr

/-- A character of a name or a keyword. -/
def isWordChar (c : Char) : Bool := c.isAlphanum || c = '_'

/-- The first character of a token, or one between tokens. -/
def start (c : Char) : Option (List Token × State) :=
  if c = ' ' ∨ c = '\n' ∨ c = '\t' ∨ c = '\r' then some ([], .ground)
  else if c.isDigit || c = '.' then some ([], .numeral [c])
  else if isWordChar c then some ([], .word [c])
  else if c = '\'' then some ([], .text [])
  else if "(),;-".toList.contains c then some ([.symbol c], .ground)
  else none

/-- The token of a numeral, with the number that it stands for rounded to double precision. -/
def number (s : List Char) : Option Token :=
  (Numeral.read s).map fun q => .number (Binary64.ofExact q)

/-- The tokens that a state has become when a token ends. -/
def finish : State → Option (List Token)
  | .ground => some []
  | .word acc => some [.word acc]
  | .numeral acc => (number acc).map fun t => [t]
  | .text _ => none
  | .quote acc => some [.text acc]

/-- The character begins a new token. -/
def restart (s : State) (c : Char) : Option (List Token × State) :=
  match finish s, start c with
  | some ts, some (ts', s') => some (ts ++ ts', s')
  | _, _ => none

/-- The tokens that one more character ends, and what is read from then on. There is none after a
character that no token has. -/
def step (s : State) (c : Char) : Option (List Token × State) :=
  match s with
  | .ground => start c
  | .word acc => if isWordChar c then some ([], .word (acc ++ [c])) else restart s c
  | .numeral acc =>
    if Numeral.continues (acc.getLast?.getD ' ') c || isWordChar c then
      some ([], .numeral (acc ++ [c]))
    else restart s c
  | .text acc =>
    if c = '\'' then some ([], .quote acc)
    else if c = '\x00' then none
    else some ([], .text (acc ++ [c]))
  | .quote acc => if c = '\'' then some ([], .text (acc ++ [c])) else restart s c

/-- The tokens of a text and the state after it. -/
def feed : State → List Char → Option (List Token × State)
  | s, [] => some ([], s)
  | s, c :: cs =>
    match step s c with
    | none => none
    | some (ts, s') => (feed s' cs).map fun r => (ts ++ r.1, r.2)

/-- The tokens of a script. A string literal that is not closed at the end is an error. -/
def lex (text : List Char) : Option (List Token) :=
  match feed .ground text with
  | none => none
  | some (ts, s) => (finish s).map fun ts' => ts ++ ts'

/-- A minus belongs to the number after it. -/
def signed : List Token → List Token
  | .symbol '-' :: .number x :: ts => .number x.neg :: signed ts
  | t :: ts => t :: signed ts
  | [] => []

/-! ### Statements -/

/-- A value that a row or a list of values has. -/
inductive Literal
  | text (s : List Char)
  | number (x : Binary64)
deriving DecidableEq, Repr

/-- A statement: rows that are inserted or take the place of those with their key, or the rows with
these keys deleted. -/
inductive Statement
  | insertOrReplace (table : List Char) (columns : List (List Char)) (rows : List (List Literal))
  | deleteIn (table column : List Char) (values : List Literal)
deriving DecidableEq, Repr

/-- The literal that a token is, if it is one. -/
def literal : Token → Option Literal
  | .text s => some (.text s)
  | .number x => some (.number x)
  | _ => none

/-- A place in a list of rows in parentheses. -/
inductive Place
  | row
  | item (items : List Literal)
  | separator (items : List Literal)
  | closed
deriving DecidableEq, Repr

/-- Rows in parentheses, with commas in between. -/
def rows : Place → List Token → Option (List (List Literal))
  | .row, .symbol '(' :: ts => rows (.item []) ts
  | .item items, t :: ts =>
    match literal t with
    | some l => rows (.separator (items ++ [l])) ts
    | none => none
  | .separator items, .symbol ',' :: ts => rows (.item items) ts
  | .separator items, .symbol ')' :: ts => (rows .closed ts).map fun rs => items :: rs
  | .closed, .symbol ',' :: ts => rows .row ts
  | .closed, [] => some []
  | _, _ => none

/-- The names of columns up to a parenthesis. -/
def columns : List Token → Option (List (List Char) × List Token)
  | .word c :: .symbol ',' :: ts => (columns ts).map fun r => (c :: r.1, r.2)
  | .word c :: .symbol ')' :: ts => some ([c], ts)
  | _ => none

/-- The statement of the tokens between two semicolons, with its keywords in capital letters. -/
def statement : List Token → Option Statement
  | .word a :: .word b :: .word c :: .word d :: .word table :: .symbol '(' :: ts =>
    if [a, b, c, d] = ["INSERT".toList, "OR".toList, "REPLACE".toList, "INTO".toList] then
      match columns ts with
      | some (names, .word e :: ts) =>
        if e = "VALUES".toList then (rows .row ts).map (.insertOrReplace table names) else none
      | _ => none
    else none
  | .word a :: .word b :: .word table :: .word c :: .word column :: .word d :: ts =>
    if [a, b, c, d] = ["DELETE".toList, "FROM".toList, "WHERE".toList, "IN".toList] then
      match rows .row ts with
      | some [values] => some (.deleteIn table column values)
      | _ => none
    else none
  | _ => none

/-- The statements of a script. -/
def read (text : List Char) : Option (List Statement) :=
  match lex text with
  | none => none
  | some ts => (((signed ts).splitOn (.symbol ';')).filter (· ≠ [])).mapM statement

/-! ### Scanning -/

/-- The text is read as these tokens, whatever tokens follow. -/
def Scans (text : List Char) (tokens : List Token) : Prop :=
  ∃ ts, feed .ground text = some (ts, .ground) ∧ ∀ rest, signed (ts ++ rest) = tokens ++ signed rest

/-- The symbols that end a literal. -/
structure Ends (c : Char) : Prop where
  start : start c = some ([.symbol c], .ground)
  ne_minus : c ≠ '-'
  ne_quote : c ≠ '\''
  continues : ∀ prev, Numeral.continues prev c = false
  word : isWordChar c = false

theorem ends_comma : Ends ',' := ⟨rfl, by decide, by decide, fun _ => rfl, rfl⟩

theorem ends_close : Ends ')' := ⟨rfl, by decide, by decide, fun _ => rfl, rfl⟩

theorem feed_append (s : State) (a b : List Char) :
    feed s (a ++ b) =
      match feed s a with
      | none => none
      | some (ts, s') => (feed s' b).map fun r => (ts ++ r.1, r.2) := by
  induction a generalizing s with
  | nil =>
    rw [List.nil_append]
    cases h : feed s b <;> simp [feed, h]
  | cons c a ih =>
    rw [List.cons_append, feed, feed]
    cases step s c with
    | none => rfl
    | some r =>
      obtain ⟨ts, s'⟩ := r
      simp only [ih]
      cases feed s' a with
      | none => rfl
      | some r =>
        simp only [Option.map_map, Option.map_some, Function.comp_def, List.append_assoc]

theorem feed_singleton (s : State) (c : Char) : feed s [c] = step s c := by
  rw [feed]
  cases step s c with
  | none => rfl
  | some r => simp [feed]

theorem signed_cons {t : Token} (h : t ≠ .symbol '-') (ts : List Token) :
    signed (t :: ts) = t :: signed ts := by
  rw [signed]
  exact fun _ _ ht _ => h ht

theorem signed_append {ts : List Token} (h : .symbol '-' ∉ ts) (rest : List Token) :
    signed (ts ++ rest) = ts ++ signed rest := by
  induction ts with
  | nil => rfl
  | cons t ts ih =>
    rw [List.mem_cons, not_or] at h
    rw [List.cons_append, signed_cons (Ne.symm h.1), ih h.2, List.cons_append]

theorem scans_of_feed {text : List Char} {ts : List Token}
    (h : feed .ground text = some (ts, .ground)) (hminus : .symbol '-' ∉ ts) : Scans text ts :=
  ⟨ts, h, signed_append hminus⟩

theorem scans_nil : Scans [] [] := ⟨[], rfl, fun _ => rfl⟩

theorem Scans.append {a b : List Char} {ts us : List Token} (ha : Scans a ts) (hb : Scans b us) :
    Scans (a ++ b) (ts ++ us) := by
  obtain ⟨ta, hfa, hsa⟩ := ha
  obtain ⟨tb, hfb, hsb⟩ := hb
  refine ⟨ta ++ tb, ?_, fun rest => ?_⟩
  · rw [feed_append, hfa]
    simp only [hfb, Option.map_some]
  · rw [List.append_assoc, hsa, hsb, List.append_assoc]

theorem scans_symbol {c : Char} (hc : Ends c) : Scans [c] [.symbol c] := by
  refine scans_of_feed ?_ ?_
  · rw [feed_singleton, step, hc.start]
  · rw [List.mem_singleton, Token.symbol.injEq]
    exact hc.ne_minus.symm

/-! ### Literals -/

/-- A string literal. -/
def quote (v : List Char) : List Char :=
  '\'' :: (v.flatMap (fun c => if c = '\'' then ['\'', '\''] else [c]) ++ ['\''])

theorem feed_text (acc : List Char) {v : List Char} (hnul : '\x00' ∉ v) :
    feed (.text acc) (v.flatMap fun c => if c = '\'' then ['\'', '\''] else [c]) =
      some ([], .text (acc ++ v)) := by
  induction v generalizing acc with
  | nil => rw [List.append_nil]; rfl
  | cons c v ih =>
    rw [List.mem_cons, not_or] at hnul
    have hrest := ih (acc ++ [c]) hnul.2
    rw [List.append_assoc, List.singleton_append] at hrest
    rw [List.flatMap_cons, feed_append]
    have hc : feed (.text acc) (if c = '\'' then ['\'', '\''] else [c]) =
        some ([], .text (acc ++ [c])) := by
      split_ifs with hquote
      · rw [hquote]
        rfl
      · rw [feed_singleton, step, if_neg hquote, if_neg (Ne.symm hnul.1)]
    rw [hc]
    simp only [hrest, Option.map_some, List.nil_append]

/-- A string literal is read back. -/
theorem scans_quote {v : List Char} (hnul : '\x00' ∉ v) {c : Char} (hc : Ends c) :
    Scans (quote v ++ [c]) [.text v, .symbol c] := by
  refine scans_of_feed ?_ ?_
  · have hopen : feed .ground ['\''] = some ([], .text []) := rfl
    have hclose : feed (.text v) ['\''] = some ([], .quote v) := rfl
    have hend : feed (.quote v) [c] = some ([.text v, .symbol c], .ground) := by
      rw [feed_singleton, step, if_neg hc.ne_quote, restart, finish, hc.start]
      rfl
    rw [quote, ← List.singleton_append, List.append_assoc, List.append_assoc, feed_append, hopen]
    simp only [feed_append, feed_text [] hnul, List.nil_append, hclose, hend, Option.map_some]
  · simp only [List.mem_cons, List.not_mem_nil, or_false, reduceCtorEq, Token.symbol.injEq,
      false_or]
    exact hc.ne_minus.symm

/-- Characters that go on with a numeral are taken into it. -/
theorem feed_numeral {acc u : List Char} (hne : acc ≠ [])
    (h : (acc ++ u).IsChain fun prev c => Numeral.continues prev c = true) :
    feed (.numeral acc) u = some ([], .numeral (acc ++ u)) := by
  induction u generalizing acc with
  | nil => rw [List.append_nil]; rfl
  | cons c u ih =>
    have hcontinues : Numeral.continues (acc.getLast?.getD ' ') c = true := by
      have hlast := (List.isChain_append.mp h).2.2 (acc.getLast hne)
        (List.getLast?_eq_some_getLast hne) c rfl
      rwa [List.getLast?_eq_some_getLast hne]
    have hchain : (acc ++ [c] ++ u).IsChain fun prev c => Numeral.continues prev c = true := by
      rwa [List.append_assoc, List.singleton_append]
    have hrest := ih (List.append_ne_nil_of_left_ne_nil hne [c]) hchain
    rw [List.append_assoc, List.singleton_append] at hrest
    rw [feed, step, hcontinues, Bool.true_or, if_pos rfl]
    simp only [hrest, Option.map_some, List.nil_append]

/-- A numeral is scanned up to the symbol after it. -/
theorem feed_ground_numeral {u : List Char} {q : ℚ} (hshape : Numeral.Shape u)
    (hread : Numeral.read u = some q) {c : Char} (hc : Ends c) :
    feed .ground (u ++ [c]) = some ([.number (Binary64.ofExact q), .symbol c], .ground) := by
  obtain ⟨d, hd, hdigit⟩ := hshape.head
  obtain ⟨t, rfl⟩ : ∃ t, u = d :: t := List.head?_eq_some_iff.mp hd
  have hspace : ¬(d = ' ' ∨ d = '\n' ∨ d = '\t' ∨ d = '\r') := by
    rintro (rfl | rfl | rfl | rfl) <;> exact absurd hdigit (by decide)
  have hstart : step .ground d = some ([], .numeral [d]) := by
    rw [step, start, if_neg hspace, hdigit, Bool.true_or, if_pos rfl]
  have hnumeral : feed (.numeral [d]) t = some ([], .numeral (d :: t)) :=
    feed_numeral (List.cons_ne_nil _ _) hshape.chain
  have hend : step (.numeral (d :: t)) c =
      some ([.number (Binary64.ofExact q), .symbol c], .ground) := by
    rw [step, hc.continues, hc.word, Bool.false_or, if_neg Bool.false_ne_true, restart, finish,
      number, hread, hc.start]
    rfl
  rw [List.cons_append, feed, hstart]
  simp only [feed_append, hnumeral, feed_singleton, hend, Option.map_some, List.nil_append]

theorem scans_numeral {u : List Char} {q : ℚ} (hshape : Numeral.Shape u)
    (hread : Numeral.read u = some q) {c : Char} (hc : Ends c) :
    Scans (u ++ [c]) [.number (Binary64.ofExact q), .symbol c] := by
  refine scans_of_feed (feed_ground_numeral hshape hread hc) ?_
  simp only [List.mem_cons, List.not_mem_nil, or_false, reduceCtorEq, Token.symbol.injEq, false_or]
  exact hc.ne_minus.symm

/-- A numeral with a minus. -/
theorem scans_neg_numeral {u : List Char} {q : ℚ} (hshape : Numeral.Shape u)
    (hread : Numeral.read u = some q) {c : Char} (hc : Ends c) :
    Scans ('-' :: u ++ [c]) [.number (Binary64.ofExact q).neg, .symbol c] := by
  have hminus : feed .ground ['-'] = some ([.symbol '-'], .ground) := rfl
  refine ⟨[.symbol '-', .number (Binary64.ofExact q), .symbol c], ?_, fun rest => ?_⟩
  · rw [List.cons_append, ← List.singleton_append, feed_append, hminus]
    simp only [feed_ground_numeral hshape hread hc, Option.map_some, List.singleton_append]
  · rw [List.cons_append, List.cons_append, signed, List.singleton_append, signed_cons]
    · rfl
    · exact fun h => hc.ne_minus (Token.symbol.inj h)

/-! ### Rows -/

/-- The token that a literal is read from. -/
def Literal.token : Literal → Token
  | .text s => .text s
  | .number x => .number x

theorem literal_token (l : Literal) : literal l.token = some l := by
  cases l <;> rfl

/-- The tokens of a row after its first parenthesis. -/
def rowTokens : List Literal → List Token
  | [] => []
  | [l] => [l.token, .symbol ')']
  | l :: ls => l.token :: .symbol ',' :: rowTokens ls

/-- The tokens of rows with commas in between. -/
def rowsTokens : List (List Literal) → List Token
  | [] => []
  | [r] => .symbol '(' :: rowTokens r
  | r :: rs => .symbol '(' :: (rowTokens r ++ .symbol ',' :: rowsTokens rs)

theorem rows_rowTokens {ls : List Literal} (hne : ls ≠ []) (items : List Literal) (ts : List Token) :
    rows (.item items) (rowTokens ls ++ ts) =
      (rows .closed ts).map fun rs => (items ++ ls) :: rs := by
  induction ls generalizing items with
  | nil => exact absurd rfl hne
  | cons l ls ih =>
    cases ls with
    | nil =>
      rw [rowTokens, List.cons_append, List.singleton_append, rows, literal_token]
      rfl
    | cons l' ls =>
      rw [rowTokens, List.cons_append, List.cons_append, rows, literal_token]
      · simp only [rows]
        rw [ih (List.cons_ne_nil _ _), List.append_assoc, List.singleton_append]
      · exact List.cons_ne_nil _ _

theorem rows_rowsTokens {rs : List (List Literal)} (hne : rs ≠ []) (hrows : ∀ r ∈ rs, r ≠ []) :
    rows .row (rowsTokens rs) = some rs := by
  induction rs with
  | nil => exact absurd rfl hne
  | cons r rs ih =>
    have hr := hrows r List.mem_cons_self
    cases rs with
    | nil =>
      rw [rowsTokens, rows, ← List.append_nil (rowTokens r), rows_rowTokens hr]
      rfl
    | cons r' rs =>
      rw [rowsTokens, rows, rows_rowTokens hr, rows,
        ih (List.cons_ne_nil _ _) fun r hr => hrows r (List.mem_cons_of_mem _ hr)]
      · rfl
      · exact List.cons_ne_nil _ _

/-- A list of string literals in parentheses. -/
theorem scans_quotes {vs : List (List Char)} (hne : vs ≠ []) (hnul : ∀ v ∈ vs, '\x00' ∉ v) :
    Scans ([','].intercalate (vs.map quote) ++ [')']) (rowTokens (vs.map .text)) := by
  induction vs with
  | nil => exact absurd rfl hne
  | cons v vs ih =>
    have hv := hnul v List.mem_cons_self
    cases vs with
    | nil => simpa [List.intercalate, rowTokens, Literal.token] using scans_quote hv ends_close
    | cons v' vs =>
      have hrest := ih (List.cons_ne_nil _ _) fun v hv => hnul v (List.mem_cons_of_mem _ hv)
      have happend := (scans_quote hv ends_comma).append hrest
      simpa [List.intercalate, List.intersperse, rowTokens, Literal.token] using happend

/-- Rows joined with commas. -/
theorem scans_rows {α : Type*} {text : α → List Char} {literals : α → List Literal} {as : List α}
    (hne : as ≠ []) (h : ∀ a ∈ as, Scans (text a) (.symbol '(' :: rowTokens (literals a))) :
    Scans ([','].intercalate (as.map text)) (rowsTokens (as.map literals)) := by
  induction as with
  | nil => exact absurd rfl hne
  | cons a as ih =>
    have ha := h a List.mem_cons_self
    cases as with
    | nil => simpa [List.intercalate, rowsTokens] using ha
    | cons b as =>
      have hrest := ih (List.cons_ne_nil _ _) fun b hb => h b (List.mem_cons_of_mem _ hb)
      have happend := (ha.append (scans_symbol ends_comma)).append hrest
      simpa [List.intercalate, List.intersperse, rowsTokens] using happend

theorem symbol_notMem_rowTokens {c : Char} (hc : c ∉ "(),".toList) (ls : List Literal) :
    .symbol c ∉ rowTokens ls := by
  have hclose : c ≠ ')' := fun h => hc (by rw [h]; decide)
  have hcomma : c ≠ ',' := fun h => hc (by rw [h]; decide)
  have htoken : ∀ l : Literal, .symbol c ≠ l.token := by
    rintro (s | x) <;> exact Token.noConfusion
  induction ls with
  | nil => exact List.not_mem_nil
  | cons l ls ih =>
    cases ls with
    | nil => simp [rowTokens, htoken, hclose]
    | cons l' ls => simpa [rowTokens, htoken, hcomma] using ih

/-- Rows hold literals, parentheses and commas. -/
theorem symbol_notMem_rowsTokens {c : Char} (hc : c ∉ "(),".toList) (rs : List (List Literal)) :
    .symbol c ∉ rowsTokens rs := by
  obtain ⟨hopen, hcomma⟩ : c ≠ '(' ∧ c ≠ ',' :=
    ⟨fun h => hc (by rw [h]; decide), fun h => hc (by rw [h]; decide)⟩
  induction rs with
  | nil => exact List.not_mem_nil
  | cons r rs ih =>
    have hr := symbol_notMem_rowTokens hc r
    cases rs with
    | nil => simpa [rowsTokens, hopen] using hr
    | cons r' rs => simpa [rowsTokens, hopen, hcomma, hr] using ih

/-! ### Scripts -/

theorem Scans.read {text : List Char} {tokens : List Token} (h : Scans text tokens) :
    read text = ((tokens.splitOn (.symbol ';')).filter (· ≠ [])).mapM statement := by
  obtain ⟨ts, hfeed, hsigned⟩ := h
  have hlex : lex text = some ts := by
    rw [lex, hfeed]
    simp [finish]
  have htokens : signed ts = tokens := by
    have hnil := hsigned []
    rwa [List.append_nil, signed, List.append_nil] at hnil
  rw [Sql.read, hlex, ← htokens]

/-- Statements are separated by semicolons. -/
theorem splitOn_flatMap {α : Type*} {tokens : α → List Token} {as : List α}
    (h : ∀ a ∈ as, .symbol ';' ∉ tokens a) :
    (as.flatMap fun a => tokens a ++ [.symbol ';']).splitOn (.symbol ';') =
      as.map tokens ++ [[]] := by
  induction as with
  | nil => rfl
  | cons a as ih =>
    rw [List.flatMap_cons, List.append_assoc, List.singleton_append,
      List.splitOn_append_cons_self_of_not_mem (h a List.mem_cons_self),
      ih fun a ha => h a (List.mem_cons_of_mem _ ha)]
    rfl

theorem scans_flatMap {α : Type*} {text : α → List Char} {tokens : α → List Token} {as : List α}
    (h : ∀ a ∈ as, Scans (text a) (tokens a)) : Scans (as.flatMap text) (as.flatMap tokens) := by
  induction as with
  | nil => exact scans_nil
  | cons a as ih =>
    exact (h a List.mem_cons_self).append (ih fun a ha => h a (List.mem_cons_of_mem _ ha))

/-- A script is read statement by statement. -/
theorem read_of_scans {α : Type*} {text : α → List Char} {tokens : α → List Token}
    {meaning : α → Statement} {as : List α} (hscans : ∀ a ∈ as, Scans (text a) (tokens a))
    (hend : ∀ a ∈ as, .symbol ';' ∉ tokens a)
    (hmeaning : ∀ a ∈ as, statement (tokens a) = some (meaning a)) :
    read (as.flatMap fun a => text a ++ [';', '\n']) = some (as.map meaning) := by
  have hsemicolon : Scans [';', '\n'] [.symbol ';'] := scans_of_feed rfl (by decide)
  have hscript : Scans (as.flatMap fun a => text a ++ [';', '\n'])
      (as.flatMap fun a => tokens a ++ [.symbol ';']) :=
    scans_flatMap fun a ha => (hscans a ha).append hsemicolon
  have hne : ∀ a ∈ as, tokens a ≠ [] := fun a ha hnil => by
    have hnone := hmeaning a ha
    rw [hnil] at hnone
    cases hnone
  have hfilter : (as.map tokens ++ [[]]).filter (· ≠ []) = as.map tokens := by
    rw [List.filter_append, List.filter_eq_self.mpr, List.filter_cons_of_neg (by simp),
      List.filter_nil, List.append_nil]
    intro ts hts
    obtain ⟨a, ha, rfl⟩ := List.mem_map.mp hts
    simpa using hne a ha
  rw [hscript.read, splitOn_flatMap hend, hfilter]
  clear hscript hfilter hne hend hscans
  induction as with
  | nil => rfl
  | cons a as ih =>
    rw [List.map_cons, List.mapM_cons, hmeaning a List.mem_cons_self,
      ih fun a ha => hmeaning a (List.mem_cons_of_mem _ ha)]
    rfl

end Sql
