import Traintime.Lib.Keyed
import Traintime.Lib.Sql

/-!
# The sync of the stations table

The script `scripts/diff_stations.py` compares the rows of the stations table in D1 with
`data/stations.json` and prints the statements that bring the table in line, and
`scripts/seed_d1.sh` executes them.

## Main definitions

* `Row`: a row as Python holds it, and `D1Row`, a row of the table.
* `DiffStations.main`: what the script prints.
* `DiffStations.exec`: the execution of a statement.

## Main results

* `DiffStations.diff_stations_spec`: the statements make the table the rows of the file, touch no
  row that is right already, and are not printed again when the numbers are in double precision.
-/

namespace Traintime

open Numeral (IsDouble)
open Binary64 (nearest)

/-! ### Rows -/

/-- A finite number as Python reads it from JSON. An integer is read as it is. -/
inductive PyNumber
  | int (n : ℤ) (finite : |nearest n| < 2 ^ 1024)
  | float (q : ℚ) (double : IsDouble q)
  /-- The zero with a sign. -/
  | negativeZero

namespace PyNumber

/-- The number that comparisons go by, which Python makes exactly for integers too. -/
def value : PyNumber → ℚ
  | int n _ => n
  | float q _ => q
  | negativeZero => 0

/-- The text of a number in an f-string. -/
def text : PyNumber → List Char
  | int n _ => (if n < 0 then ['-'] else []) ++ Nat.toDigits 10 n.natAbs
  | float q double =>
    if q = 0 then "0.0".toList
    else if 0 < q then Numeral.shortest double.1
    else '-' :: Numeral.shortest double.neg.1
  | negativeZero => "-0.0".toList

end PyNumber

/-- A string without NUL. -/
abbrev Text := {s : List Char // '\x00' ∉ s}

/-- The fields of a station, `FIELDS`, as JSON gives them to Python. -/
structure Row where
  id : Text
  name : Text
  lat : PyNumber
  lon : PyNumber
  mode : Text

/-- A row of the table `stations`, with its coordinates in double precision. -/
structure D1Row where
  id : List Char
  name : List Char
  lat : Binary64
  lon : Binary64
  mode : List Char
deriving DecidableEq, Repr

/-- The table `stations`, with `id` as its primary key. -/
abbrev StationsTable := KeyedTable D1Row.id

/-- The row of a table with the values of a row. -/
def Row.same (r : Row) : D1Row :=
  ⟨r.id, r.name, .finite r.lat.value, .finite r.lon.value, r.mode⟩

/-- The row that is stored for a row. A `REAL` is a number of double precision. -/
def Row.stored (r : Row) : D1Row :=
  ⟨r.id, r.name, .finite (nearest r.lat.value), .finite (nearest r.lon.value), r.mode⟩

/-- The numbers of a row are in double precision. -/
def Row.Double (r : Row) : Prop := IsDouble r.lat.value ∧ IsDouble r.lon.value

/-- `==` on the tuples of two rows. -/
def Row.eq (r s : Row) : Bool :=
  r.id = s.id ∧ r.name = s.name ∧ r.lat.value = s.lat.value ∧ r.lon.value = s.lon.value ∧
    r.mode = s.mode

namespace DiffStations

/-! ### The script -/

/-- How many items a statement of the script has at most, `BATCH`. Where a batch ends makes no
difference to the table. -/
def BATCH : ℕ := 500

/-- The rows by their ids, `load_d1` and `load_json`. -/
def load (rows : List Row) : Dict Text Row := Dict.ofPairs (rows.map fun r => (r.id, r))

/-- `quote`: a text as a literal of SQL, between single quotes and with the quotes in it doubled. -/
def quote (value : Text) : List Char :=
  "'".toList ++ value.1.flatMap (fun c => if c = '\'' then "''".toList else [c]) ++ "'".toList

/-- `values`: a row between parentheses, its texts quoted and its numbers as Python writes them. -/
def values (row : Row) : List Char :=
  "(".toList ++ quote row.id ++ ",".toList ++ quote row.name ++ ",".toList ++ row.lat.text ++
    ",".toList ++ row.lon.text ++ ",".toList ++ quote row.mode ++ ")".toList

/-- `range(0, len(items), BATCH)` has one index for each begun batch. -/
def chunks {α : Type*} (items : List α) : List (List α) :=
  (List.range ((items.length + BATCH - 1) / BATCH)).map fun i => (items.drop (i * BATCH)).take BATCH

/-- The rows of the file that the table does not have, or has with other values, in the order of the
file. -/
def upserts (current target : Dict Text Row) : List Row :=
  target.entries.filterMap fun e =>
    match current.get? e.1 with
    | some row => if row.eq e.2 then none else some e.2
    | none => some e.2

/-- The ids of the table that the file does not have, in the order in which D1 returned them. -/
def removed (current target : Dict Text Row) : List Text :=
  (current.entries.map Prod.fst).filter fun id => id ∉ target.entries.map Prod.fst

/-- The text in front of the rows of a statement that writes rows. The id is the primary key, so a
row that is there is replaced. -/
def insertInto : List Char :=
  "INSERT OR REPLACE INTO stations (id, name, lat, lon, mode) VALUES ".toList

/-- The text in front of the ids of a statement that deletes rows. -/
def deleteFrom : List Char := "DELETE FROM stations WHERE id IN (".toList

/-- The statement that writes a batch of rows, without the semicolon behind it. -/
def insertText (batch : List Row) : List Char :=
  insertInto ++ ",".toList.intercalate (batch.map values)

/-- The statement that deletes a batch of ids, without the semicolon behind it. -/
def deleteText (batch : List Text) : List Char :=
  deleteFrom ++ ",".toList.intercalate (batch.map quote) ++ ")".toList

/-- What the script prints for the rows that D1 returns and the rows of the file. -/
def main (payload stations : List Row) : List Char :=
  let current := load payload
  let target := load stations
  (chunks (upserts current target)).flatMap (fun batch => insertText batch ++ ";\n".toList) ++
    (chunks (removed current target)).flatMap fun batch => deleteText batch ++ ";\n".toList

/-! ### Execution -/

/-- The row that a list of literals is for, if there are five of them and each has the type of its
column. -/
def d1Row : List Sql.Literal → Option D1Row
  | [.text id, .text name, .number lat, .number lon, .text mode] => some ⟨id, name, lat, lon, mode⟩
  | _ => none

/-- The text that a literal is, if it is one. An id is never a number. -/
def textLiteral : Sql.Literal → Option (List Char)
  | .text s => some s
  | .number _ => none

/-- What a statement makes of the table. One about another table or other columns fails, as the
script has none of these. -/
def exec (t : StationsTable) : Sql.Statement → Option StationsTable
  | .insertOrReplace table columns rows =>
    if table = "stations".toList ∧ columns = ["id", "name", "lat", "lon", "mode"].map String.toList
    then (rows.mapM d1Row).map t.replaceAll
    else none
  | .deleteIn table column values =>
    if table = "stations".toList ∧ column = "id".toList
    then (values.mapM textLiteral).map t.remove
    else none

/-- The statements of a script one after the other. -/
def execAll (t : StationsTable) (statements : List Sql.Statement) : Option StationsTable :=
  statements.foldlM exec t

/-- `seed_d1.sh` executes the script unless it is empty. -/
def seedD1 (t : StationsTable) (payload stations : List Row) : Option StationsTable :=
  match main payload stations with
  | [] => some t
  | script => (Sql.read script).bind (execAll t)

/-- The ids of the rows that a statement writes. -/
def upserted : Sql.Statement → List (List Char)
  | .insertOrReplace _ _ rows => (rows.filterMap d1Row).map D1Row.id
  | .deleteIn _ _ _ => []

/-- The ids of the rows that a statement deletes. -/
def deleted : Sql.Statement → List (List Char)
  | .insertOrReplace _ _ _ => []
  | .deleteIn _ _ values => values.filterMap textLiteral

/-- D1 returns the rows of the table in any order, with the numbers that are stored. -/
structure Returns (t : StationsTable) (payload : List Row) : Prop where
  rows : (payload.map Row.same).Perm t.rows
  double : ∀ row ∈ payload, row.Double

/-- The row is the last one of its id. -/
def Wins (stations : List Row) (row : Row) : Prop :=
  ∃ l r, stations = l ++ row :: r ∧ ∀ s ∈ r, s.id ≠ row.id

/-! ### Reading the script -/

/-- A numeral without a sign that is read as the number. -/
structure Writes (u : List Char) (q : ℚ) : Prop where
  shape : Numeral.Shape u
  read : ∃ x, Numeral.read u = some x ∧ Binary64.ofExact x = .finite q

theorem writes_shortest {q : ℚ} (double : IsDouble q) (hq : 0 < q) :
    Writes (Numeral.shortest double.1) q := by
  obtain ⟨x, hread, hx⟩ := Numeral.nearest_read_shortest hq
  exact ⟨Numeral.shape_shortest hq, x, hread, double.ofExact hx⟩

theorem writes_zero : Writes "0.0".toList 0 := by
  have hzero := Numeral.digits_replicate 1
  have hread : Numeral.read "0.0".toList = some 0 := by
    have hend : ∀ c ∈ ([] : List Char).head?, Numeral.isExponentMark c = true := by simp
    refine (Numeral.read_point hzero hzero (List.cons_ne_nil _ _) hend).trans ?_
    rw [Numeral.readExponent, ← List.replicate_add, Numeral.digitsValue_replicate]
    simp
  have hdouble : IsDouble ((0 : ℤ) : ℚ) := .intCast (by norm_num)
  rw [Int.cast_zero] at hdouble
  exact ⟨⟨⟨'0', rfl, rfl⟩, by decide⟩, 0, hread, hdouble.ofExact hdouble.1⟩

theorem writes_natAbs {n : ℤ} (finite : |nearest n| < 2 ^ 1024) :
    Writes (Nat.toDigits 10 n.natAbs) (nearest n.natAbs) := by
  have hdigits := Numeral.digits_toDigits n.natAbs
  have hend : ∀ c ∈ ([] : List Char).head?, Numeral.isExponentMark c = true := by simp
  have hread := Numeral.read_whole hdigits Nat.toDigits_ne_nil hend
  rw [Numeral.digitsValue_toDigits, List.append_nil] at hread
  have habs : |nearest (n.natAbs : ℚ)| < 2 ^ 1024 := by
    rcases n.natAbs_eq with h | h
    · rwa [h] at finite
    · rw [h, Int.cast_neg, Numeral.nearest_neg, abs_neg] at finite
      exact finite
  refine ⟨hdigits.shape Nat.toDigits_ne_nil, _, hread, ?_⟩
  show Binary64.ofExact (n.natAbs * 10 ^ (0 : ℤ)) = _
  rw [zpow_zero, mul_one, Binary64.ofExact, if_pos habs]

/-- A number is written as a numeral, with a minus or without. -/
theorem exists_writes (x : PyNumber) :
    ∃ u q, Writes u q ∧
      (x.text = u ∧ nearest x.value = q ∨ x.text = '-' :: u ∧ nearest x.value = -q) := by
  have hzero : nearest 0 = 0 := by
    have hdouble : IsDouble ((0 : ℤ) : ℚ) := .intCast (by norm_num)
    rw [← Int.cast_zero]
    exact hdouble.1
  cases x with
  | int n finite =>
    refine ⟨_, _, writes_natAbs finite, ?_⟩
    rcases lt_or_ge n 0 with hn | hn
    · have habs : n = -(n.natAbs : ℤ) := by omega
      have hq : (n : ℚ) = -(n.natAbs : ℚ) := by exact_mod_cast habs
      refine .inr ⟨by rw [PyNumber.text, if_pos hn]; rfl, ?_⟩
      rw [PyNumber.value, hq, Numeral.nearest_neg]
    · have habs : n = (n.natAbs : ℤ) := by omega
      refine .inl ⟨by rw [PyNumber.text, if_neg hn.not_gt]; rfl, ?_⟩
      rw [PyNumber.value, ← Int.cast_natCast, ← habs]
  | float q double =>
    rcases lt_trichotomy q 0 with hq | rfl | hq
    · refine ⟨_, -q, writes_shortest double.neg (by linarith), .inr ⟨?_, ?_⟩⟩
      · rw [PyNumber.text, if_neg hq.ne, if_neg hq.not_gt]
      · rw [PyNumber.value, double.1, neg_neg]
    · exact ⟨_, 0, writes_zero, .inl ⟨by rw [PyNumber.text, if_pos rfl], hzero⟩⟩
    · refine ⟨_, q, writes_shortest double hq, .inl ⟨?_, double.1⟩⟩
      rw [PyNumber.text, if_neg hq.ne', if_pos hq]
  | negativeZero => exact ⟨_, 0, writes_zero, .inr ⟨rfl, hzero.trans neg_zero.symm⟩⟩

/-- The text of a number is read as the number in double precision. -/
theorem scans_text (x : PyNumber) {c : Char} (hc : Sql.Ends c) :
    Sql.Scans (x.text ++ [c]) [.number (.finite (nearest x.value)), .symbol c] := by
  obtain ⟨u, q, ⟨hshape, x', hread, hvalue⟩, h⟩ := exists_writes x
  rcases h with ⟨htext, hq⟩ | ⟨htext, hq⟩
  · have hscans := Sql.scans_numeral hshape hread hc
    rwa [hvalue, ← htext, ← hq] at hscans
  · have hscans := Sql.scans_neg_numeral hshape hread hc
    rwa [hvalue, Binary64.neg, ← htext, ← hq] at hscans

theorem quote_eq (value : Text) : quote value = Sql.quote value.1 := rfl

/-- A row as it stands in a statement. -/
def literals (row : Row) : List Sql.Literal :=
  [.text row.id, .text row.name, .number (.finite (nearest row.lat.value)),
    .number (.finite (nearest row.lon.value)), .text row.mode]

theorem scans_values (row : Row) :
    Sql.Scans (values row) (.symbol '(' :: Sql.rowTokens (literals row)) := by
  have hopen : Sql.Scans ['('] [.symbol '('] := Sql.scans_of_feed rfl (by decide)
  have hid := Sql.scans_quote row.id.2 Sql.ends_comma
  have hname := Sql.scans_quote row.name.2 Sql.ends_comma
  have hlat := scans_text row.lat Sql.ends_comma
  have hlon := scans_text row.lon Sql.ends_comma
  have hmode := Sql.scans_quote row.mode.2 Sql.ends_close
  have happend := hopen.append (hid.append (hname.append (hlat.append (hlon.append hmode))))
  have htext : values row = ['('] ++ ((Sql.quote row.id.1 ++ [',']) ++ ((Sql.quote row.name.1 ++
      [',']) ++ ((row.lat.text ++ [',']) ++ ((row.lon.text ++ [',']) ++
        (Sql.quote row.mode.1 ++ [')']))))) := by
    delta values
    simp [quote_eq]
  exact htext ▸ happend

/-! ### Statements -/

/-- A batch of the script: rows to write, or ids to delete. -/
inductive Command
  | upsert (batch : List Row)
  | delete (batch : List Text)

namespace Command

/-- The statement of a batch as the script has it. -/
def text : Command → List Char
  | upsert batch => insertText batch
  | delete batch => deleteText batch

/-- The tokens of a statement that writes rows, up to the first row. -/
def insertTokens : List Sql.Token :=
  ["INSERT", "OR", "REPLACE", "INTO", "stations"].map (.word ·.toList) ++
    [.symbol '(', .word "id".toList, .symbol ',', .word "name".toList, .symbol ',',
      .word "lat".toList, .symbol ',', .word "lon".toList, .symbol ',', .word "mode".toList,
      .symbol ')', .word "VALUES".toList]

/-- The tokens of a statement that deletes rows, up to the first id. -/
def deleteTokens : List Sql.Token :=
  ["DELETE", "FROM", "stations", "WHERE", "id", "IN"].map (.word ·.toList) ++ [.symbol '(']

/-- The tokens that the statement of a batch is read as. -/
def tokens : Command → List Sql.Token
  | upsert batch => insertTokens ++ Sql.rowsTokens (batch.map literals)
  | delete batch => deleteTokens ++ Sql.rowTokens (batch.map fun id => .text id.1)

/-- The statement that the tokens of a batch stand for, with the literals as they are meant. -/
def statement : Command → Sql.Statement
  | upsert batch =>
    .insertOrReplace "stations".toList (["id", "name", "lat", "lon", "mode"].map String.toList)
      (batch.map literals)
  | delete batch =>
    .deleteIn "stations".toList "id".toList (batch.map fun id => .text id.1)

/-- A batch has at least one item. -/
def Nonempty : Command → Prop
  | upsert batch => batch ≠ []
  | delete batch => batch ≠ []

theorem toList_comma : ",".toList = [','] := rfl

theorem toList_close : ")".toList = [')'] := rfl

theorem scans_insertInto : Sql.Scans insertInto insertTokens := by
  refine Sql.scans_of_feed ?_ ?_
  · decide +kernel
  · decide +kernel

theorem scans_deleteFrom : Sql.Scans deleteFrom deleteTokens := by
  refine Sql.scans_of_feed ?_ ?_
  · decide +kernel
  · decide +kernel

theorem scans_text {c : Command} (hc : c.Nonempty) : Sql.Scans c.text c.tokens := by
  cases c with
  | upsert batch =>
    simp only [text, insertText, tokens, toList_comma]
    exact scans_insertInto.append (Sql.scans_rows hc fun row _ => scans_values row)
  | delete batch =>
    have hids : (batch.map quote) = (batch.map Subtype.val).map Sql.quote := by
      rw [List.map_map]
      rfl
    have htokens : (batch.map fun id => Sql.Literal.text id.1) =
        (batch.map Subtype.val).map .text := by
      rw [List.map_map]
      rfl
    simp only [text, deleteText, tokens, List.append_assoc, hids, htokens, toList_comma,
      toList_close]
    refine scans_deleteFrom.append (Sql.scans_quotes (fun h => hc (List.map_eq_nil_iff.mp h)) ?_)
    intro v hv
    obtain ⟨id, -, rfl⟩ := List.mem_map.mp hv
    exact id.2

theorem semicolon_notMem_tokens (c : Command) : .symbol ';' ∉ c.tokens := by
  cases c with
  | upsert batch =>
    rw [tokens, List.mem_append, not_or]
    exact ⟨by decide +kernel, Sql.symbol_notMem_rowsTokens (by decide) _⟩
  | delete batch =>
    rw [tokens, List.mem_append, not_or]
    exact ⟨by decide +kernel, Sql.symbol_notMem_rowTokens (by decide) _⟩

theorem statement_tokens {c : Command} (hc : c.Nonempty) :
    Sql.statement c.tokens = some c.statement := by
  cases c with
  | upsert batch =>
    have hne : batch.map literals ≠ [] := fun h => hc (List.map_eq_nil_iff.mp h)
    have hrows := Sql.rows_rowsTokens hne (by simp [literals])
    simp only [tokens, insertTokens, List.map_cons, List.map_nil, List.cons_append,
      List.nil_append, Sql.statement, Sql.columns, Option.map_some, if_true, hrows]
    rfl
  | delete batch =>
    have hne : (batch.map fun id => Sql.Literal.text id.1) ≠ [] :=
      fun h => hc (List.map_eq_nil_iff.mp h)
    have hrows := Sql.rows_rowTokens hne [] []
    rw [List.append_nil, Sql.rows, Option.map_some, List.nil_append] at hrows
    simp only [tokens, deleteTokens, List.map_cons, List.map_nil, List.cons_append,
      List.nil_append, Sql.statement, Sql.rows, hrows, if_true]
    rfl

end Command

/-! ### Batches -/

theorem flatten_slices {α : Type*} {n : ℕ} (count : ℕ) (items : List α) :
    ((List.range count).map fun i => (items.drop (i * n)).take n).flatten =
      items.take (count * n) := by
  induction count with
  | zero => simp
  | succ count ih =>
    rw [List.range_succ, List.map_append, List.flatten_append, ih, List.map_singleton,
      List.flatten_singleton, Nat.succ_mul, List.take_add]

/-- The batches are the items, none lost and none twice. -/
theorem flatten_chunks {α : Type*} (items : List α) : (chunks items).flatten = items := by
  rw [chunks, flatten_slices, List.take_of_length_le]
  rw [BATCH]
  omega

theorem ne_nil_of_mem_chunks {α : Type*} {items batch : List α} (h : batch ∈ chunks items) :
    batch ≠ [] := by
  obtain ⟨i, hi, rfl⟩ := List.mem_map.mp h
  rw [List.mem_range, BATCH] at hi
  rw [← List.length_pos_iff, List.length_take, List.length_drop, BATCH]
  omega

/-! ### Executing the script -/

namespace Command

/-- The ids of the rows that a batch is about. -/
def ids : Command → List (List Char)
  | upsert batch => batch.map fun row => row.id.1
  | delete batch => batch.map Subtype.val

/-- What a batch makes of the table: its rows take the places of those with their ids, or its ids
go. -/
def apply (t : StationsTable) : Command → StationsTable
  | upsert batch => t.replaceAll (batch.map Row.stored)
  | delete batch => t.remove (batch.map Subtype.val)

theorem mapM_eq_map {α β : Type*} {f : α → Option β} {g : α → β} {l : List α}
    (h : ∀ a ∈ l, f a = some (g a)) : l.mapM f = some (l.map g) := by
  induction l with
  | nil => rfl
  | cons a l ih =>
    rw [List.mapM_cons, h a List.mem_cons_self, ih fun a ha => h a (List.mem_cons_of_mem _ ha)]
    rfl

theorem exec_statement (t : StationsTable) (c : Command) :
    exec t c.statement = some (c.apply t) := by
  cases c with
  | upsert batch =>
    have hrows : (batch.map literals).mapM d1Row = some (batch.map Row.stored) := by
      rw [List.mapM_map]
      exact mapM_eq_map fun row _ => rfl
    simp only [statement, exec, and_self, if_true, hrows, Option.map_some, apply]
  | delete batch =>
    have hids : (batch.map fun id => Sql.Literal.text id.1).mapM textLiteral =
        some (batch.map Subtype.val) := by
      rw [List.mapM_map]
      exact mapM_eq_map fun id _ => rfl
    simp only [statement, exec, and_self, if_true, hids, Option.map_some, apply]

/-- A row that is new after a batch is one that the batch is about. -/
theorem mem_apply {t : StationsTable} {c : Command} {s : D1Row} (hs : s ∈ (c.apply t).rows)
    (hid : s.id ∉ c.ids) : s ∈ t.rows := by
  cases c with
  | upsert batch =>
    refine KeyedTable.mem_of_mem_replaceAll hs ?_
    rwa [List.map_map]
  | delete batch => exact (KeyedTable.mem_remove.mp hs).1

theorem execAll_statements (t : StationsTable) (cs : List Command) :
    execAll t (cs.map statement) = some (cs.foldl apply t) := by
  induction cs generalizing t with
  | nil => rfl
  | cons c cs ih =>
    rw [execAll, List.map_cons, List.foldlM_cons, exec_statement]
    exact ih (c.apply t)

/-- A row that is new after some batches is one that they are about. -/
theorem mem_foldl_apply {t : StationsTable} {cs : List Command} {s : D1Row}
    (hs : s ∈ (cs.foldl apply t).rows) (hid : s.id ∉ cs.flatMap ids) : s ∈ t.rows := by
  induction cs generalizing t with
  | nil => exact hs
  | cons c cs ih =>
    rw [List.flatMap_cons, List.mem_append, not_or] at hid
    exact mem_apply (ih hs hid.2) hid.1

end Command

/-! ### The batches of a sync -/

theorem isDouble_value_iff (x : PyNumber) : IsDouble x.value ↔ nearest x.value = x.value := by
  refine ⟨And.left, fun h => ⟨h, ?_⟩⟩
  cases x with
  | int n finite =>
    rw [← h]
    exact finite
  | float q double => exact double.2
  | negativeZero =>
    rw [PyNumber.value, abs_zero]
    positivity

/-- Only the numbers of double precision are stored as they are. -/
theorem stored_eq_same_iff {r : Row} : r.stored = r.same ↔ r.Double := by
  rw [Row.Double, isDouble_value_iff, isDouble_value_iff, Row.stored, Row.same, D1Row.mk.injEq,
    Binary64.finite.injEq, Binary64.finite.injEq]
  simp

theorem eq_iff (r s : Row) : r.eq s = true ↔ r.same = s.same := by
  rw [Row.eq, decide_eq_true_eq, Row.same, Row.same, D1Row.mk.injEq, Subtype.ext_iff,
    Subtype.ext_iff, Subtype.ext_iff, Binary64.finite.injEq, Binary64.finite.injEq]

theorem mem_load_iff {rows : List Row} {id : Text} {row : Row} :
    (id, row) ∈ (load rows).entries ↔ id = row.id ∧ Wins rows row := by
  rw [load, Dict.mem_entries_ofPairs_iff]
  constructor
  · rintro ⟨l, r, h, hr⟩
    obtain ⟨l', t, rfl, rfl, ht⟩ := List.map_eq_append_iff.mp h
    obtain ⟨row', r', rfl, hrow, rfl⟩ := List.map_eq_cons_iff.mp ht
    obtain ⟨rfl, rfl⟩ := Prod.mk.inj hrow
    exact ⟨rfl, l', r', rfl, fun s hs => hr _ (List.mem_map_of_mem hs)⟩
  · rintro ⟨rfl, l, r, rfl, hr⟩
    refine ⟨l.map fun r => (r.id, r), r.map fun r => (r.id, r), by simp, fun p hp => ?_⟩
    obtain ⟨s, hs, rfl⟩ := List.mem_map.mp hp
    exact hr s hs

theorem mem_keys_load_iff {rows : List Row} {id : Text} :
    id ∈ (load rows).entries.map Prod.fst ↔ ∃ row, Wins rows row ∧ row.id = id := by
  rw [List.mem_map]
  constructor
  · rintro ⟨⟨id, row⟩, h, rfl⟩
    obtain ⟨rfl, hrow⟩ := mem_load_iff.mp h
    exact ⟨row, hrow, rfl⟩
  · rintro ⟨row, hrow, rfl⟩
    exact ⟨(row.id, row), mem_load_iff.mpr ⟨rfl, hrow⟩, rfl⟩

/-- One row of an id wins. -/
theorem Wins.eq_of_id_eq {rows : List Row} {r s : Row} (hr : Wins rows r) (hs : Wins rows s)
    (h : r.id = s.id) : r = s :=
  congrArg Prod.snd (List.inj_on_of_nodup_map (load rows).nodup (mem_load_iff.mpr ⟨rfl, hr⟩)
    (mem_load_iff.mpr ⟨rfl, hs⟩) h)

/-- What is written for an entry is its row. -/
theorem eq_snd_of_upsert {current : Dict Text Row} {e : Text × Row} {row : Row}
    (h : (match current.get? e.1 with
      | some row => if row.eq e.2 then none else some e.2
      | none => some e.2) = some row) : row = e.2 := by
  split at h
  · rw [Option.ite_none_left_eq_some, Option.some_inj] at h
    exact h.2.symm
  · exact (Option.some_inj.mp h).symm

theorem wins_of_mem_upserts {current : Dict Text Row} {stations : List Row} {row : Row}
    (h : row ∈ upserts current (load stations)) : Wins stations row := by
  obtain ⟨e, he, hrow⟩ := List.mem_filterMap.mp h
  obtain ⟨-, hwins⟩ := mem_load_iff.mp he
  rwa [eq_snd_of_upsert hrow]

theorem id_ne_of_mem_removed {current : Dict Text Row} {stations : List Row} {id : Text}
    (h : id ∈ removed current (load stations)) {row : Row} (hrow : Wins stations row) :
    row.id ≠ id := fun heq =>
  of_decide_eq_true (List.mem_filter.mp h).2 (mem_keys_load_iff.mpr ⟨row, hrow, heq⟩)

theorem nodup_ids_upserts (current : Dict Text Row) (stations : List Row) :
    ((upserts current (load stations)).map fun row => row.id.1).Nodup := by
  have hpairwise := List.pairwise_map.mp (load stations).nodup
  rw [upserts, List.Nodup, List.pairwise_map, List.pairwise_filterMap]
  refine hpairwise.imp_of_mem fun he he' hne row hsome row' hsome' heq => hne ?_
  rw [(mem_load_iff.mp he).1, (mem_load_iff.mp he').1, ← eq_snd_of_upsert hsome,
    ← eq_snd_of_upsert hsome']
  exact Subtype.ext heq

section Sync

variable {t : StationsTable} {payload : List Row} (hpayload : Returns t payload)

include hpayload

theorem same_mem_iff {r : D1Row} : r ∈ t.rows ↔ ∃ row ∈ payload, row.same = r := by
  rw [← hpayload.rows.mem_iff, List.mem_map]

/-- The rows that D1 returns have different ids. -/
theorem wins_payload_iff {row : Row} : Wins payload row ↔ row ∈ payload := by
  constructor
  · rintro ⟨l, r, rfl, -⟩
    exact List.mem_append_right _ List.mem_cons_self
  · intro h
    obtain ⟨l, r, rfl⟩ := List.append_of_mem h
    refine ⟨l, r, rfl, fun s hs hid => ?_⟩
    have hnodup := (hpayload.rows.map D1Row.id).nodup_iff.mpr t.nodup
    rw [List.map_map, List.map_append, List.map_cons] at hnodup
    refine (List.nodup_cons.mp (List.nodup_append.mp hnodup).2.1).1 ?_
    rw [List.mem_map]
    exact ⟨s, hs, congrArg Subtype.val hid⟩

theorem get?_load_iff {id : Text} {row : Row} :
    (load payload).get? id = some row ↔ row ∈ payload ∧ row.id = id := by
  rw [Dict.get?_eq_some_iff, mem_load_iff, wins_payload_iff hpayload, and_comm, eq_comm]

/-- A row is written when the table does not have it. -/
theorem mem_upserts_iff {stations : List Row} {row : Row} :
    row ∈ upserts (load payload) (load stations) ↔ Wins stations row ∧ row.same ∉ t.rows := by
  have hnew : ∀ row : Row, (match (load payload).get? row.id with
      | some current => if current.eq row then none else some row
      | none => some row) = if row.same ∈ t.rows then none else some row := by
    intro row
    cases hget : (load payload).get? row.id with
    | none =>
      rw [if_neg]
      rw [same_mem_iff hpayload]
      rintro ⟨current, hmem, hsame⟩
      have hid : current.id = row.id := Subtype.ext (congrArg D1Row.id hsame)
      rw [(get?_load_iff hpayload).mpr ⟨hmem, hid⟩] at hget
      cases hget
    | some current =>
      obtain ⟨hmem, hid⟩ := (get?_load_iff hpayload).mp hget
      have hcurrent : current.same ∈ t.rows := (same_mem_iff hpayload).mpr ⟨_, hmem, rfl⟩
      refine if_congr ?_ rfl rfl
      rw [eq_iff]
      exact ⟨fun h => h ▸ hcurrent, fun h =>
        t.eq_of_key_eq hcurrent h (congrArg Subtype.val hid)⟩
  rw [upserts, List.mem_filterMap]
  constructor
  · rintro ⟨⟨id, row'⟩, hmem, hsome⟩
    obtain ⟨rfl, hwins⟩ := mem_load_iff.mp hmem
    rw [hnew, Option.ite_none_left_eq_some, Option.some_inj] at hsome
    obtain ⟨hnot, rfl⟩ := hsome
    exact ⟨hwins, hnot⟩
  · rintro ⟨hwins, hnot⟩
    exact ⟨(row.id, row), mem_load_iff.mpr ⟨rfl, hwins⟩, by rw [hnew, if_neg hnot]⟩

/-- An id is removed when the file does not have it. -/
theorem mem_removed_iff {stations : List Row} {id : Text} :
    id ∈ removed (load payload) (load stations) ↔
      (∃ r ∈ t.rows, r.id = id.1) ∧ ∀ row, Wins stations row → row.id ≠ id := by
  rw [removed, List.mem_filter, decide_eq_true_eq, mem_keys_load_iff, mem_keys_load_iff]
  refine and_congr ?_ (by simp only [not_exists, not_and, ne_eq])
  constructor
  · rintro ⟨row, hrow, rfl⟩
    exact ⟨row.same, (same_mem_iff hpayload).mpr ⟨row, (wins_payload_iff hpayload).mp hrow, rfl⟩,
      rfl⟩
  · rintro ⟨r, hr, hid⟩
    obtain ⟨row, hrow, rfl⟩ := (same_mem_iff hpayload).mp hr
    exact ⟨row, (wins_payload_iff hpayload).mpr hrow, Subtype.ext hid⟩

/-- A row that the table has has numbers of double precision. -/
theorem double_of_same_mem {row : Row} (h : row.same ∈ t.rows) : row.Double := by
  obtain ⟨current, hmem, heq⟩ := (same_mem_iff hpayload).mp h
  have hdouble := hpayload.double current hmem
  rw [Row.same, Row.same, D1Row.mk.injEq, Binary64.finite.injEq, Binary64.finite.injEq] at heq
  rwa [Row.Double, ← heq.2.2.1, ← heq.2.2.2.1]

/-- The rows that are written and those that are not removed are the rows of the file. -/
theorem mem_synced_iff {stations : List Row} {r : D1Row} :
    r ∈ ((t.replaceAll ((upserts (load payload) (load stations)).map Row.stored)).remove
        ((removed (load payload) (load stations)).map Subtype.val)).rows ↔
      ∃ row, Wins stations row ∧ row.stored = r := by
  have hnodup : (((upserts (load payload) (load stations)).map Row.stored).map D1Row.id).Nodup := by
    rw [List.map_map]
    exact nodup_ids_upserts _ _
  rw [KeyedTable.mem_remove, KeyedTable.mem_replaceAll hnodup]
  constructor
  · rintro ⟨hr | ⟨hr, hid⟩, hremoved⟩
    · obtain ⟨row, hrow, rfl⟩ := List.mem_map.mp hr
      exact ⟨row, ((mem_upserts_iff hpayload).mp hrow).1, rfl⟩
    · obtain ⟨current, -, rfl⟩ := (same_mem_iff hpayload).mp hr
      have hwinner : ∃ row, Wins stations row ∧ row.id = current.id := by
        by_contra hnone
        refine hremoved (List.mem_map.mpr ⟨current.id, ?_, rfl⟩)
        exact (mem_removed_iff hpayload).mpr ⟨⟨_, hr, rfl⟩, fun row hrow hrowid =>
          hnone ⟨row, hrow, hrowid⟩⟩
      obtain ⟨row, hrow, hrowid⟩ := hwinner
      have hsame : row.same ∈ t.rows := by
        by_contra hnot
        refine hid (List.mem_map.mpr ⟨row.stored, List.mem_map_of_mem ?_,
          congrArg Subtype.val hrowid⟩)
        exact (mem_upserts_iff hpayload).mpr ⟨hrow, hnot⟩
      have hcurrent : row.same = current.same :=
        t.eq_of_key_eq hsame hr (congrArg Subtype.val hrowid)
      refine ⟨row, hrow, ?_⟩
      rw [← hcurrent]
      exact stored_eq_same_iff.mpr (double_of_same_mem hpayload hsame)
  · rintro ⟨row, hrow, rfl⟩
    have hremoved : row.stored.id ∉ (removed (load payload) (load stations)).map Subtype.val := by
      intro hmem
      obtain ⟨id, hid, heq⟩ := List.mem_map.mp hmem
      exact id_ne_of_mem_removed hid hrow (Subtype.ext heq.symm)
    refine ⟨?_, hremoved⟩
    by_cases hsame : row.same ∈ t.rows
    · have hstored := stored_eq_same_iff.mpr (double_of_same_mem hpayload hsame)
      refine .inr ⟨by rwa [hstored], fun hmem => ?_⟩
      rw [List.map_map] at hmem
      obtain ⟨row', hrow', heq⟩ := List.mem_map.mp hmem
      obtain ⟨hwins, hnot⟩ := (mem_upserts_iff hpayload).mp hrow'
      obtain rfl := hwins.eq_of_id_eq hrow (Subtype.ext heq)
      exact hnot hsame
    · exact .inl (List.mem_map_of_mem ((mem_upserts_iff hpayload).mpr ⟨hrow, hsame⟩))

end Sync

/-- The batches of the script, those that write before those that delete. -/
def commands (payload stations : List Row) : List Command :=
  (chunks (upserts (load payload) (load stations))).map .upsert ++
    (chunks (removed (load payload) (load stations))).map .delete

theorem main_eq (payload stations : List Row) :
    main payload stations = (commands payload stations).flatMap fun c => c.text ++ [';', '\n'] := by
  have hend : ";\n".toList = [';', '\n'] := rfl
  rw [commands, List.flatMap_append, List.flatMap_map, List.flatMap_map, main, hend]
  rfl

theorem nonempty_of_mem_commands {payload stations : List Row} {c : Command}
    (hc : c ∈ commands payload stations) : c.Nonempty := by
  rcases List.mem_append.mp hc with h | h
  · obtain ⟨batch, hbatch, rfl⟩ := List.mem_map.mp h
    exact ne_nil_of_mem_chunks hbatch
  · obtain ⟨batch, hbatch, rfl⟩ := List.mem_map.mp h
    exact ne_nil_of_mem_chunks hbatch

/-- The script is read as its batches. -/
theorem read_main (payload stations : List Row) :
    Sql.read (main payload stations) =
      some ((commands payload stations).map Command.statement) := by
  rw [main_eq]
  exact Sql.read_of_scans (fun c hc => Command.scans_text (nonempty_of_mem_commands hc))
    (fun c _ => c.semicolon_notMem_tokens)
    (fun c hc => Command.statement_tokens (nonempty_of_mem_commands hc))

theorem foldl_apply_commands (t : StationsTable) (payload stations : List Row) :
    (commands payload stations).foldl Command.apply t =
      (t.replaceAll ((upserts (load payload) (load stations)).map Row.stored)).remove
        ((removed (load payload) (load stations)).map Subtype.val) := by
  have hupsert : ∀ (batches : List (List Row)) (t : StationsTable),
      (batches.map Command.upsert).foldl Command.apply t =
        t.replaceAll (batches.flatten.map Row.stored) := by
    intro batches
    induction batches with
    | nil => exact fun t => rfl
    | cons batch batches ih =>
      intro t
      rw [List.flatten_cons, List.map_append, KeyedTable.replaceAll_append, List.map_cons,
        List.foldl_cons, ih]
      rfl
  have hdelete : ∀ (batches : List (List Text)) (t : StationsTable),
      (batches.map Command.delete).foldl Command.apply t =
        t.remove (batches.flatten.map Subtype.val) := by
    intro batches
    induction batches with
    | nil => exact fun t => (KeyedTable.remove_nil t).symm
    | cons batch batches ih =>
      intro t
      rw [List.flatten_cons, List.map_append, KeyedTable.remove_append, List.map_cons,
        List.foldl_cons, ih]
      rfl
  rw [commands, List.foldl_append, hupsert, hdelete, flatten_chunks, flatten_chunks]

theorem flatMap_ids_commands (payload stations : List Row) :
    (commands payload stations).flatMap Command.ids =
      (upserts (load payload) (load stations)).map (fun row => row.id.1) ++
        (removed (load payload) (load stations)).map Subtype.val := by
  rw [commands, List.flatMap_append, List.flatMap_map, List.flatMap_map, List.flatMap_def,
    List.flatMap_def]
  simp only [Command.ids]
  rw [← List.map_flatten, ← List.map_flatten, flatten_chunks, flatten_chunks]

theorem upserted_statement (batch : List Row) :
    upserted (Command.upsert batch).statement = (Command.upsert batch).ids := by
  rw [Command.statement, upserted, Command.ids, List.filterMap_map]
  have hrow : d1Row ∘ literals = some ∘ Row.stored := rfl
  rw [hrow, List.filterMap_eq_map, List.map_map]
  rfl

theorem deleted_statement (batch : List Text) :
    deleted (Command.delete batch).statement = (Command.delete batch).ids := by
  rw [Command.statement, deleted, Command.ids, List.filterMap_map]
  exact congrFun List.filterMap_eq_map batch

/-- A statement is about the rows of its batch. -/
theorem upserted_append_deleted (c : Command) :
    upserted c.statement ++ deleted c.statement = c.ids := by
  cases c with
  | upsert batch =>
    rw [upserted_statement]
    exact List.append_nil _
  | delete batch => exact deleted_statement batch

/-- A row that is right already is in no batch. -/
theorem notMem_ids_of_same_mem {t : StationsTable} {payload stations : List Row}
    (hpayload : Returns t payload) {row : Row} (hrow : Wins stations row)
    (hsame : row.same ∈ t.rows) :
    row.same.id ∉ (commands payload stations).flatMap Command.ids := by
  rw [flatMap_ids_commands, List.mem_append, not_or]
  constructor
  · intro hmem
    obtain ⟨row', hrow', heq⟩ := List.mem_map.mp hmem
    obtain ⟨hwins, hnot⟩ := (mem_upserts_iff hpayload).mp hrow'
    obtain rfl := hwins.eq_of_id_eq hrow (Subtype.ext heq)
    exact hnot hsame
  · intro hmem
    obtain ⟨id, hid, heq⟩ := List.mem_map.mp hmem
    exact id_ne_of_mem_removed hid hrow (Subtype.ext heq.symm)

/-- No batch is about a row of another one. -/
theorem nodup_ids_commands (payload stations : List Row) :
    ((commands payload stations).flatMap Command.ids).Nodup := by
  rw [flatMap_ids_commands, List.nodup_append]
  refine ⟨nodup_ids_upserts _ _,
    ((load payload).nodup.filter _).map Subtype.val_injective, ?_⟩
  intro id hid id' hid' heq
  obtain ⟨row, hrow, rfl⟩ := List.mem_map.mp hid
  obtain ⟨id, hid, rfl⟩ := List.mem_map.mp hid'
  exact id_ne_of_mem_removed hid (wins_of_mem_upserts hrow) (Subtype.ext heq)

theorem upsert_mem_commands_iff {payload stations batch : List Row} :
    Command.upsert batch ∈ commands payload stations ↔
      batch ∈ chunks (upserts (load payload) (load stations)) := by
  simp [commands]

theorem delete_mem_commands_iff {payload stations : List Row} {batch : List Text} :
    Command.delete batch ∈ commands payload stations ↔
      batch ∈ chunks (removed (load payload) (load stations)) := by
  simp [commands]

theorem exists_of_mem_upserted {payload stations : List Row} {id : List Char}
    (h : id ∈ ((commands payload stations).map Command.statement).flatMap upserted) :
    ∃ row ∈ upserts (load payload) (load stations), row.id.1 = id := by
  rw [List.flatMap_map] at h
  obtain ⟨c, hc, hid⟩ := List.mem_flatMap.mp h
  cases c with
  | upsert batch =>
    rw [upserted_statement] at hid
    obtain ⟨row, hrow, rfl⟩ := List.mem_map.mp hid
    refine ⟨row, ?_, rfl⟩
    rw [← flatten_chunks (upserts _ _)]
    exact List.mem_flatten.mpr ⟨batch, upsert_mem_commands_iff.mp hc, hrow⟩
  | delete batch => exact absurd hid List.not_mem_nil

theorem exists_of_mem_deleted {payload stations : List Row} {id : List Char}
    (h : id ∈ ((commands payload stations).map Command.statement).flatMap deleted) :
    ∃ id' ∈ removed (load payload) (load stations), id'.1 = id := by
  rw [List.flatMap_map] at h
  obtain ⟨c, hc, hid⟩ := List.mem_flatMap.mp h
  cases c with
  | upsert batch => exact absurd hid List.not_mem_nil
  | delete batch =>
    rw [deleted_statement] at hid
    obtain ⟨id', hid', rfl⟩ := List.mem_map.mp hid
    refine ⟨id', ?_, rfl⟩
    rw [← flatten_chunks (removed _ _)]
    exact List.mem_flatten.mpr ⟨batch, delete_mem_commands_iff.mp hc, hid'⟩

theorem not_upserted_and_deleted (payload stations : List Row) (id : List Char) :
    ¬(id ∈ ((commands payload stations).map Command.statement).flatMap upserted ∧
      id ∈ ((commands payload stations).map Command.statement).flatMap deleted) := by
  rintro ⟨hupserted, hdeleted⟩
  obtain ⟨row, hrow, rfl⟩ := exists_of_mem_upserted hupserted
  obtain ⟨id', hid', heq⟩ := exists_of_mem_deleted hdeleted
  exact id_ne_of_mem_removed hid' (wins_of_mem_upserts hrow) (Subtype.ext heq.symm)

theorem seedD1_eq (t : StationsTable) (payload stations : List Row) :
    seedD1 t payload stations = some ((commands payload stations).foldl Command.apply t) := by
  have hread := read_main payload stations
  have hexec := Command.execAll_statements t (commands payload stations)
  cases hmain : main payload stations with
  | nil =>
    rw [hmain] at hread
    rw [← hexec, ← Option.some_inj.mp hread, seedD1, hmain]
    rfl
  | cons c script =>
    rw [seedD1, hmain]
    show (Sql.read (c :: script)).bind (execAll t) = _
    rw [← hmain, hread, Option.bind_some, hexec]

/-- The rows after a sync are those of the file. -/
theorem mem_foldl_apply_commands {t : StationsTable} {payload : List Row}
    (hpayload : Returns t payload) (stations : List Row) (r : D1Row) :
    r ∈ ((commands payload stations).foldl Command.apply t).rows ↔
      ∃ row, Wins stations row ∧ row.stored = r := by
  rw [foldl_apply_commands]
  exact mem_synced_iff hpayload

/-- Nothing is printed exactly when every row is right. -/
theorem main_eq_nil_iff {t : StationsTable} {payload stations : List Row}
    (hpayload : Returns t payload)
    (h : ∀ r, r ∈ t.rows ↔ ∃ row, Wins stations row ∧ row.stored = r) :
    main payload stations = [] ↔ ∀ row, Wins stations row → row.Double := by
  have hread := read_main payload stations
  constructor
  · intro hmain row hrow
    by_contra hdouble
    have hmem : row ∈ upserts (load payload) (load stations) :=
      (mem_upserts_iff hpayload).mpr
        ⟨hrow, fun hsame => hdouble (double_of_same_mem hpayload hsame)⟩
    rw [hmain] at hread
    have hnil : commands payload stations = [] :=
      List.map_eq_nil_iff.mp (Option.some_inj.mp hread).symm
    have hids := flatMap_ids_commands payload stations
    rw [hnil, List.flatMap_nil, eq_comm, List.append_eq_nil_iff, List.map_eq_nil_iff] at hids
    rw [hids.1] at hmem
    exact List.not_mem_nil hmem
  · intro hdouble
    have hupserts : upserts (load payload) (load stations) = [] := by
      refine List.eq_nil_iff_forall_not_mem.mpr fun row hrow => ?_
      obtain ⟨hwins, hnot⟩ := (mem_upserts_iff hpayload).mp hrow
      exact hnot ((h _).mpr ⟨row, hwins, stored_eq_same_iff.mpr (hdouble row hwins)⟩)
    have hremoved : removed (load payload) (load stations) = [] := by
      refine List.eq_nil_iff_forall_not_mem.mpr fun id hid => ?_
      obtain ⟨⟨r, hr, hrid⟩, hnone⟩ := (mem_removed_iff hpayload).mp hid
      obtain ⟨row, hrow, rfl⟩ := (h r).mp hr
      exact hnone row hrow (Subtype.ext hrid)
    rw [main_eq, commands, hupserts, hremoved]
    rfl

/-- The statements that the script prints make the table the rows of the file, touch no row that is
right already, and write and delete different rows; a second run prints nothing exactly when the
numbers of the file are in double precision. -/
theorem diff_stations_spec {t : StationsTable} {payload : List Row}
    (hpayload : Returns t payload) (stations : List Row) :
    ∃ statements t', Sql.read (main payload stations) = some statements ∧
      execAll t statements = some t' ∧ seedD1 t payload stations = some t' ∧
      (∀ r, r ∈ t'.rows ↔ ∃ row, Wins stations row ∧ row.stored = r) ∧
      (∀ done s rest u, statements = done ++ s :: rest → execAll t done = some u →
        ∀ row, Wins stations row → row.same ∈ t.rows ∨ row.same ∈ u.rows →
          row.same.id ∉ upserted s ++ deleted s) ∧
      (∀ id, ¬(id ∈ statements.flatMap upserted ∧ id ∈ statements.flatMap deleted)) ∧
      ∀ payload', Returns t' payload' →
        (main payload' stations = [] ↔ ∀ row, Wins stations row → row.Double) := by
  have hread := read_main payload stations
  have hexec := Command.execAll_statements t (commands payload stations)
  have hrows := mem_foldl_apply_commands hpayload stations
  refine ⟨_, _, hread, hexec, seedD1_eq t payload stations, hrows, ?_,
    not_upserted_and_deleted payload stations,
    fun payload' hpayload' => main_eq_nil_iff hpayload' hrows⟩
  intro done s rest u hsplit hdone row hrow hmem hid
  obtain ⟨cs, cs', hcs, rfl, hcs'⟩ := List.map_eq_append_iff.mp hsplit
  obtain ⟨c, cs', rfl, rfl, rfl⟩ := List.map_eq_cons_iff.mp hcs'
  rw [Command.execAll_statements, Option.some_inj] at hdone
  rw [upserted_append_deleted] at hid
  have hnodup := nodup_ids_commands payload stations
  have hids : (commands payload stations).flatMap Command.ids =
      cs.flatMap Command.ids ++ (c.ids ++ cs'.flatMap Command.ids) := by
    rw [hcs, List.flatMap_append, List.flatMap_cons]
  have hsame : row.same ∈ t.rows := by
    refine hmem.elim id fun hu => ?_
    rw [← hdone] at hu
    refine Command.mem_foldl_apply hu fun hearlier => ?_
    rw [hids, List.nodup_append] at hnodup
    exact hnodup.2.2 _ hearlier _ (List.mem_append_left _ hid) rfl
  refine notMem_ids_of_same_mem hpayload hrow hsame ?_
  rw [hids]
  exact List.mem_append_right _ (List.mem_append_left _ hid)

/-- A row of the file, with integers as its coordinates. -/
def bern : Row :=
  ⟨⟨"8507000".toList, by decide⟩, ⟨"Bern".toList, by decide⟩, .int 46 (by decide +kernel),
    .int 7 (by decide +kernel), ⟨"train".toList, by decide⟩⟩

/-- The same row with a quote in its name. -/
def bernQuoted : Row := { bern with name := ⟨"B'n".toList, by decide⟩ }

/-- The same row with an integer that is not in double precision. -/
def bernOdd : Row := { bern with lat := .int 9007199254740993 (by decide +kernel) }

/-- The table with the row as it is stored, and no other. -/
def bernTable (r : Row) : StationsTable := ⟨[r.stored], List.nodup_singleton _⟩

theorem returns_bernTable {r : Row} (hr : r.Double) : Returns (bernTable r) [r] where
  rows := by
    rw [List.map_singleton, ← stored_eq_same_iff.mpr hr]
    exact .refl _
  double := fun row hrow => by rwa [List.mem_singleton.mp hrow]

theorem double_bern : bern.Double :=
  ⟨IsDouble.intCast (n := 46) (by norm_num), IsDouble.intCast (n := 7) (by norm_num)⟩

theorem not_wins_nil {row : Row} : ¬ Wins [] row := by
  rintro ⟨l, r, h, -⟩
  simp at h

/-- A row before the others wins if none of them has its id. -/
theorem wins_cons_iff {r row : Row} {rows : List Row} :
    Wins (r :: rows) row ↔ row = r ∧ (∀ s ∈ rows, s.id ≠ r.id) ∨ Wins rows row := by
  constructor
  · rintro ⟨l, rest, h, hrest⟩
    cases l with
    | nil =>
      obtain ⟨rfl, rfl⟩ := List.cons.inj h
      exact .inl ⟨rfl, hrest⟩
    | cons x l =>
      obtain ⟨rfl, rfl⟩ := List.cons.inj h
      exact .inr ⟨l, rest, rfl, hrest⟩
  · rintro (⟨rfl, hrows⟩ | ⟨l, rest, rfl, hrest⟩)
    · exact ⟨[], rows, rfl, hrows⟩
    · exact ⟨r :: l, rest, rfl, hrest⟩

theorem wins_singleton_iff {r row : Row} : Wins [r] row ↔ row = r := by
  rw [wins_cons_iff, or_iff_left not_wins_nil]
  exact and_iff_left (List.forall_mem_nil _)

/-- A row that the table and the file have with the same values. -/
def thun : Row :=
  { bern with id := ⟨"8507100".toList, by decide⟩, name := ⟨"Thun".toList, by decide⟩ }

/-- A row that the table has and the file does not. -/
def visp : Row :=
  { bern with id := ⟨"8501605".toList, by decide⟩, name := ⟨"Visp".toList, by decide⟩ }

/-- A row that the file has and the table does not. -/
def luzern : Row :=
  { bern with id := ⟨"8505000".toList, by decide⟩, name := ⟨"Luzern".toList, by decide⟩ }

theorem ids_alpine : [bern.stored, thun.stored, visp.stored].map D1Row.id =
    ["8507000".toList, "8507100".toList, "8501605".toList] := rfl

/-- A table of three rows. -/
def alpineTable : StationsTable :=
  ⟨[bern.stored, thun.stored, visp.stored], by rw [ids_alpine]; decide⟩

theorem double_of_eq {r s : Row} (h : s.Double) (hlat : r.lat = s.lat) (hlon : r.lon = s.lon) :
    r.Double := by
  rwa [Row.Double, hlat, hlon]

/-- D1 returns them in another order. -/
theorem returns_alpineTable : Returns alpineTable [visp, bern, thun] := by
  have hthun : thun.Double := double_of_eq double_bern rfl rfl
  have hvisp : visp.Double := double_of_eq double_bern rfl rfl
  constructor
  · rw [List.map_cons, List.map_cons, List.map_cons, List.map_nil,
      ← stored_eq_same_iff.mpr double_bern, ← stored_eq_same_iff.mpr hthun,
      ← stored_eq_same_iff.mpr hvisp]
    exact (List.Perm.swap _ _ _).trans ((List.Perm.swap _ _ _).cons _)
  · exact List.forall_mem_cons.mpr ⟨hvisp, List.forall_mem_cons.mpr
      ⟨double_bern, List.forall_mem_singleton.mpr hthun⟩⟩

/-- A row is replaced, whose id the file has twice, one is inserted, one is deleted, and one is left
as it is. -/
theorem diff_stations_spec_alpine :
    ∃ t', seedD1 alpineTable [visp, bern, thun] [bern, thun, bernQuoted, luzern] = some t' ∧
      ∀ r, r ∈ t'.rows ↔ r ∈ [thun.stored, bernQuoted.stored, luzern.stored] := by
  obtain ⟨_, t', -, -, hseed, hrows, -⟩ :=
    diff_stations_spec returns_alpineTable [bern, thun, bernQuoted, luzern]
  refine ⟨t', hseed, fun r => (hrows r).trans ?_⟩
  have hthun : ∀ row ∈ [bernQuoted, luzern], row.id ≠ thun.id :=
    List.forall_mem_cons.mpr ⟨by decide, List.forall_mem_singleton.mpr (by decide)⟩
  have hbern : ¬ ∀ row ∈ [thun, bernQuoted, luzern], row.id ≠ bern.id :=
    fun h => h bernQuoted (by simp) rfl
  have hquoted : ∀ row ∈ [luzern], row.id ≠ bernQuoted.id :=
    List.forall_mem_singleton.mpr (by decide)
  have hwins : ∀ row, Wins [bern, thun, bernQuoted, luzern] row ↔
      row = thun ∨ row = bernQuoted ∨ row = luzern := by
    intro row
    rw [wins_cons_iff, wins_cons_iff, wins_cons_iff, wins_singleton_iff, and_iff_left hquoted,
      and_iff_left hthun, or_iff_right fun h => hbern h.2]
  simp [hwins, eq_comm]

/-- An integer that is not in double precision is written again by every run. -/
theorem diff_stations_not_idempotent :
    ∃ t' payload', seedD1 (bernTable bern) [bern] [bernOdd] = some t' ∧ Returns t' payload' ∧
      main payload' [bernOdd] ≠ [] := by
  have hrows := mem_foldl_apply_commands (returns_bernTable double_bern) [bernOdd]
  let t' := (commands [bern] [bernOdd]).foldl Command.apply (bernTable bern)
  let even : Row := { bern with lat := .int 9007199254740992 (by decide +kernel) }
  have heven : even.same = bernOdd.stored := by
    decide +kernel
  have hreturns : Returns t' [even] := by
    refine ⟨?_, ?_⟩
    · rw [List.map_singleton, heven]
      refine (List.perm_ext_iff_of_nodup (List.nodup_singleton _) t'.nodup.of_map).mpr fun r => ?_
      rw [List.mem_singleton, hrows]
      simp only [wins_singleton_iff, exists_eq_left, eq_comm]
    · intro row hrow
      rw [List.mem_singleton.mp hrow]
      exact ⟨IsDouble.intCast (n := 9007199254740992) (by norm_num),
        IsDouble.intCast (n := 7) (by norm_num)⟩
  refine ⟨t', [even], seedD1_eq _ _ _, hreturns, fun hnil => ?_⟩
  have hdouble := (main_eq_nil_iff hreturns hrows).mp hnil bernOdd (wins_singleton_iff.mpr rfl)
  exact absurd hdouble.1.1 (by decide +kernel)

end DiffStations

end Traintime
