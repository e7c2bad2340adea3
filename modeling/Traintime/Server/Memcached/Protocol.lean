import Mathlib.Data.List.DropRight
import Mathlib.Tactic.IntervalCases
import Mathlib.Tactic.SplitIfs
import Traintime.Lib.AssocMap
import Traintime.Lib.Decimal
import Traintime.Lib.Reader
import Traintime.Server.Memcached

/-!
# The text protocol of Memcached

The requests and the readers of replies of `server/src/memcached.rs`, and a server that takes one
command after the other from the bytes of a connection. The server is that of the tests
(`fake::start`), with the flags of an item and the liberty to answer any command with a line of its
own.

## Main definitions

* `Op`, `Op.request`, `Op.reply`: what a call sends and how it reads the answer.
* `Command`, `takeCommand`, `respond`: what the server does.

## Main results

* `takeCommand_request`, `takeCommand_of_isPrefix`: the server takes exactly the command of a request.
* `Op.reply_of_line`, `getReply_of_hit`: a reader that ends has read the whole answer.
-/

namespace Traintime.Server.Memcached

/-! ### The client -/

/-- What a call of the client does. -/
inductive Op
  | get (key : String)
  | set (key value : String) (ttlSecs : ℕ)
deriving DecidableEq, Repr

/-- What a call reads from its reply. -/
inductive Output
  | got (v : Option String)
  | stored
deriving DecidableEq, Repr

/-- The calls that are made at all: a TTL of zero would mean "never expire" to Memcached. -/
def Op.allowed : Op → Bool
  | .get key => validKey key
  | .set key _ ttlSecs => validKey key && ttlSecs != 0

/-- The bytes a call writes: the line of the command and, for a set, the block with the value. The
length is that of the value in bytes. -/
def Op.request : Op → List UInt8
  | .get key => Utf8.encode ("get " ++ key ++ "\r\n")
  | .set key value ttlSecs =>
    Utf8.encode ("set " ++ key ++ " 0 " ++ ttlSecs.repr ++ " " ++
      (Utf8.encode value).length.repr ++ "\r\n") ++ Utf8.encode value ++ Utf8.encode "\r\n"

/-- `trim_end_matches(['\r', '\n'])`. -/
def trimEnd (s : String) : String :=
  String.ofList (s.toList.rdropWhile fun c => c == '\r' || c == '\n')

/-- `parse::<usize>`: decimal digits of a number of 64 bits, after a plus sign or none. -/
def parseUsize (l : List Char) : Option ℕ :=
  (Decimal.parse (if l.head? = some '+' then l.tail else l)).filter (· < 2 ^ 64)

/-- `read_line`: a line without its end. The end of the stream fails, and so does a line that is not
UTF-8. -/
def readLine : Reader String :=
  Reader.line.bind fun l =>
    if l = [] then .fail
    else
      match Utf8.decode l with
      | some s => .pure (trimEnd s)
      | none => .fail

/-- The length in `VALUE <key> <flags> <bytes>`. -/
def valueLen (header : String) : Option ℕ :=
  match header.toList with
  | 'V' :: 'A' :: 'L' :: 'U' :: 'E' :: ' ' :: rest => (rest.splitOn ' ')[2]?.bind parseUsize
  | _ => none

/-- The largest allocation, beyond which `vec!` panics. -/
def maxAlloc : ℕ := 2 ^ 63 - 1

/-- How `get_on` reads its reply: a line END, or the header, the block and the line END. The header
alone decides how much is read. -/
def getReply : Reader (Option String) :=
  readLine.bind fun header =>
    if header = "END" then .pure none
    else
      match valueLen header with
      | none => .fail
      | some len =>
        if maxAlloc < len + 2 then .panic
        else
          (Reader.exact (len + 2)).bind fun data =>
            readLine.bind fun trailer =>
              if trailer ≠ "END" then .fail
              else
                match Utf8.decode (data.take len) with
                | some v => .pure (some v)
                | none => .fail

/-- How `set_on` reads its reply, of which only the line of success is no failure. -/
def setReply : Reader Unit :=
  readLine.bind fun line => if line = "STORED" then .pure () else .fail

/-- How a call reads its reply, by what it has sent. -/
def Op.reply : Op → Reader Output
  | .get _ => getReply.bind fun v => .pure (.got v)
  | .set _ _ _ => setReply.bind fun _ => .pure .stored

/-! ### The server -/

/-- An item that Memcached holds, with the flags that it was set with. -/
structure Item where
  flags : ℕ
  data : List UInt8
deriving DecidableEq, Repr

/-- The items that Memcached holds, by their keys. -/
abbrev Items := AssocMap (List UInt8) Item

/-- A command as the server sees it. -/
inductive Command
  | get (key : List UInt8)
  | set (key : List UInt8) (data : List UInt8)
  | other
deriving DecidableEq, Repr

/-- `trim_end().split(' ')`: the words of a line, with empty ones where blanks follow each other. -/
def words (l : List UInt8) : List (List UInt8) :=
  (l.rdropWhile fun b => b == 0x20 || 0x09 ≤ b && b ≤ 0x0d).splitOn 0x20

/-- The command at the front of the bytes of a connection, once all of it is there. -/
def takeCommand (bs : List UInt8) : Option (Command × List UInt8) :=
  match Reader.line bs false with
  | .done l rest =>
    match words l with
    | [word, key] => if word = Utf8.encode "get" then some (.get key, rest) else some (.other, rest)
    | [word, key, _, _, len] =>
      if word = Utf8.encode "set" then
        match (Utf8.decode len).bind fun s => Decimal.parse s.toList with
        | some n =>
          if n + 2 ≤ rest.length then some (.set key (rest.take n), rest.drop (n + 2)) else none
        | none => some (.other, rest)
      else some (.other, rest)
    | _ => some (.other, rest)
  | _ => none

/-- The reply to a get of a key that is held: header, block and the line END. -/
def hitReply (key : List UInt8) (item : Item) : List UInt8 :=
  Utf8.encode "VALUE " ++ key ++
    Utf8.encode (" " ++ item.flags.repr ++ " " ++ item.data.length.repr ++ "\r\n") ++
    (item.data ++ Utf8.encode "\r\n" ++ Utf8.encode "END\r\n")

/-- The items and the reply after a command. -/
def respond (items : Items) : Command → Items × List UInt8
  | .get key =>
    match items.lookup key with
    | some item => (items, hitReply key item)
    | none => (items, Utf8.encode "END\r\n")
  | .set key data => (items.insert key ⟨0, data⟩, Utf8.encode "STORED\r\n")
  | .other => (items, Utf8.encode "ERROR\r\n")

/-- What the server answers to a command: what it should, or a line of its own. -/
def answerBytes (items : Items) (cmd : Command) : Option (List UInt8) → List UInt8
  | none => (respond items cmd).2
  | some l => l ++ [Reader.nl]

/-! ### Words -/

/-- A word of a command: not empty, and without blanks or control characters. -/
def Printable (w : List UInt8) : Prop := w ≠ [] ∧ ∀ b ∈ w, 0x20 < b

theorem printable_of_all {w : List UInt8} (h : (!w.isEmpty && w.all (0x20 < ·)) = true) :
    Printable w := by
  simpa [Printable] using h

theorem printable_key {key : String} (h : validKey key = true) : Printable (Utf8.encode key) := by
  simp only [validKey, Bool.and_eq_true, Bool.not_eq_true', List.isEmpty_eq_false_iff,
    List.any_eq_false, Bool.or_eq_true, decide_eq_true_eq, not_or, UInt8.not_le] at h
  exact ⟨h.1.1, fun b hb => (h.2 b hb).1⟩

/-- An ASCII digit is one byte. -/
theorem utf8EncodeChar_of_isDigit {c : Char} (h : c.isDigit = true) :
    ∀ b ∈ String.utf8EncodeChar c, 0x20 < b := by
  suffices hall : (String.utf8EncodeChar c).all (0x20 < ·) = true by simpa using hall
  have hc : 48 ≤ c.toNat ∧ c.toNat ≤ 57 := by
    simpa [Char.isDigit, UInt32.le_iff_toNat_le] using h
  obtain ⟨hlo, hhi⟩ := hc
  rw [← Char.ofNat_toNat c]
  generalize c.toNat = n at hlo hhi
  interval_cases n <;> rfl

theorem printable_repr (n : ℕ) : Printable (Utf8.encode n.repr) := by
  refine ⟨fun h => ?_, fun b hb => ?_⟩
  · exact Decimal.repr_ne_nil n (by rw [Utf8.encode_eq_nil_iff.1 h]; rfl)
  · obtain ⟨c, hc, hb⟩ := List.mem_flatMap.1 hb
    exact utf8EncodeChar_of_isDigit (Decimal.isDigit_of_mem_repr hc) b hb

theorem Printable.not_mem {w : List UInt8} (h : Printable w) {b : UInt8} (hb : b ≤ 0x20) :
    b ∉ w := fun hw => absurd (h.2 b hw) (UInt8.not_lt.2 hb)

theorem intercalate_eq_append_getLast {ws : List (List UInt8)} (hne : ws ≠ []) :
    ∃ l, [0x20].intercalate ws = l ++ ws.getLast hne := by
  induction ws with
  | nil => exact absurd rfl hne
  | cons w ws ih =>
    by_cases hws : ws = []
    · subst hws
      exact ⟨[], by simp⟩
    · obtain ⟨l, hl⟩ := ih hws
      exact ⟨w ++ [0x20] ++ l, by simp [List.intercalate_cons_of_ne_nil hws, hl, List.getLast_cons hws]⟩

/-- The words of a line are those it was put together from. -/
theorem words_intercalate {ws : List (List UInt8)} (hne : ws ≠ []) (h : ∀ w ∈ ws, Printable w) :
    words ([0x20].intercalate ws ++ [0x0d, 0x0a]) = ws := by
  obtain ⟨l, hl⟩ := intercalate_eq_append_getLast hne
  have hlast := h _ (List.getLast_mem hne)
  have htrim : (l ++ ws.getLast hne).rdropWhile
      (fun b => b == 0x20 || 0x09 ≤ b && b ≤ 0x0d) = l ++ ws.getLast hne := by
    rw [List.rdropWhile_eq_self_iff]
    intro hne'
    rw [List.getLast_append_of_ne_nil _ hlast.1]
    have hgt := hlast.2 _ (List.getLast_mem hlast.1)
    simp only [Bool.or_eq_true, Bool.and_eq_true, beq_iff_eq, decide_eq_true_eq]
    grind
  have hcrlf : [0x20].intercalate ws ++ [0x0d, 0x0a] = l ++ ws.getLast hne ++ [0x0d] ++ [0x0a] := by
    rw [hl]
    simp
  rw [words, hcrlf, List.rdropWhile_concat_pos _ _ _ (by decide),
    List.rdropWhile_concat_pos _ _ _ (by decide), htrim, ← hl,
    List.splitOn_intercalate _ (fun w hw => (h w hw).not_mem (by decide)) hne]

theorem nl_not_mem_intercalate {ws : List (List UInt8)} (h : ∀ w ∈ ws, Printable w) :
    Reader.nl ∉ [0x20].intercalate ws ++ [0x0d] := by
  intro hnl
  induction ws with
  | nil => simp [Reader.nl] at hnl
  | cons w ws ih =>
    have hw : Reader.nl ∉ w := (h w List.mem_cons_self).not_mem (by decide)
    have hsp : Reader.nl ≠ 0x20 := by decide
    have hcr : Reader.nl ≠ 0x0d := by decide
    have ih := ih fun w' hw' => h w' (List.mem_cons_of_mem _ hw')
    by_cases hws : ws = []
    · subst hws
      simp [hw, hcr] at hnl
    · rw [List.intercalate_cons_of_ne_nil hws] at hnl
      simp_all

/-! ### The commands of requests -/

/-- The words of the line of a request, the first of which is the command. -/
def Op.line : Op → List (List UInt8)
  | .get key => [Utf8.encode "get", Utf8.encode key]
  | .set key value ttlSecs => [Utf8.encode "set", Utf8.encode key, Utf8.encode "0",
      Utf8.encode ttlSecs.repr, Utf8.encode (Utf8.encode value).length.repr]

/-- The block of a request after its line. -/
def Op.block : Op → List UInt8
  | .get _ => []
  | .set _ value _ => Utf8.encode value ++ [0x0d, 0x0a]

/-- The command that a request is to the server. -/
def Op.command : Op → Command
  | .get key => .get (Utf8.encode key)
  | .set key value _ => .set (Utf8.encode key) (Utf8.encode value)

theorem Op.request_eq (op : Op) :
    op.request = [0x20].intercalate op.line ++ [0x0d] ++ [Reader.nl] ++ op.block := by
  have hcrlf : Utf8.encode "\r\n" = [0x0d] ++ [Reader.nl] := by decide
  cases op with
  | get key =>
    have hget : Utf8.encode "get " = Utf8.encode "get" ++ [0x20] := by decide
    simp [request, line, block, hcrlf, hget]
  | set key value ttlSecs =>
    have hset : Utf8.encode "set " = Utf8.encode "set" ++ [0x20] := by decide
    have hzero : Utf8.encode " 0 " = [0x20] ++ Utf8.encode "0" ++ [0x20] := by decide
    have hsp : Utf8.encode " " = [0x20] := by decide
    simp [request, line, block, hcrlf, hset, hzero, hsp, Reader.nl]

theorem Op.printable {op : Op} (h : op.allowed = true) : ∀ w ∈ op.line, Printable w := by
  have hword : ∀ {s : String}, s = "get" ∨ s = "set" ∨ s = "0" → Printable (Utf8.encode s) := by
    rintro s (rfl | rfl | rfl) <;> exact printable_of_all rfl
  cases op with
  | get key => simp [line, hword, printable_key h]
  | set key value ttlSecs =>
    have hkey : validKey key = true := (Bool.and_eq_true_iff.1 h).1
    simp [line, hword, printable_key hkey, printable_repr]

theorem Op.line_ne_nil (op : Op) : op.line ≠ [] := by
  cases op <;> simp [line]

/-- The server reads the words of the line of a request. -/
theorem takeCommand_line {op : Op} (h : op.allowed = true) (q : List UInt8) :
    takeCommand ([0x20].intercalate op.line ++ [0x0d] ++ Reader.nl :: q) =
      if op.block.length ≤ q.length then
        match op with
        | .get key => some (.get (Utf8.encode key), q)
        | .set key value _ =>
          some (.set (Utf8.encode key) (q.take (Utf8.encode value).length), q.drop op.block.length)
      else none := by
  have hline := Reader.line_append (nl_not_mem_intercalate (op.printable h)) q false
  have hcrlf : [0x20].intercalate op.line ++ [0x0d] ++ [Reader.nl] =
      [0x20].intercalate op.line ++ [0x0d, 0x0a] := by simp [Reader.nl]
  have hwords := words_intercalate op.line_ne_nil (op.printable h)
  rw [hcrlf] at hline
  rw [takeCommand, hline]
  simp only [hwords]
  cases op with
  | get key => simp [Op.line, Op.block]
  | set key value ttlSecs => simp [Op.line, Op.block]

/-- The server takes the command of a request, and all of the request. -/
theorem takeCommand_request {op : Op} (h : op.allowed = true) :
    takeCommand op.request = some (op.command, []) := by
  rw [op.request_eq, List.append_assoc, List.singleton_append, takeCommand_line h,
    if_pos le_rfl]
  cases op with
  | get key => rfl
  | set key value ttlSecs => simp [Op.block, Op.command]

theorem Op.request_ne_nil {op : Op} (h : op.allowed = true) : op.request ≠ [] := by
  intro hnil
  have htake := takeCommand_request h
  rw [hnil] at htake
  cases htake

/-- The server takes nothing before all of a request is there. -/
theorem takeCommand_of_isPrefix {op : Op} (h : op.allowed = true) {p : List UInt8}
    (hp : p <+: op.request) (hne : p ≠ op.request) : takeCommand p = none := by
  rw [op.request_eq] at hp hne
  rcases Reader.prefix_append_cases hp with ⟨hline, hne'⟩ | ⟨q, hq, rfl⟩
  · have hnl := Reader.not_mem_of_isPrefix (nl_not_mem_intercalate (op.printable h)) hline hne'
    rw [takeCommand, Reader.line_of_not_mem hnl]
    rfl
  · have hlt : q.length < op.block.length := by
      refine lt_of_le_of_ne hq.length_le fun hlen => hne ?_
      rw [hq.eq_of_length hlen]
    rw [List.append_assoc, List.singleton_append, takeCommand_line h, if_neg (not_le.2 hlt)]

/-! ### The replies -/

section Replies

variable {l p bs rest : List UInt8} {eof : Bool}

/-- A line that is read is a line of the stream, decoded and trimmed. -/
theorem readLine_eq_done {s : String} (h : readLine bs eof = .done s rest) :
    ∃ l, Reader.line bs eof = .done l rest := by
  obtain ⟨l, bs', hline, hrest⟩ := Reader.bind_eq_done_iff.1 h
  refine ⟨l, ?_⟩
  split_ifs at hrest
  · cases hrest
  · cases hdecode : Utf8.decode l with
    | none =>
      rw [hdecode] at hrest
      cases hrest
    | some t =>
      rw [hdecode] at hrest
      obtain ⟨-, rfl⟩ := Reader.Result.done.inj hrest
      exact hline

theorem readLine_of_isPrefix {s : String} (hl : Reader.nl ∉ l) (hp : p <+: l ++ [Reader.nl])
    (h : readLine p eof = .done s rest) :
    rest = [] ∧ (eof = true ∨ p = l ++ [Reader.nl]) := by
  obtain ⟨bs, hline⟩ := readLine_eq_done h
  exact (Reader.line_of_isPrefix hl hp hline).2

/-- A reader of one line that ends has read all of it. -/
theorem setReply_of_line {a : Unit} (hl : Reader.nl ∉ l) (hp : p <+: l ++ [Reader.nl])
    (h : setReply p eof = .done a rest) : rest = [] ∧ (eof = true ∨ p = l ++ [Reader.nl]) := by
  obtain ⟨s, bs, hline, hrest⟩ := Reader.bind_eq_done_iff.1 h
  split_ifs at hrest
  · obtain ⟨-, rfl⟩ := Reader.Result.done.inj hrest
    exact readLine_of_isPrefix hl hp hline
  · cases hrest

/-- A get that ends on a single line has read all of it, and no value. -/
theorem getReply_of_line {out : Option String} (hl : Reader.nl ∉ l) (hp : p <+: l ++ [Reader.nl])
    (h : getReply p eof = .done out rest) :
    rest = [] ∧ (eof = true ∨ p = l ++ [Reader.nl]) ∧ out = none := by
  obtain ⟨header, bs, hline, hrest⟩ := Reader.bind_eq_done_iff.1 h
  obtain ⟨rfl, hwhole⟩ := readLine_of_isPrefix hl hp hline
  split_ifs at hrest with hend
  · obtain ⟨rfl, rfl⟩ := Reader.Result.done.inj hrest
    exact ⟨rfl, hwhole, rfl⟩
  · cases hlen : valueLen header with
    | none =>
      rw [hlen] at hrest
      cases hrest
    | some len =>
      simp only [hlen] at hrest
      split_ifs at hrest
      · cases hrest
      · -- the block after the line is not empty
        obtain ⟨data, bs, hdata, -⟩ := Reader.bind_eq_done_iff.1 hrest
        exact absurd hdata (Reader.exact_ne_done_of_lt (Nat.succ_pos _))

/-- The header of the reply with an item. -/
def hitHeader (key : String) (item : Item) : String :=
  "VALUE " ++ key ++ " " ++ item.flags.repr ++ " " ++ item.data.length.repr

theorem trimEnd_hitHeader (key : String) (item : Item) :
    trimEnd (hitHeader key item ++ "\r\n") = hitHeader key item := by
  have hne := Decimal.repr_ne_nil item.data.length
  have hdigit := Decimal.isDigit_of_mem_repr (List.getLast_mem hne)
  have hself : (hitHeader key item).toList.rdropWhile (fun c => c == '\r' || c == '\n') =
      (hitHeader key item).toList := by
    rw [List.rdropWhile_eq_self_iff, hitHeader, String.toList_append]
    intro hne'
    rw [List.getLast_append_of_ne_nil _ hne]
    generalize item.data.length.repr.toList.getLast hne = c at hdigit
    intro hc
    rw [Bool.or_eq_true, beq_iff_eq, beq_iff_eq] at hc
    rcases hc with rfl | rfl <;> cases hdigit
  have hcrlf : (hitHeader key item ++ "\r\n").toList =
      (hitHeader key item).toList ++ ['\r'] ++ ['\n'] := by simp
  rw [trimEnd, hcrlf, List.rdropWhile_concat_pos _ _ _ (by decide),
    List.rdropWhile_concat_pos _ _ _ (by decide), hself, String.ofList_toList]

theorem blank_not_mem_key {key : String} (hkey : validKey key = true) : ' ' ∉ key.toList := by
  intro hsp
  exact (printable_key hkey).not_mem (by decide)
    (List.mem_flatMap.2 ⟨' ', hsp, (by decide : (0x20 : UInt8) ∈ String.utf8EncodeChar ' ')⟩)

theorem parseUsize_repr (n : ℕ) :
    parseUsize n.repr.toList = if n < 2 ^ 64 then some n else none := by
  have hhead : n.repr.toList.head? ≠ some '+' := by
    intro hplus
    have hdigit := Decimal.isDigit_of_mem_repr (List.mem_of_mem_head? hplus)
    cases hdigit
  rw [parseUsize, if_neg hhead, Nat.toList_repr, Decimal.parse_toDigits]
  simp only [Option.filter, decide_eq_true_eq]

/-- The length in the header of the reply with an item is that of its data. -/
theorem valueLen_hitHeader {key : String} (hkey : validKey key = true) (item : Item) :
    valueLen (hitHeader key item) =
      if item.data.length < 2 ^ 64 then some item.data.length else none := by
  have hchars : (hitHeader key item).toList = 'V' :: 'A' :: 'L' :: 'U' :: 'E' :: ' ' ::
      (key.toList ++ ' ' :: (item.flags.repr.toList ++ ' ' :: item.data.length.repr.toList)) := by
    simp [hitHeader]
  have hsplit : (key.toList ++ ' ' :: (item.flags.repr.toList ++
      ' ' :: item.data.length.repr.toList)).splitOn ' ' =
      [key.toList, item.flags.repr.toList, item.data.length.repr.toList] := by
    have hdigits : ∀ n : ℕ, ' ' ∉ n.repr.toList := fun n => Decimal.not_mem_repr (by decide)
    rw [List.splitOn_append_cons_self, List.splitOn_append_cons_self,
      List.splitOn_eq_singleton (blank_not_mem_key hkey), List.splitOn_eq_singleton (hdigits _),
      List.splitOn_eq_singleton (hdigits _)]
    rfl
  simp only [valueLen, hchars, hsplit]
  exact parseUsize_repr item.data.length

/-- The bytes of the header of the reply with an item. -/
theorem encode_hitHeader (key : String) (item : Item) :
    Utf8.encode (hitHeader key item ++ "\r\n") =
      [0x20].intercalate [Utf8.encode "VALUE", Utf8.encode key, Utf8.encode item.flags.repr,
        Utf8.encode item.data.length.repr] ++ [0x0d] ++ [Reader.nl] := by
  have hvalue : Utf8.encode "VALUE " = Utf8.encode "VALUE" ++ [0x20] := by decide
  have hsp : Utf8.encode " " = [0x20] := by decide
  have hcrlf : Utf8.encode "\r\n" = [0x0d] ++ [Reader.nl] := by decide
  simp [hitHeader, hvalue, hsp, hcrlf]

theorem nl_not_mem_hitHeader {key : String} (hkey : validKey key = true) (item : Item) :
    Reader.nl ∉ [0x20].intercalate [Utf8.encode "VALUE", Utf8.encode key,
      Utf8.encode item.flags.repr, Utf8.encode item.data.length.repr] ++ [0x0d] := by
  have hvalue : Printable (Utf8.encode "VALUE") := printable_of_all rfl
  refine nl_not_mem_intercalate ?_
  simp [hvalue, printable_key hkey, printable_repr]

theorem readLine_hitHeader {key : String} (hkey : validKey key = true) (item : Item)
    (q : List UInt8) (eof : Bool) :
    readLine (Utf8.encode (hitHeader key item ++ "\r\n") ++ q) eof =
      .done (hitHeader key item) q := by
  have hline : Reader.line (Utf8.encode (hitHeader key item ++ "\r\n") ++ q) eof =
      .done (Utf8.encode (hitHeader key item ++ "\r\n")) q := by
    rw [encode_hitHeader, List.append_assoc, List.singleton_append]
    exact Reader.line_append (nl_not_mem_hitHeader hkey item) q eof
  have hne : Utf8.encode (hitHeader key item ++ "\r\n") ≠ [] := by
    rw [encode_hitHeader]
    simp
  rw [readLine, Reader.bind_of_done hline, if_neg hne, Utf8.decode_encode]
  exact congrArg (fun s => Reader.Result.done s q) (trimEnd_hitHeader key item)

theorem hitHeader_ne_end (key : String) (item : Item) : hitHeader key item ≠ "END" := by
  intro h
  have hhead := congrArg (fun s => s.toList.head?) h
  simp [hitHeader] at hhead

/-- A get that ends on the reply with an item has read all of it, and its value is the item's. -/
theorem getReply_of_hit {key : String} (hkey : validKey key = true) {item : Item}
    {out : Option String} (hp : p <+: hitReply (Utf8.encode key) item)
    (h : getReply p eof = .done out rest) :
    rest = [] ∧ (eof = true ∨ p = hitReply (Utf8.encode key) item) ∧
      ∀ v, out = some v → Utf8.encode v = item.data := by
  have hreply : hitReply (Utf8.encode key) item = Utf8.encode (hitHeader key item ++ "\r\n") ++
      (item.data ++ Utf8.encode "\r\n" ++ Utf8.encode "END\r\n") := by
    simp [hitReply, hitHeader]
  rw [hreply] at hp ⊢
  rcases Reader.prefix_append_cases hp with ⟨hheader, hne⟩ | ⟨q, hq, rfl⟩
  · rw [encode_hitHeader] at hheader hne
    obtain ⟨hrest, hwhole, hout⟩ := getReply_of_line (nl_not_mem_hitHeader hkey item) hheader h
    refine ⟨hrest, .inl (hwhole.resolve_right hne), fun v hv => ?_⟩
    rw [hout] at hv
    cases hv
  · rw [getReply, Reader.bind_of_done (readLine_hitHeader hkey item q eof)] at h
    rw [if_neg (hitHeader_ne_end key item)] at h
    cases hlen : valueLen (hitHeader key item) with
    | none =>
      rw [hlen] at h
      cases h
    | some len =>
      obtain rfl : item.data.length = len := by
        have hvalue := valueLen_hitHeader hkey item
        rw [hlen] at hvalue
        split_ifs at hvalue
        exact (Option.some.inj hvalue).symm
      simp only [hlen] at h
      split_ifs at h
      · cases h
      · have hblock : (item.data ++ Utf8.encode "\r\n").length = item.data.length + 2 :=
          List.length_append
        rw [← hblock] at h
        obtain ⟨data, bs, hdata, h⟩ := Reader.bind_eq_done_iff.1 h
        obtain ⟨trailer, bs', htrailer, h⟩ := Reader.bind_eq_done_iff.1 h
        rcases Reader.prefix_append_cases hq with ⟨hshort, hne⟩ | ⟨q', hq', rfl⟩
        · refine absurd hdata (Reader.exact_ne_done_of_lt ?_)
          exact lt_of_le_of_ne hshort.length_le fun heq => hne (hshort.eq_of_length heq)
        · rw [Reader.exact_append] at hdata
          obtain ⟨rfl, rfl⟩ := Reader.Result.done.inj hdata
          have hend : Utf8.encode "END\r\n" = Utf8.encode "END\r" ++ [Reader.nl] := by decide
          rw [hend] at hq' ⊢
          obtain ⟨rfl, hwhole⟩ := readLine_of_isPrefix (by decide) hq' htrailer
          rw [List.take_left] at h
          split_ifs at h
          · cases h
          · cases hdecode : Utf8.decode item.data with
            | none =>
              rw [hdecode] at h
              cases h
            | some v =>
              rw [hdecode] at h
              obtain ⟨rfl, rfl⟩ := Reader.Result.done.inj h
              refine ⟨rfl, hwhole.imp_right fun hq => by rw [hq], fun u hu => ?_⟩
              rw [← Option.some.inj hu]
              exact Utf8.decode_eq_some_iff.1 hdecode

/-- The answers are single lines but for the reply with an item. -/
theorem answerBytes_cases (items : Items) (op : Op) {own : Option (List UInt8)}
    (hown : ∀ l ∈ own, Reader.nl ∉ l) :
    (∃ l, Reader.nl ∉ l ∧ answerBytes items op.command own = l ++ [Reader.nl]) ∨
      ∃ key item, op = .get key ∧ own = none ∧ items.lookup (Utf8.encode key) = some item ∧
        answerBytes items op.command own = hitReply (Utf8.encode key) item := by
  cases own with
  | some l => exact .inl ⟨l, hown l rfl, rfl⟩
  | none =>
    cases op with
    | set key value ttlSecs => exact .inl ⟨Utf8.encode "STORED\r", by decide, by rfl⟩
    | get key =>
      cases hitem : items.lookup (Utf8.encode key) with
      | some item =>
        exact .inr ⟨key, item, rfl, rfl, hitem, by simp [answerBytes, respond, Op.command, hitem]⟩
      | none =>
        refine .inl ⟨Utf8.encode "END\r", by decide, ?_⟩
        simp only [answerBytes, respond, Op.command, hitem]
        rfl

/-- A reader does not end on nothing. -/
theorem Op.reply_nil {op : Op} {out : Output} : op.reply [] eof ≠ .done out rest := by
  have hline : ∀ s bs, readLine [] eof ≠ .done s bs := by
    intro s bs h
    cases eof <;> cases h
  intro h
  cases op with
  | get key =>
    obtain ⟨_, _, hget, -⟩ := Reader.bind_eq_done_iff.1 h
    obtain ⟨_, _, hread, -⟩ := Reader.bind_eq_done_iff.1 hget
    exact hline _ _ hread
  | set key value ttlSecs =>
    obtain ⟨_, _, hset, -⟩ := Reader.bind_eq_done_iff.1 h
    obtain ⟨_, _, hread, -⟩ := Reader.bind_eq_done_iff.1 hset
    exact hline _ _ hread

/-- A reader that ends on an answer has read all of it, and a value it got is the item's. -/
theorem Op.reply_of_answer {op : Op} (hop : op.allowed = true) {items : Items}
    {own : Option (List UInt8)} (hown : ∀ l ∈ own, Reader.nl ∉ l) {out : Output}
    (hp : p <+: answerBytes items op.command own) (h : op.reply p eof = .done out rest) :
    rest = [] ∧ (eof = true ∨ p = answerBytes items op.command own) ∧
      ∀ v, out = .got (some v) → own = none ∧ ∃ key flags, op = .get key ∧
        items.lookup (Utf8.encode key) = some ⟨flags, Utf8.encode v⟩ := by
  rcases answerBytes_cases items op hown with ⟨l, hl, hbytes⟩ | ⟨key, item, rfl, rfl, hitem, hbytes⟩
  · rw [hbytes] at hp ⊢
    cases op with
    | get key =>
      obtain ⟨got, bs, hgot, h⟩ := Reader.bind_eq_done_iff.1 h
      obtain ⟨rfl, rfl⟩ := Reader.Result.done.inj h
      obtain ⟨hrest, hwhole, rfl⟩ := getReply_of_line hl hp hgot
      exact ⟨hrest, hwhole, fun v hv => by cases hv⟩
    | set key value ttlSecs =>
      obtain ⟨got, bs, hgot, h⟩ := Reader.bind_eq_done_iff.1 h
      obtain ⟨rfl, rfl⟩ := Reader.Result.done.inj h
      obtain ⟨hrest, hwhole⟩ := setReply_of_line hl hp hgot
      exact ⟨hrest, hwhole, fun v hv => by cases hv⟩
  · rw [hbytes] at hp ⊢
    obtain ⟨got, bs, hgot, h⟩ := Reader.bind_eq_done_iff.1 h
    obtain ⟨rfl, rfl⟩ := Reader.Result.done.inj h
    obtain ⟨hrest, hwhole, hvalue⟩ := getReply_of_hit hop hp hgot
    refine ⟨hrest, hwhole, fun v hv => ⟨rfl, key, item.flags, rfl, ?_⟩⟩
    rw [hitem, hvalue v (Output.got.inj hv)]

end Replies

end Traintime.Server.Memcached
