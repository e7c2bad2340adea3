import Traintime.Server.Memcached.Protocol

/-!
# The framing of requests and replies

What the client of `server/src/memcached.rs` writes is one command of the text protocol, whatever
the value holds, and what it reads of the reply to a get is all of the reply and nothing after it.

The protocol is stated here by itself: a line of words that ends in CRLF, for a set followed by a
block of the length it announces and another CRLF; keys of at most 250 bytes without blanks and
control characters; decimal numerals, that of the expiration time of 32 bits and possibly negative.

The server is a parameter, of which only what its protocol documents is assumed. There an expiration
time of up to 30 days counts from the set, and a larger one is an instant of Unix time. The client
writes its TTL as it is, so a TTL of more than 30 days is taken for an instant.

## Main definitions

* `TextCommand`, `readCommand`: the commands and their grammar.
* `Retained`, `Conforms`: how long an item is held, and what is assumed of a server.
* `Op.sent`: what a call writes, if it writes at all.
* `RoundTrips`: what is asked of the framing of a key, a value and a TTL.

## Main results

* `readCommand_request`: a request is one command, with its key, TTL and value.
* `getReply_end`, `getReply_hit`: the readers take exactly the reply.
* `roundTrips_iff`: the framing round-trips exactly for a TTL of at most 30 days, or for a key that
  is not sent.
* `execute_conforms`: a server that keeps its items in a map conforms.
-/

namespace Traintime.Server.Memcached

/-! ### The text protocol -/

/-- A command of the text protocol, one that stores an item or asks for some. Other commands are not
sent by the client. -/
inductive TextCommand
  | get (keys : List (List UInt8))
  | set (key : List UInt8) (flags : ℕ) (exptime : ℤ) (data : List UInt8) (noreply : Bool)
deriving DecidableEq, Repr

/-- The words of a line, separated by any number of blanks. -/
def tokens (l : List UInt8) : List (List UInt8) := (l.splitOn 0x20).filter fun w => !w.isEmpty

/-- A key of the protocol: not empty, of at most 250 bytes, and without control characters and
blanks. -/
def IsKey (key : List UInt8) : Prop :=
  key ≠ [] ∧ key.length ≤ 250 ∧ ∀ b ∈ key, 0x20 < b ∧ b ≠ 0x7f

instance (key : List UInt8) : Decidable (IsKey key) :=
  inferInstanceAs (Decidable (_ ∧ _ ∧ _))

/-- A decimal numeral without a sign, of any size. -/
def readNat (w : List UInt8) : Option ℕ := (Utf8.decode w).bind fun s => Decimal.parse s.toList

/-- A decimal numeral with an optional sign, of an integer of 32 bits. -/
def readInt (w : List UInt8) : Option ℤ :=
  let n : Option ℤ := (Utf8.decode w).bind fun s =>
    match s.toList with
    | '-' :: digits => (Decimal.parse digits).map fun n => -n
    | digits => (Decimal.parse digits).map fun n => n
  n.filter fun n => -2 ^ 31 ≤ n && n < 2 ^ 31

/-- The line up to its CRLF. A line that ends without a carriage return is none. -/
def readCrlfLine : Reader (List UInt8) :=
  Reader.line.bind fun l =>
    if l.drop (l.length - 2) = [0x0d, 0x0a] then .pure (l.take (l.length - 2)) else .fail

/-- The block of a set, of as many bytes as its line has announced, and the CRLF behind it. -/
def readBlock (n : ℕ) : Reader (List UInt8) :=
  (Reader.exact (n + 2)).bind fun block =>
    if block.drop n = [0x0d, 0x0a] then .pure (block.take n) else .fail

/-- The arguments of a set, its block and whether it wants no reply. -/
def readSet (key flags exptime bytes : List UInt8) (noreply : Bool) : Reader TextCommand :=
  match readNat flags, readInt exptime, readNat bytes with
  | some flags, some exptime, some n =>
    if IsKey key then
      (readBlock n).bind fun data => .pure (.set key flags exptime data noreply)
    else .fail
  | _, _, _ => .fail

/-- One command with its block, as the text protocol has it. Whatever is not of that form fails. -/
def readCommand : Reader TextCommand :=
  readCrlfLine.bind fun l =>
    match tokens l with
    | word :: args =>
      if word = Utf8.encode "get" then
        if args ≠ [] ∧ ∀ key ∈ args, IsKey key then .pure (.get args) else .fail
      else if word = Utf8.encode "set" then
        match args with
        | [key, flags, exptime, bytes] => readSet key flags exptime bytes false
        | [key, flags, exptime, bytes, last] =>
          if last = Utf8.encode "noreply" then readSet key flags exptime bytes true else .fail
        | _ => .fail
      else .fail
    | [] => .fail

/-- The part of a reply that holds an item. -/
def valuePart (key : List UInt8) (item : Item) : List UInt8 :=
  Utf8.encode "VALUE " ++ key ++ Utf8.encode " " ++ Utf8.encode item.flags.repr ++
    Utf8.encode " " ++ Utf8.encode item.data.length.repr ++ Utf8.encode "\r\n" ++
    item.data ++ Utf8.encode "\r\n"

/-- The reply to a get of one key, which may be held or not. -/
def replyTo (key : List UInt8) (item : Option Item) : List UInt8 :=
  item.elim [] (valuePart key) ++ Utf8.encode "END\r\n"

/-- The largest expiration time that counts from the set: 30 days. -/
def relativeMax : ℕ := 60 * 60 * 24 * 30

/-- Whether an item that is set at `setAt` with the expiration time `exptime` is held at `now`, both
in seconds of Unix time. Zero means that it never expires, and a negative one that it does at once.
Up to `relativeMax` it is a number of seconds from the set; beyond, it is itself an instant of Unix
time. -/
def Retained (exptime : ℤ) (setAt now : ℕ) : Prop :=
  exptime = 0 ∨
    0 < exptime ∧ exptime ≤ relativeMax ∧ now < setAt + exptime ∨
    relativeMax < exptime ∧ now < exptime

instance (exptime : ℤ) (setAt now : ℕ) : Decidable (Retained exptime setAt now) :=
  inferInstanceAs (Decidable (_ ∨ _ ∧ _ ∧ _ ∨ _ ∧ _))

section Server

variable {σ : Type}

/-- What a server does with a command at an instant of its clock, in seconds of Unix time: its new
state and its reply. -/
abbrev TextServer (σ : Type) := ℕ → σ → TextCommand → σ × List UInt8

/-- What is assumed of a server that has room for an item: it answers the set, and a later get of
the key with the item for as long as its expiration time says. -/
structure Conforms (server : TextServer σ) : Prop where
  /-- A set is answered with the line of success. -/
  stores : ∀ setAt s key flags exptime data, IsKey key →
    (server setAt s (.set key flags exptime data false)).2 = Utf8.encode "STORED\r\n"
  /-- A get after the set is answered with the item while it is held, and with a miss after. -/
  holds : ∀ setAt now s key flags exptime data, IsKey key → setAt ≤ now →
    (server now (server setAt s (.set key flags exptime data false)).1 (.get [key])).2 =
      replyTo key (if Retained exptime setAt now then some ⟨flags, data⟩ else none)

/-- What a server does with bytes that are one command. -/
def serve (server : TextServer σ) (now : ℕ) (s : σ) (bs : List UInt8) : Option (σ × List UInt8) :=
  match readCommand bs false with
  | .done cmd [] => some (server now s cmd)
  | _ => none

end Server

/-! ### What is written -/

/-- What a call writes, unless Memcached is skipped or the call fails before. -/
def Op.sent (op : Op) : Option (List UInt8) := if op.allowed then some op.request else none

/-- The keys that Memcached cannot hold, for which the client sends nothing. -/
def Unsendable (key : String) : Prop :=
  key = "" ∨ 250 < (Utf8.encode key).length ∨ ∃ b ∈ Utf8.encode key, b ≤ 0x20 ∨ b = 0x7f

/-- The command that a call stands for. -/
def Op.textCommand : Op → TextCommand
  | .get key => .get [Utf8.encode key]
  | .set key value ttlSecs => .set (Utf8.encode key) 0 ttlSecs (Utf8.encode value) false

theorem validKey_iff {key : String} : validKey key = true ↔ IsKey (Utf8.encode key) := by
  simp only [validKey, IsKey, Bool.and_eq_true, Bool.not_eq_true',
    List.isEmpty_eq_false_iff, decide_eq_true_eq, List.any_eq_false, Bool.or_eq_true, beq_iff_eq,
    not_or, UInt8.not_le, and_assoc, ne_eq]
  exact Iff.rfl

theorem validKey_eq_false_iff {key : String} : validKey key = false ↔ Unsendable key := by
  rw [← Bool.not_eq_true, validKey_iff, Unsendable, ← Utf8.encode_eq_nil_iff, IsKey, not_and_or,
    not_and_or, not_not, not_le, not_forall]
  simp only [exists_prop, not_forall, not_and_or, UInt8.not_lt, not_not, ne_eq]

theorem tokens_intercalate {ws : List (List UInt8)} (hne : ws ≠ []) (h : ∀ w ∈ ws, Printable w) :
    tokens ([0x20].intercalate ws) = ws := by
  rw [tokens, List.splitOn_intercalate _ (fun w hw => (h w hw).not_mem (by decide)) hne,
    List.filter_eq_self]
  intro w hw
  simpa using (h w hw).1

theorem readCrlfLine_append {l : List UInt8} (hl : Reader.nl ∉ l ++ [0x0d]) (q : List UInt8)
    (eof : Bool) : readCrlfLine (l ++ [0x0d] ++ Reader.nl :: q) eof = .done l q := by
  have hlength : (l ++ [0x0d] ++ [Reader.nl]).length - 2 = l.length := by simp
  have hcrlf : [0x0d] ++ [Reader.nl] = [0x0d, 0x0a] := rfl
  rw [readCrlfLine, Reader.bind_of_done (Reader.line_append hl q eof), hlength, List.append_assoc,
    List.drop_left, List.take_left, if_pos hcrlf]
  rfl

theorem readBlock_append (data q : List UInt8) (eof : Bool) :
    readBlock data.length (data ++ [0x0d, 0x0a] ++ q) eof = .done data q := by
  have hexact : Reader.exact (data.length + 2) (data ++ [0x0d, 0x0a] ++ q) eof =
      .done (data ++ [0x0d, 0x0a]) q := by
    have hlength : (data ++ [0x0d, 0x0a]).length = data.length + 2 := List.length_append
    rw [← hlength, Reader.exact_append]
  rw [readBlock, Reader.bind_of_done hexact, List.drop_left, List.take_left, if_pos rfl]
  rfl

theorem readNat_repr (n : ℕ) : readNat (Utf8.encode n.repr) = some n := by
  rw [readNat, Utf8.decode_encode, Option.bind_some, Nat.toList_repr, Decimal.parse_toDigits]

theorem readInt_repr (n : ℕ) :
    readInt (Utf8.encode n.repr) = if n < 2 ^ 31 then some (n : ℤ) else none := by
  have hparse : (Utf8.decode (Utf8.encode n.repr)).bind (fun s =>
      match s.toList with
      | '-' :: digits => (Decimal.parse digits).map fun n => -(n : ℤ)
      | digits => (Decimal.parse digits).map fun n => (n : ℤ)) = some (n : ℤ) := by
    rw [Utf8.decode_encode, Option.bind_some]
    split
    · rename_i digits hdigits
      have hsign : '-' ∈ n.repr.toList := by
        rw [hdigits]
        exact List.mem_cons_self
      exact absurd hsign (Decimal.not_mem_repr rfl)
    · rw [Nat.toList_repr, Decimal.parse_toDigits]
      rfl
  rw [readInt, hparse, Option.filter_some]
  have hsize : (decide (-2 ^ 31 ≤ (n : ℤ)) && decide ((n : ℤ) < 2 ^ 31)) = true ↔ n < 2 ^ 31 := by
    simp only [Bool.and_eq_true, decide_eq_true_eq]
    omega
  simp only [hsize]

/-- The calls whose TTL is an expiration time of the protocol. -/
def Op.Sized : Op → Prop
  | .get _ => True
  | .set _ _ ttlSecs => ttlSecs < 2 ^ 31

/-- The line of a request is read as the line of a command. -/
theorem readCommand_line {op : Op} (h : op.allowed = true) (q : List UInt8) (eof : Bool) :
    readCommand (op.request ++ q) eof =
      match op with
      | .get key => .done (.get [Utf8.encode key]) q
      | .set key value ttlSecs =>
        readSet (Utf8.encode key) (Utf8.encode "0") (Utf8.encode ttlSecs.repr)
          (Utf8.encode (Utf8.encode value).length.repr) false (op.block ++ q) eof := by
  have hline : op.request ++ q =
      [0x20].intercalate op.line ++ [0x0d] ++ Reader.nl :: (op.block ++ q) := by
    rw [op.request_eq]
    simp
  rw [hline, readCommand,
    Reader.bind_of_done (readCrlfLine_append (nl_not_mem_intercalate (op.printable h)) _ eof),
    tokens_intercalate op.line_ne_nil (op.printable h)]
  cases op with
  | get key =>
    have hkey : IsKey (Utf8.encode key) := validKey_iff.mp h
    have hargs : [Utf8.encode key] ≠ [] ∧ ∀ k ∈ [Utf8.encode key], IsKey k := by simpa using hkey
    simp only [Op.line, if_true]
    rw [if_pos hargs]
    rfl
  | set key value ttlSecs =>
    have hset : Utf8.encode "set" ≠ Utf8.encode "get" := by decide
    simp only [Op.line, if_neg hset, if_true]

/-- A request is one command, with its key, TTL and value, and nothing after it is part of it. -/
theorem readCommand_request {op : Op} (h : op.allowed = true) (hsized : op.Sized)
    (q : List UInt8) (eof : Bool) :
    readCommand (op.request ++ q) eof = .done op.textCommand q := by
  rw [readCommand_line h]
  cases op with
  | get key => rfl
  | set key value ttlSecs =>
    have hkey : IsKey (Utf8.encode key) := validKey_iff.mp (Bool.and_eq_true_iff.mp h).1
    have hzero : readNat (Utf8.encode "0") = some 0 := readNat_repr 0
    have hsized : ttlSecs < 2 ^ 31 := hsized
    simp only [readSet, hzero, readInt_repr, if_pos hsized, readNat_repr, if_pos hkey]
    rw [Op.block, Reader.bind_of_done (readBlock_append _ q eof)]
    rfl

/-- A set with a TTL that is no integer of 32 bits is no command. -/
theorem readCommand_request_of_le {key value : String} {ttlSecs : ℕ}
    (h : (Op.set key value ttlSecs).allowed = true) (hlarge : 2 ^ 31 ≤ ttlSecs) (q : List UInt8)
    (eof : Bool) : readCommand ((Op.set key value ttlSecs).request ++ q) eof = .fail := by
  have hzero : readNat (Utf8.encode "0") = some 0 := readNat_repr 0
  rw [readCommand_line h]
  simp only [readSet, hzero, readInt_repr, if_neg (not_lt.mpr hlarge)]
  rfl

/-! ### What is read -/

/-- The reader of a get takes exactly the reply of a miss. -/
theorem getReply_end (key q : List UInt8) (eof : Bool) :
    getReply (replyTo key none ++ q) eof = .done none q := by
  have hreply : replyTo key none ++ q = Utf8.encode "END" ++ [0x0d] ++ Reader.nl :: q := by
    have hend : Utf8.encode "END\r\n" = Utf8.encode "END" ++ [0x0d] ++ [Reader.nl] := by decide
    rw [replyTo, hend]
    simp
  have hline := Reader.line_append (by decide : Reader.nl ∉ Utf8.encode "END" ++ [0x0d]) q eof
  have hread : readLine (replyTo key none ++ q) eof = .done "END" q := by
    rw [readLine, hreply, Reader.bind_of_done hline]
    rfl
  rw [getReply, Reader.bind_of_done hread]
  rfl

/-- The reader of a get takes exactly the reply with an item, and its value. -/
theorem getReply_hit {key : String} (hkey : validKey key = true) {value : String} (flags : ℕ)
    (hfits : (Utf8.encode value).length + 2 ≤ maxAlloc) (q : List UInt8) (eof : Bool) :
    getReply (replyTo (Utf8.encode key) (some ⟨flags, Utf8.encode value⟩) ++ q) eof =
      .done (some value) q := by
  let item : Item := ⟨flags, Utf8.encode value⟩
  let block := Utf8.encode value ++ Utf8.encode "\r\n"
  have hreply : replyTo (Utf8.encode key) (some item) ++ q =
      Utf8.encode (hitHeader key item ++ "\r\n") ++
        (block ++ (Utf8.encode "END" ++ [0x0d] ++ Reader.nl :: q)) := by
    have hend : Utf8.encode "END\r\n" = Utf8.encode "END" ++ [0x0d] ++ [Reader.nl] := by decide
    simp [replyTo, valuePart, hitHeader, block, item, hend]
  have hlen : valueLen (hitHeader key item) = some (Utf8.encode value).length := by
    have hlt : item.data.length < 2 ^ 64 := by
      have hdata : item.data.length = (Utf8.encode value).length := rfl
      rw [maxAlloc] at hfits
      omega
    rw [valueLen_hitHeader hkey, if_pos hlt]
  have hblock : block.length = (Utf8.encode value).length + 2 := List.length_append
  have htrailer : ∀ q, readLine (Utf8.encode "END" ++ [0x0d] ++ Reader.nl :: q) eof =
      .done "END" q := by
    intro q
    rw [readLine, Reader.bind_of_done (Reader.line_append (by decide) q eof)]
    rfl
  rw [hreply, getReply, Reader.bind_of_done (readLine_hitHeader hkey item _ eof),
    if_neg (hitHeader_ne_end key item)]
  simp only [hlen]
  rw [if_neg (not_lt.mpr hfits), ← hblock, Reader.bind_of_done (Reader.exact_append block _ eof),
    Reader.bind_of_done (htrailer q), List.take_left, Utf8.decode_encode]
  rfl

/-- The reader of a set takes exactly the line of success. -/
theorem setReply_stored (q : List UInt8) (eof : Bool) :
    setReply (Utf8.encode "STORED\r\n" ++ q) eof = .done () q := by
  have hreply : Utf8.encode "STORED\r\n" ++ q =
      Utf8.encode "STORED" ++ [0x0d] ++ Reader.nl :: q := by
    have hstored : Utf8.encode "STORED\r\n" = Utf8.encode "STORED" ++ [0x0d] ++ [Reader.nl] := by
      decide
    rw [hstored]
    simp
  have hread : readLine (Utf8.encode "STORED\r\n" ++ q) eof = .done "STORED" q := by
    rw [readLine, hreply, Reader.bind_of_done (Reader.line_append (by decide) q eof)]
    rfl
  rw [setReply, Reader.bind_of_done hread]
  rfl

/-! ### Both directions -/

theorem Op.sent_eq_some_iff {op : Op} {bs : List UInt8} :
    op.sent = some bs ↔ op.allowed = true ∧ op.request = bs := by
  rw [sent]
  split_ifs with h <;> simp [h]

theorem Op.sent_get_eq_none_iff {key : String} : (Op.get key).sent = none ↔ Unsendable key := by
  rw [← validKey_eq_false_iff, sent, allowed]
  cases validKey key <;> simp

theorem Op.sent_set_eq_none_iff {key value : String} {ttlSecs : ℕ} :
    (Op.set key value ttlSecs).sent = none ↔ Unsendable key ∨ ttlSecs = 0 := by
  rw [← validKey_eq_false_iff, sent, allowed]
  cases validKey key <;> simp

section RoundTrips

variable {σ : Type} {server : TextServer σ} {key value : String} {ttlSecs : ℕ}

theorem serve_of_sent {op : Op} {bs : List UInt8} (h : op.sent = some bs) (hsized : op.Sized)
    (now : ℕ) (s : σ) : serve server now s bs = some (server now s op.textCommand) := by
  obtain ⟨hop, rfl⟩ := Op.sent_eq_some_iff.mp h
  have hread := readCommand_request hop hsized [] false
  rw [List.append_nil] at hread
  rw [serve, hread]

/-- What is asked of the framing of a key, a value and a TTL, where the set is made at `setAt`: each
call writes nothing or exactly its command, the reader of a get takes exactly the reply and what it
holds, and every get after the set within its TTL returns the value. A value that is read and the
message of a set are held in vectors, of at most `maxAlloc` bytes. -/
structure RoundTrips (server : TextServer σ) (key value : String) (ttlSecs setAt : ℕ) : Prop where
  /-- A get is not sent exactly for a key that Memcached cannot hold. -/
  get_unsent : (Op.get key).sent = none ↔ Unsendable key
  /-- A set is not sent exactly for such a key or a TTL of zero. -/
  set_unsent : (Op.set key value ttlSecs).sent = none ↔ Unsendable key ∨ ttlSecs = 0
  /-- What a get writes is one command with its key. -/
  get_sent : ∀ req more eof, (Op.get key).sent = some req →
    readCommand (req ++ more) eof = .done (.get [Utf8.encode key]) more
  /-- What a set writes is one command with its key, TTL and value. -/
  set_sent : ∀ msg more eof, (Op.set key value ttlSecs).sent = some msg →
    readCommand (msg ++ more) eof =
      .done (.set (Utf8.encode key) 0 ttlSecs (Utf8.encode value) false) more
  /-- The reply of a miss is read as none, and nothing after it is read. -/
  miss_read : ∀ more eof,
    getReply (replyTo (Utf8.encode key) none ++ more) eof = .done none more
  /-- The reply with the value is read as the value, and nothing after it is read. -/
  hit_read : ∀ flags more eof, ¬ Unsendable key → (Utf8.encode value).length + 2 ≤ maxAlloc →
    getReply (replyTo (Utf8.encode key) (some ⟨flags, Utf8.encode value⟩) ++ more) eof =
      .done (some value) more
  /-- The server stores the item of a set, and a get within the TTL returns the value. -/
  get_after_set : ∀ s msg eof, (Op.set key value ttlSecs).sent = some msg →
    msg.length ≤ maxAlloc →
    ∃ s' req, serve server setAt s msg = some (s', Utf8.encode "STORED\r\n") ∧
      setReply (Utf8.encode "STORED\r\n") eof = .done () [] ∧
      (Op.get key).sent = some req ∧
      ∀ now, setAt ≤ now → now < setAt + ttlSecs →
        ∃ s'' reply, serve server now s' req = some (s'', reply) ∧
          getReply reply eof = .done (some value) []

/-- An expiration time is kept as a TTL exactly up to 30 days, at every instant after the epoch. -/
theorem forall_retained_iff {setAt : ℕ} (hclock : 0 < setAt) (hpos : 0 < ttlSecs) :
    (∀ now : ℕ, setAt ≤ now → now < setAt + ttlSecs → Retained ttlSecs setAt now) ↔
      ttlSecs ≤ relativeMax := by
  have hmax : relativeMax = 2592000 := by decide
  constructor
  · intro h
    -- the last second of the TTL is later than the instant that the TTL is taken for
    by_contra hlong
    have hlast := h (setAt + ttlSecs - 1) (by omega) (by omega)
    rw [Retained, hmax] at hlast
    omega
  · intro hshort now hle hlt
    rw [Retained, hmax]
    omega

/-- What a get reads at an instant after a set that a conforming server has executed. -/
theorem get_of_set (hserver : Conforms server) {msg : List UInt8}
    (hmsg : (Op.set key value ttlSecs).sent = some msg) (hfits : msg.length ≤ maxAlloc)
    (hsized : ttlSecs < 2 ^ 31) (setAt : ℕ) (s : σ) (eof : Bool) :
    ∃ s' req, serve server setAt s msg = some (s', Utf8.encode "STORED\r\n") ∧
      (Op.get key).sent = some req ∧
      ∀ now, setAt ≤ now →
        ∃ s'' reply, serve server now s' req = some (s'', reply) ∧
          getReply reply eof =
            .done (if Retained ttlSecs setAt now then some value else none) [] := by
  obtain ⟨hop, rfl⟩ := Op.sent_eq_some_iff.mp hmsg
  have hkey : validKey key = true := (Bool.and_eq_true_iff.mp hop).1
  have hisKey : IsKey (Utf8.encode key) := validKey_iff.mp hkey
  have hreq : (Op.get key).sent = some (Op.get key).request := Op.sent_eq_some_iff.mpr ⟨hkey, rfl⟩
  have hvalue : (Utf8.encode value).length + 2 ≤ maxAlloc := by
    have hblock := congrArg List.length (Op.request_eq (.set key value ttlSecs))
    simp only [Op.block, List.length_append, List.length_cons, List.length_nil] at hblock
    omega
  let cmd := TextCommand.set (Utf8.encode key) 0 ttlSecs (Utf8.encode value) false
  refine ⟨(server setAt s cmd).1, _, ?_, hreq, fun now hle => ?_⟩
  · have hstored : (server setAt s cmd).2 = Utf8.encode "STORED\r\n" :=
      hserver.stores setAt s _ 0 ttlSecs _ hisKey
    rw [serve_of_sent hmsg hsized, ← hstored]
    rfl
  · refine ⟨_, _, serve_of_sent hreq trivial now _, ?_⟩
    rw [Op.textCommand, hserver.holds setAt now s _ 0 ttlSecs _ hisKey hle]
    split_ifs with hretained
    · have hget := getReply_hit hkey 0 hvalue [] eof
      rwa [List.append_nil] at hget
    · have hget := getReply_end (Utf8.encode key) [] eof
      rwa [List.append_nil] at hget

/-- The framing of a set that is sent round-trips only if its TTL counts from the set. -/
theorem RoundTrips.ttl_le {setAt : ℕ} (hserver : Conforms server) (hclock : 0 < setAt)
    (hfits : (Op.set key value ttlSecs).request.length ≤ maxAlloc)
    (hsent : (Op.set key value ttlSecs).allowed = true) (s : σ)
    (h : RoundTrips server key value ttlSecs setAt) : ttlSecs ≤ relativeMax := by
  have hmsg : (Op.set key value ttlSecs).sent = some _ := Op.sent_eq_some_iff.mpr ⟨hsent, rfl⟩
  have hpos : 0 < ttlSecs := by
    have hallowed := (Bool.and_eq_true_iff.mp hsent).2
    simp only [bne_iff_ne] at hallowed
    omega
  have hsized : ttlSecs < 2 ^ 31 := by
    by_contra hlarge
    have hread := h.set_sent _ [] false hmsg
    rw [readCommand_request_of_le hsent (not_lt.mp hlarge)] at hread
    cases hread
  obtain ⟨s', req, hset, hreq, hread⟩ := get_of_set hserver hmsg hfits hsized setAt s false
  obtain ⟨t, req', hset', -, hreq', hread'⟩ := h.get_after_set s _ false hmsg hfits
  obtain ⟨rfl, -⟩ := Prod.mk.inj (Option.some.inj (hset.symm.trans hset'))
  obtain rfl := Option.some.inj (hreq.symm.trans hreq')
  refine (forall_retained_iff hclock hpos).mp fun now hle hlt => ?_
  obtain ⟨s'', reply, hserve, hgot⟩ := hread now hle
  obtain ⟨t', reply', hserve', hgot'⟩ := hread' now hle hlt
  obtain ⟨-, rfl⟩ := Prod.mk.inj (Option.some.inj (hserve.symm.trans hserve'))
  by_contra hretained
  rw [hgot, if_neg hretained] at hgot'
  cases hgot'

/-- The framing of a key, a value and a TTL round-trips on a server that conforms, at any instant
after the epoch, exactly if the key is one that is not sent or the TTL is of at most 30 days. A
larger TTL is taken for an instant of Unix time, or is no expiration time at all. -/
theorem roundTrips_iff (hserver : Conforms server) [Inhabited σ] (setAt : ℕ) (hclock : 0 < setAt)
    (key value : String) (ttlSecs : ℕ)
    (hfits : (Op.set key value ttlSecs).request.length ≤ maxAlloc) :
    RoundTrips server key value ttlSecs setAt ↔ Unsendable key ∨ ttlSecs ≤ relativeMax := by
  have hmax : relativeMax = 2592000 := by decide
  constructor
  · intro h
    by_contra hsends
    obtain ⟨hkey, hlong⟩ := not_or.mp hsends
    rw [← validKey_eq_false_iff, Bool.not_eq_false] at hkey
    have hsent : (Op.set key value ttlSecs).allowed = true := by
      rw [Op.allowed, hkey, Bool.true_and, bne_iff_ne]
      omega
    exact hlong (h.ttl_le hserver hclock hfits hsent default)
  · intro hsends
    -- a set that is sent has a TTL that counts from the set
    have hshort : ∀ {msg}, (Op.set key value ttlSecs).sent = some msg →
        0 < ttlSecs ∧ ttlSecs ≤ relativeMax := by
      intro msg hmsg
      have hne : ¬ (Unsendable key ∨ ttlSecs = 0) := fun hunsent => by
        rw [Op.sent_set_eq_none_iff.mpr hunsent] at hmsg
        cases hmsg
      obtain ⟨hkey, hzero⟩ := not_or.mp hne
      exact ⟨Nat.pos_of_ne_zero hzero, hsends.resolve_left hkey⟩
    refine ⟨Op.sent_get_eq_none_iff, Op.sent_set_eq_none_iff, fun req more eof h => ?_,
      fun msg more eof h => ?_, getReply_end _, fun flags more eof hkey hfits => ?_,
      fun s msg eof h hfits => ?_⟩
    · obtain ⟨hop, rfl⟩ := Op.sent_eq_some_iff.mp h
      exact readCommand_request hop trivial more eof
    · have hsized : ttlSecs < 2 ^ 31 := by
        have hle := (hshort h).2
        omega
      obtain ⟨hop, rfl⟩ := Op.sent_eq_some_iff.mp h
      exact readCommand_request hop hsized more eof
    · rw [← validKey_eq_false_iff, Bool.not_eq_false] at hkey
      exact getReply_hit hkey flags hfits more eof
    · obtain ⟨hpos, hle⟩ := hshort h
      obtain ⟨s', req, hset, hreq, hread⟩ :=
        get_of_set hserver h hfits (by omega) setAt s eof
      have hstored := setReply_stored [] eof
      rw [List.append_nil] at hstored
      refine ⟨s', req, hset, hstored, hreq, fun now hfrom hto => ?_⟩
      obtain ⟨s'', reply, hserve, hgot⟩ := hread now hfrom
      rw [if_pos ((forall_retained_iff hclock hpos).mpr hle now hfrom hto)] at hgot
      exact ⟨s'', reply, hserve, hgot⟩

end RoundTrips

/-! ### A server that conforms -/

/-- The items by key, each with its expiration time and the instant of its set. -/
abbrev RetainedItems := AssocMap (List UInt8) (Item × ℤ × ℕ)

/-- The item of a key, if it is held at the instant. -/
def RetainedItems.item (items : RetainedItems) (now : ℕ) (key : List UInt8) : Option Item :=
  (items.lookup key).bind fun (item, exptime, setAt) =>
    if Retained exptime setAt now then some item else none

/-- A server that keeps every item in a map, and answers with those it still holds. -/
def execute : TextServer RetainedItems
  | now, items, .get keys =>
    (items, keys.flatMap (fun key => (items.item now key).elim [] (valuePart key)) ++
      Utf8.encode "END\r\n")
  | now, items, .set key flags exptime data noreply =>
    (items.insert key (⟨flags, data⟩, exptime, now),
      if noreply then [] else Utf8.encode "STORED\r\n")

theorem execute_conforms : Conforms execute where
  stores := fun _ _ _ _ _ _ _ => rfl
  holds := by
    intro setAt now s key flags exptime data _ _
    simp only [execute, List.flatMap_singleton, RetainedItems.item, AssocMap.lookup_insert_eq,
      if_true, Option.bind_some, replyTo]

/-- A value that looks like the end of a reply comes back for 30 days, on any day. -/
theorem roundTrips_execute : RoundTrips execute "k" "END\r\nSTORED" 2592000 1764547200 :=
  (roundTrips_iff execute_conforms 1764547200 (by decide) "k" "END\r\nSTORED" 2592000
    (by decide)).mpr (Or.inr (by decide))

/-- One second more, and a get at the instant of the set misses: the TTL is taken for the 31st of
January 1970. -/
theorem not_roundTrips_execute :
    (∃ items req, serve execute 1764547200 ∅ (Op.set "k" "v" 2592001).request =
        some (items, Utf8.encode "STORED\r\n") ∧
      (Op.get "k").sent = some req ∧
      ∃ items' reply, serve execute 1764547200 items req = some (items', reply) ∧
        getReply reply false = .done none []) ∧
    ¬ RoundTrips execute "k" "v" 2592001 1764547200 := by
  have hsent : (Op.set "k" "v" 2592001).sent = some (Op.set "k" "v" 2592001).request :=
    Op.sent_eq_some_iff.mpr ⟨by decide, rfl⟩
  have hfits : (Op.set "k" "v" 2592001).request.length ≤ maxAlloc := by decide
  obtain ⟨items, req, hset, hreq, hread⟩ :=
    get_of_set execute_conforms hsent hfits (by decide) 1764547200 ∅ false
  obtain ⟨items', reply, hserve, hgot⟩ := hread 1764547200 le_rfl
  rw [if_neg (by decide)] at hgot
  refine ⟨⟨items, req, hset, hreq, items', reply, hserve, hgot⟩, fun h => ?_⟩
  exact absurd (h.ttl_le execute_conforms (by decide) hfits (by decide) ∅) (by decide)

end Traintime.Server.Memcached
