import Mathlib.Logic.Function.Basic
import Traintime.Lib.Transition
import Traintime.Server.Memcached.Protocol

/-!
# The connection pool of the Memcached client

`Memcached::call` of `server/src/memcached.rs` as a step relation: any number of calls share the idle
connections and the skip window, and one server takes the commands of each connection in order.
Bytes arrive in pieces of any size. A call can fail with an I/O error, time out or be dropped at
each of its await points, which are the connecting, the writing and the reading of the reply.

A call that awaits more of its reply is modelled by the bytes of the connection that it has not
read to the end: what it has read so far is lost with the connection when it fails there.

## Main definitions

* `Conn`: a connection, seen from both ends.
* `Pc`: where a call stands.
* `Pool`, `Pool.init`: the state.
* `callStep`, `connStep`, `poolStep`: the steps.
-/

namespace Traintime.Server.Memcached

/-- A connection between the client and the server, with the bytes that are on their way in either
direction. -/
structure Conn where
  /-- Written by the client and not yet taken by the server. -/
  sent : List UInt8
  /-- Arrived at the client and not yet read. -/
  arrived : List UInt8
  /-- Written by the server and not yet arrived. -/
  underway : List UInt8
  /-- The server has closed it. -/
  closed : Bool
deriving DecidableEq, Repr

/-- A connection that has just been made. -/
def Conn.new : Conn := ⟨[], [], [], false⟩

/-- No command is outstanding and no reply byte unread. -/
def Conn.Clean (x : Conn) : Prop := x.sent = [] ∧ x.arrived = [] ∧ x.underway = []

instance (x : Conn) : Decidable x.Clean :=
  inferInstanceAs (Decidable (_ ∧ _ ∧ _))

/-- Where a call of the client stands, between two steps that no other call can come in between. -/
inductive Pc
  | ready
  /-- The server is not skipped, the pool is next. -/
  | picking
  | connecting
  /-- Awaiting that the rest of the request is written. -/
  | writing (c : ℕ) (rest : List UInt8)
  /-- Awaiting the reply. -/
  | reading (c : ℕ)
  /-- The reply is read, the pool is next. -/
  | releasing (c : ℕ) (out : Output)
  | done (out : Option Output)
  /-- The future is gone, dropped by its owner or by a panic. -/
  | dropped
deriving DecidableEq, Repr

/-- The connection a call owns, from taking it to giving it back. -/
def Pc.conn? : Pc → Option ℕ
  | .writing c _ | .reading c | .releasing c _ => some c
  | _ => none

/-- The await points, at which a call can fail, time out or be dropped. -/
def Pc.awaits : Pc → Bool
  | .connecting | .writing _ _ | .reading _ => true
  | _ => false

/-- What a get returns. A call that failed or was skipped returns nothing, as a miss does. -/
def Pc.got : Pc → Option String
  | .done (some (.got v)) => v
  | _ => none

/-- The client and the server. The idle connections are listed last one first. -/
structure Pool (ι : Type) where
  now : ℕ
  skipUntil : Option ℕ
  idle : List ℕ
  conns : ℕ → Conn
  /-- The number of connections made so far. -/
  made : ℕ
  deadline : ι → ℕ
  pc : ι → Pc
  items : Items

variable {ι : Type}

/-- No call has begun, no connection is made, and the server holds these items. -/
def Pool.init (items : Items) : Pool ι :=
  ⟨0, none, [], fun _ => .new, 0, fun _ => 0, fun _ => .ready, items⟩

/-- `skipping`: a call has failed not long ago, and Memcached is left alone until then. -/
def Pool.skipping (s : Pool ι) : Bool :=
  match s.skipUntil with
  | some until_ => s.now < until_
  | none => false

/-- What a call does next: it goes on to its next await, or it ends by a failure, by the timeout or
because its owner drops it. -/
inductive CallAction
  | begin
  | pick
  | connect
  | write (n : ℕ)
  | receive
  | release
  | fail
  | timeout
  | drop
deriving DecidableEq, Repr

/-- What the server or the network does on a connection. -/
inductive ConnAction
  /-- The server takes a command and answers it, or has a line of its own for it. -/
  | answer (own : Option (List UInt8))
  | deliver (n : ℕ)
  | close
deriving DecidableEq, Repr

/-- A step of the client, of a connection, of the items, or of the clock. -/
inductive PoolAction (ι : Type)
  | call (r : ι) (a : CallAction)
  | conn (c : ℕ) (a : ConnAction)
  /-- An item expires, is evicted, or is written by someone else. -/
  | alter (key : List UInt8) (item : Option Item)
  | tick (d : ℕ)
deriving DecidableEq, Repr

variable [DecidableEq ι]

/-- The call moves on, and all others stay where they are. -/
def Pool.setPc (s : Pool ι) (r : ι) (pc : Pc) : Pool ι := { s with pc := Function.update s.pc r pc }

/-- The connection changes, and all others stay as they are. -/
def Pool.setConn (s : Pool ι) (c : ℕ) (x : Conn) : Pool ι :=
  { s with conns := Function.update s.conns c x }

/-- `mark_failed`; the call has lost its connection and returns nothing. -/
def Pool.failed (s : Pool ι) (r : ι) : Pool ι :=
  { s with skipUntil := some (s.now + skipFor) }.setPc r (.done none)

/-- One step of a call of `Memcached::call`, if it is possible. Of what the server sends, the reply
of the call decides how far it reads. -/
def callStep (op : ι → Op) (s : Pool ι) (r : ι) : CallAction → Option (Pool ι)
  | .begin =>
    match s.pc r with
    | .ready =>
      if (op r).allowed = false ∨ s.skipping = true then some (s.setPc r (.done none))
      else some ({ s with skipUntil := none }.setPc r .picking)
    | _ => none
  | .pick =>
    match s.pc r with
    | .picking =>
      let s := { s with deadline := Function.update s.deadline r (s.now + opTimeout) }
      match s.idle with
      | c :: idle => some ({ s with idle }.setPc r (.writing c (op r).request))
      | [] => some (s.setPc r .connecting)
    | _ => none
  | .connect =>
    match s.pc r with
    | .connecting =>
      some (({ s with made := s.made + 1 }.setConn s.made .new).setPc r
        (.writing s.made (op r).request))
    | _ => none
  | .write n =>
    match s.pc r with
    | .writing c rest =>
      if 0 < n ∧ n ≤ rest.length then
        let x := s.conns c
        some ((s.setConn c { x with sent := x.sent ++ rest.take n }).setPc r
          (if rest.drop n = [] then .reading c else .writing c (rest.drop n)))
      else none
    | _ => none
  | .receive =>
    match s.pc r with
    | .reading c =>
      let x := s.conns c
      match (op r).reply x.arrived x.closed with
      | .more => none
      | .fail => some (s.failed r)
      | .panic => some (s.setPc r .dropped)
      | .done out rest => some ((s.setConn c { x with arrived := rest }).setPc r (.releasing c out))
    | _ => none
  | .release =>
    match s.pc r with
    | .releasing c out =>
      some ({ s with idle := if s.idle.length < poolSize then c :: s.idle else s.idle }.setPc r
        (.done (some out)))
    | _ => none
  | .fail => if (s.pc r).awaits then some (s.failed r) else none
  | .timeout => if (s.pc r).awaits ∧ s.deadline r ≤ s.now then some (s.failed r) else none
  | .drop => if (s.pc r).awaits then some (s.setPc r .dropped) else none

/-- One step of the server or of the network on a connection. -/
def connStep (items : Items) (x : Conn) : ConnAction → Option (Items × Conn)
  | .answer own =>
    if x.closed = false ∧ ∀ l ∈ own, Reader.nl ∉ l then
      match takeCommand x.sent with
      | some (cmd, rest) =>
        some (if own = none then (respond items cmd).1 else items,
          { x with sent := rest, underway := x.underway ++ answerBytes items cmd own })
      | none => none
    else none
  | .deliver n =>
    some (items, { x with arrived := x.arrived ++ x.underway.take n, underway := x.underway.drop n })
  | .close => some (items, { x with underway := [], closed := true })

/-- One step of the whole: of a call, of a connection, of the items or of the clock. -/
def poolStep (op : ι → Op) (s : Pool ι) : PoolAction ι → Option (Pool ι)
  | .call r a => callStep op s r a
  | .conn c a =>
    match connStep s.items (s.conns c) a with
    | some (items, x) => some ({ s with items }.setConn c x)
    | none => none
  | .alter key item =>
    some { s with items := match item with
                            | some item => s.items.insert key item
                            | none => s.items.erase key }
  | .tick d => some { s with now := s.now + d }

end Traintime.Server.Memcached
