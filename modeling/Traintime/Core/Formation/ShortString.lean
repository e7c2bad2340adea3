import Mathlib.Algebra.GroupWithZero.Nat
import Traintime.Core.Ojp.Scan
import Traintime.Lib.Backtrack
import Traintime.Lib.Decimal

/-!
# Formation strings

`parse_formation_short_string` of `core/src/formation.rs`: a string with a token for each vehicle
and for the sectors of the platform is parsed into the sectors and the wagons for passengers, front
first.

## Main definitions

* `Formation.Vehicle`, `Formation.Wagon`: a vehicle of the string, and what is returned for it.
* `Formation.tokenRe`: the pattern of a vehicle.
* `Formation.parseFormationShortString`: the parser.
-/

namespace Traintime.Formation

open Ojp (trim)

/-- The characters of `\d`, the decimal digits of Unicode. -/
structure DigitClass where
  isDigit : Char → Bool
  ascii : ∀ c : Char, c.toNat < 128 → isDigit c = c.isDigit

/-- The digits of ASCII, the smallest class of digits there is. -/
def DigitClass.asciiOnly : DigitClass := ⟨Char.isDigit, fun _ _ => rfl⟩

/-- One vehicle token, before passenger filtering, with the sector that it stands in. -/
structure Vehicle where
  kind : List Char
  sector : List Char
  number : Option UInt32
  opens : Bool
  closes : Bool
  closed : Bool
  notServing : Bool
  offers : List (List Char)
deriving DecidableEq, Repr

/-- A passenger car of the answer. Its position counts the passenger cars from 1, and its number is
the position if the string has none that fits into 32 bits. -/
structure Wagon where
  position : ℕ
  number : UInt32
  carClass : ℕ
  sector : List Char
  features : List String
  closed : Bool
  noPassageAfter : Bool
  mixedClass : Bool
  bikeReservation : Bool
  numberUnknown : Bool
deriving DecidableEq, Repr

/-! ### Tokens -/

/-- The groups of the pattern of a vehicle. -/
structure Captures where
  outer : Option (List Char)
  status : List Char
  inner : Option (List Char)
  kind : List Char
  close : Option (List Char)
  number : Option (List Char)
  offers : Option (List Char)
deriving DecidableEq, Repr

/-- The characters of a status, `[-%>=]`. -/
def isStatus (c : Char) : Bool := c = '-' ∨ c = '%' ∨ c = '>' ∨ c = '='

/-- The characters of offers and between them, `[A-Za-z0-9;]`. -/
def isOffer (c : Char) : Bool := c.isAlphanum || c = ';'

/-- The types of a vehicle in the order of the pattern, with `FA` in front of `F` and `12` in front
of `1`. -/
def types : List (List Char) :=
  ["LK", "CC", "FA", "WL", "WR", "W1", "W2", "12", "1", "2", "D", "F", "K", "X"].map String.toList

/-- The groups of the pattern with the characters around them. -/
def groups (d : DigitClass) :=
  (Pattern.word ['(']).opt.seq <|
  (Pattern.many isStatus).seq <|
  (Pattern.word ['(']).opt.seq <|
  (Pattern.oneOf types).seq <|
  (Pattern.word [')']).opt.seq <|
  ((Pattern.word [':']).seq (Pattern.many1 d.isDigit)).opt.seq
  ((Pattern.word ['#']).seq (Pattern.many1 isOffer)).opt

/-- `^(\()?([-%>=]*)(\()?(LK|…|X)(\))?(?::(\d+))?(?:#([A-Za-z0-9;]+))?$`. -/
def tokenRe (d : DigitClass) : Pattern Captures :=
  (groups d).map fun (outer, status, inner, kind, close, number, offers) =>
    ⟨outer, status, inner, kind, close, number.map Prod.snd, offers.map Prod.snd⟩

/-- `parse::<u32>` of digits, which fails for a number that does not fit. -/
def parseU32 (s : List Char) : Option UInt32 :=
  (Decimal.parse s).bind fun n => if n < 2 ^ 32 then some (UInt32.ofNat n) else none

/-- The vehicle of the captured groups in the sector that was entered last. It opens a group of
vehicles by either of the two parentheses, and closes one by its own. -/
def Captures.vehicle (c : Captures) (sector : List Char) : Vehicle where
  kind := c.kind
  sector := sector
  number := c.number.bind parseU32
  opens := c.outer.isSome || c.inner.isSome
  closes := c.close.isSome
  closed := c.status.contains '-'
  notServing := c.status.contains '%'
  offers :=
    match c.offers with
    | some m => (m.splitOn ';').map fun o => (trim o).map Char.toUpper
    | none => []

/-! ### Sectors -/

/-- What the loop over the tokens has read. -/
structure Scan where
  sectors : List (List Char)
  sector : List Char
  vehicles : List Vehicle
deriving DecidableEq, Repr

/-- The sector becomes the one that vehicles stand in, and joins the list of sectors unless it is in
it. -/
def Scan.enter (st : Scan) (s : List Char) : Scan :=
  { st with sector := s, sectors := if s ∈ st.sectors then st.sectors else st.sectors ++ [s] }

/-- A sector at the beginning of a token, and the rest of it. -/
def leading : List Char → Option (List Char × List Char)
  | '@' :: rest =>
    let letter := (rest.takeWhile Char.isAlpha).take 1
    if letter = [] then none else some (letter.map Char.toUpper, rest.drop letter.length)
  | _ => none

/-- A sector at the end of a token, and what is in front of it. -/
def trailing (token : List Char) : Option (List Char × List Char) :=
  if '@' ∈ token then
    let tail := token.rtakeWhile (· ≠ '@')
    if tail.length = 1 ∧ tail.all Char.isAlpha = true then
      some (tail.map Char.toUpper, token.take (token.length - (tail.length + 1)))
    else none
  else none

/-- The vehicle of what is left of a token. -/
def Scan.push (d : DigitClass) (st : Scan) (token : List Char) : Scan :=
  if token = [] then st
  else
    match (tokenRe d).full token with
    | some c => { st with vehicles := st.vehicles ++ [c.vehicle st.sector] }
    | none => st

/-- The brackets are removed after the spaces around a token. -/
def Scan.token (d : DigitClass) (st : Scan) (raw : List Char) : Scan :=
  let token := (trim raw).filter fun c => c ≠ '[' ∧ c ≠ ']'
  let (st, token) :=
    match leading token with
    | some (s, rest) => (st.enter s, rest)
    | none => (st, token)
  match trailing token with
  | some (s, token) => (st.push d token).enter s
  | none => st.push d token

/-- The loop over the parts between commas, from no sector and no vehicle. -/
def scan (d : DigitClass) (short : List Char) : Scan :=
  (short.splitOn ',').foldl (Scan.token d) ⟨[], [], []⟩

/-! ### Wagons -/

/-- A vehicle is a passenger car unless it is traction, baggage, fictitious or parked. -/
def Vehicle.isPassenger (v : Vehicle) : Bool :=
  !(["LK", "D", "F", "X"].contains (String.ofList v.kind))

/-- The vehicle has the offer. Its offers are in capital letters by then. -/
def Vehicle.has (v : Vehicle) (o : String) : Bool := v.offers.contains o.toList

/-- The features of a vehicle in the order of the source, from its offers, its type and whether it
is serving. -/
def Vehicle.features (v : Vehicle) : List String :=
  (if v.has "BHP" then ["wheelchair"] else []) ++
  (if ["WR", "W1", "W2"].contains (String.ofList v.kind) && !v.notServing then ["restaurant"]
    else []) ++
  (if String.ofList v.kind = "FA" || v.has "FZ" then ["family"] else []) ++
  (if v.has "BZ" then ["business"] else []) ++
  (if v.has "NF" then ["low_floor"] else []) ++
  (if v.has "VH" || v.has "VR" then ["bike"] else [])

/-- The wagon of a vehicle before its neighbours are known, at the position it gets among the
passenger cars. -/
def Vehicle.wagon (v : Vehicle) (position : ℕ) : Wagon where
  position := position
  number := v.number.getD (UInt32.ofNat position)
  carClass := if ["1", "W1", "12"].contains (String.ofList v.kind) then 1 else 2
  sector := v.sector
  features := v.features
  closed := v.closed
  noPassageAfter := false
  mixedClass := String.ofList v.kind = "12"
  bikeReservation := v.has "VR"
  numberUnknown := v.number.isNone

/-- The last wagon is changed, if there is one. -/
def setLast (b : Bool) (ws : List Wagon) : List Wagon :=
  match ws.getLast? with
  | some w => ws.dropLast ++ [{ w with noPassageAfter := b }]
  | none => ws

/-- The loop over the vehicles. A boundary of a vehicle that is passed over stays pending. -/
def wagonsFrom : List Vehicle → List Wagon → Bool → List Wagon
  | [], ws, _ => ws
  | v :: vs, ws, pending =>
    let nextOpens := vs.head?.any Vehicle.opens
    if v.isPassenger then
      let ws := if pending || v.opens then setLast true ws else ws
      wagonsFrom vs (ws ++ [v.wagon (ws.length + 1)]) (v.closes || nextOpens)
    else wagonsFrom vs ws (pending || (v.closes || nextOpens))

/-- `parse_formation_short_string`: the sectors and the wagons. No boundary is reported behind the
last wagon. -/
def parseFormationShortString (d : DigitClass) (short : List Char) :
    List (List Char) × List Wagon :=
  let st := scan d short
  (st.sectors, setLast false (wagonsFrom st.vehicles [] false))

end Traintime.Formation
