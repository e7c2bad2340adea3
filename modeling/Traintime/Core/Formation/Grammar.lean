import Mathlib.Data.Bool.AllAny
import Mathlib.Data.List.Induction
import Traintime.Core.Formation.Captures
import Traintime.Core.Formation.Wagons

/-!
# The grammar of formation strings

The documented grammar: a vehicle is `[(][status][(]TYPE[)][:NUMBER][#OFFER;OFFER]`, with `@SECTOR`
leading or trailing a token and `[` `]` around the train's own vehicles. The parser reads each
string of the grammar as what it says.

## Main definitions

* `Formation.PlatformItem`, `Formation.Token`: what a token says, and how it is written.
* `Formation.placed`: the vehicles with the sectors they stand in.

## Main results

* `Formation.full_text`: the pattern reads a vehicle back.
* `Formation.formation_string_decodes`: the sectors and the wagons of a formation string.
-/

namespace Traintime.Formation

open Ojp (trim)

/-! ### The grammar -/

/-- The types of a vehicle: traction, service and passenger cars of both classes, and what is
fictitious or parked. -/
inductive Kind
  | lk | cc | fa | wl | wr | w1 | w2 | mixed | first | second | d | f | k | x
deriving DecidableEq, Repr

namespace Kind

/-- The characters of a type in the short string, as the pattern of a vehicle lists them. -/
def text : Kind → List Char
  | lk => "LK".toList
  | cc => "CC".toList
  | fa => "FA".toList
  | wl => "WL".toList
  | wr => "WR".toList
  | w1 => "W1".toList
  | w2 => "W2".toList
  | mixed => "12".toList
  | first => "1".toList
  | second => "2".toList
  | d => "D".toList
  | f => "F".toList
  | k => "K".toList
  | x => "X".toList

/-- Traction, baggage, fictitious and parked vehicles are not passenger cars. -/
def isPassenger : Kind → Bool
  | lk | d | f | x => false
  | _ => true

end Kind

/-- The status of a vehicle. A vehicle may have several, and the same one twice. -/
inductive Mark
  | closed
  /-- A restaurant that is open but not serving. -/
  | notServing
  /-- A group boarding. -/
  | boarding
  /-- A reservation. -/
  | reservation
deriving DecidableEq, Repr

/-- The character of a status in front of the type. -/
def Mark.char : Mark → Char
  | closed => '-'
  | notServing => '%'
  | boarding => '>'
  | reservation => '='

/-- A decimal number of any length. -/
abbrev Digits := {s : List Char // s ≠ [] ∧ ∀ c ∈ s, c.isDigit = true}

/-- An offer, letters and digits in either case. -/
abbrev Offer := {s : List Char // s ≠ [] ∧ ∀ c ∈ s, c.isAlphanum = true}

/-- The letter of a sector, in either case. -/
abbrev Letter := {c : Char // c.isAlpha = true}

/-- The name of a sector, its letter as a capital. -/
def Letter.name (l : Letter) : List Char := [l.1.toUpper]

/-- What a token says of a vehicle. -/
structure PlatformVehicle where
  outer : Bool
  marks : List Mark
  inner : Bool
  kind : Kind
  closes : Bool
  number : Option Digits
  offers : List Offer

/-- What a token says: a sector that is entered before the vehicle, the vehicle, and a sector that
is entered after it, each as far as it is there. -/
structure PlatformItem where
  leading : Option Letter
  vehicle : Option PlatformVehicle
  trailing : Option Letter

/-- The text if the condition holds. -/
def textIf (b : Bool) (s : List Char) : List Char := if b then s else []

namespace PlatformVehicle

/-- The number of the vehicle behind a colon, if the token has one. -/
def numberText (v : PlatformVehicle) : List Char :=
  match v.number with
  | some n => ':' :: n.1
  | none => []

/-- The offers behind one sign and with semicolons in between. No sign stands there if there are no
offers. -/
def offersText (v : PlatformVehicle) : List Char :=
  if v.offers = [] then [] else '#' :: [';'].intercalate (v.offers.map Subtype.val)

/-- The text of a vehicle: the parenthesis, the status, the second parenthesis, the type, the
closing parenthesis, the number and the offers. -/
def text (v : PlatformVehicle) : List Char :=
  textIf v.outer ['('] ++ v.marks.map Mark.char ++ textIf v.inner ['('] ++ v.kind.text ++
    textIf v.closes [')'] ++ v.numberText ++ v.offersText

end PlatformVehicle

namespace PlatformItem

/-- The letter of a sector behind its sign, at the beginning or at the end of a token. -/
def sectorText (l : Option Letter) : List Char :=
  match l with
  | some l => ['@', l.1]
  | none => []

/-- The text of the vehicle, empty for a token that only enters a sector. -/
def vehicleText (i : PlatformItem) : List Char :=
  match i.vehicle with
  | some v => v.text
  | none => []

/-- The text of what a token says, before brackets and spaces are put into it. -/
def text (i : PlatformItem) : List Char :=
  sectorText i.leading ++ i.vehicleText ++ sectorText i.trailing

end PlatformItem

/-- A token: the text of an item with brackets anywhere, and spaces around it. -/
structure Token where
  item : PlatformItem
  body : List Char
  body_eq : body.filter (fun c => c ≠ '[' ∧ c ≠ ']') = item.text
  before : ℕ
  after : ℕ

namespace Token

/-- The token as it stands between the commas, with the spaces around it. -/
def text (t : Token) : List Char :=
  List.replicate t.before ' ' ++ t.body ++ List.replicate t.after ' '

/-- The tokens with commas in between, as the API sends them. -/
def render (ts : List Token) : List Char := [','].intercalate (ts.map text)

end Token

/-! ### What a string says -/

/-- The sectors that a token enters, the one before the vehicle first. -/
def PlatformItem.entered (i : PlatformItem) : List (List Char) :=
  (i.leading.toList ++ i.trailing.toList).map Letter.name

/-- The sectors in the order of their first appearance. -/
def sectors (items : List PlatformItem) : List (List Char) :=
  (items.flatMap PlatformItem.entered).eraseDups

/-- The sector that a vehicle of a token stands in after other tokens: the one that was entered
last, the empty string before the first one. -/
def sectorOf (items : List PlatformItem) (i : PlatformItem) : List Char :=
  (items.flatMap PlatformItem.entered ++ i.leading.toList.map Letter.name).getLast?.getD []

/-- The vehicles with the sectors they stand in. -/
def placed (items : List PlatformItem) : List (PlatformVehicle × List Char) :=
  items.zipIdx.filterMap fun e =>
    e.1.vehicle.map fun v => (v, sectorOf (items.take e.2) e.1)

/-- The passenger cars with the sectors they stand in. -/
def cars (items : List PlatformItem) : List (PlatformVehicle × List Char) :=
  (placed items).filter fun p => p.1.kind.isPassenger

namespace PlatformVehicle

/-- The number of the vehicle, when it is one of 32 bits. -/
def value (v : PlatformVehicle) : Option UInt32 :=
  match v.number with
  | some n => if Nat.ofDigitChars 10 n.1 0 < 2 ^ 32
    then some (UInt32.ofNat (Nat.ofDigitChars 10 n.1 0)) else none
  | none => none

/-- Whether an offer is made, in either case. -/
def offered (v : PlatformVehicle) (name : String) : Bool :=
  v.offers.any fun o => o.1.map Char.toUpper = name.toList

/-- The features of the vehicle in the order in which a wagon lists them. An offer counts in either
case, and a restaurant only if it is serving. -/
def features (v : PlatformVehicle) : List String :=
  (if v.offered "BHP" then ["wheelchair"] else []) ++
  (if v.kind ∈ [Kind.wr, Kind.w1, Kind.w2] ∧ Mark.notServing ∉ v.marks then ["restaurant"]
    else []) ++
  (if v.kind = .fa ∨ v.offered "FZ" then ["family"] else []) ++
  (if v.offered "BZ" then ["business"] else []) ++
  (if v.offered "NF" then ["low_floor"] else []) ++
  (if v.offered "VH" ∨ v.offered "VR" then ["bike"] else [])

/-- The wagon of a passenger car, as far as it does not depend on its neighbours. -/
def wagon (v : PlatformVehicle) (sector : List Char) (position : ℕ) : Wagon where
  position := position
  number := v.value.getD (UInt32.ofNat position)
  carClass := if v.kind ∈ [Kind.first, Kind.w1, Kind.mixed] then 1 else 2
  sector := sector
  features := v.features
  closed := Mark.closed ∈ v.marks
  noPassageAfter := false
  mixedClass := v.kind = .mixed
  bikeReservation := v.offered "VR"
  numberUnknown := v.value.isNone

end PlatformVehicle

/-! ### Reading a vehicle -/

/-- The characters of the text of a vehicle. -/
def isVehicleChar (c : Char) : Bool := c.isAlphanum || "(-%>=):#;".toList.contains c

theorem isAlphanum_of_isDigit {c : Char} (h : c.isDigit = true) : c.isAlphanum = true := by
  rw [Char.isAlphanum, h, Bool.or_true]

theorem isAlphanum_of_isAlpha {c : Char} (h : c.isAlpha = true) : c.isAlphanum = true := by
  rw [Char.isAlphanum, h, Bool.true_or]

theorem isWhitespace_eq_false {c : Char} (h : isVehicleChar c = true) :
    Ojp.isWhitespace c = false := by
  rw [isVehicleChar, Bool.or_eq_true] at h
  rcases h with h | h
  · obtain ⟨h1, h2⟩ := Regex.toNat_of_isAlphanum h
    simp only [Ojp.isWhitespace, Bool.or_eq_false_iff, Bool.and_eq_false_iff, beq_eq_false_iff_ne,
      decide_eq_false_iff_not]
    omega
  · have hall := List.all_iff_forall_prop.mp
      (by decide : "(-%>=):#;".toList.all (Ojp.isWhitespace · = false))
    exact hall c (List.contains_iff_mem.mp h)

/-- Spaces around a text without spaces are removed. -/
theorem trim_pad {s : List Char} (h : ∀ c ∈ s, Ojp.isWhitespace c = false) (m n : ℕ) :
    trim (List.replicate m ' ' ++ s ++ List.replicate n ' ') = s := by
  have hspace : ∀ n, ∀ c ∈ List.replicate n ' ', Ojp.isWhitespace c = true := by
    intro n c hc
    rw [List.eq_of_mem_replicate hc]
    rfl
  exact Ojp.trim_append (fun c hc => h c (List.mem_of_mem_head? hc))
    (fun c hc => h c (List.mem_of_mem_getLast? hc)) (hspace m) (hspace n)

theorem mem_intercalate {x c : Char} {ls : List (List Char)} (h : c ∈ [x].intercalate ls) :
    c = x ∨ ∃ l ∈ ls, c ∈ l := by
  induction ls with
  | nil => exact absurd h List.not_mem_nil
  | cons l ls ih =>
    cases ls with
    | nil =>
      rw [List.intercalate_singleton] at h
      exact .inr ⟨l, List.mem_singleton_self l, h⟩
    | cons l' ls =>
      rw [List.intercalate_cons_cons, List.append_assoc, List.mem_append, List.mem_append,
        List.mem_singleton] at h
      rcases h with h | h | h
      · exact .inr ⟨l, List.mem_cons_self, h⟩
      · exact .inl h
      · refine (ih h).imp_right ?_
        rintro ⟨l'', hl, hc⟩
        exact ⟨l'', List.mem_cons_of_mem _ hl, hc⟩

theorem intercalate_cons_ne_nil {x : Char} {l : List Char} (hl : l ≠ []) (ls : List (List Char)) :
    [x].intercalate (l :: ls) ≠ [] := by
  cases ls with
  | nil => rwa [List.intercalate_singleton]
  | cons l' ls =>
    rw [List.intercalate_cons_cons, List.append_assoc]
    exact List.append_ne_nil_of_left_ne_nil hl _

theorem Kind.text_mem_types (kind : Kind) : kind.text ∈ types := by
  cases kind <;> decide

theorem isStatus_char (m : Mark) : isStatus m.char = true := by
  cases m <;> rfl

theorem Mark.char_injective : Function.Injective Mark.char := by
  intro m m' h
  cases m <;> cases m' <;> first | rfl | exact absurd h (by decide)

namespace PlatformVehicle

variable (v : PlatformVehicle)

/-- The groups of the text of a vehicle. -/
def captures : Captures where
  outer := if v.outer then some ['('] else none
  status := v.marks.map Mark.char
  inner := if v.inner then some ['('] else none
  kind := v.kind.text
  close := if v.closes then some [')'] else none
  number := v.number.map Subtype.val
  offers := if v.offers = [] then none else some ([';'].intercalate (v.offers.map Subtype.val))

theorem text_captures : v.captures.text = v.text := by
  have hgroup : ∀ (b : Bool) (s : List Char), (if b then some s else none).getD [] = textIf b s := by
    intro b s
    cases b <;> rfl
  have hnumber : v.captures.numberText = v.numberText := by
    rw [Captures.numberText, numberText, captures]
    cases v.number <;> rfl
  have hoffers : v.captures.offersText = v.offersText := by
    rw [Captures.offersText, offersText, captures]
    split_ifs <;> rfl
  rw [Captures.text, hnumber, hoffers, text]
  simp only [captures, hgroup, List.append_assoc]

theorem valid_captures (d : DigitClass) : v.captures.Valid d := by
  have hgroup : ∀ (b : Bool) (s : List Char), ∀ a ∈ (if b then some s else none), a = s := by
    intro b s a ha
    cases b with
    | true => exact (Option.some_inj.mp ha).symm
    | false => cases ha
  refine ⟨hgroup _ _, ?_, hgroup _ _, v.kind.text_mem_types, hgroup _ _, ?_, ?_⟩
  · intro ch hch
    obtain ⟨m, -, rfl⟩ := List.mem_map.mp hch
    exact isStatus_char m
  · intro n hn
    obtain ⟨n, -, rfl⟩ := Option.map_eq_some_iff.mp hn
    refine ⟨fun ch hch => ?_, n.2.1⟩
    have hdigit := n.2.2 ch hch
    have hrange := Regex.toNat_of_isAlphanum (isAlphanum_of_isDigit hdigit)
    rwa [d.ascii ch (by omega)]
  · intro o ho
    rw [captures, Option.mem_def, Option.ite_none_left_eq_some, Option.some_inj] at ho
    obtain ⟨hne, rfl⟩ := ho
    constructor
    · intro ch hch
      rcases mem_intercalate hch with rfl | ⟨l, hl, hmem⟩
      · rfl
      · obtain ⟨offer, -, rfl⟩ := List.mem_map.mp hl
        rw [isOffer, offer.2.2 ch hmem, Bool.true_or]
    · obtain ⟨offer, offers, hoffers⟩ := List.exists_cons_of_ne_nil hne
      rw [hoffers, List.map_cons]
      exact intercalate_cons_ne_nil offer.2.1 _

/-- The vehicle as the parser holds it. -/
def vehicle (sector : List Char) : Vehicle where
  kind := v.kind.text
  sector := sector
  number := v.value
  opens := v.outer || v.inner
  closes := v.closes
  closed := Mark.closed ∈ v.marks
  notServing := Mark.notServing ∈ v.marks
  offers := v.offers.map fun o => o.1.map Char.toUpper

/-- The offers are separated as they were joined. -/
theorem offers_captures :
    (match v.captures.offers with
      | some m => (m.splitOn ';').map fun o => (trim o).map Char.toUpper
      | none => []) = v.offers.map fun o => o.1.map Char.toUpper := by
  have hcaptures : v.captures.offers = if v.offers = [] then none
      else some ([';'].intercalate (v.offers.map Subtype.val)) := rfl
  rw [hcaptures]
  split_ifs with hne
  · rw [hne]
    rfl
  · have hsemicolon : ∀ l ∈ v.offers.map Subtype.val, ';' ∉ l := by
      intro l hl hmem
      obtain ⟨offer, -, rfl⟩ := List.mem_map.mp hl
      exact absurd (offer.2.2 _ hmem) (by decide)
    show (([';'].intercalate (v.offers.map Subtype.val)).splitOn ';').map _ = _
    rw [List.splitOn_intercalate _ hsemicolon (by rwa [ne_eq, List.map_eq_nil_iff]), List.map_map]
    refine List.map_congr_left fun offer _ => congrArg (List.map Char.toUpper) ?_
    have hspace : ∀ c ∈ offer.1, Ojp.isWhitespace c = false := fun c hc =>
      isWhitespace_eq_false (by rw [isVehicleChar, offer.2.2 c hc, Bool.true_or])
    exact Ojp.trim_eq_self (fun c hc => hspace c (List.mem_of_mem_head? hc))
      fun c hc => hspace c (List.mem_of_mem_getLast? hc)

theorem vehicle_captures (sector : List Char) : v.captures.vehicle sector = v.vehicle sector := by
  have hmark : ∀ m : Mark, (v.marks.map Mark.char).contains m.char = decide (m ∈ v.marks) := by
    intro m
    rw [Bool.eq_iff_iff, List.contains_iff_mem, decide_eq_true_eq,
      List.mem_map_of_injective Mark.char_injective]
  have hsome : ∀ (b : Bool) (s : List Char), (if b then some s else none).isSome = b := by
    intro b s
    cases b <;> rfl
  have hnumber : (v.number.map Subtype.val).bind parseU32 = v.value := by
    rw [value]
    cases v.number with
    | none => rfl
    | some n =>
      have hparse : Decimal.parse n.1 = some (Nat.ofDigitChars 10 n.1 0) :=
        if_pos ⟨n.2.1, List.all_eq_true.mpr n.2.2⟩
      show parseU32 n.1 = _
      rw [parseU32, hparse, Option.bind_some]
  have houter := hsome v.outer ['(']
  have hinner := hsome v.inner ['(']
  have hopens : (v.captures.outer.isSome || v.captures.inner.isSome) = (v.outer || v.inner) := by
    rw [captures, houter, hinner]
  rw [Captures.vehicle, vehicle, Vehicle.mk.injEq]
  exact ⟨rfl, rfl, hnumber, hopens, hsome v.closes [')'], hmark .closed, hmark .notServing,
    v.offers_captures⟩

/-- The pattern reads a vehicle back. -/
theorem full_text (d : DigitClass) :
    ∃ c, (tokenRe d).full v.text = some c ∧ ∀ sector, c.vehicle sector = v.vehicle sector := by
  have hsome := isSome_full_tokenRe (v.valid_captures d)
  rw [v.text_captures] at hsome
  obtain ⟨c, hc⟩ := Option.isSome_iff_exists.mp hsome
  obtain ⟨hvalid, htext⟩ := of_full_tokenRe hc
  refine ⟨c, hc, fun sector => ?_⟩
  rw [← v.vehicle_captures]
  exact Captures.vehicle_eq hvalid (v.valid_captures d) (by rw [v.text_captures, htext]) sector

end PlatformVehicle

/-! ### Reading a token -/

theorem isVehicleChar_of_isAlphanum {c : Char} (h : c.isAlphanum = true) :
    isVehicleChar c = true := by
  rw [isVehicleChar, h, Bool.true_or]

theorem eq_of_mem_textIf {b : Bool} {c x : Char} (h : c ∈ textIf b [x]) : c = x := by
  cases b with
  | true => exact List.mem_singleton.mp h
  | false => exact absurd h List.not_mem_nil

theorem isVehicleChar_char (m : Mark) : isVehicleChar m.char = true := by
  cases m <;> decide

theorem isVehicleChar_text (v : PlatformVehicle) : ∀ c ∈ v.text, isVehicleChar c = true := by
  intro c hc
  rw [PlatformVehicle.text] at hc
  simp only [List.mem_append, or_assoc] at hc
  rcases hc with hc | hc | hc | hc | hc | hc | hc
  · rw [eq_of_mem_textIf hc]
    decide
  · obtain ⟨m, -, rfl⟩ := List.mem_map.mp hc
    exact isVehicleChar_char m
  · rw [eq_of_mem_textIf hc]
    decide
  · exact isVehicleChar_of_isAlphanum (List.all_eq_true.mp
      (Captures.isAlphanum_types _ v.kind.text_mem_types).2 c hc)
  · rw [eq_of_mem_textIf hc]
    decide
  · unfold PlatformVehicle.numberText at hc
    split at hc
    · next n _ =>
      rcases List.mem_cons.mp hc with rfl | hc
      · decide
      · exact isVehicleChar_of_isAlphanum (isAlphanum_of_isDigit (n.2.2 c hc))
    · exact absurd hc List.not_mem_nil
  · unfold PlatformVehicle.offersText at hc
    split_ifs at hc
    · exact absurd hc List.not_mem_nil
    · rcases List.mem_cons.mp hc with rfl | hc
      · decide
      · rcases mem_intercalate hc with rfl | ⟨l, hl, hmem⟩
        · decide
        · obtain ⟨offer, -, rfl⟩ := List.mem_map.mp hl
          exact isVehicleChar_of_isAlphanum (offer.2.2 c hmem)

theorem text_ne_nil (v : PlatformVehicle) : v.text ≠ [] := by
  have hkind := (Captures.isAlphanum_types _ v.kind.text_mem_types).1
  simp [PlatformVehicle.text, hkind]

theorem at_notMem_text (v : PlatformVehicle) : '@' ∉ v.text := fun h =>
  absurd (isVehicleChar_text v _ h) (by decide)

theorem leading_cons (l : Letter) (rest : List Char) :
    leading ('@' :: l.1 :: rest) = some (l.name, rest) := by
  have htake : ((l.1 :: rest).takeWhile Char.isAlpha).take 1 = [l.1] := by
    rw [List.takeWhile_cons_of_pos l.2]
    rfl
  simp only [leading, htake, List.cons_ne_nil, if_false]
  rfl

theorem leading_eq_none {s : List Char} (h : ∀ c ∈ s.head?, c ≠ '@') : leading s = none := by
  unfold leading
  split
  · exact absurd rfl (h '@' rfl)
  · rfl

theorem trailing_append (l : Letter) {s : List Char} :
    trailing (s ++ ['@', l.1]) = some (l.name, s) := by
  have hl : l.1 ≠ '@' := by
    intro h
    have := l.2
    rw [h] at this
    exact absurd this (by decide)
  have htail : (s ++ ['@', l.1]).rtakeWhile (· ≠ '@') = [l.1] := by
    rw [List.rtakeWhile, List.reverse_append]
    simp [hl]
  have hlength : (s ++ ['@', l.1]).length - (1 + 1) = s.length := by
    rw [List.length_append]
    rfl
  have hall : [l.1].all Char.isAlpha = true := by simp [l.2]
  rw [trailing, if_pos (by simp), htail]
  simp only [hall, List.length_singleton, and_self, if_true]
  rw [hlength, List.take_left]
  rfl

theorem trailing_eq_none {s : List Char} (h : '@' ∉ s) : trailing s = none := if_neg h

theorem push_text (d : DigitClass) (st : Scan) (v : PlatformVehicle) :
    st.push d v.text = { st with vehicles := st.vehicles ++ [v.vehicle st.sector] } := by
  obtain ⟨c, hc, hvehicle⟩ := v.full_text d
  rw [Scan.push, if_neg (text_ne_nil v), hc]
  simp only [hvehicle]

/-- The vehicle of a token is in the sector that was entered last. -/
def PlatformItem.place (i : PlatformItem) (st : Scan) : Scan :=
  match i.vehicle with
  | some v => { st with vehicles := st.vehicles ++ [v.vehicle st.sector] }
  | none => st

/-- The effect of a sector. -/
def enter (l : Option Letter) (st : Scan) : Scan :=
  match l with
  | some l => st.enter l.name
  | none => st

theorem push_vehicleText (d : DigitClass) (st : Scan) (i : PlatformItem) :
    st.push d i.vehicleText = i.place st := by
  unfold PlatformItem.vehicleText PlatformItem.place
  cases i.vehicle with
  | none => rfl
  | some v => exact push_text d st v

/-- What is left of a token after the sector in front of it. -/
theorem rest_vehicleText (d : DigitClass) (i : PlatformItem) (hat : '@' ∉ i.vehicleText)
    (st : Scan) :
    (match trailing (i.vehicleText ++ PlatformItem.sectorText i.trailing) with
      | some (s, token) => (st.push d token).enter s
      | none => st.push d (i.vehicleText ++ PlatformItem.sectorText i.trailing)) =
    enter i.trailing (i.place st) := by
  cases htrailing : i.trailing with
  | some l =>
    rw [PlatformItem.sectorText, trailing_append]
    simp only [push_vehicleText]
    rfl
  | none =>
    rw [PlatformItem.sectorText, List.append_nil, trailing_eq_none hat]
    exact push_vehicleText d st i

theorem isVehicleChar_of_mem_text {i : PlatformItem} {c : Char} (hc : c ∈ i.text) :
    c = '@' ∨ isVehicleChar c = true := by
  have hsector : ∀ {l : Option Letter}, c ∈ PlatformItem.sectorText l →
      c = '@' ∨ isVehicleChar c = true := by
    intro l hc
    cases l with
    | none => exact absurd hc List.not_mem_nil
    | some l =>
      refine (List.mem_cons.mp hc).imp_right fun hc => ?_
      rw [List.mem_singleton.mp hc]
      exact isVehicleChar_of_isAlphanum (isAlphanum_of_isAlpha l.2)
  rcases List.mem_append.mp hc with hc | hc
  · rcases List.mem_append.mp hc with hc | hc
    · exact hsector hc
    · unfold PlatformItem.vehicleText at hc
      split at hc
      · exact .inr (isVehicleChar_text _ c hc)
      · exact absurd hc List.not_mem_nil
  · exact hsector hc

theorem Token.isVehicleChar_of_mem_body {t : Token} {c : Char} (hc : c ∈ t.body) :
    c ∈ "@[]".toList ∨ isVehicleChar c = true := by
  by_cases hbracket : c ≠ '[' ∧ c ≠ ']'
  · have hmem : c ∈ t.item.text := by
      rw [← t.body_eq]
      exact List.mem_filter.mpr ⟨hc, decide_eq_true hbracket⟩
    refine (isVehicleChar_of_mem_text hmem).imp_left ?_
    rintro rfl
    decide
  · rw [not_and_or, not_not, not_not] at hbracket
    left
    rcases hbracket with rfl | rfl <;> decide

theorem Token.isWhitespace_body (t : Token) : ∀ c ∈ t.body, Ojp.isWhitespace c = false := by
  intro c hc
  rcases t.isVehicleChar_of_mem_body hc with h | h
  · have hall := List.all_iff_forall_prop.mp
      (by decide : "@[]".toList.all (Ojp.isWhitespace · = false))
    exact hall c h
  · exact isWhitespace_eq_false h

theorem Token.comma_notMem_text (t : Token) : ',' ∉ t.text := by
  intro h
  rcases List.mem_append.mp h with h | h
  · rcases List.mem_append.mp h with h | h
    · exact absurd (List.eq_of_mem_replicate h) (by decide)
    · rcases t.isVehicleChar_of_mem_body h with h | h
      · exact absurd h (by decide)
      · exact absurd h (by decide)
  · exact absurd (List.eq_of_mem_replicate h) (by decide)

/-- A token is read as what it says. -/
theorem token_text (d : DigitClass) (st : Scan) (t : Token) :
    st.token d t.text = enter t.item.trailing (t.item.place (enter t.item.leading st)) := by
  have hfilter : (trim t.text).filter (fun c => c ≠ '[' ∧ c ≠ ']') = t.item.text := by
    rw [Token.text, trim_pad t.isWhitespace_body, t.body_eq]
  rw [Scan.token, hfilter]
  have hat : '@' ∉ t.item.vehicleText := by
    unfold PlatformItem.vehicleText
    split
    · exact at_notMem_text _
    · exact List.not_mem_nil
  have hrest := rest_vehicleText d t.item hat
  cases hleading : t.item.leading with
  | some l =>
    have htext : t.item.text = '@' :: l.1 ::
        (t.item.vehicleText ++ PlatformItem.sectorText t.item.trailing) := by
      rw [PlatformItem.text, hleading]
      rfl
    rw [htext, leading_cons]
    exact hrest (st.enter l.name)
  | none =>
    have htext : t.item.text = t.item.vehicleText ++ PlatformItem.sectorText t.item.trailing := by
      rw [PlatformItem.text, hleading]
      rfl
    rw [htext]
    by_cases hvehicle : t.item.vehicleText = []
    · cases htrailing : t.item.trailing with
      | some l =>
        -- a sector alone is read as a leading one
        have hplace : t.item.place st = st := by
          rw [← push_vehicleText d, hvehicle]
          rfl
        rw [hvehicle, List.nil_append, PlatformItem.sectorText, leading_cons]
        show (match trailing [] with
          | some (s, token) => ((st.enter l.name).push d token).enter s
          | none => (st.enter l.name).push d []) = (t.item.place st).enter l.name
        rw [trailing_eq_none List.not_mem_nil, hplace]
        rfl
      | none =>
        rw [htrailing] at hrest
        rw [PlatformItem.sectorText, List.append_nil, leading_eq_none]
        · have hst := hrest st
          rw [PlatformItem.sectorText, List.append_nil] at hst
          exact hst
        · rw [hvehicle]
          exact fun c hc => absurd hc (Option.not_mem_none c)
    · rw [leading_eq_none]
      · exact hrest st
      · intro c hc heq
        rw [List.head?_append_of_ne_nil _ hvehicle] at hc
        rw [heq] at hc
        exact hat (List.mem_of_mem_head? hc)

/-! ### Reading a string -/

/-- What a token says, added to what has been read. -/
def PlatformItem.advance (st : Scan) (i : PlatformItem) : Scan :=
  enter i.trailing (i.place (enter i.leading st))

theorem scan_render (d : DigitClass) (ts : List Token) :
    scan d (Token.render ts) = (ts.map Token.item).foldl PlatformItem.advance ⟨[], [], []⟩ := by
  by_cases hne : ts = []
  · rw [hne]
    rfl
  · have hcomma : ∀ l ∈ ts.map Token.text, ',' ∉ l := by
      intro l hl
      obtain ⟨t, -, rfl⟩ := List.mem_map.mp hl
      exact t.comma_notMem_text
    rw [scan, Token.render,
      List.splitOn_intercalate _ hcomma (by rwa [ne_eq, List.map_eq_nil_iff]), List.foldl_map,
      List.foldl_map]
    congr 1
    funext st t
    exact token_text d st t

/-- What has been read after some sectors were entered. -/
def Scan.after (entered : List (List Char)) (vehicles : List Vehicle) : Scan :=
  ⟨entered.eraseDups, entered.getLast?.getD [], vehicles⟩

theorem eraseDups_concat {α : Type*} [BEq α] [LawfulBEq α] (l : List α) (a : α) :
    (l ++ [a]).eraseDups = if a ∈ l.eraseDups then l.eraseDups else l.eraseDups ++ [a] := by
  rw [List.eraseDups_append]
  split_ifs with h
  · rw [List.mem_eraseDups] at h
    simp [List.removeAll, h]
  · rw [List.mem_eraseDups] at h
    simp [List.removeAll, h, List.eraseDups_cons]

theorem enter_after (l : Option Letter) (entered : List (List Char)) (vehicles : List Vehicle) :
    enter l (Scan.after entered vehicles) =
      Scan.after (entered ++ l.toList.map Letter.name) vehicles := by
  cases l with
  | none =>
    rw [Option.toList_none, List.map_nil, List.append_nil]
    rfl
  | some l =>
    rw [Option.toList_some, List.map_singleton, Scan.after, Scan.after, eraseDups_concat,
      List.getLast?_concat]
    rfl

theorem placed_concat (items : List PlatformItem) (i : PlatformItem) :
    placed (items ++ [i]) =
      placed items ++ (i.vehicle.map fun v => (v, sectorOf items i)).toList := by
  have htake : ∀ e ∈ items.zipIdx, (items ++ [i]).take e.2 = items.take e.2 := by
    intro e he
    have hlt := List.snd_lt_of_mem_zipIdx he
    exact List.take_append_of_le_length (by omega)
  have hlast : (items ++ [i]).take items.length = items := List.take_left
  rw [placed, List.zipIdx_append, List.filterMap_append]
  congr 1
  · exact List.filterMap_congr fun e he => by rw [htake e he]
  · rw [List.zipIdx_singleton, Nat.zero_add, List.filterMap_cons, List.filterMap_nil, hlast]
    cases i.vehicle <;> rfl

theorem place_after (i : PlatformItem) (entered : List (List Char)) (vehicles : List Vehicle) :
    i.place (Scan.after entered vehicles) = Scan.after entered (vehicles ++
      (i.vehicle.map fun v => v.vehicle (entered.getLast?.getD [])).toList) := by
  unfold PlatformItem.place
  cases i.vehicle with
  | none =>
    rw [Option.map_none, Option.toList_none, List.append_nil]
  | some v => rfl

/-- What has been read after some tokens. -/
theorem foldl_advance (items : List PlatformItem) :
    items.foldl PlatformItem.advance ⟨[], [], []⟩ =
      Scan.after (items.flatMap PlatformItem.entered)
        ((placed items).map fun p => p.1.vehicle p.2) := by
  induction items using List.reverseRecOn with
  | nil => rfl
  | append_singleton items i ih =>
    rw [List.foldl_append, ih, List.foldl_cons, List.foldl_nil, PlatformItem.advance, enter_after,
      place_after, enter_after, placed_concat, List.map_append, List.flatMap_append,
      List.flatMap_singleton, PlatformItem.entered, List.map_append, List.append_assoc]
    congr 2
    cases i.vehicle <;> rfl

/-! ### Reading the wagons -/

section Kind

variable (kind : Kind)

theorem Kind.isPassenger_eq :
    (!(["LK", "D", "F", "X"].contains (String.ofList kind.text))) = kind.isPassenger := by
  cases kind <;> decide

theorem Kind.contains_restaurant :
    ["WR", "W1", "W2"].contains (String.ofList kind.text) =
      decide (kind ∈ [Kind.wr, Kind.w1, Kind.w2]) := by
  cases kind <;> decide

theorem Kind.contains_first :
    ["1", "W1", "12"].contains (String.ofList kind.text) =
      decide (kind ∈ [Kind.first, Kind.w1, Kind.mixed]) := by
  cases kind <;> decide

theorem Kind.eq_family : decide (String.ofList kind.text = "FA") = decide (kind = .fa) := by
  cases kind <;> decide

theorem Kind.eq_mixed : decide (String.ofList kind.text = "12") = decide (kind = .mixed) := by
  cases kind <;> decide

end Kind

theorem has_vehicle (v : PlatformVehicle) (sector : List Char) (name : String) :
    (v.vehicle sector).has name = v.offered name := by
  rw [Bool.eq_iff_iff, Vehicle.has, List.contains_iff_mem, PlatformVehicle.offered, List.any_eq_true,
    PlatformVehicle.vehicle, List.mem_map]
  simp only [decide_eq_true_eq]

theorem features_vehicle (v : PlatformVehicle) (sector : List Char) :
    (v.vehicle sector).features = v.features := by
  have hkind : (v.vehicle sector).kind = v.kind.text := rfl
  have hnotServing : (v.vehicle sector).notServing = decide (Mark.notServing ∈ v.marks) := rfl
  rw [Vehicle.features, PlatformVehicle.features, hkind, hnotServing, v.kind.contains_restaurant,
    v.kind.eq_family]
  simp only [has_vehicle, Bool.or_eq_true, Bool.and_eq_true, decide_eq_true_eq, Bool.not_eq_true',
    decide_eq_false_iff_not]

theorem wagon_vehicle (v : PlatformVehicle) (sector : List Char) (position : ℕ) :
    (v.vehicle sector).wagon position = v.wagon sector position := by
  have hkind : (v.vehicle sector).kind = v.kind.text := rfl
  rw [Vehicle.wagon, PlatformVehicle.wagon, features_vehicle, hkind, v.kind.contains_first,
    v.kind.eq_mixed, has_vehicle]
  simp only [decide_eq_true_eq]
  rfl

/-- A formation string says what its grammar says. -/
theorem formation_string_decodes (d : DigitClass) (ts : List Token) :
    (parseFormationShortString d (Token.render ts)).1 = sectors (ts.map Token.item) ∧
      (parseFormationShortString d (Token.render ts)).2.map Wagon.alone =
        ((cars (ts.map Token.item)).zipIdx 1).map fun e => e.1.1.wagon e.1.2 e.2 := by
  have hscan := scan_render d ts
  rw [foldl_advance] at hscan
  constructor
  · rw [parseFormationShortString, hscan]
    rfl
  · have hcars : ((placed (ts.map Token.item)).map fun p => p.1.vehicle p.2).filter
        Vehicle.isPassenger = (cars (ts.map Token.item)).map fun p => p.1.vehicle p.2 := by
      rw [List.filter_map, cars]
      refine congrArg _ (List.filter_congr fun p _ => ?_)
      exact p.1.kind.isPassenger_eq
    rw [snd_parseFormationShortString, hscan, map_alone_wagonsOf, Scan.after, hcars,
      List.zipIdx_map, List.map_map]
    exact List.map_congr_left fun e _ => wagon_vehicle e.1.1 e.1.2 e.2

/-- Brackets outside the spaces are not removed before the spaces are. -/
theorem formation_string_brackets_outside :
    ∃ item : PlatformItem, "[ 1 ]".toList.filter (fun c => c ≠ '[' ∧ c ≠ ']' ∧ c ≠ ' ') = item.text ∧
      (cars [item]).length = 1 ∧
      (parseFormationShortString .asciiOnly "[ 1 ]".toList).2 = [] := by
  refine ⟨⟨none, some ⟨false, [], false, .first, false, none, []⟩, none⟩, ?_, ?_, ?_⟩
  · decide +kernel
  · decide +kernel
  · decide +kernel

end Traintime.Formation
