import Traintime.Lib.Js
import Traintime.Lib.PercentEncoding
import Traintime.Monitor
import Traintime.Monitor.Parity

/-!
# The probes of the monitor

`probeHost` of `monitor/src/index.js` with its checks, and what `run` makes of the results of three
hosts. A host may answer each request with any status and any body, which may be JSON or not, or
with an error. The bodies are read with the rules of JavaScript, so a value that is not what it
should be throws in some places and goes unnoticed in others. What is thrown inside a check is a
failure of the host; what is thrown outside ends the run.

## Main definitions

* `Get`, `Host`: what the requests of an attempt bring, and a host.
* `checkHealth`, `checkDepartures`, `checkNearby`, `checkFormation`: the checks.
* `probeHost`, `compareValues`, `runProbes`: one host, the comparison of two, and a run.
* `rowOf`, `Listed`: departures as the servers list them.
* `Finds`, `Tame`: the departures that a host finds, and answers that cannot do harm.

## Main results

* `attempt_departures_eq_inr_iff`: when a departures probe passes.
* `findTrain_ok_iff`, `compareValues_ok_iff`: when nothing is thrown outside the checks.
* `compareValues_listed`: departures as the servers list them are compared by their rows.
* `completes_iff`: when nothing is thrown before the checks.
-/

namespace Traintime.Monitor

open Js (Value)

/-! ### Hosts -/

/-- A response. The body is there if it is JSON. -/
structure Response where
  status : ℕ
  body : Option Value

/-- What comes back for a path, asked with the key or without: a response or an error's message. -/
abbrev Get := String → Bool → Except String Response

/-- What a host answers in the first attempt of a probe and in the second. -/
structure Host where
  first : Get
  second : Get

/-- `STATION`: the station that every host is asked for. -/
def station : String := "8503000"

/-- 30 minutes, by which the first departure may lie in the past. -/
def staleMs : ℤ := 30 * 60 * 1000

/-- 6 hours, by which the first departure may lie ahead, as at night. -/
def nightGapMs : ℤ := 6 * 60 * 60 * 1000

/-! ### Checks -/

/-- `checkHealth`: the failure of the health route, if it is one. Only a body with the status `ok`
passes. -/
def checkHealth (get : Get) : Except String (Option String) := do
  let resp ← get "/health" false
  if resp.status ≠ 200 then pure (some s!"health: HTTP {resp.status}")
  else
    match Js.getOpt resp.body "status" with
    | some (.str "ok") => pure none
    | _ => pure (some "health: body is not \x7b\"status\":\"ok\"\x7d")

/-- A time in milliseconds in minutes. -/
def minutes (ms : Binary64) : String := Js.numberText (Js.round (ms.div (.finite 60000)))

/-- How long after now a departure in seconds is, in milliseconds. -/
def offset (now : ℤ) (seconds : Binary64) : Binary64 :=
  (seconds.mul (.finite 1000)).sub (.ofInt now)

/-- The failure that the offset of the first departure is, if it is one. -/
def offsetFailure (offset : Binary64) : Option String :=
  if offset.lt (.ofInt (-staleMs)) then
    some s!"departures: first departure {minutes offset.neg} min ago"
  else if (Binary64.ofInt nightGapMs).lt offset then
    some s!"departures: first departure {minutes offset} min from now"
  else none

/-- `checkDepartures`: the failure of the board, or its rows, which the parity check and the
formation check go on with. -/
def checkDepartures (get : Get) (now : ℤ) : Except String (String ⊕ List Value) := do
  let resp ← get s!"/v1/departures?id={station}&limit=5" true
  if resp.status ≠ 200 then pure (.inl s!"departures: HTTP {resp.status}")
  else
    match Js.getOpt resp.body "departures" with
    | some (.arr (first :: rest)) =>
      let departure ← Js.get (some first) "departure"
      let seconds ← Js.toNumber departure
      match offsetFailure (offset now seconds) with
      | some failure => pure (.inl failure)
      | none => pure (.inr (first :: rest))
    | _ => pure (.inl "departures: empty")

/-- The first of the stations with the id that is asked for. -/
def findStation : List Value → Except String (Option Value)
  | [] => pure none
  | s :: stations => do
    let id ← Js.get (some s) "id"
    match id with
    | some (.str text) => if text = station then pure (some s) else findStation stations
    | _ => findStation stations

/-- `train?.find?.((s) => s.id === STATION)`, which throws for a `find` that is there and no
function. -/
def findIn : Option Value → Except String (Option Value)
  | some (.arr stations) => findStation stations
  | train =>
    match Js.getOpt train "find" with
    | none => pure none
    | some .null => pure none
    | some _ => throw "body?.train?.find is not a function"

/-- `checkNearby`: the failure of the nearby route, whose answer must have the station with a list
of departures. -/
def checkNearby (get : Get) : Except String (Option String) := do
  let resp ← get "/v1/nearby?lat=47.3779&lon=8.5403&mode=train" true
  if resp.status ≠ 200 then pure (some s!"nearby: HTTP {resp.status}")
  else
    let found ← findIn (Js.getOpt resp.body "train")
    if Js.truthy found then
      match Js.getOpt found "departures" with
      | some (.arr _) => pure none
      | _ => pure (some "nearby: no departures array")
    else pure (some s!"nearby: station {station} missing")

/-- A byte of UTF-8 in a form, where a blank is a plus sign and only few characters stay as they
are. -/
def formByte (b : UInt8) : List Char :=
  let c := Char.ofNat b.toNat
  if b = 0x20 then ['+']
  else if b < 0x80 ∧ (c.isAlphanum ∨ c ∈ ['*', '-', '.', '_']) then [c]
  else ['%', PercentEncoding.hexDigit (b.toNat / 16), PercentEncoding.hexDigit (b.toNat % 16)]

/-- `URLSearchParams`: the parameters as the query of a URL. -/
def formText (params : List (String × String)) : String :=
  "&".intercalate (params.map fun p =>
    p.1 ++ "=" ++ String.ofList ((Utf8.encode p.2).flatMap formByte))

/-- The operator `??`, which takes the second value for `null` and `undefined` only. -/
def orElse (v w : Option Value) : Option Value :=
  match v with
  | none => w
  | some .null => w
  | some v => some v

/-- `checkFormation`: the failure of the formation route for a train of the board. That no formation
is found is none. -/
def checkFormation (localDate : ℤ → String) (get : Get) (train : Value) (now : ℤ) :
    Except String (Option String) := do
  let trainNumber ← Js.get (some train) "trainNumber"
  let operatorRef ← Js.get (some train) "operatorRef"
  let trainText ← Js.toText trainNumber
  let operatorText ← Js.toText (orElse operatorRef (some (.str "")))
  let params := formText [("train", trainText), ("date", localDate now), ("stop", station),
    ("operatorRef", operatorText)]
  let resp ← get s!"/v1/formation?{params}" true
  if resp.status ≠ 200 ∧ resp.status ≠ 404 then pure (some s!"formation: HTTP {resp.status}")
  else if resp.body.isNone then pure (some "formation: body is not JSON")
  else pure none

/-! ### Hosts and runs -/

/-- The failure that a check ends with, thrown or returned, or what it finds. -/
def settled {α : Type} (name : String) : Except String (String ⊕ α) → String ⊕ α
  | .ok result => result
  | .error message => .inl s!"{name}: {message}"

/-- A check that is tried again after a failure. -/
def attempt {α : Type} (host : Host) (name : String)
    (probe : Get → Except String (String ⊕ α)) : String ⊕ α :=
  match settled name (probe host.first) with
  | .inr found => .inr found
  | .inl _ => settled name (probe host.second)

/-- A check that finds nothing but failures. -/
def failures (host : Host) (name : String) (check : Get → Except String (Option String)) :
    List String :=
  match attempt (α := Unit) host name fun get =>
    (check get).map fun failure => match failure with
      | some failure => .inl failure
      | none => .inr () with
  | .inl failure => [failure]
  | .inr _ => []

/-- `departures.find((d) => d.trainNumber)`. The rows are looked at in order, and a `null` before
the train throws. -/
def findTrain : List Value → Except String (Option Value)
  | [] => pure none
  | d :: departures => do
    let trainNumber ← Js.get (some d) "trainNumber"
    if Js.truthy trainNumber then pure (some d) else findTrain departures

/-- What the probe of a host finds: the failures of all its checks, and the rows of its board. -/
structure Probed where
  failures : List String
  departures : List Value

/-- `probeHost`: the four checks of a host, with the formation of the first train that has a number.
-/
def probeHost (localDate : ℤ → String) (host : Host) (now : ℤ) : Except String Probed := do
  let found := attempt host "departures" fun get => checkDepartures get now
  let departures := found.getRight?.getD []
  let train ← findTrain departures
  pure ⟨failures host "health" checkHealth ++ found.getLeft?.toList ++
      failures host "nearby" checkNearby ++
      (match train with
        | some train => failures host "formation" fun get => checkFormation localDate get train now
        | none => []),
    departures⟩

/-- The template string of a row, which throws for a value that cannot be converted. -/
def keyText (d : Value) : Except String String := do
  let number ← Js.get (some d) "number"
  let numberText ← Js.toText number
  let trainNumber ← Js.get (some d) "trainNumber"
  let trainText ← Js.toText trainNumber
  let departure ← Js.get (some d) "departure"
  let departureText ← Js.toText departure
  pure (numberText ++ " " ++ trainText ++ " @" ++ departureText)

/-- `inWindow` for rows as they come. What is no number is compared as JavaScript compares it. -/
def insideWindow (start stop : Binary64) (d : Value) : Except String Bool := do
  let departure ← Js.get (some d) "departure"
  let seconds ← Js.toNumber departure
  pure (start.le seconds && seconds.le stop)

/-- The rows inside the window, each of which is looked at. -/
def insideRows (start stop : Binary64) : List Value → Except String (List Value)
  | [] => pure []
  | d :: rows => do
    let inside ← insideWindow start stop d
    let rest ← insideRows start stop rows
    pure (if inside then d :: rest else rest)

/-- The keys of the rows inside the window, in the order of a set. -/
def keyTexts (start stop : Binary64) (rows : List Value) : Except String (List String) := do
  let inside ← insideRows start stop rows
  let keys ← inside.mapM keyText
  pure keys.eraseDups

/-- `compareParity` for rows as they come from two hosts, with everything in it that can throw. -/
def compareValues (a b : List Value) : Except String (Option String) :=
  let rowsA := a.take 5
  let rowsB := b.take 5
  match rowsA.head?, rowsB.head?, rowsA.getLast?, rowsB.getLast? with
  | some firstA, some firstB, some lastA, some lastB => do
    let departureA ← Js.get (some firstA) "departure"
    let departureB ← Js.get (some firstB) "departure"
    let startA ← Js.toNumber departureA
    let startB ← Js.toNumber departureB
    let departureA ← Js.get (some lastA) "departure"
    let departureB ← Js.get (some lastB) "departure"
    let stopA ← Js.toNumber departureA
    let stopB ← Js.toNumber departureB
    let keysA ← keyTexts (Js.max startA startB) (Js.min stopA stopB) rowsA
    let keysB ← keyTexts (Js.max startA startB) (Js.min stopA stopB) rowsB
    pure (difference keysA keysB)
  | _, _, _, _ => pure none

/-- The departures of a host in the results. -/
def departuresAt (results : List Probed) (i : ℕ) : List Value :=
  (results[i]?.map Probed.departures).getD []

/-- What the checks of a run come to. -/
def roundOf (results : List Probed) (parity : Option String) (now : ℤ) (delivers : String → Bool) :
    Round where
  now := now
  ok key :=
    match (hosts.zip results).lookup key with
    | some probed => probed.failures.isEmpty
    | none => parity.isNone
  delivers := delivers

/-- `run`: what is stored afterwards, unless something is thrown before the checks. -/
def runProbes (cal : Calendar String) (store : AssocMap String (State String))
    (answers : String → Host) (now : ℤ) (delivers : String → Bool) :
    Except String (AssocMap String (State String)) := do
  let results ← hosts.mapM fun host => probeHost cal.localDate (answers host) now
  let parity ← compareValues (departuresAt results 0) (departuresAt results 1)
  pure (run cal store (roundOf results parity now delivers))

/-! ### Bad answers -/

/-- A number of seconds between 30 minutes before now and 6 hours after now. -/
def InRange (now : ℤ) (seconds : Binary64) : Prop :=
  (Binary64.ofInt (-staleMs)).le (offset now seconds) = true ∧
    (offset now seconds).le (.ofInt nightGapMs) = true

/-- An answer to the request for departures with rows, the first of which is not seen to leave too
early or too late. -/
def Lists (now : ℤ) (answer : Except String Response) (rows : List Value) : Prop :=
  ∃ resp first rest departure, answer = .ok resp ∧ resp.status = 200 ∧
    Js.getOpt resp.body "departures" = some (.arr rows) ∧ rows = first :: rest ∧
    Js.get (some first) "departure" = .ok departure ∧ Js.convertible departure = true ∧
    offsetFailure (offset now (Js.number departure)) = none

/-- The path of the request for departures, which both attempts of a host are asked for. -/
def departuresPath : String := "/v1/departures?id=8503000&limit=5"

/-- The rows are those of the first answer that lists some, of the two of a host. -/
def Finds (now : ℤ) (host : Host) (rows : List Value) : Prop :=
  Lists now (host.first departuresPath true) rows ∨
    (∀ rows', ¬ Lists now (host.first departuresPath true) rows') ∧
      Lists now (host.second departuresPath true) rows

/-- The number that a row's departure is taken for. -/
def seconds (d : Value) : Binary64 := Js.number (Js.getOpt (some d) "departure")

/-- The row leaves inside the window of both lists. -/
def Inside (rowsA rowsB : List Value) (d : Value) : Prop :=
  ∃ firstA ∈ (rowsA.take 5).head?, ∃ firstB ∈ (rowsB.take 5).head?,
    ∃ lastA ∈ (rowsA.take 5).getLast?, ∃ lastB ∈ (rowsB.take 5).getLast?,
      (Js.max (seconds firstA) (seconds firstB)).le (seconds d) = true ∧
        (seconds d).le (Js.min (seconds lastA) (seconds lastB)) = true

/-- A row that has properties and whose departure can be converted. -/
def Timed (d : Value) : Prop :=
  ∃ v, Js.get (some d) "departure" = .ok v ∧ Js.convertible v = true

/-- A row that can be compared: if it leaves inside the window, then its number and its train number
can be converted as well. -/
structure Comparable (rowsA rowsB : List Value) (d : Value) : Prop where
  timed : Timed d
  texts : Inside rowsA rowsB d → Js.convertible (Js.getOpt (some d) "number") = true ∧
    Js.convertible (Js.getOpt (some d) "trainNumber") = true

/-- The row of a list that a value is. The delay is not compared. -/
def rowOf (d : Value) : Row where
  number := Js.text (Js.getOpt (some d) "number")
  trainNumber := (Js.getOpt (some d) "trainNumber").map Value.text
  departure :=
    match Js.getOpt (some d) "departure" with
    | some (.num (.finite q _)) => ⌊q⌋
    | _ => 0
  delay := none

/-- A departure as the servers list it: whole seconds, and texts that can be read. -/
structure Listed (d : Value) : Prop where
  number : Js.convertible (Js.getOpt (some d) "number") = true
  trainNumber : Js.convertible (Js.getOpt (some d) "trainNumber") = true
  departure : ∃ (n : ℤ) (h : Numeral.IsDouble n),
    Js.getOpt (some d) "departure" = some (.num (.finite n h)) ∧ |n| ≤ 2 ^ 52

/-- The departures that are found are what they should be, as far as it matters. -/
structure Tame (answers : String → Host) (now : ℤ) : Prop where
  /-- The first row of a host has a number. -/
  number : ∀ host ∈ hosts, ∀ rows, Finds now (answers host) rows →
    ∃ first ∈ rows.head?, ∃ x, Js.getOpt (some first) "departure" = some (.num x)
  /-- No `null` comes before the first row with a train number. -/
  trains : ∀ host ∈ hosts, ∀ rows, Finds now (answers host) rows →
    ∀ before after, rows = before ++ .null :: after →
      ∃ d ∈ before, Js.truthy (Js.getOpt (some d) "trainNumber") = true
  /-- The rows that are compared can be. -/
  comparable : ∀ rowsA rowsB, Finds now (answers "api.traintime.ch") rowsA →
    Finds now (answers "api1.traintime.ch") rowsB →
    ∀ d ∈ rowsA.take 5 ++ rowsB.take 5, Comparable rowsA rowsB d

/-! ### What is found -/

section Found

variable {now : ℤ} {get : Get} {host : Host} {rows : List Value}

theorem checkDepartures_eq_inr_iff :
    checkDepartures get now = .ok (.inr rows) ↔ Lists now (get departuresPath true) rows := by
  have hpath : (s!"/v1/departures?id={station}&limit=5" : String) = departuresPath := by decide
  rw [checkDepartures, hpath, Js.bind_eq_ok_iff]
  constructor
  · rintro ⟨resp, hresp, h⟩
    by_cases hstatus : resp.status ≠ 200
    · rw [if_pos hstatus] at h
      cases h
    · rw [if_neg hstatus] at h
      split at h
      · next first rest hbody =>
        obtain ⟨departure, hget, h⟩ := Js.bind_eq_ok_iff.1 h
        obtain ⟨x, hx, h⟩ := Js.bind_eq_ok_iff.1 h
        obtain ⟨hconv, rfl⟩ := Js.toNumber_eq_ok_iff.1 hx
        split at h
        · cases h
        · next hoffset =>
          obtain rfl := Sum.inr.inj (Except.ok.inj h)
          exact ⟨resp, first, rest, departure, hresp, not_not.1 hstatus, hbody, rfl, hget, hconv,
            hoffset⟩
      · cases h
  · rintro ⟨resp, first, rest, departure, hresp, hstatus, hbody, rfl, hget, hconv, hoffset⟩
    refine ⟨resp, hresp, ?_⟩
    rw [if_neg (not_not.2 hstatus), hbody]
    refine Js.bind_eq_ok_iff.2 ⟨departure, hget, ?_⟩
    refine Js.bind_eq_ok_iff.2 ⟨_, Js.toNumber_eq_ok_iff.2 ⟨hconv, rfl⟩, ?_⟩
    rw [hoffset]
    rfl

theorem settled_eq_inr_iff {α : Type} {name : String} {x : Except String (String ⊕ α)} {a : α} :
    settled name x = .inr a ↔ x = .ok (.inr a) := by
  cases x <;> simp [settled]

/-- The departures probe passes with the rows that are found. -/
theorem attempt_departures_eq_inr_iff :
    attempt host "departures" (fun get => checkDepartures get now) = .inr rows ↔
      Finds now host rows := by
  have hlists : ∀ get rows, settled "departures" (checkDepartures get now) = .inr rows ↔
      Lists now (get departuresPath true) rows := fun get rows =>
    settled_eq_inr_iff.trans checkDepartures_eq_inr_iff
  rw [attempt, Finds]
  simp only [← hlists]
  cases settled "departures" (checkDepartures host.first now) with
  | inl failure => simp
  | inr found => simp

/-- The rows of a host, of which there are none if it finds none. -/
theorem departures_cases (now : ℤ) (host : Host) :
    (∃ rows, Finds now host rows ∧
        attempt host "departures" (fun get => checkDepartures get now) = .inr rows) ∨
      (∀ rows, ¬ Finds now host rows) ∧ ∃ failure,
        attempt host "departures" (fun get => checkDepartures get now) = .inl failure := by
  cases h : attempt host "departures" fun get => checkDepartures get now with
  | inl failure =>
    refine .inr ⟨fun rows hrows => ?_, failure, rfl⟩
    rw [attempt_departures_eq_inr_iff.2 hrows] at h
    cases h
  | inr rows => exact .inl ⟨rows, attempt_departures_eq_inr_iff.1 h, rfl⟩

end Found

/-! ### What is thrown -/

section Thrown

variable {now : ℤ} {localDate : ℤ → String} {host : Host} {rows rowsA rowsB : List Value}
  {d : Value}

theorem get_of_getOpt (h : d ≠ .null) (name : String) :
    Js.get (some d) name = .ok (Js.getOpt (some d) name) :=
  Js.get_eq_ok_iff.2 ⟨⟨Option.some_ne_none d, fun hd => h (Option.some.inj hd)⟩, rfl⟩

/-- The search for a train throws at a `null` that it comes to. -/
theorem findTrain_ok_iff : (∃ train, findTrain rows = .ok train) ↔
    ∀ before after, rows = before ++ .null :: after →
      ∃ d ∈ before, Js.truthy (Js.getOpt (some d) "trainNumber") = true := by
  induction rows with
  | nil => simp [findTrain, pure, Except.pure]
  | cons d rows ih =>
    by_cases hd : d = .null
    · subst hd
      refine iff_of_false ?_ fun h => ?_
      · rintro ⟨train, htrain⟩
        obtain ⟨_, hget, -⟩ := Js.bind_eq_ok_iff.1 htrain
        cases hget
      · obtain ⟨d, hd, -⟩ := h [] rows rfl
        cases hd
    have hstep : findTrain (d :: rows) =
        if Js.truthy (Js.getOpt (some d) "trainNumber") then .ok (some d) else findTrain rows := by
      rw [findTrain, get_of_getOpt hd]
      rfl
    rw [hstep]
    by_cases htrain : Js.truthy (Js.getOpt (some d) "trainNumber") = true
    · rw [if_pos htrain]
      refine iff_of_true ⟨_, rfl⟩ fun before after h => ?_
      cases before with
      | nil => exact absurd (List.cons.inj h).1 hd
      | cons e before => exact ⟨d, by simp [(List.cons.inj h).1], htrain⟩
    · rw [if_neg htrain, ih]
      constructor
      · intro h before after hrows
        cases before with
        | nil => exact absurd (List.cons.inj hrows).1 hd
        | cons e before =>
          obtain ⟨x, hx, hx'⟩ := h before after (List.cons.inj hrows).2
          exact ⟨x, List.mem_cons_of_mem e hx, hx'⟩
      · rintro h before after rfl
        obtain ⟨x, hx, hx'⟩ := h (d :: before) after rfl
        rcases List.mem_cons.1 hx with rfl | hx
        · exact absurd hx' htrain
        · exact ⟨x, hx, hx'⟩

/-! ### The comparison -/

theorem toNumber_departure {x : Binary64} :
    (∃ v, Js.get (some d) "departure" = .ok v ∧ Js.toNumber v = .ok x) ↔
      Timed d ∧ seconds d = x := by
  simp only [Js.toNumber_eq_ok_iff, Timed, seconds]
  constructor
  · rintro ⟨v, hget, hconv, rfl⟩
    rw [(Js.get_eq_ok_iff.1 hget).2]
    exact ⟨⟨v, hget, hconv⟩, rfl⟩
  · rintro ⟨⟨v, hget, hconv⟩, rfl⟩
    rw [(Js.get_eq_ok_iff.1 hget).2]
    exact ⟨v, hget, hconv, rfl⟩

theorem insideWindow_eq_ok_iff {start stop : Binary64} {b : Bool} :
    insideWindow start stop d = .ok b ↔
      Timed d ∧ (start.le (seconds d) && (seconds d).le stop) = b := by
  simp only [insideWindow, Js.bind_eq_ok_iff]
  constructor
  · rintro ⟨v, hget, x, hx, hb⟩
    obtain ⟨htimed, rfl⟩ := toNumber_departure.1 ⟨v, hget, hx⟩
    exact ⟨htimed, Except.ok.inj hb⟩
  · rintro ⟨htimed, hb⟩
    obtain ⟨v, hget, hx⟩ := toNumber_departure.2 ⟨htimed, rfl⟩
    exact ⟨v, hget, _, hx, congrArg Except.ok hb⟩

theorem insideRows_eq_ok_iff {start stop : Binary64} {inside : List Value} :
    insideRows start stop rows = .ok inside ↔ (∀ d ∈ rows, Timed d) ∧
      rows.filter (fun d => start.le (seconds d) && (seconds d).le stop) = inside := by
  induction rows generalizing inside with
  | nil => simp [insideRows, pure, Except.pure]
  | cons d rows ih =>
    simp only [insideRows, Js.bind_eq_ok_iff, insideWindow_eq_ok_iff, ih, List.forall_mem_cons,
      List.filter_cons]
    constructor
    · rintro ⟨_, ⟨hd, rfl⟩, _, ⟨hrows, rfl⟩, h⟩
      exact ⟨⟨hd, hrows⟩, Except.ok.inj h⟩
    · rintro ⟨⟨hd, hrows⟩, h⟩
      exact ⟨_, ⟨hd, rfl⟩, _, ⟨hrows, rfl⟩, congrArg Except.ok h⟩

theorem keyText_ok_iff (hd : Timed d) : (∃ k, keyText d = .ok k) ↔
    Js.convertible (Js.getOpt (some d) "number") = true ∧
      Js.convertible (Js.getOpt (some d) "trainNumber") = true := by
  obtain ⟨v, hget, hconv⟩ := hd
  obtain ⟨hproperties, rfl⟩ := Js.get_eq_ok_iff.1 hget
  simp only [keyText, Js.bind_eq_ok_iff, Js.get_eq_ok_iff, Js.toText_eq_ok_iff]
  constructor
  · rintro ⟨_, _, ⟨-, rfl⟩, _, ⟨hnumber, -⟩, _, ⟨-, rfl⟩, _, ⟨htrain, -⟩, -⟩
    exact ⟨hnumber, htrain⟩
  · rintro ⟨hnumber, htrain⟩
    exact ⟨_, _, ⟨hproperties, rfl⟩, _, ⟨hnumber, rfl⟩, _, ⟨hproperties, rfl⟩, _, ⟨htrain, rfl⟩, _,
      ⟨hproperties, rfl⟩, _, ⟨hconv, rfl⟩, rfl⟩

theorem keyTexts_ok_iff {start stop : Binary64} :
    (∃ keys, keyTexts start stop rows = .ok keys) ↔ ∀ d ∈ rows, Timed d ∧
      (start.le (seconds d) = true ∧ (seconds d).le stop = true →
        Js.convertible (Js.getOpt (some d) "number") = true ∧
          Js.convertible (Js.getOpt (some d) "trainNumber") = true) := by
  have hkeys : (∃ keys, keyTexts start stop rows = .ok keys) ↔
      ∃ inside, insideRows start stop rows = .ok inside ∧
        ∃ keys, inside.mapM keyText = .ok keys := by
    simp only [keyTexts, Js.bind_eq_ok_iff]
    constructor
    · rintro ⟨_, inside, hinside, keys, hkeys, -⟩
      exact ⟨inside, hinside, keys, hkeys⟩
    · rintro ⟨inside, hinside, keys, hkeys⟩
      exact ⟨_, inside, hinside, keys, hkeys, rfl⟩
  simp only [hkeys, insideRows_eq_ok_iff, Js.mapM_ok_iff]
  constructor
  · rintro ⟨_, ⟨htimed, rfl⟩, htexts⟩ d hd
    refine ⟨htimed d hd, fun hinside => (keyText_ok_iff (htimed d hd)).1 (htexts d ?_)⟩
    simpa [hd] using hinside
  · intro h
    refine ⟨_, ⟨fun d hd => (h d hd).1, rfl⟩, fun d hd => ?_⟩
    obtain ⟨hd, hinside⟩ := List.mem_filter.1 hd
    exact (keyText_ok_iff (h d hd).1).2 ((h d hd).2 (by simpa using hinside))

/-- The ends of the lists that are compared give the window. -/
theorem inside_iff {firstA firstB lastA lastB : Value} (hfa : (rowsA.take 5).head? = some firstA)
    (hfb : (rowsB.take 5).head? = some firstB) (hla : (rowsA.take 5).getLast? = some lastA)
    (hlb : (rowsB.take 5).getLast? = some lastB) :
    Inside rowsA rowsB d ↔
      (Js.max (seconds firstA) (seconds firstB)).le (seconds d) = true ∧
        (seconds d).le (Js.min (seconds lastA) (seconds lastB)) = true := by
  simp [Inside, hfa, hfb, hla, hlb]

theorem compareValues_ok_iff_of_ends {firstA firstB lastA lastB : Value}
    (hfa : (rowsA.take 5).head? = some firstA) (hfb : (rowsB.take 5).head? = some firstB)
    (hla : (rowsA.take 5).getLast? = some lastA) (hlb : (rowsB.take 5).getLast? = some lastB) :
    (∃ parity, compareValues rowsA rowsB = .ok parity) ↔
      ∀ d ∈ rowsA.take 5 ++ rowsB.take 5, Comparable rowsA rowsB d := by
  let start := Js.max (seconds firstA) (seconds firstB)
  let stop := Js.min (seconds lastA) (seconds lastB)
  have hkeys : ∀ rows : List Value, (∃ keys, keyTexts start stop rows = .ok keys) ↔
      ∀ d ∈ rows, Comparable rowsA rowsB d := by
    intro rows
    rw [keyTexts_ok_iff]
    refine forall₂_congr fun d _ => ?_
    rw [← inside_iff hfa hfb hla hlb]
    exact ⟨fun h => ⟨h.1, h.2⟩, fun h => ⟨h.timed, h.texts⟩⟩
  have hall : (∃ parity, compareValues rowsA rowsB = .ok parity) ↔
      (Timed firstA ∧ Timed firstB ∧ Timed lastA ∧ Timed lastB) ∧
        (∃ keysA, keyTexts start stop (rowsA.take 5) = .ok keysA) ∧
          ∃ keysB, keyTexts start stop (rowsB.take 5) = .ok keysB := by
    simp only [compareValues, hfa, hfb, hla, hlb, Js.bind_eq_ok_iff]
    constructor
    · rintro ⟨_, a, ha, b, hb, x, hx, y, hy, c, hc, d, hd, z, hz, w, hw, keysA, hA, keysB, hB, -⟩
      obtain ⟨hfirstA, rfl⟩ := toNumber_departure.1 ⟨a, ha, hx⟩
      obtain ⟨hfirstB, rfl⟩ := toNumber_departure.1 ⟨b, hb, hy⟩
      obtain ⟨hlastA, rfl⟩ := toNumber_departure.1 ⟨c, hc, hz⟩
      obtain ⟨hlastB, rfl⟩ := toNumber_departure.1 ⟨d, hd, hw⟩
      exact ⟨⟨hfirstA, hfirstB, hlastA, hlastB⟩, ⟨keysA, hA⟩, keysB, hB⟩
    · rintro ⟨⟨hfirstA, hfirstB, hlastA, hlastB⟩, ⟨keysA, hA⟩, keysB, hB⟩
      obtain ⟨a, ha, hx⟩ := toNumber_departure.2 ⟨hfirstA, rfl⟩
      obtain ⟨b, hb, hy⟩ := toNumber_departure.2 ⟨hfirstB, rfl⟩
      obtain ⟨c, hc, hz⟩ := toNumber_departure.2 ⟨hlastA, rfl⟩
      obtain ⟨d, hd, hw⟩ := toNumber_departure.2 ⟨hlastB, rfl⟩
      exact ⟨_, a, ha, b, hb, _, hx, _, hy, c, hc, d, hd, _, hz, _, hw, keysA, hA, keysB, hB, rfl⟩
  rw [hall, hkeys, hkeys, ← List.forall_mem_append]
  refine and_iff_right_of_imp fun h => ⟨?_, ?_, ?_, ?_⟩
  · exact (h _ (List.mem_append_left _ (List.mem_of_head? hfa))).timed
  · exact (h _ (List.mem_append_right _ (List.mem_of_head? hfb))).timed
  · exact (h _ (List.mem_append_left _ (List.mem_of_getLast? hla))).timed
  · exact (h _ (List.mem_append_right _ (List.mem_of_getLast? hlb))).timed

/-- Nothing is compared if a host lists nothing. -/
theorem compareValues_of_nil (h : rowsA = [] ∨ rowsB = []) :
    compareValues rowsA rowsB = .ok none := by
  rcases h with rfl | rfl
  · rfl
  · simp only [compareValues, List.take_nil, List.head?_nil]
    cases (rowsA.take 5).head? <;> rfl

/-- The comparison throws at a row that cannot be compared. -/
theorem compareValues_ok_iff : (∃ parity, compareValues rowsA rowsB = .ok parity) ↔
    (rowsA ≠ [] → rowsB ≠ [] → ∀ d ∈ rowsA.take 5 ++ rowsB.take 5, Comparable rowsA rowsB d) := by
  by_cases hA : rowsA = []
  · exact iff_of_true ⟨none, compareValues_of_nil (.inl hA)⟩ fun h => absurd hA h
  by_cases hB : rowsB = []
  · exact iff_of_true ⟨none, compareValues_of_nil (.inr hB)⟩ fun _ h => absurd hB h
  have hne : ∀ {rows : List Value}, rows ≠ [] → rows.take 5 ≠ [] := by simp
  rw [compareValues_ok_iff_of_ends (List.head?_eq_some_head (hne hA))
    (List.head?_eq_some_head (hne hB)) (List.getLast?_eq_some_getLast (hne hA))
    (List.getLast?_eq_some_getLast (hne hB))]
  exact ⟨fun h _ _ => h, fun h => h hA hB⟩

/-! ### Rows as they are listed -/

section Rows

variable {start stop : ℤ}

theorem Listed.ne_null (h : Listed d) : d ≠ .null := by
  obtain ⟨n, hn, hget, -⟩ := h.departure
  rintro rfl
  cases hget

theorem Listed.timed (h : Listed d) : Timed d := by
  obtain ⟨n, hn, hget, -⟩ := h.departure
  exact ⟨_, (get_of_getOpt h.ne_null "departure").trans (congrArg Except.ok hget), rfl⟩

theorem Listed.seconds_eq (h : Listed d) : seconds d = .ofInt (rowOf d).departure := by
  obtain ⟨n, hn, hget, -⟩ := h.departure
  simp only [seconds, rowOf, hget, Int.floor_intCast]
  rfl

theorem Listed.keyText_eq (h : Listed d) : keyText d = .ok (key (rowOf d)) := by
  obtain ⟨n, hn, hget, hle⟩ := h.departure
  have htrain : Js.text (Js.getOpt (some d) "trainNumber") =
      (rowOf d).trainNumber.getD "undefined" := by
    rw [rowOf]
    cases Js.getOpt (some d) "trainNumber" <;> rfl
  have hdeparture : Js.text (Js.getOpt (some d) "departure") = toString (rowOf d).departure := by
    simp only [rowOf, hget, Int.floor_intCast]
    exact Js.numberText_intCast hle
  simp only [keyText, Js.bind_eq_ok_iff, Js.get_eq_ok_iff, Js.toText_eq_ok_iff]
  have hproperties : Js.HasProperties (some d) :=
    (Js.get_eq_ok_iff.1 (get_of_getOpt h.ne_null "departure")).1
  refine ⟨_, ⟨hproperties, rfl⟩, _, ⟨h.number, rfl⟩, _, ⟨hproperties, rfl⟩, _,
    ⟨h.trainNumber, htrain⟩, _, ⟨hproperties, rfl⟩, _, ⟨?_, hdeparture⟩, rfl⟩
  rw [hget]
  rfl

theorem insideRows_listed (h : ∀ d ∈ rows, Listed d) :
    insideRows (.ofInt start) (.ofInt stop) rows =
      .ok (rows.filter fun d => inWindow start stop (rowOf d)) := by
  refine insideRows_eq_ok_iff.2 ⟨fun d hd => (h d hd).timed, List.filter_congr fun d hd => ?_⟩
  rw [(h d hd).seconds_eq, inWindow]
  simp [Binary64.le, Binary64.ofInt]

theorem mapM_keyText_listed (h : ∀ d ∈ rows, Listed d) :
    rows.mapM keyText = .ok (rows.map fun d => key (rowOf d)) := by
  induction rows with
  | nil => rfl
  | cons d rows ih =>
    obtain ⟨hd, hrows⟩ := List.forall_mem_cons.1 h
    rw [List.mapM_cons, hd.keyText_eq, ih hrows]
    rfl

theorem keyTexts_listed (h : ∀ d ∈ rows, Listed d) :
    keyTexts (.ofInt start) (.ofInt stop) rows = .ok (keysIn start stop (rows.map rowOf)) := by
  have hinside : ∀ d ∈ rows.filter fun d => inWindow start stop (rowOf d), Listed d :=
    fun d hd => h d (List.mem_filter.1 hd).1
  rw [keyTexts, insideRows_listed h]
  simp only [bind, Except.bind]
  rw [mapM_keyText_listed hinside, keysIn, List.filter_map, List.map_map]
  rfl

/-- For departures as the servers list them nothing is thrown, and their rows are compared. -/
theorem compareValues_listed (hA : ∀ d ∈ rowsA, Listed d) (hB : ∀ d ∈ rowsB, Listed d) :
    compareValues rowsA rowsB = .ok (compareParity (rowsA.map rowOf) (rowsB.map rowOf)) := by
  have hA' : ∀ d ∈ rowsA.take 5, Listed d := fun d hd => hA d (List.mem_of_mem_take hd)
  have hB' : ∀ d ∈ rowsB.take 5, Listed d := fun d hd => hB d (List.mem_of_mem_take hd)
  simp only [compareParity, ← List.map_take, List.head?_map, List.getLast?_map]
  cases hfa : (rowsA.take 5).head? with
  | none => simp only [compareValues, hfa]; rfl
  | some firstA =>
    cases hfb : (rowsB.take 5).head? with
    | none => simp only [compareValues, hfa, hfb]; rfl
    | some firstB =>
      have hfirstA := hA' _ (List.mem_of_head? hfa)
      have hfirstB := hB' _ (List.mem_of_head? hfb)
      obtain ⟨lastA, hla⟩ : ∃ lastA, (rowsA.take 5).getLast? = some lastA :=
        ⟨_, List.getLast?_eq_some_getLast (List.ne_nil_of_mem (List.mem_of_head? hfa))⟩
      obtain ⟨lastB, hlb⟩ : ∃ lastB, (rowsB.take 5).getLast? = some lastB :=
        ⟨_, List.getLast?_eq_some_getLast (List.ne_nil_of_mem (List.mem_of_head? hfb))⟩
      have hlastA := hA' _ (List.mem_of_getLast? hla)
      have hlastB := hB' _ (List.mem_of_getLast? hlb)
      obtain ⟨a, ha, hx⟩ := toNumber_departure.2 ⟨hfirstA.timed, hfirstA.seconds_eq⟩
      obtain ⟨b, hb, hy⟩ := toNumber_departure.2 ⟨hfirstB.timed, hfirstB.seconds_eq⟩
      obtain ⟨c, hc, hz⟩ := toNumber_departure.2 ⟨hlastA.timed, hlastA.seconds_eq⟩
      obtain ⟨d, hd, hw⟩ := toNumber_departure.2 ⟨hlastB.timed, hlastB.seconds_eq⟩
      simp only [compareValues, hfa, hfb, hla, hlb, Js.bind_eq_ok_iff]
      refine ⟨a, ha, b, hb, _, hx, _, hy, c, hc, d, hd, _, hz, _, hw, ?_⟩
      rw [Js.max_ofInt, Js.min_ofInt]
      exact ⟨_, keyTexts_listed hA', _, keyTexts_listed hB', rfl⟩

end Rows

/-! ### The range of a departure -/

/-- A number has an offset. -/
theorem offset_ne_nan (now : ℤ) (x : Js.Number) : offset now x.double ≠ .nan := by
  have hexact : ∀ q, Binary64.ofExact q ≠ .nan := by
    intro q
    rw [Binary64.ofExact]
    split_ifs <;> simp
  cases x with
  | infinity b => simp [offset, Js.Number.double, Binary64.mul, Binary64.sub, Binary64.ofInt,
      Binary64.neg, Binary64.add]
  | finite q h =>
    have hadd : ∀ y : Binary64, y ≠ .nan → y.sub (.ofInt now) ≠ .nan := by
      intro y hy
      cases y with
      | nan => exact absurd rfl hy
      | infinity b => simp [Binary64.sub, Binary64.ofInt, Binary64.neg, Binary64.add]
      | finite p => exact hexact _
    exact hadd _ (hexact _)

/-- A number is not seen to be too early or too late exactly if it is in range. -/
theorem offsetFailure_eq_none_iff (x : Js.Number) :
    offsetFailure (offset now x.double) = none ↔ InRange now x.double := by
  have hx := offset_ne_nan now x
  rw [InRange, ← Binary64.lt_eq_false_iff hx (by simp [Binary64.ofInt]),
    ← Binary64.lt_eq_false_iff (by simp [Binary64.ofInt]) hx, offsetFailure]
  split_ifs with hearly hlate <;> simp_all

/-- The offset of a whole number of seconds is exact. -/
theorem inRange_intCast {n : ℤ} (hn : |n * 1000| ≤ 2 ^ 53) (hoffset : |n * 1000 - now| ≤ 2 ^ 53) :
    InRange now (.ofInt n) ↔ now - staleMs ≤ n * 1000 ∧ n * 1000 ≤ now + nightGapMs := by
  have hmul : (Binary64.ofInt n).mul (.finite 1000) = .ofInt (n * 1000) := by
    rw [← Binary64.ofExact_intCast hn]
    push_cast
    rfl
  have hsub : (Binary64.ofInt (n * 1000)).sub (.ofInt now) = .ofInt (n * 1000 - now) := by
    rw [← Binary64.ofExact_intCast hoffset, sub_eq_add_neg, Int.cast_add, Int.cast_neg]
    rfl
  have hle : ∀ a b : ℤ, (Binary64.ofInt a).le (.ofInt b) = true ↔ a ≤ b := by
    intro a b
    rw [Binary64.ofInt, Binary64.ofInt, Binary64.le, decide_eq_true_iff]
    exact Int.cast_le
  rw [InRange, offset, hmul, hsub, hle, hle]
  omega

/-! ### A run -/

theorem finds_unique (h : Finds now host rowsA) (h' : Finds now host rowsB) : rowsA = rowsB := by
  rw [← attempt_departures_eq_inr_iff] at h h'
  exact Sum.inr.inj (h.symm.trans h')

theorem Finds.exists_cons (h : Finds now host rows) :
    ∃ first rest departure, rows = first :: rest ∧ Js.get (some first) "departure" = .ok departure ∧
      Js.convertible departure = true ∧
      offsetFailure (offset now (Js.number departure)) = none := by
  rcases h with h | ⟨-, h⟩
  all_goals
    obtain ⟨_, first, rest, departure, -, -, -, hrows, hget, hconv, hoffset⟩ := h
    exact ⟨first, rest, departure, hrows, hget, hconv, hoffset⟩

/-- The probe of a host throws only in the search for a train. -/
theorem probeHost_ok_iff (localDate : ℤ → String) :
    (∃ probed, probeHost localDate host now = .ok probed) ↔
      ∀ rows, Finds now host rows → ∃ train, findTrain rows = .ok train := by
  simp only [probeHost, Js.bind_eq_ok_iff]
  rcases departures_cases now host with ⟨rows, hrows, h⟩ | ⟨hnone, failure, h⟩
  · rw [h]
    constructor
    · rintro ⟨_, train, htrain, -⟩ rows' hrows'
      rw [finds_unique hrows' hrows]
      exact ⟨train, htrain⟩
    · intro hall
      obtain ⟨train, htrain⟩ := hall rows hrows
      exact ⟨_, train, htrain, rfl⟩
  · rw [h]
    exact iff_of_true ⟨_, none, rfl, rfl⟩ fun rows hrows => absurd hrows (hnone rows)

/-- The departures of a host are the rows it finds. -/
theorem departures_of_probeHost {probed : Probed} (h : probeHost localDate host now = .ok probed) :
    Finds now host probed.departures ∨
      (∀ rows, ¬ Finds now host rows) ∧ probed.departures = [] := by
  obtain ⟨train, -, h⟩ := Js.bind_eq_ok_iff.1 h
  obtain rfl := Except.ok.inj h
  rcases departures_cases now host with ⟨rows, hrows, hfound⟩ | ⟨hnone, failure, hfound⟩
  · refine .inl ?_
    rw [hfound]
    exact hrows
  · refine .inr ⟨hnone, ?_⟩
    rw [hfound]
    rfl

theorem compareValues_departures_ok_iff {hostA hostB : Host} {a b : Probed}
    (ha : probeHost localDate hostA now = .ok a) (hb : probeHost localDate hostB now = .ok b) :
    (∃ parity, compareValues a.departures b.departures = .ok parity) ↔
      ∀ rowsA rowsB, Finds now hostA rowsA → Finds now hostB rowsB →
        ∀ d ∈ rowsA.take 5 ++ rowsB.take 5, Comparable rowsA rowsB d := by
  rw [compareValues_ok_iff]
  rcases departures_of_probeHost ha with hA | ⟨hA, hnil⟩
  · rcases departures_of_probeHost hb with hB | ⟨hB, hnil⟩
    · constructor
      · intro h rowsA rowsB hrowsA hrowsB
        obtain ⟨_, _, _, hconsA, -⟩ := hA.exists_cons
        obtain ⟨_, _, _, hconsB, -⟩ := hB.exists_cons
        rw [finds_unique hrowsA hA, finds_unique hrowsB hB]
        exact h (hconsA ▸ List.cons_ne_nil _ _) (hconsB ▸ List.cons_ne_nil _ _)
      · intro h _ _
        exact h _ _ hA hB
    · exact iff_of_true (fun _ h => absurd hnil h) fun _ rowsB _ h => absurd h (hB rowsB)
  · exact iff_of_true (fun h => absurd hnil h) fun rowsA _ h => absurd h (hA rowsA)

/-- A departures probe passes only with a number in range if the rows that are found start with a
number. -/
theorem passes_iff : (∀ rows,
      attempt host "departures" (fun get => checkDepartures get now) = .inr rows →
      ∃ first ∈ rows.head?, ∃ x : Js.Number,
        Js.get (some first) "departure" = .ok (some (.num x)) ∧ InRange now x.double) ↔
    ∀ rows, Finds now host rows →
      ∃ first ∈ rows.head?, ∃ x, Js.getOpt (some first) "departure" = some (.num x) := by
  simp only [attempt_departures_eq_inr_iff]
  refine forall₂_congr fun rows hrows => ?_
  constructor
  · rintro ⟨first, hfirst, x, hget, -⟩
    exact ⟨first, hfirst, x, (Js.get_eq_ok_iff.1 hget).2⟩
  · rintro ⟨first, hfirst, x, hx⟩
    obtain ⟨first', _, departure, rfl, hget, -, hoffset⟩ := hrows.exists_cons
    obtain rfl := Option.some.inj hfirst
    rw [← (Js.get_eq_ok_iff.1 hget).2, hx] at hoffset
    refine ⟨first', rfl, x, ?_, (offsetFailure_eq_none_iff x).1 hoffset⟩
    rw [hget, ← (Js.get_eq_ok_iff.1 hget).2, hx]

theorem mapM_hosts_ok_iff {α : Type} {f : String → Except String α} {results : List α} :
    hosts.mapM f = .ok results ↔ ∃ a b c, f "api.traintime.ch" = .ok a ∧
      f "api1.traintime.ch" = .ok b ∧ f "api2.traintime.ch" = .ok c ∧ results = [a, b, c] := by
  simp only [hosts, List.mapM_cons, List.mapM_nil, Js.bind_eq_ok_iff]
  constructor
  · rintro ⟨a, ha, _, ⟨b, hb, _, ⟨c, hc, _, hnil, hrest⟩, hrest'⟩, h⟩
    cases hnil
    cases hrest
    cases hrest'
    cases h
    exact ⟨a, b, c, ha, hb, hc, rfl⟩
  · rintro ⟨a, b, c, ha, hb, hc, rfl⟩
    exact ⟨a, ha, [b, c], ⟨b, hb, [c], ⟨c, hc, [], rfl, rfl⟩, rfl⟩, rfl⟩

/-- Departures as the servers list them are what they should be. -/
theorem tame_of_listed {answers : String → Host}
    (h : ∀ host ∈ hosts, ∀ rows, Finds now (answers host) rows → ∀ d ∈ rows, Listed d) :
    Tame answers now where
  number := by
    intro host hhost rows hrows
    obtain ⟨first, rest, -, rfl, -, -⟩ := hrows.exists_cons
    obtain ⟨n, hn, hget, -⟩ := (h host hhost _ hrows first List.mem_cons_self).departure
    exact ⟨first, rfl, _, hget⟩
  trains := by
    rintro host hhost rows hrows before after rfl
    exact absurd rfl (h host hhost _ hrows .null (by simp)).ne_null
  comparable := by
    intro rowsA rowsB hA hB d hd
    have hlisted : Listed d := by
      rcases List.mem_append.1 hd with hd | hd
      · exact h _ (by decide) _ hA d (List.mem_of_mem_take hd)
      · exact h _ (by decide) _ hB d (List.mem_of_mem_take hd)
    exact ⟨hlisted.timed, fun _ => ⟨hlisted.number, hlisted.trainNumber⟩⟩

/-- The probes and the comparison throw nothing if every search finds a train before a `null` and
the rows that are compared can be. -/
theorem completes_iff (localDate : ℤ → String) (answers : String → Host) (now : ℤ) :
    (∃ results, (hosts.mapM fun host => probeHost localDate (answers host) now) = .ok results ∧
      ∃ parity, compareValues (departuresAt results 0) (departuresAt results 1) = .ok parity) ↔
    (∀ host ∈ hosts, ∀ rows, Finds now (answers host) rows → ∃ train, findTrain rows = .ok train) ∧
      ∀ rowsA rowsB, Finds now (answers "api.traintime.ch") rowsA →
        Finds now (answers "api1.traintime.ch") rowsB →
        ∀ d ∈ rowsA.take 5 ++ rowsB.take 5, Comparable rowsA rowsB d := by
  simp only [← probeHost_ok_iff localDate, ← Js.mapM_ok_iff]
  constructor
  · rintro ⟨results, hresults, hparity⟩
    obtain ⟨a, b, c, ha, hb, -, rfl⟩ := mapM_hosts_ok_iff.1 hresults
    exact ⟨⟨_, hresults⟩, (compareValues_departures_ok_iff ha hb).1 hparity⟩
  · rintro ⟨⟨results, hresults⟩, hcomparable⟩
    obtain ⟨a, b, c, ha, hb, -, rfl⟩ := mapM_hosts_ok_iff.1 hresults
    exact ⟨_, hresults, (compareValues_departures_ok_iff ha hb).2 hcomparable⟩

end Thrown

end Traintime.Monitor
