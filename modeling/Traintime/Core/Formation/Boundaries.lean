import Traintime.Core.Formation.Captures
import Traintime.Core.Formation.Wagons

/-!
# Boundaries in a formation string

The parentheses of a formation string are the boundaries that passengers cannot pass. Said by the
texts of the vehicles in the string alone, a car has no passage after it exactly when a parenthesis
stands between it and the next car: its own closing one, the opening one of the next car, or any of a
vehicle in between.

## Main definitions

* `Formation.vehicleTexts`: the texts of the vehicles of a string.
* `Formation.Separated`: a parenthesis between a car and the next one.

## Main results

* `Formation.map_profile_vehicles`: the parser reads the vehicles from these texts.
* `Formation.noPassageAfter_iff`: the flag of a car says whether a parenthesis follows it.
-/

namespace Traintime.Formation

open Ojp (trim)

/-! ### The texts of vehicles -/

/-- What a token leaves for a vehicle, without its square brackets and its sectors. -/
def vehicleText (raw : List Char) : List Char :=
  let token := (trim raw).filter fun c => c ≠ '[' ∧ c ≠ ']'
  let token := ((leading token).map Prod.snd).getD token
  ((trailing token).map Prod.snd).getD token

/-- The texts of the vehicles of a string, which are those that the pattern of a vehicle matches. -/
def vehicleTexts (d : DigitClass) (short : List Char) : List (List Char) :=
  ((short.splitOn ',').map vehicleText).filter fun t => ((tokenRe d).full t).isSome

/-- The type in the text of a vehicle. -/
def typeOf (t : List Char) : List Char := (t.dropWhile Captures.isFront).takeWhile Char.isAlphanum

/-- The text of a vehicle for passengers. -/
def isCar (t : List Char) : Bool := !(["LK", "D", "F", "X"].contains (String.ofList (typeOf t)))

/-- Behind the car `t` there is a next one, and a parenthesis in between: one that closes `t`, one that
opens the next car, or any of a vehicle that stands between them. -/
def Separated (t : List Char) (rest : List (List Char)) : Prop :=
  ∃ between next tail, rest = between ++ next :: tail ∧ (∀ m ∈ between, isCar m = false) ∧
    isCar next = true ∧ (')' ∈ t ∨ '(' ∈ next ∨ ∃ m ∈ between, '(' ∈ m ∨ ')' ∈ m)

/-! ### Parentheses and flags -/

namespace Captures

variable {d : DigitClass} {c : Captures}

theorem typeOf_text (hc : c.Valid d) : typeOf c.text = c.kind := by
  rw [typeOf, hc.front_eq.2, hc.kind_eq.1]

/-- The number and the offers of a vehicle hold no parenthesis. -/
theorem not_mem_numberText_offersText (hc : c.Valid d) {x : Char} (hx : x = '(' ∨ x = ')') :
    x ∉ c.numberText ++ c.offersText := by
  intro h
  rcases List.mem_append.mp h with h | h
  · cases hnumber : c.number with
    | none => simp [numberText, hnumber] at h
    | some n =>
      rw [numberText, hnumber, Option.map_some, Option.getD_some, List.mem_cons] at h
      rcases h with rfl | h
      · simp at hx
      · have hdigit := (hc.number n hnumber).1 x h
        rcases hx with rfl | rfl <;> rw [d.ascii _ (by decide)] at hdigit <;>
          exact absurd hdigit (by decide)
  · cases hoffers : c.offers with
    | none => simp [offersText, hoffers] at h
    | some o =>
      rw [offersText, hoffers, Option.map_some, Option.getD_some, List.mem_cons] at h
      rcases h with rfl | h
      · simp at hx
      · have hoffer := (hc.offers o hoffers).1 x h
        rcases hx with rfl | rfl <;> exact absurd hoffer (by decide)

theorem not_mem_kind (hc : c.Valid d) {x : Char} (hx : x = '(' ∨ x = ')') : x ∉ c.kind := by
  intro h
  have halpha := hc.isAlphanum_of_mem_kind x h
  rcases hx with rfl | rfl <;> exact absurd halpha (by decide)

/-- A vehicle opens a unit exactly if its text has an opening parenthesis. -/
theorem mem_text_open_iff (hc : c.Valid d) :
    '(' ∈ c.text ↔ (c.outer.isSome || c.inner.isSome) = true := by
  have hclose : '(' ∉ c.close.getD [] := fun h => absurd (eq_of_mem_getD hc.close h) (by decide)
  rw [← hc.opens_iff, text_eq, tail, List.mem_append, List.mem_append, List.mem_append,
    or_iff_right (not_mem_kind hc (.inl rfl)), or_iff_right hclose,
    or_iff_left (not_mem_numberText_offersText hc (.inl rfl))]

/-- A vehicle closes a unit exactly if its text has a closing parenthesis. -/
theorem mem_text_close_iff (hc : c.Valid d) : ')' ∈ c.text ↔ c.close.isSome = true := by
  have hfront : ')' ∉ c.front := fun h => absurd (hc.isFront_of_mem_front _ h) (by decide)
  rw [← mem_getD_iff hc.close, text_eq, tail, List.mem_append, List.mem_append, List.mem_append,
    or_iff_right hfront, or_iff_right (not_mem_kind hc (.inr rfl)),
    or_iff_left (not_mem_numberText_offersText hc (.inr rfl))]

end Captures

/-- What the boundaries depend on, of a vehicle. -/
def Vehicle.profile (v : Vehicle) : Bool × Bool × Bool := (v.isPassenger, v.opens, v.closes)

/-- What the boundaries depend on, of the text of a vehicle. -/
def textProfile (t : List Char) : Bool × Bool × Bool := (isCar t, t.contains '(', t.contains ')')

theorem profile_vehicle {d : DigitClass} {t : List Char} {c : Captures}
    (h : (tokenRe d).full t = some c) (sector : List Char) :
    (c.vehicle sector).profile = textProfile t := by
  obtain ⟨hc, rfl⟩ := of_full_tokenRe h
  have hopens : (c.outer.isSome || c.inner.isSome) = c.text.contains '(' := by
    rw [Bool.eq_iff_iff, ← Captures.mem_text_open_iff hc, List.contains_iff_mem]
  have hcloses : c.close.isSome = c.text.contains ')' := by
    rw [Bool.eq_iff_iff, ← Captures.mem_text_close_iff hc, List.contains_iff_mem]
  rw [Vehicle.profile, textProfile, isCar, Captures.typeOf_text hc, ← hopens, ← hcloses]
  rfl

/-! ### The vehicles of a string -/

theorem full_tokenRe_nil (d : DigitClass) : (tokenRe d).full [] = none := by
  cases h : (tokenRe d).full [] with
  | none => rfl
  | some c =>
    obtain ⟨hc, htext⟩ := of_full_tokenRe h
    have hkind : c.kind = [] := by
      have := htext.symm
      rw [Captures.text_eq, List.append_eq_nil_iff, List.append_eq_nil_iff] at this
      exact this.2.1
    exact absurd hkind (Captures.isAlphanum_types c.kind hc.kind).1

theorem Scan.vehicles_push (d : DigitClass) (st : Scan) (t : List Char) :
    (st.push d t).vehicles = st.vehicles ++ ((tokenRe d).full t).toList.map (·.vehicle st.sector) := by
  by_cases ht : t = []
  · subst ht
    rw [push, if_pos rfl, full_tokenRe_nil]
    simp
  · rw [push, if_neg ht]
    cases (tokenRe d).full t <;> simp

/-- A token adds the vehicle of its text, if there is one. -/
theorem Scan.vehicles_token (d : DigitClass) (st : Scan) (raw : List Char) :
    ∃ sector, (st.token d raw).vehicles =
      st.vehicles ++ ((tokenRe d).full (vehicleText raw)).toList.map (·.vehicle sector) := by
  simp only [token, vehicleText]
  cases leading ((trim raw).filter fun c => c ≠ '[' ∧ c ≠ ']') with
  | none =>
    refine ⟨st.sector, ?_⟩
    simp only [Option.map_none, Option.getD_none]
    cases trailing ((trim raw).filter fun c => c ≠ '[' ∧ c ≠ ']') with
    | none => exact st.vehicles_push d _
    | some y => exact st.vehicles_push d y.2
  | some x =>
    refine ⟨(st.enter x.1).sector, ?_⟩
    simp only [Option.map_some, Option.getD_some]
    cases trailing x.2 with
    | none => exact (st.enter x.1).vehicles_push d x.2
    | some y => exact (st.enter x.1).vehicles_push d y.2

/-- **The vehicles.** What the boundaries depend on is read from the texts of the vehicles. -/
theorem map_profile_vehicles (d : DigitClass) (short : List Char) :
    (scan d short).vehicles.map Vehicle.profile = (vehicleTexts d short).map textProfile := by
  suffices hfold : ∀ (raws : List (List Char)) (st : Scan),
      (raws.foldl (Scan.token d) st).vehicles.map Vehicle.profile =
        st.vehicles.map Vehicle.profile ++ (((raws.map vehicleText).filter fun t =>
          ((tokenRe d).full t).isSome).map textProfile) from
    hfold (short.splitOn ',') ⟨[], [], []⟩
  intro raws
  induction raws with
  | nil => simp
  | cons raw raws ih =>
    intro st
    obtain ⟨sector, hstep⟩ := st.vehicles_token d raw
    rw [List.foldl_cons, ih, hstep, List.map_append, List.map_map, List.append_assoc,
      List.append_cancel_left_eq, List.map_cons, List.filter_cons]
    cases hfull : (tokenRe d).full (vehicleText raw) with
    | none => simp
    | some c => simp [profile_vehicle hfull sector]

/-! ### The flags of wagons -/

section Profiles

variable {t : List Char} {v : Vehicle} {texts rest : List (List Char)} {vs vrest : List Vehicle}

theorem profile_eq_iff : v.profile = textProfile t ↔
    v.isPassenger = isCar t ∧ (v.opens = true ↔ '(' ∈ t) ∧ (v.closes = true ↔ ')' ∈ t) := by
  rw [Vehicle.profile, textProfile, Prod.mk.injEq, Prod.mk.injEq, Bool.eq_iff_iff (a := v.opens),
    Bool.eq_iff_iff (a := v.closes), List.contains_iff_mem, List.contains_iff_mem]

theorem length_filter_isPassenger (h : vs.map Vehicle.profile = texts.map textProfile) :
    (vs.filter Vehicle.isPassenger).length = (texts.filter isCar).length := by
  have hcount := congrArg (List.countP Prod.fst) h
  rwa [List.countP_map, List.countP_map, List.countP_eq_length_filter,
    List.countP_eq_length_filter] at hcount

theorem exists_mem_of_map_eq (h : vs.map Vehicle.profile = texts.map textProfile) :
    (∃ v ∈ vs, v.opens = true ∨ v.closes = true) ↔ ∃ t ∈ texts, '(' ∈ t ∨ ')' ∈ t := by
  have hany := congrArg (List.any · fun x => x.2.1 || x.2.2) h
  rw [List.any_map, List.any_map, Bool.eq_iff_iff, List.any_eq_true, List.any_eq_true] at hany
  simpa [Vehicle.profile, textProfile] using hany

theorem forall_isCar_of_map_eq (h : vs.map Vehicle.profile = texts.map textProfile) :
    (∀ v ∈ vs, v.isPassenger = false) ↔ ∀ t ∈ texts, isCar t = false := by
  have hall := congrArg (List.all · fun x => !x.1) h
  rw [List.all_map, List.all_map, Bool.eq_iff_iff, List.all_eq_true, List.all_eq_true] at hall
  simpa [Vehicle.profile, textProfile] using hall

/-- Boundaries of vehicles are parentheses of their texts. -/
theorem parted_iff_separated (hv : v.profile = textProfile t)
    (hrest : vrest.map Vehicle.profile = rest.map textProfile) :
    Parted v vrest ↔ Separated t rest := by
  obtain ⟨-, -, hcloses⟩ := profile_eq_iff.mp hv
  have hpoint : ∀ {between : List Vehicle} {next : Vehicle} {texts : List (List Char)}
      {text : List Char}, between.map Vehicle.profile = texts.map textProfile →
      next.profile = textProfile text →
      (((∀ m ∈ between, m.isPassenger = false) ∧ next.isPassenger = true ∧
        (v.closes = true ∨ next.opens = true ∨ ∃ m ∈ between, m.opens = true ∨ m.closes = true)) ↔
      (∀ m ∈ texts, isCar m = false) ∧ isCar text = true ∧
        (')' ∈ t ∨ '(' ∈ text ∨ ∃ m ∈ texts, '(' ∈ m ∨ ')' ∈ m)) := by
    intro between next texts text hbetween hnext
    obtain ⟨hcar, hopens, -⟩ := profile_eq_iff.mp hnext
    rw [forall_isCar_of_map_eq hbetween, exists_mem_of_map_eq hbetween, hcar, hopens, hcloses]
  constructor
  · rintro ⟨between, next, tail, rfl, h⟩
    rw [List.map_append, List.map_cons] at hrest
    obtain ⟨texts, rest', rfl, hbetween, hrest'⟩ := List.map_eq_append_iff.mp hrest.symm
    obtain ⟨text, tail', rfl, hnext, -⟩ := List.map_eq_cons_iff.mp hrest'
    exact ⟨texts, text, tail', rfl, (hpoint hbetween.symm hnext.symm).mp h⟩
  · rintro ⟨texts, text, tail, rfl, h⟩
    rw [List.map_append, List.map_cons] at hrest
    obtain ⟨between, rest', rfl, hbetween, hrest'⟩ := List.map_eq_append_iff.mp hrest
    obtain ⟨next, tail', rfl, hnext, -⟩ := List.map_eq_cons_iff.mp hrest'
    exact ⟨between, next, tail', rfl, (hpoint hbetween hnext).mpr h⟩

end Profiles

/-- There is one wagon for each car in the string, in order, and it has no passage after it exactly when
a parenthesis stands between it and the next car. -/
theorem noPassageAfter_iff (d : DigitClass) (short : List Char) {done rest : List (List Char)}
    {t : List Char} (htexts : vehicleTexts d short = done ++ t :: rest) (ht : isCar t = true) :
    (parseFormationShortString d short).2.length = ((vehicleTexts d short).filter isCar).length ∧
      ∃ w, (parseFormationShortString d short).2[(done.filter isCar).length]? = some w ∧
        (w.noPassageAfter = true ↔ Separated t rest) := by
  have hprofiles := map_profile_vehicles d short
  rw [snd_parseFormationShortString, length_wagonsOf, length_filter_isPassenger hprofiles]
  refine ⟨rfl, ?_⟩
  rw [htexts, List.map_append, List.map_cons] at hprofiles
  obtain ⟨vdone, rest', hvehicles, hdone, hrest'⟩ := List.map_eq_append_iff.mp hprofiles
  obtain ⟨v, vrest, rfl, hv, hrest⟩ := List.map_eq_cons_iff.mp hrest'
  have hcar : v.isPassenger = true := (profile_eq_iff.mp hv).1.trans ht
  rw [hvehicles, ← length_filter_isPassenger hdone, wagonsOf_append vdone vrest v hcar]
  refine ⟨_, rfl, ?_⟩
  rw [← parted_iff_separated hv hrest, ← barred_iff_parted]
  rfl

/-- An engine stands between the first car and a unit of two cars that can be passed. -/
theorem noPassageAfter_iff_units :
    ∃ w w', (parseFormationShortString .asciiOnly "1,LK,@A(2,1)@B".toList).2[0]? = some w ∧
      w.noPassageAfter = true ∧
      (parseFormationShortString .asciiOnly "1,LK,@A(2,1)@B".toList).2[1]? = some w' ∧
      w'.noPassageAfter = false := by
  have htexts : vehicleTexts .asciiOnly "1,LK,@A(2,1)@B".toList =
      ["1".toList, "LK".toList, "(2".toList, "1)".toList] := by decide +kernel
  have hfirst : vehicleTexts .asciiOnly "1,LK,@A(2,1)@B".toList =
      [] ++ "1".toList :: ["LK".toList, "(2".toList, "1)".toList] := htexts
  have hsecond : vehicleTexts .asciiOnly "1,LK,@A(2,1)@B".toList =
      ["1".toList, "LK".toList] ++ "(2".toList :: ["1)".toList] := htexts
  obtain ⟨-, w, hw, hiff⟩ := noPassageAfter_iff .asciiOnly _ hfirst (by decide)
  obtain ⟨-, w', hw', hiff'⟩ := noPassageAfter_iff .asciiOnly _ hsecond (by decide)
  refine ⟨w, w', hw, hiff.mpr ?_, hw', Bool.eq_false_iff.mpr fun h => ?_⟩
  · exact ⟨["LK".toList], "(2".toList, ["1)".toList], rfl, by decide, by decide, by decide⟩
  · obtain ⟨between, next, tail, hrest, hbetween, -, hmark⟩ := hiff'.mp h
    cases between with
    | nil =>
      obtain ⟨rfl, -⟩ := List.cons.inj hrest
      revert hmark
      decide
    | cons m between =>
      obtain ⟨rfl, -⟩ := List.cons.inj hrest
      exact absurd (hbetween _ List.mem_cons_self) (by decide)

end Traintime.Formation
