import Mathlib.Data.List.Nodup
import Traintime.Core.Formation.Grammar

/-!
# The output for any string

Whatever the string is, the parser does not panic, and what it returns is well formed for the apps
that read it.

## Main definitions

* `Formation.parseChecked`: the parser with its slices as places of bytes, which may panic.
* `Formation.WellFormed`: what the apps rely on.

## Main results

* `Formation.parseChecked_eq`: no slice panics.
* `Formation.output_wellFormed`: the output is well formed.
-/

namespace Traintime.Formation

open Ojp (trim)

/-! ### Slices -/

/-- `&s[n..]`, which panics when `n` is not at the end of a character. -/
def sliceFrom : ℕ → List Char → Option (List Char)
  | 0, s => some s
  | _ + 1, [] => none
  | n + 1, c :: s => if c.utf8Size ≤ n + 1 then sliceFrom (n + 1 - c.utf8Size) s else none

/-- `&s[..n]`, and `s.truncate(n)` up to the length of the string. -/
def sliceTo : ℕ → List Char → Option (List Char)
  | 0, _ => some []
  | _ + 1, [] => none
  | n + 1, c :: s =>
    if c.utf8Size ≤ n + 1 then (sliceTo (n + 1 - c.utf8Size) s).map (c :: ·) else none

/-- The length of a string in bytes. -/
def byteLength (s : List Char) : ℕ := (s.map Char.utf8Size).sum

theorem byteLength_cons (c : Char) (s : List Char) :
    ∃ n, byteLength (c :: s) = n + 1 ∧ c.utf8Size ≤ n + 1 ∧ n + 1 - c.utf8Size = byteLength s := by
  have hpos := c.utf8Size_pos
  have hsum : byteLength (c :: s) = c.utf8Size + byteLength s := by
    rw [byteLength, List.map_cons, List.sum_cons, ← byteLength]
  exact ⟨byteLength (c :: s) - 1, by omega, by omega, by omega⟩

theorem sliceFrom_byteLength (s t : List Char) : sliceFrom (byteLength s) (s ++ t) = some t := by
  induction s with
  | nil =>
    rw [byteLength, List.map_nil, List.sum_nil, List.nil_append]
    cases t <;> rfl
  | cons c s ih =>
    obtain ⟨n, hn, hle, hrest⟩ := byteLength_cons c s
    rw [hn, List.cons_append, sliceFrom, if_pos hle, hrest, ih]

theorem sliceTo_byteLength (s t : List Char) : sliceTo (byteLength s) (s ++ t) = some s := by
  induction s with
  | nil =>
    rw [byteLength, List.map_nil, List.sum_nil]
    cases t <;> rfl
  | cons c s ih =>
    obtain ⟨n, hn, hle, hrest⟩ := byteLength_cons c s
    rw [hn, List.cons_append, sliceTo, if_pos hle, hrest, ih, Option.map_some]

/-! ### The parser with its slices -/

/-- `leading`, with the slice `&rest[letter.len()..]` by bytes. There is no value if it panics. -/
def leadingChecked : List Char → Option (Option (List Char × List Char))
  | '@' :: rest =>
    let letter := (rest.takeWhile Char.isAlpha).take 1
    if letter = [] then some none
    else (sliceFrom (byteLength letter) rest).map fun rest => some (letter.map Char.toUpper, rest)
  | _ => some none

/-- The place of the last `@`, in bytes. -/
def rfindAt (token : List Char) : Option ℕ :=
  if '@' ∈ token then some (byteLength (token.rdropWhile (· ≠ '@')) - 1) else none

/-- `trailing`, with `&token[at + 1..]` and `token.truncate(at)`. -/
def trailingChecked (token : List Char) : Option (Option (List Char × List Char)) :=
  match rfindAt token with
  | some at' =>
    match sliceFrom (at' + 1) token with
    | none => none
    | some tail =>
      if byteLength tail = 1 ∧ tail.all Char.isAlpha = true then
        (sliceTo at' token).map fun token => some (tail.map Char.toUpper, token)
      else some none
  | none => some none

/-- `Scan.token` with every slice of the source as one that panics off a character's boundary. There
is no value if one does. -/
def Scan.tokenChecked (d : DigitClass) (st : Scan) (raw : List Char) : Option Scan := do
  let token := (trim raw).filter fun c => c ≠ '[' ∧ c ≠ ']'
  let lead ← leadingChecked token
  let (st, token) :=
    match lead with
    | some (s, rest) => (st.enter s, rest)
    | none => (st, token)
  let trail ← trailingChecked token
  match trail with
  | some (s, token) => some ((st.push d token).enter s)
  | none => some (st.push d token)

/-- `parse_formation_short_string` with slices that may panic. There is no value if any token makes
one panic. -/
def parseChecked (d : DigitClass) (short : List Char) : Option (List (List Char) × List Wagon) :=
  ((short.splitOn ',').foldlM (Scan.tokenChecked d) ⟨[], [], []⟩).map fun st =>
    (st.sectors, setLast false (wagonsFrom st.vehicles [] false))

theorem leadingChecked_eq (token : List Char) : leadingChecked token = some (leading token) := by
  unfold leadingChecked
  split
  · next rest =>
    have hsplit : (rest.takeWhile Char.isAlpha).take 1 ++
        rest.drop ((rest.takeWhile Char.isAlpha).take 1).length = rest :=
      List.prefix_iff_eq_append.mp
        ((List.take_prefix 1 _).trans (List.takeWhile_prefix Char.isAlpha))
    have hslice := sliceFrom_byteLength ((rest.takeWhile Char.isAlpha).take 1)
      (rest.drop ((rest.takeWhile Char.isAlpha).take 1).length)
    rw [hsplit] at hslice
    simp only [leading, hslice, Option.map_some]
    split_ifs <;> rfl
  · next hne =>
    rw [leading_eq_none]
    intro c hc hat
    obtain ⟨rest, hrest⟩ := List.head?_eq_some_iff.mp hc
    exact hne rest (hat ▸ hrest)

theorem byteLength_append (s t : List Char) :
    byteLength (s ++ t) = byteLength s + byteLength t := by
  rw [byteLength, List.map_append, List.sum_append]
  rfl

/-- A letter of ASCII is one byte. -/
theorem byteLength_of_isAlpha {s : List Char} (h : ∀ c ∈ s, c.isAlpha = true) :
    byteLength s = s.length := by
  induction s with
  | nil => rfl
  | cons c s ih =>
    rw [List.forall_mem_cons] at h
    have hc : c.utf8Size = 1 := by
      have hrange := Regex.toNat_of_isAlphanum (isAlphanum_of_isAlpha h.1)
      have hle : c.val ≤ 0x7F := UInt32.le_iff_toNat_le.mpr (le_trans hrange.2 (by decide))
      rw [Char.utf8Size]
      exact if_pos hle
    rw [byteLength, List.map_cons, List.sum_cons, ← byteLength, ih h.2, hc, List.length_cons,
      Nat.add_comm]

theorem exists_last_at {token : List Char} (h : '@' ∈ token) :
    ∃ front tail, token = front ++ '@' :: tail ∧ token.rdropWhile (· ≠ '@') = front ++ ['@'] ∧
      token.rtakeWhile (· ≠ '@') = tail := by
  obtain ⟨tail, front, hreverse, hnot⟩ := List.eq_append_cons_of_mem (List.mem_reverse.mpr h)
  have hsplit := splitWhile_append (p := fun c => c ≠ '@') (a := tail) (b := '@' :: front)
    (fun c hc => decide_eq_true fun heq => hnot (heq ▸ hc))
    (fun c hc => by rw [← Option.some_inj.mp hc]; rfl)
  refine ⟨front.reverse, tail.reverse, ?_, ?_, ?_⟩
  · rw [← List.reverse_reverse token, hreverse, List.reverse_append, List.reverse_cons,
      List.append_assoc, List.singleton_append]
  · rw [List.rdropWhile, hreverse, hsplit.2, List.reverse_cons]
  · rw [List.rtakeWhile, hreverse, hsplit.1]

theorem trailingChecked_eq (token : List Char) : trailingChecked token = some (trailing token) := by
  unfold trailingChecked rfindAt trailing
  by_cases hat : '@' ∈ token
  · obtain ⟨front, tail, htoken, hdrop, htake⟩ := exists_last_at hat
    have hplace : byteLength (front ++ ['@']) - 1 = byteLength front := by
      rw [byteLength_append]
      rfl
    have hfrom : sliceFrom (byteLength front + 1) token = some tail := by
      have hslice := sliceFrom_byteLength (front ++ ['@']) tail
      rwa [byteLength_append, List.append_assoc, List.singleton_append, ← htoken] at hslice
    have hto : sliceTo (byteLength front) token = some front := by
      rw [htoken]
      exact sliceTo_byteLength front _
    have hlength : token.take (token.length - (tail.length + 1)) = front := by
      rw [htoken, List.length_append, List.length_cons, Nat.add_sub_cancel, List.take_left]
    rw [if_pos hat, if_pos hat]
    simp only [hdrop, hplace, hfrom, htake, hto, Option.map_some, hlength]
    have hiff : byteLength tail = 1 ∧ tail.all Char.isAlpha = true ↔
        tail.length = 1 ∧ tail.all Char.isAlpha = true := by
      refine and_congr_left fun hall => ?_
      rw [byteLength_of_isAlpha (List.all_eq_true.mp hall)]
    rw [if_congr hiff rfl rfl]
    split_ifs <;> rfl
  · rw [if_neg hat, if_neg hat]

/-- No slice is in the middle of a character, so the parser does not panic. -/
theorem parseChecked_eq (d : DigitClass) (short : List Char) :
    parseChecked d short = some (parseFormationShortString d short) := by
  have htoken : Scan.tokenChecked d = fun st raw => some (st.token d raw) := by
    funext st raw
    unfold Scan.tokenChecked Scan.token
    simp only [leadingChecked_eq, trailingChecked_eq, Option.bind_eq_bind, Option.bind_some]
    generalize (trim raw).filter (fun c => c ≠ '[' ∧ c ≠ ']') = token
    cases leading token with
    | none =>
      simp only
      cases trailing token <;> rfl
    | some r =>
      simp only
      cases trailing r.2 <;> rfl
  have hfold : ∀ (raws : List (List Char)) (st : Scan),
      raws.foldlM (fun st raw => some (st.token d raw)) st = some (raws.foldl (Scan.token d) st) := by
    intro raws
    induction raws with
    | nil => exact fun st => rfl
    | cons raw raws ih => exact fun st => ih (st.token d raw)
  rw [parseChecked, parseFormationShortString, htoken, hfold]
  rfl

/-! ### The output -/

/-- What has been read is consistent: the sectors are distinct capital letters, and the sector that
vehicles stand in is one of them. -/
structure Scan.Ok (st : Scan) : Prop where
  nodup : st.sectors.Nodup
  letter : ∀ s ∈ st.sectors, ∃ c : Char, s = [c] ∧ c.isUpper = true
  sector : st.sector = [] ∨ st.sector ∈ st.sectors
  vehicles : ∀ v ∈ st.vehicles, v.sector = [] ∨ v.sector ∈ st.sectors
  later : st.vehicles.Pairwise fun v v' => v.sector ≠ [] → v'.sector ≠ []
  entered : ∀ v ∈ st.vehicles, v.sector ≠ [] → st.sector ≠ []

/-- What the apps rely on of the sectors and wagons of any formation string, well-formed or not. -/
structure WellFormed (sectors : List (List Char)) (wagons : List Wagon) : Prop where
  position : wagons.map Wagon.position = List.range' 1 wagons.length
  carClass : ∀ w ∈ wagons, w.carClass = 1 ∨ w.carClass = 2
  mixedClass : ∀ w ∈ wagons, w.mixedClass = true → w.carClass = 1
  number : ∀ w ∈ wagons, w.numberUnknown = true → w.number = UInt32.ofNat w.position
  features : ∀ w ∈ wagons, w.features.Sublist
    ["wheelchair", "restaurant", "family", "business", "low_floor", "bike"]
  bikeReservation : ∀ w ∈ wagons, w.bikeReservation = true → "bike" ∈ w.features
  nodup : sectors.Nodup
  letter : ∀ s ∈ sectors, ∃ c : Char, s = [c] ∧ c.isUpper = true
  sector : ∀ w ∈ wagons, w.sector = [] ∨ w.sector ∈ sectors
  later : wagons.Pairwise fun w w' => w.sector ≠ [] → w'.sector ≠ []
  last : ∀ w ∈ wagons.getLast?, w.noPassageAfter = false

theorem Scan.Ok.enter {st : Scan} (h : st.Ok) {s : List Char}
    (hs : ∃ c : Char, s = [c] ∧ c.isUpper = true) : (st.enter s).Ok := by
  have hne : s ≠ [] := by
    obtain ⟨c, rfl, -⟩ := hs
    exact List.cons_ne_nil c []
  have hmem : s ∈ (st.enter s).sectors := by
    show s ∈ if s ∈ st.sectors then st.sectors else st.sectors ++ [s]
    split_ifs with hin
    · exact hin
    · exact List.mem_append_right _ (List.mem_singleton_self s)
  have hsubset : st.sectors ⊆ (st.enter s).sectors := by
    show st.sectors ⊆ if s ∈ st.sectors then st.sectors else st.sectors ++ [s]
    split_ifs
    · exact List.Subset.refl _
    · exact List.subset_append_left _ _
  have hof : ∀ s' ∈ (st.enter s).sectors, s' = s ∨ s' ∈ st.sectors := by
    intro s' hs'
    change s' ∈ if s ∈ st.sectors then st.sectors else st.sectors ++ [s] at hs'
    split_ifs at hs' with hin
    · exact .inr hs'
    · exact (List.mem_append.mp hs').symm.imp_left List.mem_singleton.mp
  refine ⟨?_, ?_, .inr hmem, fun v hv => (h.vehicles v hv).imp_right fun hin => hsubset hin, h.later,
    fun _ _ _ => hne⟩
  · show (if s ∈ st.sectors then st.sectors else st.sectors ++ [s]).Nodup
    split_ifs with hin
    · exact h.nodup
    · exact List.nodup_append.mpr ⟨h.nodup, List.nodup_singleton s, fun a ha b hb heq =>
        hin (List.mem_singleton.mp hb ▸ heq ▸ ha)⟩
  · intro s' hs'
    rcases hof s' hs' with rfl | hs'
    · exact hs
    · exact h.letter s' hs'

theorem Scan.Ok.push {st : Scan} (h : st.Ok) (d : DigitClass) (token : List Char) :
    (st.push d token).Ok := by
  rw [Scan.push]
  split_ifs
  · exact h
  · split
    · next c _ =>
      have hsector : (c.vehicle st.sector).sector = st.sector := rfl
      refine ⟨h.nodup, h.letter, h.sector, ?_, ?_, ?_⟩
      · intro v hv
        rcases List.mem_append.mp hv with hv | hv
        · exact h.vehicles v hv
        · rw [List.mem_singleton.mp hv, hsector]
          exact h.sector
      · refine List.pairwise_append.mpr ⟨h.later, List.pairwise_singleton _ _, ?_⟩
        intro v hv v' hv' hne
        rw [List.mem_singleton.mp hv', hsector]
        exact h.entered v hv hne
      · intro v hv hne
        rcases List.mem_append.mp hv with hv | hv
        · exact h.entered v hv hne
        · rwa [List.mem_singleton.mp hv] at hne
    · exact h

theorem isUpper_toUpper {c : Char} (h : c.isAlpha = true) : c.toUpper.isUpper = true := by
  have hrange := Regex.toNat_of_isAlphanum (isAlphanum_of_isAlpha h)
  have hall : ∀ n < 0x7B, (Char.ofNat n).isAlpha = true → (Char.ofNat n).toUpper.isUpper = true := by
    decide
  rw [← Char.ofNat_toNat c] at h ⊢
  exact hall _ (by omega) h

theorem isUpper_of_leading {token s rest : List Char} (h : leading token = some (s, rest)) :
    ∃ c : Char, s = [c] ∧ c.isUpper = true := by
  unfold leading at h
  split at h
  · next r =>
    simp only at h
    cases hletter : r.takeWhile Char.isAlpha with
    | nil => simp [hletter] at h
    | cons c cs =>
      have hc : c.isAlpha = true := List.mem_takeWhile_imp (hletter ▸ List.mem_cons_self)
      simp only [hletter, List.take_succ_cons, List.take_zero, List.cons_ne_nil, if_false,
        Option.some_inj, Prod.mk.injEq] at h
      exact ⟨c.toUpper, h.1.symm, isUpper_toUpper hc⟩
  · cases h

theorem isUpper_of_trailing {token s rest : List Char} (h : trailing token = some (s, rest)) :
    ∃ c : Char, s = [c] ∧ c.isUpper = true := by
  unfold trailing at h
  split_ifs at h with hat
  simp only at h
  split_ifs at h with htail
  obtain ⟨c, hc⟩ := List.length_eq_one_iff.mp htail.1
  rw [hc, List.all_cons, List.all_nil, Bool.and_true] at htail
  rw [hc, Option.some_inj, Prod.mk.injEq] at h
  exact ⟨c.toUpper, h.1.symm, isUpper_toUpper htail.2⟩

theorem Scan.Ok.token {st : Scan} (h : st.Ok) (d : DigitClass) (raw : List Char) :
    (st.token d raw).Ok := by
  have hrest : ∀ {st : Scan}, st.Ok → ∀ token : List Char,
      (match trailing token with
        | some (s, token) => (st.push d token).enter s
        | none => st.push d token).Ok := by
    intro st hst token
    cases htrailing : trailing token with
    | some r => exact (hst.push d r.2).enter (isUpper_of_trailing htrailing)
    | none => exact hst.push d token
  rw [Scan.token]
  cases hleading : leading ((trim raw).filter fun c => c ≠ '[' ∧ c ≠ ']') with
  | some r => exact hrest (h.enter (isUpper_of_leading hleading)) r.2
  | none => exact hrest h _

theorem ok_scan (d : DigitClass) (short : List Char) : (scan d short).Ok := by
  have hfold : ∀ (raws : List (List Char)) (st : Scan), st.Ok →
      (raws.foldl (Scan.token d) st).Ok := by
    intro raws
    induction raws with
    | nil => exact fun st h => h
    | cons raw raws ih => exact fun st h => ih _ (h.token d raw)
  exact hfold _ _ ⟨List.nodup_nil, by simp, .inl rfl, by simp, List.Pairwise.nil, by simp⟩

/-! ### The wagons -/

theorem position_wagonsOf (vs : List Vehicle) (n : ℕ) :
    (wagonsOf vs n).map Wagon.position = List.range' n (wagonsOf vs n).length := by
  induction vs generalizing n with
  | nil => rfl
  | cons v vs ih =>
    rw [wagonsOf]
    split_ifs
    · rw [List.map_cons, ih, List.length_cons, List.range'_succ]
      rfl
    · exact ih n

/-- A wagon is that of a vehicle, up to its flag. -/
theorem exists_of_mem_wagonsOf {vs : List Vehicle} {n : ℕ} {w : Wagon} (hw : w ∈ wagonsOf vs n) :
    ∃ v ∈ vs, ∃ position b, w = (v.wagon position).mark b := by
  induction vs generalizing n with
  | nil => exact absurd hw List.not_mem_nil
  | cons v vs ih =>
    rw [wagonsOf] at hw
    split_ifs at hw
    · rcases List.mem_cons.mp hw with rfl | hw
      · exact ⟨v, List.mem_cons_self, _, _, rfl⟩
      · obtain ⟨v', hv', h⟩ := ih hw
        exact ⟨v', List.mem_cons_of_mem _ hv', h⟩
    · obtain ⟨v', hv', h⟩ := ih hw
      exact ⟨v', List.mem_cons_of_mem _ hv', h⟩

theorem pairwise_wagonsOf {vs : List Vehicle}
    (h : vs.Pairwise fun v v' => v.sector ≠ [] → v'.sector ≠ []) (n : ℕ) :
    (wagonsOf vs n).Pairwise fun w w' => w.sector ≠ [] → w'.sector ≠ [] := by
  induction vs generalizing n with
  | nil => exact List.Pairwise.nil
  | cons v vs ih =>
    rw [List.pairwise_cons] at h
    rw [wagonsOf]
    split_ifs
    · refine List.pairwise_cons.mpr ⟨fun w hw => ?_, ih h.2 _⟩
      obtain ⟨v', hv', position, b, rfl⟩ := exists_of_mem_wagonsOf hw
      exact h.1 v' hv'
    · exact ih h.2 n

theorem sublist_features (v : Vehicle) : v.features.Sublist
    ["wheelchair", "restaurant", "family", "business", "low_floor", "bike"] := by
  have hif : ∀ (p : Prop) [Decidable p] (s : String), (if p then [s] else []).Sublist [s] := by
    intro p _ s
    split_ifs
    · exact List.Sublist.refl _
    · exact List.nil_sublist _
  exact ((((hif _ "wheelchair").append (hif _ "restaurant")).append (hif _ "family")).append
    (hif _ "business")).append (hif _ "low_floor") |>.append (hif _ "bike")

theorem carClass_of_mixedClass {v : Vehicle} (position : ℕ)
    (h : (v.wagon position).mixedClass = true) : (v.wagon position).carClass = 1 := by
  have hkind : String.ofList v.kind = "12" := of_decide_eq_true h
  show (if ["1", "W1", "12"].contains (String.ofList v.kind) then 1 else 2) = 1
  rw [hkind]
  rfl

theorem number_of_numberUnknown {v : Vehicle} (position : ℕ)
    (h : (v.wagon position).numberUnknown = true) :
    (v.wagon position).number = UInt32.ofNat position := by
  have hnone : v.number = none := Option.isNone_iff_eq_none.mp h
  show v.number.getD (UInt32.ofNat position) = _
  rw [hnone]
  rfl

theorem bike_mem_features {v : Vehicle} (h : v.has "VR" = true) : "bike" ∈ v.features := by
  have hbike : (v.has "VH" || v.has "VR") = true := by rw [h, Bool.or_true]
  rw [Vehicle.features, if_pos hbike]
  exact List.mem_append_right _ (List.mem_singleton_self _)

/-- Whatever the string is, the parser does not panic and its output is well formed. -/
theorem output_wellFormed (d : DigitClass) (short : List Char) :
    ∃ sectors wagons, parseChecked d short = some (sectors, wagons) ∧
      WellFormed sectors wagons := by
  have hchecked : parseChecked d short =
      some ((scan d short).sectors, wagonsOf (scan d short).vehicles 1) := by
    rw [parseChecked_eq, ← snd_parseFormationShortString]
    rfl
  refine ⟨_, _, hchecked, ?_⟩
  have hok := ok_scan d short
  have hwagon : ∀ {w}, w ∈ wagonsOf (scan d short).vehicles 1 →
      ∃ v ∈ (scan d short).vehicles, ∃ position b, w = (v.wagon position).mark b :=
    fun hw => exists_of_mem_wagonsOf hw
  refine ⟨position_wagonsOf _ 1, ?_, ?_, ?_, ?_, ?_, hok.nodup, hok.letter, ?_,
    pairwise_wagonsOf hok.later 1, fun w hw => noPassageAfter_getLast hw⟩
  · intro w hw
    obtain ⟨v, -, position, b, rfl⟩ := hwagon hw
    exact ite_eq_or_eq _ _ _
  · intro w hw hmixed
    obtain ⟨v, -, position, b, rfl⟩ := hwagon hw
    exact carClass_of_mixedClass position hmixed
  · intro w hw hunknown
    obtain ⟨v, -, position, b, rfl⟩ := hwagon hw
    exact number_of_numberUnknown position hunknown
  · intro w hw
    obtain ⟨v, -, position, b, rfl⟩ := hwagon hw
    exact sublist_features v
  · intro w hw hbike
    obtain ⟨v, -, position, b, rfl⟩ := hwagon hw
    exact bike_mem_features hbike
  · intro w hw
    obtain ⟨v, hv, position, b, rfl⟩ := hwagon hw
    exact hok.vehicles v hv

/-- A car of the second class, and nothing else. -/
def plainCar : PlatformVehicle := ⟨false, [], false, .second, false, none, []⟩

/-- The shortest token of a car, with no sector, bracket or space. -/
def plainToken : Token where
  item := ⟨none, some plainCar, none⟩
  body := ['2']
  body_eq := by decide
  before := 0
  after := 0

theorem placed_replicate (n : ℕ) :
    placed (List.replicate n plainToken.item) = List.replicate n (plainCar, []) := by
  induction n with
  | zero => rfl
  | succ n ih =>
    have hsector : sectorOf (List.replicate n plainToken.item) plainToken.item = [] := by
      have hentered : (List.replicate n plainToken.item).flatMap PlatformItem.entered = [] :=
        List.flatMap_eq_nil_iff.mpr fun i hi => by rw [List.eq_of_mem_replicate hi]; rfl
      rw [sectorOf, hentered]
      rfl
    have hvehicle : plainToken.item.vehicle = some plainCar := rfl
    rw [List.replicate_succ', placed_concat, ih, List.replicate_succ', hsector, hvehicle]
    rfl

/-- The last of some cars without a number. -/
theorem exists_wagon_replicate (d : DigitClass) (n : ℕ) :
    ∃ w ∈ (parseFormationShortString d (Token.render (List.replicate (n + 1) plainToken))).2,
      w.numberUnknown = true ∧ w.number = UInt32.ofNat (n + 1) ∧ w.position = n + 1 := by
  have hvehicles : (scan d (Token.render (List.replicate (n + 1) plainToken))).vehicles =
      List.replicate n (plainCar.vehicle []) ++ plainCar.vehicle [] :: [] := by
    rw [scan_render, List.map_replicate, foldl_advance, placed_replicate, List.map_replicate]
    exact List.replicate_succ'
  have hlength : ((List.replicate n (plainCar.vehicle [])).filter Vehicle.isPassenger).length = n := by
    rw [List.filter_replicate_of_pos (by decide), List.length_replicate]
  have hwagon := wagonsOf_append (List.replicate n (plainCar.vehicle [])) []
    (plainCar.vehicle []) (by decide) 1
  rw [hlength, Nat.add_comm 1 n] at hwagon
  have hmem := List.mem_of_getElem? hwagon
  rw [← hvehicles, ← snd_parseFormationShortString] at hmem
  exact ⟨_, hmem, rfl, rfl, rfl⟩

/-- After 2 ^ 32 cars without a number the number of a car is no longer its position. -/
theorem output_number_wraps :
    ∃ w ∈ (parseFormationShortString .asciiOnly
        (Token.render (List.replicate 4294967296 plainToken))).2,
      w.numberUnknown = true ∧ w.number.toNat ≠ w.position := by
  obtain ⟨n, hn⟩ : ∃ n, n + 1 = 4294967296 := ⟨4294967295, rfl⟩
  obtain ⟨w, hw, hunknown, hnumber, hposition⟩ := exists_wagon_replicate .asciiOnly n
  rw [hn] at hw hnumber hposition
  refine ⟨w, hw, hunknown, ?_⟩
  rw [hnumber, hposition]
  decide

end Traintime.Formation
