import Traintime.Lib.Json.Reader

/-!
# Records from JSON values

Strings, numbers, lists and records as the values that stand for them. A field of a record may be
there once, and other fields do not matter.

## Main definitions

* `Json.asString`, `Json.asBool`, `Json.asInt`, `Json.asNat`, `Json.asList`: what a value stands for.
* `Json.field?`, `Json.requiredField`, `Json.optionalField`: the fields of a record.

## Main results

* `Json.requiredField_of_mem`, `Json.optionalField_of_mem`, `Json.optionalField_of_notMem`: the
  fields of an object without repetitions.
* `Json.asList_arr_map`: a list is there again if its items are.
* `Json.depth_arr_map_le`: how deep a list of records is nested.
-/

namespace Json

variable {α : Type} {f : Value → Option α} {g : α → Value} {l : List α}

/-- The text of a value that is a string. -/
def asString : Value → Option (List Char)
  | .str s => some s
  | _ => none

/-- The Boolean of a value that is one. -/
def asBool : Value → Option Bool
  | .bool b => some b
  | _ => none

/-- An integer of a range. -/
def asInt (lo hi : ℤ) : Value → Option ℤ
  | .num n => (toInt? n).filter fun z => lo ≤ z ∧ z ≤ hi
  | _ => none

/-- The natural number of a numeral without a sign, a fraction and an exponent. -/
def asNat : Value → Option ℕ
  | .num n => (toInt? n).bind Int.toNat?
  | _ => none

/-- The items of an array, read one by one. There is no list if one of them cannot be read. -/
def asList (f : Value → Option α) : Value → Option (List α)
  | .arr l => l.mapM f
  | _ => none

/-- A value that may be `null`. -/
def orNull (f : Value → Option α) : Value → Option (Option α)
  | .null => some none
  | v => (f v).map some

/-- The field of a name, if there is one. There is no answer if there are more. -/
def field? (fields : List (List Char × Value)) (name : String) : Option (Option Value) :=
  match fields.filter (·.1 = name.toList) with
  | [] => some none
  | [x] => some (some x.2)
  | _ => none

/-- A field that must be there. -/
def requiredField (fields : List (List Char × Value)) (name : String) (f : Value → Option α) :
    Option α :=
  match field? fields name with
  | some (some v) => f v
  | _ => none

/-- A field that may be absent or `null`. -/
def optionalField (fields : List (List Char × Value)) (name : String) (f : Value → Option α) :
    Option (Option α) :=
  match field? fields name with
  | some (some v) => orNull f v
  | some none => some none
  | none => none

@[simp] theorem asInt_ofInt {lo hi n : ℤ} (hn : lo ≤ n ∧ n ≤ hi) :
    asInt lo hi (.num (ofInt n)) = some n := by
  simp [asInt, hn]

@[simp] theorem asNat_ofInt (n : ℕ) : asNat (.num (ofInt n)) = some n := by
  rw [asNat, toInt?_ofInt, Option.bind_some]
  rfl

/-! ### Objects without repetitions -/

section Fields

variable {fields : List (List Char × Value)} {name : String} {v : Value}

theorem field?_of_notMem (h : name.toList ∉ fields.map Prod.fst) :
    field? fields name = some none := by
  have hnone : fields.filter (·.1 = name.toList) = [] := by
    refine List.filter_eq_nil_iff.2 fun x hx => ?_
    rw [decide_eq_true_eq]
    exact fun heq => h (List.mem_map.2 ⟨x, hx, heq⟩)
  rw [field?, hnone]

theorem filter_eq_singleton (h : (fields.map Prod.fst).Nodup) (hv : (name.toList, v) ∈ fields) :
    fields.filter (·.1 = name.toList) = [(name.toList, v)] := by
  induction fields with
  | nil => cases hv
  | cons x fields ih =>
    rw [List.map_cons, List.nodup_cons] at h
    rcases List.mem_cons.1 hv with rfl | hv
    · rw [List.filter_cons_of_pos (by simp)]
      refine congrArg _ (List.filter_eq_nil_iff.2 fun y hy => ?_)
      rw [decide_eq_true_eq]
      exact fun heq => h.1 (List.mem_map.2 ⟨y, hy, heq⟩)
    · have hne : ¬x.1 = name.toList := fun heq =>
        h.1 (heq ▸ List.mem_map.2 ⟨(name.toList, v), hv, rfl⟩)
      rw [List.filter_cons_of_neg (by simpa using hne), ih h.2 hv]

theorem field?_of_mem (h : (fields.map Prod.fst).Nodup) (hv : (name.toList, v) ∈ fields) :
    field? fields name = some (some v) := by
  rw [field?, filter_eq_singleton h hv]

theorem requiredField_of_mem (h : (fields.map Prod.fst).Nodup) (hv : (name.toList, v) ∈ fields) :
    requiredField fields name f = f v := by
  rw [requiredField, field?_of_mem h hv]

theorem optionalField_of_mem (h : (fields.map Prod.fst).Nodup) (hv : (name.toList, v) ∈ fields) :
    optionalField fields name f = orNull f v := by
  rw [optionalField, field?_of_mem h hv]

theorem optionalField_of_notMem (h : name.toList ∉ fields.map Prod.fst) :
    optionalField fields name f = some none := by
  rw [optionalField, field?_of_notMem h]

end Fields

/-! ### Lists -/

/-- A list is there again if its items are. -/
theorem asList_arr_map (h : ∀ a ∈ l, f (g a) = some a) : asList f (.arr (l.map g)) = some l := by
  rw [asList, List.mapM_map]
  induction l with
  | nil => rfl
  | cons a l ih =>
    rw [List.mapM_cons, ih fun b hb => h b (List.mem_cons_of_mem a hb), Function.comp_apply,
      h a List.mem_cons_self]
    rfl

theorem depth_arr_map_le {d : ℕ} (h : ∀ a ∈ l, (g a).depth ≤ d) :
    (Value.arr (l.map g)).depth ≤ d + 1 := by
  rw [Value.depth]
  refine Nat.succ_le_succ ?_
  induction l with
  | nil => exact Nat.zero_le d
  | cons a l ih =>
    rw [List.map_cons, depthList]
    exact max_le (h a List.mem_cons_self) (ih fun b hb => h b (List.mem_cons_of_mem a hb))

end Json
