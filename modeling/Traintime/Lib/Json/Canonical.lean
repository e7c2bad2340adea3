import Traintime.Lib.Json.Decode

/-!
# JSON values as maps

Values whose objects are maps: of the fields of one name the last one counts, and they are written in
the order of their names.

## Main definitions

* `Json.insertField`, `Json.mapOf`: a map from fields.
* `Json.Value.canonical`: the value with maps for its objects.
* `Json.Value.get?`: a field of a map.

## Main results

* `Json.mapOf_perm`: fields of different names are the entries of their map.
* `Json.field?_perm`: their order does not matter for a record.
* `Json.requiredField_canonical`, `Json.optionalField_canonical`: the fields of a canonical object.
* `Json.Value.depth_canonical_le`: maps are not nested deeper.
-/

namespace Json

/-- A name and its value, as they stand in an object. -/
abbrev Field := List Char × Value

/-- An entry of a map, in its place or instead of the old one. -/
def insertField (x : Field) : List Field → List Field
  | [] => [x]
  | y :: m =>
    if x.1 = y.1 then x :: m else if x.1 < y.1 then x :: y :: m else y :: insertField x m

/-- The map of some fields. -/
def mapOf (fields : List Field) : List Field := fields.foldl (fun m x => insertField x m) []

mutual

/-- The value with maps for its objects. -/
def Value.canonical : Value → Value
  | .arr l => .arr (canonicalList l)
  | .obj fields => .obj (mapOf (canonicalFields fields))
  | v => v

/-- The values of an array with maps for their objects, in the same order. -/
def canonicalList : List Value → List Value
  | [] => []
  | v :: vs => v.canonical :: canonicalList vs

/-- The fields of an object with maps for the objects in them. Their own order and repetitions stay.
-/
def canonicalFields : List Field → List Field
  | [] => []
  | (name, v) :: fields => (name, v.canonical) :: canonicalFields fields

end

/-- A field of a map. -/
def Value.get? (name : String) : Value → Option Value
  | .obj fields => (fields.reverse.find? (·.1 = name.toList)).map Prod.snd
  | _ => none

variable {fields fields' : List Field} {x : Field} {name : String}

/-! ### Maps -/

theorem insertField_perm (h : x.1 ∉ fields.map Prod.fst) :
    (insertField x fields).Perm (x :: fields) := by
  induction fields with
  | nil => exact List.Perm.refl _
  | cons y m ih =>
    rw [List.map_cons, List.mem_cons, not_or] at h
    rw [insertField, if_neg h.1]
    split_ifs
    · exact List.Perm.refl _
    · exact ((ih h.2).cons y).trans (List.Perm.swap x y m)

theorem foldl_insertField_perm {m : List Field}
    (h : ((m ++ fields).map Prod.fst).Nodup) :
    (fields.foldl (fun m x => insertField x m) m).Perm (m ++ fields) := by
  induction fields generalizing m with
  | nil => simp
  | cons x fields ih =>
    have hx : x.1 ∉ m.map Prod.fst := by
      rw [List.map_append, List.map_cons, List.nodup_middle, List.nodup_cons] at h
      exact fun hmem => h.1 (List.mem_append_left _ hmem)
    have hperm : (insertField x m ++ fields).Perm (m ++ x :: fields) :=
      ((insertField_perm hx).append_right fields).trans List.perm_middle.symm
    exact (ih ((hperm.map Prod.fst).nodup_iff.2 h)).trans hperm

/-- Fields of different names are the entries of their map. -/
theorem mapOf_perm (h : (fields.map Prod.fst).Nodup) : (mapOf fields).Perm fields :=
  foldl_insertField_perm (m := []) h

theorem mem_insertField {y : Field} (hy : y ∈ insertField x fields) : y = x ∨ y ∈ fields := by
  induction fields with
  | nil => exact .inl (List.mem_singleton.1 hy)
  | cons z m ih =>
    rw [insertField] at hy
    split_ifs at hy
    · exact (List.mem_cons.1 hy).imp id (List.mem_cons_of_mem z)
    · exact List.mem_cons.1 hy
    · rcases List.mem_cons.1 hy with rfl | hy
      · exact .inr List.mem_cons_self
      · exact (ih hy).imp id (List.mem_cons_of_mem z)

/-- A map has no other entries. -/
theorem mem_of_mem_mapOf (h : x ∈ mapOf fields) : x ∈ fields := by
  induction fields using List.reverseRecOn with
  | nil => exact h
  | append_singleton fields y ih =>
    rw [mapOf, List.foldl_append] at h
    rcases mem_insertField h with rfl | h
    · simp
    · exact List.mem_append_left _ (ih h)

/-! ### Records -/

/-- The order of fields does not matter for a record. -/
theorem field?_perm (h : fields.Perm fields') : field? fields name = field? fields' name := by
  have hfilter := h.filter (·.1 = name.toList)
  unfold field?
  generalize fields.filter (·.1 = name.toList) = l at hfilter
  generalize fields'.filter (·.1 = name.toList) = l' at hfilter
  match l, l', hfilter with
  | [], l', hfilter => rw [List.nil_perm.1 hfilter]
  | [a], l', hfilter => rw [List.singleton_perm.1 hfilter]
  | a :: b :: l, l', hfilter =>
    match l', hfilter with
    | [], hfilter => simpa using hfilter.length_eq
    | [c], hfilter => simpa using hfilter.length_eq
    | c :: d :: l', _ => rfl

theorem requiredField_perm {α : Type} {f : Value → Option α} (h : fields.Perm fields') :
    requiredField fields name f = requiredField fields' name f := by
  rw [requiredField, requiredField, field?_perm h]

theorem optionalField_perm {α : Type} {f : Value → Option α} (h : fields.Perm fields') :
    optionalField fields name f = optionalField fields' name f := by
  rw [optionalField, optionalField, field?_perm h]

/-! ### Canonical values -/

theorem canonicalList_eq_map (l : List Value) : canonicalList l = l.map Value.canonical := by
  induction l with
  | nil => rfl
  | cons v l ih => rw [canonicalList, ih, List.map_cons]

theorem canonicalFields_eq_map (fields : List Field) :
    canonicalFields fields = fields.map fun x => (x.1, x.2.canonical) := by
  induction fields with
  | nil => rfl
  | cons x fields ih => rw [canonicalFields, ih, List.map_cons]

theorem names_canonicalFields (fields : List Field) :
    (canonicalFields fields).map Prod.fst = fields.map Prod.fst := by
  rw [canonicalFields_eq_map, List.map_map]
  rfl

theorem mapOf_canonicalFields_perm (h : (fields.map Prod.fst).Nodup) :
    (mapOf (canonicalFields fields)).Perm (canonicalFields fields) :=
  mapOf_perm (by rwa [names_canonicalFields])

section CanonicalFields

variable {α : Type} {f : Value → Option α} {v : Value} (h : (fields.map Prod.fst).Nodup)

include h

theorem nodup_mapOf_canonicalFields : ((mapOf (canonicalFields fields)).map Prod.fst).Nodup := by
  rw [((mapOf_canonicalFields_perm h).map Prod.fst).nodup_iff, names_canonicalFields]
  exact h

theorem mem_mapOf_canonicalFields (hv : (name.toList, v) ∈ fields) :
    (name.toList, v.canonical) ∈ mapOf (canonicalFields fields) := by
  rw [(mapOf_canonicalFields_perm h).mem_iff, canonicalFields_eq_map]
  exact List.mem_map.2 ⟨(name.toList, v), hv, rfl⟩

theorem optionalField_canonical (hv : (name.toList, v) ∈ fields) :
    optionalField (mapOf (canonicalFields fields)) name f = orNull f v.canonical :=
  optionalField_of_mem (nodup_mapOf_canonicalFields h) (mem_mapOf_canonicalFields h hv)

theorem optionalField_canonical_none (hname : name.toList ∉ fields.map Prod.fst) :
    optionalField (mapOf (canonicalFields fields)) name f = some none := by
  refine optionalField_of_notMem ?_
  rwa [((mapOf_canonicalFields_perm h).map Prod.fst).mem_iff, names_canonicalFields]

end CanonicalFields

/-- A field of a canonical object. -/
theorem requiredField_canonical {α : Type} (f : Value → Option α) (name : String) {v : Value}
    (h : (fields.map Prod.fst).Nodup) (hv : (name.toList, v) ∈ fields) :
    requiredField (mapOf (canonicalFields fields)) name f = f v.canonical :=
  requiredField_of_mem (nodup_mapOf_canonicalFields h) (mem_mapOf_canonicalFields h hv)

/-- A list of values is canonical if they are. -/
theorem canonical_arr_map {α : Type} (g : α → Value) (l : List α) :
    (Value.arr (l.map g)).canonical = .arr (l.map fun a => (g a).canonical) := by
  rw [Value.canonical, canonicalList_eq_map, List.map_map]
  rfl

theorem depthList_le {l : List Value} {d : ℕ} (h : ∀ v ∈ l, v.depth ≤ d) : depthList l ≤ d := by
  induction l with
  | nil => exact Nat.zero_le d
  | cons v l ih =>
    exact max_le (h v List.mem_cons_self) (ih fun w hw => h w (List.mem_cons_of_mem v hw))

theorem depthFields_le {d : ℕ} (h : ∀ x ∈ fields, x.2.depth ≤ d) : depthFields fields ≤ d := by
  induction fields with
  | nil => exact Nat.zero_le d
  | cons x fields ih =>
    exact max_le (h x List.mem_cons_self) (ih fun y hy => h y (List.mem_cons_of_mem x hy))

/-- Maps are not nested deeper. -/
theorem Value.depth_canonical_le (v : Value) : v.canonical.depth ≤ v.depth := by
  induction v using Value.induct with
  | arr l ih =>
    rw [canonical, depth, depth, canonicalList_eq_map]
    refine Nat.succ_le_succ (depthList_le fun w hw => ?_)
    obtain ⟨u, hu, rfl⟩ := List.mem_map.1 hw
    exact (ih u hu).trans (depth_le_depthList hu)
  | obj fields ih =>
    rw [canonical, depth, depth, canonicalFields_eq_map]
    refine Nat.succ_le_succ (depthFields_le fun x hx => ?_)
    obtain ⟨y, hy, rfl⟩ := List.mem_map.1 (mem_of_mem_mapOf hx)
    exact (ih y hy).trans (depth_le_depthFields hy)
  | _ => exact le_rfl

/-- The text of a canonical value is read again. -/
theorem read_text_canonical {v : Value} (hd : v.depth ≤ 127) :
    read v.canonical.text = some v.canonical :=
  read_text (v.depth_canonical_le.trans hd)

end Json
