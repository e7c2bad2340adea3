import Mathlib.Data.Bool.AllAny
import Traintime.Core.Formation.ShortString

/-!
# The wagons of a formation string

The loop over the vehicles keeps a boundary pending until the next passenger car and then writes it
into the wagon before. What comes out of it is a wagon for each passenger car, which has no passage
after it when a boundary lies between it and the next one.

## Main definitions

* `Formation.Parted`: a boundary between a car and the next one, by the flags of the vehicles.
* `Formation.wagonsOf`: the wagons, each from its car and the vehicles behind it.

## Main results

* `Formation.snd_parseFormationShortString`: the loop returns these wagons.
* `Formation.barred_iff_parted`, `Formation.wagonsOf_append`: the flag of a car says whether a
  boundary follows it.
-/

namespace Traintime.Formation

/-! ### Boundaries -/

/-- Behind the car `v` there is a next one, and a boundary in between: the end of `v`, the beginning
of the next one, or an end of a vehicle that stands between them. -/
def Parted (v : Vehicle) (rest : List Vehicle) : Prop :=
  ∃ between next tail, rest = between ++ next :: tail ∧ (∀ m ∈ between, m.isPassenger = false) ∧
    next.isPassenger = true ∧
    (v.closes = true ∨ next.opens = true ∨ ∃ m ∈ between, m.opens = true ∨ m.closes = true)

/-- Whether the next vehicle has a boundary in front. -/
def nextOpens (vs : List Vehicle) : Bool := vs.head?.any Vehicle.opens

/-- Whether a boundary comes before the next car, when one is pending or not. -/
def barred : List Vehicle → Bool → Bool
  | [], _ => false
  | v :: vs, pending =>
    if v.isPassenger then pending else barred vs (pending || (v.closes || nextOpens vs))

/-- A boundary after a wagon. -/
def Wagon.mark (w : Wagon) (b : Bool) : Wagon :=
  { w with noPassageAfter := w.noPassageAfter || b }

@[simp] theorem Wagon.mark_false (w : Wagon) : w.mark false = w := by
  rw [Wagon.mark, Bool.or_false]

/-- The wagons of some vehicles, from a position on. -/
def wagonsOf : List Vehicle → ℕ → List Wagon
  | [], _ => []
  | v :: vs, n =>
    if v.isPassenger then
      (v.wagon n).mark (barred vs (v.closes || nextOpens vs)) ::
        wagonsOf vs (n + 1)
    else wagonsOf vs n

theorem setLast_concat (b : Bool) (ws : List Wagon) (w : Wagon) :
    setLast b (ws ++ [w]) = ws ++ [{ w with noPassageAfter := b }] := by
  rw [setLast, List.getLast?_concat]
  simp only [List.dropLast_concat]

/-- The last wagon gets the boundary that comes before the next one. -/
theorem wagonsFrom_concat {vs : List Vehicle} {pending : Bool}
    (hpending : nextOpens vs = true → pending = true) (ws : List Wagon) (w : Wagon) :
    wagonsFrom vs (ws ++ [w]) pending =
      ws ++ w.mark (barred vs pending) ::
        wagonsOf vs (ws.length + 2) := by
  induction vs generalizing ws w pending with
  | nil => simp [wagonsFrom, barred, wagonsOf]
  | cons v vs ih =>
    have hopens : v.opens = true → pending = true := hpending
    have hnext : ∀ p : Bool, nextOpens vs = true → (p || (v.closes || nextOpens vs)) = true := by
      intro p h
      rw [h, Bool.or_true, Bool.or_true]
    by_cases hv : v.isPassenger = true
    · have hmarked : (if pending || v.opens then setLast true (ws ++ [w]) else ws ++ [w]) =
          ws ++ [w.mark pending] := by
        cases hp : pending with
        | true => rw [Bool.true_or, if_pos rfl, setLast_concat, Wagon.mark, Bool.or_true]
        | false =>
          have hv' : v.opens = false := Bool.eq_false_iff.mpr fun h => by simp [hopens h] at hp
          rw [hv', Bool.or_false, if_neg Bool.false_ne_true, Wagon.mark, Bool.or_false]
      have hnext' : nextOpens vs = true → (v.closes || nextOpens vs) = true := hnext false
      have hrest := ih hnext' (ws ++ [w.mark pending]) (v.wagon (ws.length + 2))
      have hstep : wagonsFrom (v :: vs) (ws ++ [w]) pending =
          wagonsFrom vs (ws ++ [w.mark pending] ++ [v.wagon (ws.length + 2)])
            (v.closes || nextOpens vs) := by
        rw [wagonsFrom, if_pos hv, hmarked]
        simp only [List.length_append, List.length_singleton]
        rfl
      rw [hstep, hrest, barred, if_pos hv, wagonsOf, if_pos hv, List.append_assoc,
        List.length_append, List.singleton_append]
      rfl
    · have hstep : wagonsFrom (v :: vs) (ws ++ [w]) pending =
          wagonsFrom vs (ws ++ [w]) (pending || (v.closes || nextOpens vs)) := by
        rw [wagonsFrom, if_neg hv]
        rfl
      rw [hstep, ih (hnext pending), barred, if_neg hv, wagonsOf, if_neg hv]

theorem wagonsFrom_nil (vs : List Vehicle) (pending : Bool) :
    wagonsFrom vs [] pending = wagonsOf vs 1 := by
  induction vs generalizing pending with
  | nil => rfl
  | cons v vs ih =>
    by_cases hv : v.isPassenger = true
    · have hnext : nextOpens vs = true → (v.closes || nextOpens vs) = true := fun h => by
        rw [h, Bool.or_true]
      have hstep : wagonsFrom (v :: vs) [] pending =
          wagonsFrom vs ([] ++ [v.wagon 1]) (v.closes || nextOpens vs) := by
        have hmarked : (if pending || v.opens then setLast true [] else []) = [] := by
          split_ifs <;> rfl
        rw [wagonsFrom, if_pos hv, hmarked]
        rfl
      rw [hstep, wagonsFrom_concat hnext, wagonsOf, if_pos hv]
      rfl
    · rw [wagonsFrom, if_neg hv, ih, wagonsOf, if_neg hv]

/-- Behind the last car no boundary is pending. -/
theorem barred_eq_false_of_wagonsOf_eq_nil {vs : List Vehicle} {n : ℕ} (h : wagonsOf vs n = [])
    (pending : Bool) : barred vs pending = false := by
  induction vs generalizing pending with
  | nil => rfl
  | cons v vs ih =>
    rw [wagonsOf] at h
    split_ifs at h with hv
    rw [barred, if_neg hv]
    exact ih h _

theorem noPassageAfter_getLast {vs : List Vehicle} {n : ℕ} {w : Wagon}
    (h : (wagonsOf vs n).getLast? = some w) : w.noPassageAfter = false := by
  induction vs generalizing n with
  | nil => cases h
  | cons v vs ih =>
    rw [wagonsOf] at h
    split_ifs at h with hv
    · cases hrest : wagonsOf vs (n + 1) with
      | nil =>
        rw [hrest, List.getLast?_singleton, Option.some_inj] at h
        rw [← h]
        exact barred_eq_false_of_wagonsOf_eq_nil hrest _
      | cons w' ws =>
        rw [hrest, List.getLast?_cons_cons, ← hrest] at h
        exact ih h
    · exact ih h

/-- What the parser returns for the vehicles of a string. -/
theorem snd_parseFormationShortString (d : DigitClass) (short : List Char) :
    (parseFormationShortString d short).2 = wagonsOf (scan d short).vehicles 1 := by
  rw [parseFormationShortString, wagonsFrom_nil]
  show setLast false (wagonsOf (scan d short).vehicles 1) = _
  cases hlast : (wagonsOf (scan d short).vehicles 1).getLast? with
  | none =>
    rw [setLast, hlast]
  | some w =>
    obtain ⟨ws, hws⟩ := List.getLast?_eq_some_iff.mp hlast
    rw [hws, setLast_concat, ← noPassageAfter_getLast hlast]

/-! ### Flags -/

theorem opens_of_nextOpens {between tail : List Vehicle} {next : Vehicle}
    (h : nextOpens (between ++ next :: tail) = true) :
    next.opens = true ∨ ∃ m ∈ between, m.opens = true := by
  cases between with
  | nil => exact .inl h
  | cons m between => exact .inr ⟨m, List.mem_cons_self, h⟩

theorem barred_iff {vs : List Vehicle} {pending : Bool}
    (hpending : nextOpens vs = true → pending = true) :
    barred vs pending = true ↔ ∃ between next tail, vs = between ++ next :: tail ∧
      (∀ m ∈ between, m.isPassenger = false) ∧ next.isPassenger = true ∧
      (pending = true ∨ next.opens = true ∨ ∃ m ∈ between, m.opens = true ∨ m.closes = true) := by
  induction vs generalizing pending with
  | nil => simp [barred]
  | cons v vs ih =>
    have hopens : v.opens = true → pending = true := hpending
    by_cases hv : v.isPassenger = true
    · rw [barred, if_pos hv]
      constructor
      · intro h
        exact ⟨[], v, vs, rfl, fun m hm => absurd hm List.not_mem_nil, hv, .inl h⟩
      · rintro ⟨between, next, tail, heq, hbetween, -, h⟩
        cases between with
        | nil =>
          obtain ⟨rfl, -⟩ := List.cons.inj heq
          rcases h with h | h | ⟨m, hm, -⟩
          · exact h
          · exact hopens h
          · exact absurd hm List.not_mem_nil
        | cons m between =>
          obtain ⟨rfl, -⟩ := List.cons.inj heq
          rw [hbetween v List.mem_cons_self] at hv
          cases hv
    · rw [barred, if_neg hv, ih]
      · constructor
        · rintro ⟨between, next, tail, rfl, hbetween, hnext, h⟩
          refine ⟨v :: between, next, tail, rfl, ?_, hnext, ?_⟩
          · exact List.forall_mem_cons.mpr ⟨Bool.eq_false_iff.mpr hv, hbetween⟩
          · rcases h with h | h | ⟨m, hm, h⟩
            · rw [Bool.or_eq_true, Bool.or_eq_true] at h
              rcases h with h | h | h
              · exact .inl h
              · exact .inr (.inr ⟨v, List.mem_cons_self, .inr h⟩)
              · refine .inr ((opens_of_nextOpens h).imp_right ?_)
                rintro ⟨m, hm, hopens⟩
                exact ⟨m, List.mem_cons_of_mem _ hm, .inl hopens⟩
            · exact .inr (.inl h)
            · exact .inr (.inr ⟨m, List.mem_cons_of_mem _ hm, h⟩)
        · rintro ⟨between, next, tail, heq, hbetween, hnext, h⟩
          cases between with
          | nil =>
            obtain ⟨rfl, -⟩ := List.cons.inj heq
            exact absurd hnext hv
          | cons m between =>
            obtain ⟨rfl, rfl⟩ := List.cons.inj heq
            refine ⟨between, next, tail, rfl, fun m hm => hbetween m (List.mem_cons_of_mem _ hm),
              hnext, ?_⟩
            rcases h with h | h | ⟨m, hm, h⟩
            · exact .inl (by rw [h, Bool.true_or])
            · exact .inr (.inl h)
            · rcases List.mem_cons.mp hm with rfl | hm
              · left
                rcases h with h | h
                · rw [hopens h, Bool.true_or]
                · rw [h, Bool.true_or, Bool.or_true]
              · exact .inr (.inr ⟨m, hm, h⟩)
      · intro h
        rw [h, Bool.or_true, Bool.or_true]

theorem barred_iff_parted (v : Vehicle) (rest : List Vehicle) :
    barred rest (v.closes || nextOpens rest) = true ↔ Parted v rest := by
  rw [barred_iff (fun h => by rw [h, Bool.or_true]), Parted]
  refine exists_congr fun between => exists_congr fun next => exists_congr fun tail =>
    and_congr_right fun heq => and_congr_right fun _ => and_congr_right fun _ => ?_
  rw [Bool.or_eq_true, or_assoc]
  refine or_congr_right ⟨fun h => h.elim (fun hopens => ?_) id, .inr⟩
  rw [heq] at hopens
  refine (opens_of_nextOpens hopens).imp_right ?_
  rintro ⟨m, hm, hm'⟩
  exact ⟨m, hm, .inl hm'⟩

/-- The wagon of a car. -/
theorem wagonsOf_append (done rest : List Vehicle) (v : Vehicle) (hv : v.isPassenger = true) (n : ℕ) :
    (wagonsOf (done ++ v :: rest) n)[(done.filter Vehicle.isPassenger).length]? =
      some ((v.wagon (n + (done.filter Vehicle.isPassenger).length)).mark
        (barred rest (v.closes || nextOpens rest))) := by
  induction done generalizing n with
  | nil =>
    rw [List.nil_append, wagonsOf, if_pos hv]
    rfl
  | cons u done ih =>
    rw [List.cons_append, wagonsOf]
    by_cases hu : u.isPassenger = true
    · rw [if_pos hu, List.filter_cons_of_pos hu, List.length_cons, List.getElem?_cons_succ, ih,
        Nat.add_right_comm, Nat.add_assoc]
    · rw [if_neg hu, List.filter_cons_of_neg hu, ih]

theorem length_wagonsOf (vs : List Vehicle) (n : ℕ) :
    (wagonsOf vs n).length = (vs.filter Vehicle.isPassenger).length := by
  induction vs generalizing n with
  | nil => rfl
  | cons v vs ih =>
    rw [wagonsOf]
    split_ifs with hv
    · rw [List.length_cons, ih, List.filter_cons_of_pos hv, List.length_cons]
    · rw [ih, List.filter_cons_of_neg hv]

/-- A wagon without what its neighbours say of it. -/
def Wagon.alone (w : Wagon) : Wagon := { w with noPassageAfter := false }

/-- Each car has its wagon, and only the flag depends on the neighbours. -/
theorem map_alone_wagonsOf (vs : List Vehicle) (n : ℕ) :
    (wagonsOf vs n).map Wagon.alone =
      ((vs.filter Vehicle.isPassenger).zipIdx n).map fun e => e.1.wagon e.2 := by
  induction vs generalizing n with
  | nil => rfl
  | cons v vs ih =>
    rw [wagonsOf]
    split_ifs with hv
    · rw [List.map_cons, ih, List.filter_cons_of_pos hv, List.zipIdx_cons, List.map_cons]
      rfl
    · rw [ih, List.filter_cons_of_neg hv]

end Traintime.Formation
