import Traintime.Core.Formation

/-!
# The cache keys of the routes

What the handlers accept (`server/src/routes/formation.rs`, `server/src/routes/departures.rs` and
the same functions of the Worker) and the keys their payloads are cached under. The parts of a key
are joined with colons as the client gave them.

## Main definitions

* `acceptFormation`, `acceptDepartures`: the checks of the handlers, which are those of the Worker.
* `formationKey`, `departuresKey`: the cache keys.
* `Isolated`: the requests without a colon in the wrong place and without the word for no stop.
* `HasOwnKey`: the requests whose key no other request has.

## Main results

* `eq_of_formationKey_eq`: an isolated request has its key to itself.
* `HasOwnKey.isolated`: no other request does.
* `keys_identify`: what the cache keys identify.
-/

namespace Traintime

/-! ### What the handlers accept -/

/-- A request that a handler does not accept. -/
structure Rejection where
  status : ℕ
  error : String
deriving DecidableEq, Repr

/-- `FormationQuery`: the query of `/v1/formation`, each parameter as far as the client gives it. -/
structure FormationQuery where
  train : Option String
  date : Option String
  stop : Option String
  evu : Option String
  operatorRef : Option String
deriving DecidableEq, Repr

/-- What the formation API is asked, and the stop that is selected from its answer. -/
@[ext] structure FormationRequest where
  evu : String
  date : String
  trainNumber : String
  stop : Option String
  date_ne : date ≠ ""
  isTrainNumber : IsTrainNumber trainNumber
deriving DecidableEq

/-- A parameter that has to be there and not empty. -/
def require (param : Option String) (error : String) : Except Rejection {s : String // s ≠ ""} :=
  match param with
  | some s => if h : s ≠ "" then .ok ⟨s, h⟩ else .error ⟨400, error⟩
  | none => .error ⟨400, error⟩

/-- The undertaking of a query: as given, by its operator reference, or SBB. -/
def FormationQuery.resolveEvu (q : FormationQuery) : Except Rejection String :=
  match q.evu, q.operatorRef with
  | some e, _ => .ok e
  | none, some op =>
    match operatorRefToEvu op with
    | some mapped => .ok mapped
    | none => .error ⟨404, "No formation data"⟩
  | none, none => .ok "SBBP"

/-- The checks of `handle_formation` in the order of the source, and the request that it goes on
with. -/
def acceptFormation (q : FormationQuery) : Except Rejection FormationRequest := do
  let trainRaw ← require q.train "Missing train parameter"
  let date ← require q.date "Missing date parameter"
  if h : extractTrainNumber trainRaw ≠ "" then
    let evu ← q.resolveEvu
    return ⟨evu, date, extractTrainNumber trainRaw, q.stop, date.2,
      isTrainNumber_extractTrainNumber h⟩
  else throw ⟨400, "Invalid train number"⟩

/-- The check of `handle_departures`, that there is an id. -/
def acceptDepartures (id : Option String) : Except Rejection String :=
  match id with
  | some id => .ok id
  | none => .error ⟨400, "Missing id parameter"⟩

/-! ### The keys -/

/-- The stop in a key, where `all` stands for none. -/
def FormationRequest.stopKey (r : FormationRequest) : String := r.stop.getD "all"

/-- The cache key of a formation, its four parts joined with colons. -/
def formationKey (r : FormationRequest) : String :=
  "formation:" ++ r.evu ++ ":" ++ r.date ++ ":" ++ r.trainNumber ++ ":" ++ r.stopKey

/-- The cache key of the departures of a station, also in `handle_nearby`. -/
def departuresKey (stationId : String) : String := "departures:" ++ stationId ++ ":" ++ "50"

/-- The stop is given and is not the word for an absent one, and no part has a colon, except the
date as its last character. -/
structure Isolated (r : FormationRequest) : Prop where
  stop : ∃ s, r.stop = some s ∧ s ≠ "all" ∧ ':' ∉ s.toList
  evu : ':' ∉ r.evu.toList
  trainNumber : ':' ∉ r.trainNumber.toList
  date : ':' ∉ r.date.toList.dropLast

variable {r r' : FormationRequest}

/-- Every request comes from a query. -/
theorem FormationRequest.accepted (r : FormationRequest) :
    acceptFormation ⟨some r.trainNumber, some r.date, r.stop, some r.evu, none⟩ = .ok r := by
  have hself := extractTrainNumber_eq_self r.isTrainNumber
  have hne := r.isTrainNumber.ne_empty
  simp [acceptFormation, require, FormationQuery.resolveEvu, hself, hne, r.date_ne, bind,
    Except.bind, pure, Except.pure]

theorem toList_departuresKey (id : String) :
    (departuresKey id).toList = "departures:".toList ++ (id.toList ++ ":50".toList) := by
  delta departuresKey
  simp

theorem toList_formationKey (r : FormationRequest) :
    (formationKey r).toList = "formation:".toList ++ (r.evu.toList ++ ':' :: (r.date.toList ++
      ':' :: (r.trainNumber.toList ++ ':' :: r.stopKey.toList))) := by
  delta formationKey
  simp

theorem departuresKey_injective : Function.Injective departuresKey := by
  intro id id' h
  have hlist := congrArg String.toList h
  rw [toList_departuresKey, toList_departuresKey] at hlist
  exact String.toList_inj.1 (List.append_cancel_right (List.append_cancel_left hlist))

theorem formationKey_ne_departuresKey (r : FormationRequest) (id : String) :
    formationKey r ≠ departuresKey id := by
  intro h
  have hhead := congrArg (fun s => s.toList.head?) h
  simp [toList_formationKey, toList_departuresKey] at hhead

/-- Two keys are the same if their parts joined with colons are. -/
theorem formationKey_eq_iff :
    formationKey r' = formationKey r ↔
      r'.evu.toList ++ ':' :: (r'.date.toList ++ ':' :: (r'.trainNumber.toList ++
        ':' :: r'.stopKey.toList)) =
      r.evu.toList ++ ':' :: (r.date.toList ++ ':' :: (r.trainNumber.toList ++
        ':' :: r.stopKey.toList)) := by
  rw [← String.toList_inj, toList_formationKey, toList_formationKey, List.append_cancel_left_eq]

/-! ### Requests with a key of their own -/

theorem eq_of_splitOn_eq {s t : String} (h : s.toList.splitOn ':' = t.toList.splitOn ':') :
    s = t := by
  have hjoin : [':'].intercalate (s.toList.splitOn ':') = s.toList := List.intercalate_splitOn ':'
  rw [h, List.intercalate_splitOn] at hjoin
  exact String.toList_inj.1 hjoin.symm

theorem splitOn_ne_of_ne_empty {s : String} (hs : s ≠ "") : s.toList.splitOn ':' ≠ [[]] := fun h =>
  hs (eq_of_splitOn_eq (t := "") h)

/-- A train number does not begin with a colon. -/
theorem IsTrainNumber.splitOn_ne {s : String} (hs : IsTrainNumber s) (l : List (List Char)) :
    s.toList.splitOn ':' ≠ [] :: l := by
  intro h
  obtain ⟨c, hc, hdigit⟩ := hs
  obtain ⟨cs, hcs⟩ : ∃ cs, s.toList = c :: cs := List.head?_eq_some_iff.1 hc
  have hcolon : (c == ':') = false := by
    rw [beq_eq_false_iff_ne]
    rintro rfl
    cases hdigit
  rw [hcs, List.splitOn_cons_eq_if_modifyHead, hcolon] at h
  obtain ⟨p, ps, hp⟩ := List.exists_cons_of_ne_nil (List.splitOn_ne_nil ':' cs)
  simp [hp] at h

/-- The date of an isolated request, cut at its colons. -/
theorem Isolated.splitOn_date (h : Isolated r) :
    (∃ d, r.date.toList.splitOn ':' = [d]) ∨ ∃ d, r.date.toList.splitOn ':' = [d, []] := by
  by_cases hcolon : ':' ∈ r.date.toList
  · have hne : r.date.toList ≠ [] := List.ne_nil_of_mem hcolon
    have hlast : r.date.toList.getLast hne = ':' := by
      by_contra hlast
      rw [← List.dropLast_concat_getLast hne, List.mem_append] at hcolon
      rcases hcolon with hcolon | hcolon
      · exact h.date hcolon
      · exact hlast (List.mem_singleton.1 hcolon).symm
    refine .inr ⟨r.date.toList.dropLast, ?_⟩
    conv_lhs => rw [← List.dropLast_concat_getLast hne, hlast]
    rw [List.splitOn_append_cons_self, List.splitOn_eq_singleton h.date]
    rfl
  · exact .inl ⟨_, List.splitOn_eq_singleton hcolon⟩

/-- The absent stop and the given ones have different words in the key. -/
theorem stop_eq_of_stopKey_eq (h : Isolated r) (hkey : r'.stopKey = r.stopKey) :
    r'.stop = r.stop := by
  obtain ⟨s, hs, hall, -⟩ := h.stop
  rw [FormationRequest.stopKey, FormationRequest.stopKey, hs, Option.getD_some] at hkey
  cases hstop : r'.stop with
  | none => exact absurd (by simpa [hstop] using hkey.symm) hall
  | some s' => rw [hs, ← hkey, hstop, Option.getD_some]

/-- The segments of a key fall into its parts in one way only, if the date gives one or two of them
and all other parts one. -/
theorem segments_unique {E D N S Ds : List (List Char)} {e n s : List Char}
    (hE : E ≠ []) (hD : D ≠ []) (hN : N ≠ []) (hS : S ≠ []) (hdate : D ≠ [[]])
    (hnum : ∀ l, N ≠ [] :: l) (hDs : (∃ d, Ds = [d]) ∨ ∃ d, Ds = [d, []])
    (h : E ++ (D ++ (N ++ S)) = [e] ++ (Ds ++ ([n] ++ [s]))) :
    E = [e] ∧ D = Ds ∧ N = [n] ∧ S = [s] := by
  obtain ⟨e', es, rfl⟩ := List.exists_cons_of_ne_nil hE
  obtain ⟨d', ds, rfl⟩ := List.exists_cons_of_ne_nil hD
  obtain ⟨n', ns, rfl⟩ := List.exists_cons_of_ne_nil hN
  obtain ⟨s', ss, rfl⟩ := List.exists_cons_of_ne_nil hS
  have hlen := congrArg List.length h
  simp only [List.length_append, List.length_cons, List.length_nil] at hlen
  rcases hDs with ⟨d, rfl⟩ | ⟨d, rfl⟩
  · obtain ⟨rfl, rfl, rfl, rfl⟩ : es = [] ∧ ds = [] ∧ ns = [] ∧ ss = [] := by
      simp only [← List.length_eq_zero_iff, List.length_cons, List.length_nil] at hlen ⊢
      omega
    simpa using h
  · simp only [List.length_cons, List.length_nil] at hlen
    -- one part has the segment too many; only the date can have it
    rcases es with _ | ⟨e₁, es⟩
    · rcases ds with _ | ⟨d₁, ds⟩
      · have hn : n' = [] := by
          simp only [List.cons_append, List.nil_append, List.cons.injEq] at h
          exact h.2.2.1
        exact absurd (by rw [hn]) (hnum ns)
      · obtain ⟨rfl, rfl, rfl⟩ : ds = [] ∧ ns = [] ∧ ss = [] := by
          simp only [← List.length_eq_zero_iff, List.length_cons] at hlen ⊢
          omega
        simpa [and_assoc] using h
    · obtain ⟨rfl, rfl⟩ : es = [] ∧ ds = [] := by
        simp only [← List.length_eq_zero_iff, List.length_cons] at hlen ⊢
        omega
      have hd : d' = [] := by
        simp only [List.cons_append, List.nil_append, List.cons.injEq] at h
        exact h.2.2.1
      exact absurd (by rw [hd]) hdate

/-- An isolated request has its key to itself. -/
theorem eq_of_formationKey_eq (h : Isolated r) (hkey : formationKey r' = formationKey r) :
    r' = r := by
  have hsplit := congrArg (List.splitOn ':') (formationKey_eq_iff.1 hkey)
  have hstop : ':' ∉ r.stopKey.toList := by
    obtain ⟨s, hs, -, hcolon⟩ := h.stop
    rwa [FormationRequest.stopKey, hs]
  simp only [List.splitOn_append_cons_self] at hsplit
  have hevu := List.splitOn_eq_singleton h.evu
  have hnum := List.splitOn_eq_singleton h.trainNumber
  have hstop := List.splitOn_eq_singleton hstop
  rw [hevu, hnum, hstop] at hsplit
  obtain ⟨he, hd, hn, hs⟩ := segments_unique (List.splitOn_ne_nil _ _) (List.splitOn_ne_nil _ _)
    (List.splitOn_ne_nil _ _) (List.splitOn_ne_nil _ _) (splitOn_ne_of_ne_empty r'.date_ne)
    r'.isTrainNumber.splitOn_ne h.splitOn_date hsplit
  ext1
  · exact eq_of_splitOn_eq (he.trans hevu.symm)
  · exact eq_of_splitOn_eq hd
  · exact eq_of_splitOn_eq (hn.trans hnum.symm)
  · exact stop_eq_of_stopKey_eq h (eq_of_splitOn_eq (hs.trans hstop.symm))

/-! ### Requests that share their key -/

/-- No other request has the key of the request. -/
def HasOwnKey (r : FormationRequest) : Prop := ∀ r', formationKey r' = formationKey r → r' = r

theorem exists_append_of_mem {s : String} (h : ':' ∈ s.toList) :
    ∃ a b : String, s.toList = a.toList ++ ':' :: b.toList := by
  obtain ⟨a, b, hab⟩ := List.append_of_mem h
  exact ⟨String.ofList a, String.ofList b, by simpa using hab⟩

theorem exists_append_of_mem_dropLast {s : String} (h : ':' ∈ s.toList.dropLast) :
    ∃ a b : String, b ≠ "" ∧ s.toList = a.toList ++ ':' :: b.toList := by
  obtain ⟨a, b, hab⟩ := List.append_of_mem h
  have hne : s.toList ≠ [] := by
    intro hnil
    rw [hnil] at h
    cases h
  refine ⟨String.ofList a, String.ofList (b ++ [s.toList.getLast hne]), by simp, ?_⟩
  conv_lhs => rw [← List.dropLast_concat_getLast hne, hab]
  simp

theorem append_colon_ne (s t : String) : s ++ ":" ++ t ≠ s := by
  intro h
  have hlen := congrArg (fun s => s.toList.length) h
  simp at hlen

/-- A shorter part is another one. -/
theorem ne_of_toList_eq_append {s a b : String} (h : s.toList = a.toList ++ ':' :: b.toList) :
    a ≠ s := by
  rintro rfl
  simpa using congrArg List.length h

theorem IsTrainNumber.of_append {s a b : String} (hs : IsTrainNumber s)
    (h : s.toList = a.toList ++ ':' :: b.toList) : IsTrainNumber a := by
  obtain ⟨c, hc, hdigit⟩ := hs
  rw [h] at hc
  cases ha : a.toList with
  | nil =>
    obtain rfl : ':' = c := by simpa [ha] using hc
    cases hdigit
  | cons x xs =>
    obtain rfl : x = c := by simpa [ha] using hc
    exact ⟨x, by rw [ha]; rfl, hdigit⟩

theorem HasOwnKey.evu (h : HasOwnKey r) : ':' ∉ r.evu.toList := by
  intro hcolon
  obtain ⟨a, b, hab⟩ := exists_append_of_mem hcolon
  have hne : b ++ ":" ++ r.date ≠ "" := by simp
  refine ne_of_toList_eq_append hab (congrArg FormationRequest.evu
    (h ⟨a, b ++ ":" ++ r.date, r.trainNumber, r.stop, hne, r.isTrainNumber⟩ ?_))
  rw [formationKey_eq_iff, hab]
  simp [FormationRequest.stopKey]

theorem HasOwnKey.trainNumber (h : HasOwnKey r) : ':' ∉ r.trainNumber.toList := by
  intro hcolon
  obtain ⟨a, b, hab⟩ := exists_append_of_mem hcolon
  have hnum : IsTrainNumber a := r.isTrainNumber.of_append hab
  refine ne_of_toList_eq_append hab (congrArg FormationRequest.trainNumber
    (h ⟨r.evu, r.date, a, some (b ++ ":" ++ r.stopKey), r.date_ne, hnum⟩ ?_))
  rw [formationKey_eq_iff, hab]
  simp [FormationRequest.stopKey]

theorem HasOwnKey.date (h : HasOwnKey r) : ':' ∉ r.date.toList.dropLast := by
  intro hcolon
  obtain ⟨a, b, hb, hab⟩ := exists_append_of_mem_dropLast hcolon
  refine append_colon_ne r.evu a (congrArg FormationRequest.evu
    (h ⟨r.evu ++ ":" ++ a, b, r.trainNumber, r.stop, hb, r.isTrainNumber⟩ ?_))
  rw [formationKey_eq_iff, hab]
  simp [FormationRequest.stopKey]

theorem HasOwnKey.stop (h : HasOwnKey r) :
    ∃ s, r.stop = some s ∧ s ≠ "all" ∧ ':' ∉ s.toList := by
  cases hstop : r.stop with
  | none =>
    have hall := congrArg FormationRequest.stop
      (h ⟨r.evu, r.date, r.trainNumber, some "all", r.date_ne, r.isTrainNumber⟩ (by
        simp [formationKey_eq_iff, FormationRequest.stopKey, hstop]))
    simp [hstop] at hall
  | some s =>
    refine ⟨s, rfl, ?_, fun hcolon => ?_⟩
    · rintro rfl
      have hnone := congrArg FormationRequest.stop
        (h ⟨r.evu, r.date, r.trainNumber, none, r.date_ne, r.isTrainNumber⟩ (by
        simp [formationKey_eq_iff, FormationRequest.stopKey, hstop]))
      simp [hstop] at hnone
    · obtain ⟨a, b, hab⟩ := exists_append_of_mem hcolon
      have hnum : IsTrainNumber (r.trainNumber ++ ":" ++ a) :=
        (r.isTrainNumber.append ":").append a
      refine append_colon_ne r.trainNumber a (congrArg FormationRequest.trainNumber
        (h ⟨r.evu, r.date, r.trainNumber ++ ":" ++ a, some b, r.date_ne, hnum⟩ ?_))
      have hkey : r.stopKey = s := by rw [FormationRequest.stopKey, hstop, Option.getD_some]
      rw [formationKey_eq_iff, hkey, hab]
      simp [FormationRequest.stopKey]

/-- Only an isolated request has its key to itself. -/
theorem HasOwnKey.isolated (h : HasOwnKey r) : Isolated r :=
  ⟨h.stop, h.evu, h.trainNumber, h.date⟩

/-- **What the cache keys identify.** Departures are identified by their key, also against
formations. A formation that is accepted is identified by its key if and only if it is isolated. -/
theorem keys_identify (r : FormationRequest) :
    Function.Injective departuresKey ∧
    (∀ stationId, formationKey r ≠ departuresKey stationId) ∧
    (∃ q, acceptFormation q = .ok r) ∧
    ((∀ q' r', acceptFormation q' = .ok r' → formationKey r' = formationKey r → r' = r) ↔
      Isolated r) := by
  refine ⟨departuresKey_injective, formationKey_ne_departuresKey r, ⟨_, r.accepted⟩,
    fun h => ?_, fun h _ r' _ => ?_⟩
  · exact HasOwnKey.isolated fun r' => h _ r' r'.accepted
  · exact eq_of_formationKey_eq h

/-- A query of the formation of a train on one day. -/
def trainQuery (train : String) (stop : Option String) : FormationQuery :=
  ⟨some train, some "2026-01-01", stop, none, some "ojp:11"⟩

/-- Two formations of one train, at a stop called like the absent one and without a stop, and two
that differ in train number and stop: they have one key. -/
theorem keys_collide :
    (∃ r r', acceptFormation (trainQuery "IR95" (some "all")) = .ok r ∧
      acceptFormation (trainQuery "IR95" none) = .ok r' ∧
      formationKey r = formationKey r' ∧ r.stop ≠ r'.stop) ∧
    ∃ r r', acceptFormation (trainQuery "IR95" (some "1:8503000")) = .ok r ∧
      acceptFormation (trainQuery "IR95:1" (some "8503000")) = .ok r' ∧
      formationKey r = formationKey r' ∧ r.trainNumber ≠ r'.trainNumber ∧ r.stop ≠ r'.stop := by
  have hdate : "2026-01-01" ≠ "" := by simp
  refine ⟨⟨⟨"SBBP", "2026-01-01", "95", some "all", hdate, '9', rfl, rfl⟩,
    ⟨"SBBP", "2026-01-01", "95", none, hdate, '9', rfl, rfl⟩, rfl, rfl, rfl, by simp⟩,
    ⟨"SBBP", "2026-01-01", "95", some "1:8503000", hdate, '9', rfl, rfl⟩,
    ⟨"SBBP", "2026-01-01", "95:1", some "8503000", hdate, '9', rfl, rfl⟩, rfl, rfl, ?_, by simp,
    by simp⟩
  simp [formationKey_eq_iff, FormationRequest.stopKey]

end Traintime
