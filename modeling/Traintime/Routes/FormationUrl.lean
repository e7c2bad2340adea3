import Traintime.Lib.UrlQuery
import Traintime.Routes.CacheKeys

/-!
# The upstream request for a formation

The URL that `fetch_formation` builds from an accepted request, in the native server
(`server/src/formation.rs`) and in the Worker (`src/formation.rs`), and the parameters that the
formation API reads from it. The URL goes through a URL parser on the way, that of `reqwest` or that
of the Workers runtime.

## Main definitions

* `Server.formationUrl`, `Worker.formationUrl`: the URLs.
* `FormationRequest.asked`: the parameters that a request is meant to have.
* `FormationRequest.UrlSafe`: the requests whose strings can be written in a URL as they are.

## Main results

* `formation_query_iff`: what is asked for arrives exactly for these.
-/

namespace Traintime

/-- The formation API, by stops. -/
def formationEndpoint : String :=
  "https://api.opentransportdata.swiss/formation/v1/formations_stop_based"

/-- The URL of `fetch_formation` in the native server. -/
def Server.formationUrl (evu date trainNumber : String) : String :=
  formationEndpoint ++ "?evu=" ++ evu ++ "&operationDate=" ++ date ++ "&trainNumber=" ++ trainNumber

/-- The URL of `fetch_formation` in the Worker. -/
def Worker.formationUrl (evu date trainNumber : String) : String :=
  formationEndpoint ++ "?evu=" ++ evu ++ "&operationDate=" ++ date ++ "&trainNumber=" ++ trainNumber

/-- The parameters that a receiver reads from a URL. -/
def received (d : UrlQuery.Decoder) (url : String) : Option (List (String × String)) :=
  (UrlQuery.query url.toList).bind d.parameters

namespace FormationRequest

/-- The parameters of a request, as they are meant to arrive at the formation API. -/
def asked (r : FormationRequest) : List (String × String) :=
  [("evu", r.evu), ("operationDate", r.date), ("trainNumber", r.trainNumber)]

/-- The strings have none of the characters with a meaning in a query and no percent code, and the
URL does not end with a space or a control character. -/
structure UrlSafe (r : FormationRequest) : Prop where
  evu : UrlQuery.Plain r.evu.toList
  date : UrlQuery.Plain r.date.toList
  trainNumber : UrlQuery.Plain r.trainNumber.toList
  last : ∀ c ∈ r.trainNumber.toList.getLast?, UrlQuery.isControlOrSpace c = false

end FormationRequest

theorem name_evu : UrlQuery.Name "evu".toList :=
  ⟨by decide, List.all_iff_forall_prop.mp (by decide), by decide⟩

theorem name_operationDate : UrlQuery.Name "operationDate".toList :=
  ⟨by decide, List.all_iff_forall_prop.mp (by decide), by decide⟩

theorem name_trainNumber : UrlQuery.Name "trainNumber".toList :=
  ⟨by decide, List.all_iff_forall_prop.mp (by decide), by decide⟩

theorem base_formationEndpoint : UrlQuery.Base formationEndpoint.toList :=
  ⟨⟨'h', by decide, by decide⟩, List.all_iff_forall_prop.mp (by decide)⟩

theorem toList_formationUrl (evu date trainNumber : String) :
    (Server.formationUrl evu date trainNumber).toList =
      formationEndpoint.toList ++ '?' :: ("evu=".toList ++ (evu.toList ++ '&' ::
        ("operationDate=".toList ++ (date.toList ++ '&' ::
          ("trainNumber=".toList ++ trainNumber.toList))))) := by
  delta Server.formationUrl
  simp

/-- A number in front is not lost, whatever follows. -/
theorem received_formationUrl (d : UrlQuery.Decoder) (evu date : String) {trainNumber : String}
    (h : IsTrainNumber trainNumber) :
    received d (Server.formationUrl evu date trainNumber) =
      d.parameters (("evu".toList ++ '=' :: UrlQuery.kept (evu.toList ++ '&' ::
        ("operationDate=".toList ++ (date.toList ++ '&' :: ("trainNumber=".toList ++
          trainNumber.toList.rdropWhile UrlQuery.isControlOrSpace))))).flatMap
            UrlQuery.encodeChar) := by
  obtain ⟨c, hc, hdigit⟩ := h
  have hcontrol : UrlQuery.isControlOrSpace c = false := by
    rw [Char.isDigit, Bool.and_eq_true, decide_eq_true_eq] at hdigit
    have hle : 0x30 ≤ c.toNat := hdigit.1
    exact decide_eq_false (by omega)
  have hstrip : ∀ s : List Char, (s ++ trainNumber.toList).rdropWhile UrlQuery.isControlOrSpace =
      s ++ trainNumber.toList.rdropWhile UrlQuery.isControlOrSpace := fun s =>
    UrlQuery.rdropWhile_append_of_exists s ⟨c, List.mem_of_mem_head? hc, hcontrol⟩
  have hassoc : ∀ s, "evu=".toList ++ (evu.toList ++ '&' :: ("operationDate=".toList ++
      (date.toList ++ '&' :: ("trainNumber=".toList ++ s)))) =
      ("evu=".toList ++ (evu.toList ++ '&' :: ("operationDate=".toList ++
        (date.toList ++ '&' :: "trainNumber=".toList)))) ++ s := by
    intro s
    simp only [List.append_assoc, List.cons_append]
  have hplain : UrlQuery.Plain "evu=".toList := by decide
  rw [received, toList_formationUrl, UrlQuery.query_append base_formationEndpoint, hassoc, hstrip,
    ← hassoc, hplain.kept_append]
  rfl

/-- The parameters arrive as they were asked for exactly when their strings are safe. -/
theorem received_eq_asked_iff (d : UrlQuery.Decoder) (r : FormationRequest) :
    received d (Server.formationUrl r.evu r.date r.trainNumber) = some r.asked ↔ r.UrlSafe := by
  have hdate : UrlQuery.Plain "operationDate=".toList := by decide
  have htrain : UrlQuery.Plain "trainNumber=".toList := by decide
  have hdate' : ∀ s, UrlQuery.kept ("operationDate=".toList ++ s) =
      "operationDate".toList ++ '=' :: UrlQuery.kept s := hdate.kept_append
  have htrain' : ∀ s, UrlQuery.kept ("trainNumber=".toList ++ s) =
      "trainNumber".toList ++ '=' :: UrlQuery.kept s := htrain.kept_append
  have hfields := d.parameters_field_iff name_evu r.evu.toList ("operationDate=".toList ++
    (r.date.toList ++ '&' :: ("trainNumber=".toList ++
      r.trainNumber.toList.rdropWhile UrlQuery.isControlOrSpace)))
    [("operationDate", r.date), ("trainNumber", r.trainNumber)]
  have hfields' := d.parameters_field_iff name_operationDate r.date.toList ("trainNumber=".toList ++
      r.trainNumber.toList.rdropWhile UrlQuery.isControlOrSpace) [("trainNumber", r.trainNumber)]
  have hlast := d.parameters_last_iff name_trainNumber
    (List.rdropWhile_prefix UrlQuery.isControlOrSpace r.trainNumber.toList).sublist
  simp only [String.ofList_toList] at hfields hfields' hlast
  rw [received_formationUrl d _ _ r.isTrainNumber]
  rw [hdate', hfields', htrain', hlast] at hfields
  refine hfields.trans ⟨?_, ?_⟩
  · rintro ⟨hevu, hdate, hstrip, htrain⟩
    refine ⟨hevu, hdate, htrain, fun c hc => ?_⟩
    have hne : r.trainNumber.toList ≠ [] := List.ne_nil_of_mem (List.mem_of_getLast? hc)
    have hgetLast := List.rdropWhile_eq_self_iff.mp hstrip hne
    rw [List.getLast?_eq_some_getLast hne] at hc
    simpa [← Option.some.inj hc] using hgetLast
  · rintro ⟨hevu, hdate, htrain, hlast⟩
    refine ⟨hevu, hdate, List.rdropWhile_eq_self_iff.mpr fun hne => ?_, htrain⟩
    rw [hlast _ (List.getLast?_eq_some_getLast hne)]
    exact Bool.false_ne_true

theorem Worker.formationUrl_eq : Worker.formationUrl = Server.formationUrl := rfl

/-- In both runtimes and whatever the receiver does with malformed text, the parameters arrive as
they were asked for exactly when their strings are safe in a URL. -/
theorem formation_query_iff (d : UrlQuery.Decoder) (r : FormationRequest) :
    (received d (Server.formationUrl r.evu r.date r.trainNumber) = some r.asked ↔ r.UrlSafe) ∧
      (received d (Worker.formationUrl r.evu r.date r.trainNumber) = some r.asked ↔ r.UrlSafe) := by
  rw [Worker.formationUrl_eq]
  exact ⟨received_eq_asked_iff d r, received_eq_asked_iff d r⟩

/-! ### An undertaking with a parameter in it -/

/-- A request whose undertaking carries a train number of its own. -/
def smugglingRequest : FormationRequest where
  evu := "SBBP&trainNumber=1"
  date := "2026-01-05"
  trainNumber := "7"
  stop := none
  date_ne := by decide
  isTrainNumber := ⟨'7', rfl, rfl⟩

theorem received_smugglingRequest :
    received .strict (Server.formationUrl smugglingRequest.evu smugglingRequest.date
      smugglingRequest.trainNumber) = some [("evu", "SBBP"), ("trainNumber", "1"),
        ("operationDate", "2026-01-05"), ("trainNumber", "7")] := by
  have hplain : ∀ s ∈ ["SBBP", "1", "2026-01-05", "7"], UrlQuery.Plain s.toList := by decide
  rw [received_formationUrl _ _ _ smugglingRequest.isTrainNumber]
  refine (UrlQuery.Decoder.strict.parameters_field_iff name_evu "SBBP".toList _ _).mpr
    ⟨hplain _ (by decide), ?_⟩
  refine (UrlQuery.Decoder.strict.parameters_field_iff name_trainNumber "1".toList _ _).mpr
    ⟨hplain _ (by decide), ?_⟩
  refine (UrlQuery.Decoder.strict.parameters_field_iff name_operationDate "2026-01-05".toList _
    _).mpr ⟨hplain _ (by decide), ?_⟩
  exact (UrlQuery.Decoder.strict.parameters_last_iff name_trainNumber
    (List.Sublist.refl "7".toList)).mpr ⟨rfl, hplain _ (by decide)⟩

/-- The formation API is asked for two trains. -/
theorem formation_query_smuggled :
    acceptFormation ⟨some "7", some "2026-01-05", none, some "SBBP&trainNumber=1", none⟩ =
        .ok smugglingRequest ∧
      received .strict (Server.formationUrl smugglingRequest.evu smugglingRequest.date
        smugglingRequest.trainNumber) =
        some [("evu", "SBBP"), ("trainNumber", "1"), ("operationDate", "2026-01-05"),
          ("trainNumber", "7")] ∧
      received .strict (Server.formationUrl smugglingRequest.evu smugglingRequest.date
        smugglingRequest.trainNumber) ≠ some smugglingRequest.asked := by
  refine ⟨smugglingRequest.accepted, received_smugglingRequest, ?_⟩
  rw [received_smugglingRequest]
  decide

end Traintime
