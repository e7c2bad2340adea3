import Traintime.Core.Formation.Response
import Traintime.Routes.Payloads
import Traintime.Routes.Response

/-!
# Formations from upstream to the response

`handle_formation` of both runtimes and the way of a formation through them: an answer of the
formation API is read for the stop of a request, the result is cached as JSON and given to any number
of requests, and each response is that JSON again.

## Main definitions

* `Formation.fetchFormation`: from an answer of the formation API to a formation.
* `Formation.handleFormation`: the handler of both runtimes.
* `Formation.ShowsFormation`: a response with a formation.

## Main results

* `Formation.showsFormation_respond`: from the cached JSON to the response.
* `Formation.formations_native`, `Formation.formations_worker`: from upstream to the response.
-/

namespace Traintime.Formation

open Json
open Departures (payloadOf payloadOfWorker)

/-! ### From an answer to the cache -/

/-- `resp.json()` and the walk through its value. What is wrong with a text that is no JSON, or has a
number out of range, is given. -/
def fetchFormation (describe : String → String) (d : DigitClass) (stopUic : Option String)
    (body : List Char) : Except String FormationResult :=
  match readInRange body with
  | some v => (parseFormationResponse d v.canonical stopUic).mapError CoreError.text
  | none => .error (describe (.ofList body))

/-- `serde_json::to_string(&result)`: a formation as it is cached. -/
def formationJson (f : FormationResult) : String := .ofList f.toJson.text

/-! ### The handler -/

/-- The handler. All that it asks of the cache is the payload of a key. -/
def handleFormation (describe : String → String)
    (cached : String → Except String (String × Option ℕ)) (params : FormationQuery) : Response :=
  match acceptFormation params with
  | .error e => respond e.status (errorBody e.error) none
  | .ok request =>
    match cached (formationKey request) with
    | .error _ => respond 404 (errorBody "No formation data") none
    | .ok (json, stale) =>
      match read json.toList with
      | some v => respond 200 v stale
      | none => respond 500 (errorBody (describe json)) none

/-- The handler of the native server, with `Inflight::cached` as its cache. -/
def handleFormationNative (describe : String → String) (cached : String → Server.Fetched) :
    FormationQuery → Response :=
  handleFormation describe fun key => payloadOf (cached key)

/-- The handler of the Worker, with the edge cache of its data centre. -/
def handleFormationWorker (describe : String → String) (served : String → Worker.Served) :
    FormationQuery → Response :=
  handleFormation describe fun key => payloadOfWorker (served key)

/-- The formation that a client reads from the body of a response. -/
def readFormation (text : List Char) : Option FormationResult :=
  (read text).bind FormationResult.ofJson

/-! ### From the cache to the response -/

/-- The response has the formation and says how old it is if it is stale. -/
structure ShowsFormation (f : FormationResult) (stale : Option ℕ) (response : Response) :
    Prop where
  status : response.status = 200
  staleAge : response.staleAge = stale.map toString
  body : readFormation response.body = some f

variable {describe : String → String} {d : DigitClass} {params : FormationQuery}
  {request : FormationRequest} {f : FormationResult} {stale : Option ℕ} {e : String}
  {cached : String → Except String (String × Option ℕ)}

/-- A cached formation makes a response that shows it. -/
theorem showsFormation_respond (hrequest : acceptFormation params = .ok request)
    (hcached : cached (formationKey request) = .ok (formationJson f, stale)) :
    ShowsFormation f stale (handleFormation describe cached params) := by
  have hdepth : f.toJson.depth ≤ 127 := f.depth_toJson_le.trans (by decide)
  have hread : read (formationJson f).toList = some f.toJson := by
    rw [formationJson, String.toList_ofList, read_text hdepth]
  simp only [handleFormation, hrequest, hcached, hread]
  refine ⟨rfl, rfl, ?_⟩
  rw [readFormation, respond, read_text_canonical hdepth, Option.bind_some, f.ofJson_canonical]

/-- Without a payload there is no formation. -/
theorem respond_of_error (hrequest : acceptFormation params = .ok request)
    (hcached : cached (formationKey request) = .error e) :
    handleFormation describe cached params = respond 404 (errorBody "No formation data") none := by
  simp only [handleFormation, hrequest, hcached]

/-! ### From upstream to the response -/

/-- A payload that upstream has is made from an answer. -/
theorem exists_answer {outcome : Except String String} {answer : Except String (List Char)}
    {stop : Option String} {v : String}
    (hmap : outcome = (answer.bind (fetchFormation describe d stop)).map formationJson)
    (hv : outcome = .ok v) :
    ∃ body f, answer = .ok body ∧ fetchFormation describe d stop body = .ok f ∧
      v = formationJson f := by
  subst hv
  cases answer with
  | error e => cases hmap
  | ok body =>
    rw [Except.bind] at hmap
    cases hf : fetchFormation describe d stop body with
    | error e =>
      rw [hf] at hmap
      cases hmap
    | ok f =>
      rw [hf] at hmap
      exact ⟨body, f, rfl, hf, Except.ok.inj hmap⟩

/-- Every call for the key of the request is made by a request with that key, for the stop of that
request, and the payload that upstream has for it is made from an answer. -/
def AnsweredAs {ι : Type} (describe : String → String) (d : DigitClass)
    (requests : ι → FormationRequest) (answers : ι → Except String (List Char))
    (upstream : ι → Except String String) (key : ι → String) (request : FormationRequest) : Prop :=
  ∀ q, key q = formationKey request → key q = formationKey (requests q) ∧
    upstream q = ((answers q).bind (fetchFormation describe d (requests q).stop)).map formationJson

/-! ### An answer with two wagons -/

/-- A request for the formation of a train at one of its stops. -/
def trainRequest : FormationRequest where
  evu := "SBBP"
  date := "2026-03-02"
  trainNumber := "8"
  stop := some "8507000"
  date_ne := by decide
  isTrainNumber := ⟨'8', rfl, rfl⟩

theorem isolated_trainRequest : Isolated trainRequest :=
  ⟨⟨"8507000", rfl, by decide, by decide⟩, by decide, by decide, by decide⟩

/-- The query of the request. -/
def trainQuery : FormationQuery := ⟨some "8", some "2026-03-02", some "8507000", some "SBBP", none⟩

/-- An answer with that stop, where two wagons stand in the first of two sectors. -/
def trainAnswer : Value :=
  .obj [("formationsAtScheduledStops".toList, .arr [.obj [
    ("formationShort".toList,
      .obj [("formationShortString".toList, .str "@A(1:11,2):12#BHP;VH@B".toList)]),
    ("scheduledStop".toList, .obj [
      ("stopPoint".toList, .obj [("uic".toList, .num (ofInt 8507000))]),
      ("track".toList, .str ['5'])])]])]

/-- What it says about the stop. -/
def trainFormation : FormationResult where
  track := ['5']
  sectors := [['A'], ['B']]
  wagons :=
    [⟨1, 11, 1, ['A'], [], false, false, false, false, false⟩,
      ⟨2, 12, 2, ['A'], ["wheelchair", "bike"], false, false, false, false, false⟩]

/-- Its JSON, as it is cached and as it is answered. -/
def trainJson : String :=
  "\x7b\"track\":\"5\",\"sectors\":[\"A\",\"B\"],\"wagons\":[" ++
    "\x7b\"position\":1,\"number\":11,\"class\":1,\"sector\":\"A\",\"features\":[]\x7d," ++
    "\x7b\"position\":2,\"number\":12,\"class\":2,\"sector\":\"A\"," ++
    "\"features\":[\"wheelchair\",\"bike\"]\x7d]\x7d"

theorem fetchFormation_trainAnswer (describe : String → String) :
    fetchFormation describe .asciiOnly trainRequest.stop trainAnswer.text = .ok trainFormation := by
  have hcanonical : trainAnswer.canonical = trainAnswer := rfl
  have hparse : parseFormationResponse .asciiOnly trainAnswer trainRequest.stop =
      .ok trainFormation := by
    decide +kernel
  have hrange : trainAnswer.inRange = true := by decide +kernel
  rw [fetchFormation, readInRange, read_text (by decide), Option.filter_some, if_pos hrange]
  simp only [hcanonical, hparse]
  rfl

theorem formationJson_trainFormation : formationJson trainFormation = trainJson := by
  decide +kernel

theorem answeredAs_trainRequest {ι : Type} (describe : String → String) :
    AnsweredAs describe .asciiOnly (fun _ : ι => trainRequest) (fun _ => .ok trainAnswer.text)
      (fun _ => .ok trainJson) (fun _ => formationKey trainRequest) trainRequest := by
  intro _ _
  refine ⟨rfl, ?_⟩
  rw [Except.bind, fetchFormation_trainAnswer, Except.map, formationJson_trainFormation]

section Native

open Server

variable {n : ℕ} {cfg : Config n} {s : Cluster n} {upstream : Fin n → Except String String}

/-- **A formation of the native server.** In every run in which the calls for a key use one TTL, the
response to an accepted request shows what one upstream answer says about the stop of a request with
the same cache key, fetched by itself or within the bounds on its age, or is 404 if a fetch left no
payload, its own or the one it waited for. If the request has its key to itself, the answer is one
for that request. -/
theorem formations_native (h : ReachableWith cfg upstream s) (httl : cfg.SameTtl)
    {post pre : List (Event n)} {r : Fin n} {res : Fetched} {t : ℕ}
    (hs : s.history = post ++ .returned r res t :: pre)
    (hrequest : acceptFormation params = .ok request)
    (hkey : (cfg.call r).key = formationKey request) {requests : Fin n → FormationRequest}
    {answers : Fin n → Except String (List Char)}
    (hupstream : AnsweredAs describe d requests answers upstream (fun q => (cfg.call q).key)
      request) :
    (∃ e, res = .failed e ∧ handleFormationNative describe (fun _ => res) params =
        respond 404 (errorBody "No formation data") none) ∨
      ∃ q body f t' stale, answers q = .ok body ∧
        fetchFormation describe d (requests q).stop body = .ok f ∧
        (Isolated request → requests q = request) ∧
        ServedFrom cfg upstream pre r q (formationJson f) t t' stale ∧
        ShowsFormation f stale (handleFormationNative describe (fun _ => res) params) := by
  rcases servedFrom_of_returned h httl hs with ⟨e, rfl⟩ | ⟨q, v, t', stale, hres, hserved⟩
  · exact .inl ⟨e, rfl, respond_of_error hrequest rfl⟩
  · have hq : (cfg.call q).key = formationKey request := hserved.key.trans hkey
    obtain ⟨hown, hq'⟩ := hupstream q hq
    obtain ⟨body, f, hbody, hf, rfl⟩ := exists_answer hq' hserved.upstream
    exact .inr ⟨q, body, f, t', stale, hbody, hf,
      fun hisolated => eq_of_formationKey_eq hisolated (hown.symm.trans hq), hserved,
      showsFormation_respond hrequest hres⟩

theorem formations_native_hitRun : ∃ s pre,
    Transition.run (step (twoRequests (formationKey trainRequest) 300)) (hitRun trainJson)
        Cluster.init = some s ∧
      s.history = [] ++ .returned 1 (.cached trainJson) second :: pre ∧ Isolated trainRequest ∧
    ((∃ e, Fetched.cached trainJson = .failed e ∧
        handleFormationNative (fun e => e) (fun _ => .cached trainJson) trainQuery =
          respond 404 (errorBody "No formation data") none) ∨
      ∃ q body f t' stale, (fun _ => .ok trainAnswer.text : Fin 2 → Except String (List Char)) q =
          .ok body ∧
        fetchFormation (fun e => e) .asciiOnly trainRequest.stop body = .ok f ∧
        (Isolated trainRequest → trainRequest = trainRequest) ∧
        ServedFrom (twoRequests (formationKey trainRequest) 300) (fun _ => .ok trainJson) pre 1 q
          (formationJson f) second t' stale ∧
        ShowsFormation f stale
          (handleFormationNative (fun e => e) (fun _ => .cached trainJson) trainQuery)) := by
  obtain ⟨s, pre, hs, hsplit⟩ := exists_run_hitRun (formationKey trainRequest) trainJson
    (by decide : 1 < 300) (by decide)
  exact ⟨s, pre, hs, hsplit, isolated_trainRequest, formations_native (reachableWith_hitRun hs)
    (fun _ _ _ => rfl) hsplit trainRequest.accepted rfl (answeredAs_trainRequest _)⟩

end Native

section Worker

open Worker

variable {ι : Type} [DecidableEq ι] {call : ι → Worker.Call} {s : State ι}
  {upstream : ι → Except String String}

/-- **A formation of the Worker.** In every run the response to an accepted request shows what one
upstream answer says about the stop of a request with the same cache key, fetched by itself after it
arrived, or within its TTL, or past it with the age that it had when the request looked it up, or is
404 if its own call failed. If the request has its key to itself, the answer is one for that
request. -/
theorem formations_worker (h : ReachableWith call upstream s) {r : ι} {res : Served} {u : ℕ}
    (hr : s.pc r = .done res u) (hrequest : acceptFormation params = .ok request)
    (hkey : (call r).key = formationKey request) {requests : ι → FormationRequest}
    {answers : ι → Except String (List Char)}
    (hupstream : AnsweredAs describe d requests answers upstream (fun q => (call q).key) request) :
    (∃ e, res = .error e ∧ .failed r e u ∈ s.history ∧
        handleFormationWorker describe (fun _ => res) params =
          respond 404 (errorBody "No formation data") none) ∨
      ∃ q body f t stale, answers q = .ok body ∧
        fetchFormation describe d (requests q).stop body = .ok f ∧
        (Isolated request → requests q = request) ∧
        ServedFrom call upstream s.history r q (formationJson f) u t stale ∧
        ShowsFormation f stale (handleFormationWorker describe (fun _ => res) params) := by
  rcases servedFrom_of_done h hr with ⟨e, rfl, he⟩ | ⟨q, v, t, stale, hres, hserved⟩
  · exact .inl ⟨e, rfl, he, respond_of_error hrequest rfl⟩
  · have hq : (call q).key = formationKey request := hserved.key.trans hkey
    obtain ⟨hown, hq'⟩ := hupstream q hq
    obtain ⟨body, f, hbody, hf, rfl⟩ := exists_answer hq' hserved.upstream
    exact .inr ⟨q, body, f, t, stale, hbody, hf,
      fun hisolated => eq_of_formationKey_eq hisolated (hown.symm.trans hq), hserved,
      showsFormation_respond hrequest hres⟩

/-- The TTL of a formation ends with the stale window, so a formation is stale for one second. -/
theorem formations_worker_lateRun : ∃ s,
    Transition.run (step (twoRequests (formationKey trainRequest) 300)) (lateRun trainJson 300)
      State.init = some s ∧ Isolated trainRequest ∧
    ((∃ e, Served.stale trainJson 300 = .error e ∧ .failed 1 e (309 * second) ∈ s.history ∧
        handleFormationWorker (fun e => e) (fun _ => .stale trainJson 300) trainQuery =
          respond 404 (errorBody "No formation data") none) ∨
      ∃ q body f t stale, (fun _ => .ok trainAnswer.text : Fin 2 → Except String (List Char)) q =
          .ok body ∧
        fetchFormation (fun e => e) .asciiOnly trainRequest.stop body = .ok f ∧
        (Isolated trainRequest → trainRequest = trainRequest) ∧
        ServedFrom (twoRequests (formationKey trainRequest) 300) (fun _ => .ok trainJson) s.history 1 q
          (formationJson f) (309 * second) t stale ∧
        ShowsFormation f stale
          (handleFormationWorker (fun e => e) (fun _ => .stale trainJson 300) trainQuery)) := by
  obtain ⟨s, hs, hanswer⟩ := exists_run_lateRun (formationKey trainRequest) trainJson
    (by decide : 300 ≤ 300) (by decide)
  exact ⟨s, hs, isolated_trainRequest, formations_worker (reachableWith_lateRun hs) hanswer
    trainRequest.accepted rfl (answeredAs_trainRequest _)⟩

end Worker

end Traintime.Formation
