import Traintime.Core.Auth
import Traintime.Core.RequestLog
import Traintime.Lib.Decimal
import Traintime.Routes.Response

/-!
# In front of the routes

What both runtimes put around the routes: the preflight, the check of the key, the CORS headers and
the request line (`auth`, `with_cors` and `log_request` of `server/src/main.rs`, `fetch`,
`add_cors_headers` and `log_request` of the Worker). What the routes answer is given.

## Main definitions

* `FrontDoor.Reply`: a response with its headers and what the handler says about the cache.
* `FrontDoor.native`, `FrontDoor.worker`: the response to a request and the line that is written.
* `FrontDoor.Said`: what a request line says.

## Main results

* `FrontDoor.Said.line_injective`: a line is read back in one way.
* `FrontDoor.worker_eq_native`: the runtimes give one response and write one line.
* `FrontDoor.worker_eq_native_and_line`: what is given and written for any request.
-/

namespace Traintime.FrontDoor

open Auth (ApiKeys auth workerAnswer bytes label Visible Usable)

/-! ### Responses -/

/-- A response. A header has one value. -/
structure Reply where
  status : ℕ
  headers : AssocMap String String
  body : List Char
  cache : CacheStatus

/-- The headers that every response has, with the values of both runtimes. -/
def corsHeaders : List (String × String) :=
  [("access-control-allow-origin", "*"),
    ("access-control-allow-methods", "GET, OPTIONS"),
    ("access-control-allow-headers", "Content-Type, X-API-Key"),
    ("x-api-version", "1")]

/-- The headers are put into a response in order, over those that it has. -/
def withCors (resp : Reply) : Reply :=
  { resp with headers := corsHeaders.foldl (fun h x => h.insert x.1 x.2) resp.headers }

/-- The response to a preflight, which no route and no key has a part in. -/
def noContent : Reply := ⟨204, ∅, [], .none⟩

/-- A JSON response that no handler has said anything about. -/
def jsonReply (status : ℕ) (body : Json.Value) : Reply :=
  ⟨status, (∅ : AssocMap String String).insert "content-type" "application/json",
    body.canonical.text, .none⟩

/-- `log_request`: the line of a request, which both runtimes write in the same way. -/
def logRequest (req : Auth.Request) (resp : Reply) (ms : ℕ) (key : Option (List Char)) : String :=
  formatLine req.method req.path resp.status ms resp.cache (key.map String.ofList)

/-- The middleware of the native server: the response to a request, and its line if it has one. -/
def native (keys : ApiKeys) (req : Auth.Request) (routed : Reply) (ms : ℕ) :
    Reply × Option String :=
  match auth keys req with
  | .noContent => (withCors noContent, none)
  | .unauthorized =>
    let resp := withCors (jsonReply 401 (errorBody "Unauthorized"))
    (resp, some (logRequest req resp ms none))
  | .passed keyLabel =>
    let resp := withCors routed
    (resp, some (logRequest req resp ms keyLabel))

/-- What the Worker reads of its environment: the client keys, and what is wrong with the database
or the keys for upstream, if anything is. -/
structure Env where
  list : Option (List Char)
  single : Option (List Char)
  missing : Option String

/-- The Worker on a request. The router may fail too; its failure is answered without a line. -/
def worker (env : Env) (req : Auth.Request) (routed : Except String Reply) (ms : ℕ) :
    Except String (Reply × Option String) :=
  match workerAnswer env.list env.single req with
  | .noContent => .ok (withCors noContent, none)
  | .unauthorized =>
    let resp := withCors (jsonReply 401 (errorBody "Unauthorized"))
    .ok (resp, some (logRequest req resp ms none))
  | .passed keyLabel =>
    match env.missing, routed with
    | some e, _ => .error e
    | none, .ok resp =>
      let resp := withCors resp
      .ok (resp, some (logRequest req resp ms keyLabel))
    | none, .error e => .ok (withCors (jsonReply 500 (errorBody e)), none)

/-! ### Headers -/

theorem lookup_foldl_insert {xs : List (String × String)} (hxs : (xs.map Prod.fst).Nodup)
    (h : AssocMap String String) (name : String) :
    (xs.foldl (fun h x => h.insert x.1 x.2) h : AssocMap String String).lookup name =
      (xs.lookup name).or (h.lookup name) := by
  induction xs generalizing h with
  | nil => rfl
  | cons x xs ih =>
    obtain ⟨hx, hxs⟩ := List.nodup_cons.1 hxs
    rw [List.foldl_cons, ih hxs, AssocMap.lookup_insert_eq, List.lookup_cons]
    split_ifs with hname
    · have hnone : xs.lookup name = none := by
        rw [List.lookup_eq_none_iff]
        intro y hy
        rw [bne_iff_ne]
        intro hyname
        exact hx (hname ▸ hyname ▸ List.mem_map_of_mem hy)
      rw [hnone, hname, beq_self_eq_true]
      rfl
    · rw [beq_false_of_ne hname]

/-- A CORS header has its value, whatever the response had, and every other header stays. -/
theorem lookup_withCors (resp : Reply) (name : String) :
    (withCors resp).headers.lookup name =
      (corsHeaders.lookup name).or (resp.headers.lookup name) :=
  lookup_foldl_insert (by decide) resp.headers name

/-! ### The line -/

/-- What a request line says, column by column. -/
structure Said where
  method : String
  route : String
  status : ℕ
  ms : ℕ
  cache : CacheStatus
  key : String
deriving DecidableEq

theorem asStr_injective : Function.Injective CacheStatus.asStr := by
  intro c c' h
  cases c <;> cases c' <;> first | rfl | exact absurd h (by decide)

namespace Said

/-- The line that says it, with the columns in the order of `format_line`. -/
def line (s : Said) : String :=
  "req method=" ++ s.method ++ " route=" ++ s.route ++ " status=" ++ toString s.status ++
    " ms=" ++ toString s.ms ++ " cache=" ++ s.cache.asStr ++ " key=" ++ s.key

/-- The method and the route have no space. -/
def Readable (s : Said) : Prop := ' ' ∉ s.method.toList ∧ ' ' ∉ s.route.toList

/-- The texts of a line and what stands between them. -/
theorem toList_appends (a m b r c st d t e u f k : String) :
    (a ++ m ++ b ++ r ++ c ++ st ++ d ++ t ++ e ++ u ++ f ++ k).toList =
      a.toList ++ (m.toList ++ (b.toList ++ (r.toList ++ (c.toList ++ (st.toList ++ (d.toList ++
        (t.toList ++ (e.toList ++ (u.toList ++ (f.toList ++ k.toList)))))))))) := by
  simp only [String.toList_append, List.append_assoc]

theorem toList_line (s : Said) : s.line.toList =
    "req method=".toList ++ (s.method.toList ++ ' ' :: ("route=".toList ++ (s.route.toList ++ ' ' ::
      ("status=".toList ++ (s.status.repr.toList ++ ' ' :: ("ms=".toList ++ (s.ms.repr.toList ++
        ' ' :: ("cache=".toList ++ (s.cache.asStr.toList ++ ' ' :: ("key=".toList ++
          s.key.toList)))))))))) := by
  have hroute : " route=".toList = ' ' :: "route=".toList := by decide
  have hstatus : " status=".toList = ' ' :: "status=".toList := by decide
  have hms : " ms=".toList = ' ' :: "ms=".toList := by decide
  have hcache : " cache=".toList = ' ' :: "cache=".toList := by decide
  have hkey : " key=".toList = ' ' :: "key=".toList := by decide
  refine (toList_appends _ _ _ _ _ _ _ _ _ _ _ _).trans ?_
  rw [hroute, hstatus, hms, hcache, hkey]
  rfl

/-- A line is read back in one way. -/
theorem line_injective {s s' : Said} (hs : s.Readable) (hs' : s'.Readable)
    (h : s.line = s'.line) : s = s' := by
  have hcache : ∀ c : CacheStatus, ' ' ∉ c.asStr.toList := by
    intro c
    cases c <;> decide
  have hdigits : ∀ {n : ℕ}, ' ' ∉ n.repr.toList := Decimal.not_mem_repr (by decide)
  have hlist := congrArg String.toList h
  rw [toList_line, toList_line] at hlist
  have hrest := List.append_cancel_left hlist
  obtain ⟨hmethod, hrest⟩ := Regex.cut_first hs.1 hs'.1 hrest
  replace hrest := List.append_cancel_left hrest
  obtain ⟨hroute, hrest⟩ := Regex.cut_first hs.2 hs'.2 hrest
  replace hrest := List.append_cancel_left hrest
  obtain ⟨hstatus, hrest⟩ := Regex.cut_first hdigits hdigits hrest
  replace hrest := List.append_cancel_left hrest
  obtain ⟨hms, hrest⟩ := Regex.cut_first hdigits hdigits hrest
  replace hrest := List.append_cancel_left hrest
  obtain ⟨hstr, hrest⟩ := Regex.cut_first (hcache _) (hcache _) hrest
  have hkey := List.append_cancel_left hrest
  rw [Said.mk.injEq]
  exact ⟨String.toList_injective hmethod, String.toList_injective hroute,
    Decimal.repr_inj.1 (String.toList_injective hstatus),
    Decimal.repr_inj.1 (String.toList_injective hms),
    asStr_injective (String.toList_injective hstr), String.toList_injective hkey⟩

end Said

/-- Printable ASCII or a tab, which cannot end a line or begin an escape sequence. -/
def isPrintable (c : Char) : Bool := (0x20 ≤ c.toNat && c.toNat < 0x7f) || c == '\t'

/-- Every character of the text is printable. -/
def Printable (s : List Char) : Prop := ∀ c ∈ s, isPrintable c = true

theorem printable_iff {s : List Char} : Printable s ↔ s.all isPrintable = true :=
  List.all_eq_true.symm

theorem isPrintable_of_range {c : Char} (h : 0x20 ≤ c.toNat) (h' : c.toNat < 0x7f) :
    isPrintable c = true := by
  rw [isPrintable, decide_eq_true h, decide_eq_true h']
  rfl

/-- Printable ASCII without spaces, as every HTTP method is. -/
def Token (s : String) : Prop := ∀ c ∈ s.toList, 0x20 < c.toNat ∧ c.toNat < 0x7f

theorem Token.printable {s : String} (h : Token s) : Printable s.toList := fun c hc =>
  isPrintable_of_range (h c hc).1.le (h c hc).2

theorem Token.space_not_mem {s : String} (h : Token s) : ' ' ∉ s.toList := fun hmem =>
  absurd (h ' ' hmem).1 (by decide)

theorem Printable.append {s t : List Char} (hs : Printable s) (ht : Printable t) :
    Printable (s ++ t) := List.forall_mem_append.2 ⟨hs, ht⟩

theorem printable_repr (n : ℕ) : Printable n.repr.toList := by
  intro c hc
  have hdigit := Decimal.isDigit_of_mem_repr hc
  rw [Char.isDigit_iff_toNat] at hdigit
  have hzero : '0'.toNat = 48 := rfl
  have hnine : '9'.toNat = 57 := rfl
  exact isPrintable_of_range (by omega) (by omega)

/-- A line is printable if its texts are. -/
theorem Said.printable_line {s : Said} (hmethod : Printable s.method.toList)
    (hroute : Printable s.route.toList) (hkey : Printable s.key.toList) :
    Printable s.line.toList := by
  have hcache : Printable s.cache.asStr.toList := by
    cases s.cache <;> exact printable_iff.2 (by decide)
  have hspace : ∀ {t : List Char}, Printable t → Printable (' ' :: t) :=
    fun ht => List.forall_mem_cons.2 ⟨by decide, ht⟩
  have hname : ∀ {w t : List Char}, w.all isPrintable = true → Printable t → Printable (w ++ t) :=
    fun hw ht => (printable_iff.2 hw).append ht
  rw [toList_line]
  refine hname (by decide) (hmethod.append (hspace (hname (by decide) ?_)))
  refine hroute.append (hspace (hname (by decide) ((printable_repr _).append (hspace ?_))))
  refine hname (by decide) ((printable_repr _).append (hspace (hname (by decide) ?_)))
  exact hcache.append (hspace (hname (by decide) hkey))

/-- The text of a header that can be read is printable. -/
theorem printable_of_visible {s : List Char} (h : Visible (bytes s)) : Printable s := by
  have hs := h.bytes_map
  rw [← Auth.bytes_injective hs]
  intro c hc
  obtain ⟨b, hb, rfl⟩ := List.mem_map.1 hc
  have hlt : b.toNat < 256 := b.toNat_lt
  have htoNat : (Char.ofNat b.toNat).toNat = b.toNat := by
    rw [Char.ofNat, dif_pos (Or.inl (by omega))]
    rfl
  rcases h b hb with ⟨hlow, hhigh⟩ | rfl
  · refine isPrintable_of_range ?_ ?_ <;> rw [htoNat]
    · exact UInt8.le_iff_toNat_le.1 hlow
    · exact UInt8.lt_iff_toNat_lt.1 hhigh
  · rfl

/-! ### Any request -/

section Requests

variable {list single : Option (List Char)} {keys : ApiKeys} {req : Auth.Request}

/-- Where there are keys, the Worker answers a request as the native server does and writes the same
line. -/
theorem worker_eq_native (hkeys : ApiKeys.parse list single = .ok keys) (req : Auth.Request)
    (routed : Reply) (ms : ℕ) :
    worker ⟨list, single, none⟩ req (.ok routed) ms = .ok (native keys req routed ms) := by
  have hserver : Auth.serverAnswer list single req = some (workerAnswer list single req) := by
    have hne : Auth.configured list single ≠ [] := Auth.keys_of_parse hkeys ▸ keys.keys_ne_nil
    by_cases hmethod : req.method = "OPTIONS"
    · rw [Auth.serverAnswer, hkeys, workerAnswer, if_pos hmethod]
      exact congrArg some (if_pos hmethod)
    · by_cases hpath : req.path = "/health"
      · have hauth : auth keys req = .passed none := by
          rw [auth, if_neg hmethod, if_neg (not_not.2 hpath)]
        rw [Auth.serverAnswer, hkeys, workerAnswer, if_neg hmethod, if_neg (not_not.2 hpath)]
        exact congrArg some hauth
      · exact Auth.serverAnswer_eq hmethod hpath hne
  rw [Auth.serverAnswer, hkeys, Option.some.injEq] at hserver
  rw [worker, native, ← hserver]
  cases auth keys req <;> rfl

/-- What is put behind the CORS headers. -/
def behind (keys : ApiKeys) (req : Auth.Request) (routed : Reply) : Reply :=
  match auth keys req with
  | .noContent => noContent
  | .unauthorized => jsonReply 401 (errorBody "Unauthorized")
  | .passed _ => routed

/-- What the line of a request says of its key. -/
def keyColumn (keys : ApiKeys) (req : Auth.Request) : String :=
  match auth keys req with
  | .passed (some keyLabel) => .ofList keyLabel
  | _ => "-"

/-- What the line of a request says. -/
def said (keys : ApiKeys) (req : Auth.Request) (routed : Reply) (ms : ℕ) : Said where
  method := req.method
  route := routeTemplate req.path
  status := (behind keys req routed).status
  ms := ms
  cache := (behind keys req routed).cache
  key := keyColumn keys req

theorem auth_eq_noContent_iff : auth keys req = .noContent ↔ req.method = "OPTIONS" := by
  rw [auth]
  by_cases hmethod : req.method = "OPTIONS"
  · rw [if_pos hmethod]
    exact iff_of_true rfl hmethod
  · rw [if_neg hmethod]
    refine iff_of_false (fun h => ?_) hmethod
    split_ifs at h
    cases hkey : keys.matched ((req.apiKey.bind Auth.toStr).getD []) <;> simp [hkey] at h

/-- The response is what is behind the CORS headers with them; the line is what it should say. -/
theorem native_eq (routed : Reply) (ms : ℕ) :
    native keys req routed ms = (withCors (behind keys req routed),
      if req.method = "OPTIONS" then none else some (said keys req routed ms).line) := by
  have hiff : auth keys req = .noContent ↔ req.method = "OPTIONS" := auth_eq_noContent_iff
  cases hauth : auth keys req with
  | noContent =>
    rw [if_pos (hiff.1 hauth)]
    simp only [native, behind, hauth]
  | unauthorized =>
    rw [if_neg fun hmethod => Auth.Answer.noConfusion (hauth.symm.trans (hiff.2 hmethod))]
    simp only [native, behind, said, keyColumn, hauth]
    rfl
  | passed keyLabel =>
    rw [if_neg fun hmethod => Auth.Answer.noConfusion (hauth.symm.trans (hiff.2 hmethod))]
    simp only [native, behind, said, keyColumn, hauth]
    cases keyLabel <;> rfl

/-- A label is that of a key that the header is equal to. -/
theorem exists_key_of_passed {keyLabel : List Char} (h : auth keys req = .passed (some keyLabel)) :
    ∃ key ∈ keys.keys, Visible (bytes key) ∧ req.apiKey = some (bytes key) ∧
      keyLabel = label key := by
  have hmethod : req.method ≠ "OPTIONS" := fun hmethod =>
    Auth.Answer.noConfusion ((auth_eq_noContent_iff.2 hmethod).symm.trans h)
  have hpath : req.path ≠ "/health" := by
    intro hpath
    rw [auth, if_neg hmethod, if_neg (not_not.2 hpath)] at h
    cases h
  rw [Auth.auth_eq hmethod hpath] at h
  obtain ⟨key, hmem, hvisible, hheader, hlabel⟩ := Auth.answerOf_eq_passed_iff.1 h
  exact ⟨key, hmem, hvisible, hheader, Option.some.inj hlabel⟩

theorem keyColumn_cases (keys : ApiKeys) (req : Auth.Request) : keyColumn keys req = "-" ∨
    ∃ key ∈ keys.keys, Visible (bytes key) ∧ req.apiKey = some (bytes key) ∧
      keyColumn keys req = .ofList (label key) := by
  unfold keyColumn
  split
  · rename_i keyLabel hauth
    obtain ⟨key, hmem, hvisible, hheader, rfl⟩ := exists_key_of_passed hauth
    exact Or.inr ⟨key, hmem, hvisible, hheader, rfl⟩
  · exact Or.inl rfl

theorem printable_keyColumn (keys : ApiKeys) (req : Auth.Request) :
    Printable (keyColumn keys req).toList := by
  rcases keyColumn_cases keys req with hnone | ⟨key, -, hvisible, -, hlabel⟩
  · rw [hnone]
    exact printable_iff.2 (by decide)
  · rw [hlabel, String.toList_ofList]
    exact fun c hc => printable_of_visible hvisible c (List.mem_of_mem_take hc)

theorem printable_routeTemplate (path : String) :
    Printable (routeTemplate path).toList ∧ ' ' ∉ (routeTemplate path).toList := by
  have hall : ∀ template ∈ templates, Printable template.toList ∧ ' ' ∉ template.toList := by
    simp only [templates, List.forall_mem_cons, printable_iff]
    decide
  exact hall _ (routeTemplate_mem path)

/-- **In front of the routes.** For any request whose method is a token, and whatever the routes
answer: the two runtimes give one response and write one line. The response has the CORS headers
and is otherwise the preflight's, the 401 or what the routes answer. A line is written for
everything but a preflight; it has printable characters only, it can be read back in one way, and of
a key it has the first four characters, of one that is usable and equal to the header. -/
theorem worker_eq_native_and_line (hkeys : ApiKeys.parse list single = .ok keys)
    (hmethod : Token req.method) (routed : Reply) (ms : ℕ) :
    worker ⟨list, single, none⟩ req (.ok routed) ms = .ok (native keys req routed ms) ∧
      (∀ name, (native keys req routed ms).1.headers.lookup name =
        (corsHeaders.lookup name).or ((behind keys req routed).headers.lookup name)) ∧
      ((native keys req routed ms).2 = none ↔ req.method = "OPTIONS") ∧
      ∀ line ∈ (native keys req routed ms).2, line = (said keys req routed ms).line ∧
        Printable line.toList ∧
        (∀ x : Said, x.Readable → x.line = line → x = said keys req routed ms) ∧
        (keyColumn keys req = "-" ∨ ∃ key, Usable list single key ∧
          req.apiKey = some (bytes key) ∧ keyColumn keys req = .ofList (label key)) := by
  obtain ⟨hprintable, hspace⟩ := printable_routeTemplate req.path
  refine ⟨worker_eq_native hkeys req routed ms, ?_, ?_, ?_⟩
  · intro name
    rw [native_eq, lookup_withCors]
  · rw [native_eq]
    by_cases hoptions : req.method = "OPTIONS"
    · exact iff_of_true (if_pos hoptions) hoptions
    · simp [hoptions]
  · intro line hline
    rw [native_eq] at hline
    obtain ⟨-, rfl⟩ : req.method ≠ "OPTIONS" ∧ (said keys req routed ms).line = line := by
      simpa using hline
    refine ⟨rfl, Said.printable_line hmethod.printable hprintable (printable_keyColumn keys req),
      fun x hx hxline => Said.line_injective hx ⟨hmethod.space_not_mem, hspace⟩ hxline, ?_⟩
    refine (keyColumn_cases keys req).imp_right ?_
    rintro ⟨key, hmem, -, hheader, hlabel⟩
    rw [Auth.keys_of_parse hkeys] at hmem
    exact ⟨key, Auth.mem_configured_iff.1 hmem, hheader, hlabel⟩

end Requests

/-- A request with a key, to a path that is not served. -/
def scan : Auth.Request := ⟨"GET", "/etc/passwd", some (bytes "and-2".toList)⟩

/-- Two keys, as they are configured. -/
def twoKeys : ApiKeys where
  keys := Auth.configured (some "ios-1, and-2".toList) none
  keys_ne_nil := by decide
  trim_eq _ := Auth.trim_of_mem_configured

/-- What the routes answer to it. -/
def notFound : Reply := jsonReply 404 (errorBody "Not found")

theorem worker_eq_native_and_line_scan :
    (ApiKeys.parse (some "ios-1, and-2".toList) none = .ok twoKeys ∧ Token scan.method) ∧
      worker ⟨some "ios-1, and-2".toList, none, none⟩ scan (.ok notFound) 3 =
        .ok (native twoKeys scan notFound 3) ∧
      (native twoKeys scan notFound 3).2 ≠ none ∧
      ∀ line ∈ (native twoKeys scan notFound 3).2,
        line = "req method=GET route=other status=404 ms=3 cache=- key=and-" ∧
          Printable line.toList := by
  have hkeys : ApiKeys.parse (some "ios-1, and-2".toList) none = .ok twoKeys :=
    dif_neg twoKeys.keys_ne_nil
  have htoken : Token scan.method := by
    have hall : scan.method.toList.all (fun c => 0x20 < c.toNat && c.toNat < 0x7f) = true := by
      decide
    intro c hc
    simpa using List.all_eq_true.1 hall c hc
  obtain ⟨hworker, -, hnone, hline⟩ := worker_eq_native_and_line hkeys htoken notFound 3
  refine ⟨⟨hkeys, htoken⟩, hworker, fun h => absurd (hnone.1 h) (by decide), fun line hmem => ?_⟩
  obtain ⟨hsaid, hprintable, -⟩ := hline line hmem
  exact ⟨hsaid.trans (by decide +kernel), hprintable⟩

end Traintime.FrontDoor
