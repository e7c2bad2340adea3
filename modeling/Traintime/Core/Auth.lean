import Traintime.Core.Ojp.Scan
import Traintime.Lib.Utf8

/-!
# Client API keys

The keys of `core/src/auth.rs` and the two callers that check them: the middleware `auth` of
`server/src/main.rs` and `fetch` of the Worker. A header is read with `HeaderValue::to_str`, which
gives its text only if it is visible ASCII.

## Main definitions

* `ApiKeys`, `ApiKeys.parse`, `ApiKeys.matched`: the keys, none of them blank and at least one.
* `serverAnswer`, `workerAnswer`: what becomes of a request.
* `Usable`: the keys that a configuration gives.

## Main results

* `constantTimeEq_iff`, `ApiKeys.matched_eq_some_iff`: the comparison is equality.
* `serverAnswer_eq_passed_iff`, `workerAnswer_eq_passed_iff`: the requests that are let through.
* `passed_iff_authorized`: the two runtimes let the same requests through, and one entry more changes
  the answer for that key only.
-/

namespace Traintime.Auth

open Ojp (trim isWhitespace)

/-! ### Keys -/

/-- The UTF-8 bytes of a text, which keys and headers are compared by. -/
def bytes (s : List Char) : List UInt8 := Utf8.encode (String.ofList s)

/-- The keys of `API_KEYS`: its entries between commas, trimmed, without those that are blank. -/
def listKeys (list : Option (List Char)) : List (List Char) :=
  (((list.getD []).splitOn ',').map trim).filter (· ≠ [])

/-- The keys of `API_KEYS`, or else that of `API_KEY`. -/
def configured (list single : Option (List Char)) : List (List Char) :=
  if listKeys list = [] then ((single.map trim).filter (· ≠ [])).toList else listKeys list

/-- The client keys. There is at least one, and none is blank. -/
structure ApiKeys where
  keys : List (List Char)
  keys_ne_nil : keys ≠ []
  trim_eq : ∀ key ∈ keys, key ≠ [] ∧ ∃ entry, trim entry = key

theorem trim_of_mem_configured {list single : Option (List Char)} {key : List Char}
    (h : key ∈ configured list single) : key ≠ [] ∧ ∃ entry, trim entry = key := by
  rw [configured] at h
  split_ifs at h
  · rw [Option.mem_toList, Option.filter_eq_some_iff, Option.map_eq_some_iff] at h
    obtain ⟨⟨entry, -, hentry⟩, hne⟩ := h
    exact ⟨by simpa using hne, entry, hentry⟩
  · rw [listKeys, List.mem_filter, List.mem_map] at h
    obtain ⟨⟨entry, -, hentry⟩, hne⟩ := h
    exact ⟨by simpa using hne, entry, hentry⟩

namespace ApiKeys

/-- `ApiKeys::parse`: the keys that are configured, or the error with which the server does not
start when there are none. -/
def parse (list single : Option (List Char)) : Except String ApiKeys :=
  if h : configured list single = [] then
    .error "no API keys configured (API_KEYS or API_KEY)"
  else .ok ⟨configured list single, h, fun _ => trim_of_mem_configured⟩

end ApiKeys

/-- The comparison goes through all bytes of keys of one length. -/
def constantTimeEq (a b : List UInt8) : Bool :=
  if a.length ≠ b.length then false
  else (a.zip b).foldl (fun diff p => diff ||| (p.1 ^^^ p.2)) 0 == 0

/-- `ApiKeys::matched`: the key that is equal to the header. Every key is checked, whether an
earlier one is equal or not. -/
def ApiKeys.matched (keys : ApiKeys) (provided : List Char) : Option (List Char) :=
  keys.keys.foldl
    (fun found key => if constantTimeEq (bytes key) (bytes provided) then some key else found) none

/-- The first four characters of a key, which are safe to log. -/
def label (key : List Char) : List Char := key.take 4

/-! ### Requests -/

/-- What the check reads of a request. -/
structure Request where
  method : String
  path : String
  /-- The bytes of the first `x-api-key`. -/
  apiKey : Option (List UInt8)
deriving DecidableEq, Repr

/-- What becomes of a request before any route is asked: it goes through with the label of its key,
or it is answered at once. -/
inductive Answer
  /-- 204 for a preflight. -/
  | noContent
  /-- 401. -/
  | unauthorized
  /-- The request goes on to the routes; the label of its key is for the log. -/
  | passed (keyLabel : Option (List Char))
deriving DecidableEq, Repr

/-- `HeaderValue::to_str`: the text of a header of visible ASCII and tabs, and none of any other. -/
def toStr (value : List UInt8) : Option (List Char) :=
  if value.all fun b => (0x20 ≤ b && b < 0x7f) || b == 0x09 then
    some (value.map fun b => Char.ofNat b.toNat)
  else none

/-- The middleware `auth` of the native server. A preflight and the health check need no key. -/
def auth (keys : ApiKeys) (req : Request) : Answer :=
  if req.method = "OPTIONS" then .noContent
  else if req.path ≠ "/health" then
    let provided := (req.apiKey.bind toStr).getD []
    match keys.matched provided with
    | some key => .passed (some (label key))
    | none => .unauthorized
  else .passed none

/-- The native server on a request. Without keys it does not start and answers nothing. -/
def serverAnswer (list single : Option (List Char)) (req : Request) : Option Answer :=
  match ApiKeys.parse list single with
  | .ok keys => some (auth keys req)
  | .error _ => none

/-- The Worker on a request. Its `API_KEYS` and `API_KEY` are secrets or else variables. -/
def workerAnswer (list single : Option (List Char)) (req : Request) : Answer :=
  if req.method = "OPTIONS" then .noContent
  else if req.path ≠ "/health" then
    let providedKey := req.apiKey.bind toStr
    let keyLabel :=
      match ApiKeys.parse list single, providedKey with
      | .ok keys, some provided => (keys.matched provided).map label
      | _, _ => none
    if keyLabel.isNone then .unauthorized else .passed keyLabel
  else .passed none

/-! ### The comparison -/

theorem foldl_or_xor_eq_zero_iff {l : List (UInt8 × UInt8)} {diff : UInt8} :
    l.foldl (fun diff p => diff ||| (p.1 ^^^ p.2)) diff = 0 ↔ diff = 0 ∧ ∀ p ∈ l, p.1 = p.2 := by
  induction l generalizing diff with
  | nil => simp
  | cons p l ih =>
    rw [List.foldl_cons, ih, UInt8.or_eq_zero_iff, UInt8.xor_eq_zero_iff, List.forall_mem_cons,
      and_assoc]

/-- The comparison is equality. -/
theorem constantTimeEq_iff {a b : List UInt8} : constantTimeEq a b = true ↔ a = b := by
  rw [constantTimeEq]
  split_ifs with hlength
  · exact ⟨False.elim, fun h => absurd (congrArg List.length h) hlength⟩
  · rw [beq_iff_eq, foldl_or_xor_eq_zero_iff]
    rw [not_not] at hlength
    constructor
    · rintro ⟨-, h⟩
      refine List.ext_getElem hlength fun i ha hb => ?_
      have hi : i < (a.zip b).length := by
        rw [List.length_zip]
        omega
      have hpair := h _ (List.getElem_mem hi)
      rwa [List.getElem_zip] at hpair
    · rintro rfl
      refine ⟨rfl, fun p hp => ?_⟩
      obtain ⟨i, hi, rfl⟩ := List.getElem_of_mem hp
      rw [List.getElem_zip]

theorem bytes_injective : Function.Injective bytes := fun _ _ h =>
  String.ofList_injective (Utf8.encode_injective h)

/-- The last key that is equal to the one provided is found, and no other. -/
theorem ApiKeys.matched_eq_some_iff {keys : ApiKeys} {provided key : List Char} :
    keys.matched provided = some key ↔ key ∈ keys.keys ∧ key = provided := by
  rw [matched]
  induction keys.keys using List.reverseRecOn with
  | nil => simp
  | append_singleton ks k ih =>
    rw [List.foldl_concat]
    split_ifs with h
    · rw [constantTimeEq_iff] at h
      obtain rfl := bytes_injective h
      simp only [Option.some.injEq, List.mem_append, List.mem_singleton]
      exact ⟨fun h => ⟨.inr h.symm, h.symm⟩, fun h => h.2.symm⟩
    · rw [ih, List.mem_append, List.mem_singleton]
      refine ⟨fun h' => ⟨.inl h'.1, h'.2⟩, ?_⟩
      rintro ⟨hmem | rfl, rfl⟩
      · exact ⟨hmem, rfl⟩
      · exact absurd (constantTimeEq_iff.mpr rfl) h

/-! ### Headers -/

/-- The bytes that `to_str` takes: visible ASCII, blanks and tabs. -/
def Visible (value : List UInt8) : Prop := ∀ b ∈ value, 0x20 ≤ b ∧ b < 0x7f ∨ b = 0x09

instance (value : List UInt8) : Decidable (Visible value) :=
  inferInstanceAs (Decidable (∀ b ∈ value, _))

theorem utf8EncodeChar_ofNat {b : UInt8} (h : b < 0x80) :
    String.utf8EncodeChar (Char.ofNat b.toNat) = [b] := by
  have hall : (List.range 128).all fun n =>
      String.utf8EncodeChar (Char.ofNat n) == [n.toUInt8] := by decide
  have hb : b.toNat < 128 := h
  have hn := List.all_eq_true.mp hall b.toNat (List.mem_range.mpr hb)
  rw [beq_iff_eq] at hn
  rw [hn, Nat.toUInt8, UInt8.ofNat_toNat]

theorem Visible.bytes_map {value : List UInt8} (h : Visible value) :
    bytes (value.map fun b => Char.ofNat b.toNat) = value := by
  rw [bytes, Utf8.encode, String.toList_ofList, List.flatMap_map]
  induction value with
  | nil => rfl
  | cons b value ih =>
    obtain ⟨hb, hvalue⟩ := List.forall_mem_cons.mp h
    have hlt : b < 0x80 := by
      rcases hb with ⟨-, hb⟩ | rfl
      · exact UInt8.lt_trans hb (by decide)
      · decide
    rw [List.flatMap_cons, utf8EncodeChar_ofNat hlt, ih hvalue, List.singleton_append]

/-- A header is read as the text it encodes, if it is visible. -/
theorem toStr_eq_some_iff {value : List UInt8} {s : List Char} :
    toStr value = some s ↔ Visible value ∧ value = bytes s := by
  have hvisible : (value.all fun b => (0x20 ≤ b && b < 0x7f) || b == 0x09) = true ↔
      Visible value := by
    simp only [List.all_eq_true, Bool.or_eq_true, Bool.and_eq_true, decide_eq_true_eq, beq_iff_eq,
      Visible]
  rw [toStr]
  split_ifs with h <;> rw [hvisible] at h
  · rw [Option.some.injEq]
    constructor
    · rintro rfl
      exact ⟨h, h.bytes_map.symm⟩
    · rintro ⟨-, hvalue⟩
      exact bytes_injective (h.bytes_map.trans hvalue)
  · exact ⟨False.elim, fun h' => absurd h'.1 h⟩

/-! ### The keys of a configuration -/

/-- A key of the list: a part between commas, trimmed and not blank. -/
def IsEntry (list : Option (List Char)) (key : List Char) : Prop :=
  key ≠ [] ∧ ∃ text ∈ list, ∃ entry ∈ text.splitOn ',', trim entry = key

/-- A usable key: one of the list, or the single one where the list has none. -/
def Usable (list single : Option (List Char)) (key : List Char) : Prop :=
  IsEntry list key ∨
    (∀ k, ¬ IsEntry list k) ∧ key ≠ [] ∧ ∃ text ∈ single, trim text = key

theorem mem_listKeys_iff {list : Option (List Char)} {key : List Char} :
    key ∈ listKeys list ↔ IsEntry list key := by
  rw [listKeys, List.mem_filter, List.mem_map, IsEntry, and_comm, decide_eq_true_eq]
  refine and_congr_right fun hkey => ?_
  cases list with
  | some text => simp
  | none =>
    simp only [Option.getD_none, List.splitOn_nil, List.mem_singleton, exists_eq_left]
    have hnil : trim [] = [] := rfl
    rw [hnil]
    exact ⟨fun h => absurd h.symm hkey, fun h => by simp at h⟩

/-- The keys that are configured are the usable ones. -/
theorem mem_configured_iff {list single : Option (List Char)} {key : List Char} :
    key ∈ configured list single ↔ Usable list single key := by
  have hnil : listKeys list = [] ↔ ∀ k, ¬ IsEntry list k := by
    simp only [List.eq_nil_iff_forall_not_mem, mem_listKeys_iff]
  rw [configured, Usable]
  split_ifs with h
  · have hnone := hnil.mp h
    simp only [Option.mem_toList, Option.filter_eq_some_iff, Option.map_eq_some_iff,
      decide_eq_true_eq]
    constructor
    · rintro ⟨⟨text, htext, htrim⟩, hkey⟩
      exact .inr ⟨hnone, hkey, text, htext, htrim⟩
    · rintro (hentry | ⟨-, hkey, text, htext, htrim⟩)
      · exact absurd hentry (hnone key)
      · exact ⟨⟨text, htext, htrim⟩, hkey⟩
  · rw [mem_listKeys_iff]
    exact ⟨.inl, fun hor => hor.resolve_right fun hsingle => h (hnil.mpr hsingle.1)⟩

theorem configured_eq_nil_iff {list single : Option (List Char)} :
    configured list single = [] ↔ ∀ key, ¬ Usable list single key := by
  simp only [List.eq_nil_iff_forall_not_mem, mem_configured_iff]

/-! ### The requests that are let through -/

theorem parse_of_ne_nil {list single : Option (List Char)} (h : configured list single ≠ []) :
    ApiKeys.parse list single =
      .ok ⟨configured list single, h, fun _ => trim_of_mem_configured⟩ := dif_neg h

theorem parse_of_eq_nil {list single : Option (List Char)} (h : configured list single = []) :
    ApiKeys.parse list single = .error "no API keys configured (API_KEYS or API_KEY)" := dif_pos h

theorem keys_of_parse {list single : Option (List Char)} {keys : ApiKeys}
    (h : ApiKeys.parse list single = .ok keys) : keys.keys = configured list single := by
  by_cases hnil : configured list single = []
  · rw [parse_of_eq_nil hnil] at h
    cases h
  · rw [parse_of_ne_nil hnil] at h
    cases h
    rfl

section Requests

variable {req : Request} {keyLabel : Option (List Char)}

/-- A request goes on with a key if its header is visible and equal to the key. -/
def Accepts (keys : List (List Char)) (req : Request) (keyLabel : Option (List Char)) : Prop :=
  ∃ key ∈ keys, Visible (bytes key) ∧ req.apiKey = some (bytes key) ∧ keyLabel = some (label key)

theorem not_accepts_nil : ¬Accepts [] req keyLabel := by
  rintro ⟨key, hmem, -⟩
  cases hmem

theorem bind_toStr_eq_some_iff {s : List Char} :
    req.apiKey.bind toStr = some s ↔ Visible (bytes s) ∧ req.apiKey = some (bytes s) := by
  rw [Option.bind_eq_some_iff]
  constructor
  · rintro ⟨value, hvalue, hstr⟩
    obtain ⟨hvisible, rfl⟩ := toStr_eq_some_iff.mp hstr
    exact ⟨hvisible, hvalue⟩
  · rintro ⟨hvisible, hvalue⟩
    exact ⟨bytes s, hvalue, toStr_eq_some_iff.mpr ⟨hvisible, rfl⟩⟩

/-- The empty text is no key. -/
theorem ApiKeys.matched_nil (keys : ApiKeys) : keys.matched [] = none := by
  rw [Option.eq_none_iff_forall_ne_some]
  intro key hkey
  obtain ⟨hmem, rfl⟩ := ApiKeys.matched_eq_some_iff.mp hkey
  exact (keys.trim_eq _ hmem).1 rfl

/-- An absent header is as good as an empty one. -/
theorem ApiKeys.matched_getD (keys : ApiKeys) (provided : Option (List Char)) :
    keys.matched (provided.getD []) = provided.bind keys.matched := by
  cases provided with
  | none => exact keys.matched_nil
  | some s => rfl

theorem ApiKeys.bind_matched_eq_some_iff {keys : ApiKeys} {key : List Char} :
    (req.apiKey.bind toStr).bind keys.matched = some key ↔
      key ∈ keys.keys ∧ Visible (bytes key) ∧ req.apiKey = some (bytes key) := by
  rw [Option.bind_eq_some_iff]
  constructor
  · rintro ⟨provided, hprovided, hmatched⟩
    obtain ⟨hmem, rfl⟩ := ApiKeys.matched_eq_some_iff.mp hmatched
    exact ⟨hmem, bind_toStr_eq_some_iff.mp hprovided⟩
  · rintro ⟨hmem, hheader⟩
    exact ⟨key, bind_toStr_eq_some_iff.mpr hheader, ApiKeys.matched_eq_some_iff.mpr ⟨hmem, rfl⟩⟩

/-- What the key that matched makes of a request. -/
def answerOf : Option (List Char) → Answer
  | some key => .passed (some (label key))
  | none => .unauthorized

theorem answerOf_eq_passed_iff {keys : ApiKeys} :
    answerOf ((req.apiKey.bind toStr).bind keys.matched) = .passed keyLabel ↔
      Accepts keys.keys req keyLabel := by
  cases hkey : (req.apiKey.bind toStr).bind keys.matched with
  | none =>
    refine ⟨nofun, ?_⟩
    rintro ⟨key, hmem, hheader, hvalue, -⟩
    have hsome := ApiKeys.bind_matched_eq_some_iff.mpr ⟨hmem, hheader, hvalue⟩
    rw [hkey] at hsome
    cases hsome
  | some key =>
    obtain ⟨hmem, hvisible, hvalue⟩ := ApiKeys.bind_matched_eq_some_iff.mp hkey
    constructor
    · intro h
      exact ⟨key, hmem, hvisible, hvalue, (Answer.passed.inj h).symm⟩
    · rintro ⟨key', -, -, hvalue', rfl⟩
      rw [hvalue, Option.some.injEq] at hvalue'
      rw [bytes_injective hvalue']
      rfl

variable (hmethod : req.method ≠ "OPTIONS") (hpath : req.path ≠ "/health")
include hmethod hpath

theorem auth_eq (keys : ApiKeys) :
    auth keys req = answerOf ((req.apiKey.bind toStr).bind keys.matched) := by
  rw [auth, if_neg hmethod, if_pos hpath]
  simp only [ApiKeys.matched_getD]
  cases (req.apiKey.bind toStr).bind keys.matched <;> rfl

theorem workerAnswer_eq {list single : Option (List Char)} (h : configured list single ≠ []) :
    workerAnswer list single req = answerOf ((req.apiKey.bind toStr).bind
      (ApiKeys.mk (configured list single) h fun _ => trim_of_mem_configured).matched) := by
  rw [workerAnswer, if_neg hmethod, if_pos hpath, parse_of_ne_nil h]
  cases req.apiKey.bind toStr with
  | none => rfl
  | some provided =>
    simp only [Option.bind_some]
    cases (ApiKeys.mk (configured list single) h fun _ => trim_of_mem_configured).matched provided
      <;> rfl

theorem workerAnswer_of_eq_nil {list single : Option (List Char)}
    (h : configured list single = []) : workerAnswer list single req = .unauthorized := by
  rw [workerAnswer, if_neg hmethod, if_pos hpath, parse_of_eq_nil h]
  rfl

/-- Where there are keys, the native server and the Worker give one answer. -/
theorem serverAnswer_eq {list single : Option (List Char)} (h : configured list single ≠ []) :
    serverAnswer list single req = some (workerAnswer list single req) := by
  rw [workerAnswer_eq hmethod hpath h, serverAnswer, parse_of_ne_nil h]
  exact congrArg some (auth_eq hmethod hpath _)

theorem workerAnswer_eq_passed_iff {list single : Option (List Char)} :
    workerAnswer list single req = .passed keyLabel ↔
      Accepts (configured list single) req keyLabel := by
  by_cases h : configured list single = []
  · rw [workerAnswer_of_eq_nil hmethod hpath h, h]
    exact iff_of_false nofun not_accepts_nil
  · rw [workerAnswer_eq hmethod hpath h, answerOf_eq_passed_iff]

theorem serverAnswer_eq_passed_iff {list single : Option (List Char)} :
    serverAnswer list single req = some (.passed keyLabel) ↔
      Accepts (configured list single) req keyLabel := by
  by_cases h : configured list single = []
  · rw [serverAnswer, parse_of_eq_nil h, h]
    exact iff_of_false nofun not_accepts_nil
  · rw [serverAnswer_eq hmethod hpath h, Option.some.injEq, workerAnswer_eq_passed_iff hmethod hpath]

end Requests

/-- A blank text is no key. -/
theorem not_usable_of_blank {list single : Option (List Char)} {s : List Char}
    (h : ∀ c ∈ s, isWhitespace c = true) : ¬ Usable list single s := by
  intro husable
  obtain ⟨hne, entry, rfl⟩ := trim_of_mem_configured (mem_configured_iff.mpr husable)
  have hlast := List.rdropWhile_last_not isWhitespace (entry.dropWhile isWhitespace) hne
  exact hlast (h _ (List.getLast_mem hne))

/-! ### One entry more or less -/

/-- A list of entries as the value of `API_KEYS`. -/
def joined (entries : List (List Char)) : Option (List Char) := some ([','].intercalate entries)

theorem isEntry_joined_iff {entries : List (List Char)} (h : ∀ entry ∈ entries, ',' ∉ entry)
    {key : List Char} :
    IsEntry (joined entries) key ↔ key ≠ [] ∧ ∃ entry ∈ entries, trim entry = key := by
  rw [IsEntry]
  refine and_congr_right fun hkey => ?_
  simp only [joined, Option.mem_some_iff, exists_eq_left']
  by_cases hne : entries = []
  · subst hne
    constructor
    · rintro ⟨entry, hentry, rfl⟩
      rw [List.intercalate_nil, List.splitOn_nil, List.mem_singleton] at hentry
      subst hentry
      exact absurd rfl hkey
    · rintro ⟨entry, hentry, -⟩
      cases hentry
  · rw [List.splitOn_intercalate _ h hne]

theorem isEntry_insert_iff {pre post : List (List Char)} {added : List Char}
    (h : ∀ entry ∈ pre ++ added :: post, ',' ∉ entry) {key : List Char} :
    IsEntry (joined (pre ++ added :: post)) key ↔
      IsEntry (joined (pre ++ post)) key ∨ key ≠ [] ∧ key = trim added := by
  have h' : ∀ entry ∈ pre ++ post, ',' ∉ entry := by
    simp only [List.forall_mem_append, List.forall_mem_cons] at h ⊢
    exact ⟨h.1, h.2.2⟩
  rw [isEntry_joined_iff h, isEntry_joined_iff h', ← and_or_left]
  refine and_congr_right fun _ => ?_
  simp only [List.mem_append, List.mem_cons, or_and_right, exists_or, exists_eq_left]
  rw [eq_comm (a := key), or_assoc]
  exact or_congr_right or_comm

/-- One entry more changes the usable keys by that entry, as long as there are others. -/
theorem usable_insert_iff {pre post : List (List Char)} {added : List Char}
    (h : ∀ entry ∈ pre ++ added :: post, ',' ∉ entry) (hne : ∃ k, IsEntry (joined (pre ++ post)) k)
    {single : Option (List Char)} {key : List Char} :
    Usable (joined (pre ++ added :: post)) single key ↔
      Usable (joined (pre ++ post)) single key ∨ key ≠ [] ∧ key = trim added := by
  obtain ⟨k, hk⟩ := hne
  have hinsert := (isEntry_insert_iff h).mpr (.inl hk)
  have husable : ∀ {list}, IsEntry list k → (Usable list single key ↔ IsEntry list key) :=
    fun hentry => ⟨fun husable => husable.resolve_right fun hsingle => hsingle.1 k hentry, .inl⟩
  rw [husable hk, husable hinsert, isEntry_insert_iff h]

section Lists

variable {list list' single : Option (List Char)} {req : Request}
  (hmethod : req.method ≠ "OPTIONS") (hpath : req.path ≠ "/health")
include hmethod hpath

theorem workerAnswer_cases (list single : Option (List Char)) :
    workerAnswer list single req = .unauthorized ∨
    ∃ keyLabel, workerAnswer list single req = .passed keyLabel := by
  by_cases h : configured list single = []
  · exact .inl (workerAnswer_of_eq_nil hmethod hpath h)
  · rw [workerAnswer_eq hmethod hpath h]
    cases (req.apiKey.bind toStr).bind _ with
    | none => exact .inl rfl
    | some key => exact .inr ⟨_, rfl⟩

theorem workerAnswer_congr (h : ∀ keyLabel, Accepts (configured list single) req keyLabel ↔
    Accepts (configured list' single) req keyLabel) :
    workerAnswer list single req = workerAnswer list' single req := by
  simp only [← workerAnswer_eq_passed_iff hmethod hpath] at h
  rcases workerAnswer_cases hmethod hpath list single with hno | ⟨l, hyes⟩
  · rcases workerAnswer_cases hmethod hpath list' single with hno' | ⟨l, hyes⟩
    · rw [hno, hno']
    · rw [(h l).mpr hyes, hyes]
  · rw [(h l).mp hyes, hyes]

end Lists

/-- The request goes on, with a usable key that is equal to its header and visible. -/
def Authorized (list single : Option (List Char)) (req : Request)
    (keyLabel : Option (List Char)) : Prop :=
  ∃ key, Usable list single key ∧ Visible (bytes key) ∧ req.apiKey = some (bytes key) ∧
    keyLabel = some (label key)

theorem accepts_configured_iff {list single : Option (List Char)} {req : Request}
    {keyLabel : Option (List Char)} :
    Accepts (configured list single) req keyLabel ↔ Authorized list single req keyLabel := by
  simp only [Accepts, Authorized, mem_configured_iff]

/-- One entry more changes the answer to the requests with that key only. -/
theorem answer_insert_eq {pre post : List (List Char)} {added : List Char}
    (h : ∀ entry ∈ pre ++ added :: post, ',' ∉ entry) (hne : ∃ k, IsEntry (joined (pre ++ post)) k)
    (single : Option (List Char)) {req : Request} (hmethod : req.method ≠ "OPTIONS")
    (hpath : req.path ≠ "/health") (hkey : req.apiKey ≠ some (bytes (trim added))) :
    serverAnswer (joined (pre ++ added :: post)) single req =
        serverAnswer (joined (pre ++ post)) single req ∧
      workerAnswer (joined (pre ++ added :: post)) single req =
        workerAnswer (joined (pre ++ post)) single req := by
  have hworker : workerAnswer (joined (pre ++ added :: post)) single req =
      workerAnswer (joined (pre ++ post)) single req := by
    refine workerAnswer_congr hmethod hpath fun keyLabel => ?_
    rw [accepts_configured_iff, accepts_configured_iff]
    refine exists_congr fun key => ?_
    rw [usable_insert_iff h hne]
    constructor
    · rintro ⟨husable | ⟨-, rfl⟩, hvisible, hheader, hlabel⟩
      · exact ⟨husable, hvisible, hheader, hlabel⟩
      · exact absurd hheader hkey
    · rintro ⟨husable, hrest⟩
      exact ⟨.inl husable, hrest⟩
  obtain ⟨k, hk⟩ := hne
  have hsmall : configured (joined (pre ++ post)) single ≠ [] :=
    List.ne_nil_of_mem (mem_configured_iff.mpr (.inl hk))
  have hlarge : configured (joined (pre ++ added :: post)) single ≠ [] :=
    List.ne_nil_of_mem (mem_configured_iff.mpr (.inl ((isEntry_insert_iff h).mpr (.inl hk))))
  rw [serverAnswer_eq hmethod hpath hlarge, serverAnswer_eq hmethod hpath hsmall, hworker]
  exact ⟨rfl, rfl⟩

/-- Both runtimes let exactly the requests through whose header is visible and equal to a usable
key, report that key, and let nothing through without one. -/
theorem passed_iff_authorized (list single : Option (List Char)) (req : Request)
    (hmethod : req.method ≠ "OPTIONS") (hpath : req.path ≠ "/health") :
    (∀ keyLabel, serverAnswer list single req = some (.passed keyLabel) ↔
      Authorized list single req keyLabel) ∧
    (∀ keyLabel, workerAnswer list single req = .passed keyLabel ↔
      Authorized list single req keyLabel) ∧
    ((∀ key, ¬ Usable list single key) →
      serverAnswer list single req = none ∧ workerAnswer list single req = .unauthorized) ∧
    ((∀ value ∈ req.apiKey, ∃ s, value = bytes s ∧ ∀ c ∈ s, isWhitespace c = true) →
      ∀ keyLabel, ¬ Authorized list single req keyLabel) ∧
    (∀ keys, ApiKeys.parse list single = .ok keys → ∀ provided key,
      keys.matched provided = some key ↔ Usable list single key ∧ key = provided) ∧
    (∀ pre added post, (∀ entry ∈ pre ++ added :: post, ',' ∉ entry) →
      (∃ k, IsEntry (joined (pre ++ post)) k) → req.apiKey ≠ some (bytes (trim added)) →
      serverAnswer (joined (pre ++ added :: post)) single req =
          serverAnswer (joined (pre ++ post)) single req ∧
        workerAnswer (joined (pre ++ added :: post)) single req =
          workerAnswer (joined (pre ++ post)) single req) := by
  refine ⟨fun keyLabel => ?_, fun keyLabel => ?_, fun hnone => ?_, fun hblank keyLabel => ?_,
    fun keys hkeys provided key => ?_, fun pre added post h hne hkey => ?_⟩
  · rw [serverAnswer_eq_passed_iff hmethod hpath, accepts_configured_iff]
  · rw [workerAnswer_eq_passed_iff hmethod hpath, accepts_configured_iff]
  · have hnil := configured_eq_nil_iff.mpr hnone
    exact ⟨by rw [serverAnswer, parse_of_eq_nil hnil], workerAnswer_of_eq_nil hmethod hpath hnil⟩
  · rintro ⟨key, husable, -, hheader, -⟩
    obtain ⟨s, hs, hall⟩ := hblank _ hheader
    rw [bytes_injective hs] at husable
    exact not_usable_of_blank hall husable
  · rw [ApiKeys.matched_eq_some_iff, keys_of_parse hkeys, mem_configured_iff]
  · exact answer_insert_eq h hne single hmethod hpath hkey

/-- A key of the list goes through, and another one does not. -/
theorem passed_iff_authorized_get :
    serverAnswer (some "ios-1, and-2".toList) none ⟨"GET", "/v1/nearby", some (bytes "and-2".toList)⟩
      = some (.passed (some "and-".toList)) :=
  ((passed_iff_authorized _ _ _ (by decide) (by decide)).1 _).mpr
    ⟨"and-2".toList, .inl ⟨by decide, _, rfl, " and-2".toList, by decide, by decide⟩,
      by decide +kernel, rfl, rfl⟩

/-- A key that is not ASCII is turned away, even from a header equal to it. -/
theorem auth_not_ascii :
    let req : Request := ⟨"GET", "/v1/nearby", some (bytes ['é'])⟩
    Usable (some ['é']) none ['é'] ∧ req.apiKey = some (bytes ['é']) ∧
      serverAnswer (some ['é']) none req = some .unauthorized ∧
      workerAnswer (some ['é']) none req = .unauthorized := by
  refine ⟨.inl ⟨by decide, _, rfl, ['é'], by decide, by decide⟩, rfl, by decide, by decide⟩

end Traintime.Auth
