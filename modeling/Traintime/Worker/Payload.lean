import Traintime.Lib.Json.Decode
import Traintime.Worker.Cache

/-!
# Entries of the edge cache as texts

What the edge cache keeps of a key is the JSON of the payload and its fetch time, and a payload is
itself a JSON text, so it is escaped as a string of that JSON.

## Main definitions

* `CachedPayload.text`, `CachedPayload.ofText`: an entry as a text and back.
* `Worker.judge`: what a request makes of a text it got.

## Main results

* `CachedPayload.ofText_text`: an entry is read again as it was.
* `Worker.judge_text`: it is judged by its age.
-/

namespace Traintime

open Json

namespace CachedPayload

/-- An entry as `serde_json` writes it into the edge cache. -/
def toJson (p : CachedPayload) : Value :=
  .obj [("fetched_at".toList, .num (ofInt p.fetchedAt)), ("payload".toList, .str p.payload.toList)]

/-- A number as an `u64` is read: an integer of 64 bits without a sign. -/
def asUInt64 (v : Value) : Option ℕ := (asInt 0 (2 ^ 64 - 1) v).map Int.toNat

/-- An entry from its fields, or from their values in order. -/
def ofJson : Value → Option CachedPayload
  | .obj fields => do
    return {
      fetchedAt := ← requiredField fields "fetched_at" asUInt64
      payload := .ofList (← requiredField fields "payload" asString) }
  | .arr [fetchedAt, payload] => do
    return { fetchedAt := ← asUInt64 fetchedAt, payload := .ofList (← asString payload) }
  | _ => none

/-- `serde_json::to_string(&entry)`: the text that is put into the edge cache. -/
def text (p : CachedPayload) : String := .ofList p.toJson.text

/-- `serde_json::from_str::<CachedPayload>`: the entry that a text from the edge cache is, if it is
one. -/
def ofText (raw : String) : Option CachedPayload := (read raw.toList).bind ofJson

theorem asUInt64_ofInt {n : ℕ} (hn : n < 2 ^ 64) : asUInt64 (.num (ofInt n)) = some n := by
  rw [asUInt64, asInt_ofInt (by omega)]
  rfl

/-- An entry is read again as it was, whatever its payload is. -/
theorem ofText_text {p : CachedPayload} (hp : p.fetchedAt < 2 ^ 64) : ofText p.text = some p := by
  have hdepth : p.toJson.depth ≤ 127 := by
    have : p.toJson.depth = 1 := rfl
    omega
  rw [ofText, text, String.toList_ofList, read_text hdepth, Option.bind_some]
  simp [toJson, ofJson, requiredField, field?, asUInt64_ofInt hp, asString]

end CachedPayload

namespace Worker

/-- What a request makes of the body it got for its key, at the instant it has it. -/
def judge (ttlSecs now : ℕ) (raw : String) : Cached :=
  match CachedPayload.ofText raw with
  | none => .missing
  | some entry =>
    match classify entry.fetchedAt (nowMs now) ttlSecs with
    | .fresh => .fresh entry.payload
    | .stale age => .stale entry.payload age
    | .expired => .missing

/-- The text of an entry is judged by its age. -/
theorem judge_text {p : CachedPayload} (hp : p.fetchedAt < 2 ^ 64) (ttlSecs now : ℕ) :
    judge ttlSecs now p.text =
      match classify p.fetchedAt (nowMs now) ttlSecs with
      | .fresh => .fresh p.payload
      | .stale age => .stale p.payload age
      | .expired => .missing := by
  rw [judge, CachedPayload.ofText_text hp]

end Worker

end Traintime
