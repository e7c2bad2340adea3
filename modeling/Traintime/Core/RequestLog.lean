import Mathlib.Data.Nat.Notation

/-!
# The request line

The line that both builds write for a request (`core/src/reqlog.rs`).

## Main definitions

* `CacheStatus`: whether a handler served the cached answer.
* `routeTemplate`, `formatLine`: the functions of the source.
* `templates`: all that a path can be logged as.

## Main results

* `routeTemplate_mem`: an unknown path is not in the line.
-/

namespace Traintime

/-- Whether the handler served the cached upstream answer. -/
inductive CacheStatus
  | none
  | hit
  | miss
deriving DecidableEq, Repr

/-- `CacheStatus::as_str`: the column of the line, a dash for a request that has nothing to do with
the cache. -/
def CacheStatus.asStr : CacheStatus → String
  | .none => "-"
  | .hit => "hit"
  | .miss => "miss"

/-- `route_template`: the path of a request if it is served, and `other` if it is not, so that no
path of a client gets into the line. -/
def routeTemplate (path : String) : String :=
  match path with
  | "/health" => "/health"
  | "/v1/nearby" => "/v1/nearby"
  | "/v1/departures" => "/v1/departures"
  | "/v1/formation" => "/v1/formation"
  | _ => "other"

/-- The key is the label of a valid one. -/
def formatLine (method path : String) (status ms : ℕ) (cache : CacheStatus) (key : Option String) :
    String :=
  "req method=" ++ method ++ " route=" ++ routeTemplate path ++ " status=" ++ toString status ++
    " ms=" ++ toString ms ++ " cache=" ++ cache.asStr ++ " key=" ++ key.getD "-"

/-- What a path is logged as: one of the paths that are served, or `other`. -/
def templates : List String :=
  ["/health", "/v1/nearby", "/v1/departures", "/v1/formation", "other"]

/-- Whatever path a scanner tries, only templates are logged. -/
theorem routeTemplate_mem (path : String) : routeTemplate path ∈ templates := by
  unfold routeTemplate templates
  split <;> simp

end Traintime
