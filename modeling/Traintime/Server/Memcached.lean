import Traintime.Lib.Utf8
import Traintime.Server.Cache

/-!
# The Memcached client: limits and keys

Constants and the key test of `server/src/memcached.rs`.
-/

namespace Traintime.Server

/-- A call slower than this is treated as a failure (50 ms). -/
def opTimeout : ℕ := 50000000

/-- How long Memcached is skipped after a failure before it is tried again. -/
def skipFor : ℕ := 30 * second

/-- Idle connections kept per pod. More than this are dropped after use. -/
def poolSize : ℕ := 8

/-- Memcached's own limit; longer keys are simply not shared. -/
def maxKeyLen : ℕ := 250

/-- `valid_key`: a key that Memcached can hold, of 1 to 250 bytes without control characters and
blanks. -/
def validKey (key : String) : Bool :=
  let bytes := Utf8.encode key
  !bytes.isEmpty && decide (bytes.length ≤ maxKeyLen) && !bytes.any fun b => b ≤ 0x20 || b == 0x7f

end Traintime.Server
