import Roster.Duration
import Roster.Text.Decimal

/-!
# Error — why a directory could not be asked, or discovery not be run

* `DiscoveryError`: the causes; a failed series of attempts holds the last of them.
* `isTransient`: asking again may help. `isCancelled`: no failure but a request to stop.
* `message`, `sources`: the words for a reader, and those of the causes below.
-/

namespace Roster

/-- What can go wrong. -/
inductive DiscoveryError where
  /-- The directory gave no usable answer. -/
  | directory (detail : String)
  /-- One attempt took longer than allowed. -/
  | timeout (operation : String) (after : Duration)
  /-- Every attempt failed; `last` is the failure of the last one. -/
  | exhausted (operation : String) (attempts : UInt32) (delay : Duration) (last : DiscoveryError)
  /-- The operation was asked to stop. -/
  | cancelled
  /-- Discovery has stopped for good. -/
  | shutdown
  | config (detail : String)
  | decode (detail : String)
  | runtime (detail : String)
  | io (detail : String)
deriving DecidableEq, Inhabited

namespace DiscoveryError

/-- The same operation may succeed when repeated. -/
def isTransient : DiscoveryError → Bool
  | directory _ | timeout _ _ | io _ => true
  | _ => false

/-- The error stands for a stop, not for a failure. -/
def isCancelled : DiscoveryError → Bool
  | cancelled | shutdown => true
  | _ => false

def message : DiscoveryError → String
  | directory detail => "directory query failed: " ++ detail
  | timeout operation after =>
    operation ++ " timed out after " ++ Decimal.write after.millis ++ "ms"
  | exhausted operation attempts delay last =>
    Decimal.write attempts.toNat ++ " attempt(s) with a " ++ Decimal.write delay.millis ++
      "ms sleep to execute [" ++ operation ++ "] failed; last failure was [" ++ last.message ++ "]"
  | cancelled => "operation cancelled"
  | shutdown => "discovery has been shut down"
  | config detail => "configuration error: " ++ detail
  | decode detail => "failed to decode directory response: " ++ detail
  | runtime detail => "runtime error: " ++ detail
  | io detail => "IO error: " ++ detail

/-- The words of the causes below the error, nearest first. -/
def sources : DiscoveryError → List String
  | exhausted _ _ _ last => last.message :: last.sources
  | io detail => [detail]
  | _ => []

end DiscoveryError

end Roster
