import Mathlib.Algebra.Order.Ring.Unbundled.Rat
import LoadBalancer.PyText

/-! The tunables that the connection code reads. They are module globals of the program, so every
result is proved for all of their values; `Config.default` has the values of the repository. -/

namespace LoadBalancer

/-- Times and durations in seconds. -/
abbrev Time := ℚ

structure Config where
  connectTimeout : Time
  maxRequestSize : Nat
  clientIdleTimeout : Time
  backendTimeout : Time
  clientSendTimeout : Time
  maxBackendRetries : Nat
  /-- Method names as code points: `str.upper` can leave the range of a byte. -/
  idempotentMethods : List (List Nat)

def Config.default : Config where
  connectTimeout := 5
  maxRequestSize := 10 * 1024 * 1024
  clientIdleTimeout := 30
  backendTimeout := 30
  clientSendTimeout := 30
  maxBackendRetries := 2
  idempotentMethods :=
    ["GET", "HEAD", "OPTIONS", "PUT", "DELETE"].map fun name => name.toList.map Char.toNat

end LoadBalancer
