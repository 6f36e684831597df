import Inventory.Number.Double

/-!
# Policies

How often a transaction is tried and how long it waits before each try, and how patient the
caches are. A wait is a whole number of nanoseconds. It is worked out in seconds, as a double,
so that the growth factor can be any number.
-/

namespace Inventory

/-- A length of time in nanoseconds. -/
abbrev Nanoseconds := Nat

namespace Nanoseconds

/-- A length of time given in milliseconds. -/
def ofMillis (n : Nat) : Nanoseconds := n * 1000000

/-- A length of time given in seconds. -/
def ofSeconds (n : Nat) : Nanoseconds := n * 1000000000

/-- A length of time in seconds: the whole seconds and the rest of them are rounded each. -/
def toSeconds (t : Nanoseconds) : Double :=
  (Double.ofNat (t / 1000000000)).add (.ofRatio false (t % 1000000000) 1000000000)

/-- The length of time nearest to a number of seconds, which must not be negative. -/
def nearest (seconds : Double) : Nanoseconds :=
  roundHalfEven (Format.double.units seconds.magnitude * 1000000000) (twoPow Format.double.scale)

end Nanoseconds

/-- How a transaction is tried again after a conflict. The wait before a try is `initialDelay`,
times `multiplier` for every try after the second, and never above `maxDelay`. With `addJitter`
a random part of up to a quarter is added to it. -/
structure RetryPolicy where
  maxAttempts : Nat
  initialDelay : Nanoseconds
  maxDelay : Nanoseconds
  multiplier : Double
  addJitter : Bool
  deriving DecidableEq, Repr

namespace RetryPolicy

/-- How often a transaction is tried unless something else is asked for. -/
def defaultAttempts : Nat := 5

/-- How often a transaction is tried at least. -/
def minAttempts : Nat := 3

/-- A policy with a number of tries. -/
def new (maxAttempts : Nat) : RetryPolicy where
  maxAttempts := max maxAttempts minAttempts
  initialDelay := .ofMillis 5
  maxDelay := .ofMillis 200
  multiplier := .ofNat 2
  addJitter := true

/-- The policy for when nothing else is asked for. -/
def standard : RetryPolicy := new defaultAttempts

/-- How often a transaction is tried. -/
def attempts (p : RetryPolicy) : Nat := max p.maxAttempts minAttempts

/-- The largest exponent of the growth factor. -/
def maxExponent : Nat := twoPow 31 - 1

/-- The wait before a try, without the random part; the tries are counted from zero. -/
def delay (p : RetryPolicy) (attempt : Nat) : Nanoseconds :=
  if attempt = 0 then 0
  else
    let grown := p.initialDelay.toSeconds.mul (p.multiplier.pow (min (attempt - 1) maxExponent))
    .nearest (grown.min p.maxDelay.toSeconds)

end RetryPolicy

/-- How a sync is paced: how often an idle one looks whether it is to end, and how long waiting
for a revision takes unless something else is asked for. -/
structure SyncPolicy where
  pollInterval : Nanoseconds
  waitTimeout : Nanoseconds
  deriving DecidableEq, Repr

/-- The pace for when nothing else is asked for. -/
def SyncPolicy.standard : SyncPolicy := ⟨.ofMillis 50, .ofSeconds 10⟩

/-- The policies of a client of the store. -/
structure StorePolicy where
  retry : RetryPolicy
  sync : SyncPolicy
  deriving DecidableEq, Repr

/-- The policies for when nothing else is asked for. -/
def StorePolicy.standard : StorePolicy := ⟨.standard, .standard⟩

end Inventory
