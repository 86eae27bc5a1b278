/-!
# Limits

Bounds on traversals, queries and leases, and how a value is brought within bounds.

- `Limits.clampInt`, `Limits.clamp?` : nearest value within bounds
- the constants that the settings start from and are held to
-/

namespace Bridgework
namespace Limits

/-! ## Constants -/

def maxUnwrapDepth : Nat := 32

def defaultUnwrapDepth : Nat := 8

def maxScanDepth : Nat := 64

def defaultScanDepth : Nat := 12

def maxScanObjects : Nat := 5000000

def defaultScanObjects : Nat := 500000

def maxChains : Nat := 100000

def defaultChains : Nat := 1000

def maxChainDepth : Nat := 512

def defaultChainDepth : Nat := 64

def minLeaseSeconds : Nat := 5

def defaultLeaseSeconds : Nat := 900

def minPollMillis : Nat := 10

def defaultPollMillis : Nat := 250

/-! ## Bringing a value within bounds -/

/-- Raises a number to the lower bound and then lowers it to the upper one, which wins. -/
def clampInt (value lower upper : Int) : Int := min (max value lower) upper

/-- The nearest positive number that is not above a bound. -/
def clamp (value upper : Nat) : Nat := min (max value 1) upper

/-- The same, for a bound that may leave no room. -/
def clamp? (value upper : Nat) : Option Nat := if upper = 0 then none else some (clamp value upper)

end Limits
end Bridgework
