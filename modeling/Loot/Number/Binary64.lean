/-!
# The numbers of binary64 by their index

The non-negative values of a 64-bit floating-point number stand in ascending order of their bit
patterns. So the pattern without its sign is an *index*: 0 is zero, `infinity` follows the largest
finite value, and what lies above it is no number. All finite values are multiples of 2^-1074, which
makes comparisons with a fraction exact in natural numbers.
-/
namespace Loot

def twoTo (n : Nat) : Nat := Nat.pow 2 n

def fiveTo (n : Nat) : Nat := Nat.pow 5 n

def tenTo (n : Nat) : Nat := Nat.pow 10 n

namespace Binary64

/-- How many indices share an exponent: 2^52. -/
def binade : Nat := 0x10000000000000

def infinity : Nat := 0x7FF0000000000000

/-- The bit pattern of the negative zero: 2^63. -/
def signBit : Nat := 0x8000000000000000

/-- The number one, in units of 2^-1074. -/
def unitScale : Nat := twoTo 1074

/-- The value at an index, in units of 2^-1074. -/
def scaled (b : Nat) : Nat :=
  if b < binade then b else (binade + b % binade) * twoTo (b / binade - 1)

/-- The last index whose value in units of 2^-1074 is at most `n`. -/
def floorIndex (n : Nat) : Nat :=
  if n < 2 * binade then n
  else (n.log2 - 52) * binade + n / twoTo (n.log2 - 52)

/-- The index whose value is nearest to `num / den`. Of two at the same distance it is the even one.
Half a step above the largest finite value, infinity begins. -/
def nearest (num den : Nat) : Nat :=
  let b := floorIndex (num * unitScale / den)
  let twice := 2 * (num * unitScale)
  let middle := (scaled b + scaled (b + 1)) * den
  let rounded := if twice < middle ∨ (twice = middle ∧ b % 2 = 0) then b else b + 1
  min rounded infinity

def ofIndex (negative : Bool) (b : Nat) : Float :=
  Float.ofBits (UInt64.ofNat (if negative then signBit + b else b))

/-- The index of a number, which forgets its sign. -/
def index (x : Float) : Nat := x.toBits.toNat % signBit

/-- Is the sign of the number negative? It may be for zero. -/
def isNegative (x : Float) : Bool := decide (signBit ≤ x.toBits.toNat)

/-- The integer at a finite number, or next to it toward zero. -/
def truncated (x : Float) : Int :=
  let n : Int := Int.ofNat (scaled (index x) / unitScale)
  if isNegative x then -n else n

end Binary64

end Loot
