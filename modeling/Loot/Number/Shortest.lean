import Loot.Number.Binary64
/-!
# The fewest digits that read back

A finite number is written with the fewest decimal digits from which `Binary64.nearest` gives it
back. On the grid of decimals with a given count of digits only the two neighbours of the number can
be the nearest hit, so these two are tried for one digit, two digits, and so on.
-/
namespace Loot

/-- A decimal fraction, `digits * 10 ^ exponent`. -/
structure Decimal where
  digits : Nat
  exponent : Int
deriving DecidableEq

namespace Binary64

/-- The value at an index, in units of 10^-1074. It is a natural number too. -/
def expanded (b : Nat) : Nat := scaled b * fiveTo 1074

/-- The first `k` from the given one on with `n < 10 ^ k`, within a number of tries. -/
def widthFrom (n : Nat) : Nat → Nat → Nat
  | 0, k => k
  | tries + 1, k => if n < tenTo k then k else widthFrom n tries (k + 1)

/-- How many decimal digits a number has. The search starts from the binary logarithm, as
1233/4096 lies just below the decimal logarithm of two. -/
def decimalWidth (n : Nat) : Nat := widthFrom n (n.log2 + 1) (n.log2 * 1233 / 4096)

/-- Does the multiple of a power of ten, in units of 10^-1074, read back as the index? -/
def readsBack (b multiple unit : Nat) : Bool := nearest (multiple * unit) (tenTo 1074) == b

/-- The neighbour of the value on a grid that reads back, given the unit of the grid. Of two the
nearer one is taken, and of two at the same distance the even one. -/
def onGrid? (b unit : Nat) : Option Nat :=
  let value := expanded b
  let below := value / unit
  let above := below + 1
  let middle := (below + above) * unit
  let nearerFirst :=
    if 2 * value < middle ∨ (2 * value = middle ∧ below % 2 = 0) then [below, above] else [above, below]
  nearerFirst.find? (readsBack b · unit)

/-- The fewest digits that read back. Seventeen suffice; failing that the exact value is written. -/
def shortest (b : Nat) : Decimal :=
  let width := decimalWidth (expanded b)
  let grid (i : Nat) : Option Decimal :=
    (onGrid? b (tenTo (width - (i + 1)))).map (⟨·, (width - (i + 1) : Nat) - (1074 : Int)⟩)
  ((List.range 17).findSome? grid).getD ⟨expanded b, -1074⟩

end Binary64

end Loot
