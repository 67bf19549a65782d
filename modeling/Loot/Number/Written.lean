import Loot.Text.Basic
import Loot.Number.Shortest
/-!
# Writing numbers

A whole number below 10^16 is written as an integer. Any other finite number is written with the
fewest digits that read back: with a point among them while the first digit stands between the places
10^-4 and 10^15, and with an exponent of at least two digits beyond.
-/
namespace Loot

namespace Decimal

/-- The digits without zeros at the end, and the place of the point counted from the first digit. -/
def laidOut (d : Decimal) : Text × Int :=
  let ds := Nat.toDigits 10 d.digits
  ((ds.reverse.dropWhile (· == '0')).reverse, ds.length + d.exponent)

def positional (ds : Text) (point : Int) : Text :=
  if point ≤ 0 then '0' :: '.' :: List.replicate (-point).toNat '0' ++ ds
  else
    match ds.drop point.toNat with
    | [] => ds ++ List.replicate (point.toNat - ds.length) '0'
    | fraction => ds.take point.toNat ++ '.' :: fraction

/-- An exponent: its sign, and at least two digits. -/
def exponentText (e : Int) : Text :=
  let ds := Nat.toDigits 10 e.natAbs
  'e' :: (if e < 0 then '-' else '+') :: List.replicate (2 - ds.length) '0' ++ ds

/-- Digits with a point after the first one, if there are more, and an exponent. -/
def scientific (ds : Text) (point : Int) : Text :=
  let mantissa := match ds with
    | d :: d' :: more => d :: '.' :: d' :: more
    | short => short
  mantissa ++ exponentText (point - 1)

def toText (d : Decimal) : Text :=
  let (ds, point) := d.laidOut
  if -4 < point ∧ point ≤ 16 then positional ds point else scientific ds point

end Decimal

namespace Binary64

/-- Is the value at the index a whole number below 10^16? -/
def isShortWhole (b : Nat) : Bool :=
  decide (scaled b % unitScale = 0 ∧ scaled b < tenTo 16 * unitScale)

def magnitudeText (b : Nat) : Text :=
  if b = infinity then "inf".toList
  else if isShortWhole b then Text.ofNat (scaled b / unitScale)
  else (shortest b).toText

end Binary64

/-- The written form of a number. Zero has no sign. -/
def numberText (x : Float) : Text :=
  let b := Binary64.index x
  if Binary64.infinity < b then "nan".toList
  else if Binary64.isNegative x && b != 0 then '-' :: Binary64.magnitudeText b
  else Binary64.magnitudeText b

end Loot
