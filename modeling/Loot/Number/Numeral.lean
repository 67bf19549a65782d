import Loot.Text.Digit
import Loot.Number.Binary64
/-!
# Numerals

The written form of a number: an optional sign, digits with an optional point among or around them,
and an optional exponent. Digits may come from any script. There are no separators, and no words for
infinity. A numeral denotes the nearest binary64 number.
-/
namespace Loot

/-- A numeral, read: its sign, all its digits in order, and the exponent of ten of the last one. -/
structure Numeral where
  negative : Bool
  digits : List Nat
  exponent : Int
deriving DecidableEq

namespace Numeral

/-- The values of the decimal digits at the start of a text, and the rest. -/
def takeDigits : Text → List Nat × Text
  | [] => ([], [])
  | c :: cs =>
    match digitValue? c with
    | some d => let (ds, rest) := takeDigits cs; (d :: ds, rest)
    | none => ([], c :: cs)

/-- A sign at the start of a text, and the rest. No sign is a plus. -/
def takeSign : Text → Bool × Text
  | '-' :: cs => (true, cs)
  | '+' :: cs => (false, cs)
  | cs => (false, cs)

def valueOf (ds : List Nat) : Nat := ds.foldl (fun n d => 10 * n + d) 0

/-- An exponent that reaches to the end of the text. The empty text is the exponent 0. -/
def exponent? : Text → Option Int
  | [] => some 0
  | c :: cs =>
    if c = 'e' ∨ c = 'E' then
      let (negative, cs) := takeSign cs
      match takeDigits cs with
      | ([], _) => none
      | (ds, []) => some (if negative then -(valueOf ds : Int) else valueOf ds)
      | (_, _ :: _) => none
    else none

/-- The digits after the point, if the text goes on with a point, and the rest. -/
def takeFraction : Text → List Nat × Text
  | '.' :: cs => takeDigits cs
  | cs => ([], cs)

def ofText? (t : Text) : Option Numeral :=
  let (negative, t) := takeSign t
  let (whole, t) := takeDigits t
  let (fraction, t) := takeFraction t
  match whole ++ fraction with
  | [] => none
  | digits => (exponent? t).map fun e => ⟨negative, digits, e - fraction.length⟩

/-- The index of the number nearest to the numeral without its sign. Exponents that leave the range
of the numbers on either side whatever the digits are not expanded. -/
def index (n : Numeral) : Nat :=
  let m := valueOf n.digits
  if m = 0 ∨ n.exponent + n.digits.length < -400 then 0
  else if 400 < n.exponent then Binary64.infinity
  else Binary64.nearest (m * tenTo n.exponent.toNat) (tenTo (-n.exponent).toNat)

def toFloat (n : Numeral) : Float := Binary64.ofIndex n.negative n.index

end Numeral

def readNumber? (t : Text) : Option Float := (Numeral.ofText? t).map Numeral.toFloat

end Loot
