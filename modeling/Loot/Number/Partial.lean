import Loot.Crash
import Loot.Number.Numeral
/-!
# Operations that can fail

Two operations on numbers are the system's own, and partial.  There is no quotient by zero.  A text is read as more than
a numeral: blanks may stand around it and underscores between its digits, and there are words for what is not finite;
any other text is refused.
-/
namespace Loot

namespace Binary64

def divide (x y : Float) : Except Crash Float := if y == 0 then .error .zeroDivision else .ok (x / y)

/-! ## Texts -/

def nan : Float := ofIndex false 0x7FF8000000000000

/-- The text without the underscores between its digits.  No other underscore may stand in it. -/
def dropUnderscores (afterDigit : Bool) : Text → Option Text
  | [] => some []
  | c :: cs =>
    if c = '_' then
      if afterDigit && (cs.head?.bind digitValue?).isSome then dropUnderscores false cs else none
    else (dropUnderscores (digitValue? c).isSome cs).map (c :: ·)

def ofWord? (t : Text) : Option Float :=
  let (negative, word) := Numeral.takeSign t
  match String.ofList (word.map Char.toLower) with
  | "inf" | "infinity" => some (ofIndex negative infinity)
  | "nan" => some nan
  | _ => none

def read (t : Text) : Except Crash Float :=
  match (dropUnderscores false t.strip).bind fun t => (readNumber? t).or (ofWord? t) with
  | some x => .ok x
  | none => .error (.unreadableNumber t)

/-! ## Division by any number -/

def withSignOf (x y : Float) : Float := ofIndex (isNegative y) (index x)

/-- The quotient by zero is infinite, or no number. -/
def quotient (x y : Float) : Except Crash Float :=
  if y == 0 then
    if x == 0 || x.isNaN then .ok nan
    else .ok (withSignOf (ofIndex false infinity) x * withSignOf 1 y)
  else divide x y

end Binary64

end Loot
