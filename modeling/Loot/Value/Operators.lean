import Loot.Fault
import Loot.Token.Basic
import Loot.Value.Basic
/-!
# Operators

Arithmetic and order are for numbers, with the rules of binary64: a division by zero is infinite or
no number, and never an error. A plus with a string on either side joins texts. Equality takes any two
values, and values of different kinds are never equal. Nothing else has a rule.
-/
namespace Loot

namespace Value

/-- Are the two values equal? What is not a number equals nothing, not even itself, and the two zeros
are equal. -/
def equals : Value → Value → Bool
  | .null, .null => true
  | .boolean a, .boolean b => a == b
  | .number x, .number y => x == y
  | .string s, .string t => s == t
  | _, _ => false

end Value

def notNumber (s : Text) (line : Line) : Fault where
  cause := .running ("cannot convert '".toList ++ s ++ "' to a number".toList)
  line := line

namespace Value

/-- The value as a number. A string must be a numeral, with blanks around it or not. -/
def asNumber (line : Line) : Value → Except Fault Float
  | .null => .ok 0
  | .boolean b => .ok (if b then 1 else 0)
  | .number x => .ok x
  | .string s =>
    match readNumber? s.strip with
    | some x => .ok x
    | none => .error (notNumber s line)

def mismatch (op : Kind) (left right : Value) (line : Line) : Fault where
  cause := .mismatch <|
    "unsupported operand kinds for '".toList ++ op.symbol ++ "': ".toList ++
      left.kindName.toList ++ " and ".toList ++ right.kindName.toList
  line := line

def operate (op : Kind) (left right : Value) (line : Line) : Except Fault Value :=
  match op, left, right with
  | .equals, l, r => .ok (.boolean (l.equals r))
  | .plus, .number x, .number y => .ok (.number (x + y))
  | .plus, .string s, r => .ok (.string (s ++ r.text))
  | .plus, l, .string t => .ok (.string (l.text ++ t))
  | .minus, .number x, .number y => .ok (.number (x - y))
  | .star, .number x, .number y => .ok (.number (x * y))
  | .slash, .number x, .number y => .ok (.number (x / y))
  | .greater, .number x, .number y => .ok (.boolean (decide (y < x)))
  | .greaterEqual, .number x, .number y => .ok (.boolean (decide (y ≤ x)))
  | .less, .number x, .number y => .ok (.boolean (decide (x < y)))
  | .lessEqual, .number x, .number y => .ok (.boolean (decide (x ≤ y)))
  | op, l, r => .error (mismatch op l r line)

def negated (line : Line) : Value → Except Fault Value
  | .number x => .ok (.number (-x))
  | v =>
    .error {
      cause := .mismatch ("unsupported operand kind for unary '-': ".toList ++ v.kindName.toList)
      line }

end Value

end Loot
