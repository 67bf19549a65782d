import Loot.Number.Numeral
import Loot.Number.Written
/-!
# Values

A program computes with four kinds of values. Every number is a binary64 number.
-/
namespace Loot

inductive Value where
  | null
  | boolean (b : Bool)
  | number (x : Float)
  | string (s : Text)
deriving DecidableEq

namespace Value

def kindName : Value → String
  | .null => "null"
  | .boolean _ => "boolean"
  | .number _ => "number"
  | .string _ => "string"

/-- The value as text: nothing for null, `True` and `False` for the booleans. -/
def text : Value → Text
  | .null => []
  | .boolean true => "True".toList
  | .boolean false => "False".toList
  | .number x => numberText x
  | .string s => s

/-- Does the value count as true? Null, zero and the empty string do not. -/
def isTrue : Value → Bool
  | .null => false
  | .boolean b => b
  | .number x => x != 0
  | .string s => !s.isEmpty

end Value

end Loot
