import Loot.Machine.Basic
import Loot.Number.Partial
import Loot.Value.Operators
/-!
# Operators under guard

A running program divides and reads numbers by the partial operations of the system, each behind a check of its own.
-/
namespace Loot

namespace Run

/-- The value as a number. Only what is a numeral is given to the system to read. -/
def toNumber (line : Line) : Value → Run Float
  | .string s =>
    if (Numeral.ofText? s.strip).isSome then ofSystem (Binary64.read s.strip)
    else throw (.fault (notNumber s line))
  | v => ofExcept (v.asNumber line)

def operate (op : Kind) (left right : Value) (line : Line) : Run Value :=
  match op, left, right with
  | .slash, .number x, .number y => do pure (.number (← ofSystem (Binary64.quotient x y)))
  | op, l, r => ofExcept (Value.operate op l r line)

end Run

end Loot
