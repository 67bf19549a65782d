import Loot.Crash
import Loot.Fault
/-!
# Ways to stop

A run that does not complete stops for one of four reasons: a fault in the program, an exit that the
program asked for, a crash of the system around it, or a loop that used up its rounds.
-/
namespace Loot

inductive Stop where
  | fault (f : Fault)
  | exit (code : Int)
  | crash (c : Crash)
  | outOfRounds
deriving DecidableEq

end Loot
