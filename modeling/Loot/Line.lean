import Loot.Text.Basic
/-!
# Lines

Tokens, faults and reports say on which line of a program they are, as far as that is known. Scanning
counts lines from 1. A token that was not scanned carries whatever number it was given, so a number
may also be none of the lines there are.
-/
namespace Loot

abbrev Line := Option Int

/-- A line in listings and quotations, with a word for one that is not known. -/
def Line.text : Line → Text
  | none => "None".toList
  | some n => Text.ofInt n

end Loot
