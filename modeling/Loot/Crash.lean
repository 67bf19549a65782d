import Loot.Text.Utf8
/-!
# Failures of the system

The system around a program can fail it.  Most of these failures are ruled out by a check in front of what would fail;
the others come from numbers that are no exit code, from pauses that the clock refuses, and from files.  The words are
those of one version of the system.
-/
namespace Loot

inductive Crash where
  /-- An exit code that is not a number. -/
  | exitNotNumber
  /-- An exit code that is infinite. -/
  | exitInfinite
  /-- A pause that the clock cannot count. -/
  | pauseTooLong
  | zeroDivision
  /-- A text that the system reads no number from. -/
  | unreadableNumber (text : Text)
  /-- A place of a list that the list does not have. -/
  | outOfRange
  /-- Variables are taken back, and none were saved. -/
  | nothingSaved
  /-- A name that a table does not have. -/
  | missingKey (name : Text)
  /-- A path with a null character in it. No file can have it. -/
  | nullInPath
  /-- A file that is not UTF-8. -/
  | undecodable (refusal : Utf8.Refusal)
  /-- Any other failure, by the name and the words that the system gives it. -/
  | other (name text : Text)
deriving DecidableEq

namespace Crash

def name : Crash → Text
  | .exitNotNumber | .unreadableNumber _ | .nullInPath => "ValueError".toList
  | .exitInfinite | .pauseTooLong => "OverflowError".toList
  | .zeroDivision => "ZeroDivisionError".toList
  | .outOfRange | .nothingSaved => "IndexError".toList
  | .missingKey _ => "KeyError".toList
  | .undecodable _ => "UnicodeDecodeError".toList
  | .other name _ => name

def text : Crash → Text
  | .exitNotNumber => "cannot convert float NaN to integer".toList
  | .exitInfinite => "cannot convert float infinity to integer".toList
  | .pauseTooLong => "timestamp too large to convert to C _PyTime_t".toList
  | .zeroDivision => "float division by zero".toList
  | .unreadableNumber text => "could not convert string to float: ".toList ++ text.quoted
  | .outOfRange => "list index out of range".toList
  | .nothingSaved => "pop from empty list".toList
  | .missingKey name => name.quoted
  | .nullInPath => "embedded null byte".toList
  | .undecodable refusal => refusal.text
  | .other _ text => text

end Crash

end Loot
