import Loot.Line
/-!
# Faults

What can be wrong with a program, found while it is scanned, read or run. The first fault ends the
work. A fault has a cause, the line where it was found if that is known, and a mark for those that
are nobody's mistake but the interpreter's own.
-/
namespace Loot

inductive Cause where
  /-- Anything that is not about the text of a program, a file that cannot be opened. -/
  | general (text : Text)
  /-- A fault of scanning that has no case of its own. -/
  | lexical (text : Text)
  | unexpectedCharacter (shown : Text)
  | unterminatedString
  | unterminatedComment
  | invalidNumber (lexeme : Text)
  /-- A token that is missing or out of place. -/
  | grammar (text : Text)
  /-- A fault of running that has no case of its own. -/
  | running (text : Text)
  | undefinedVariable (name : Text)
  | undefinedFunction (name : Text)
  | callDepth (name : Text) (limit : Int)
  /-- An operator on operands of kinds that it has no rule for. -/
  | mismatch (text : Text)
  | arity (name : Text) (expected got : Int)
deriving DecidableEq

def Cause.message : Cause → Text
  | .general text => text
  | .lexical text => text
  | .unexpectedCharacter shown => "unexpected character '".toList ++ shown ++ "'".toList
  | .unterminatedString => "unterminated string literal".toList
  | .unterminatedComment => "unterminated comment".toList
  | .invalidNumber lexeme => "invalid number format '".toList ++ lexeme ++ "'".toList
  | .grammar text => text
  | .running text => text
  | .undefinedVariable name => "undefined variable '".toList ++ name ++ "'".toList
  | .undefinedFunction name => "undefined function '".toList ++ name ++ "'".toList
  | .callDepth name limit =>
    "calling '".toList ++ name ++ "' exceeds the maximum call depth of ".toList ++ Text.ofInt limit
  | .mismatch text => text
  | .arity name expected got =>
    "'".toList ++ name ++ "' expects ".toList ++ Text.ofInt expected ++ " argument(s), got ".toList ++
      Text.ofInt got

structure Fault where
  cause : Cause
  line : Line := none
  isInternal : Bool := false
deriving DecidableEq

def Fault.text (f : Fault) : Text :=
  match f.line with
  | none => f.cause.message
  | some n => f.cause.message ++ " at line ".toList ++ Text.ofInt n

end Loot
