import Loot.Machine.Guarded
/-!
# Built-in functions

Eight names always mean the same function, whatever a program declares. A built-in function evaluates
its arguments itself, those that it needs, in the scope of the caller.
-/
namespace Loot

inductive Builtin where
  /-- Writes a value, on a line of its own unless told otherwise. -/
  | taunt
  /-- Reads a line, after writing a prompt if there is one. -/
  | quest
  /-- Pauses for some seconds. -/
  | afk
  /-- Pauses for some milliseconds. -/
  | lag
  /-- Makes a number of a value. -/
  | stat
  /-- Makes a string of a value. -/
  | chat
  /-- Makes a boolean of a value. -/
  | patch
  /-- Ends the program with a code. -/
  | gameover
deriving DecidableEq, Repr

namespace Builtin

def table : List (Text × Builtin) :=
  [("taunt".toList, .taunt), ("quest".toList, .quest), ("afk".toList, .afk), ("lag".toList, .lag),
   ("stat".toList, .stat), ("chat".toList, .chat), ("patch".toList, .patch),
   ("gameover".toList, .gameover)]

def ofName? (name : Text) : Option Builtin := table.lookup name

def isName (name : Text) : Bool := table.any (·.1 == name)

def named (name : Text) : Run Builtin :=
  match ofName? name with
  | some b => pure b
  | none => throw (.crash (.missingKey name))

def argument (args : List (Run Value)) (i : Nat) : Run Value :=
  match args[i]? with
  | some arg => arg
  | none => throw (.crash .outOfRange)

def required (name : Token) (args : List (Run Value)) (i : Nat) : Run Value :=
  if i < args.length then argument args i
  else Run.fault (.arity name.lexeme (i + 1) args.length) name.line

def optional (args : List (Run Value)) (i : Nat) (default : Value) : Run Value :=
  if i < args.length then argument args i else pure default

def number (name : Token) (args : List (Run Value)) : Run Float := do
  let v ← required name args 0
  Run.toNumber name.line v

/-- A duration as it is passed on: what is not above zero is zero. -/
def duration (x : Float) : Float := if 0 < x then x else 0

/-- The exit code for a number: the integer next to it toward zero. -/
def exitCode (x : Float) : Except Crash Int :=
  let b := Binary64.index x
  if Binary64.infinity < b then .error .exitNotNumber
  else if b = Binary64.infinity then .error .exitInfinite
  else .ok (Binary64.truncated x)

/-- Runs a built-in function. The arguments come as the actions that evaluate them. -/
def run (b : Builtin) (name : Token) (args : List (Run Value)) : Run Value :=
  match b with
  | .taunt => do
    let text := (← optional args 0 .null).text
    let newline := (← optional args 1 (.boolean true)).isTrue
    Run.write (if newline then text ++ ['\n'] else text)
    pure .null
  | .quest => do
    if !args.isEmpty then
      let text := (← required name args 0).text
      Run.write (text ++ ['\n'])
    match ← Run.readLine with
    | some line => pure (.string line)
    | none => pure .null
  | .afk => do
    Run.pause (duration (← number name args))
    pure .null
  | .lag => do
    Run.pause (duration (← number name args) / 1000)
    pure .null
  | .stat => do
    pure (.number (← number name args))
  | .chat => do
    pure (.string (← required name args 0).text)
  | .patch => do
    pure (.boolean (← required name args 0).isTrue)
  | .gameover => do
    match exitCode (← number name args) with
    | .ok code => throw (.exit code)
    | .error crash => throw (.crash crash)

end Builtin

end Loot
