import Loot.Machine.Scope
import Loot.Machine.Stop
import Loot.Tree.Basic
/-!
# The machine

What a running program can see and change: the variables, the functions, the input that is left, and
the events so far. With them stands the clock of the system, which no run changes. A run changes the
machine and ends with a result or with the reason why it stopped; the machine is kept either way.
-/
namespace Loot

/-- A clock refuses some pauses, by a failure of its own.  Which ones and in which words is up to the system. -/
abbrev Clock := Float → Option Crash

/-- The clock that refuses what it cannot count, and nothing else: pauses of 2^63 nanoseconds and more. -/
def Clock.standard : Clock := fun seconds =>
  if 9223372036854775808 ≤ seconds * 1000000000 then some .pauseTooLong else none

inductive Event where
  | wrote (text : Text)
  | paused (seconds : Float)
deriving DecidableEq

structure Function where
  params : List Token
  body : List Stmt

structure Machine where
  scope : Scope := {}
  functions : Bindings Function := {}
  /-- The input that is left, if there is any source of input. -/
  input : Option Text := none
  /-- The events so far, the last one first. -/
  events : List Event := []
  clock : Clock := .standard

abbrev Run (α : Type) := EStateM Stop Machine α

namespace Run

def fault {α : Type} (cause : Cause) (line : Line) : Run α :=
  throw (.fault { cause, line })

def ofExcept {α : Type} : Except Fault α → Run α
  | .ok a => pure a
  | .error f => throw (.fault f)

def write (text : Text) : Run Unit :=
  modify fun m => { m with events := .wrote text :: m.events }

/-- A result of the system, or its failure in the place of one. -/
def ofSystem {α : Type} : Except Crash α → Run α
  | .ok a => pure a
  | .error c => throw (.crash c)

def pauseBy (clock : Clock) (seconds : Float) : Run Unit :=
  match clock seconds with
  | some c => throw (.crash c)
  | none => modify fun m => { m with events := .paused seconds :: m.events }

def pause (seconds : Float) : Run Unit := do pauseBy (← get).clock seconds

/-- Takes a line from the input, without its newline. There is none at the end of the input. -/
def readLine : Run (Option Text) := do
  match (← get).input with
  | none | some [] => pure none
  | some text =>
    let (line, rest) := text.cutLine
    modify fun m => { m with input := some (rest.getD []) }
    pure (some line)

def lookup (name : Token) : Run Value := do
  ofExcept ((← get).scope.get name.lexeme name.line)

def assign (name : Token) (v : Value) : Run Unit :=
  modify fun m => { m with scope := m.scope.set name.lexeme v }

/-- Declares a function. The last declaration of a name counts. -/
def define (name : Token) (f : Function) : Run Unit :=
  modify fun m => { m with functions := m.functions.set name.lexeme f }

def takeBack : Run Unit := do
  match (← get).scope.pop? with
  | some scope => modify fun m => { m with scope }
  | none => throw (.crash .nothingSaved)

/-- Runs an action on a saved copy of the variables and takes them back, however it ends. -/
def isolated {α : Type} (action : Run α) : Run α := fun m =>
  match action { m with scope := m.scope.push } with
  | .ok a m' => (do takeBack; pure a : Run α) m'
  | .error stop m' => (do takeBack; throw stop : Run α) m'

end Run

namespace Event

/-- The text that events wrote, given the last event first. -/
def written (events : List Event) : Text :=
  events.foldl (fun text e => match e with | .wrote t => t ++ text | .paused _ => text) []

/-- The pauses among events, given the last event first. -/
def pauses (events : List Event) : List Float :=
  events.foldl (fun ps e => match e with | .wrote _ => ps | .paused s => s :: ps) []

end Event

end Loot
