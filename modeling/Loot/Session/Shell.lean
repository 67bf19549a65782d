import Loot.Session.Basic
/-!
# The shell

At a prompt a program is typed line by line. A line that leaves a string, a comment or a block open
is kept until later lines complete it. A few words are commands, as long as they stand alone on a line
and nothing is kept.
-/
namespace Loot

structure Shell where
  session : Session
  /-- The lines kept so far. -/
  buffer : Text := []
  /-- How many lines of program were typed. -/
  lineNumber : Nat := 0
  prompt : String := "> "

abbrev InShell (α : Type) := EStateM Stop Shell α

structure Reply where
  text : String := ""
  isDone : Bool := false

namespace Shell

def intro : String :=
  "GamerScript interpreter :: Python backend\nType 'help' for more information, 'exit' to quit.\n"

def primaryPrompt : String := "> "

def secondaryPrompt : String := ". "

def help : String :=
  "Welcome to GamerScript!\n\n" ++
  "Declare a variable with 'loot x = 1', print it with 'taunt(x)'. Functions are declared\n" ++
  "with 'dlc name(a, b) \x7b ... \x7d' and return with 'spawn'. Branch with 'clutch', 'retry' and\n" ++
  "'ragequit', loop with 'farm', step a number with 'buff' and 'nerf'.\n"

/-! ## Lines -/

/-- A typed line without the blanks around it. A question mark in front is short for help. -/
def cleaned (line : Text) : Text :=
  match line.strip with
  | '?' :: rest => "help ".toList ++ rest
  | stripped => stripped

def isCommandChar (c : Char) : Bool :=
  ('a' ≤ c && c ≤ 'z') || ('A' ≤ c && c ≤ 'Z') || ('0' ≤ c && c ≤ '9') || c == '_'

def command? (line : Text) : Option Text :=
  let word := line.takeWhile isCommandChar
  if (Text.strip (line.drop word.length)).isEmpty then some word else none

def inSession {α : Type} (action : InSession α) : InShell α := fun sh =>
  match action sh.session with
  | .ok a s => .ok a { sh with session := s }
  | .error stop s => .error stop { sh with session := s }

/-- Takes a line of program: keeps it, or runs what it completes. -/
def takeLine (line : Text) : InShell Unit := do
  let sh ← get
  let number := sh.lineNumber + 1
  let text := joinLine sh.buffer line
  if needsMore text then
    set { sh with lineNumber := number, buffer := text, prompt := secondaryPrompt }
  else
    set { sh with lineNumber := number, buffer := [], prompt := primaryPrompt }
    let _ ← inSession (Session.guarded (Session.feed text (some number)))

def step (line : Text) : InShell Reply := do
  let line := cleaned line
  if line.isEmpty then return {}
  if (← get).buffer.isEmpty then
    match (command? line).map String.ofList with
    | some "help" => return { text := help }
    | some "exit" => return { isDone := true }
    | some "EOF" => return { text := "\n", isDone := true }
    | _ => pure ()
  takeLine line
  return {}

end Shell

end Loot
