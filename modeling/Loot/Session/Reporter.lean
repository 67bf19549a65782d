import Loot.Display.Style
import Loot.Machine.Bindings
import Loot.Machine.Stop
/-!
# Reports

A reporter prints warnings and faults. It remembers, for each file at work, the line that is at work
if there is one, and quotes these lines in front of a fault. A fatal reporter ends the program after
the first fault; another one forgets the lines and goes on.
-/
namespace Loot

/-- The line of a file that is at work: its text and its number, as far as they are known. -/
structure Mark where
  text : Option Text := none
  number : Line := none
deriving DecidableEq

structure Reporter where
  isFatal : Bool := true
  trace : Bindings Mark := {}
  paint : Painter := .ansi

inductive Signal where
  | stop (s : Stop)
  /-- The user asked to stop. -/
  | interrupted
  /-- The work nested deeper than the system can hold. -/
  | tooDeep
deriving DecidableEq

namespace Reporter

def openFile (r : Reporter) (path : Text) : Reporter :=
  { r with trace := r.trace.set path {} }

def markLine (r : Reporter) (path : Text) (mark : Mark) : Reporter :=
  { r with trace := r.trace.set path mark }

def clearLine (r : Reporter) (path : Text) : Reporter := r.openFile path

/-! ## Warnings -/

/-- Where a warning belongs: the first file, and the line if it is known. -/
def location (r : Reporter) (line : Line) : Text :=
  match r.trace.entries, line with
  | [], _ => []
  | (path, _) :: _, none => path ++ ": ".toList
  | (path, _) :: _, some n => path ++ ":".toList ++ Text.ofInt n ++ ": ".toList

def warning (r : Reporter) (text : Text) (line : Line) : Text :=
  let location := r.location line
  (if location.isEmpty then [] else r.paint.bold location) ++ r.paint.boldColoured .magenta "warning: ".toList ++
    text ++ ['\n']

/-! ## Faults -/

def quotation : Text × Mark → Text
  | (_, ⟨none, _⟩) | (_, ⟨some [], _⟩) => []
  | (path, ⟨some text, number⟩) =>
    "  File '".toList ++ path ++ "', line ".toList ++
      number.text ++ ":\n    ".toList ++ text.strip ++ ['\n']

def quotations (r : Reporter) : Text :=
  match r.trace.entries.flatMap quotation with
  | [] => []
  | text => "Traceback:\n".toList ++ text

def report (r : Reporter) (f : Fault) : Text :=
  r.quotations ++ (if f.isInternal then r.paint.boldColoured .red "[internal] ".toList else []) ++
    r.paint.boldColoured .red "error: ".toList ++ f.text ++ ['\n']

def reset (r : Reporter) : Reporter := { r with trace := r.trace.map fun _ => {} }

/-- Prints a fault: the text, the reporter after it, and the exit of a fatal reporter. -/
def fail (r : Reporter) (f : Fault) : Text × Reporter × Option Stop :=
  if r.isFatal then (r.report f, r, some (.exit 1)) else (r.report f, r.reset, none)

def internalFault (c : Crash) : Fault where
  cause := .general ("unknown error: '".toList ++ c.name ++ ": ".toList ++ c.text ++ "'".toList)
  isInternal := true

/-- Guards work that has ended: faults are printed and go no further, crashes are printed and go on,
exits go on. Answers the text, the reporter after it, and what goes on. -/
def settle (r : Reporter) : Option Signal → Text × Reporter × Option Stop
  | none => ([], r, none)
  | some .interrupted => r.fail { cause := .general "keyboard interrupt".toList }
  | some .tooDeep => r.fail { cause := .general "maximum recursion depth exceeded".toList }
  | some (.stop (.fault f)) => r.fail f
  | some (.stop (.crash c)) =>
    let (text, r', out) := r.fail (internalFault c)
    (text, r', some (out.getD (.crash c)))
  | some (.stop (.exit code)) => ([], r, some (.exit code))
  | some (.stop .outOfRounds) => ([], r, some .outOfRounds)

end Reporter

end Loot
