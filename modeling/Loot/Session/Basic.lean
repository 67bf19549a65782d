import Loot.Machine.Exec
import Loot.Session.Reporter
import Loot.Tree.Outline
/-!
# Sessions

A session runs programs on one machine: the text of a file, or pieces of program typed one after
another, which see the variables and functions of the pieces before. It keeps the reporter informed of
the line at work.
-/
namespace Loot

/-- The lines of a text, given the line that was begun and the lines before it, both backwards. -/
def Text.linesFrom (line : Text) (done : List Text) : Text → List Text
  | [] => (line.reverse :: done).reverse
  | c :: cs =>
    if c = '\n' then linesFrom [] (line.reverse :: done) cs else linesFrom (c :: line) done cs

/-- The lines of a text. Newlines stand between lines. -/
def Text.lines (t : Text) : List Text := Text.linesFrom [] [] t

structure Session where
  reporter : Reporter
  /-- The name of the file in messages. -/
  path : Text
  source : Text := []
  machine : Machine := {}
  /-- The warnings and faults printed so far, the last one first. -/
  errors : List Text := []

abbrev InSession (α : Type) := EStateM Stop Session α

namespace Session

def typedPath : Text := "<in>".toList

/-- Opens a session. The contents of the file are its bytes, if it can be read. A session at a prompt
is never fatal. -/
def start (reporter : Reporter) (path : Text) (atPrompt : Bool) (contents : Option (List Nat))
    (input : Option Text) : Except Stop Session :=
  let r := reporter.openFile path
  let reporter := if atPrompt then { r with isFatal := false } else r
  let machine : Machine := { input }
  if path = typedPath then
    if atPrompt then .ok { reporter, path, machine }
    else .error (.fault { cause := .general "'<in>' is a reserved filename".toList })
  else if path.contains '\x00' then .error (.crash .nullInPath)
  else
    match contents with
    | none =>
      .error (.fault { cause := .general ("'".toList ++ path ++ "' could not be opened".toList) })
    | some bytes =>
      match Utf8.decode bytes with
      | .ok text => .ok { reporter, path, source := text.withNewlines, machine }
      | .error refusal => .error (.crash (.undecodable refusal))

def print (text : Text) : InSession Unit :=
  modify fun s => if text.isEmpty then s else { s with errors := text :: s.errors }

def warn (text : String) (line : Line) : InSession Unit := do
  print ((← get).reporter.warning text.toList line)

def modifyReporter (f : Reporter → Reporter) : InSession Unit :=
  modify fun s => { s with reporter := f s.reporter }

def onMachine {α : Type} (action : Run α) : InSession α := fun s =>
  match action s.machine with
  | .ok a m => .ok a { s with machine := m }
  | .error stop m => .error stop { s with machine := m }

def strayReturn : String := "'spawn' outside of a function stops the program"

/-- Runs a typed piece of program. Its text is the line at work until it is done. -/
def feed (source : Text) (number : Line) : InSession Flow := do
  let path := (← get).path
  modifyReporter (·.markLine path ⟨some source, number⟩)
  let flow ← onMachine (runSource .standard source)
  if flow != .normal then warn strayReturn number
  modifyReporter (·.clearLine path)
  pure flow

/-- The line of the source with the given number, counted from 1. -/
def sourceLine? (source : Text) (number : Int) : Option Text :=
  if number ≤ 0 then none else (Text.lines (source.filter (· != '\r')))[number.toNat - 1]?

def markFault (f : Fault) : InSession Unit := do
  let s ← get
  match f.line with
  | none => pure ()
  | some n =>
    match sourceLine? s.source n with
    | none => pure ()
    | some text => modifyReporter (·.markLine s.path ⟨some text, some n⟩)

def runFile : InSession Flow := do
  let source := (← get).source
  let flow ←
    try onMachine (runSource .standard source)
    catch stop =>
      if let .fault f := stop then markFault f
      throw stop
  if flow != .normal then warn strayReturn none
  pure flow

def ofExcept {α : Type} : Except Fault α → InSession α
  | .ok a => pure a
  | .error f => throw (.fault f)

def tokens : InSession (List Token) := do
  ofExcept (scanText (← get).source)

def statements : InSession (List Stmt) := do
  ofExcept (readProgram (← tokens))

def outlined : InSession Text := do
  pure (outline (← statements))

/-- Guards an action by the reporter. There is no result if a fault was printed. -/
def guarded {α : Type} (action : InSession α) : InSession (Option α) := do
  try
    let a ← action
    pure (some a)
  catch stop =>
    let (text, reporter, out) := (← get).reporter.settle (some (.stop stop))
    modifyReporter fun _ => reporter
    print text
    match out with
    | none => pure none
    | some stop => throw stop

def errorText (s : Session) : Text := s.errors.reverse.flatten

end Session

/-! ## Pieces of program -/

def countKind (kind : Kind) (ts : List Token) : Nat := ts.countP fun t => t.kind == kind

/-- Does a text need another line to be complete? It does while a string, a comment or a block is
open. A text with another fault needs none, so that the fault is reported. -/
def needsMore (text : Text) : Bool :=
  match scanText text with
  | .ok ts => decide (countKind .rightBrace ts < countKind .leftBrace ts)
  | .error f => f.cause == .unterminatedString || f.cause == .unterminatedComment

def joinLine (before line : Text) : Text := if before.isEmpty then line else before ++ '\n' :: line

end Loot
