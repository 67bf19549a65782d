import Loot.Command.Options
import Loot.Display.Highlight
import Loot.Session.Shell
/-!
# The command line

A command line with a file runs the file, or lists its tokens, its outline or its highlighted text.
One without a file starts a shell on the input. All work is guarded by one reporter.
-/
namespace Loot

inductive Effect where
  | out (text : Text)
  | err (text : Text)
  | pause (seconds : Float)
deriving DecidableEq

/-- A finished command: its effects in order, and how it stopped if it did not come to its end. -/
structure Outcome where
  effects : List Effect
  stop : Option Stop := none

namespace Effect

def ofEvent : Event → Effect
  | .wrote text => .out text
  | .paused seconds => .pause seconds

/-- The effects of a session so far, with those of its machine first. -/
def ofSession (s : Session) : List Effect :=
  (s.machine.events.map ofEvent).reverse ++ (s.errors.map Effect.err).reverse

end Effect

namespace Outcome

def output (o : Outcome) : Text :=
  o.effects.flatMap fun e => match e with | .out text => text | _ => []

def errors (o : Outcome) : Text :=
  o.effects.flatMap fun e => match e with | .err text => text | _ => []

def pauses (o : Outcome) : List Float :=
  o.effects.filterMap fun e => match e with | .pause seconds => some seconds | _ => none

end Outcome

namespace Command

def failed (r : Reporter) (stop : Stop) : Outcome :=
  let (text, _, out) := r.settle (some (.stop stop))
  ⟨[.err text], out⟩

/-! ## Files -/

/-- What is asked of a file: the text to print, after running it if it is to be run. -/
def onFile (paint : Painter) (o : Options) : InSession Text := do
  if o.tokens then
    pure ((← Session.tokens).flatMap fun t => t.listed ++ ['\n'])
  else if o.ast then
    pure ((← Session.outlined) ++ ['\n'])
  else
    match o.highlight with
    | some .terminal => pure (terminalText (← Session.tokens) paint)
    | some .html => pure (webText (← Session.tokens) ++ ['\n'])
    | none =>
      let _ ← Session.runFile
      pure []

def runFile (paint : Painter) (o : Options) (path : Text) (contents : Option (List Nat)) (input : Option Text) :
    Outcome :=
  let reporter : Reporter := { paint }
  match Session.start reporter path false contents input with
  | .error stop => failed reporter stop
  | .ok s =>
    match (Session.guarded (onFile paint o)) s with
    | .ok text s' => ⟨Effect.ofSession s' ++ [.out (text.getD [])], none⟩
    | .error stop s' => ⟨Effect.ofSession s', some stop⟩

/-- May the program in a file ask for input? Only one that names the function for it does. -/
def mayAsk (contents : List Nat) : Bool :=
  match Utf8.decode contents with
  | .ok text =>
    match scanText text.withNewlines with
    | .ok ts => ts.any fun t => Builtin.ofName? t.lexeme == some .quest
    | .error _ => false
  | .error _ => false

/-! ## The shell -/

def noted (sh : Shell) : Shell :=
  { sh with
    session := { sh.session with
      machine := { sh.session.machine with events := [] }
      errors := [] } }

/-- Prompts for lines and takes them until the shell is done. The end of the input counts as the line
`EOF`. The effects so far come backwards. -/
def converse (done : List Effect) : Nat → Shell → List Effect × Option Stop × Shell
  | 0, sh => (done, some .outOfRounds, sh)
  | n + 1, sh =>
    let done := .out sh.prompt.toList :: done
    let (line, sh) := match Shell.inSession (Session.onMachine Run.readLine) sh with
      | .ok line sh' => (line.getD "EOF".toList, sh')
      | .error _ sh' => ("EOF".toList, sh')
    match Shell.step line sh with
    | .error stop sh' => ((Effect.ofSession sh'.session).reverse ++ done, some stop, noted sh')
    | .ok reply sh' =>
      let done := .out reply.text.toList :: (Effect.ofSession sh'.session).reverse ++ done
      if reply.isDone then (done, none, noted sh') else converse done n (noted sh')

/-- Starts a shell on the input. It can take no more lines than the input has characters, and the end.
The reporter that guards each line guards the shell as a whole once more. -/
def runShell (paint : Painter) (input : Text) : Outcome :=
  let reporter : Reporter := { paint }
  match Session.start reporter Session.typedPath true none (some input) with
  | .error stop => failed reporter stop
  | .ok session =>
    let (done, stop, sh) := converse [.out Shell.intro.toList] (input.length + 2) { session }
    let (text, _, out) := sh.session.reporter.settle (stop.map .stop)
    ⟨(.err text :: done).reverse, out⟩

def run (files : Text → Option (List Nat)) (args : List Text) (input : Option Text)
    (paint : Painter := .ansi) : Outcome :=
  match Options.read args with
  | .help => ⟨[.out Options.help.toList], some (.exit 0)⟩
  | .misuse text =>
    ⟨[.err (Options.usage.toList ++ "gamerscript: error: ".toList ++ text ++ ['\n'])], some (.exit 2)⟩
  | .run o =>
    match o.file with
    | none => runShell paint (input.getD [])
    | some path => runFile paint o path (files path) input

end Command

end Loot
