import Loot.Number.Numeral
import Loot.Text.Quoted
/-!
# Options

The words of a command line. Options start with two hyphens and may be shortened as long as only one
is meant. A value follows its option as the next word or after an equals sign. Two hyphens alone end
the options. One other word names a file; more words are too many.
-/
namespace Loot

inductive Rendering where
  | terminal
  | html
deriving DecidableEq, Repr

structure Options where
  file : Option Text := none
  tokens : Bool := false
  ast : Bool := false
  highlight : Option Rendering := none
deriving DecidableEq

inductive Request where
  | help
  /-- A command line that cannot be understood, with the reason. -/
  | misuse (text : Text)
  | run (options : Options)
deriving DecidableEq

inductive Flag where
  | help | tokens | ast | highlight
deriving DecidableEq, Repr

namespace Flag

def all : List Flag := [.help, .tokens, .ast, .highlight]

def name : Flag → Text
  | .help => "--help".toList
  | .tokens => "--tokens".toList
  | .ast => "--ast".toList
  | .highlight => "--highlight".toList

def shown : Flag → Text
  | .help => "-h/--help".toList
  | f => f.name

end Flag

/-! ## Words -/

inductive Word where
  | plain (text : Text)
  /-- The two hyphens that end the options. -/
  | divider
  | flag (f : Flag) (value : Option Text)
  /-- The short option for help, with the letters that follow it. -/
  | short (letters : Text)
  | unknown (text : Text)
deriving DecidableEq

namespace Word

def cutAtEquals (t : Text) : Text × Option Text :=
  match t.span (· != '=') with
  | (name, []) => (name, none)
  | (name, _ :: value) => (name, some value)

/-- Is there nothing left of the text but perhaps the newline of a line? -/
def isLineEnd (t : Text) : Bool := t.isEmpty || t == ['\n']

/-- Is the text a number with a hyphen in front? It is no option then. A newline may end it. -/
def isNegativeNumber : Text → Bool
  | '-' :: cs =>
    match Numeral.takeDigits cs with
    | (_, '.' :: cs) =>
      match Numeral.takeDigits cs with
      | (_ :: _, rest) => isLineEnd rest
      | _ => false
    | (_ :: _, rest) => isLineEnd rest
    | _ => false
  | _ => false

def stray (t : Text) : Word :=
  if isNegativeNumber t || t.contains ' ' then .plain t else .unknown t

/-- The form of a word in front of the divider. A name that more than one option starts with is
misuse. -/
def ofText (t : Text) : Except Text Word :=
  match t with
  | '-' :: '-' :: _ =>
    let (name, value) := cutAtEquals t
    match Flag.all.filter fun f => name.isPrefixOf f.name with
    | [] => .ok (stray t)
    | [f] => .ok (.flag f value)
    | fs =>
      .error ("ambiguous option: ".toList ++ t ++ " could match ".toList ++
        Text.join ", ".toList (fs.map Flag.name))
  | '-' :: 'h' :: letters => .ok (.short letters)
  | ['-'] => .ok (.plain t)
  | '-' :: _ => .ok (stray t)
  | _ => .ok (.plain t)

/-- The forms of all words. Behind the divider every word is plain. -/
def classify : List Text → Except Text (List Word)
  | [] => .ok []
  | t :: ts =>
    if t = "--".toList then .ok (.divider :: ts.map .plain)
    else do
      let w ← ofText t
      let ws ← classify ts
      pure (w :: ws)

end Word

/-! ## The command line as a whole -/

/-- Whether a file was named. Right after the word that named it, the divider is passed over. -/
inductive Slot where
  | open_
  | justFilled
  | closed
deriving DecidableEq

/-- An option ends the run of plain words before it. -/
def Slot.afterOption : Slot → Slot
  | .open_ => .open_
  | _ => .closed

namespace Options

def misuse (f : Flag) (text : Text) : Request :=
  .misuse ("argument ".toList ++ f.shown ++ ": ".toList ++ text)

def ignoredValue (f : Flag) (value : Text) : Request :=
  misuse f ("ignored explicit argument ".toList ++ value.quoted)

/-- The letters of a cluster of short options from the first one on that is no option. Only `h` is
one, and asks for help again. -/
def strayLetters? (letters : Text) : Option Text :=
  match letters.dropWhile (· == 'h') with
  | [] => none
  | stray => some stray

/-- What is attached to the short option for help and cannot be passed over. Other short options may
be, with an equals sign in front of them or not; but after an equals sign there must be something. -/
def misplaced? : Text → Option Text
  | ['='] => some []
  | '=' :: letters => strayLetters? letters
  | letters => strayLetters? letters

def rendering? (value : Text) : Option Rendering :=
  if value = "terminal".toList then some .terminal
  else if value = "html".toList then some .html
  else none

def invalidRendering (value : Text) : Request :=
  misuse .highlight ("invalid choice: ".toList ++ value.quoted ++
    " (choose from 'terminal', 'html')".toList)

/-- Goes through the words, with the options so far and the words so far that were too many, which
come backwards. The divider attached as the form in which to highlight stands for no form. -/
def collect (o : Options) (slot : Slot) (extra : List Text) : List Word → Request
  | [] =>
    if extra.isEmpty then .run o
    else .misuse ("unrecognized arguments: ".toList ++ Text.join [' '] extra.reverse)
  | .plain t :: ws =>
    match slot with
    | .open_ => collect { o with file := some t } .justFilled extra ws
    | _ => collect o .closed (t :: extra) ws
  | .divider :: ws =>
    match slot with
    | .closed => collect o .closed ("--".toList :: extra) ws
    | .justFilled => collect o .closed extra ws
    | .open_ => collect o .open_ extra ws
  | .unknown t :: ws => collect o slot.afterOption (t :: extra) ws
  | .short letters :: _ =>
    match misplaced? letters with
    | some value => ignoredValue .help value
    | none => .help
  | .flag .help none :: _ => .help
  | .flag .tokens none :: ws => collect { o with tokens := true } slot.afterOption extra ws
  | .flag .ast none :: ws => collect { o with ast := true } slot.afterOption extra ws
  | .flag .highlight (some value) :: ws =>
    match rendering? value with
    | some r => collect { o with highlight := some r } slot.afterOption extra ws
    | none =>
      if value = "--".toList then collect { o with highlight := none } slot.afterOption extra ws
      else invalidRendering value
  | .flag .highlight none :: .plain value :: ws =>
    match rendering? value with
    | some r => collect { o with highlight := some r } slot.afterOption extra ws
    | none => invalidRendering value
  | .flag .highlight none :: _ => misuse .highlight "expected one argument".toList
  | .flag f (some value) :: _ => ignoredValue f value

def read (args : List Text) : Request :=
  match Word.classify args with
  | .ok words => collect {} .open_ [] words
  | .error text => .misuse text

/-! ## Texts -/

def usage : String :=
  "usage: gamerscript [-h] [--tokens] [--ast] [--highlight \x7bterminal,html\x7d]\n" ++
  "                   [file]\n"

def help : String :=
  usage ++ "\nGamerScript interpreter\n\npositional arguments:\n" ++
  "  file                  file to interpret and run (if empty, goes to command-\n" ++
  "                        line mode)\n\noptions:\n" ++
  "  -h, --help            show this help message and exit\n" ++
  "  --tokens              print the token stream instead of running\n" ++
  "  --ast                 print the syntax tree instead of running\n" ++
  "  --highlight \x7bterminal,html\x7d\n" ++
  "                        print highlighted source instead of running\n"

end Options

end Loot
