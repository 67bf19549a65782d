import Loot.Fault
import Loot.Number.Numeral
import Loot.Token.Basic
/-!
# Scanning

A program is scanned from its first character on. At each place the next character decides what
token begins there, and the token reaches as far as it can. The text of all tokens in order is the
text of the program, except that a tab between tokens is shown as four spaces.
-/
namespace Loot

def withoutReturns (t : Text) : Text := t.filter fun c => c != '\r' && c != '\x0b' && c != '\x0c'

/-! ## Fixed tokens -/

def sign? : Char → Option Kind
  | ',' => some .comma
  | '+' => some .plus
  | '-' => some .minus
  | '*' => some .star
  | '/' => some .slash
  | '(' => some .leftParen
  | ')' => some .rightParen
  | '{' => some .leftBrace
  | '}' => some .rightBrace
  | _ => none

/-- The kinds of a sign that may be followed by an equals sign: alone, and together with it. -/
def relation? : Char → Option (Kind × Kind)
  | '=' => some (.assign, .equals)
  | '>' => some (.greater, .greaterEqual)
  | '<' => some (.less, .lessEqual)
  | _ => none

def keywords : List (Text × Kind) :=
  [("loot".toList, .loot), ("dlc".toList, .dlc), ("clutch".toList, .clutch),
   ("retry".toList, .retry), ("ragequit".toList, .ragequit), ("buffed".toList, .buffed),
   ("nerfed".toList, .nerfed), ("farm".toList, .farm), ("spawn".toList, .spawn),
   ("buff".toList, .buff), ("nerf".toList, .nerf)]

def wordKind (word : Text) : Kind := (keywords.lookup word).getD .identifier

/-! ## Tokens of varying length -/

/-- Looks for the quote that closes a string. A backslash and the character after it belong together,
so neither closes it. Answers what was seen before and the text up to the quote, in order. -/
def closeString (seen : Text) : Text → Option Text
  | [] => none
  | '"' :: _ => some ('"' :: seen).reverse
  | '\\' :: c :: cs => closeString (c :: '\\' :: seen) cs
  | c :: cs => closeString (c :: seen) cs

def closeComment (seen : Text) : Text → Option Text
  | [] => none
  | 'X' :: 'x' :: _ => some ('x' :: 'X' :: seen).reverse
  | c :: cs => closeComment (c :: seen) cs

def opensComment : Text → Bool
  | 'x' :: 'X' :: _ => true
  | _ => false

def isNumberPart (c : Char) : Bool := isDigit c || c == '.'

/-- The token at the start of a text with the first character `c`: its kind, and its text as it
stands there. -/
def nextToken (c : Char) (cs : Text) : Except Cause (Kind × Text) :=
  if c = '\n' then .ok (.newline, [c])
  else if c = ' ' ∨ c = '\t' then .ok (.blank, [c])
  else
    match sign? c, relation? c with
    | some kind, _ => .ok (kind, [c])
    | none, some (alone, paired) =>
      if cs.head? = some '=' then .ok (paired, [c, '=']) else .ok (alone, [c])
    | none, none =>
      if opensComment (c :: cs) then
        match closeComment ['X', 'x'] (cs.drop 1) with
        | some text => .ok (.comment, text)
        | none => .error .unterminatedComment
      else if isLetter c then
        let word := c :: cs.takeWhile isAlphanumeric
        .ok (wordKind word, word)
      else if isDigit c then
        let number := c :: cs.takeWhile isNumberPart
        if (Numeral.ofText? number).isSome then .ok (.number, number)
        else .error (.invalidNumber number)
      else if c = '"' then
        match closeString ['"'] cs with
        | some text => .ok (.string, text)
        | none => .error .unterminatedString
      else .error (.unexpectedCharacter [c])

/-! ## The whole text -/

/-- The text that a token shows: four spaces for a tab. -/
def shownLexeme (text : Text) : Text := if text = ['\t'] then List.replicate 4 ' ' else text

/-- Scans from a place on the given line. The first `pending` characters belong to the token before,
and `done` holds the tokens so far, the last one first. -/
def scanFrom (line : Nat) : (pending : Nat) → (done : List Token) → Text → Except Fault (List Token)
  | _, done, [] => .ok (⟨.endOfFile, [], some line⟩ :: done).reverse
  | pending + 1, done, _ :: cs => scanFrom line pending done cs
  | 0, done, c :: cs =>
    match nextToken c cs with
    | .error cause => .error { cause, line := some line }
    | .ok (kind, text) =>
      let token : Token := ⟨kind, shownLexeme text, some line⟩
      scanFrom (line + text.newlines) (text.length - 1) (token :: done) cs

/-- All tokens of a program, blanks and comments included, with one end-of-file token at the end. -/
def scanText (source : Text) : Except Fault (List Token) := scanFrom 1 0 [] (withoutReturns source)

end Loot
