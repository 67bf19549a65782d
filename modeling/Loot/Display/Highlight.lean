import Loot.Display.Style
import Loot.Token.Basic
/-!
# Highlighting

A program with its tokens in colours, for a terminal or as a piece of a web page. Each token goes by
its category.
-/
namespace Loot

inductive Category where
  | keyword | operator | delimiter | comment | number | string | other
deriving DecidableEq, Repr

def Kind.category (k : Kind) : Category :=
  if k.isKeyword then .keyword
  else if k.isOperator then .operator
  else if k.isDelimiter then .delimiter
  else
    match k with
    | .comment => .comment
    | .number => .number
    | .string => .string
    | _ => .other

namespace Category

def name : Category → String
  | .keyword => "keyword" | .operator => "operator" | .delimiter => "delimiter"
  | .comment => "comment" | .number => "number" | .string => "string" | .other => "other"

def colour : Category → Colour
  | .keyword => .yellow | .operator => .green | .delimiter => .white | .comment => .blue
  | .number => .red | .string => .cyan | .other => .cyan

def webColour : Category → String
  | .keyword => "#e6cd69" | .operator => "#9fca56" | .delimiter => "#cfd2d1"
  | .comment => "#41535b" | .number => "#cd3f45" | .string => "#55b5db" | .other => "#55b5db"

end Category

/-! ## On a terminal -/

/-- A token in its colour. Blanks, newlines and the end of file have none. -/
def Token.painted (paint : Painter) (t : Token) : Text :=
  match t.kind with
  | .blank | .newline | .endOfFile => t.lexeme
  | k => paint.coloured k.category.colour t.lexeme

def terminalText (ts : List Token) (paint : Painter := .ansi) : Text := ts.flatMap (Token.painted paint)

/-! ## On a web page -/

def webChar : Char → Text
  | '&' => "&amp;".toList
  | '<' => "&lt;".toList
  | '>' => "&gt;".toList
  | '"' => "&quot;".toList
  | '\'' => "&#x27;".toList
  | ' ' => "&nbsp;".toList
  | '\n' => "<br>".toList
  | c => [c]

def Token.span (t : Token) : Text :=
  "<span style='color:".toList ++ t.kind.category.webColour.toList ++ ";'>".toList ++
    t.lexeme.flatMap webChar ++ "</span>".toList

def webText (ts : List Token) : Text :=
  "<code style='font-family:\"Hack-Regular\", monospace; background-color:#151718;'>".toList ++
    (ts.filter fun t => t.kind != .endOfFile).flatMap Token.span ++ "</code>".toList

end Loot
