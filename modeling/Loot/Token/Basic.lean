import Loot.Line
import Loot.Text.Quoted
/-!
# Tokens

A program is cut into tokens: words, signs, literals, and also the blanks, newlines and comments
between them, so that the tokens of a program hold its whole text. Kinds of tokens are numbered in
rows, and the class of a kind is its row.
-/
namespace Loot

/-- The kind of a token. The keywords go by their spelling. -/
inductive Kind where
  | loot | dlc | clutch | retry | ragequit | buffed | nerfed | farm | spawn | buff | nerf
  | plus | minus | star | slash | assign | equals | greater | greaterEqual | less | lessEqual
  | leftParen | rightParen | leftBrace | rightBrace | comma
  | identifier | number | string | comment | newline | blank | endOfFile
deriving DecidableEq, Repr

namespace Kind

def all : List Kind :=
  [.loot, .dlc, .clutch, .retry, .ragequit, .buffed, .nerfed, .farm, .spawn, .buff, .nerf,
   .plus, .minus, .star, .slash, .assign, .equals, .greater, .greaterEqual, .less, .lessEqual,
   .leftParen, .rightParen, .leftBrace, .rightBrace, .comma,
   .identifier, .number, .string, .comment, .newline, .blank, .endOfFile]

/-- The number of a kind. Keywords start at 0, operators at 20, delimiters at 40, the others at 60. -/
def code : Kind → Nat
  | .loot => 0 | .dlc => 1 | .clutch => 2 | .retry => 3 | .ragequit => 4 | .buffed => 5
  | .nerfed => 6 | .farm => 7 | .spawn => 8 | .buff => 9 | .nerf => 10
  | .plus => 20 | .minus => 21 | .star => 22 | .slash => 23 | .assign => 24 | .equals => 25
  | .greater => 26 | .greaterEqual => 27 | .less => 28 | .lessEqual => 29
  | .leftParen => 40 | .rightParen => 41 | .leftBrace => 42 | .rightBrace => 43 | .comma => 44
  | .identifier => 60 | .number => 61 | .string => 62 | .comment => 63 | .newline => 64
  | .blank => 65 | .endOfFile => 66

def label : Kind → String
  | .loot => "VAR" | .dlc => "FUNCTION" | .clutch => "IF" | .retry => "ELIF" | .ragequit => "ELSE"
  | .buffed => "TRUE" | .nerfed => "FALSE" | .farm => "WHILE" | .spawn => "RETURN"
  | .buff => "INCREMENT" | .nerf => "DECREMENT"
  | .plus => "PLUS" | .minus => "MINUS" | .star => "STAR" | .slash => "SLASH" | .assign => "ASSIGN"
  | .equals => "EQUALS" | .greater => "GREATER" | .greaterEqual => "GREATER_EQUAL"
  | .less => "LESS" | .lessEqual => "LESS_EQUAL"
  | .leftParen => "LEFT_PAREN" | .rightParen => "RIGHT_PAREN" | .leftBrace => "LEFT_BRACE"
  | .rightBrace => "RIGHT_BRACE" | .comma => "COMMA"
  | .identifier => "IDENTIFIER" | .number => "NUMBER" | .string => "STRING"
  | .comment => "COMMENT" | .newline => "NEWLINE" | .blank => "WHITESPACE" | .endOfFile => "EOF"

def isKeyword (k : Kind) : Bool := decide (k.code ≤ 10)

def isOperator (k : Kind) : Bool := decide (20 ≤ k.code ∧ k.code ≤ 29)

def isDelimiter (k : Kind) : Bool := decide (40 ≤ k.code ∧ k.code ≤ 44)

/-- Blanks and comments: what stands in a program without being part of its grammar. -/
def isTrivia (k : Kind) : Bool := k == .comment || k == .blank

/-- The sign of a binary operator, for messages. Other kinds go by their label. -/
def symbol : Kind → Text
  | .plus => "+".toList | .minus => "-".toList | .star => "*".toList | .slash => "/".toList
  | .equals => "==".toList | .greater => ">".toList | .greaterEqual => ">=".toList
  | .less => "<".toList | .lessEqual => "<=".toList
  | k => k.label.toList

end Kind

/-- A token: its kind, its text, and the line on which it starts. -/
structure Token where
  kind : Kind
  lexeme : Text
  line : Line
deriving DecidableEq

def Token.listed (t : Token) : Text :=
  "Token(".toList ++ t.kind.label.toList ++ ", ".toList ++ t.lexeme.quoted ++ ", line=".toList ++
    t.line.text ++ ")".toList

def dropTrivia (ts : List Token) : List Token := ts.filter fun t => !t.kind.isTrivia

end Loot
