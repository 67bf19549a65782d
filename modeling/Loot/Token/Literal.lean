import Loot.Text.Basic
/-!
# String literals

The text that a string literal stands for. Unknown escapes stand for themselves, backslash included.
-/
namespace Loot

def escape? : Char → Option Char
  | '\\' => some '\\'
  | '"' => some '"'
  | 'n' => some '\n'
  | 't' => some '\t'
  | 'r' => some '\r'
  | _ => none

/-- The text between the quotes, its escapes read. The texts read so far come last one first. -/
def literalBody (done : Text) : Text → Text
  | [] => done.reverse
  | '\\' :: c :: cs =>
    match escape? c with
    | some e => literalBody (e :: done) cs
    | none => literalBody ('\\' :: done) (c :: cs)
  | c :: cs => literalBody (c :: done) cs

/-- The text that a literal stands for. Its first and last character are the quotes. -/
def literalText (lexeme : Text) : Text := literalBody [] (lexeme.drop 1).dropLast

end Loot
