import Loot.Text.Printable
/-!
# Quoted text

Messages and token listings show text between quotes on one line. Single quotes stand around it
unless the text holds a single quote and no double quote. Inside, the backslash, the quote in use and
what cannot be shown are written with a backslash.
-/
namespace Loot

namespace Text

def hexadecimal (width n : Nat) : Text :=
  let ds := Nat.toDigits 16 n
  List.replicate (width - ds.length) '0' ++ ds

/-- A character that cannot be shown, by its code point: two, four or eight hexadecimal digits. -/
def escapedCode (n : Nat) : Text :=
  if n < 0x100 then '\\' :: 'x' :: hexadecimal 2 n
  else if n < 0x10000 then '\\' :: 'u' :: hexadecimal 4 n
  else '\\' :: 'U' :: hexadecimal 8 n

def quotedChar (quote c : Char) : Text :=
  if c = quote ∨ c = '\\' then ['\\', c]
  else if c = '\n' then ['\\', 'n']
  else if c = '\r' then ['\\', 'r']
  else if c = '\t' then ['\\', 't']
  else if isPrintable c then [c]
  else escapedCode c.toNat

def quoteFor (t : Text) : Char := if t.contains '\'' && !t.contains '"' then '"' else '\''

def quoted (t : Text) : Text :=
  let q := quoteFor t
  q :: t.flatMap (quotedChar q) ++ [q]

end Text

end Loot
