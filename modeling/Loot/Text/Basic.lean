/-!
# Text

Text is a list of characters: programs, names, strings, messages and everything printed. A `String`
appears only where text enters or leaves the program, and in literals.
-/
namespace Loot

abbrev Text := List Char

/-! ## Classes of characters

A class is given by the ranges of its code points in ascending order, so a look-up may stop at the
first range that starts above the code point. -/

/-- Does one of the ascending ranges, ends included, hold the number? -/
def inRanges : List (Nat × Nat) → Nat → Bool
  | [], _ => false
  | (lo, hi) :: rs, n => if n < lo then false else if n ≤ hi then true else inRanges rs n

def blankRanges : List (Nat × Nat) :=
  [(0x9, 0xD), (0x1C, 0x20), (0x85, 0x85), (0xA0, 0xA0), (0x1680, 0x1680), (0x2000, 0x200A),
   (0x2028, 0x2029), (0x202F, 0x202F), (0x205F, 0x205F), (0x3000, 0x3000)]

def isBlank (c : Char) : Bool := inRanges blankRanges c.toNat

namespace Text

def strip (t : Text) : Text := ((t.dropWhile isBlank).reverse.dropWhile isBlank).reverse

def ofNat (n : Nat) : Text := Nat.toDigits 10 n

def ofInt : Int → Text
  | .ofNat n => ofNat n
  | .negSucc n => '-' :: ofNat (n + 1)

def join (sep : Text) : List Text → Text
  | [] => []
  | [t] => t
  | t :: ts => t ++ sep ++ join sep ts

/-- The text cut at its first newline: the line, and what follows the newline if there is one. -/
def cutLine (t : Text) : Text × Option Text :=
  match t.span (· != '\n') with
  | (line, []) => (line, none)
  | (line, _ :: rest) => (line, some rest)

def newlines (t : Text) : Nat := t.count '\n'

end Text

end Loot
