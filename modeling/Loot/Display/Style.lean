import Loot.Text.Basic
/-!
# Styled text

Text for a terminal is given its styles by a painter, which stands outside.  The common one puts the escape sequences of
a style before the text, and one that ends the style after it.
-/
namespace Loot

inductive Colour where
  | red | green | yellow | blue | magenta | cyan | white
deriving DecidableEq, Repr

namespace Colour

def name : Colour → String
  | .red => "red" | .green => "green" | .yellow => "yellow" | .blue => "blue"
  | .magenta => "magenta" | .cyan => "cyan" | .white => "white"

/-- The number of a colour in an escape sequence. -/
def code : Colour → Nat
  | .red => 31 | .green => 32 | .yellow => 33 | .blue => 34 | .magenta => 35 | .cyan => 36
  | .white => 97

end Colour

def Text.escapeSequence (n : Nat) : Text := '\x1b' :: '[' :: ofNat n ++ ['m']

structure Style where
  colour : Option Colour := none
  isBold : Bool := false

abbrev Painter := Style → Text → Text

namespace Painter

def ansi : Painter := fun style t =>
  let codes := (if style.isBold then [1] else []) ++ style.colour.toList.map Colour.code
  codes.flatMap Text.escapeSequence ++ t ++ Text.escapeSequence 0

variable (paint : Painter)

def coloured (c : Colour) : Text → Text := paint { colour := c }

def bold : Text → Text := paint { isBold := true }

def boldColoured (c : Colour) : Text → Text := paint { colour := c, isBold := true }

end Painter

end Loot
