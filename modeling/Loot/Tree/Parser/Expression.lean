import Loot.Tree.Parser.Basic
/-!
# Reading expressions

From the loosest to the tightest: equality, comparison, sums, products, then the minus sign in front
of an operand. Operators of one level group to the left. Every parser is given a number of steps;
one more than there are tokens is enough, since no step is taken without a token.
-/
namespace Loot

namespace Parser

def isEquality (k : Kind) : Bool := k == .equals

def isComparison (k : Kind) : Bool :=
  k == .greater || k == .greaterEqual || k == .less || k == .lessEqual

def isAdditive (k : Kind) : Bool := k == .plus || k == .minus

def isMultiplicative (k : Kind) : Bool := k == .star || k == .slash

def isLiteral (k : Kind) : Bool := k == .number || k == .string || k == .buffed || k == .nerfed

def startsExpression (k : Kind) : Bool :=
  isLiteral k || k == .identifier || k == .minus || k == .leftParen

/-- Goes on from a left operand with as many operators and operands as follow. -/
def chainFrom (operand : Parser Expr) (joins : Kind → Bool) : Nat → Expr → Parser Expr
  | 0, _ => outOfSteps
  | n + 1, left => do
    match ← accept joins with
    | none => pure left
    | some op =>
      let right ← operand
      chainFrom operand joins n (.binary left op right)

def chain (n : Nat) (joins : Kind → Bool) (operand : Parser Expr) : Parser Expr := do
  let left ← operand
  chainFrom operand joins n left

def expressionOver (n : Nat) (operand : Parser Expr) : Parser Expr :=
  chain n isEquality (chain n isComparison (chain n isAdditive (chain n isMultiplicative operand)))

/-- An operand: a literal, a variable, a call, an expression between parentheses, or a minus sign
and an operand. -/
def operand (eof : Token) : Nat → Parser Expr
  | 0 => outOfSteps
  | n + 1 => do
    match ← accept startsExpression with
    | none => unexpected eof
    | some t =>
      if t.kind = .minus then
        let e ← operand eof n
        pure (.unary t e)
      else if t.kind = .leftParen then
        let e ← expressionOver n (operand eof n)
        let _ ← expect eof .rightParen "expected ')' after expression"
        pure e
      else if t.kind = .identifier then
        match ← accept (· == .leftParen) with
        | none => pure (.variable t)
        | some _ =>
          let args ← items (expressionOver n (operand eof n)) n
          let _ ← expect eof .rightParen "expected ')' after arguments"
          pure (.call t args)
      else pure (.literal t)

def expression (eof : Token) (n : Nat) : Parser Expr := expressionOver n (operand eof n)

end Parser

end Loot
