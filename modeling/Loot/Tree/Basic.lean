import Loot.Token.Basic
/-!
# Trees

A program is a list of statements. Trees keep the tokens that they were made from, so every node
knows its line.
-/
namespace Loot

inductive Expr where
  | binary (left : Expr) (op : Token) (right : Expr)
  | unary (op : Token) (operand : Expr)
  | literal (token : Token)
  | variable (name : Token)
  | call (name : Token) (args : List Expr)

mutual

inductive Stmt where
  | expression (e : Expr)
  | declare (name : Token) (init : Option Expr)
  | block (body : List Stmt)
  | branch (condition : Expr) (body : Stmt) (rest : Chain)
  | loop (condition : Expr) (body : Stmt)
  | define (name : Token) (params : List Token) (body : List Stmt)
  | give (keyword : Token) (value : Option Expr)
  | assign (target : Token) (value : Expr)
  | increase (name : Token)
  | decrease (name : Token)
  /-- Stands where a statement was wanted and only the end of the program was left. -/
  | finish (eof : Token)

/-- What follows the first branch of a choice: more conditions, and perhaps a last resort. -/
inductive Chain where
  | done
  | otherwise (body : Stmt)
  | retry (condition : Expr) (body : Stmt) (rest : Chain)

end

def Expr.line : Expr → Line
  | .binary _ op _ => op.line
  | .unary op _ => op.line
  | .literal token => token.line
  | .variable name => name.line
  | .call name _ => name.line

/-- The line of a statement. A block has the line of its first statement, and line 0, which no
program has, if it is empty. -/
def Stmt.line : Stmt → Line
  | .expression e => e.line
  | .declare name _ => name.line
  | .block [] => some 0
  | .block (s :: _) => s.line
  | .branch condition _ _ => condition.line
  | .loop condition _ => condition.line
  | .define name _ _ => name.line
  | .give keyword _ => keyword.line
  | .assign target _ => target.line
  | .increase name => name.line
  | .decrease name => name.line
  | .finish eof => eof.line

end Loot
