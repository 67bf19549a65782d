import Loot.Tree.Basic
/-!
# Outlines

A program written as nested lists, one statement on a line, each level indented by four spaces. An
expression stays on its line. Every function here writes its piece in front of the text that is to
follow it, so an outline is written in one pass.
-/
namespace Loot

mutual

def Expr.outlineOnto : Expr → Text → Text
  | .binary left op right, rest =>
    '(' :: op.lexeme ++ ' ' :: left.outlineOnto (' ' :: right.outlineOnto (')' :: rest))
  | .unary op operand, rest => '(' :: op.lexeme ++ ' ' :: operand.outlineOnto (')' :: rest)
  | .literal token, rest => token.lexeme ++ rest
  | .variable name, rest => name.lexeme ++ rest
  | .call name args, rest =>
    "(call ".toList ++ name.lexeme ++ Expr.outlinesOnto args (')' :: rest)

def Expr.outlinesOnto : List Expr → Text → Text
  | [], rest => rest
  | e :: es, rest => ' ' :: e.outlineOnto (Expr.outlinesOnto es rest)

end

def outlineMargin (depth : Nat) : Text := '\n' :: List.replicate (4 * depth) ' '

mutual

def Stmt.outlineOnto (depth : Nat) : Stmt → Text → Text
  | .expression e, rest => "(expr ".toList ++ e.outlineOnto (')' :: rest)
  | .declare name none, rest => "(var ".toList ++ name.lexeme ++ ')' :: rest
  | .declare name (some e), rest =>
    "(var ".toList ++ name.lexeme ++ ' ' :: e.outlineOnto (')' :: rest)
  | .block body, rest => "(block".toList ++ Stmt.outlinesOnto (depth + 1) body (')' :: rest)
  | .branch condition body chain, rest =>
    "(if ".toList ++ condition.outlineOnto (outlineMargin (depth + 1) ++
      body.outlineOnto (depth + 1) (chain.outlineOnto (depth + 1) (')' :: rest)))
  | .loop condition body, rest =>
    "(while ".toList ++ condition.outlineOnto (outlineMargin (depth + 1) ++
      body.outlineOnto (depth + 1) (')' :: rest))
  | .define name params body, rest =>
    "(func ".toList ++ name.lexeme ++ " (".toList ++ Text.join [' '] (params.map (·.lexeme)) ++
      ')' :: Stmt.outlinesOnto (depth + 1) body (')' :: rest)
  | .give _ none, rest => "(return)".toList ++ rest
  | .give _ (some e), rest => "(return ".toList ++ e.outlineOnto (')' :: rest)
  | .assign target value, rest =>
    "(set ".toList ++ target.lexeme ++ ' ' :: value.outlineOnto (')' :: rest)
  | .increase name, rest => "(inc ".toList ++ name.lexeme ++ ')' :: rest
  | .decrease name, rest => "(dec ".toList ++ name.lexeme ++ ')' :: rest
  | .finish _, rest => "(eof)".toList ++ rest

def Stmt.outlinesOnto (depth : Nat) : List Stmt → Text → Text
  | [], rest => rest
  | s :: ss, rest => outlineMargin depth ++ s.outlineOnto depth (Stmt.outlinesOnto depth ss rest)

/-- The clauses of a choice, each a list on a new line at the given depth. -/
def Chain.outlineOnto (depth : Nat) : Chain → Text → Text
  | .done, rest => rest
  | .otherwise body, rest =>
    outlineMargin depth ++ "(else".toList ++ outlineMargin (depth + 1) ++
      body.outlineOnto (depth + 1) (')' :: rest)
  | .retry condition body chain, rest =>
    outlineMargin depth ++ "(elif ".toList ++ condition.outlineOnto (outlineMargin (depth + 1) ++
      body.outlineOnto (depth + 1) (')' :: chain.outlineOnto depth rest))

end

def outline : List Stmt → Text
  | [] => []
  | s :: ss => s.outlineOnto 0 (Stmt.outlinesOnto 0 ss [])

end Loot
