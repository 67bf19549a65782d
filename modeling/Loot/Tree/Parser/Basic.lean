import Loot.Fault
import Loot.Tree.Basic
/-!
# Reading tokens

A parser takes tokens from the front of a list and either fails or answers a result with the tokens
left. The end-of-file token stands apart: where the list is empty, it is the next token. No parser
goes back.
-/
namespace Loot

inductive Failure where
  | fault (f : Fault)
  /-- The parser took more steps than it was given. -/
  | outOfSteps

abbrev Parser (α : Type) := StateT (List Token) (Except Failure) α

namespace Parser

def outOfSteps {α : Type} : Parser α := fun _ => .error .outOfSteps

/-- The next token, which is the end of file if no other is left. -/
def peek (eof : Token) (ts : List Token) : Token := ts.head?.getD eof

def failAt {α : Type} (line : Line) (text : Text) : Parser α := fun _ =>
  .error (.fault { cause := .grammar text, line })

def failHere {α : Type} (eof : Token) (text : Text) : Parser α := fun ts =>
  failAt (peek eof ts).line text ts

def unexpected {α : Type} (eof : Token) : Parser α := fun ts =>
  let shown := match ts with
    | [] => "end of file".toList
    | t :: _ => t.lexeme.quoted
  failHere eof ("unexpected token ".toList ++ shown) ts

def accept (test : Kind → Bool) : Parser (Option Token)
  | [] => .ok (none, [])
  | t :: ts => if test t.kind then .ok (some t, ts) else .ok (none, t :: ts)

def expect (eof : Token) (kind : Kind) (text : String) : Parser Token := do
  match ← accept (· == kind) with
  | some t => pure t
  | none => failHere eof text.toList

/-- Does the kind of the next token pass the test? At the end no test is passed. -/
def nextIs (test : Kind → Bool) : Parser Bool := fun ts => .ok (ts.head?.any (test ·.kind), ts)

def atEnd : Parser Bool := fun ts => .ok (ts.isEmpty, ts)

def skipNewlines : Parser Unit := fun ts => .ok ((), ts.dropWhile (·.kind == .newline))

def separated {α : Type} (item : Parser α) : Nat → Parser (List α)
  | 0 => outOfSteps
  | n + 1 => do
    let a ← item
    match ← accept (· == .comma) with
    | none => pure [a]
    | some _ => pure (a :: (← separated item n))

/-- Items with commas between them, or nothing before a closing parenthesis. -/
def items {α : Type} (item : Parser α) (n : Nat) : Parser (List α) := do
  if ← nextIs (· == .rightParen) then pure [] else separated item n

end Parser

end Loot
