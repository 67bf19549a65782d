import Loot.Tree.Parser.Expression
/-!
# Reading statements

Declarations of variables and functions stand at the top of a program, in a block or in the body of a
function. A branch or a loop takes a single statement, which is no declaration. A simple statement
ends with its line, before a closing brace or with the program.
-/
namespace Loot

namespace Parser

/-- The end of a simple statement: a newline, or nothing before a closing brace or the end. -/
def endStatement (eof : Token) (text : String) : Parser Unit := do
  match ← accept (· == .newline) with
  | some _ => pure ()
  | none => if (← atEnd) || (← nextIs (· == .rightBrace)) then pure () else failHere eof text.toList

/-- Statements up to a closing brace or the end, with newlines skipped between them. -/
def statements (item : Parser Stmt) : Nat → Parser (List Stmt)
  | 0 => outOfSteps
  | n + 1 => do
    skipNewlines
    if (← atEnd) || (← nextIs (· == .rightBrace)) then pure []
    else
      let s ← item
      pure (s :: (← statements item n))

def blockBody (eof : Token) (item : Parser Stmt) (n : Nat) : Parser (List Stmt) := do
  let body ← statements item n
  let _ ← expect eof .rightBrace "expected '\x7d' after block"
  pure body

def clauses (condition : Parser Expr) (body : Parser Stmt) : Nat → Parser Chain
  | 0 => outOfSteps
  | n + 1 => do
    match ← accept (· == .retry) with
    | some _ =>
      let c ← condition
      let s ← body
      pure (.retry c s (← clauses condition body n))
    | none =>
      match ← accept (· == .ragequit) with
      | some _ => pure (.otherwise (← body))
      | none => pure .done

/-- The line of the last token that was taken, given the tokens before and after. -/
def lastLine (before after : List Token) : Line :=
  (before.take (before.length - after.length)).getLast?.bind (·.line)

/-- An assignment, or an expression that may stand alone: a variable or a call. -/
def simpleStatement (eof : Token) (n : Nat) : Parser Stmt := fun before => do
  let (e, after) ← expression eof n before
  match e with
  | .variable name =>
    (do
      match ← accept (· == .assign) with
      | some _ =>
        let value ← expression eof n
        endStatement eof "expected newline after assignment"
        pure (.assign name value)
      | none =>
        endStatement eof "expected newline after expression"
        pure (.expression e) : Parser Stmt) after
  | .call _ _ =>
    (do
      endStatement eof "expected newline after expression"
      pure (.expression e) : Parser Stmt) after
  | _ => failAt (lastLine before after) "invalid expression statement".toList after

def declaration (eof : Token) (n : Nat) : Parser Stmt := do
  let name ← expect eof .identifier "expected variable name"
  match ← accept (· == .assign) with
  | some _ =>
    let e ← expression eof n
    endStatement eof "expected newline after variable declaration"
    pure (.declare name (some e))
  | none =>
    endStatement eof "expected newline after variable declaration"
    pure (.declare name none)

def definition (eof : Token) (item : Parser Stmt) (n : Nat) : Parser Stmt := do
  let name ← expect eof .identifier "expected function name"
  let _ ← expect eof .leftParen "expected '(' after function name"
  let params ← items (expect eof .identifier "expected parameter name") n
  let _ ← expect eof .rightParen "expected ')' after parameters"
  let _ ← expect eof .leftBrace "expected '\x7b' before function body"
  pure (.define name params (← blockBody eof item n))

def giving (eof : Token) (keyword : Token) (n : Nat) : Parser Stmt := do
  if (← atEnd) || (← nextIs fun k => k == .newline || k == .rightBrace) then
    endStatement eof "expected newline after return statement"
    pure (.give keyword none)
  else
    let e ← expression eof n
    endStatement eof "expected newline after return statement"
    pure (.give keyword (some e))

def startsStatement (declares : Bool) (k : Kind) : Bool :=
  k == .farm || k == .clutch || k == .leftBrace || k == .spawn || k == .buff || k == .nerf ||
    (declares && (k == .dlc || k == .loot))

/-- A statement, after newlines. Declarations count as statements where they are allowed. -/
def statement (eof : Token) : Nat → (declares : Bool) → Parser Stmt
  | 0, _ => outOfSteps
  | n + 1, declares => do
    skipNewlines
    match ← accept (startsStatement declares) with
    | some t =>
      if t.kind = .farm then
        let c ← expression eof n
        pure (.loop c (← statement eof n false))
      else if t.kind = .clutch then
        let c ← expression eof n
        let s ← statement eof n false
        pure (.branch c s (← clauses (expression eof n) (statement eof n false) n))
      else if t.kind = .leftBrace then
        pure (.block (← blockBody eof (statement eof n true) n))
      else if t.kind = .spawn then giving eof t n
      else if t.kind = .buff then
        pure (.increase (← expect eof .identifier "expected variable name after 'buff'"))
      else if t.kind = .nerf then
        pure (.decrease (← expect eof .identifier "expected variable name after 'nerf'"))
      else if t.kind = .dlc then definition eof (statement eof n true) n
      else declaration eof n
    | none =>
      if ← atEnd then pure (.finish eof)
      else if ← nextIs startsExpression then simpleStatement eof (n + 1)
      else unexpected eof

def program (item : Parser Stmt) : Nat → Parser (List Stmt)
  | 0 => outOfSteps
  | n + 1 => do
    if ← atEnd then pure []
    else
      let s ← item
      pure (s :: (← program item n))

end Parser

/-! ## From tokens to programs -/

def Failure.toFault : Failure → Fault
  | .fault f => f
  | .outOfSteps => { cause := .grammar "out of steps".toList, isInternal := true }

/-- Tokens to be read: how many were taken before, those ahead, and the end of file after them. -/
structure Reader where
  position : Nat
  ahead : List Token
  eof : Token

namespace Reader

/-- Takes tokens without blanks and comments, up to the first end of file. The last token must be an
end of file. -/
def ofTokens (ts : List Token) : Except Fault Reader :=
  let isEnd (t : Token) : Bool := t.kind == .endOfFile
  let kept := dropTrivia ts
  match kept.getLast? with
  | some last =>
    if isEnd last then
      .ok ⟨0, kept.takeWhile fun t => !isEnd t, (kept.find? isEnd).getD last⟩
    else .error { cause := .grammar "token stream must end with EOF".toList }
  | none => .error { cause := .grammar "token stream must end with EOF".toList }

def statements (r : Reader) : Except Fault (List Stmt × Reader) :=
  let steps := r.ahead.length + 1
  match Parser.program (Parser.statement r.eof steps true) steps r.ahead with
  | .ok (program, rest) =>
    .ok (program, { r with position := r.position + (r.ahead.length - rest.length), ahead := rest })
  | .error failure => .error failure.toFault

end Reader

def readProgram (ts : List Token) : Except Fault (List Stmt) := do
  let r ← Reader.ofTokens ts
  let (program, _) ← r.statements
  pure program

end Loot
