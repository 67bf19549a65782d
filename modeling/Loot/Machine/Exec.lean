import Loot.Machine.Builtin
import Loot.Token.Literal
import Loot.Token.Scan
import Loot.Tree.Parser.Statement
/-!
# Running programs

Expressions and statements run along their structure. Two things could go on for ever, and each has
its bound: calls nest up to a depth, beyond which a call is a fault of the program, and a loop takes a
number of rounds, which is set so high that no program comes to its end.

The stack of the system is left out. An implementation may set it a limit of frames, some number for
each open call, and a run that nests calls and operators deeply enough would meet that limit first and
end in `Signal.tooDeep`. No run here does: what is shown of runs is shown of those for which the stack
suffices.
-/
namespace Loot

structure Limits where
  /-- How many calls may be open at a time. -/
  depth : Nat
  /-- How many rounds a loop may take. -/
  rounds : Nat

def Limits.standard : Limits := ⟨2000, 0x4000000000000000⟩

inductive Flow where
  | normal
  | returned (value : Value)
deriving DecidableEq

/-- How a call runs, given the name and the actions that evaluate its arguments. -/
abbrev Caller := Token → List (Run Value) → Run Value

/-! ## Expressions -/

def literalValue (t : Token) : Run Value :=
  match t.kind with
  | .number => do pure (.number (← Run.ofSystem (Binary64.read t.lexeme)))
  | .string => pure (.string (literalText t.lexeme))
  | kind => pure (.boolean (kind == .buffed))

mutual

def Expr.eval (caller : Caller) : Expr → Run Value
  | .literal token => literalValue token
  | .variable name => Run.lookup name
  | .unary op e => do
    let v ← e.eval caller
    Run.ofExcept (v.negated op.line)
  | .binary left op right => do
    let l ← left.eval caller
    let r ← right.eval caller
    Run.operate op.kind l r op.line
  | .call name args => caller name (Expr.evals caller args)

def Expr.evals (caller : Caller) : List Expr → List (Run Value)
  | [] => []
  | e :: es => e.eval caller :: Expr.evals caller es

end

/-! ## Statements -/

def repeatWhile (condition : Run Value) (body : Run Flow) : Nat → Run Flow
  | 0 => throw .outOfRounds
  | n + 1 => do
    if (← condition).isTrue then
      match ← body with
      | .normal => repeatWhile condition body n
      | .returned v => pure (.returned v)
    else pure .normal

def step (name : Token) (delta : Float) : Run Flow := do
  match ← Run.lookup name with
  | .number x =>
    Run.assign name (.number (x + delta))
    pure .normal
  | v =>
    Run.fault (.mismatch ("cannot step '".toList ++ name.lexeme ++ "' of kind ".toList ++
      v.kindName.toList)) name.line

mutual

def Stmt.exec (caller : Caller) (rounds : Nat) : Stmt → Run Flow
  | .expression e => do
    let _ ← e.eval caller
    pure .normal
  | .declare name none => do
    Run.assign name .null
    pure .normal
  | .declare name (some e) => do
    let v ← e.eval caller
    Run.assign name v
    pure .normal
  | .block body => Stmt.execAll caller rounds body
  | .branch condition body rest => do
    if (← condition.eval caller).isTrue then body.exec caller rounds
    else rest.exec caller rounds
  | .loop condition body => repeatWhile (condition.eval caller) (body.exec caller rounds) rounds
  | .define name params body => do
    Run.define name ⟨params, body⟩
    pure .normal
  | .give _ none => pure (.returned .null)
  | .give _ (some e) => do
    let v ← e.eval caller
    pure (.returned v)
  | .assign target e => do
    let v ← e.eval caller
    Run.assign target v
    pure .normal
  | .increase name => step name 1
  | .decrease name => step name (-1)
  | .finish _ => pure .normal

def Stmt.execAll (caller : Caller) (rounds : Nat) : List Stmt → Run Flow
  | [] => pure .normal
  | s :: ss => do
    match ← s.exec caller rounds with
    | .normal => Stmt.execAll caller rounds ss
    | .returned v => pure (.returned v)

def Chain.exec (caller : Caller) (rounds : Nat) : Chain → Run Flow
  | .done => pure .normal
  | .otherwise body => body.exec caller rounds
  | .retry condition body rest => do
    if (← condition.eval caller).isTrue then body.exec caller rounds
    else rest.exec caller rounds

end

/-! ## Calls -/

def inOrder : List (Run Value) → Run (List Value)
  | [] => pure []
  | action :: actions => do
    let v ← action
    let vs ← inOrder actions
    pure (v :: vs)

/-- Binds parameters to values, as far as both go. -/
def bindParams : List Token → List Value → Run Unit
  | p :: ps, v :: vs => do
    Run.assign p v
    bindParams ps vs
  | _, _ => pure ()

/-- A call by name, given how to enter a declared function with its arguments. Built-in functions come
first. A call needs at least as many arguments as the function has parameters. -/
def callWith (enter : Token → Function → List Value → Run Value) : Caller := fun name args =>
  if Builtin.isName name.lexeme then do
    let builtin ← Builtin.named name.lexeme
    builtin.run name args
  else do
    match (← get).functions.get? name.lexeme with
    | none => Run.fault (.undefinedFunction name.lexeme) name.line
    | some f =>
      if args.length < f.params.length then
        Run.fault (.arity name.lexeme f.params.length args.length) name.line
      else
        let values ← inOrder args
        enter name f values

/-- Enters a declared function, if there is room for one more open call. The value of the call is what
the body gives back, or null. -/
def enter (limits : Limits) : (room : Nat) → Token → Function → List Value → Run Value
  | 0, name, _, _ => Run.fault (.callDepth name.lexeme limits.depth) name.line
  | room + 1, _, f, values => Run.isolated do
    bindParams f.params values
    match ← Stmt.execAll (callWith (enter limits room)) limits.rounds f.body with
    | .normal => pure .null
    | .returned v => pure v

/-- How calls run while there is room for the given number of open calls. -/
def caller (limits : Limits) (room : Nat) : Caller := callWith (enter limits room)

/-! ## Programs -/

/-- Runs a program. The calls that are open already count toward the depth. -/
def runProgram (limits : Limits) (program : List Stmt) : Run Flow := do
  let room := limits.depth - (← get).scope.depth
  Stmt.execAll (caller limits room) limits.rounds program

/-- Scans, reads and runs a program. A program with a fault in its text does not start. -/
def runSource (limits : Limits) (source : Text) : Run Flow := do
  let program ← Run.ofExcept (scanText source >>= readProgram)
  runProgram limits program

end Loot
