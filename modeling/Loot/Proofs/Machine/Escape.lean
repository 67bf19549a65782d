import Loot.Proofs.Machine.LoopFree
/-!
# Giving back as an escape

A statement that gives a value back completes with it, and every statement around it has to hand it on, up to the call
or the program.  Here is the same language told in the other way: giving back raises a signal that no statement looks
at, and only calls and programs catch it (`Escape.runProgram`).  The two are the same runs (`returns_as_escapes`), so
nowhere a value is dropped on its way, and none gets past the call that it ends.
-/
namespace Loot

namespace Escape

/-! ## Runs with escapes -/

/-- What keeps an action from its result: a stop, or a value that escapes to the call that it ends. -/
inductive Signal where
  | stop (s : Stop)
  | escape (v : Value)

abbrev Act (α : Type) := EStateM Signal Machine α

/-- An action that has no part in escapes. -/
def lift {α : Type} (x : Run α) : Act α := fun m =>
  match x m with
  | .ok a m' => .ok a m'
  | .error stop m' => .error (.stop stop) m'

/-- How a call runs, given the name and the actions that evaluate its arguments. -/
abbrev Caller := Token → List (Act Value) → Act Value

mutual

/-- Evaluates an expression, given how calls run. -/
def eval (caller : Caller) : Expr → Act Value
  | .literal token => lift (literalValue token)
  | .variable name => lift (Run.lookup name)
  | .unary op e => do
    let v ← eval caller e
    lift (Run.ofExcept (v.negated op.line))
  | .binary left op right => do
    let l ← eval caller left
    let r ← eval caller right
    lift (Run.ofExcept (Value.operate op.kind l r op.line))
  | .call name args => caller name (evals caller args)

def evals (caller : Caller) : List Expr → List (Act Value)
  | [] => []
  | e :: es => eval caller e :: evals caller es

end

/-- Repeats a body while a condition holds, for at most the given rounds. -/
def repeatWhile (condition : Act Value) (body : Act Unit) : Nat → Act Unit
  | 0 => throw (.stop .outOfRounds)
  | n + 1 => do
    if (← condition).isTrue then
      body
      repeatWhile condition body n

/-- Adds to a variable, which must be a number. -/
def step (name : Token) (delta : Float) : Act Unit := do
  match ← lift (Run.lookup name) with
  | .number x => lift (Run.assign name (.number (x + delta)))
  | v => lift (Run.fault (.mismatch ("cannot step '".toList ++ name.lexeme ++ "' of kind ".toList ++
      v.kindName.toList)) name.line)

mutual

/-- Runs a statement.  To give a value back is to let it escape. -/
def exec (caller : Caller) (rounds : Nat) : Stmt → Act Unit
  | .expression e => do
    let _ ← eval caller e
  | .declare name none => lift (Run.assign name .null)
  | .declare name (some e) => do
    let v ← eval caller e
    lift (Run.assign name v)
  | .block body => execAll caller rounds body
  | .branch condition body rest => do
    if (← eval caller condition).isTrue then exec caller rounds body
    else execChain caller rounds rest
  | .loop condition body => repeatWhile (eval caller condition) (exec caller rounds body) rounds
  | .define name params body => lift (Run.define name ⟨params, body⟩)
  | .give _ none => throw (.escape .null)
  | .give _ (some e) => do
    let v ← eval caller e
    throw (.escape v)
  | .assign target e => do
    let v ← eval caller e
    lift (Run.assign target v)
  | .increase name => step name 1
  | .decrease name => step name (-1)
  | .finish _ => pure ()

/-- Runs the statements of a list, one after the other. -/
def execAll (caller : Caller) (rounds : Nat) : List Stmt → Act Unit
  | [] => pure ()
  | s :: ss => do
    exec caller rounds s
    execAll caller rounds ss

/-- Runs the first clause whose condition holds. -/
def execChain (caller : Caller) (rounds : Nat) : Chain → Act Unit
  | .done => pure ()
  | .otherwise body => exec caller rounds body
  | .retry condition body rest => do
    if (← eval caller condition).isTrue then exec caller rounds body
    else execChain caller rounds rest

end

def inOrder : List (Act Value) → Act (List Value)
  | [] => pure []
  | action :: actions => do
    let v ← action
    let vs ← inOrder actions
    pure (v :: vs)

/-- A call by name, given how to enter a declared function.  A built-in function first evaluates the arguments that it
uses. -/
def callWith (enter : Token → Function → List Value → Act Value) : Caller := fun name args =>
  match Builtin.ofName? name.lexeme with
  | some builtin => do
    let values ← inOrder (args.take builtin.uses)
    lift (builtin.run name (values.map pure))
  | none => do
    match (← get).functions.get? name.lexeme with
    | none => lift (Run.fault (.undefinedFunction name.lexeme) name.line)
    | some f =>
      if args.length < f.params.length then
        lift (Run.fault (.arity name.lexeme f.params.length args.length) name.line)
      else
        let values ← inOrder args
        enter name f values

/-- Runs an action on a saved copy of the variables and takes them back, however it ends. -/
def isolated {α : Type} (action : Act α) : Act α := fun m =>
  match action { m with scope := m.scope.push } with
  | .ok a m' => .ok a m'.back
  | .error signal m' => .error signal m'.back

/-- Catches what escapes from an action. -/
def catching {α : Type} (normal : α) (escaped : Value → α) (action : Act Unit) : Act α := fun m =>
  match action m with
  | .ok _ m' => .ok normal m'
  | .error (.escape v) m' => .ok (escaped v) m'
  | .error (.stop stop) m' => .error (.stop stop) m'

/-- Enters a declared function.  When its variables are taken back, the value of the call is what escaped, or null. -/
def enter (limits : Limits) : (room : Nat) → Token → Function → List Value → Act Value
  | 0, name, _, _ => lift (Run.fault (.callDepth name.lexeme limits.depth) name.line)
  | room + 1, _, f, values => catching .null id <| isolated do
    lift (bindParams f.params values)
    execAll (callWith (enter limits room)) limits.rounds f.body

def caller (limits : Limits) (room : Nat) : Caller := callWith (enter limits room)

/-- Runs a program.  What escapes from all of it is its outcome. -/
def runProgram (limits : Limits) (program : List Stmt) : Act Flow := do
  let room := limits.depth - (← get).scope.depth
  catching .normal .returned (execAll (caller limits room) limits.rounds program)

/-! ## The same runs -/

section Lift

variable {α β : Type}

@[simp] theorem lift_pure (a : α) : lift (pure a : Run α) = pure a := rfl

@[simp] theorem lift_bind (x : Run α) (f : α → Run β) : lift (x >>= f) = lift x >>= fun a => lift (f a) := by
  funext m
  simp only [lift, bind, EStateM.bind]
  cases x m <;> rfl

/-- Nothing escapes from such an action. -/
theorem lift_ne_escape (x : Run α) (m m' : Machine) (v : Value) : lift x m ≠ .error (.escape v) m' := by
  unfold lift
  cases x m <;> exact nofun

/-- How a statement completed, as a signal. -/
def raise : Flow → Act Unit
  | .normal => pure ()
  | .returned v => throw (.escape v)

/-- **What escapes from a statement is what it completes with.** -/
def raised (x : Run Flow) : Act Unit := lift x >>= raise

theorem raised_pure (flow : Flow) : raised (pure flow) = raise flow := by
  rw [raised, lift_pure, pure_bind]

theorem raised_bind (x : Run α) (f : α → Run Flow) : raised (x >>= f) = lift x >>= fun a => raised (f a) := by
  rw [raised, lift_bind, bind_assoc]
  rfl

theorem raised_ite (p : Prop) [Decidable p] (x y : Run Flow) :
    raised (if p then x else y) = if p then raised x else raised y := by
  split <;> rfl

theorem throw_bind (signal : Signal) (f : α → Act β) : (throw signal >>= f) = throw signal := rfl

/-- A statement and what follows it: the check on how the first completed is what an escape does by itself. -/
theorem raised_seq (x : Run Flow) {f : Flow → Run Flow} (hf : ∀ v, f (.returned v) = pure (.returned v)) :
    raised (x >>= f) = raised x >>= fun _ => raised (f .normal) := by
  rw [raised_bind, raised, bind_assoc]
  refine bind_congr (fun flow => ?_)
  cases flow with
  | normal => rw [raise, pure_bind]
  | returned v => rw [hf, raised_pure, raise, throw_bind]

end Lift

/-- Calls are the same if their arguments are. -/
def Agrees (c : Loot.Caller) (c' : Caller) : Prop := ∀ name args, c' name (args.map lift) = lift (c name args)

section Programs

variable {c : Loot.Caller} {c' : Caller}

mutual

theorem eval_eq (hc : Agrees c c') : ∀ e : Expr, eval c' e = lift (e.eval c)
  | .literal token => by rw [eval, Expr.eval]
  | .variable name => by rw [eval, Expr.eval]
  | .unary op e => by rw [eval, Expr.eval, lift_bind, eval_eq hc e]
  | .binary l op r => by
    rw [eval, Expr.eval, lift_bind, eval_eq hc l, eval_eq hc r]
    simp only [lift_bind, Run.operate_eq]
  | .call name args => by rw [eval, Expr.eval, evals_eq hc args, hc name]

theorem evals_eq (hc : Agrees c c') : ∀ es : List Expr, evals c' es = (Expr.evals c es).map lift
  | [] => by rw [evals, Expr.evals, List.map_nil]
  | e :: es => by rw [evals, Expr.evals, List.map_cons, eval_eq hc e, evals_eq hc es]

end

theorem repeatWhile_eq (condition : Run Value) (body : Run Flow) : ∀ n,
    repeatWhile (lift condition) (raised body) n = raised (Loot.repeatWhile condition body n)
  | 0 => rfl
  | n + 1 => by
    rw [repeatWhile, Loot.repeatWhile, raised_bind]
    refine bind_congr (fun v => ?_)
    rw [raised_ite, raised_seq body, repeatWhile_eq condition body n]
    · rfl
    · exact fun _ => rfl

theorem step_eq (name : Token) (delta : Float) : step name delta = raised (Loot.step name delta) := by
  rw [step, Loot.step, raised_bind]
  refine bind_congr (fun v => ?_)
  cases v <;> rfl

mutual

theorem exec_eq (hc : Agrees c c') (rounds : Nat) : ∀ s : Stmt, exec c' rounds s = raised (s.exec c rounds)
  | .expression e => by
    rw [exec, Stmt.exec, raised_bind, eval_eq hc e]
    rfl
  | .declare name none => by
    rw [exec, Stmt.exec, raised_bind]
    rfl
  | .declare name (some e) => by
    rw [exec, Stmt.exec, raised_bind, eval_eq hc e]
    rfl
  | .block body => by rw [exec, Stmt.exec, execAll_eq hc rounds body]
  | .branch condition body rest => by
    rw [exec, Stmt.exec, raised_bind, eval_eq hc condition, exec_eq hc rounds body, execChain_eq hc rounds rest]
    refine bind_congr (fun v => ?_)
    rw [raised_ite]
  | .loop condition body => by
    rw [exec, Stmt.exec, eval_eq hc condition, exec_eq hc rounds body, repeatWhile_eq]
  | .define name params body => by
    rw [exec, Stmt.exec, raised_bind]
    rfl
  | .give _ none => by
    rw [exec, Stmt.exec, raised_pure]
    rfl
  | .give _ (some e) => by
    rw [exec, Stmt.exec, raised_bind, eval_eq hc e]
    rfl
  | .assign target e => by
    rw [exec, Stmt.exec, raised_bind, eval_eq hc e]
    rfl
  | .increase name => by rw [exec, Stmt.exec, step_eq]
  | .decrease name => by rw [exec, Stmt.exec, step_eq]
  | .finish _ => by
    rw [exec, Stmt.exec, raised_pure]
    rfl

theorem execAll_eq (hc : Agrees c c') (rounds : Nat) : ∀ ss : List Stmt,
    execAll c' rounds ss = raised (Stmt.execAll c rounds ss)
  | [] => by
    rw [execAll, Stmt.execAll, raised_pure]
    rfl
  | s :: ss => by
    rw [execAll, Stmt.execAll, exec_eq hc rounds s, execAll_eq hc rounds ss, raised_seq]
    exact fun _ => rfl

theorem execChain_eq (hc : Agrees c c') (rounds : Nat) : ∀ ch : Chain,
    execChain c' rounds ch = raised (ch.exec c rounds)
  | .done => by
    rw [execChain, Chain.exec, raised_pure]
    rfl
  | .otherwise body => by rw [execChain, Chain.exec, exec_eq hc rounds body]
  | .retry condition body rest => by
    rw [execChain, Chain.exec, raised_bind, eval_eq hc condition, exec_eq hc rounds body, execChain_eq hc rounds rest]
    refine bind_congr (fun v => ?_)
    rw [raised_ite]

end

end Programs

theorem inOrder_eq : ∀ args : List (Run Value), inOrder (args.map lift) = lift (Loot.inOrder args)
  | [] => rfl
  | action :: actions => by
    rw [List.map_cons, inOrder, Loot.inOrder, inOrder_eq actions]
    simp only [lift_bind, lift_pure]

theorem callWith_eq {enter : Token → Function → List Value → Run Value}
    {enter' : Token → Function → List Value → Act Value}
    (henter : ∀ name f values, enter' name f values = lift (enter name f values)) :
    Agrees (Loot.callWith enter) (callWith enter') := by
  intro name args
  cases hb : Builtin.ofName? name.lexeme with
  | some b =>
    rw [callWith_inOrder enter hb, lift_bind, ← inOrder_eq, List.map_take]
    unfold callWith
    rw [hb]
  | none =>
    rw [callWith_of_not_builtin enter hb, lift_bind]
    unfold callWith
    rw [hb]
    refine bind_congr (fun m => ?_)
    cases m.functions.get? name.lexeme with
    | none => rfl
    | some f =>
      simp only [callFound, List.length_map, inOrder_eq, henter]
      split
      · rfl
      · rw [lift_bind]

/-- **A call has the value that escapes from its body**, by induction on the room for calls. -/
theorem enter_eq (limits : Limits) : ∀ (room : Nat) (name : Token) (f : Function) (values : List Value),
    enter limits room name f values = lift (Loot.enter limits room name f values)
  | 0, _, _, _ => rfl
  | room + 1, name, f, values => by
    funext m
    -- an escape leaves the body like any other signal, so the variables are back when it is caught
    have hbody := execAll_eq (callWith_eq (enter_eq limits room)) limits.rounds f.body
    rw [lift, enter_succ_eq, enter, hbody]
    simp only [catching, isolated, bind, EStateM.bind, lift, bindParams_eq_ok, raised]
    unfold Loot.caller
    cases Stmt.execAll (Loot.callWith (Loot.enter limits room)) limits.rounds f.body _ with
    | ok flow m' => cases flow <;> rfl
    | error stop m' => rfl

theorem catching_raised (x : Run Flow) : catching .normal .returned (raised x) = lift x := by
  funext m
  simp only [catching, raised, lift, bind, EStateM.bind]
  cases x m with
  | ok flow m' => cases flow <;> rfl
  | error stop m' => rfl

/-- **A program has the outcome that escapes from it.** -/
theorem runProgram_eq (limits : Limits) (program : List Stmt) :
    runProgram limits program = lift (Loot.runProgram limits program) := by
  rw [Loot.runProgram, lift_bind]
  refine bind_congr (fun m => ?_)
  have hprogram := execAll_eq (callWith_eq (enter_eq limits (limits.depth - m.scope.depth))) limits.rounds program
  exact (congrArg (catching Flow.normal Flow.returned) hprogram).trans (catching_raised _)

/-- Nothing escapes from an expression, whatever it calls. -/
theorem eval_ne_escape (limits : Limits) (room : Nat) (e : Expr) (m m' : Machine) (v : Value) :
    eval (caller limits room) e m ≠ .error (.escape v) m' := by
  have heval := eval_eq (callWith_eq (enter_eq limits room)) e
  unfold caller
  rw [heval]
  exact lift_ne_escape _ m m' v

end Escape

/-! ## Where a value goes that is given back

What is at work ends in a value or in the flow of statements, and the frames of the stack fit together by that, so a
value that is given back meets only frames of statements before that of the call. -/

open Config

inductive Shape where
  | value
  | flow

/-- What a frame goes on with. -/
def Frame.takes : Frame → Shape
  | .leave | .again _ _ | .next _ => .flow
  | _ => .value

/-- What the work of a frame ends in. -/
def Frame.gives : Frame → Shape
  | .negate _ | .right _ _ | .operate _ _ | .argument _ _ _ _ | .leave => .value
  | _ => .flow

/-- Every frame takes what the one above it gives, and the last gives what a program ends in. -/
def Fits : Shape → List Frame → Prop
  | shape, [] => shape = .flow
  | shape, frame :: k => frame.takes = shape ∧ Fits frame.gives k

/-- What the work ends in, if it is not stopped. -/
def Control.shape? : Control → Option Shape
  | .eval _ | .args _ _ _ _ | .value _ => some .value
  | .exec _ | .execAll _ | .clauses _ | .flow _ => some .flow
  | .stop _ => none

def Config.Stacked (c : Config) : Prop := ∀ shape, c.control.shape? = some shape → Fits shape c.stack

section Stacked

variable {limit : Nat} {k : List Frame} {m : Machine}

theorem Config.Stacked.of_fits {control : Control} {shape : Shape} (hshape : control.shape? = some shape)
    (hk : Fits shape k) : Config.Stacked ⟨control, k, m⟩ := by
  intro shape' hshape'
  have heq : shape = shape' := Option.some.inj (hshape.symm.trans hshape')
  rwa [← heq]

theorem Config.Stacked.stop (stop : Stop) : Config.Stacked ⟨.stop stop, k, m⟩ := fun _ h => nomatch h

theorem stacked_outcome {α : Type} {ret : α → Control} {shape : Shape} (hret : ∀ a, (ret a).shape? = some shape)
    (hk : Fits shape k) (r : EStateM.Result Stop Machine α) : (outcome ret k r).Stacked := by
  cases r with
  | ok a m' => exact .of_fits (hret a) hk
  | error stop m' => exact .stop stop

theorem stacked_ofExpr (hk : Fits .value k) (e : Expr) : (ofExpr k m e).Stacked := by
  cases e with
  | literal token => exact stacked_outcome (fun _ => rfl) hk _
  | «variable» name => exact stacked_outcome (fun _ => rfl) hk _
  | unary op e => exact .of_fits rfl ⟨rfl, hk⟩
  | binary l op r => exact .of_fits rfl ⟨rfl, hk⟩
  | call name es =>
    simp only [ofExpr]
    split
    · exact .of_fits rfl hk
    split
    · exact .stop _
    split
    · exact .stop _
    · exact .of_fits rfl hk

theorem stacked_ofCall (hk : Fits .value k) (name : Token) (done : List Value) (callee : Callee) :
    (ofCall limit name done k m callee).Stacked := by
  cases callee with
  | builtin b => exact stacked_outcome (fun _ => rfl) hk _
  | function f =>
    simp only [ofCall]
    split
    · exact .stop _
    · exact .of_fits rfl ⟨rfl, hk⟩

theorem stacked_ofStmt (hk : Fits .flow k) (s : Stmt) : (ofStmt k m s).Stacked := by
  match s with
  | .increase _ | .decrease _ => exact stacked_outcome (fun _ => rfl) hk _
  | .declare _ none | .block _ | .define _ _ _ | .give _ none | .finish _ => exact .of_fits rfl hk
  | .expression _ | .declare _ (some _) | .branch _ _ _ | .loop _ _ | .give _ (some _) | .assign _ _ =>
    exact .of_fits rfl ⟨rfl, hk⟩

theorem stacked_ofValue {v : Value} {frame : Frame} {c : Config} (hk : Fits frame.gives k)
    (h : ofValue v k m frame = some c) : c.Stacked := by
  cases frame with
  | negate _ | operate _ _ =>
    cases h
    exact stacked_outcome (fun _ => rfl) hk _
  | right _ _ =>
    cases h
    exact .of_fits rfl ⟨rfl, hk⟩
  | argument _ _ _ _ | ignore | assign _ | give =>
    cases h
    exact .of_fits rfl hk
  | choose body rest =>
    cases h
    split <;> exact .of_fits rfl hk
  | test condition body =>
    cases h
    split
    · exact .of_fits rfl ⟨rfl, hk⟩
    · exact .of_fits rfl hk
  | leave | again _ _ | next _ => cases h

theorem stacked_ofFlow {frame : Frame} {flow : Flow} {c : Config} (hk : Fits frame.gives k)
    (h : ofFlow k m frame flow = some c) : c.Stacked := by
  cases frame <;> cases flow <;> cases h
  all_goals first
    | exact .of_fits rfl hk
    | exact .of_fits rfl ⟨rfl, hk⟩

/-- **A step leaves a stack whose frames fit together.** -/
theorem Config.Stacked.next {c c' : Config} (hc : c.Stacked) (h : c.next limit = some c') : c'.Stacked := by
  obtain ⟨control, k, m⟩ := c
  cases control with
  | eval e =>
    cases h
    exact stacked_ofExpr (hc _ rfl) e
  | args callee name done es =>
    cases es with
    | nil =>
      cases h
      exact stacked_ofCall (hc _ rfl) name done callee
    | cons e es =>
      cases h
      exact .of_fits rfl ⟨rfl, hc _ rfl⟩
  | exec s =>
    cases h
    exact stacked_ofStmt (hc _ rfl) s
  | execAll ss =>
    cases ss with
    | nil =>
      cases h
      exact .of_fits rfl (hc _ rfl)
    | cons s ss =>
      cases h
      exact .of_fits rfl ⟨rfl, hc _ rfl⟩
  | clauses ch =>
    cases ch with
    | done | otherwise _ =>
      cases h
      exact .of_fits rfl (hc _ rfl)
    | retry _ _ _ =>
      cases h
      exact .of_fits rfl ⟨rfl, hc _ rfl⟩
  | value v =>
    cases k with
    | nil => cases h
    | cons frame k => exact stacked_ofValue (hc _ rfl).2 h
  | flow flow =>
    cases k with
    | nil => cases h
    | cons frame k => exact stacked_ofFlow (hc _ rfl).2 h
  | stop stop =>
    cases k with
    | nil => cases h
    | cons frame k =>
      cases h
      cases frame <;> exact .stop stop

theorem Config.Reaches.stacked {c c' : Config} (h : Reaches limit c c') (hc : c.Stacked) : c'.Stacked := by
  induction h with
  | refl => exact hc
  | tail _ hstep ih => exact ih.next hstep

end Stacked

/-- **A value that is given back ends the innermost call that is open**: what is to be done up to the frame of the call
is dropped, and the call, its variables taken back, has the value.  If no call is open, the program ends with it. -/
def EndsInnermost (limit : Nat) (v : Value) (k : List Frame) (m : Machine) : Prop :=
  (∃ inner rest, k = inner ++ .leave :: rest ∧ .leave ∉ inner ∧
    Reaches limit ⟨.flow (.returned v), k, m⟩ ⟨.value v, rest, m.back⟩) ∨
  (.leave ∉ k ∧ Reaches limit ⟨.flow (.returned v), k, m⟩ (outcome .flow [] (.ok (.returned v) m)))

section Returned

variable {limit : Nat} {v : Value} {k : List Frame} {m : Machine}

/-- A frame of statements hands the value on. -/
theorem EndsInnermost.handed {frame : Frame} (hframe : .leave ≠ frame) (h : EndsInnermost limit v k m)
    (hstep : (Config.mk (.flow (.returned v)) (frame :: k) m).next limit = some ⟨.flow (.returned v), k, m⟩) :
    EndsInnermost limit v (frame :: k) m := by
  rcases h with ⟨inner, rest, rfl, hinner, hreach⟩ | ⟨hnone, hreach⟩
  · exact .inl ⟨frame :: inner, rest, rfl, List.not_mem_cons_of_ne_of_not_mem hframe hinner, .head hstep hreach⟩
  · exact .inr ⟨List.not_mem_cons_of_ne_of_not_mem hframe hnone, .head hstep hreach⟩

theorem endsInnermost_of_fits : ∀ k : List Frame, Fits .flow k → EndsInnermost limit v k m
  | [], _ => .inr ⟨List.not_mem_nil, .refl⟩
  | frame :: k, ⟨htakes, hk⟩ => by
    cases frame with
    | leave => exact .inl ⟨[], k, rfl, List.not_mem_nil, .single rfl⟩
    | again _ _ | next _ => exact (endsInnermost_of_fits k hk).handed nofun rfl
    | _ => cases htakes

end Returned

/-- **To complete with a value is to let it escape.**  For every program, machine and bounds, the run in which every
statement hands on how the statements in it completed has the same outcome, and leaves the same machine, as the run in
which a value that is given back escapes, to be caught by a call, once that has taken its variables back, or by the
program.  Nothing escapes from an expression into what is around it.  And wherever in a run a value is given back,
within whatever blocks, choices and loops, it ends the innermost open call, or the program if there is none. -/
theorem returns_as_escapes (limits : Limits) (program : List Stmt) (m : Machine) :
    Escape.runProgram limits program m = Escape.lift (runProgram limits program) m ∧
    (∀ room e m₁ m₂ v, Escape.eval (Escape.caller limits room) e m₁ ≠ .error (.escape v) m₂) ∧
    ∀ v k m₁, Reaches limits.depth (start program m) ⟨.flow (.returned v), k, m₁⟩ →
      EndsInnermost limits.depth v k m₁ := by
  refine ⟨by rw [Escape.runProgram_eq], Escape.eval_ne_escape limits, fun v k m₁ hreach => ?_⟩
  have hstart : (start program m).Stacked := .of_fits rfl rfl
  exact endsInnermost_of_fits k (hreach.stacked hstart _ rfl)

/-- A machine whose function `f` gives a value back in a block and has more to do after it. -/
def respawning : Machine where
  functions := ⟨[(['f'], ⟨[], [.block [.give ⟨.spawn, [], some 1⟩ none, plunge], plunge]⟩)]⟩

/-- The value that is given back in the block ends the call of `f`, and what else its body has to do is dropped. -/
theorem returns_as_escapes_nested_block :
    ∃ k m₁, Reaches 1 (start [plunge] respawning)
      ⟨.flow (.returned .null), [.next [plunge], .next [plunge]] ++ .leave :: k, m₁⟩ ∧
      EndsInnermost 1 .null ([.next [plunge], .next [plunge]] ++ .leave :: k) m₁ := by
  have hreach : Reaches 1 (start [plunge] respawning) ⟨.flow (.returned .null),
      [.next [plunge], .next [plunge]] ++ .leave :: [.ignore, .next []],
      { respawning with scope := respawning.scope.push }⟩ :=
    .head rfl (.head rfl (.head rfl (.head rfl (.head rfl (.head rfl (.head rfl (.head rfl .refl)))))))
  exact ⟨_, _, hreach, (returns_as_escapes ⟨1, 1⟩ [plunge] respawning).2.2 _ _ _ hreach⟩

end Loot
