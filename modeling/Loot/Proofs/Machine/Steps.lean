import Loot.Proofs.Machine.Parallel
import Loot.Proofs.Machine.Rollback
import Mathlib.Logic.Relation
/-!
# Runs, one step at a time

A run as a sequence of small steps: what is at work, a stack of what is to be done with its outcome, and the
machine (`Config.next`).  Nothing bounds the rounds of a loop here, and the depth of calls is read off the saved
tables when a function is entered.  A run that does not use up its rounds is such a sequence of steps, and its
outcome is where they end (`runProgram_reaches`).
-/
namespace Loot

/-! ## Steps -/

/-- What a call runs once its arguments are there. -/
inductive Callee where
  | builtin (b : Builtin)
  | function (f : Function)

/-- How many of its arguments a built-in function evaluates, if it is given as many. -/
def Builtin.uses : Builtin → Nat
  | .taunt => 2
  | _ => 1

/-- What is at work, or how it ended: with a value, in the flow of statements, or with a stop. -/
inductive Control where
  | eval (e : Expr)
  | args (callee : Callee) (name : Token) (done : List Value) (es : List Expr)
  | exec (s : Stmt)
  | execAll (ss : List Stmt)
  | clauses (ch : Chain)
  | value (v : Value)
  | flow (f : Flow)
  | stop (s : Stop)

/-- What is to be done with an outcome. -/
inductive Frame where
  | negate (op : Token)
  | right (op : Token) (e : Expr)
  | operate (op : Token) (left : Value)
  | argument (callee : Callee) (name : Token) (done : List Value) (es : List Expr)
  | leave
  | ignore
  | assign (target : Token)
  | give
  | choose (body : Stmt) (rest : Chain)
  | test (condition : Expr) (body : Stmt)
  | again (condition : Expr) (body : Stmt)
  | next (ss : List Stmt)

structure Config where
  control : Control
  stack : List Frame
  machine : Machine

namespace Config

/-- What an action of the machine makes of the work. -/
def outcome {α : Type} (ret : α → Control) (k : List Frame) : EStateM.Result Stop Machine α → Config
  | .ok a m => ⟨ret a, k, m⟩
  | .error stop m => ⟨.stop stop, k, m⟩

/-- Begins an expression. -/
def ofExpr (k : List Frame) (m : Machine) : Expr → Config
  | .literal token => outcome .value k (literalValue token m)
  | .variable name => outcome .value k (Run.lookup name m)
  | .unary op e => ⟨.eval e, .negate op :: k, m⟩
  | .binary left op right => ⟨.eval left, .right op right :: k, m⟩
  | .call name es =>
    match Builtin.ofName? name.lexeme with
    | some b => ⟨.args (.builtin b) name [] (es.take b.uses), k, m⟩
    | none =>
      match m.functions.get? name.lexeme with
      | none => ⟨.stop (.fault { cause := .undefinedFunction name.lexeme, line := name.line }), k, m⟩
      | some f =>
        if es.length < f.params.length then
          ⟨.stop (.fault { cause := .arity name.lexeme f.params.length es.length, line := name.line }), k, m⟩
        else ⟨.args (.function f) name [] es, k, m⟩

/-- Enters what is called, with its arguments the last one first.  Functions can be entered while fewer than
`limit` tables are saved. -/
def ofCall (limit : Nat) (name : Token) (done : List Value) (k : List Frame) (m : Machine) : Callee → Config
  | .builtin b => outcome .value k (b.run name (done.reverse.map pure) m)
  | .function f =>
    if limit ≤ m.scope.depth then
      ⟨.stop (.fault { cause := .callDepth name.lexeme limit, line := name.line }), k, m⟩
    else ⟨.execAll f.body, .leave :: k, (bindParams f.params done.reverse).left { m with scope := m.scope.push }⟩

/-- Begins a statement. -/
def ofStmt (k : List Frame) (m : Machine) : Stmt → Config
  | .expression e => ⟨.eval e, .ignore :: k, m⟩
  | .declare name none => ⟨.flow .normal, k, (Run.assign name .null).left m⟩
  | .declare name (some e) => ⟨.eval e, .assign name :: k, m⟩
  | .block body => ⟨.execAll body, k, m⟩
  | .branch condition body rest => ⟨.eval condition, .choose body rest :: k, m⟩
  | .loop condition body => ⟨.eval condition, .test condition body :: k, m⟩
  | .define name params body => ⟨.flow .normal, k, (Run.define name ⟨params, body⟩).left m⟩
  | .give _ none => ⟨.flow (.returned .null), k, m⟩
  | .give _ (some e) => ⟨.eval e, .give :: k, m⟩
  | .assign target e => ⟨.eval e, .assign target :: k, m⟩
  | .increase name => outcome .flow k (step name 1 m)
  | .decrease name => outcome .flow k (step name (-1) m)
  | .finish _ => ⟨.flow .normal, k, m⟩

/-- Goes on with a value. -/
def ofValue (v : Value) (k : List Frame) (m : Machine) : Frame → Option Config
  | .negate op => some (outcome .value k (Run.ofExcept (v.negated op.line) m))
  | .right op e => some ⟨.eval e, .operate op v :: k, m⟩
  | .operate op l => some (outcome .value k (Run.operate op.kind l v op.line m))
  | .argument callee name done es => some ⟨.args callee name (v :: done) es, k, m⟩
  | .ignore => some ⟨.flow .normal, k, m⟩
  | .assign target => some ⟨.flow .normal, k, (Run.assign target v).left m⟩
  | .give => some ⟨.flow (.returned v), k, m⟩
  | .choose body rest => some (if v.isTrue then ⟨.exec body, k, m⟩ else ⟨.clauses rest, k, m⟩)
  | .test condition body =>
    some (if v.isTrue then ⟨.exec body, .again condition body :: k, m⟩ else ⟨.flow .normal, k, m⟩)
  | .leave | .again _ _ | .next _ => none

/-- Goes on after a statement. -/
def ofFlow (k : List Frame) (m : Machine) : Frame → Flow → Option Config
  | .again condition body, .normal => some ⟨.eval condition, .test condition body :: k, m⟩
  | .next ss, .normal => some ⟨.execAll ss, k, m⟩
  | .leave, .normal => some ⟨.value .null, k, m.back⟩
  | .again _ _, .returned v | .next _, .returned v => some ⟨.flow (.returned v), k, m⟩
  | .leave, .returned v => some ⟨.value v, k, m.back⟩
  | _, _ => none

/-- A stop drops what was to be done.  Calls that it leaves take their tables back. -/
def ofStop (stop : Stop) (k : List Frame) (m : Machine) : Frame → Config
  | .leave => ⟨.stop stop, k, m.back⟩
  | _ => ⟨.stop stop, k, m⟩

/-- **The next step**, if there is anything left to do. -/
def next (limit : Nat) : Config → Option Config
  | ⟨.eval e, k, m⟩ => some (ofExpr k m e)
  | ⟨.args callee name done [], k, m⟩ => some (ofCall limit name done k m callee)
  | ⟨.args callee name done (e :: es), k, m⟩ => some ⟨.eval e, .argument callee name done es :: k, m⟩
  | ⟨.exec s, k, m⟩ => some (ofStmt k m s)
  | ⟨.execAll [], k, m⟩ => some ⟨.flow .normal, k, m⟩
  | ⟨.execAll (s :: ss), k, m⟩ => some ⟨.exec s, .next ss :: k, m⟩
  | ⟨.clauses .done, k, m⟩ => some ⟨.flow .normal, k, m⟩
  | ⟨.clauses (.otherwise body), k, m⟩ => some ⟨.exec body, k, m⟩
  | ⟨.clauses (.retry condition body rest), k, m⟩ => some ⟨.eval condition, .choose body rest :: k, m⟩
  | ⟨.value v, frame :: k, m⟩ => ofValue v k m frame
  | ⟨.flow f, frame :: k, m⟩ => ofFlow k m frame f
  | ⟨.stop stop, frame :: k, m⟩ => some (ofStop stop k m frame)
  | ⟨_, [], _⟩ => none

/-- The second comes from the first in finitely many steps. -/
def Reaches (limit : Nat) : Config → Config → Prop := Relation.ReflTransGen fun c c' => c.next limit = some c'

/-- A program at its start. -/
def start (program : List Stmt) (m : Machine) : Config := ⟨.execAll program, [], m⟩

end Config

/-! ## Actions that take the steps -/

open Config

/-- The outcome is not that of a loop out of rounds. -/
def Finishes {α : Type} (r : EStateM.Result Stop Machine α) : Prop := ∀ m, r ≠ .error .outOfRounds m

/-- **The steps from `c` do what the action does**, on a machine with room for so many more calls, whatever is to be
done after. -/
def Does {α : Type} (limit room : Nat) (ret : α → Control) (c : List Frame → Machine → Config) (x : Run α)
    (m : Machine) : Prop :=
  limit - m.scope.depth = room → Finishes (x m) → ∀ k, Reaches limit (c k m) (outcome ret k (x m))

section Doing

variable {α β : Type} {limit room : Nat} {ret : α → Control} {ret' : β → Control} {x : Run α} {f : α → Run β}
  {c c' : List Frame → Machine → Config} {m : Machine}

theorem Does.act (h : ∀ k, (c k m).next limit = some (outcome ret k (x m))) : Does limit room ret c x m :=
  fun _ _ k => .single (h k)

theorem Does.after_step (hx : Does limit room ret c' x m) (h : ∀ k, (c k m).next limit = some (c' k m)) :
    Does limit room ret c x m := fun hroom hfin k => .head (h k) (hx hroom hfin k)

theorem Does.congr {y : Run α} (hy : Does limit room ret c y m) (h : x m = y m) : Does limit room ret c x m := by
  unfold Does
  rw [h]
  exact hy

theorem Finishes.of_bind (h : Finishes ((x >>= f) m)) : Finishes (x m) := by
  intro m' hx
  refine h m' ?_
  simp only [bind, EStateM.bind, hx]

theorem Does.cases (hroom : limit - m.scope.depth = room) (hx : Does limit room ret c x m)
    (hkeeps : Run.Keeps Machine.Levelled x) (hfin : Finishes (x m)) :
    (∃ a m', x m = .ok a m' ∧ limit - m'.scope.depth = room ∧ ∀ k, Reaches limit (c k m) ⟨ret a, k, m'⟩) ∨
    ∃ stop m', x m = .error stop m' ∧ ∀ k, Reaches limit (c k m) ⟨.stop stop, k, m'⟩ := by
  have hreach := hx hroom hfin
  have hlevel := hkeeps m
  unfold Run.left at hlevel
  cases hxm : x m with
  | ok a m' =>
    rw [hxm] at hreach hlevel
    refine .inl ⟨a, m', rfl, ?_, hreach⟩
    unfold Scope.depth at hroom ⊢
    rwa [hlevel.saved]
  | error stop m' =>
    rw [hxm] at hreach
    exact .inr ⟨stop, m', rfl, hreach⟩

/-- An action and what goes on with its result. -/
theorem Does.andThen (hx : Does limit room ret c x m) (hkeeps : Run.Keeps Machine.Levelled x)
    (hf : ∀ a m', Does limit room ret' (fun k m => ⟨ret a, k, m⟩) (f a) m') :
    Does limit room ret' c (x >>= f) m := by
  intro hroom hfin k
  rcases hx.cases hroom hkeeps hfin.of_bind with ⟨a, m', hxm, hroom', hreach⟩ | ⟨stop, m', hxm, hreach⟩
  · have hbind : (x >>= f) m = f a m' := by simp only [bind, EStateM.bind, hxm]
    rw [hbind] at hfin ⊢
    exact (hreach k).trans (hf a m' hroom' hfin k)
  · have hbind : (x >>= f) m = .error stop m' := by simp only [bind, EStateM.bind, hxm]
    rw [hbind]
    exact hreach k

/-- An action that is begun with a frame for its result on the stack. -/
theorem Does.bind (frame : Frame) (hframe : ∀ stop k m, ofStop stop k m frame = ⟨.stop stop, k, m⟩)
    (hstep : ∀ k, (c k m).next limit = some (c' (frame :: k) m)) (hx : Does limit room ret c' x m)
    (hkeeps : Run.Keeps Machine.Levelled x)
    (hf : ∀ a m', Does limit room ret' (fun k m => ⟨ret a, frame :: k, m⟩) (f a) m') :
    Does limit room ret' c (x >>= f) m := by
  intro hroom hfin k
  refine .head (hstep k) ?_
  rcases hx.cases hroom hkeeps hfin.of_bind with ⟨a, m', hxm, hroom', hreach⟩ | ⟨stop, m', hxm, hreach⟩
  · have hbind : (x >>= f) m = f a m' := by simp only [Bind.bind, EStateM.bind, hxm]
    rw [hbind] at hfin ⊢
    exact (hreach (frame :: k)).trans (hf a m' hroom' hfin k)
  · have hbind : (x >>= f) m = .error stop m' := by simp only [Bind.bind, EStateM.bind, hxm]
    rw [hbind]
    exact (hreach (frame :: k)).tail (congrArg some (hframe stop k m'))

theorem Does.map {g : α → β} (hx : Does limit room (fun a => ret' (g a)) c x m) :
    Does limit room ret' c (x >>= fun a => pure (g a)) m := by
  intro hroom hfin k
  have hreach := hx hroom hfin.of_bind k
  have hout : outcome ret' k ((x >>= fun a => pure (g a)) m) = outcome (fun a => ret' (g a)) k (x m) := by
    simp only [Bind.bind, EStateM.bind]
    cases x m <;> rfl
  rwa [hout]

end Doing

/-! ## Expressions -/

theorem Builtin.run_eq_inOrder (b : Builtin) (name : Token) (args : List (Run Value)) :
    b.run name args = inOrder (args.take b.uses) >>= fun values => b.run name (values.map pure) := by
  match args with
  | [] => cases b <;> rfl
  | [x] =>
    cases b <;> simp [Builtin.run, Builtin.uses, Builtin.number_eq, Builtin.required_eq, Builtin.optional_eq, inOrder]
  | x :: y :: args =>
    cases b <;> simp [Builtin.run, Builtin.uses, Builtin.number_eq, Builtin.required_eq, Builtin.optional_eq, inOrder]

theorem callWith_inOrder (enter : Token → Function → List Value → Run Value) {name : Token} {b : Builtin}
    (h : Builtin.ofName? name.lexeme = some b) (args : List (Run Value)) :
    callWith enter name args = inOrder (args.take b.uses) >>= fun values => b.run name (values.map pure) := by
  rw [callWith_of_builtin enter h, ← b.run_eq_inOrder]

theorem Expr.evals_eq_map (c : Caller) (es : List Expr) : Expr.evals c es = es.map (Expr.eval c) := by
  induction es with
  | nil => rw [Expr.evals, List.map_nil]
  | cons e es ih => rw [Expr.evals, List.map_cons, ih]

theorem Expr.length_evals (c : Caller) (es : List Expr) : (Expr.evals c es).length = es.length := by
  rw [Expr.evals_eq_map, List.length_map]

theorem Expr.evals_take (c : Caller) (n : Nat) (es : List Expr) :
    (Expr.evals c es).take n = Expr.evals c (es.take n) := by
  rw [Expr.evals_eq_map, Expr.evals_eq_map, List.map_take]

/-- The steps of a call do what the call does, if those of its arguments do. -/
def CallsDo (limit room : Nat) (c : Caller) : Prop := ∀ (name : Token) (es : List Expr),
  (∀ e ∈ es, ∀ m, Does limit room .value (Config.mk (.eval e)) (e.eval c) m) →
    ∀ m, Does limit room .value (Config.mk (.eval (.call name es))) (c name (Expr.evals c es)) m

section Expressions

variable {limit room : Nat} {c : Caller}

mutual

/-- **The steps of an expression do what its evaluation does.** -/
theorem Expr.does_eval (hkeeps : ∀ e : Expr, Run.Keeps Machine.Levelled (e.eval c)) (hc : CallsDo limit room c) :
    ∀ (e : Expr) (m : Machine), Does limit room .value (Config.mk (.eval e)) (e.eval c) m
  | .literal token, m => by
    rw [Expr.eval]
    exact .act (fun _ => rfl)
  | .variable name, m => by
    rw [Expr.eval]
    exact .act (fun _ => rfl)
  | .unary op e, m => by
    rw [Expr.eval]
    exact .bind (.negate op) (fun _ _ _ => rfl) (fun _ => rfl) (Expr.does_eval hkeeps hc e m) (hkeeps e)
      (fun v m' => .act (fun _ => rfl))
  | .binary l op r, m => by
    rw [Expr.eval]
    refine .bind (.right op r) (fun _ _ _ => rfl) (fun _ => rfl) (Expr.does_eval hkeeps hc l m) (hkeeps l)
      (fun v m' => ?_)
    exact .bind (.operate op v) (fun _ _ _ => rfl) (fun _ => rfl) (Expr.does_eval hkeeps hc r m') (hkeeps r)
      (fun w m' => .act (fun _ => rfl))
  | .call name es, m => by
    rw [Expr.eval]
    exact hc name es (Expr.does_eval_of_mem hkeeps hc es) m

theorem Expr.does_eval_of_mem (hkeeps : ∀ e : Expr, Run.Keeps Machine.Levelled (e.eval c)) (hc : CallsDo limit room c) :
    ∀ es : List Expr, ∀ e ∈ es, ∀ m, Does limit room .value (Config.mk (.eval e)) (e.eval c) m
  | e :: es, e', he', m => by
    rcases List.mem_cons.1 he' with heq | he'
    · rw [heq]
      exact Expr.does_eval hkeeps hc e m
    · exact Expr.does_eval_of_mem hkeeps hc es e' he' m

end

variable (hkeeps : ∀ e : Expr, Run.Keeps Machine.Levelled (e.eval c))

include hkeeps

theorem inOrder_does (callee : Callee) (name : Token) : ∀ (es : List Expr) (done : List Value),
    (∀ e ∈ es, ∀ m, Does limit room .value (Config.mk (.eval e)) (e.eval c) m) → ∀ m,
      Does limit room (fun values => .args callee name (values.reverse ++ done) [])
        (Config.mk (.args callee name done es)) (inOrder (Expr.evals c es)) m
  | [], done, _, m => by
    rw [Expr.evals]
    exact fun _ _ _ => .refl
  | e :: es, done, h, m => by
    obtain ⟨he, hes⟩ := List.forall_mem_cons.1 h
    rw [Expr.evals, inOrder]
    refine .bind (.argument callee name done es) (fun _ _ _ => rfl) (fun _ => rfl) (he m) (hkeeps e) (fun v m' => ?_)
    have ih := inOrder_does callee name es (v :: done) hes m'
    refine Does.after_step (Does.map ?_) (fun _ => rfl)
    simpa only [List.reverse_cons, List.append_assoc, List.singleton_append] using ih

theorem keeps_inOrder_evals (es : List Expr) : Run.Keeps Machine.Levelled (inOrder (Expr.evals c es)) := by
  refine keeps_inOrder Machine.levelled_rebinding.toChained _ (fun a ha => ?_)
  rw [Expr.evals_eq_map] at ha
  obtain ⟨e, -, rfl⟩ := List.mem_map.1 ha
  exact hkeeps e

end Expressions

/-! ## Statements -/

section Statements

variable {limit room : Nat}

theorem Does.choose {body : Stmt} {rest : Chain} {x y : Run Flow} {m : Machine} (v : Value)
    (hx : Does limit room .flow (Config.mk (.exec body)) x m)
    (hy : Does limit room .flow (Config.mk (.clauses rest)) y m) :
    Does limit room .flow (fun k m => ⟨.value v, .choose body rest :: k, m⟩) (if v.isTrue then x else y) m := by
  by_cases hv : v.isTrue = true
  · rw [if_pos hv]
    exact hx.after_step (fun k => by simp only [next, ofValue, hv, if_true])
  · rw [if_neg hv]
    exact hy.after_step (fun k => by simp only [next, ofValue, hv]; rfl)

variable {c : Caller}

/-- The steps of expressions do what their evaluation does, which leaves the saved tables as they were. -/
structure ExprsDo (limit room : Nat) (c : Caller) : Prop where
  keeps : ∀ e : Expr, Run.Keeps Machine.Levelled (e.eval c)
  does : ∀ (e : Expr) (m : Machine), Does limit room .value (Config.mk (.eval e)) (e.eval c) m

theorem ExprsDo.bind {β : Type} {ret : β → Control} {e : Expr} {f : Value → Run β}
    {begin : List Frame → Machine → Config} {m : Machine} (h : ExprsDo limit room c) (frame : Frame)
    (hframe : ∀ stop k m, ofStop stop k m frame = ⟨.stop stop, k, m⟩)
    (hstep : ∀ k, (begin k m).next limit = some ⟨.eval e, frame :: k, m⟩)
    (hf : ∀ v m', Does limit room ret (fun k m => ⟨.value v, frame :: k, m⟩) (f v) m') :
    Does limit room ret begin (e.eval c >>= f) m := .bind frame hframe hstep (h.does e m) (h.keeps e) hf

theorem ExprsDo.keeps_exec (h : ExprsDo limit room c) (rounds : Nat) (s : Stmt) :
    Run.Keeps Machine.Levelled (s.exec c rounds) :=
  Stmt.keeps_exec Machine.levelled_rebinding h.keeps rounds s

/-- A loop is begun in two ways: at first, and again after each round. -/
theorem repeatWhile_does (h : ExprsDo limit room c) (condition : Expr) (body : Stmt) {x : Run Flow}
    (hx : Run.Keeps Machine.Levelled x) (hbody : ∀ m, Does limit room .flow (Config.mk (.exec body)) x m) :
    ∀ (n : Nat) (m : Machine) (begin : List Frame → Machine → Config),
      (∀ k m, (begin k m).next limit = some ⟨.eval condition, .test condition body :: k, m⟩) →
        Does limit room .flow begin (repeatWhile (condition.eval c) x n) m
  | 0, m, _, _ => fun _ hfin => absurd rfl (hfin m)
  | n + 1, m, begin, hbegin => by
    refine h.bind (.test condition body) (fun _ _ _ => rfl) (fun k => hbegin k m) (fun v m' => ?_)
    by_cases hv : v.isTrue = true
    · simp only [hv, if_true]
      refine .bind (.again condition body) (fun _ _ _ => rfl) (fun k => ?_) (hbody m') hx (fun flow m'' => ?_)
      · simp only [next, ofValue, hv, if_true]
      · cases flow with
        | normal => exact repeatWhile_does h condition body hx hbody n m'' _ (fun _ _ => rfl)
        | returned v => exact .act (fun _ => rfl)
    · simp only [hv]
      exact .act (fun k => by simp only [next, ofValue, hv]; rfl)

mutual

/-- **The steps of a statement do what it does.** -/
theorem Stmt.does_exec (h : ExprsDo limit room c) (rounds : Nat) : ∀ (s : Stmt) (m : Machine),
    Does limit room .flow (Config.mk (.exec s)) (s.exec c rounds) m
  | .expression e, m => by
    rw [Stmt.exec]
    exact h.bind .ignore (fun _ _ _ => rfl) (fun _ => rfl) (fun v m' => .act (fun _ => rfl))
  | .declare name none, m => by
    rw [Stmt.exec]
    exact .act (fun _ => rfl)
  | .declare name (some e), m => by
    rw [Stmt.exec]
    exact h.bind (.assign name) (fun _ _ _ => rfl) (fun _ => rfl) (fun v m' => .act (fun _ => rfl))
  | .block body, m => by
    rw [Stmt.exec]
    exact (Stmt.does_execAll h rounds body m).after_step (fun _ => rfl)
  | .branch condition body rest, m => by
    rw [Stmt.exec]
    exact h.bind (.choose body rest) (fun _ _ _ => rfl) (fun _ => rfl)
      (fun v m' => (Stmt.does_exec h rounds body m').choose v (Chain.does_exec h rounds rest m'))
  | .loop condition body, m => by
    rw [Stmt.exec]
    exact repeatWhile_does h condition body (h.keeps_exec rounds body) (Stmt.does_exec h rounds body) rounds m _
      (fun _ _ => rfl)
  | .define name params body, m => by
    rw [Stmt.exec]
    exact .act (fun _ => rfl)
  | .give _ none, m => by
    rw [Stmt.exec]
    exact .act (fun _ => rfl)
  | .give _ (some e), m => by
    rw [Stmt.exec]
    exact h.bind .give (fun _ _ _ => rfl) (fun _ => rfl) (fun v m' => .act (fun _ => rfl))
  | .assign target e, m => by
    rw [Stmt.exec]
    exact h.bind (.assign target) (fun _ _ _ => rfl) (fun _ => rfl) (fun v m' => .act (fun _ => rfl))
  | .increase name, m => by
    rw [Stmt.exec]
    exact .act (fun _ => rfl)
  | .decrease name, m => by
    rw [Stmt.exec]
    exact .act (fun _ => rfl)
  | .finish _, m => by
    rw [Stmt.exec]
    exact .act (fun _ => rfl)

theorem Stmt.does_execAll (h : ExprsDo limit room c) (rounds : Nat) : ∀ (ss : List Stmt) (m : Machine),
    Does limit room .flow (Config.mk (.execAll ss)) (Stmt.execAll c rounds ss) m
  | [], m => by
    rw [Stmt.execAll]
    exact .act (fun _ => rfl)
  | s :: ss, m => by
    rw [Stmt.execAll]
    refine .bind (.next ss) (fun _ _ _ => rfl) (fun _ => rfl) (Stmt.does_exec h rounds s m) (h.keeps_exec rounds s)
      (fun flow m' => ?_)
    cases flow with
    | normal => exact (Stmt.does_execAll h rounds ss m').after_step (fun _ => rfl)
    | returned v => exact .act (fun _ => rfl)

theorem Chain.does_exec (h : ExprsDo limit room c) (rounds : Nat) : ∀ (ch : Chain) (m : Machine),
    Does limit room .flow (Config.mk (.clauses ch)) (ch.exec c rounds) m
  | .done, m => by
    rw [Chain.exec]
    exact .act (fun _ => rfl)
  | .otherwise body, m => by
    rw [Chain.exec]
    exact (Stmt.does_exec h rounds body m).after_step (fun _ => rfl)
  | .retry condition body rest, m => by
    rw [Chain.exec]
    exact h.bind (.choose body rest) (fun _ _ _ => rfl) (fun _ => rfl)
      (fun v m' => (Stmt.does_exec h rounds body m').choose v (Chain.does_exec h rounds rest m'))

end

end Statements

/-! ## Calls -/

theorem callWith_does {limit room : Nat} {enter : Token → Function → List Value → Run Value}
    (hkeeps : ∀ e : Expr, Run.Keeps Machine.Levelled (e.eval (callWith enter)))
    (henter : ∀ name f values m,
      Does limit room .value (Config.mk (.args (.function f) name values.reverse [])) (enter name f values) m) :
    CallsDo limit room (callWith enter) := by
  intro name es hes m
  cases hb : Builtin.ofName? name.lexeme with
  | some b =>
    have hargs := inOrder_does hkeeps (.builtin b) name (es.take b.uses) []
      (fun e he => hes e (List.mem_of_mem_take he)) m
    rw [callWith_inOrder enter hb, Expr.evals_take]
    refine Does.after_step (hargs.andThen (keeps_inOrder_evals hkeeps _) (fun values m' => .act (fun k => ?_)))
      (fun k => ?_)
    · simp only [next, ofCall, List.append_nil, List.reverse_reverse]
    · simp only [next, ofExpr, hb]
  | none =>
    rw [callWith_of_not_builtin enter hb]
    refine Does.congr ?_ (show _ = callFound enter name _ (m.functions.get? name.lexeme) m from rfl)
    cases hget : m.functions.get? name.lexeme with
    | none => exact .act (fun k => by simp only [next, ofExpr, hb, hget]; rfl)
    | some f =>
      rw [callFound, Expr.length_evals]
      by_cases harity : es.length < f.params.length
      · rw [if_pos harity]
        exact .act (fun k => by simp only [next, ofExpr, hb, hget, if_pos harity]; rfl)
      · rw [if_neg harity]
        have hargs := inOrder_does hkeeps (.function f) name es [] hes m
        refine Does.after_step (hargs.andThen (keeps_inOrder_evals hkeeps es) (fun values m' => ?_)) (fun k => ?_)
        · rw [List.append_nil]
          exact henter name f values m'
        · simp only [next, ofExpr, hb, hget, if_neg harity]

theorem bindParams_eq_ok : ∀ (ps : List Token) (vs : List Value) (m : Machine),
    bindParams ps vs m = .ok () ((bindParams ps vs).left m)
  | p :: ps, v :: vs, m => bindParams_eq_ok ps vs ((Run.assign p v).left m)
  | [], _, _ => rfl
  | _ :: _, [], _ => rfl

theorem exprsDo_caller (limits : Limits) (room : Nat)
    (henter : ∀ name f values m, Does limits.depth room .value (Config.mk (.args (.function f) name values.reverse []))
      (enter limits room name f values) m) : ExprsDo limits.depth room (caller limits room) where
  keeps := keeps_eval_levelled limits room
  does := Expr.does_eval (keeps_eval_levelled limits room) (callWith_does (keeps_eval_levelled limits room) henter)

theorem depth_bindParams (ps : List Token) (vs : List Value) (m : Machine) :
    ((bindParams ps vs).left m).scope.depth = m.scope.depth := by
  unfold Scope.depth
  rw [(keeps_bindParams Machine.levelled_rebinding ps vs m).saved]

theorem enter_succ_eq (limits : Limits) (room : Nat) (name : Token) (f : Function) (values : List Value) (m : Machine) :
    enter limits (room + 1) name f values m =
      match Stmt.execAll (caller limits room) limits.rounds f.body
        ((bindParams f.params values).left { m with scope := m.scope.push }) with
      | .ok .normal m' => .ok .null m'.back
      | .ok (.returned v) m' => .ok v m'.back
      | .error stop m' => .error stop m'.back := by
  unfold caller
  rw [enter_succ]
  simp only [Run.rolledBack, runBody, bind, EStateM.bind, bindParams_eq_ok]
  cases Stmt.execAll (callWith (enter limits room)) limits.rounds f.body _ with
  | ok flow m' => cases flow <;> rfl
  | error stop m' => rfl

/-- A function is entered on a machine with one more table saved, if there is room. -/
theorem next_entered {limit : Nat} {m : Machine} (hroom : m.scope.depth < limit) (name : Token) (f : Function)
    (values : List Value) (k : List Frame) : ∃ m₁, m₁.scope.depth = m.scope.depth + 1 ∧
      m₁ = (bindParams f.params values).left { m with scope := m.scope.push } ∧
      (Config.mk (.args (.function f) name values.reverse []) k m).next limit =
        some ⟨.execAll f.body, .leave :: k, m₁⟩ := by
  refine ⟨_, ?_, rfl, ?_⟩
  · rw [depth_bindParams]
    rfl
  · simp only [next, ofCall, if_neg (Nat.not_le_of_lt hroom), List.reverse_reverse]

/-- **The steps of a call do what the call does**, by induction on the room for more calls. -/
theorem enter_does (limits : Limits) : ∀ (room : Nat) (name : Token) (f : Function) (values : List Value) (m : Machine),
    Does limits.depth room .value (Config.mk (.args (.function f) name values.reverse []))
      (enter limits room name f values) m
  | 0, name, f, values, m => by
    intro hroom _ k
    refine .single ?_
    simp only [next, ofCall, if_pos (show limits.depth ≤ m.scope.depth by omega)]
    rfl
  | room + 1, name, f, values, m => by
    intro hroom hfin k
    have hroom' : m.scope.depth < limits.depth := by omega
    obtain ⟨m₁, hdepth, hm₁, hstep⟩ := next_entered hroom' name f values k
    have hbody := Stmt.does_execAll (exprsDo_caller limits room (enter_does limits room)) limits.rounds f.body m₁
      (by omega)
    rw [enter_succ_eq, ← hm₁] at hfin ⊢
    refine .head hstep ?_
    cases hrun : Stmt.execAll (caller limits room) limits.rounds f.body m₁ with
    | ok flow m' =>
      rw [hrun] at hbody
      refine (hbody (fun _ h => nomatch h) (.leave :: k)).tail ?_
      cases flow <;> rfl
    | error stop m' =>
      rw [hrun] at hbody hfin
      refine (hbody (fun _ h => ?_) (.leave :: k)).tail rfl
      cases h
      exact hfin _ rfl

/-- **A run that does not use up its rounds is a sequence of steps**, and its outcome is where they end. -/
theorem runProgram_reaches (limits : Limits) (program : List Stmt) (m : Machine)
    (hfin : Finishes (runProgram limits program m)) :
    Reaches limits.depth (start program m) (outcome .flow [] (runProgram limits program m)) :=
  Stmt.does_execAll (exprsDo_caller limits _ (enter_does limits _)) limits.rounds program m rfl hfin []

theorem next_outcome (limit : Nat) (r : EStateM.Result Stop Machine Flow) : (outcome .flow [] r).next limit = none := by
  cases r <;> rfl

end Loot
