import Loot.Proofs.Machine.Guarded
/-!
# What runs keep

A run keeps a relation between machines when the machine that it leaves is related to the one that it
started from, on every outcome: a result, a fault, an exit, a crash or a loop out of rounds.  For a
relation that is reflexive and transitive this is a property of the parts of a run: a sequence of
actions keeps what each of them keeps, so expressions, statements and built-in functions keep what
the calls and the few primitive actions in them keep.
-/
namespace Loot

/-- An action that first looks at the state runs on the state it sees. -/
theorem get_bind_apply {ε σ α : Type} (f : σ → EStateM ε σ α) (s : σ) : (get >>= f : EStateM ε σ α) s = f s s := rfl

namespace Run

variable {α β : Type}

/-- The machine that an action leaves, however it ends. -/
def left (action : Run α) (m : Machine) : Machine :=
  match action m with
  | .ok _ m' => m'
  | .error _ m' => m'

/-- **An action keeps a relation** if it relates every machine to the one that the action leaves. -/
def Keeps (R : Machine → Machine → Prop) (action : Run α) : Prop := ∀ m, R m (action.left m)

theorem Keeps.mono {R S : Machine → Machine → Prop} (hRS : ∀ m m', R m m' → S m m') {action : Run α}
    (h : Keeps R action) : Keeps S action := fun m => hRS _ _ (h m)

theorem left_bind (x : Run α) (f : α → Run β) (m : Machine) :
    (x >>= f).left m = match x m with
      | .ok a m' => (f a).left m'
      | .error _ m' => m' := by
  simp only [left, bind, EStateM.bind]
  cases x m <;> rfl

end Run

/-- A relation that holds between a machine and itself, and along a chain of machines. -/
structure Chained (R : Machine → Machine → Prop) : Prop where
  refl : ∀ m, R m m
  trans : ∀ {a b c}, R a b → R b c → R a c

namespace Run

variable {α β : Type} {R : Machine → Machine → Prop}

theorem keeps_pure (hR : Chained R) (a : α) : Keeps R (pure a : Run α) := fun m => hR.refl m

theorem keeps_throw (hR : Chained R) (stop : Stop) : Keeps R (throw stop : Run α) := fun m => hR.refl m

theorem keeps_fault (hR : Chained R) (cause : Cause) (line : Line) : Keeps R (fault cause line : Run α) :=
  keeps_throw hR _

theorem keeps_ofExcept (hR : Chained R) (x : Except Fault α) : Keeps R (ofExcept x) := by
  cases x with
  | ok a => exact keeps_pure hR a
  | error f => exact keeps_throw hR _

theorem keeps_ofSystem (hR : Chained R) (x : Except Crash α) : Keeps R (ofSystem x) := by
  cases x with
  | ok a => exact keeps_pure hR a
  | error c => exact keeps_throw hR _

theorem keeps_get (hR : Chained R) : Keeps R (get : Run Machine) := fun m => hR.refl m

theorem keeps_bind (hR : Chained R) {x : Run α} {f : α → Run β} (hx : Keeps R x) (hf : ∀ a, Keeps R (f a)) :
    Keeps R (x >>= f) := by
  intro m
  have h := hx m
  rw [left_bind]
  unfold left at h
  cases hm : x m with
  | ok a m' => rw [hm] at h; exact hR.trans h (hf a m')
  | error stop m' => rw [hm] at h; exact h

theorem keeps_ite {c : Prop} [Decidable c] {x y : Run α} (hx : Keeps R x) (hy : Keeps R y) :
    Keeps R (if c then x else y) := by
  split
  · exact hx
  · exact hy

theorem keeps_operate (hR : Chained R) (op : Kind) (l r : Value) (line : Line) : Keeps R (operate op l r line) := by
  rw [operate_eq]
  exact keeps_ofExcept hR _

theorem keeps_lookup (hR : Chained R) (name : Token) : Keeps R (lookup name) :=
  keeps_bind hR (keeps_get hR) (fun _ => keeps_ofExcept hR _)

end Run

/-! ## Built-in functions

They touch the machine through their arguments, the events and the input. -/

/-- A relation that does not look at what a program shows and reads. -/
structure Outward (R : Machine → Machine → Prop) : Prop extends Chained R where
  events : ∀ m es, R m { m with events := es }
  input : ∀ m i, R m { m with input := i }

section Builtins

open Run

variable {R : Machine → Machine → Prop}

theorem keeps_write (hR : Outward R) (text : Text) : Keeps R (write text) := fun m => hR.events m _

theorem keeps_pause (hR : Outward R) (seconds : Float) : Keeps R (pause seconds) := by
  refine keeps_bind hR.toChained (keeps_get hR.toChained) (fun m => ?_)
  unfold pauseBy
  cases m.clock seconds with
  | some c => exact keeps_throw hR.toChained _
  | none => exact fun m => hR.events m _

theorem keeps_readLine (hR : Outward R) : Keeps R readLine := by
  refine keeps_bind hR.toChained (keeps_get hR.toChained) (fun m => ?_)
  cases m.input with
  | none => exact keeps_pure hR.toChained _
  | some text =>
    cases text with
    | nil => exact keeps_pure hR.toChained _
    | cons c cs => exact keeps_bind hR.toChained (fun m => hR.input m _) (fun _ => keeps_pure hR.toChained _)

theorem keeps_required (hR : Outward R) (name : Token) {args : List (Run Value)}
    (hargs : ∀ a ∈ args, Keeps R a) (i : Nat) : Keeps R (Builtin.required name args i) := by
  rw [Builtin.required_eq]
  split
  · rename_i arg hi
    exact hargs arg (List.mem_of_getElem? hi)
  · exact keeps_fault hR.toChained _ _

theorem keeps_optional (hR : Outward R) {args : List (Run Value)} (hargs : ∀ a ∈ args, Keeps R a) (i : Nat)
    (default : Value) : Keeps R (Builtin.optional args i default) := by
  rw [Builtin.optional_eq]
  cases hi : args[i]? with
  | some arg => exact hargs arg (List.mem_of_getElem? hi)
  | none => exact keeps_pure hR.toChained _

theorem keeps_number (hR : Outward R) (name : Token) {args : List (Run Value)} (hargs : ∀ a ∈ args, Keeps R a) :
    Keeps R (Builtin.number name args) := by
  rw [Builtin.number_eq]
  exact keeps_bind hR.toChained (keeps_required hR name hargs 0) (fun _ => keeps_ofExcept hR.toChained _)

/-- **A built-in function keeps what its arguments keep.** -/
theorem keeps_builtin (hR : Outward R) (b : Builtin) (name : Token) {args : List (Run Value)}
    (hargs : ∀ a ∈ args, Keeps R a) : Keeps R (b.run name args) := by
  have hC := hR.toChained
  have hpure : ∀ v : Value, Keeps R (pure v : Run Value) := keeps_pure hC
  have hreq := keeps_required hR name hargs
  have hnum := keeps_number hR name hargs
  cases b with
  | taunt =>
    refine keeps_bind hC (keeps_optional hR hargs 0 _) (fun v => ?_)
    refine keeps_bind hC (keeps_optional hR hargs 1 _) (fun w => ?_)
    exact keeps_bind hC (keeps_write hR _) (fun _ => hpure _)
  | quest =>
    -- what follows the prompt, if there is one, stands in both branches
    have hread : ∀ f : Option Text → Run Value, (∀ line, Keeps R (f line)) → Keeps R (readLine >>= f) :=
      fun _ hf => keeps_bind hC (keeps_readLine hR) hf
    simp only [Builtin.run]
    refine keeps_ite ?_ (hread _ (fun line => ?_))
    · refine keeps_bind hC (hreq 0) (fun v => keeps_bind hC (keeps_write hR _) (fun _ => hread _ (fun line => ?_)))
      cases line <;> exact hpure _
    · cases line <;> exact hpure _
  | afk => exact keeps_bind hC hnum (fun x => keeps_bind hC (keeps_pause hR _) (fun _ => hpure _))
  | lag => exact keeps_bind hC hnum (fun x => keeps_bind hC (keeps_pause hR _) (fun _ => hpure _))
  | stat => exact keeps_bind hC hnum (fun x => hpure _)
  | chat => exact keeps_bind hC (hreq 0) (fun v => hpure _)
  | patch => exact keeps_bind hC (hreq 0) (fun v => hpure _)
  | gameover =>
    refine keeps_bind hC hnum (fun x => ?_)
    split
    · exact keeps_throw hC _
    · exact keeps_throw hC _

end Builtins

/-! ## Expressions

Only calls do more than read. -/

/-- A call keeps a relation if its arguments do. -/
def Caller.Keeps (R : Machine → Machine → Prop) (c : Caller) : Prop :=
  ∀ name args, (∀ a ∈ args, Run.Keeps R a) → Run.Keeps R (c name args)

section Expressions

open Run

variable {R : Machine → Machine → Prop} {c : Caller}

theorem keeps_literalValue (hR : Chained R) (t : Token) : Keeps R (literalValue t) := by
  unfold literalValue
  split
  · exact keeps_bind hR (keeps_ofSystem hR _) (fun _ => keeps_pure hR _)
  · exact keeps_pure hR _
  · exact keeps_pure hR _

mutual

/-- **Evaluation keeps what calls keep.** -/
theorem Expr.keeps_eval (hR : Chained R) (hc : c.Keeps R) : ∀ e : Expr, Keeps R (e.eval c)
  | .literal token => by
    rw [Expr.eval]
    exact keeps_literalValue hR token
  | .variable name => by
    rw [Expr.eval]
    exact keeps_lookup hR name
  | .unary op e => by
    rw [Expr.eval]
    exact keeps_bind hR (Expr.keeps_eval hR hc e) (fun _ => keeps_ofExcept hR _)
  | .binary l op r => by
    rw [Expr.eval]
    refine keeps_bind hR (Expr.keeps_eval hR hc l) (fun _ => ?_)
    exact keeps_bind hR (Expr.keeps_eval hR hc r) (fun _ => keeps_operate hR _ _ _ _)
  | .call name args => by
    rw [Expr.eval]
    exact hc name _ (Expr.keeps_evals hR hc args)

theorem Expr.keeps_evals (hR : Chained R) (hc : c.Keeps R) : ∀ es : List Expr, ∀ a ∈ Expr.evals c es, Keeps R a
  | [], a, ha => by
    rw [Expr.evals] at ha
    cases ha
  | e :: es, a, ha => by
    rw [Expr.evals] at ha
    rcases List.mem_cons.1 ha with rfl | ha
    · exact Expr.keeps_eval hR hc e
    · exact Expr.keeps_evals hR hc es a ha

end

theorem keeps_inOrder (hR : Chained R) : ∀ args : List (Run Value), (∀ a ∈ args, Keeps R a) → Keeps R (inOrder args)
  | [], _ => keeps_pure hR _
  | a :: args, h => by
    refine keeps_bind hR (h a List.mem_cons_self) (fun _ => ?_)
    have hrest := keeps_inOrder hR args (fun b hb => h b (List.mem_cons_of_mem _ hb))
    exact keeps_bind hR hrest (fun _ => keeps_pure hR _)

theorem keeps_callWith (hR : Outward R) {enter : Token → Function → List Value → Run Value}
    (henter : ∀ name f values, Keeps R (enter name f values)) : (callWith enter).Keeps R := by
  intro name args hargs
  have hC := hR.toChained
  cases hb : Builtin.ofName? name.lexeme with
  | some b =>
    rw [callWith_of_builtin enter hb]
    exact keeps_builtin hR b name hargs
  | none =>
    rw [callWith_of_not_builtin enter hb]
    refine keeps_bind hC (keeps_get hC) (fun m => ?_)
    unfold callFound
    split
    · exact keeps_fault hC _ _
    · refine keeps_ite (keeps_fault hC _ _) ?_
      exact keeps_bind hC (keeps_inOrder hC args hargs) (fun values => henter name _ values)

end Expressions

/-! ## Statements

Beyond their expressions they bind variables and declare functions. -/

/-- A relation that does not look at the variables in use, nor at what a function is declared to be. -/
structure Rebinding (R : Machine → Machine → Prop) : Prop extends Chained R where
  assign : ∀ name v, Run.Keeps R (Run.assign name v)
  define : ∀ name f, Run.Keeps R (Run.define name f)

section Statements

open Run

variable {R : Machine → Machine → Prop} {c : Caller}

theorem keeps_repeatWhile (hR : Chained R) {condition : Run Value} {body : Run Flow} (hc : Keeps R condition)
    (hb : Keeps R body) : ∀ n, Keeps R (repeatWhile condition body n)
  | 0 => keeps_throw hR _
  | n + 1 => by
    refine keeps_bind hR hc (fun v => keeps_ite (keeps_bind hR hb (fun flow => ?_)) (keeps_pure hR _))
    cases flow with
    | normal => exact keeps_repeatWhile hR hc hb n
    | returned v => exact keeps_pure hR _

theorem keeps_step (hR : Rebinding R) (name : Token) (delta : Float) : Keeps R (step name delta) := by
  have hC := hR.toChained
  refine keeps_bind hC (keeps_lookup hC name) (fun v => ?_)
  split
  · exact keeps_bind hC (hR.assign name _) (fun _ => keeps_pure hC _)
  · exact keeps_fault hC _ _

theorem keeps_bindParams (hR : Rebinding R) : ∀ params values, Keeps R (bindParams params values)
  | p :: ps, v :: vs => keeps_bind hR.toChained (hR.assign p v) (fun _ => keeps_bindParams hR ps vs)
  | [], _ => keeps_pure hR.toChained _
  | _ :: _, [] => keeps_pure hR.toChained _

mutual

/-- **A statement keeps what its expressions, bindings and declarations keep.** -/
theorem Stmt.keeps_exec (hR : Rebinding R) (hc : ∀ e : Expr, Keeps R (e.eval c)) (rounds : Nat) :
    ∀ s : Stmt, Keeps R (s.exec c rounds)
  | .expression e => by
    rw [Stmt.exec]
    exact keeps_bind hR.toChained (hc e) (fun _ => keeps_pure hR.toChained _)
  | .declare name none => by
    rw [Stmt.exec]
    exact keeps_bind hR.toChained (hR.assign name _) (fun _ => keeps_pure hR.toChained _)
  | .declare name (some e) => by
    rw [Stmt.exec]
    refine keeps_bind hR.toChained (hc e) (fun v => ?_)
    exact keeps_bind hR.toChained (hR.assign name v) (fun _ => keeps_pure hR.toChained _)
  | .block body => by
    rw [Stmt.exec]
    exact Stmt.keeps_execAll hR hc rounds body
  | .branch condition body rest => by
    rw [Stmt.exec]
    refine keeps_bind hR.toChained (hc condition) (fun v => ?_)
    exact keeps_ite (Stmt.keeps_exec hR hc rounds body) (Chain.keeps_exec hR hc rounds rest)
  | .loop condition body => by
    rw [Stmt.exec]
    exact keeps_repeatWhile hR.toChained (hc condition) (Stmt.keeps_exec hR hc rounds body) rounds
  | .define name params body => by
    rw [Stmt.exec]
    exact keeps_bind hR.toChained (hR.define name _) (fun _ => keeps_pure hR.toChained _)
  | .give _ none => by
    rw [Stmt.exec]
    exact keeps_pure hR.toChained _
  | .give _ (some e) => by
    rw [Stmt.exec]
    exact keeps_bind hR.toChained (hc e) (fun _ => keeps_pure hR.toChained _)
  | .assign target e => by
    rw [Stmt.exec]
    refine keeps_bind hR.toChained (hc e) (fun v => ?_)
    exact keeps_bind hR.toChained (hR.assign target v) (fun _ => keeps_pure hR.toChained _)
  | .increase name => by
    rw [Stmt.exec]
    exact keeps_step hR name _
  | .decrease name => by
    rw [Stmt.exec]
    exact keeps_step hR name _
  | .finish _ => by
    rw [Stmt.exec]
    exact keeps_pure hR.toChained _

theorem Stmt.keeps_execAll (hR : Rebinding R) (hc : ∀ e : Expr, Keeps R (e.eval c)) (rounds : Nat) :
    ∀ ss : List Stmt, Keeps R (Stmt.execAll c rounds ss)
  | [] => by
    rw [Stmt.execAll]
    exact keeps_pure hR.toChained _
  | s :: ss => by
    rw [Stmt.execAll]
    refine keeps_bind hR.toChained (Stmt.keeps_exec hR hc rounds s) (fun flow => ?_)
    cases flow with
    | normal => exact Stmt.keeps_execAll hR hc rounds ss
    | returned v => exact keeps_pure hR.toChained _

theorem Chain.keeps_exec (hR : Rebinding R) (hc : ∀ e : Expr, Keeps R (e.eval c)) (rounds : Nat) :
    ∀ ch : Chain, Keeps R (ch.exec c rounds)
  | .done => by
    rw [Chain.exec]
    exact keeps_pure hR.toChained _
  | .otherwise body => by
    rw [Chain.exec]
    exact Stmt.keeps_exec hR hc rounds body
  | .retry condition body rest => by
    rw [Chain.exec]
    refine keeps_bind hR.toChained (hc condition) (fun v => ?_)
    exact keeps_ite (Stmt.keeps_exec hR hc rounds body) (Chain.keeps_exec hR hc rounds rest)

end

end Statements

end Loot
