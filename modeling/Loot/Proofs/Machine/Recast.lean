import Loot.Proofs.Machine.Rollback
import Mathlib.Data.List.Forall2
/-!
# Programs told in another way

One program can stand for another: with other tokens in the same places, without declarations that nothing can
reach, with the statements of a block in its place, with a choice inside a choice.  `Terms` say how far this may go,
and `Stmt.Recast` that a statement stands for another on these terms.  What it means that two runs match is left
open: a relation between actions with the laws of `Recasting` passes from the primitive actions to the runs of
whole programs (`Recasting.runWith`).
-/
namespace Loot

/-! ## Programs that stand for each other -/

/-- The terms on which one program stands for another. -/
structure Terms where
  /-- Tokens that stand for each other. -/
  tokens : Token → Token → Prop
  /-- Tokens that stand for each other as names of variables. -/
  vars : Token → Token → Prop
  /-- Functions that stand for each other under a name. -/
  functions : Text → Function → Function → Prop
  /-- Names whose declarations may be left out. -/
  spare : Text → Prop
  /-- May there be loops? -/
  loops : Prop

variable (τ : Terms)

mutual

/-- The expressions have the same form, with tokens that stand for each other. -/
inductive Expr.Recast : Expr → Expr → Prop
  | literal {s t : Token} : τ.tokens s t → Expr.Recast (.literal s) (.literal t)
  | variable {s t : Token} : τ.vars s t → Expr.Recast (.variable s) (.variable t)
  | unary {s t : Token} {e e' : Expr} : τ.tokens s t → Expr.Recast e e' → Expr.Recast (.unary s e) (.unary t e')
  | binary {s t : Token} {l l' r r' : Expr} : Expr.Recast l l' → τ.tokens s t → Expr.Recast r r' →
      Expr.Recast (.binary l s r) (.binary l' t r')
  | call {s t : Token} {es es' : List Expr} : τ.tokens s t → Expr.AllRecast es es' →
      Expr.Recast (.call s es) (.call t es')

inductive Expr.AllRecast : List Expr → List Expr → Prop
  | nil : Expr.AllRecast [] []
  | cons {e e' : Expr} {es es' : List Expr} : Expr.Recast e e' → Expr.AllRecast es es' →
      Expr.AllRecast (e :: es) (e' :: es')

end

mutual

/-- **The second statement stands for the first.**  What a declared function does is not looked at: the terms say which
functions stand for each other. -/
inductive Stmt.Recast : Stmt → Stmt → Prop
  | expression {e e' : Expr} : e.Recast τ e' → Stmt.Recast (.expression e) (.expression e')
  | declareNone {s t : Token} : τ.vars s t → Stmt.Recast (.declare s none) (.declare t none)
  | declareSome {s t : Token} {e e' : Expr} : τ.vars s t → e.Recast τ e' →
      Stmt.Recast (.declare s (some e)) (.declare t (some e'))
  | block {ss ss' : List Stmt} : Stmt.AllRecast ss ss' → Stmt.Recast (.block ss) (.block ss')
  | branch {c c' : Expr} {s s' : Stmt} {ch ch' : Chain} : c.Recast τ c' → Stmt.Recast s s' → Chain.Recast ch ch' →
      Stmt.Recast (.branch c s ch) (.branch c' s' ch')
  | loop {c c' : Expr} {s s' : Stmt} : τ.loops → c.Recast τ c' → Stmt.Recast s s' →
      Stmt.Recast (.loop c s) (.loop c' s')
  | define {s t : Token} {ps ps' : List Token} {ss ss' : List Stmt} : τ.tokens s t →
      τ.functions s.lexeme ⟨ps, ss⟩ ⟨ps', ss'⟩ → Stmt.Recast (.define s ps ss) (.define t ps' ss')
  /-- A declaration that is left out where one statement is wanted. -/
  | leave {s : Token} {ps : List Token} {ss : List Stmt} : τ.spare s.lexeme →
      Stmt.Recast (.define s ps ss) (.block [])
  | giveNone {s t : Token} : Stmt.Recast (.give s none) (.give t none)
  | giveSome {s t : Token} {e e' : Expr} : e.Recast τ e' → Stmt.Recast (.give s (some e)) (.give t (some e'))
  | assign {s t : Token} {e e' : Expr} : τ.vars s t → e.Recast τ e' → Stmt.Recast (.assign s e) (.assign t e')
  | increase {s t : Token} : τ.vars s t → Stmt.Recast (.increase s) (.increase t)
  | decrease {s t : Token} : τ.vars s t → Stmt.Recast (.decrease s) (.decrease t)
  | finish {s t : Token} : Stmt.Recast (.finish s) (.finish t)

inductive Stmt.AllRecast : List Stmt → List Stmt → Prop
  | nil : Stmt.AllRecast [] []
  | cons {s s' : Stmt} {ss ss' : List Stmt} : Stmt.Recast s s' → Stmt.AllRecast ss ss' →
      Stmt.AllRecast (s :: ss) (s' :: ss')
  | leave {s : Token} {ps : List Token} {body ss ss' : List Stmt} : τ.spare s.lexeme → Stmt.AllRecast ss ss' →
      Stmt.AllRecast (.define s ps body :: ss) ss'
  /-- The statements of a block in its place. -/
  | splice {body body' ss ss' : List Stmt} : Stmt.AllRecast body body' → Stmt.AllRecast ss ss' →
      Stmt.AllRecast (.block body :: ss) (body' ++ ss')

inductive Chain.Recast : Chain → Chain → Prop
  | done : Chain.Recast .done .done
  | otherwise {s s' : Stmt} : Stmt.Recast s s' → Chain.Recast (.otherwise s) (.otherwise s')
  | retry {c c' : Expr} {s s' : Stmt} {ch ch' : Chain} : c.Recast τ c' → Stmt.Recast s s' → Chain.Recast ch ch' →
      Chain.Recast (.retry c s ch) (.retry c' s' ch')
  /-- The other clauses as a choice of their own. -/
  | nest {c c' : Expr} {s s' : Stmt} {ch ch' : Chain} : c.Recast τ c' → Stmt.Recast s s' → Chain.Recast ch ch' →
      Chain.Recast (.retry c s ch) (.otherwise (.branch c' s' ch'))

end

/-! ## Stops of the same kind -/

/-- The causes of faults that a program can meet while it runs. -/
def Cause.isRunning : Cause → Bool
  | .running _ | .undefinedVariable _ | .undefinedFunction _ | .callDepth _ _ | .mismatch _ | .arity _ _ _ => true
  | _ => false

/-- **The ways in which two runs can stop at tokens of the same place.** -/
inductive Raised (K : Token → Token → Prop) (loops : Prop) : Stop → Stop → Prop
  | fault {s t : Token} {cause : Cause} : K s t → cause.isRunning = true →
      Raised K loops (.fault { cause, line := s.line }) (.fault { cause, line := t.line })
  | exit {s t : Token} {x : Float} {code : Int} : K s t → Builtin.ofName? s.lexeme = some .gameover →
      Builtin.exitCode x = .ok code → Raised K loops (.exit code) (.exit code)
  | noExit {s t : Token} {x : Float} {c : Crash} : K s t → Builtin.ofName? s.lexeme = some .gameover →
      Builtin.exitCode x = .error c → Raised K loops (.crash c) (.crash c)
  | noPause {s t : Token} {b : Builtin} {c : Crash} : K s t → Builtin.ofName? s.lexeme = some b →
      b = .afk ∨ b = .lag → Raised K loops (.crash c) (.crash c)
  | unreadable {s t : Token} {c : Crash} : K s t → s.kind = .number → Binary64.read s.lexeme = .error c →
      Raised K loops (.crash c) (.crash c)
  | outOfRounds : loops → Raised K loops .outOfRounds .outOfRounds

/-! ## Relations between actions -/

/-- **A relation between actions that passes from the parts of a run to the whole**, on the given terms. -/
structure Recasting (C : (α : Type) → Run α → Run α → Prop) : Prop where
  same : ∀ {s t : Token}, τ.tokens s t → s.kind = t.kind ∧ s.lexeme = t.lexeme
  named : ∀ {s t : Token}, τ.vars s t → τ.tokens s t
  pure : ∀ {α : Type} (a : α), C α (pure a) (pure a)
  bind : ∀ {α β : Type} {x y : Run α} {f g : α → Run β}, C α x y → (∀ a, C β (f a) (g a)) → C β (x >>= f) (y >>= g)
  stop : ∀ {α : Type} {stop stop' : Stop}, Raised τ.tokens τ.loops stop stop' → C α (throw stop) (throw stop')
  emit : ∀ e : Event, C Unit (modify fun m => { m with events := e :: m.events })
    (modify fun m => { m with events := e :: m.events })
  readLine : C (Option Text) Run.readLine Run.readLine
  lookup : ∀ {s t : Token}, τ.vars s t → C Value (Run.lookup s) (Run.lookup t)
  assign : ∀ {s t : Token} (v : Value), τ.vars s t → C Unit (Run.assign s v) (Run.assign t v)
  define : ∀ {s t : Token} {f g : Function}, τ.tokens s t → τ.functions s.lexeme f g →
    C Unit (Run.define s f) (Run.define t g)
  leave : ∀ {s : Token} (f : Function), τ.spare s.lexeme → C Unit (Run.define s f) (Pure.pure ())
  /-- Functions are looked up by names that are not built in. -/
  find : ∀ {α : Type} {s t : Token} {F G : Option Function → Run α}, τ.tokens s t →
    Builtin.ofName? s.lexeme = none → C α (F none) (G none) →
    (∀ f g, τ.functions s.lexeme f g → C α (F (some f)) (G (some g))) →
    C α (do F ((← get).functions.get? s.lexeme)) (do G ((← get).functions.get? t.lexeme))
  clock : ∀ {α : Type} {F G : Clock → Run α}, (∀ k, C α (F k) (G k)) →
    C α (do F (← get).clock) (do G (← get).clock)
  rolledBack : ∀ {α : Type} {x y : Run α}, C α x y → C α (Run.rolledBack x) (Run.rolledBack y)
  params : ∀ {name : Text} {f g : Function}, τ.functions name f g → List.Forall₂ τ.vars f.params g.params
  body : ∀ {name : Text} {f g : Function}, τ.functions name f g → Stmt.AllRecast τ f.body g.body

namespace Recasting

variable {τ} {C : (α : Type) → Run α → Run α → Prop}

theorem ite {α : Type} {c : Prop} [Decidable c] {x y x' y' : Run α} (hx : C α x x') (hy : C α y y') :
    C α (if c then x else y) (if c then x' else y') := by
  split
  · exact hx
  · exact hy

variable (hC : Recasting τ C)

include hC

theorem fault {α : Type} {s t : Token} (hK : τ.tokens s t) {cause : Cause} (hcause : cause.isRunning = true) :
    C α (Run.fault cause s.line) (Run.fault cause t.line) := hC.stop (.fault hK hcause)

theorem write (text : Text) : C Unit (Run.write text) (Run.write text) := hC.emit (.wrote text)

/-! ### Values -/

theorem asNumber {s t : Token} (hK : τ.tokens s t) (v : Value) :
    C Float (Run.ofExcept (v.asNumber s.line)) (Run.ofExcept (v.asNumber t.line)) := by
  cases v with
  | string text =>
    simp only [Value.asNumber]
    cases readNumber? text.strip with
    | some x => exact hC.pure _
    | none => exact hC.fault hK rfl
  | null => exact hC.pure _
  | boolean b => exact hC.pure _
  | number x => exact hC.pure _

theorem negated {s t : Token} (hK : τ.tokens s t) (v : Value) :
    C Value (Run.ofExcept (v.negated s.line)) (Run.ofExcept (v.negated t.line)) := by
  cases v with
  | number x => exact hC.pure _
  | null => exact hC.fault hK rfl
  | boolean b => exact hC.fault hK rfl
  | string text => exact hC.fault hK rfl

theorem operate {s t : Token} (hK : τ.tokens s t) (op : Kind) (l r : Value) :
    C Value (Run.operate op l r s.line) (Run.operate op l r t.line) := by
  rw [Run.operate_eq, Run.operate_eq]
  unfold Value.operate
  split
  all_goals first
    | exact hC.pure _
    | exact hC.fault hK rfl

theorem literalValue {s t : Token} (hK : τ.tokens s t) : C Value (literalValue s) (literalValue t) := by
  obtain ⟨hkind, hlexeme⟩ := hC.same hK
  unfold Loot.literalValue
  rw [← hkind, ← hlexeme]
  split
  · rename_i hnumber
    cases hread : Binary64.read s.lexeme with
    | ok x => exact hC.pure _
    | error c => exact hC.stop (.unreadable hK hnumber hread)
  · exact hC.pure _
  · exact hC.pure _

/-! ### Built-in functions -/

section Builtins

variable {s t : Token} (hK : τ.tokens s t) {args args' : List (Run Value)}
  (hargs : List.Forall₂ (C Value) args args')

include hK hargs

theorem required (i : Nat) : C Value (Builtin.required s args i) (Builtin.required t args' i) := by
  rw [Builtin.required_eq, Builtin.required_eq, ← (hC.same hK).2, ← hargs.length_eq]
  by_cases hi : i < args.length
  · have hi' : i < args'.length := hargs.length_eq ▸ hi
    rw [List.getElem?_eq_getElem hi, List.getElem?_eq_getElem hi']
    exact hargs.get hi hi'
  · rw [List.getElem?_eq_none (by omega), List.getElem?_eq_none (by rw [← hargs.length_eq]; omega)]
    exact hC.fault hK rfl

omit hK in
theorem optional (i : Nat) (default : Value) :
    C Value (Builtin.optional args i default) (Builtin.optional args' i default) := by
  rw [Builtin.optional_eq, Builtin.optional_eq]
  by_cases hi : i < args.length
  · have hi' : i < args'.length := hargs.length_eq ▸ hi
    rw [List.getElem?_eq_getElem hi, List.getElem?_eq_getElem hi']
    exact hargs.get hi hi'
  · rw [List.getElem?_eq_none (by omega), List.getElem?_eq_none (by rw [← hargs.length_eq]; omega)]
    exact hC.pure _

theorem number : C Float (Builtin.number s args) (Builtin.number t args') := by
  rw [Builtin.number_eq, Builtin.number_eq]
  exact hC.bind (hC.required hK hargs 0) (fun v => hC.asNumber hK v)

omit hargs in
theorem pause {b : Builtin} (hb : Builtin.ofName? s.lexeme = some b) (hkind : b = .afk ∨ b = .lag) (seconds : Float) :
    C Unit (Run.pause seconds) (Run.pause seconds) := by
  have hby : ∀ clock : Clock, C Unit (Run.pauseBy clock seconds) (Run.pauseBy clock seconds) := by
    intro clock
    unfold Run.pauseBy
    cases clock seconds with
    | some c => exact hC.stop (.noPause hK hb hkind)
    | none => exact hC.emit _
  exact hC.clock hby

/-- **Built-in functions match if their arguments do.** -/
theorem builtin (b : Builtin) (hb : Builtin.ofName? s.lexeme = some b) : C Value (b.run s args) (b.run t args') := by
  have hnumber := hC.number hK hargs
  cases b with
  | taunt =>
    refine hC.bind (hC.optional hargs 0 _) (fun v => hC.bind (hC.optional hargs 1 _) (fun w => ?_))
    exact hC.bind (hC.write _) (fun _ => hC.pure _)
  | quest =>
    -- what follows the prompt, if there is one, stands in both branches
    have hread : ∀ f : Option Text → Run Value, (∀ line, C Value (f line) (f line)) →
        C Value (Run.readLine >>= f) (Run.readLine >>= f) := fun _ hf => hC.bind hC.readLine hf
    have hempty : args'.isEmpty = args.isEmpty := by
      cases hargs <;> rfl
    simp only [Builtin.run, hempty]
    refine ite ?_ (hread _ (fun line => ?_))
    · refine hC.bind (hC.required hK hargs 0) (fun v => hC.bind (hC.write _) (fun _ => hread _ (fun line => ?_)))
      cases line <;> exact hC.pure _
    · cases line <;> exact hC.pure _
  | afk => exact hC.bind hnumber (fun x => hC.bind (hC.pause hK hb (.inl rfl) _) (fun _ => hC.pure _))
  | lag => exact hC.bind hnumber (fun x => hC.bind (hC.pause hK hb (.inr rfl) _) (fun _ => hC.pure _))
  | stat => exact hC.bind hnumber (fun x => hC.pure _)
  | chat => exact hC.bind (hC.required hK hargs 0) (fun v => hC.pure _)
  | patch => exact hC.bind (hC.required hK hargs 0) (fun v => hC.pure _)
  | gameover =>
    refine hC.bind hnumber (fun x => ?_)
    cases hcode : Builtin.exitCode x with
    | ok code => exact hC.stop (.exit hK hb hcode)
    | error crash => exact hC.stop (.noExit hK hb hcode)

end Builtins

end Recasting

/-! ## Expressions and statements

The two programs may be run with two ways to call functions, as long as calls match. -/

/-- Calls match if their arguments do. -/
def CallsMatch (K : Token → Token → Prop) (C : (α : Type) → Run α → Run α → Prop) (c c' : Caller) : Prop :=
  ∀ {s t : Token} {args args' : List (Run Value)}, K s t → List.Forall₂ (C Value) args args' →
    C Value (c s args) (c' t args')

theorem Stmt.execAll_append_bind (c : Caller) (rounds : Nat) (ss' ss : List Stmt) :
    Stmt.execAll c rounds (ss ++ ss') = (do
      match ← Stmt.execAll c rounds ss with
      | .normal => Stmt.execAll c rounds ss'
      | .returned v => pure (.returned v)) := by
  induction ss with
  | nil => rw [List.nil_append, Stmt.execAll, pure_bind]
  | cons s ss ih =>
    rw [List.cons_append, Stmt.execAll, Stmt.execAll, bind_assoc]
    refine bind_congr (fun flow => ?_)
    cases flow with
    | normal => exact ih
    | returned v => rfl

namespace Recasting

variable {τ} {C : (α : Type) → Run α → Run α → Prop} {c c' : Caller}

mutual

theorem eval (hC : Recasting τ C) (hc : CallsMatch τ.tokens C c c') {e e' : Expr} :
    e.Recast τ e' → C Value (e.eval c) (e'.eval c')
  | .literal hK => by
    rw [Expr.eval, Expr.eval]
    exact hC.literalValue hK
  | .variable hV => by
    rw [Expr.eval, Expr.eval]
    exact hC.lookup hV
  | .unary hK he => by
    rw [Expr.eval, Expr.eval]
    exact hC.bind (hC.eval hc he) (fun v => hC.negated hK v)
  | .binary hl hK hr => by
    rw [Expr.eval, Expr.eval, ← (hC.same hK).1]
    exact hC.bind (hC.eval hc hl) (fun v => hC.bind (hC.eval hc hr) (fun w => hC.operate hK _ v w))
  | .call hK hargs => by
    rw [Expr.eval, Expr.eval]
    exact hc hK (hC.evals hc hargs)

theorem evals (hC : Recasting τ C) (hc : CallsMatch τ.tokens C c c') {es es' : List Expr} :
    Expr.AllRecast τ es es' → List.Forall₂ (C Value) (Expr.evals c es) (Expr.evals c' es')
  | .nil => by
    rw [Expr.evals]
    exact .nil
  | .cons he hes => by
    rw [Expr.evals, Expr.evals]
    exact .cons (hC.eval hc he) (hC.evals hc hes)

end

theorem repeatWhile (hC : Recasting τ C) {x x' : Run Value} {y y' : Run Flow} (hloops : τ.loops)
    (hx : C Value x x') (hy : C Flow y y') : ∀ n, C Flow (repeatWhile x y n) (repeatWhile x' y' n)
  | 0 => hC.stop (.outOfRounds hloops)
  | n + 1 => by
    refine hC.bind hx (fun v => ite (hC.bind hy (fun flow => ?_)) (hC.pure _))
    cases flow with
    | normal => exact hC.repeatWhile hloops hx hy n
    | returned v => exact hC.pure _

theorem step (hC : Recasting τ C) {s t : Token} (hV : τ.vars s t) (delta : Float) :
    C Flow (step s delta) (step t delta) := by
  have hK := hC.named hV
  unfold Loot.step
  rw [← (hC.same hK).2]
  refine hC.bind (hC.lookup hV) (fun v => ?_)
  cases v with
  | number x => exact hC.bind (hC.assign _ hV) (fun _ => hC.pure _)
  | null => exact hC.fault hK rfl
  | boolean b => exact hC.fault hK rfl
  | string text => exact hC.fault hK rfl

/-- A declaration that is left out takes no part in what comes after it. -/
theorem leave_bind (hC : Recasting τ C) {α : Type} {s : Token} (f : Function) (hs : τ.spare s.lexeme) {x y : Run α}
    (hxy : C α x y) : C α (Run.define s f >>= fun _ => x) y := by
  have h := hC.bind (hC.leave f hs) (fun _ => hxy)
  rwa [pure_bind] at h

mutual

/-- **A statement matches the one that stands for it.** -/
theorem exec (hC : Recasting τ C) (hc : CallsMatch τ.tokens C c c') (rounds : Nat) {s s' : Stmt} :
    s.Recast τ s' → C Flow (s.exec c rounds) (s'.exec c' rounds)
  | .expression he => by
    rw [Stmt.exec, Stmt.exec]
    exact hC.bind (hC.eval hc he) (fun _ => hC.pure _)
  | .declareNone hV => by
    rw [Stmt.exec, Stmt.exec]
    exact hC.bind (hC.assign _ hV) (fun _ => hC.pure _)
  | .declareSome hV he => by
    rw [Stmt.exec, Stmt.exec]
    exact hC.bind (hC.eval hc he) (fun v => hC.bind (hC.assign v hV) (fun _ => hC.pure _))
  | .block hss => by
    rw [Stmt.exec, Stmt.exec]
    exact hC.execAll hc rounds hss
  | .branch hcond hs hch => by
    rw [Stmt.exec, Stmt.exec]
    exact hC.bind (hC.eval hc hcond) (fun v => ite (hC.exec hc rounds hs) (hC.execChain hc rounds hch))
  | .loop hloops hcond hs => by
    rw [Stmt.exec, Stmt.exec]
    exact hC.repeatWhile hloops (hC.eval hc hcond) (hC.exec hc rounds hs) rounds
  | .define hK hf => by
    rw [Stmt.exec, Stmt.exec]
    exact hC.bind (hC.define hK hf) (fun _ => hC.pure _)
  | .leave hs => by
    rw [Stmt.exec, Stmt.exec, Stmt.execAll]
    exact hC.leave_bind _ hs (hC.pure _)
  | .giveNone => by
    rw [Stmt.exec, Stmt.exec]
    exact hC.pure _
  | .giveSome he => by
    rw [Stmt.exec, Stmt.exec]
    exact hC.bind (hC.eval hc he) (fun _ => hC.pure _)
  | .assign hV he => by
    rw [Stmt.exec, Stmt.exec]
    exact hC.bind (hC.eval hc he) (fun v => hC.bind (hC.assign v hV) (fun _ => hC.pure _))
  | .increase hV => by
    rw [Stmt.exec, Stmt.exec]
    exact hC.step hV 1
  | .decrease hV => by
    rw [Stmt.exec, Stmt.exec]
    exact hC.step hV (-1)
  | .finish => by
    rw [Stmt.exec, Stmt.exec]
    exact hC.pure _

theorem execAll (hC : Recasting τ C) (hc : CallsMatch τ.tokens C c c') (rounds : Nat) {ss ss' : List Stmt} :
    Stmt.AllRecast τ ss ss' → C Flow (Stmt.execAll c rounds ss) (Stmt.execAll c' rounds ss')
  | .nil => by
    rw [Stmt.execAll, Stmt.execAll]
    exact hC.pure _
  | .cons hs hss => by
    rw [Stmt.execAll, Stmt.execAll]
    refine hC.bind (hC.exec hc rounds hs) (fun flow => ?_)
    cases flow with
    | normal => exact hC.execAll hc rounds hss
    | returned v => exact hC.pure _
  | .leave hs hss => by
    rw [Stmt.execAll, Stmt.exec, bind_assoc]
    refine hC.leave_bind _ hs ?_
    rw [pure_bind]
    exact hC.execAll hc rounds hss
  | .splice hbody hss => by
    -- a value given back in the block cuts off what follows it, as it does in its place
    rw [Stmt.execAll, Stmt.exec, Stmt.execAll_append_bind]
    refine hC.bind (hC.execAll hc rounds hbody) (fun flow => ?_)
    cases flow with
    | normal => exact hC.execAll hc rounds hss
    | returned v => exact hC.pure _

theorem execChain (hC : Recasting τ C) (hc : CallsMatch τ.tokens C c c') (rounds : Nat) {ch ch' : Chain} :
    ch.Recast τ ch' → C Flow (ch.exec c rounds) (ch'.exec c' rounds)
  | .done => by
    rw [Chain.exec, Chain.exec]
    exact hC.pure _
  | .otherwise hs => by
    rw [Chain.exec, Chain.exec]
    exact hC.exec hc rounds hs
  | .retry hcond hs hch => by
    rw [Chain.exec, Chain.exec]
    exact hC.bind (hC.eval hc hcond) (fun v => ite (hC.exec hc rounds hs) (hC.execChain hc rounds hch))
  | .nest hcond hs hch => by
    rw [Chain.exec, Chain.exec, Stmt.exec]
    exact hC.bind (hC.eval hc hcond) (fun v => ite (hC.exec hc rounds hs) (hC.execChain hc rounds hch))

end

end Recasting

/-! ## Calls and programs -/

namespace Recasting

variable {τ} {C : (α : Type) → Run α → Run α → Prop} (hC : Recasting τ C)

include hC

theorem inOrder {args args' : List (Run Value)} (hargs : List.Forall₂ (C Value) args args') :
    C (List Value) (inOrder args) (inOrder args') := by
  induction hargs with
  | nil => exact hC.pure _
  | cons h _ ih => exact hC.bind h (fun v => hC.bind ih (fun vs => hC.pure _))

theorem bindParams {ps ps' : List Token} (hps : List.Forall₂ τ.vars ps ps') : ∀ values,
    C Unit (bindParams ps values) (bindParams ps' values) := by
  induction hps with
  | nil => exact fun _ => hC.pure _
  | cons hV _ ih =>
    intro values
    cases values with
    | nil => exact hC.pure _
    | cons v vs => exact hC.bind (hC.assign v hV) (fun _ => ih vs)

theorem callWith {enter enter' : Token → Function → List Value → Run Value}
    (henter : ∀ {s t f g} values, τ.tokens s t → τ.functions s.lexeme f g →
      C Value (enter s f values) (enter' t g values)) :
    CallsMatch τ.tokens C (callWith enter) (callWith enter') := by
  intro s t args args' hK hargs
  have hlexeme := (hC.same hK).2
  cases hb : Builtin.ofName? s.lexeme with
  | some b =>
    rw [callWith_of_builtin enter hb, callWith_of_builtin enter' (hlexeme ▸ hb)]
    exact hC.builtin hK hargs b hb
  | none =>
    rw [callWith_of_not_builtin enter hb, callWith_of_not_builtin enter' (hlexeme ▸ hb)]
    refine hC.find hK hb ?_ (fun f g hfg => ?_)
    · rw [callFound, callFound, ← hlexeme]
      exact hC.fault hK rfl
    · rw [callFound, callFound, ← hlexeme, ← hargs.length_eq, ← (hC.params hfg).length_eq]
      exact ite (hC.fault hK rfl) (hC.bind (hC.inOrder hargs) (fun values => henter values hK hfg))

omit hC in
theorem enter (hC : Recasting τ C) (limits : Limits) : ∀ (room : Nat) {s t : Token} {f g : Function}
    (values : List Value), τ.tokens s t → τ.functions s.lexeme f g →
      C Value (enter limits room s f values) (enter limits room t g values)
  | 0, s, t, f, g, values, hK, _ => by
    rw [Loot.enter, Loot.enter, ← (hC.same hK).2]
    exact hC.fault hK rfl
  | room + 1, s, t, f, g, values, hK, hfg => by
    have hcall : CallsMatch τ.tokens C (Loot.callWith (Loot.enter limits room))
        (Loot.callWith (Loot.enter limits room)) := hC.callWith (fun values => enter hC limits room values)
    rw [enter_succ, enter_succ]
    refine hC.rolledBack (hC.bind (hC.bindParams (hC.params hfg) values) (fun _ => ?_))
    refine hC.bind (hC.execAll hcall limits.rounds (hC.body hfg)) (fun flow => ?_)
    cases flow <;> exact hC.pure _

/-- **A program matches the one that stands for it.** -/
theorem runWith (limits : Limits) (room : Nat) {program program' : List Stmt}
    (h : Stmt.AllRecast τ program program') :
    C Flow (Stmt.execAll (caller limits room) limits.rounds program)
      (Stmt.execAll (caller limits room) limits.rounds program') :=
  hC.execAll (hC.callWith (fun values => hC.enter limits room values)) limits.rounds h

end Recasting

end Loot
