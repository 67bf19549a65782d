import Loot.Proofs.Machine.Recast
/-!
# Runs side by side

Two programs of the same form, token for token, take the same steps as long as each primitive action of
the one is matched by that of the other.  What "matched" means is left open: a relation between actions that
passes from the parts of a run to the whole is `Parallel`, and such a relation holds between the runs of any
two programs that are `Alike` (`Parallel.runWith`).  A property of single runs is the case where the second
run is not looked at.
-/
namespace Loot

/-! ## Programs of the same form -/

variable (K : Token → Token → Prop)

mutual

/-- The expressions have the same form, and the tokens at the same places are related. -/
inductive Expr.Alike : Expr → Expr → Prop
  | literal {s t : Token} : K s t → Expr.Alike (.literal s) (.literal t)
  | variable {s t : Token} : K s t → Expr.Alike (.variable s) (.variable t)
  | unary {s t : Token} {e e' : Expr} : K s t → Expr.Alike e e' → Expr.Alike (.unary s e) (.unary t e')
  | binary {s t : Token} {l l' r r' : Expr} : Expr.Alike l l' → K s t → Expr.Alike r r' →
      Expr.Alike (.binary l s r) (.binary l' t r')
  | call {s t : Token} {es es' : List Expr} : K s t → Expr.AllAlike es es' → Expr.Alike (.call s es) (.call t es')

inductive Expr.AllAlike : List Expr → List Expr → Prop
  | nil : Expr.AllAlike [] []
  | cons {e e' : Expr} {es es' : List Expr} : Expr.Alike e e' → Expr.AllAlike es es' →
      Expr.AllAlike (e :: es) (e' :: es')

end

mutual

/-- The statements have the same form, and the tokens at the same places are related, except those that mark the end
of a program.  There are loops in them only if loops are allowed. -/
inductive Stmt.Alike (loops : Prop) : Stmt → Stmt → Prop
  | expression {e e' : Expr} : e.Alike K e' → Stmt.Alike loops (.expression e) (.expression e')
  | declareNone {s t : Token} : K s t → Stmt.Alike loops (.declare s none) (.declare t none)
  | declareSome {s t : Token} {e e' : Expr} : K s t → e.Alike K e' →
      Stmt.Alike loops (.declare s (some e)) (.declare t (some e'))
  | block {ss ss' : List Stmt} : Stmt.AllAlike loops ss ss' → Stmt.Alike loops (.block ss) (.block ss')
  | branch {c c' : Expr} {s s' : Stmt} {ch ch' : Chain} : c.Alike K c' → Stmt.Alike loops s s' →
      Chain.Alike loops ch ch' → Stmt.Alike loops (.branch c s ch) (.branch c' s' ch')
  | loop {c c' : Expr} {s s' : Stmt} : loops → c.Alike K c' → Stmt.Alike loops s s' →
      Stmt.Alike loops (.loop c s) (.loop c' s')
  | define {s t : Token} {ps ps' : List Token} {ss ss' : List Stmt} : K s t → List.Forall₂ K ps ps' →
      Stmt.AllAlike loops ss ss' → Stmt.Alike loops (.define s ps ss) (.define t ps' ss')
  | giveNone {s t : Token} : K s t → Stmt.Alike loops (.give s none) (.give t none)
  | giveSome {s t : Token} {e e' : Expr} : K s t → e.Alike K e' →
      Stmt.Alike loops (.give s (some e)) (.give t (some e'))
  | assign {s t : Token} {e e' : Expr} : K s t → e.Alike K e' → Stmt.Alike loops (.assign s e) (.assign t e')
  | increase {s t : Token} : K s t → Stmt.Alike loops (.increase s) (.increase t)
  | decrease {s t : Token} : K s t → Stmt.Alike loops (.decrease s) (.decrease t)
  | finish {s t : Token} : Stmt.Alike loops (.finish s) (.finish t)

inductive Stmt.AllAlike (loops : Prop) : List Stmt → List Stmt → Prop
  | nil : Stmt.AllAlike loops [] []
  | cons {s s' : Stmt} {ss ss' : List Stmt} : Stmt.Alike loops s s' → Stmt.AllAlike loops ss ss' →
      Stmt.AllAlike loops (s :: ss) (s' :: ss')

inductive Chain.Alike (loops : Prop) : Chain → Chain → Prop
  | done : Chain.Alike loops .done .done
  | otherwise {s s' : Stmt} : Stmt.Alike loops s s' → Chain.Alike loops (.otherwise s) (.otherwise s')
  | retry {c c' : Expr} {s s' : Stmt} {ch ch' : Chain} : c.Alike K c' → Stmt.Alike loops s s' →
      Chain.Alike loops ch ch' → Chain.Alike loops (.retry c s ch) (.retry c' s' ch')

end

structure Function.Alike (loops : Prop) (f g : Function) : Prop where
  params : List.Forall₂ K f.params g.params
  body : Stmt.AllAlike K loops f.body g.body

/-! ## Programs of the same form stand for each other -/

/-- The terms of programs of the same form: a function stands for those of its own form, and nothing is left out. -/
def Terms.alike (loops : Prop) : Terms where
  tokens := K
  vars := K
  functions := fun _ => Function.Alike K loops
  spare := fun _ => False
  loops := loops

section Recast

variable {K} {loops : Prop}

mutual

theorem Expr.Alike.recast {e e' : Expr} : e.Alike K e' → e.Recast (.alike K loops) e'
  | .literal hK => .literal hK
  | .variable hK => .variable hK
  | .unary hK he => .unary hK he.recast
  | .binary hl hK hr => .binary hl.recast hK hr.recast
  | .call hK hargs => .call hK hargs.recast

theorem Expr.AllAlike.recast {es es' : List Expr} : Expr.AllAlike K es es' → Expr.AllRecast (.alike K loops) es es'
  | .nil => .nil
  | .cons he hes => .cons he.recast hes.recast

end

mutual

theorem Stmt.Alike.recast {s s' : Stmt} : s.Alike K loops s' → s.Recast (.alike K loops) s'
  | .expression he => .expression he.recast
  | .declareNone hK => .declareNone hK
  | .declareSome hK he => .declareSome hK he.recast
  | .block hss => .block hss.recast
  | .branch hc hs hch => .branch hc.recast hs.recast hch.recast
  | .loop hloops hc hs => .loop hloops hc.recast hs.recast
  | .define hK hparams hbody => .define hK ⟨hparams, hbody⟩
  | .giveNone _ => .giveNone
  | .giveSome _ he => .giveSome he.recast
  | .assign hK he => .assign hK he.recast
  | .increase hK => .increase hK
  | .decrease hK => .decrease hK
  | .finish => .finish

theorem Stmt.AllAlike.recast {ss ss' : List Stmt} :
    Stmt.AllAlike K loops ss ss' → Stmt.AllRecast (.alike K loops) ss ss'
  | .nil => .nil
  | .cons hs hss => .cons hs.recast hss.recast

theorem Chain.Alike.recast {ch ch' : Chain} : ch.Alike K loops ch' → ch.Recast (.alike K loops) ch'
  | .done => .done
  | .otherwise hs => .otherwise hs.recast
  | .retry hc hs hch => .retry hc.recast hs.recast hch.recast

end

end Recast

/-! ## Relations between actions -/

/-- **A relation between actions that passes from the parts of a run to the whole.** -/
structure Parallel (loops : Prop) (C : (α : Type) → Run α → Run α → Prop) : Prop where
  same : ∀ {s t : Token}, K s t → s.kind = t.kind ∧ s.lexeme = t.lexeme
  pure : ∀ {α : Type} (a : α), C α (pure a) (pure a)
  bind : ∀ {α β : Type} {x y : Run α} {f g : α → Run β}, C α x y → (∀ a, C β (f a) (g a)) → C β (x >>= f) (y >>= g)
  stop : ∀ {α : Type} {stop stop' : Stop}, Raised K loops stop stop' → C α (throw stop) (throw stop')
  emit : ∀ e : Event, C Unit (modify fun m => { m with events := e :: m.events })
    (modify fun m => { m with events := e :: m.events })
  readLine : C (Option Text) Run.readLine Run.readLine
  lookup : ∀ {s t : Token}, K s t → C Value (Run.lookup s) (Run.lookup t)
  assign : ∀ {s t : Token} (v : Value), K s t → C Unit (Run.assign s v) (Run.assign t v)
  define : ∀ {s t : Token} {f g : Function}, K s t → f.Alike K loops g → C Unit (Run.define s f) (Run.define t g)
  /-- Functions are looked up by names that are not built in. -/
  find : ∀ {α : Type} {s t : Token} {F G : Option Function → Run α}, K s t → Builtin.ofName? s.lexeme = none →
    C α (F none) (G none) → (∀ f g, f.Alike K loops g → C α (F (some f)) (G (some g))) →
    C α (do F ((← get).functions.get? s.lexeme)) (do G ((← get).functions.get? t.lexeme))
  clock : ∀ {α : Type} {F G : Clock → Run α}, (∀ k, C α (F k) (G k)) →
    C α (do F (← get).clock) (do G (← get).clock)
  rolledBack : ∀ {α : Type} {x y : Run α}, C α x y → C α (Run.rolledBack x) (Run.rolledBack y)

namespace Parallel

variable {K} {loops : Prop} {C : (α : Type) → Run α → Run α → Prop} (hC : Parallel K loops C)

include hC

theorem recasting : Recasting (.alike K loops) C where
  same := hC.same
  named := id
  pure := hC.pure
  bind := hC.bind
  stop := hC.stop
  emit := hC.emit
  readLine := hC.readLine
  lookup := hC.lookup
  assign := hC.assign
  define := hC.define
  leave _ h := h.elim
  find := hC.find
  clock := hC.clock
  rolledBack := hC.rolledBack
  params h := h.params
  body h := h.body.recast

/-- **Programs of the same form run side by side.** -/
theorem runWith (limits : Limits) (room : Nat) {program program' : List Stmt}
    (h : Stmt.AllAlike K loops program program') :
    C Flow (Stmt.execAll (caller limits room) limits.rounds program)
      (Stmt.execAll (caller limits room) limits.rounds program') :=
  hC.recasting.runWith limits room h.recast

end Parallel

/-! ## Runs of source text -/

theorem runSource_eq (limits : Limits) (source : Text) (m : Machine) :
    runSource limits source m = match scanText source >>= readProgram with
      | .ok program => runProgram limits program m
      | .error f => .error (.fault f) m := by
  simp only [runSource, bind, EStateM.bind]
  cases Except.bind (scanText source) readProgram <;> rfl

theorem runSource_of_read {source : Text} {program : List Stmt} (h : scanText source >>= readProgram = .ok program)
    (limits : Limits) (m : Machine) : runSource limits source m =
      Stmt.execAll (caller limits (limits.depth - m.scope.depth)) limits.rounds program m := by
  rw [runSource_eq, h]
  rfl

end Loot
