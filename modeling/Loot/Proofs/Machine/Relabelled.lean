import Loot.Proofs.Machine.Abreast
import Loot.Proofs.Tree.Relabel
/-!
# Programs with other tokens, and the same ones

A program with other tokens in the places of its own stands for the program, if the terms allow these tokens, and allow
them as names where they name variables (`Stmt.allRecast_mapTokens`).  With the same tokens it stands for itself, and
so do the parts that a change leaves as they are.
-/
namespace Loot

/-! ## The names of variables -/

mutual

/-- The tokens that name variables in an expression. -/
def Expr.variables : Expr → List Token
  | .literal _ => []
  | .variable name => [name]
  | .unary _ e => e.variables
  | .binary l _ r => l.variables ++ r.variables
  | .call _ args => Expr.variablesAll args

def Expr.variablesAll : List Expr → List Token
  | [] => []
  | e :: es => e.variables ++ Expr.variablesAll es

end

mutual

/-- The tokens that name variables in a statement: those that are read, declared, assigned or stepped, and the
parameters of functions. -/
def Stmt.variables : Stmt → List Token
  | .expression e => e.variables
  | .declare name none => [name]
  | .declare name (some e) => name :: e.variables
  | .block body => Stmt.variablesAll body
  | .branch condition body rest => condition.variables ++ (body.variables ++ rest.variables)
  | .loop condition body => condition.variables ++ body.variables
  | .define _ params body => params ++ Stmt.variablesAll body
  | .give _ none => []
  | .give _ (some e) => e.variables
  | .assign target value => target :: value.variables
  | .increase name => [name]
  | .decrease name => [name]
  | .finish _ => []

def Stmt.variablesAll : List Stmt → List Token
  | [] => []
  | s :: ss => s.variables ++ Stmt.variablesAll ss

def Chain.variables : Chain → List Token
  | .done => []
  | .otherwise body => body.variables
  | .retry condition body rest => condition.variables ++ (body.variables ++ rest.variables)

end

def Function.variables (f : Function) : List Token := f.params ++ Stmt.variablesAll f.body

def Function.mapTokens (f : Token → Token) (g : Function) : Function := ⟨g.params.map f, Stmt.mapTokensAll f g.body⟩

theorem Function.mapTokens_id (g : Function) : g.mapTokens id = g := by
  unfold Function.mapTokens
  rw [List.map_id, Stmt.mapTokensAll_id]

/-! ## Programs with other tokens stand for each other -/

section Relabelled

variable {τ : Terms} {f : Token → Token}

mutual

theorem Expr.recast_mapTokens (htokens : ∀ t, τ.tokens t (f t)) : ∀ e : Expr,
    (∀ t ∈ e.variables, τ.vars t (f t)) → e.Recast τ (e.mapTokens f)
  | .literal token, _ => by
    rw [Expr.mapTokens]
    exact .literal (htokens _)
  | .variable name, h => by
    rw [Expr.mapTokens]
    rw [Expr.variables] at h
    exact .variable (h _ List.mem_cons_self)
  | .unary op e, h => by
    rw [Expr.mapTokens]
    rw [Expr.variables] at h
    exact .unary (htokens _) (Expr.recast_mapTokens htokens e h)
  | .binary l op r, h => by
    rw [Expr.mapTokens]
    rw [Expr.variables, List.forall_mem_append] at h
    exact .binary (Expr.recast_mapTokens htokens l h.1) (htokens _) (Expr.recast_mapTokens htokens r h.2)
  | .call name args, h => by
    rw [Expr.mapTokens]
    rw [Expr.variables] at h
    exact .call (htokens _) (Expr.allRecast_mapTokens htokens args h)

theorem Expr.allRecast_mapTokens (htokens : ∀ t, τ.tokens t (f t)) : ∀ es : List Expr,
    (∀ t ∈ Expr.variablesAll es, τ.vars t (f t)) → Expr.AllRecast τ es (Expr.mapTokensAll f es)
  | [], _ => .nil
  | e :: es, h => by
    rw [Expr.mapTokensAll]
    rw [Expr.variablesAll, List.forall_mem_append] at h
    exact .cons (Expr.recast_mapTokens htokens e h.1) (Expr.allRecast_mapTokens htokens es h.2)

end

/-- What a change of tokens has to bring so that a program with the other tokens stands for the program. -/
structure Relabels (τ : Terms) (f : Token → Token) : Prop where
  loops : τ.loops
  tokens : ∀ t, τ.tokens t (f t)
  functions : ∀ name g, (∀ t ∈ g.variables, τ.vars t (f t)) → τ.functions name g (g.mapTokens f)

mutual

theorem Stmt.recast_mapTokens (hf : Relabels τ f) : ∀ s : Stmt,
    (∀ t ∈ s.variables, τ.vars t (f t)) → s.Recast τ (s.mapTokens f)
  | .expression e, h => by
    rw [Stmt.mapTokens]
    rw [Stmt.variables] at h
    exact .expression (Expr.recast_mapTokens hf.tokens e h)
  | .declare name none, h => by
    rw [Stmt.mapTokens]
    rw [Stmt.variables] at h
    exact .declareNone (h _ List.mem_cons_self)
  | .declare name (some e), h => by
    rw [Stmt.mapTokens]
    rw [Stmt.variables, List.forall_mem_cons] at h
    exact .declareSome h.1 (Expr.recast_mapTokens hf.tokens e h.2)
  | .block body, h => by
    rw [Stmt.mapTokens]
    rw [Stmt.variables] at h
    exact .block (Stmt.allRecast_mapTokens hf body h)
  | .branch condition body rest, h => by
    rw [Stmt.mapTokens]
    rw [Stmt.variables, List.forall_mem_append, List.forall_mem_append] at h
    exact .branch (Expr.recast_mapTokens hf.tokens condition h.1) (Stmt.recast_mapTokens hf body h.2.1)
      (Chain.recast_mapTokens hf rest h.2.2)
  | .loop condition body, h => by
    rw [Stmt.mapTokens]
    rw [Stmt.variables, List.forall_mem_append] at h
    exact .loop hf.loops (Expr.recast_mapTokens hf.tokens condition h.1) (Stmt.recast_mapTokens hf body h.2)
  | .define name params body, h => by
    rw [Stmt.mapTokens]
    rw [Stmt.variables] at h
    exact .define (hf.tokens _) (hf.functions _ ⟨params, body⟩ h)
  | .give keyword none, _ => by
    rw [Stmt.mapTokens]
    exact .giveNone
  | .give keyword (some e), h => by
    rw [Stmt.mapTokens]
    rw [Stmt.variables] at h
    exact .giveSome (Expr.recast_mapTokens hf.tokens e h)
  | .assign target value, h => by
    rw [Stmt.mapTokens]
    rw [Stmt.variables, List.forall_mem_cons] at h
    exact .assign h.1 (Expr.recast_mapTokens hf.tokens value h.2)
  | .increase name, h => by
    rw [Stmt.mapTokens]
    rw [Stmt.variables] at h
    exact .increase (h _ List.mem_cons_self)
  | .decrease name, h => by
    rw [Stmt.mapTokens]
    rw [Stmt.variables] at h
    exact .decrease (h _ List.mem_cons_self)
  | .finish eof, _ => by
    rw [Stmt.mapTokens]
    exact .finish

/-- **A program with other tokens stands for the program**, if the terms allow these tokens for its variables. -/
theorem Stmt.allRecast_mapTokens (hf : Relabels τ f) : ∀ ss : List Stmt,
    (∀ t ∈ Stmt.variablesAll ss, τ.vars t (f t)) → Stmt.AllRecast τ ss (Stmt.mapTokensAll f ss)
  | [], _ => .nil
  | s :: ss, h => by
    rw [Stmt.mapTokensAll]
    rw [Stmt.variablesAll, List.forall_mem_append] at h
    exact .cons (Stmt.recast_mapTokens hf s h.1) (Stmt.allRecast_mapTokens hf ss h.2)

theorem Chain.recast_mapTokens (hf : Relabels τ f) : ∀ ch : Chain,
    (∀ t ∈ ch.variables, τ.vars t (f t)) → ch.Recast τ (ch.mapTokens f)
  | .done, _ => by
    rw [Chain.mapTokens]
    exact .done
  | .otherwise body, h => by
    rw [Chain.mapTokens]
    rw [Chain.variables] at h
    exact .otherwise (Stmt.recast_mapTokens hf body h)
  | .retry condition body rest, h => by
    rw [Chain.mapTokens]
    rw [Chain.variables, List.forall_mem_append, List.forall_mem_append] at h
    exact .retry (Expr.recast_mapTokens hf.tokens condition h.1) (Stmt.recast_mapTokens hf body h.2.1)
      (Chain.recast_mapTokens hf rest h.2.2)

end

/-- **A program stands for itself**, as far as the terms allow its variables. -/
theorem Stmt.allRecast_self (hloops : τ.loops) (htokens : ∀ t, τ.tokens t t)
    (hfunctions : ∀ name g, (∀ t ∈ g.variables, τ.vars t t) → τ.functions name g g) {ss : List Stmt}
    (h : ∀ t ∈ Stmt.variablesAll ss, τ.vars t t) : Stmt.AllRecast τ ss ss := by
  have hid : Relabels τ id := ⟨hloops, htokens, fun name g hg => by
    rw [g.mapTokens_id]
    exact hfunctions name g hg⟩
  have hself := Stmt.allRecast_mapTokens hid ss h
  rwa [Stmt.mapTokensAll_id] at hself

end Relabelled

/-! ## What a change leaves as it is -/

section Rewritten

variable {functions : Text → Function → Function → Prop} {spare : Text → Prop}

theorem Expr.recast_self (e : Expr) : e.Recast (.rewriting functions spare) e := by
  have h : e.Recast (.rewriting functions spare) (e.mapTokens id) :=
    Expr.recast_mapTokens (fun _ => rfl) e (fun _ _ => rfl)
  rwa [Expr.mapTokens_id] at h

/-- Is there no other statement in the statement? -/
def Stmt.isLeaf : Stmt → Bool
  | .block _ | .branch _ _ _ | .loop _ _ | .define _ _ _ => false
  | _ => true

theorem Stmt.recast_leaf {s : Stmt} (h : s.isLeaf = true) : s.Recast (.rewriting functions spare) s := by
  match s, h with
  | .expression e, _ => exact .expression e.recast_self
  | .declare name none, _ => exact .declareNone rfl
  | .declare name (some e), _ => exact .declareSome rfl e.recast_self
  | .give keyword none, _ => exact .giveNone
  | .give keyword (some e), _ => exact .giveSome e.recast_self
  | .assign target value, _ => exact .assign rfl value.recast_self
  | .increase name, _ => exact .increase rfl
  | .decrease name, _ => exact .decrease rfl
  | .finish eof, _ => exact .finish

theorem Stmt.allRecast_same (hfunctions : ∀ name f, functions name f f) (ss : List Stmt) :
    Stmt.AllRecast (.rewriting functions spare) ss ss :=
  Stmt.allRecast_self trivial (fun _ => rfl) (fun name g _ => hfunctions name g) (fun _ _ => rfl)

end Rewritten

end Loot
