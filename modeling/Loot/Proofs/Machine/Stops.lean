import Loot.Proofs.Machine.Parallel
import Loot.Proofs.Machine.Rollback
import Loot.Proofs.Tree.Leaves
import Loot.Proofs.Tree.Relabel
/-!
# What can stop a run

A run stops at one of its tokens, and its tokens are those of the program and of the functions that were declared
before.  So if a property holds of all of them, every stop is one that such a token can raise, and the functions
that the run leaves are made of such tokens again (`runProgram_stops`).
-/
namespace Loot

variable {P : Token → Prop} {K : Token → Token → Prop} {loops : Prop} {f : Token → Token}

/-! ## Programs made of some tokens -/

/-- `P` holds of the token that a leaf holds, and a leaf that makes a loop stands only where loops are allowed. -/
def Leaf.IsMadeOf (P : Token → Prop) (loops : Prop) : Leaf → Prop
  | .held t => P t
  | .plain kind => kind = .farm → loops

theorem Leaf.isMadeOf_any (l : Leaf) : l.IsMadeOf (fun _ => True) True := by
  cases l with
  | held t => exact trivial
  | plain kind => exact fun _ => trivial

mutual

theorem Expr.alike_relabel (hK : ∀ t, P t → K t (f t)) : ∀ e : Expr,
    (∀ l ∈ e.leaves, l.IsMadeOf P loops) → e.Alike K (e.mapTokens f)
  | .literal token, h => by
    rw [Expr.mapTokens]
    rw [Expr.leaves] at h
    exact .literal (hK _ (h _ List.mem_cons_self))
  | .variable name, h => by
    rw [Expr.mapTokens]
    rw [Expr.leaves] at h
    exact .variable (hK _ (h _ List.mem_cons_self))
  | .unary op e, h => by
    rw [Expr.mapTokens]
    rw [Expr.leaves, List.forall_mem_cons] at h
    exact .unary (hK _ h.1) (Expr.alike_relabel hK e h.2)
  | .binary l op r, h => by
    rw [Expr.mapTokens]
    rw [Expr.leaves, List.forall_mem_append, List.forall_mem_cons] at h
    exact .binary (Expr.alike_relabel hK l h.1) (hK _ h.2.1) (Expr.alike_relabel hK r h.2.2)
  | .call name args, h => by
    rw [Expr.mapTokens]
    rw [Expr.leaves, List.forall_mem_cons] at h
    exact .call (hK _ h.1) (Expr.allAlike_relabel hK args h.2)

theorem Expr.allAlike_relabel (hK : ∀ t, P t → K t (f t)) : ∀ es : List Expr,
    (∀ l ∈ Expr.argLeaves es, l.IsMadeOf P loops) → Expr.AllAlike K es (Expr.mapTokensAll f es)
  | [], _ => .nil
  | [e], h => by
    rw [Expr.argLeaves] at h
    exact .cons (Expr.alike_relabel hK e h) .nil
  | e :: e' :: es, h => by
    rw [Expr.argLeaves, List.forall_mem_append, List.forall_mem_cons] at h
    · exact .cons (Expr.alike_relabel hK e h.1) (Expr.allAlike_relabel hK (e' :: es) h.2.2)
    · exact List.cons_ne_nil _ _

end

theorem params_alike_relabel (hK : ∀ t, P t → K t (f t)) : ∀ ps : List Token,
    (∀ l ∈ paramLeaves ps, l.IsMadeOf P loops) → List.Forall₂ K ps (ps.map f)
  | [], _ => .nil
  | [p], h => .cons (hK _ (h _ List.mem_cons_self)) .nil
  | p :: q :: ps, h => by
    rw [paramLeaves, List.forall_mem_cons, List.forall_mem_cons] at h
    · exact .cons (hK _ h.1) (params_alike_relabel hK (q :: ps) h.2.2)
    · exact List.cons_ne_nil _ _

mutual

theorem Stmt.alike_relabel (hK : ∀ t, P t → K t (f t)) : ∀ s : Stmt,
    (∀ l ∈ s.leaves, l.IsMadeOf P loops) → s.Alike K loops (s.mapTokens f)
  | .expression e, h => by
    rw [Stmt.mapTokens]
    rw [Stmt.leaves] at h
    exact .expression (Expr.alike_relabel hK e h)
  | .declare name none, h => by
    rw [Stmt.mapTokens]
    rw [Stmt.leaves, List.forall_mem_cons, List.forall_mem_cons] at h
    exact .declareNone (hK _ h.2.1)
  | .declare name (some e), h => by
    rw [Stmt.mapTokens]
    rw [Stmt.leaves, List.forall_mem_cons, List.forall_mem_cons, List.forall_mem_cons] at h
    exact .declareSome (hK _ h.2.1) (Expr.alike_relabel hK e h.2.2.2)
  | .block body, h => by
    rw [Stmt.mapTokens]
    rw [Stmt.leaves, List.forall_mem_cons, List.forall_mem_append] at h
    exact .block (Stmt.allAlike_relabel hK body h.2.1)
  | .branch condition body rest, h => by
    rw [Stmt.mapTokens]
    rw [Stmt.leaves, List.forall_mem_cons, List.forall_mem_append, List.forall_mem_append] at h
    exact .branch (Expr.alike_relabel hK condition h.2.1) (Stmt.alike_relabel hK body h.2.2.1)
      (Chain.alike_relabel hK rest h.2.2.2)
  | .loop condition body, h => by
    rw [Stmt.mapTokens]
    rw [Stmt.leaves, List.forall_mem_cons, List.forall_mem_append] at h
    exact .loop (h.1 rfl) (Expr.alike_relabel hK condition h.2.1) (Stmt.alike_relabel hK body h.2.2)
  | .define name params body, h => by
    rw [Stmt.mapTokens]
    rw [Stmt.leaves, List.forall_mem_cons, List.forall_mem_cons, List.forall_mem_append, List.forall_mem_cons,
      List.forall_mem_append] at h
    exact .define (hK _ h.2.1) (params_alike_relabel hK params h.2.2.1) (Stmt.allAlike_relabel hK body h.2.2.2.2.1)
  | .give keyword none, h => by
    rw [Stmt.mapTokens]
    rw [Stmt.leaves] at h
    exact .giveNone (hK _ (h _ List.mem_cons_self))
  | .give keyword (some e), h => by
    rw [Stmt.mapTokens]
    rw [Stmt.leaves, List.forall_mem_cons] at h
    exact .giveSome (hK _ h.1) (Expr.alike_relabel hK e h.2)
  | .assign target value, h => by
    rw [Stmt.mapTokens]
    rw [Stmt.leaves, List.forall_mem_cons, List.forall_mem_cons] at h
    exact .assign (hK _ h.1) (Expr.alike_relabel hK value h.2.2)
  | .increase name, h => by
    rw [Stmt.mapTokens]
    rw [Stmt.leaves, List.forall_mem_cons, List.forall_mem_cons] at h
    exact .increase (hK _ h.2.1)
  | .decrease name, h => by
    rw [Stmt.mapTokens]
    rw [Stmt.leaves, List.forall_mem_cons, List.forall_mem_cons] at h
    exact .decrease (hK _ h.2.1)
  | .finish _, _ => by
    rw [Stmt.mapTokens]
    exact .finish

/-- **A program is like the same program with other tokens**, if its tokens are like the others. -/
theorem Stmt.allAlike_relabel (hK : ∀ t, P t → K t (f t)) : ∀ ss : List Stmt,
    (∀ l ∈ Stmt.leavesAll ss, l.IsMadeOf P loops) → Stmt.AllAlike K loops ss (Stmt.mapTokensAll f ss)
  | [], _ => .nil
  | s :: ss, h => by
    rw [Stmt.mapTokensAll]
    rw [Stmt.leavesAll, List.forall_mem_append] at h
    exact .cons (Stmt.alike_relabel hK s h.1) (Stmt.allAlike_relabel hK ss h.2)

theorem Chain.alike_relabel (hK : ∀ t, P t → K t (f t)) : ∀ ch : Chain,
    (∀ l ∈ ch.leaves, l.IsMadeOf P loops) → ch.Alike K loops (ch.mapTokens f)
  | .done, _ => by
    rw [Chain.mapTokens]
    exact .done
  | .otherwise body, h => by
    rw [Chain.mapTokens]
    rw [Chain.leaves, List.forall_mem_cons] at h
    exact .otherwise (Stmt.alike_relabel hK body h.2)
  | .retry condition body rest, h => by
    rw [Chain.mapTokens]
    rw [Chain.leaves, List.forall_mem_cons, List.forall_mem_append, List.forall_mem_append] at h
    exact .retry (Expr.alike_relabel hK condition h.2.1) (Stmt.alike_relabel hK body h.2.2.1)
      (Chain.alike_relabel hK rest h.2.2.2)

end

theorem Stmt.allAlike_self (hK : ∀ t, P t → K t t) {ss : List Stmt} (h : ∀ l ∈ Stmt.leavesAll ss, l.IsMadeOf P loops) :
    Stmt.AllAlike K loops ss ss := by
  have hid : Stmt.AllAlike K loops ss (Stmt.mapTokensAll id ss) := Stmt.allAlike_relabel hK ss h
  rwa [Stmt.mapTokensAll_id] at hid

/-! ## Runs of such programs

The second run of `Parallel` is not looked at. -/

/-- The two tokens are one, of which `P` holds. -/
def Same (P : Token → Prop) (s t : Token) : Prop := s = t ∧ P s

theorem mem_of_lookup {α : Type} {name : Text} {a : α} {es : List (Text × α)} (h : es.lookup name = some a) :
    (name, a) ∈ es := by
  obtain ⟨_, _, hsplit, -⟩ := List.lookup_eq_some_iff.1 h
  rw [hsplit]
  exact List.mem_append_right _ List.mem_cons_self

/-- Every declared function is made of such tokens. -/
def Machine.FunctionsOf (P : Token → Prop) (loops : Prop) (m : Machine) : Prop :=
  ∀ name f, m.functions.get? name = some f → ∃ g, f.Alike (Same P) loops g

theorem Machine.FunctionsOf.define {m : Machine} (hm : m.FunctionsOf P loops) (name : Text) {f g : Function}
    (hf : f.Alike (Same P) loops g) :
    Machine.FunctionsOf P loops { m with functions := m.functions.set name f } := by
  intro n f' hf'
  simp only at hf'
  rw [Bindings.get?_set] at hf'
  split at hf'
  · cases hf'
    exact ⟨g, hf⟩
  · exact hm n f' hf'

/-- The outcome leaves functions of such tokens, and a stop is one that such a token can raise. -/
def EndsOver {α : Type} (P : Token → Prop) (loops : Prop) : EStateM.Result Stop Machine α → Prop
  | .ok _ m => m.FunctionsOf P loops
  | .error stop m => Raised (Same P) loops stop stop ∧ m.FunctionsOf P loops

/-- Started on functions of such tokens, the action ends over them. -/
def Run.StaysOver {α : Type} (P : Token → Prop) (loops : Prop) (action : Run α) : Prop :=
  ∀ m : Machine, m.FunctionsOf P loops → EndsOver P loops (action m)

theorem Raised.eq_of_same {a b : Stop} (h : Raised (Same P) loops a b) : b = a := by
  cases h with
  | fault hK _ => rw [hK.1]
  | _ => rfl

theorem Run.StaysOver.bind {α β : Type} {x : Run α} {f : α → Run β} (hx : x.StaysOver P loops)
    (hf : ∀ a, (f a).StaysOver P loops) : (x >>= f).StaysOver P loops := by
  intro m hm
  have h := hx m hm
  simp only [Bind.bind, EStateM.bind]
  cases hxm : x m with
  | ok a m' =>
    rw [hxm] at h
    exact hf a m' h
  | error stop m' =>
    rw [hxm] at h
    exact h

theorem Run.StaysOver.rolledBack {α : Type} {x : Run α} (hx : x.StaysOver P loops) :
    (Run.rolledBack x).StaysOver P loops := by
  intro m hm
  have h := hx { m with scope := m.scope.push } hm
  unfold Run.rolledBack
  cases hxm : x { m with scope := m.scope.push } with
  | ok a m' =>
    rw [hxm] at h
    exact h
  | error stop m' =>
    rw [hxm] at h
    exact h

theorem staysOver_readLine : Run.readLine.StaysOver P loops := by
  intro m hm
  unfold Run.readLine
  simp only [get_bind_apply]
  cases m.input with
  | none => exact hm
  | some text =>
    cases text with
    | nil => exact hm
    | cons c cs => exact hm

theorem staysOver_lookup {t : Token} (ht : P t) : (Run.lookup t).StaysOver P loops := by
  intro m hm
  unfold Run.lookup Scope.get
  simp only [get_bind_apply]
  cases m.scope.vars.get? t.lexeme with
  | some v => exact hm
  | none => exact ⟨.fault ⟨rfl, ht⟩ rfl, hm⟩

theorem staysOver_parallel : Parallel (Same P) loops (fun _ x _ => x.StaysOver P loops) where
  same h := by
    rw [h.1]
    exact ⟨rfl, rfl⟩
  pure _ _ hm := hm
  bind hx hf := hx.bind hf
  stop {_ stop _} h := by
    have hself : Raised (Same P) loops stop stop := by
      have heq := h.eq_of_same
      rwa [heq] at h
    exact fun _ hm => ⟨hself, hm⟩
  emit _ _ hm := hm
  readLine := staysOver_readLine
  lookup h := staysOver_lookup h.2
  assign _ _ _ hm := hm
  define _ hf _ hm := hm.define _ hf
  find {α s t F G} _ _ hnone hsome m hm := by
    simp only [get_bind_apply]
    cases hget : m.functions.get? s.lexeme with
    | none => exact hnone m hm
    | some f =>
      obtain ⟨g, hg⟩ := hm _ f hget
      exact hsome f g hg m hm
  clock hF m hm := hF m.clock m hm
  rolledBack hx := hx.rolledBack

/-- **A program of such tokens, on functions of such tokens, stops only as they can make it stop.** -/
theorem runProgram_stops (limits : Limits) {program : List Stmt}
    (hprogram : ∀ l ∈ Stmt.leavesAll program, l.IsMadeOf P loops) {m : Machine} (hm : m.FunctionsOf P loops) :
    EndsOver P loops (runProgram limits program m) :=
  staysOver_parallel.runWith limits (limits.depth - m.scope.depth)
    (Stmt.allAlike_self (fun _ ht => ⟨rfl, ht⟩) hprogram) m hm

end Loot
