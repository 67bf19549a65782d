import Loot.Proofs.Machine.Relabelled
/-!
# Variables that nothing names

There is one table of variables, which calls share with their callers, save and take back.  Still a run touches only
the variables that are named in the program or in a function that was declared before: with another value under any
other name, or with none, the run is the same, and what was there is there when it ends (`unnamed_untouched`).
-/
namespace Loot

/-! ## Machines that differ in one variable -/

/-- The function does not name the variable. -/
def Function.Avoids (x : Text) (f : Function) : Prop := ∀ t ∈ f.variables, t.lexeme ≠ x

/-- The machines are the same but for the variable, and for what they have shown. -/
structure Machine.SameBut (x : Text) (m m' : Machine) : Prop where
  vars : ∀ name, name ≠ x → m.scope.vars.get? name = m'.scope.vars.get? name
  saved : m.scope.saved = m'.scope.saved
  functions : ∀ name, m.functions.get? name = m'.functions.get? name
  input : m.input = m'.input
  clock : m.clock = m'.clock

/-- The terms of a program that does not name the variable. -/
def Terms.avoiding (x : Text) : Terms where
  tokens := Eq
  vars := fun s t => s = t ∧ s.lexeme ≠ x
  functions := fun _ f g => f = g ∧ f.Avoids x
  spare := fun _ => False
  loops := True

/-- The bond between machines that hold what they are given under one name, and the same under every other. -/
def Bond.beside (x : Text) (held held' : Option Value) : Bond where
  vars := fun b b' => (∀ name, name ≠ x → b.get? name = b'.get? name) ∧ b.get? x = held ∧ b'.get? x = held'
  declared := fun _ o o' => o = o' ∧ ∀ f, o = some f → f.Avoids x
  stops := Eq

theorem Stmt.allRecast_avoiding {x : Text} {ss : List Stmt} (h : ∀ t ∈ Stmt.variablesAll ss, t.lexeme ≠ x) :
    Stmt.AllRecast (.avoiding x) ss ss := by
  refine Stmt.allRecast_self trivial (fun _ => rfl) (fun name g hg => ?_) (fun t ht => ⟨rfl, h t ht⟩)
  exact ⟨rfl, fun t ht => (hg t ht).2⟩

theorem Bond.suits_beside (x : Text) (held held' : Option Value) : (Bond.beside x held held').Suits (.avoiding x) where
  same hst := by
    cases hst
    exact ⟨rfl, rfl⟩
  named hst := hst.1
  stops h := h.eq
  get hst hb := by
    obtain ⟨rfl, hx⟩ := hst
    exact hb.1 _ hx
  set {s t b b'} v hst hb := by
    obtain ⟨rfl, hx⟩ := hst
    obtain ⟨hother, hheld, hheld'⟩ := hb
    refine ⟨fun name hname => ?_, ?_, ?_⟩
    · rw [Bindings.get?_set, Bindings.get?_set]
      split
      · rfl
      · exact hother name hname
    · rw [Bindings.get?_set, if_neg hx.symm]
      exact hheld
    · rw [Bindings.get?_set, if_neg hx.symm]
      exact hheld'
  declare hfg := by
    obtain ⟨rfl, havoids⟩ := hfg
    refine ⟨rfl, fun f hf => ?_⟩
    cases hf
    exact havoids
  leave _ hspare := hspare.elim
  find {name o o'} _ ho := by
    obtain ⟨rfl, havoids⟩ := ho
    cases o with
    | none => exact .none
    | some f => exact .some ⟨rfl, havoids f rfl⟩
  params hfg := by
    obtain ⟨rfl, havoids⟩ := hfg
    exact List.forall₂_same.2 (fun p hp => ⟨rfl, havoids p (List.mem_append_left _ hp)⟩)
  body hfg := by
    obtain ⟨rfl, havoids⟩ := hfg
    exact Stmt.allRecast_avoiding (fun t ht => havoids t (List.mem_append_right _ ht))

/-- **A run touches only the variables that are named.**  Let neither the program nor any declared function name a
variable.  On machines that are the same but for that variable, which one may hold and the other not, the runs end
alike, with the same functions, input left and other variables, and the variable is what it was on either of them,
however the runs end. -/
theorem unnamed_untouched (limits : Limits) {x : Text} {program : List Stmt}
    (hprogram : ∀ t ∈ Stmt.variablesAll program, t.lexeme ≠ x) {m m' : Machine} (hm : m.SameBut x m')
    (hfunctions : ∀ name f, m.functions.get? name = some f → f.Avoids x) :
    EndAlike Eq (fun m₁ m₁' => m₁.SameBut x m₁' ∧ m₁.scope.vars.get? x = m.scope.vars.get? x ∧
        m₁'.scope.vars.get? x = m'.scope.vars.get? x)
      m m' (runProgram limits program m) (runProgram limits program m') := by
  have hholds : (Bond.beside x (m.scope.vars.get? x) (m'.scope.vars.get? x)).Holds m.scope.saved m.scope.saved m m' :=
    ⟨⟨hm.vars, rfl, rfl⟩, fun name => ⟨hm.functions name, hfunctions name⟩, hm.input, hm.clock,
      rfl, hm.saved.symm⟩
  have hend := Bond.runProgram (Bond.suits_beside x _ _) limits (Stmt.allRecast_avoiding hprogram) rfl hholds
  refine hend.mono (fun m₁ m₁' h => ?_)
  obtain ⟨hother, hheld, hheld'⟩ := h.vars
  exact ⟨⟨hother, h.saved.trans h.saved'.symm, fun name => (h.functions name).1, h.input, h.clock⟩, hheld,
    hheld'⟩

/-- A machine where `x` is the name of a function that steps its parameter, with some variables. -/
def cloaked (vars : Bindings Value) : Machine where
  scope := { vars }
  functions := ⟨[(['x'], ⟨[⟨.identifier, ['y'], some 1⟩], [.increase ⟨.identifier, ['y'], some 1⟩]⟩)]⟩

/-- `x(buffed)`. -/
def cloaking : List Stmt :=
  [.expression (.call ⟨.identifier, ['x'], some 2⟩ [.literal ⟨.buffed, "buffed".toList, some 2⟩])]

/-- A function named `x` names no variable `x`: bound or not, it is what it was after the call has failed. -/
theorem unnamed_untouched_same_named_function :
    EndAlike Eq (fun m₁ m₁' => m₁.SameBut ['x'] m₁' ∧ m₁.scope.vars.get? ['x'] = some (.boolean true) ∧
        m₁'.scope.vars.get? ['x'] = none)
      (cloaked ⟨[(['x'], .boolean true)]⟩) (cloaked {})
      (runProgram .standard cloaking (cloaked ⟨[(['x'], .boolean true)]⟩))
      (runProgram .standard cloaking (cloaked {})) := by
  have hprogram : ∀ t ∈ Stmt.variablesAll cloaking, t.lexeme ≠ ['x'] := by decide
  have hm : (cloaked ⟨[(['x'], .boolean true)]⟩).SameBut ['x'] (cloaked {}) :=
    ⟨fun name hname => (Bindings.lookup_cons _ _ _ _).trans (if_neg hname), rfl, fun _ => rfl, rfl, rfl⟩
  refine unnamed_untouched .standard hprogram hm (fun name f hf => ?_)
  have hlookup := (Bindings.lookup_cons _ _ _ _).symm.trans hf
  split at hlookup
  · cases hlookup
    unfold Function.Avoids
    decide
  · cases hlookup

end Loot
