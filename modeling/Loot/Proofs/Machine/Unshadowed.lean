import Loot.Proofs.Machine.Relabelled
/-!
# Built-in functions cannot be shadowed

A program may declare a function under the name of a built-in one, anywhere and as often as it likes: calls never look
there.  So what a machine holds under these names has no part in a run, and declarations under them can be taken out
of a program, and out of the functions that it declares, without a trace but for themselves (`builtins_unshadowed`).
-/
namespace Loot

/-! ## Programs without such declarations -/

/-- Does the statement declare a function under the name of a built-in one? -/
def Stmt.shadows : Stmt → Bool
  | .define name _ _ => (Builtin.ofName? name.lexeme).isSome
  | _ => false

mutual

/-- The statement without declarations under the names of built-in functions.  Where a single statement is wanted, an
empty block is left. -/
def Stmt.unshadowed : Stmt → Stmt
  | .expression e => .expression e
  | .declare name init => .declare name init
  | .block body => .block (Stmt.unshadowedAll body)
  | .branch condition body rest => .branch condition body.unshadowed rest.unshadowed
  | .loop condition body => .loop condition body.unshadowed
  | .define name params body =>
    if (Builtin.ofName? name.lexeme).isSome then .block [] else .define name params (Stmt.unshadowedAll body)
  | .give keyword value => .give keyword value
  | .assign target value => .assign target value
  | .increase name => .increase name
  | .decrease name => .decrease name
  | .finish eof => .finish eof

/-- The statements but those that declare a function under the name of a built-in one. -/
def Stmt.unshadowedAll : List Stmt → List Stmt
  | [] => []
  | s :: ss => if s.shadows then Stmt.unshadowedAll ss else s.unshadowed :: Stmt.unshadowedAll ss

def Chain.unshadowed : Chain → Chain
  | .done => .done
  | .otherwise body => .otherwise body.unshadowed
  | .retry condition body rest => .retry condition body.unshadowed rest.unshadowed

end

def Function.unshadowed (f : Function) : Function := ⟨f.params, Stmt.unshadowedAll f.body⟩

/-! ## They stand for the programs -/

/-- The terms of taking these declarations out. -/
def Terms.unshadowing (functions : Text → Function → Function → Prop) : Terms :=
  .rewriting functions fun name => (Builtin.ofName? name).isSome = true

section Unshadowed

variable {functions : Text → Function → Function → Prop}

mutual

theorem Stmt.recast_unshadowed (hf : ∀ name f, Builtin.ofName? name = none → functions name f f.unshadowed) :
    ∀ s : Stmt, s.Recast (.unshadowing functions) s.unshadowed
  | .expression _ | .declare _ _ | .give _ _ | .assign _ _ | .increase _ | .decrease _ | .finish _ => by
    rw [Stmt.unshadowed]
    exact Stmt.recast_leaf rfl
  | .block body => by
    rw [Stmt.unshadowed]
    exact .block (Stmt.allRecast_unshadowed hf body)
  | .branch condition body rest => by
    rw [Stmt.unshadowed]
    exact .branch condition.recast_self (Stmt.recast_unshadowed hf body) (Chain.recast_unshadowed hf rest)
  | .loop condition body => by
    rw [Stmt.unshadowed]
    exact .loop trivial condition.recast_self (Stmt.recast_unshadowed hf body)
  | .define name params body => by
    rw [Stmt.unshadowed]
    split
    · rename_i hbuiltin
      exact .leave hbuiltin
    · rename_i hbuiltin
      exact .define rfl (hf name.lexeme ⟨params, body⟩ (by simpa using hbuiltin))

/-- **A program without these declarations stands for the program.** -/
theorem Stmt.allRecast_unshadowed (hf : ∀ name f, Builtin.ofName? name = none → functions name f f.unshadowed) :
    ∀ ss : List Stmt, Stmt.AllRecast (.unshadowing functions) ss (Stmt.unshadowedAll ss)
  | [] => by
    rw [Stmt.unshadowedAll]
    exact .nil
  | s :: ss => by
    rw [Stmt.unshadowedAll]
    cases hs : s.shadows with
    | false => exact .cons (Stmt.recast_unshadowed hf s) (Stmt.allRecast_unshadowed hf ss)
    | true =>
      cases s with
      | define name params body => exact .leave hs (Stmt.allRecast_unshadowed hf ss)
      | _ => cases hs

theorem Chain.recast_unshadowed (hf : ∀ name f, Builtin.ofName? name = none → functions name f f.unshadowed) :
    ∀ ch : Chain, ch.Recast (.unshadowing functions) ch.unshadowed
  | .done => by
    rw [Chain.unshadowed]
    exact .done
  | .otherwise body => by
    rw [Chain.unshadowed]
    exact .otherwise (Stmt.recast_unshadowed hf body)
  | .retry condition body rest => by
    rw [Chain.unshadowed]
    exact .retry condition.recast_self (Stmt.recast_unshadowed hf body) (Chain.recast_unshadowed hf rest)

end

end Unshadowed

/-! ## What machines hold under names -/

/-- The same under every name that is not built in. -/
def SameBeyondBuiltins (name : Text) (o o' : Option Function) : Prop := Builtin.ofName? name = none → o = o'

/-- Nothing under a built-in name, and under any other the function without declarations of such names. -/
def IsUnshadowed (name : Text) (o o' : Option Function) : Prop :=
  o' = if (Builtin.ofName? name).isSome then none else o.map Function.unshadowed

/-- Under every name that is not built in, the same function, or the function without declarations of such names. -/
def SameOrUnshadowed (name : Text) (o o' : Option Function) : Prop :=
  Builtin.ofName? name = none → Option.Rel (fun f g => g = f ∨ g = f.unshadowed) o o'

theorem Bond.suits_sameBeyondBuiltins :
    Bond.Suits ⟨Eq, SameBeyondBuiltins, Eq⟩ (.rewriting (fun _ => Eq) fun _ => False) := by
  refine Bond.suits_rewriting (fun hfg _ => congrArg some hfg) (fun _ hspare => hspare.elim)
    (fun {name o o'} hb ho => ?_) (fun hfg => congrArg Function.params hfg) (fun hfg => ?_)
  · cases ho hb
    cases o with
    | none => exact .none
    | some f => exact .some rfl
  · cases hfg
    exact Stmt.allRecast_same (fun _ _ => rfl) _

theorem Bond.suits_isUnshadowed : Bond.Suits ⟨Eq, IsUnshadowed, Eq⟩
    (.unshadowing fun name f g => Builtin.ofName? name = none ∧ g = f.unshadowed) := by
  refine Bond.suits_rewriting (fun hfg => ?_) (fun f hspare ho => ?_) (fun {name o o'} hb ho => ?_) (fun hfg => ?_)
    (fun hfg => ?_)
  · obtain ⟨hb, rfl⟩ := hfg
    unfold IsUnshadowed
    rw [hb]
    rfl
  · unfold IsUnshadowed at ho ⊢
    rw [if_pos hspare] at ho ⊢
    exact ho
  · have ho' : o' = o.map Function.unshadowed := by
      unfold IsUnshadowed at ho
      rw [ho, hb]
      rfl
    cases ho'
    exact option_rel_map o (fun _ => ⟨hb, rfl⟩)
  · rw [hfg.2]
    rfl
  · rw [hfg.2]
    exact Stmt.allRecast_unshadowed (fun _ _ hb => ⟨hb, rfl⟩) _

theorem Bond.suits_sameOrUnshadowed : Bond.Suits ⟨Eq, SameOrUnshadowed, Eq⟩
    (.unshadowing fun _ f g => g = f ∨ g = f.unshadowed) := by
  refine Bond.suits_rewriting (fun hfg _ => .some hfg) (fun {name o o'} f hspare ho hb => ?_) (fun hb ho => ho hb)
    (fun hfg => ?_) (fun hfg => ?_)
  · rw [hb] at hspare
    cases hspare
  · rcases hfg with rfl | rfl
    · rfl
    · rfl
  · rcases hfg with rfl | rfl
    · exact Stmt.allRecast_same (fun _ _ => .inl rfl) _
    · exact Stmt.allRecast_unshadowed (fun _ _ _ => .inr rfl) _

/-- **Built-in functions cannot be shadowed.**  Runs of a program on machines that are the same but for functions under
built-in names end alike, and leave such machines again.  If the program is run without its declarations under these
names, it ends alike as well: on the same machine, where some of the other functions are left without such declarations
in them; and on a machine without all of these, where nothing is declared under the names and every other function
is what it was without such declarations. -/
theorem builtins_unshadowed (limits : Limits) (program : List Stmt) (m m' : Machine) :
    (m.SameButFunctions SameBeyondBuiltins m' → EndAlike Eq (Machine.SameButFunctions SameBeyondBuiltins) m m'
      (runProgram limits program m) (runProgram limits program m')) ∧
    EndAlike Eq (Machine.SameButFunctions SameOrUnshadowed) m m
      (runProgram limits program m) (runProgram limits (Stmt.unshadowedAll program) m) ∧
    (m.SameButFunctions IsUnshadowed m' → EndAlike Eq (Machine.SameButFunctions IsUnshadowed) m m'
      (runProgram limits program m) (runProgram limits (Stmt.unshadowedAll program) m')) := by
  refine ⟨fun hm => ?_, ?_, fun hm => ?_⟩
  · exact runProgram_sameButFunctions Bond.suits_sameBeyondBuiltins limits (Stmt.allRecast_same (fun _ _ => rfl) _) hm
  · have hm : m.SameButFunctions SameOrUnshadowed m := ⟨rfl, rfl, rfl, fun name _ => by
      cases m.functions.get? name with
      | none => exact .none
      | some f => exact .some (.inl rfl)⟩
    exact runProgram_sameButFunctions Bond.suits_sameOrUnshadowed limits
      (Stmt.allRecast_unshadowed (fun _ _ _ => .inr rfl) _) hm
  · exact runProgram_sameButFunctions Bond.suits_isUnshadowed limits
      (Stmt.allRecast_unshadowed (fun _ _ hb => ⟨hb, rfl⟩) _) hm

/-- A machine with a function under the name `taunt`, which is built in. -/
def heckled : Machine where
  functions := ⟨[("taunt".toList, ⟨[], [.give ⟨.spawn, "spawn".toList, some 1⟩ none]⟩)]⟩

/-- `dlc taunt() \x7b spawn \x7d`, and then `taunt("gg")`. -/
def heckle : List Stmt :=
  [.define ⟨.identifier, "taunt".toList, some 1⟩ [] [.give ⟨.spawn, "spawn".toList, some 1⟩ none],
    .expression (.call ⟨.identifier, "taunt".toList, some 2⟩ [.literal ⟨.string, "\"gg\"".toList, some 2⟩])]

/-- The call writes its text, whether `taunt` was declared before, is declared by the program, or is not declared. -/
theorem builtins_unshadowed_declared_taunt :
    EndAlike Eq (Machine.SameButFunctions SameBeyondBuiltins) {} heckled
      (runProgram .standard heckle {}) (runProgram .standard heckle heckled) ∧
    EndAlike Eq (Machine.SameButFunctions IsUnshadowed) {} {}
      (runProgram .standard heckle {}) (runProgram .standard (Stmt.unshadowedAll heckle) {}) := by
  refine ⟨(builtins_unshadowed .standard heckle {} heckled).1 ⟨rfl, rfl, rfl, fun name hb => ?_⟩,
    (builtins_unshadowed .standard heckle {} {}).2.2 ⟨rfl, rfl, rfl, fun name => ?_⟩⟩
  · have hname : name ≠ "taunt".toList := by
      rintro rfl
      exact absurd hb (by decide)
    exact ((Bindings.lookup_cons _ _ _ _).trans (if_neg hname)).symm
  · unfold IsUnshadowed
    split
    · rfl
    · rfl

end Loot
