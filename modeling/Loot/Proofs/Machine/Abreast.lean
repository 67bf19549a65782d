import Loot.Proofs.Machine.Recast
import Loot.Proofs.Machine.Rollback
/-!
# Two runs abreast

Two machines run two programs, the second of which stands for the first, and they keep abreast: what they have to do
with each other (`Bond`) holds again when the runs end, both have shown the same on the way, and both are back at the
tables that were saved before.  For this the bond only has to suit the terms on which the one program stands for the
other (`Bond.recasting`).
-/
namespace Loot

/-! ## Outcomes -/

/-- Both machines have shown the same since they were the first two. -/
def ShownSame (m m' m₁ m₁' : Machine) : Prop := ∃ shown, m₁.events = shown ++ m.events ∧ m₁'.events = shown ++ m'.events

/-- **Two runs end alike**: with the same result, or both with a stop, as far as stops are told apart.  The machines are
related again, and both have shown the same. -/
inductive EndAlike {α : Type} (stops : Stop → Stop → Prop) (R : Machine → Machine → Prop) (m m' : Machine) :
    EStateM.Result Stop Machine α → EStateM.Result Stop Machine α → Prop
  | ok (a : α) {m₁ m₁' : Machine} : R m₁ m₁' → ShownSame m m' m₁ m₁' → EndAlike stops R m m' (.ok a m₁) (.ok a m₁')
  | error {stop stop' : Stop} {m₁ m₁' : Machine} : stops stop stop' → R m₁ m₁' → ShownSame m m' m₁ m₁' →
      EndAlike stops R m m' (.error stop m₁) (.error stop' m₁')

theorem ShownSame.refl (m m' : Machine) : ShownSame m m' m m' := ⟨[], rfl, rfl⟩

theorem ShownSame.trans {m m' m₁ m₁' m₂ m₂' : Machine} (h : ShownSame m m' m₁ m₁') (h₁ : ShownSame m₁ m₁' m₂ m₂') :
    ShownSame m m' m₂ m₂' := by
  obtain ⟨shown, hm, hm'⟩ := h
  obtain ⟨shown₁, hm₁, hm₁'⟩ := h₁
  refine ⟨shown₁ ++ shown, ?_, ?_⟩
  · rw [hm₁, hm, List.append_assoc]
  · rw [hm₁', hm', List.append_assoc]

section Ending

variable {α : Type} {stops : Stop → Stop → Prop} {R S : Machine → Machine → Prop} {m m' : Machine}
  {r r' : EStateM.Result Stop Machine α}

theorem EndAlike.mono (hRS : ∀ m₁ m₁', R m₁ m₁' → S m₁ m₁') (h : EndAlike stops R m m' r r') :
    EndAlike stops S m m' r r' := by
  cases h with
  | ok a hR hshown => exact .ok a (hRS _ _ hR) hshown
  | error hstop hR hshown => exact .error hstop (hRS _ _ hR) hshown

/-- What ends alike after both have shown the same ends alike as seen from before. -/
theorem EndAlike.after {m₁ m₁' : Machine} (hshown : ShownSame m m' m₁ m₁') (h : EndAlike stops R m₁ m₁' r r') :
    EndAlike stops R m m' r r' := by
  cases h with
  | ok a hR h => exact .ok a hR (hshown.trans h)
  | error hstop hR h => exact .error hstop hR (hshown.trans h)

/-- What end alike with the same run end alike. -/
theorem EndAlike.join {stops' : Stop → Stop → Prop} {m₀ : Machine} {r₀ : EStateM.Result Stop Machine α}
    (hstops : ∀ {stop stop' stop₀}, stops stop stop₀ → stops stop' stop₀ → stops' stop stop')
    (hRS : ∀ {m₁ m₁' m₂}, R m₁ m₂ → R m₁' m₂ → S m₁ m₁') (h : EndAlike stops R m m₀ r r₀)
    (h' : EndAlike stops R m' m₀ r' r₀) : EndAlike stops' S m m' r r' := by
  have hshown : ∀ {m₁ m₁' m₂}, ShownSame m m₀ m₁ m₂ → ShownSame m' m₀ m₁' m₂ → ShownSame m m' m₁ m₁' := by
    rintro m₁ m₁' m₂ ⟨shown, hm₁, hm₂⟩ ⟨shown', hm₁', hm₂'⟩
    -- what the third machine has shown since it was the first is one list
    have hsame : shown = shown' := List.append_cancel_right (hm₂.symm.trans hm₂')
    exact ⟨shown, hm₁, hsame ▸ hm₁'⟩
  cases h with
  | ok a hR hs =>
    cases h' with
    | ok _ hR' hs' => exact .ok a (hRS hR hR') (hshown hs hs')
  | error hstop hR hs =>
    cases h' with
    | error hstop' hR' hs' => exact .error (hstops hstop hstop') (hRS hR hR') (hshown hs hs')

end Ending

/-! ## Bonds -/

/-- What two machines and their runs have to do with each other. -/
structure Bond where
  vars : Bindings Value → Bindings Value → Prop
  /-- What is declared under a name, if anything is. -/
  declared : Text → Option Function → Option Function → Prop
  stops : Stop → Stop → Prop

namespace Bond

variable {B : Bond} {τ : Terms}

/-- The bond holds between the machines, and their open calls have saved the given tables. -/
structure Holds (B : Bond) (saved saved' : List (Bindings Value)) (m m' : Machine) : Prop where
  vars : B.vars m.scope.vars m'.scope.vars
  functions : ∀ name, B.declared name (m.functions.get? name) (m'.functions.get? name)
  input : m.input = m'.input
  clock : m.clock = m'.clock
  saved : m.scope.saved = saved
  saved' : m'.scope.saved = saved'

/-- Actions on machines in the bond end alike, with the bond between them and the saved tables as they were. -/
def Matches (B : Bond) (α : Type) (x y : Run α) : Prop :=
  ∀ saved saved' m m', B.Holds saved saved' m m' → EndAlike B.stops (B.Holds saved saved') m m' (x m) (y m')

/-- **The bond suits the terms**: it is kept by the primitive actions of programs that stand for each other. -/
structure Suits (B : Bond) (τ : Terms) : Prop where
  same : ∀ {s t : Token}, τ.tokens s t → s.kind = t.kind ∧ s.lexeme = t.lexeme
  named : ∀ {s t : Token}, τ.vars s t → τ.tokens s t
  stops : ∀ {stop stop' : Stop}, Raised τ.tokens τ.loops stop stop' → B.stops stop stop'
  get : ∀ {s t : Token} {b b' : Bindings Value}, τ.vars s t → B.vars b b' → b.get? s.lexeme = b'.get? t.lexeme
  set : ∀ {s t : Token} {b b' : Bindings Value} (v : Value), τ.vars s t → B.vars b b' →
    B.vars (b.set s.lexeme v) (b'.set t.lexeme v)
  declare : ∀ {name : Text} {f g : Function}, τ.functions name f g → B.declared name (some f) (some g)
  leave : ∀ {name : Text} {o o' : Option Function} (f : Function), τ.spare name → B.declared name o o' →
    B.declared name (some f) o'
  find : ∀ {name : Text} {o o' : Option Function}, Builtin.ofName? name = none → B.declared name o o' →
    Option.Rel (τ.functions name) o o'
  params : ∀ {name : Text} {f g : Function}, τ.functions name f g → List.Forall₂ τ.vars f.params g.params
  body : ∀ {name : Text} {f g : Function}, τ.functions name f g → Stmt.AllRecast τ f.body g.body

/-! ### Actions -/

theorem matches_bind {α β : Type} {x y : Run α} {f g : α → Run β} (hxy : B.Matches α x y)
    (hfg : ∀ a, B.Matches β (f a) (g a)) : B.Matches β (x >>= f) (y >>= g) := by
  intro saved saved' m m' hm
  have h := hxy saved saved' m m' hm
  simp only [Bind.bind, EStateM.bind]
  generalize x m = r, y m' = r' at h
  cases h with
  | ok a hm₁ hshown => exact (hfg a saved saved' _ _ hm₁).after hshown
  | error hstop hm₁ hshown => exact .error hstop hm₁ hshown

theorem Holds.push {saved saved' : List (Bindings Value)} {m m' : Machine} (hm : B.Holds saved saved' m m') :
    B.Holds (m.scope.vars :: saved) (m'.scope.vars :: saved') { m with scope := m.scope.push }
      { m' with scope := m'.scope.push } where
  vars := hm.vars
  functions := hm.functions
  input := hm.input
  clock := hm.clock
  saved := congrArg (m.scope.vars :: ·) hm.saved
  saved' := congrArg (m'.scope.vars :: ·) hm.saved'

/-- The saved tables on top are those that were pushed, so the bond is what it was before, but for the functions and the
input that are left. -/
theorem Holds.pop {saved saved' : List (Bindings Value)} {m m' m₁ m₁' : Machine} (hm : B.Holds saved saved' m m')
    (hm₁ : B.Holds (m.scope.vars :: saved) (m'.scope.vars :: saved') m₁ m₁') :
    B.Holds saved saved' m₁.back m₁'.back := by
  have hpop : (m₁.scope.pop?).getD m₁.scope = ⟨m.scope.vars, saved⟩ := by
    unfold Scope.pop?
    rw [hm₁.saved]
    rfl
  have hpop' : (m₁'.scope.pop?).getD m₁'.scope = ⟨m'.scope.vars, saved'⟩ := by
    unfold Scope.pop?
    rw [hm₁.saved']
    rfl
  unfold Machine.back
  rw [hpop, hpop']
  exact ⟨hm.vars, hm₁.functions, hm₁.input, hm₁.clock, rfl, rfl⟩

theorem matches_rolledBack {α : Type} {x y : Run α} (hxy : B.Matches α x y) :
    B.Matches α (Run.rolledBack x) (Run.rolledBack y) := by
  intro saved saved' m m' hm
  have h := hxy _ _ _ _ hm.push
  unfold Run.rolledBack
  generalize x _ = r, y _ = r' at h
  cases h with
  | ok a hm₁ hshown => exact .ok a (hm.pop hm₁) hshown
  | error hstop hm₁ hshown => exact .error hstop (hm.pop hm₁) hshown

theorem matches_readLine : B.Matches (Option Text) Run.readLine Run.readLine := by
  intro saved saved' m m' hm
  unfold Run.readLine
  simp only [get_bind_apply]
  rw [← hm.input]
  cases m.input with
  | none => exact .ok _ hm (.refl m m')
  | some text =>
    cases text with
    | nil => exact .ok _ hm (.refl m m')
    | cons c cs => exact .ok _ ⟨hm.vars, hm.functions, rfl, hm.clock, hm.saved, hm.saved'⟩ ⟨[], rfl, rfl⟩

section Suits

variable (h : B.Suits τ)

include h

theorem matches_lookup {s t : Token} (hst : τ.vars s t) : B.Matches Value (Run.lookup s) (Run.lookup t) := by
  intro saved saved' m m' hm
  have hstop : B.stops (.fault { cause := .undefinedVariable s.lexeme, line := s.line })
      (.fault { cause := .undefinedVariable s.lexeme, line := t.line }) := h.stops (.fault (h.named hst) rfl)
  unfold Run.lookup Scope.get
  simp only [get_bind_apply]
  rw [← h.get hst hm.vars, ← (h.same (h.named hst)).2]
  cases m.scope.vars.get? s.lexeme with
  | some v => exact .ok v hm (.refl m m')
  | none => exact .error hstop hm (.refl m m')

theorem matches_define {s t : Token} {f g : Function} (hst : τ.tokens s t) (hfg : τ.functions s.lexeme f g) :
    B.Matches Unit (Run.define s f) (Run.define t g) := by
  intro saved saved' m m' hm
  refine .ok () ⟨hm.vars, fun name => ?_, hm.input, hm.clock, hm.saved, hm.saved'⟩ ⟨[], rfl, rfl⟩
  rw [Bindings.get?_set, Bindings.get?_set, ← (h.same hst).2]
  by_cases hname : name = s.lexeme
  · rw [if_pos hname, if_pos hname, hname]
    exact h.declare hfg
  · rw [if_neg hname, if_neg hname]
    exact hm.functions name

theorem matches_leave {s : Token} (f : Function) (hs : τ.spare s.lexeme) :
    B.Matches Unit (Run.define s f) (Pure.pure ()) := by
  intro saved saved' m m' hm
  refine .ok () ⟨hm.vars, fun name => ?_, hm.input, hm.clock, hm.saved, hm.saved'⟩ ⟨[], rfl, rfl⟩
  rw [Bindings.get?_set]
  by_cases hname : name = s.lexeme
  · rw [if_pos hname, hname]
    exact h.leave f hs (hm.functions s.lexeme)
  · rw [if_neg hname]
    exact hm.functions name

/-- **A bond that suits the terms passes to the runs of whole programs.** -/
theorem recasting : Recasting τ B.Matches where
  same := h.same
  named := h.named
  pure a _ _ m m' hm := .ok a hm (.refl m m')
  bind hxy hfg := matches_bind hxy hfg
  stop hstop _ _ m m' hm := .error (h.stops hstop) hm (.refl m m')
  emit e _ _ m m' hm := .ok () ⟨hm.vars, hm.functions, hm.input, hm.clock, hm.saved, hm.saved'⟩ ⟨[e], rfl, rfl⟩
  readLine := matches_readLine
  lookup hst := matches_lookup h hst
  assign v hst _ _ m m' hm :=
    .ok () ⟨h.set v hst hm.vars, hm.functions, hm.input, hm.clock, hm.saved, hm.saved'⟩ ⟨[], rfl, rfl⟩
  define hst hfg := matches_define h hst hfg
  leave f hs := matches_leave h f hs
  find {α s t F G} hst hb hnone hsome saved saved' m m' hm := by
    simp only [get_bind_apply]
    have hrel := h.find hb (hm.functions s.lexeme)
    rw [← (h.same hst).2]
    generalize m.functions.get? s.lexeme = o, m'.functions.get? s.lexeme = o' at hrel
    cases hrel with
    | none => exact hnone saved saved' m m' hm
    | some hfg => exact hsome _ _ hfg saved saved' m m' hm
  clock {α F G} hFG saved saved' m m' hm := by
    simp only [get_bind_apply]
    rw [← hm.clock]
    exact hFG m.clock saved saved' m m' hm
  rolledBack hxy := matches_rolledBack hxy
  params := h.params
  body := h.body

theorem runProgram (limits : Limits) {program program' : List Stmt} (hprogram : Stmt.AllRecast τ program program')
    {saved saved' : List (Bindings Value)} (hlevel : saved.length = saved'.length) {m m' : Machine}
    (hm : B.Holds saved saved' m m') :
    EndAlike B.stops (B.Holds saved saved') m m' (runProgram limits program m) (runProgram limits program' m') := by
  have hdepth : m'.scope.depth = m.scope.depth := by
    unfold Scope.depth
    rw [hm.saved, hm.saved', hlevel]
  have hrun : Loot.runProgram limits program' m' =
      Stmt.execAll (caller limits (limits.depth - m.scope.depth)) limits.rounds program' m' := by
    rw [← hdepth]
    rfl
  rw [hrun]
  exact (recasting h).runWith limits _ hprogram saved saved' m m' hm

end Suits

end Bond

/-! ## Machines that differ in their functions -/

/-- The machines have the same variables, saved tables and input, and what they hold under each name is related. -/
structure Machine.SameButFunctions (declared : Text → Option Function → Option Function → Prop) (m m' : Machine) :
    Prop where
  scope : m.scope = m'.scope
  input : m.input = m'.input
  clock : m.clock = m'.clock
  functions : ∀ name, declared name (m.functions.get? name) (m'.functions.get? name)

section Functions

variable {declared : Text → Option Function → Option Function → Prop} {stops : Stop → Stop → Prop} {τ : Terms}

theorem runProgram_sameButFunctions (h : Bond.Suits ⟨Eq, declared, stops⟩ τ) (limits : Limits)
    {program program' : List Stmt} (hprogram : Stmt.AllRecast τ program program') {m m' : Machine}
    (hm : m.SameButFunctions declared m') :
    EndAlike stops (Machine.SameButFunctions declared) m m' (runProgram limits program m)
      (runProgram limits program' m') := by
  have hholds : Bond.Holds ⟨Eq, declared, stops⟩ m.scope.saved m.scope.saved m m' :=
    ⟨congrArg Scope.vars hm.scope, hm.functions, hm.input, hm.clock, rfl, (congrArg Scope.saved hm.scope).symm⟩
  refine (Bond.runProgram h limits hprogram rfl hholds).mono
    (fun m₁ m₁' hend => ⟨?_, hend.input, hend.clock, hend.functions⟩)
  have hvars : m₁.scope.vars = m₁'.scope.vars := hend.vars
  have hsaved : m₁.scope.saved = m₁'.scope.saved := hend.saved.trans hend.saved'.symm
  cases hscope : m₁.scope
  cases hscope' : m₁'.scope
  rw [hscope, hscope'] at hvars hsaved
  cases hvars
  cases hsaved
  rfl

/-- The terms of a change that keeps every token that it does not leave out. -/
def Terms.rewriting (functions : Text → Function → Function → Prop) (spare : Text → Prop) : Terms where
  tokens := Eq
  vars := Eq
  functions := functions
  spare := spare
  loops := True

theorem Raised.eq {stop stop' : Stop} {loops : Prop} (h : Raised Eq loops stop stop') : stop = stop' := by
  cases h with
  | fault hst _ => rw [hst]
  | _ => rfl

theorem option_rel_map {α β : Type} {R : α → β → Prop} {f : α → β} (o : Option α) (h : ∀ a, R a (f a)) :
    Option.Rel R o (o.map f) := by
  cases o with
  | none => exact .none
  | some a => exact .some (h a)

/-- What is left to show of a change that keeps tokens: which functions stand for each other, and what is declared. -/
theorem Bond.suits_rewriting {functions : Text → Function → Function → Prop} {spare : Text → Prop}
    (declare : ∀ {name : Text} {f g : Function}, functions name f g → declared name (some f) (some g))
    (leave : ∀ {name : Text} {o o' : Option Function} (f : Function), spare name → declared name o o' →
      declared name (some f) o')
    (find : ∀ {name : Text} {o o' : Option Function}, Builtin.ofName? name = none → declared name o o' →
      Option.Rel (functions name) o o')
    (params : ∀ {name : Text} {f g : Function}, functions name f g → f.params = g.params)
    (body : ∀ {name : Text} {f g : Function}, functions name f g →
      Stmt.AllRecast (.rewriting functions spare) f.body g.body) :
    Bond.Suits ⟨Eq, declared, Eq⟩ (.rewriting functions spare) where
  same h := by
    cases h
    exact ⟨rfl, rfl⟩
  named h := h
  stops h := h.eq
  get hst hb := by
    cases hst
    cases hb
    rfl
  set v hst hb := by
    cases hst
    cases hb
    rfl
  declare := declare
  leave := leave
  find := find
  params h := by
    rw [params h]
    exact List.forall₂_same.2 (fun _ _ => rfl)
  body := body

end Functions

end Loot
