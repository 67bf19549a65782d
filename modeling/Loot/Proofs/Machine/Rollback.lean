import Loot.Proofs.Machine.Kept
/-!
# Calls are rolled back

A call works on the table of variables of its caller, and its body may bind and change whatever it
likes.  Still no expression changes a variable: the saved table comes back on every outcome
(`Run.keeps_isolated`), so by induction on the room for calls an evaluation leaves the scope as it was
(`keeps_eval_rolledBack`), and statements leave the saved tables as they were.  Functions are not
rolled back: a declared name stays declared.
-/
namespace Loot

/-! ## What stays the same -/

/-- Every function that was declared still is. -/
def Machine.FunctionsStay (m m' : Machine) : Prop :=
  ∀ name, (m.functions.get? name).isSome → (m'.functions.get? name).isSome

/-- The variables and the saved tables are the same, and no function is gone. -/
structure Machine.RolledBack (m m' : Machine) : Prop where
  scope : m'.scope = m.scope
  functions : m.FunctionsStay m'

/-- The saved tables are the same, and no function is gone. -/
structure Machine.Levelled (m m' : Machine) : Prop where
  saved : m'.scope.saved = m.scope.saved
  functions : m.FunctionsStay m'

namespace Machine

theorem FunctionsStay.refl (m : Machine) : m.FunctionsStay m := fun _ h => h

theorem FunctionsStay.trans {a b c : Machine} (hab : a.FunctionsStay b) (hbc : b.FunctionsStay c) :
    a.FunctionsStay c := fun name h => hbc name (hab name h)

theorem RolledBack.levelled {m m' : Machine} (h : m.RolledBack m') : m.Levelled m' :=
  ⟨by rw [h.scope], h.functions⟩

theorem rolledBack_outward : Outward RolledBack where
  refl m := ⟨rfl, .refl m⟩
  trans hab hbc := ⟨hbc.scope.trans hab.scope, hab.functions.trans hbc.functions⟩
  events m _ := ⟨rfl, .refl m⟩
  input m _ := ⟨rfl, .refl m⟩

end Machine

theorem Bindings.lookup_cons {α : Type} (k : Text) (x : α) (rest : List (Text × α)) (n : Text) :
    ((k, x) :: rest).lookup n = if n = k then some x else rest.lookup n := by
  rw [List.lookup_cons]
  by_cases hn : n = k
  · simp [hn]
  · simp [beq_false_of_ne hn, hn]

theorem Bindings.lookup_setIn {α : Type} (name : Text) (a : α) (n : Text) : ∀ entries : List (Text × α),
    (Bindings.setIn name a entries).lookup n = if n = name then some a else entries.lookup n
  | [] => Bindings.lookup_cons name a [] n
  | (k, x) :: rest => by
    rw [Bindings.setIn, Bindings.lookup_cons]
    by_cases hk : k = name
    · rw [if_pos hk, Bindings.lookup_cons, hk]
      split <;> rfl
    · rw [if_neg hk, Bindings.lookup_cons, Bindings.lookup_setIn name a n rest]
      by_cases hn : n = name
      · rw [if_pos hn, if_pos hn, if_neg (fun h => hk (h.symm.trans hn))]
      · rw [if_neg hn, if_neg hn]

theorem Bindings.get?_set {α : Type} (b : Bindings α) (name : Text) (a : α) (n : Text) :
    (b.set name a).get? n = if n = name then some a else b.get? n :=
  Bindings.lookup_setIn name a n b.entries

theorem Machine.functionsStay_define (m : Machine) (name : Text) (f : Function) :
    m.FunctionsStay { m with functions := m.functions.set name f } := by
  intro n h
  rw [Bindings.get?_set]
  split
  · rfl
  · exact h

theorem Machine.levelled_rebinding : Rebinding Machine.Levelled where
  refl m := ⟨rfl, .refl m⟩
  trans hab hbc := ⟨hbc.saved.trans hab.saved, hab.functions.trans hbc.functions⟩
  assign _ _ m := ⟨rfl, .refl m⟩
  define name f m := ⟨rfl, m.functionsStay_define name.lexeme f⟩

/-! ## Calls -/

/-- The machine with the variables that were saved last, if any were. -/
def Machine.back (m : Machine) : Machine := { m with scope := (m.scope.pop?).getD m.scope }

/-- Runs an action on a saved copy of the variables, which are there to be taken back. -/
def Run.rolledBack {α : Type} (action : Run α) : Run α := fun m =>
  match action { m with scope := m.scope.push } with
  | .ok a m' => .ok a m'.back
  | .error stop m' => .error stop m'.back

/-- **Saved variables are there when they are taken back**, if the action in between leaves the saved tables level. -/
theorem Run.isolated_eq {α : Type} {action : Run α} (h : Keeps Machine.Levelled action) :
    isolated action = rolledBack action := by
  funext m
  have hl := h { m with scope := m.scope.push }
  have htaken : ∀ m' : Machine, m'.scope.saved = m.scope.push.saved → takeBack m' = .ok () m'.back := by
    intro m' hs
    simp only [takeBack, get_bind_apply, Machine.back, Scope.pop?, hs]
    rfl
  unfold left at hl
  unfold isolated rolledBack
  cases hm : action { m with scope := m.scope.push } with
  | ok a m' =>
    rw [hm] at hl
    simp only [bind, EStateM.bind, htaken m' hl.saved]
    rfl
  | error stop m' =>
    rw [hm] at hl
    simp only [bind, EStateM.bind, htaken m' hl.saved]
    rfl

/-- What an action keeps on the saved copy is kept on the whole, as far as taking back the variables carries it over. -/
theorem Run.keeps_rolledBack {R S : Machine → Machine → Prop}
    (hback : ∀ m m' : Machine, R { m with scope := m.scope.push } m' → S m m'.back) {α : Type} {action : Run α}
    (h : Keeps R action) : Keeps S (rolledBack action) := by
  intro m
  have hR := h { m with scope := m.scope.push }
  unfold left at hR ⊢
  unfold rolledBack
  cases hm : action { m with scope := m.scope.push } with
  | ok a m' =>
    rw [hm] at hR
    exact hback m m' hR
  | error stop m' =>
    rw [hm] at hR
    exact hback m m' hR

/-- What an action that leaves the saved tables level finds on top of them is the table that was saved for it. -/
theorem Machine.Levelled.back {m m' : Machine} (h : Machine.Levelled { m with scope := m.scope.push } m') :
    m.RolledBack m'.back := by
  refine ⟨?_, h.functions⟩
  simp only [Machine.back, Scope.pop?, h.saved]
  rfl

/-- **An isolated action is rolled back** if it only leaves the saved tables level. -/
theorem Run.keeps_isolated {α : Type} {action : Run α} (h : Keeps Machine.Levelled action) :
    Keeps Machine.RolledBack (isolated action) := by
  rw [isolated_eq h]
  exact keeps_rolledBack (fun _ _ hl => hl.back) h

/-- What is done inside of a call: the parameters are bound and the body is run. -/
def runBody (limits : Limits) (room : Nat) (f : Function) (values : List Value) : Run Value := do
  bindParams f.params values
  match ← Stmt.execAll (callWith (enter limits room)) limits.rounds f.body with
  | .normal => pure .null
  | .returned v => pure v

theorem keeps_runBody {R : Machine → Machine → Prop} (hR : Rebinding R) {limits : Limits} {room : Nat}
    (heval : ∀ e : Expr, Run.Keeps R (e.eval (callWith (enter limits room)))) (f : Function) (values : List Value) :
    Run.Keeps R (runBody limits room f values) := by
  refine Run.keeps_bind hR.toChained (keeps_bindParams hR _ _) (fun _ => ?_)
  refine Run.keeps_bind hR.toChained (Stmt.keeps_execAll hR heval _ _) (fun flow => ?_)
  cases flow with
  | normal => exact Run.keeps_pure hR.toChained _
  | returned v => exact Run.keeps_pure hR.toChained _

/-- The calls of a body are rolled back, and its statements bind variables.  So of the body as a whole only the saved
tables are known, and that is enough. -/
theorem keeps_runBody_levelled {limits : Limits} {room : Nat}
    (hcall : (callWith (enter limits room)).Keeps Machine.RolledBack) (f : Function) (values : List Value) :
    Run.Keeps Machine.Levelled (runBody limits room f values) :=
  keeps_runBody Machine.levelled_rebinding (fun e =>
    (Expr.keeps_eval Machine.rolledBack_outward.toChained hcall e).mono (fun _ _ h => h.levelled)) f values

/-- **Entering a function is rolled back**, whatever its body does. -/
theorem keeps_enter_rolledBack (limits : Limits) : ∀ (room : Nat) (name : Token) (f : Function) (values : List Value),
    Run.Keeps Machine.RolledBack (enter limits room name f values)
  | 0, _, _, _ => Run.keeps_fault Machine.rolledBack_outward.toChained _ _
  | room + 1, _, f, values =>
    Run.keeps_isolated
      (keeps_runBody_levelled (keeps_callWith Machine.rolledBack_outward (keeps_enter_rolledBack limits room)) f values)

theorem enter_succ (limits : Limits) (room : Nat) (name : Token) (f : Function) (values : List Value) :
    enter limits (room + 1) name f values = Run.rolledBack (runBody limits room f values) :=
  Run.isolated_eq
    (keeps_runBody_levelled (keeps_callWith Machine.rolledBack_outward (keeps_enter_rolledBack limits room)) f values)

theorem keeps_eval_rolledBack (limits : Limits) (room : Nat) (e : Expr) :
    Run.Keeps Machine.RolledBack (e.eval (caller limits room)) :=
  Expr.keeps_eval Machine.rolledBack_outward.toChained
    (keeps_callWith Machine.rolledBack_outward (keeps_enter_rolledBack limits room)) e

/-! ## Statements and programs -/

theorem keeps_eval_levelled (limits : Limits) (room : Nat) (e : Expr) :
    Run.Keeps Machine.Levelled (e.eval (caller limits room)) :=
  (keeps_eval_rolledBack limits room e).mono (fun _ _ h => h.levelled)

theorem keeps_runProgram_levelled (limits : Limits) (program : List Stmt) :
    Run.Keeps Machine.Levelled (runProgram limits program) := by
  have hL := Machine.levelled_rebinding
  refine Run.keeps_bind hL.toChained (Run.keeps_get hL.toChained) (fun m => ?_)
  exact Stmt.keeps_execAll hL (keeps_eval_levelled limits _) _ program

theorem keeps_runSource_levelled (limits : Limits) (source : Text) :
    Run.Keeps Machine.Levelled (runSource limits source) := by
  have hL := Machine.levelled_rebinding
  exact Run.keeps_bind hL.toChained (Run.keeps_ofExcept hL.toChained _) (keeps_runProgram_levelled limits)

/-- The machine after running pieces of program one after another, each whatever became of those before. -/
def runPieces (limits : Limits) (sources : List Text) (m : Machine) : Machine :=
  sources.foldl (fun m source => (runSource limits source).left m) m

theorem runPieces_levelled (limits : Limits) : ∀ (sources : List Text) (m : Machine),
    m.Levelled (runPieces limits sources m)
  | [], m => Machine.levelled_rebinding.refl m
  | source :: sources, m =>
    Machine.levelled_rebinding.trans (keeps_runSource_levelled limits source m) (runPieces_levelled limits sources _)

/-! ## Failed statements

A statement that holds no other binds a variable as its last act, if at all, so it fails before. -/

/-- If the action fails, the machine that it leaves is related to the one that it started from. -/
def Run.FailsKeeping {α : Type} (R : Machine → Machine → Prop) (action : Run α) : Prop :=
  ∀ m stop m', action m = .error stop m' → R m m'

section Failing

open Run

variable {α β : Type} {R : Machine → Machine → Prop}

theorem Run.Keeps.failsKeeping {action : Run α} (h : Keeps R action) : FailsKeeping R action := by
  intro m stop m' hm
  have := h m
  unfold left at this
  rw [hm] at this
  exact this

theorem failsKeeping_bind (hR : Chained R) {x : Run α} {f : α → Run β} (hx : Keeps R x)
    (hf : ∀ a, FailsKeeping R (f a)) : FailsKeeping R (x >>= f) := by
  intro m stop m' h
  have hl := hx m
  unfold left at hl
  simp only [bind, EStateM.bind] at h
  cases hm : x m with
  | ok a m₁ =>
    rw [hm] at h hl
    exact hR.trans hl (hf a m₁ stop m' h)
  | error e m₁ =>
    rw [hm] at h hl
    cases h
    exact hl

theorem failsKeeping_assign (name : Token) (v : Value) (flow : Flow) :
    FailsKeeping R (do assign name v; pure flow : Run Flow) := fun _ _ _ h => nomatch h

theorem failsKeeping_step (hR : Chained R) (name : Token) (delta : Float) : FailsKeeping R (step name delta) := by
  refine failsKeeping_bind hR (keeps_lookup hR name) (fun v => ?_)
  split
  · exact failsKeeping_assign name _ _
  · exact (keeps_fault hR _ _).failsKeeping

end Failing

/-- The statements that hold no other and declare no function. -/
def Stmt.isSimple : Stmt → Bool
  | .expression _ | .declare _ _ | .give _ _ | .assign _ _ | .increase _ | .decrease _ => true
  | _ => false

/-- **A simple statement that fails is rolled back.** -/
theorem failsKeeping_exec_simple (limits : Limits) (room rounds : Nat) (s : Stmt) (hs : s.isSimple = true) :
    Run.FailsKeeping Machine.RolledBack (s.exec (caller limits room) rounds) := by
  have hC := Machine.rolledBack_outward.toChained
  have heval := keeps_eval_rolledBack limits room
  cases s with
  | expression e =>
    rw [Stmt.exec]
    exact (Run.keeps_bind hC (heval e) (fun _ => Run.keeps_pure hC _)).failsKeeping
  | declare name init =>
    cases init with
    | none =>
      rw [Stmt.exec]
      exact failsKeeping_assign name _ _
    | some e =>
      rw [Stmt.exec]
      exact failsKeeping_bind hC (heval e) (fun v => failsKeeping_assign name v _)
  | give keyword value =>
    cases value with
    | none =>
      rw [Stmt.exec]
      exact (Run.keeps_pure hC _).failsKeeping
    | some e =>
      rw [Stmt.exec]
      exact (Run.keeps_bind hC (heval e) (fun _ => Run.keeps_pure hC _)).failsKeeping
  | assign target e =>
    rw [Stmt.exec]
    exact failsKeeping_bind hC (heval e) (fun v => failsKeeping_assign target v _)
  | increase name =>
    rw [Stmt.exec]
    exact failsKeeping_step hC name _
  | decrease name =>
    rw [Stmt.exec]
    exact failsKeeping_step hC name _
  | block _ | branch _ _ _ | loop _ _ | define _ _ _ | finish _ => cases hs

/-- **Expressions are pure in the scope, and every run levels its calls.**  From every machine, with room
for any number of calls and on every outcome: evaluating an expression leaves the variables and the
saved tables as they were; a simple statement that fails does so too; a statement and a piece of
program leave the saved tables as they were, so none are left between the pieces run on a fresh
machine; and in all of these no declared function is lost. -/
theorem calls_rolled_back (limits : Limits) :
    (∀ (room : Nat) (e : Expr) (m : Machine), m.RolledBack ((e.eval (caller limits room)).left m)) ∧
    (∀ (room rounds : Nat) (s : Stmt), s.isSimple = true → ∀ (m : Machine) (stop : Stop) (m' : Machine),
      s.exec (caller limits room) rounds m = .error stop m' → m.RolledBack m') ∧
    (∀ (room rounds : Nat) (s : Stmt) (m : Machine), m.Levelled ((s.exec (caller limits room) rounds).left m)) ∧
    (∀ (source : Text) (m : Machine), m.Levelled ((runSource limits source).left m)) ∧
    (∀ (sources : List Text) (input : Option Text), (runPieces limits sources { input }).scope.depth = 0) := by
  refine ⟨keeps_eval_rolledBack limits, failsKeeping_exec_simple limits, fun room rounds s => ?_,
    keeps_runSource_levelled limits, fun sources input => ?_⟩
  · exact Stmt.keeps_exec Machine.levelled_rebinding (keeps_eval_levelled limits room) rounds s
  · unfold Scope.depth
    rw [(runPieces_levelled limits sources { input }).saved]
    rfl

/-- A machine where `x` is bound, and where `f` binds it again and then looks for `y`. -/
def spoiling : Machine where
  scope := { vars := ⟨[(['x'], .boolean true)]⟩ }
  functions := ⟨[(['f'], ⟨[], [.assign ⟨.identifier, ['x'], none⟩ (.literal ⟨.nerfed, [], none⟩),
    .expression (.variable ⟨.identifier, ['y'], none⟩)]⟩)]⟩

def spoil : Stmt := .assign ⟨.identifier, ['x'], none⟩ (.call ⟨.identifier, ['f'], none⟩ [])

/-- The call fails after it bound `x`, and `x` is what it was. -/
theorem calls_rolled_back_failed_call :
    ∃ m', spoil.exec (caller .standard 1) 1 spoiling = .error (.fault { cause := .undefinedVariable ['y'] }) m' ∧
      spoiling.RolledBack m' :=
  ⟨_, rfl, (calls_rolled_back .standard).2.1 1 1 spoil rfl spoiling _ _ rfl⟩

end Loot
