import Loot.Proofs.Machine.Steps
import Loot.Proofs.Machine.Stops
/-!
# Programs without loops

Functions may call themselves and each other, and declare each other anew while they run, so a program without
loops does not end by its structure.  It ends because calls nest no deeper than the limit (`Config.Reaches.depth_le`):
its steps come to an end, and no bound on rounds has a part in it (`loopFree_ends`).
-/
namespace Loot

open Config

/-! ## Calls nest no deeper than the limit -/

theorem depth_of_levelled {α : Type} {x : Run α} (hx : Run.Keeps Machine.Levelled x) (ret : α → Control)
    (k : List Frame) (m : Machine) : (outcome ret k (x m)).machine.scope.depth = m.scope.depth := by
  have hlevel := hx m
  unfold Run.left at hlevel
  unfold Scope.depth
  cases hxm : x m with
  | ok a m' =>
    rw [hxm] at hlevel
    exact congrArg List.length hlevel.saved
  | error stop m' =>
    rw [hxm] at hlevel
    exact congrArg List.length hlevel.saved

theorem keeps_builtin_levelled (b : Builtin) (name : Token) (values : List Value) :
    Run.Keeps Machine.Levelled (b.run name (values.map pure)) := by
  refine (keeps_builtin Machine.rolledBack_outward b name (fun a ha => ?_)).mono (fun _ _ h => h.levelled)
  obtain ⟨v, -, rfl⟩ := List.mem_map.1 ha
  exact Run.keeps_pure Machine.rolledBack_outward.toChained v

theorem Machine.depth_back (m : Machine) : m.back.scope.depth ≤ m.scope.depth := by
  unfold Machine.back Scope.pop? Scope.depth
  cases hsaved : m.scope.saved with
  | nil => simp [hsaved]
  | cons vars saved => simp

section Depth

variable {limit : Nat}

theorem depth_ofExpr (k : List Frame) (m : Machine) (e : Expr) :
    (ofExpr k m e).machine.scope.depth = m.scope.depth := by
  have hC := Machine.levelled_rebinding.toChained
  cases e with
  | literal token => exact depth_of_levelled (keeps_literalValue hC token) _ k m
  | «variable» name => exact depth_of_levelled (Run.keeps_lookup hC name) _ k m
  | unary op e => rfl
  | binary l op r => rfl
  | call name es =>
    simp only [ofExpr]
    split
    · rfl
    split
    · rfl
    split
    · rfl
    · rfl

/-- Only here a table is saved, and the limit is looked at before. -/
theorem depth_ofCall (name : Token) (done : List Value) (k : List Frame) {m : Machine} (hm : m.scope.depth ≤ limit)
    (callee : Callee) : (ofCall limit name done k m callee).machine.scope.depth ≤ limit := by
  cases callee with
  | builtin b =>
    have hdepth := depth_of_levelled (keeps_builtin_levelled b name done.reverse) .value k m
    exact Nat.le_trans (Nat.le_of_eq hdepth) hm
  | function f =>
    simp only [ofCall]
    split
    · exact hm
    · rename_i hlt
      have hpush : (Scope.push m.scope).depth = m.scope.depth + 1 := rfl
      rw [depth_bindParams, hpush]
      omega

theorem depth_ofStmt (k : List Frame) (m : Machine) (s : Stmt) :
    (ofStmt k m s).machine.scope.depth = m.scope.depth := by
  have hstep := fun name delta => depth_of_levelled (keeps_step Machine.levelled_rebinding name delta) .flow k m
  match s with
  | .increase name => exact hstep name 1
  | .decrease name => exact hstep name (-1)
  | .declare name none | .declare name (some e) | .give name none | .give name (some e) => rfl
  | .expression _ | .block _ | .branch _ _ _ | .loop _ _ | .define _ _ _ | .assign _ _ | .finish _ => rfl

theorem depth_ofValue {v : Value} {k : List Frame} {m : Machine} {frame : Frame} {c : Config}
    (h : ofValue v k m frame = some c) : c.machine.scope.depth = m.scope.depth := by
  have hC := Machine.levelled_rebinding.toChained
  cases frame with
  | negate op =>
    cases h
    exact depth_of_levelled (Run.keeps_ofExcept hC _) .value k m
  | operate op l =>
    cases h
    exact depth_of_levelled (Run.keeps_operate hC _ l v _) .value k m
  | choose body rest =>
    cases h
    split <;> rfl
  | test condition body =>
    cases h
    split <;> rfl
  | right _ _ | argument _ _ _ _ | ignore | assign _ | give =>
    cases h
    rfl
  | leave | again _ _ | next _ => cases h

theorem depth_ofFlow {k : List Frame} {m : Machine} {frame : Frame} {flow : Flow} {c : Config}
    (h : ofFlow k m frame flow = some c) : c.machine.scope.depth ≤ m.scope.depth := by
  cases frame <;> cases flow <;> cases h
  all_goals first
    | exact Nat.le_refl _
    | exact m.depth_back

theorem depth_ofStop (stop : Stop) (k : List Frame) (m : Machine) (frame : Frame) :
    (ofStop stop k m frame).machine.scope.depth ≤ m.scope.depth := by
  cases frame with
  | leave => exact m.depth_back
  | _ => exact Nat.le_refl _

/-- **A step keeps within the limit.** -/
theorem Config.depth_next {c c' : Config} (h : c.next limit = some c') (hc : c.machine.scope.depth ≤ limit) :
    c'.machine.scope.depth ≤ limit := by
  obtain ⟨control, k, m⟩ := c
  cases control with
  | eval e =>
    cases h
    exact Nat.le_trans (Nat.le_of_eq (depth_ofExpr k m e)) hc
  | args callee name done es =>
    cases es with
    | nil =>
      cases h
      exact depth_ofCall name done k hc callee
    | cons e es =>
      cases h
      exact hc
  | exec s =>
    cases h
    exact Nat.le_trans (Nat.le_of_eq (depth_ofStmt k m s)) hc
  | execAll ss =>
    cases ss <;> cases h <;> exact hc
  | clauses ch =>
    cases ch <;> cases h <;> exact hc
  | value v =>
    cases k with
    | nil => cases h
    | cons frame k => exact Nat.le_trans (Nat.le_of_eq (depth_ofValue h)) hc
  | flow f =>
    cases k with
    | nil => cases h
    | cons frame k => exact Nat.le_trans (depth_ofFlow h) hc
  | stop stop =>
    cases k with
    | nil => cases h
    | cons frame k =>
      cases h
      exact Nat.le_trans (depth_ofStop stop k m frame) hc

theorem Config.Reaches.depth_le {c c' : Config} (h : Reaches limit c c') (hc : c.machine.scope.depth ≤ limit) :
    c'.machine.scope.depth ≤ limit := by
  induction h with
  | refl => exact hc
  | tail _ hstep ih => exact depth_next hstep ih

end Depth

/-! ## Where the steps end -/

theorem Config.Reaches.eq_of_final {limit : Nat} {c a b : Config} (ha : Reaches limit c a) (hb : Reaches limit c b)
    (hfa : a.next limit = none) (hfb : b.next limit = none) : a = b := by
  have hunique : Relator.RightUnique fun c c' : Config => c.next limit = some c' :=
    fun _ _ _ h h' => Option.some.inj (h.symm.trans h')
  have hstay : ∀ {x y : Config}, x.next limit = none → Reaches limit x y → x = y := by
    intro x y hx hxy
    rcases hxy.cases_head with heq | ⟨z, hz, -⟩
    · exact heq
    · rw [hx] at hz
      cases hz
  rcases Relation.ReflTransGen.total_of_right_unique hunique ha hb with hab | hba
  · exact hstay hfa hab
  · exact (hstay hfb hba).symm

theorem outcome_injective {r r' : EStateM.Result Stop Machine Flow} (h : outcome .flow [] r = outcome .flow [] r') :
    r = r' := by
  cases r <;> cases r' <;> cases h <;> rfl

/-! ## Programs without loops -/

/-- No loop stands anywhere in the statements: the keyword of loops is a leaf of every loop and of nothing else. -/
def Stmt.LoopFree (ss : List Stmt) : Prop := .plain .farm ∉ Stmt.leavesAll ss

theorem Stmt.LoopFree.isMadeOf {ss : List Stmt} (h : Stmt.LoopFree ss) :
    ∀ l ∈ Stmt.leavesAll ss, l.IsMadeOf (fun _ => True) False := by
  intro l hl
  cases l with
  | held t => exact trivial
  | plain kind =>
    rintro rfl
    exact h hl

theorem finishes_of_loopFree {program : List Stmt} (hprogram : Stmt.LoopFree program) {m : Machine}
    (hm : ∀ name f, m.functions.get? name = some f → Stmt.LoopFree f.body) (limits : Limits) :
    Finishes (runProgram limits program m) := by
  have hfunctions : m.FunctionsOf (fun _ => True) False := fun name f hf =>
    ⟨f, List.forall₂_same.2 (fun _ _ => ⟨rfl, trivial⟩),
      Stmt.allAlike_self (fun _ ht => ⟨rfl, ht⟩) (hm name f hf).isMadeOf⟩
  have hends := runProgram_stops limits hprogram.isMadeOf hfunctions
  intro m' hrun
  rw [hrun] at hends
  cases hends.1 with
  | outOfRounds h => exact h

/-- **Programs without loops end.**  On a machine with functions without loops, within the limit of calls, the steps of
a program without loops come to an end, where nothing is left to do: it completed, or it stopped, and not for a want
of rounds.  That is its outcome whatever number of rounds a loop might take.  On the way no more calls are open at a
time than the limit. -/
theorem loopFree_ends (limit : Nat) {program : List Stmt} (hprogram : Stmt.LoopFree program) {m : Machine}
    (hm : ∀ name f, m.functions.get? name = some f → Stmt.LoopFree f.body) (hdepth : m.scope.depth ≤ limit) :
    ∃ result : EStateM.Result Stop Machine Flow,
      Reaches limit (start program m) (outcome .flow [] result) ∧ (outcome .flow [] result).next limit = none ∧
      (∀ m', result ≠ .error .outOfRounds m') ∧ (∀ rounds, runProgram ⟨limit, rounds⟩ program m = result) ∧
      ∀ c, Reaches limit (start program m) c → c.machine.scope.depth ≤ limit := by
  have hfin := finishes_of_loopFree hprogram hm
  have hreaches : ∀ rounds, Reaches limit (start program m) (outcome .flow [] (runProgram ⟨limit, rounds⟩ program m)) :=
    fun rounds => runProgram_reaches ⟨limit, rounds⟩ program m (hfin _)
  refine ⟨runProgram ⟨limit, 0⟩ program m, hreaches 0, next_outcome limit _, hfin _, fun rounds => ?_,
    fun c hc => hc.depth_le hdepth⟩
  exact outcome_injective
    ((hreaches rounds).eq_of_final (hreaches 0) (next_outcome limit _) (next_outcome limit _))

/-- A call of `f`. -/
def plunge : Stmt := .expression (.call ⟨.identifier, ['f'], some 1⟩ [])

/-- A machine whose function `f` declares itself anew and calls itself. -/
def plunging : Machine where
  functions := ⟨[(['f'], ⟨[], [.define ⟨.identifier, ['f'], some 1⟩ [] [plunge, plunge], plunge]⟩)]⟩

/-- The calls go down to the limit, and the steps end there. -/
theorem loopFree_ends_at_depth_limit : ∃ m', Reaches 3 (start [plunge] plunging)
    (outcome .flow [] (.error (.fault { cause := .callDepth ['f'] 3, line := some 1 }) m')) := by
  have hprogram : Stmt.LoopFree [plunge] := by
    unfold Stmt.LoopFree
    decide
  have hm : ∀ name f, plunging.functions.get? name = some f → Stmt.LoopFree f.body := by
    intro name f hf
    have hmem : (name, f) ∈ plunging.functions.entries := mem_of_lookup hf
    cases List.mem_singleton.1 hmem
    unfold Stmt.LoopFree
    decide
  obtain ⟨result, hreaches, -, -, hrun, -⟩ := loopFree_ends 3 hprogram hm (Nat.zero_le _)
  rw [← hrun 0] at hreaches
  exact ⟨_, hreaches⟩

end Loot
