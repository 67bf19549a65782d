import Loot.Proofs.Machine.Rounds
/-!
# The limit of calls

How many calls may be open at a time is a parameter of a run, and it shows only when it is met.  A run that does not
stop at one limit is the same run at every higher limit (`runProgram_widens`), and it stops at the limit at the very
call with which steps without a limit would go beyond it (`depth_limit_exact`).
-/
namespace Loot

open Config

/-! ## Higher limits -/

/-- The outcome is the fault that too many calls are open. -/
def Exceeds {α : Type} (r : EStateM.Result Stop Machine α) : Prop :=
  ∃ fault m, r = .error (.fault fault) m ∧ fault.cause.isDepth = true

/-- **The second action does what the first does**, unless that stops because too many calls are open. -/
def Run.Widens {α : Type} (x y : Run α) : Prop := ∀ m, Exceeds (x m) ∨ y m = x m

theorem Run.Widens.refl {α : Type} (x : Run α) : x.Widens x := fun _ => .inr rfl

theorem Run.Widens.bind {α β : Type} {x y : Run α} {f g : α → Run β} (hxy : x.Widens y)
    (hfg : ∀ a, (f a).Widens (g a)) : (x >>= f).Widens (y >>= g) := by
  intro m
  simp only [Bind.bind, EStateM.bind]
  rcases hxy m with ⟨fault, m', hx, hdepth⟩ | heq
  · rw [hx]
    exact .inl ⟨fault, m', rfl, hdepth⟩
  · rw [heq]
    cases x m with
    | ok a m' => exact hfg a m'
    | error stop m' => exact .inr rfl

theorem Run.Widens.rolledBack {α : Type} {x y : Run α} (hxy : x.Widens y) :
    (Run.rolledBack x).Widens (Run.rolledBack y) := by
  intro m
  unfold Run.rolledBack
  rcases hxy { m with scope := m.scope.push } with ⟨fault, m', hx, hdepth⟩ | heq
  · rw [hx]
    exact .inl ⟨fault, _, rfl, hdepth⟩
  · rw [heq]
    exact .inr rfl

/-- A call widens if its arguments do. -/
def Caller.Widens (c c' : Caller) : Prop := ∀ (name : Token) {args args' : List (Run Value)},
  List.Forall₂ Run.Widens args args' → (c name args).Widens (c' name args')

section Programs

open Run

variable {c c' : Caller}

mutual

theorem Expr.widens_eval (hc : c.Widens c') : ∀ e : Expr, (e.eval c).Widens (e.eval c')
  | .literal token => by
    rw [Expr.eval, Expr.eval]
    exact .refl _
  | .variable name => by
    rw [Expr.eval, Expr.eval]
    exact .refl _
  | .unary op e => by
    rw [Expr.eval, Expr.eval]
    exact (Expr.widens_eval hc e).bind (fun _ => .refl _)
  | .binary l op r => by
    rw [Expr.eval, Expr.eval]
    exact (Expr.widens_eval hc l).bind (fun _ => (Expr.widens_eval hc r).bind (fun _ => .refl _))
  | .call name args => by
    rw [Expr.eval, Expr.eval]
    exact hc name (Expr.widens_evals hc args)

theorem Expr.widens_evals (hc : c.Widens c') : ∀ es : List Expr,
    List.Forall₂ Run.Widens (Expr.evals c es) (Expr.evals c' es)
  | [] => by
    rw [Expr.evals, Expr.evals]
    exact .nil
  | e :: es => by
    rw [Expr.evals, Expr.evals]
    exact .cons (Expr.widens_eval hc e) (Expr.widens_evals hc es)

end

theorem repeatWhile_widens {x x' : Run Value} {y y' : Run Flow} (hx : x.Widens x') (hy : y.Widens y') :
    ∀ n, (repeatWhile x y n).Widens (repeatWhile x' y' n)
  | 0 => .refl _
  | n + 1 => by
    refine hx.bind (fun v => ?_)
    split
    · refine hy.bind (fun flow => ?_)
      cases flow with
      | normal => exact repeatWhile_widens hx hy n
      | returned v => exact .refl _
    · exact .refl _

mutual

theorem Stmt.widens_exec (hc : c.Widens c') (rounds : Nat) : ∀ s : Stmt, (s.exec c rounds).Widens (s.exec c' rounds)
  | .expression e | .declare name (some e) | .give _ (some e) | .assign target e => by
    rw [Stmt.exec, Stmt.exec]
    exact (Expr.widens_eval hc e).bind (fun _ => .refl _)
  | .declare name none | .define name params body | .give _ none | .increase name | .decrease name | .finish _ => by
    rw [Stmt.exec, Stmt.exec]
    exact .refl _
  | .block body => by
    rw [Stmt.exec, Stmt.exec]
    exact Stmt.widens_execAll hc rounds body
  | .branch condition body rest => by
    rw [Stmt.exec, Stmt.exec]
    refine (Expr.widens_eval hc condition).bind (fun v => ?_)
    split
    · exact Stmt.widens_exec hc rounds body
    · exact Chain.widens_exec hc rounds rest
  | .loop condition body => by
    rw [Stmt.exec, Stmt.exec]
    exact repeatWhile_widens (Expr.widens_eval hc condition) (Stmt.widens_exec hc rounds body) rounds

theorem Stmt.widens_execAll (hc : c.Widens c') (rounds : Nat) : ∀ ss : List Stmt,
    (Stmt.execAll c rounds ss).Widens (Stmt.execAll c' rounds ss)
  | [] => by
    rw [Stmt.execAll, Stmt.execAll]
    exact .refl _
  | s :: ss => by
    rw [Stmt.execAll, Stmt.execAll]
    refine (Stmt.widens_exec hc rounds s).bind (fun flow => ?_)
    cases flow with
    | normal => exact Stmt.widens_execAll hc rounds ss
    | returned v => exact .refl _

theorem Chain.widens_exec (hc : c.Widens c') (rounds : Nat) : ∀ ch : Chain,
    (ch.exec c rounds).Widens (ch.exec c' rounds)
  | .done => by
    rw [Chain.exec, Chain.exec]
    exact .refl _
  | .otherwise body => by
    rw [Chain.exec, Chain.exec]
    exact Stmt.widens_exec hc rounds body
  | .retry condition body rest => by
    rw [Chain.exec, Chain.exec]
    refine (Expr.widens_eval hc condition).bind (fun v => ?_)
    split
    · exact Stmt.widens_exec hc rounds body
    · exact Chain.widens_exec hc rounds rest

end

end Programs

theorem inOrder_widens {args args' : List (Run Value)} (h : List.Forall₂ Run.Widens args args') :
    (inOrder args).Widens (inOrder args') := by
  induction h with
  | nil => exact .refl _
  | cons h _ ih => exact h.bind (fun _ => ih.bind (fun _ => .refl _))

theorem callWith_widens {enter enter' : Token → Function → List Value → Run Value}
    (henter : ∀ name f values, (enter name f values).Widens (enter' name f values)) :
    (callWith enter).Widens (callWith enter') := by
  intro name args args' hargs
  cases hb : Builtin.ofName? name.lexeme with
  | some b =>
    rw [callWith_inOrder enter hb, callWith_inOrder enter' hb]
    exact (inOrder_widens (List.forall₂_take _ hargs)).bind (fun _ => .refl _)
  | none =>
    rw [callWith_of_not_builtin enter hb, callWith_of_not_builtin enter' hb]
    refine Run.Widens.bind (.refl _) (fun m => ?_)
    cases m.functions.get? name.lexeme with
    | none => exact .refl _
    | some f =>
      rw [callFound, callFound, ← hargs.length_eq]
      split
      · exact .refl _
      · exact (inOrder_widens hargs).bind (fun values => henter name f values)

/-- With more room for calls, entering a function does the same unless there was no room. -/
theorem enter_widens (limit limit' rounds extra : Nat) : ∀ (room : Nat) (name : Token) (f : Function)
    (values : List Value),
      (enter ⟨limit, rounds⟩ room name f values).Widens (enter ⟨limit', rounds⟩ (room + extra) name f values)
  | 0, name, f, values => fun m => .inl ⟨_, m, rfl, rfl⟩
  | room + 1, name, f, values => by
    -- the calls of the body have less room on both sides, and the same difference between them
    have hcall := callWith_widens (enter_widens limit limit' rounds extra room)
    rw [Nat.succ_add, enter_succ, enter_succ]
    refine .rolledBack (.bind (.refl _) (fun _ => ?_))
    refine .bind (Stmt.widens_execAll hcall rounds f.body) (fun flow => ?_)
    cases flow <;> exact .refl _

/-- **A run that does not exceed one limit is the same at every higher limit**, out of rounds or not. -/
theorem runProgram_widens {limit limit' : Nat} (hlimit : limit ≤ limit') (rounds : Nat) (program : List Stmt)
    {m : Machine} (hdepth : m.scope.depth ≤ limit) : Exceeds (runProgram ⟨limit, rounds⟩ program m) ∨
      runProgram ⟨limit', rounds⟩ program m = runProgram ⟨limit, rounds⟩ program m := by
  have hroom : limit' - m.scope.depth = limit - m.scope.depth + (limit' - limit) := by omega
  have hcall := callWith_widens (enter_widens limit limit' rounds (limit' - limit) (limit - m.scope.depth))
  have hrun := Stmt.widens_execAll hcall rounds program m
  rw [← hroom] at hrun
  exact hrun

/-! ## Steps without a limit -/

/-- The next step without a limit of calls: under one that the open calls do not meet. -/
def Config.free (c : Config) : Option Config := c.next (c.machine.scope.depth + 1)

/-- The second comes from the first in finitely many steps without a limit. -/
def Config.FreeReaches : Config → Config → Prop := Relation.ReflTransGen fun c c' => c.free = some c'

/-- The second comes from the first in steps without a limit, and after none of them more than `limit` calls are
open. -/
def Config.FreeWithin (limit : Nat) : Config → Config → Prop :=
  Relation.ReflTransGen fun c c' => c.free = some c' ∧ c'.machine.scope.depth ≤ limit

/-- A function is about to be entered by a call of that name, the arguments evaluated. -/
inductive Config.Enters : Config → Token → Prop
  | mk (f : Function) (name : Token) (done : List Value) (k : List Frame) (m : Machine) :
      Config.Enters ⟨.args (.function f) name done [], k, m⟩ name

/-- **The call that is one too many**: without a limit, `d` comes from `c` with never more than `limit` calls open, and
there, while `limit` calls are open, a function is about to be entered. -/
structure Config.Overruns (limit : Nat) (c d : Config) (name : Token) : Prop where
  within : FreeWithin limit c d
  enters : d.Enters name
  full : d.machine.scope.depth = limit

/-- The fault of a call beyond the limit. -/
def Fault.tooDeep (limit : Nat) (name : Token) : Fault := { cause := .callDepth name.lexeme limit, line := name.line }

section Free

variable {limit : Nat} {c c' d : Config} {name : Token}

theorem Config.Enters.next_full (h : c.Enters name) (hlimit : limit ≤ c.machine.scope.depth) :
    c.next limit = some ⟨.stop (.fault (.tooDeep limit name)), c.stack, c.machine⟩ := by
  obtain ⟨f, name, done, k, m⟩ := h
  simp only [next, ofCall, if_pos hlimit]
  rfl

theorem Config.Enters.free (h : c.Enters name) :
    ∃ c', c.free = some c' ∧ c'.machine.scope.depth = c.machine.scope.depth + 1 := by
  obtain ⟨f, name, done, k, m⟩ := h
  refine ⟨_, rfl, ?_⟩
  simp only [ofCall, if_neg (Nat.not_succ_le_self m.scope.depth), depth_bindParams]
  rfl

/-- Only where a function is entered a step looks at the limit. -/
theorem Config.next_eq_free (limit : Nat) (c : Config) :
    c.next limit = c.free ∨ limit ≤ c.machine.scope.depth ∧ ∃ name, c.Enters name := by
  obtain ⟨control, k, m⟩ := c
  unfold Config.free
  cases control with
  | args callee name done es =>
    cases es with
    | cons e es => exact .inl rfl
    | nil =>
      cases callee with
      | builtin b => exact .inl rfl
      | function f =>
        by_cases hlimit : limit ≤ m.scope.depth
        · exact .inr ⟨hlimit, name, .mk f name done k m⟩
        · refine .inl ?_
          simp only [next, ofCall, if_neg hlimit, if_neg (Nat.not_succ_le_self m.scope.depth)]
  | eval e => exact .inl rfl
  | exec s => exact .inl rfl
  | execAll ss => cases ss <;> exact .inl rfl
  | clauses ch => cases ch <;> exact .inl rfl
  | value v => cases k <;> exact .inl rfl
  | flow f => cases k <;> exact .inl rfl
  | stop s => cases k <;> exact .inl rfl

/-- Only the step that enters a function opens a call. -/
theorem Config.depth_free (h : c.free = some c') (hd : ∀ name, ¬ c.Enters name) :
    c'.machine.scope.depth ≤ c.machine.scope.depth := by
  rcases c.next_eq_free c.machine.scope.depth with heq | ⟨-, name, henters⟩
  · rw [h] at heq
    exact depth_next heq (Nat.le_refl _)
  · exact absurd henters (hd name)

theorem not_limit_of_outcome {α : Type} (ret : α → Control) {k : List Frame} {m : Machine} {x : Run α} {stop : Stop}
    (hx : x.Unhindered) (hret : ∀ a, ret a ≠ .stop stop) (h : (outcome ret k (x m)).control = .stop stop) :
    stop.isLimit = false := by
  cases hxm : x m with
  | ok a m' =>
    rw [hxm] at h
    exact absurd h (hret a)
  | error stop' m' =>
    rw [hxm] at h
    cases h
    exact hx m _ _ hxm

theorem not_limit_ofExpr {k : List Frame} {m : Machine} {e : Expr} {stop : Stop}
    (h : (ofExpr k m e).control = .stop stop) : stop.isLimit = false := by
  cases e with
  | literal token => exact not_limit_of_outcome .value (unhindered_literalValue token) (fun _ => nofun) h
  | «variable» name => exact not_limit_of_outcome .value (unhindered_lookup name) (fun _ => nofun) h
  | unary op e => cases h
  | binary l op r => cases h
  | call name es =>
    simp only [ofExpr] at h
    split at h
    · cases h
    split at h
    · cases h
      rfl
    split at h
    · cases h
      rfl
    · cases h

theorem not_limit_ofCall {name : Token} {done : List Value} {k : List Frame} {m : Machine} {callee : Callee}
    {stop : Stop} (h : (ofCall (m.scope.depth + 1) name done k m callee).control = .stop stop) :
    stop.isLimit = false := by
  cases callee with
  | builtin b => exact not_limit_of_outcome .value (unhindered_builtin_values b name _) (fun _ => nofun) h
  | function f =>
    simp only [ofCall, if_neg (Nat.not_succ_le_self m.scope.depth)] at h
    cases h

theorem not_limit_ofStmt {k : List Frame} {m : Machine} {s : Stmt} {stop : Stop}
    (h : (ofStmt k m s).control = .stop stop) : stop.isLimit = false := by
  match s with
  | .increase name => exact not_limit_of_outcome .flow (unhindered_step name 1) (fun _ => nofun) h
  | .decrease name => exact not_limit_of_outcome .flow (unhindered_step name (-1)) (fun _ => nofun) h
  | .declare name none | .declare name (some e) | .give name none | .give name (some e) => cases h
  | .expression _ | .block _ | .branch _ _ _ | .loop _ _ | .define _ _ _ | .assign _ _ | .finish _ => cases h

theorem not_limit_ofValue {v : Value} {k : List Frame} {m : Machine} {frame : Frame} {stop : Stop}
    (hc : ofValue v k m frame = some c) (h : c.control = .stop stop) : stop.isLimit = false := by
  cases frame with
  | negate op =>
    cases hc
    exact not_limit_of_outcome .value (unhindered_negated v _) (fun _ => nofun) h
  | operate op l =>
    cases hc
    exact not_limit_of_outcome .value (unhindered_operate _ l v _) (fun _ => nofun) h
  | choose body rest =>
    cases hc
    split at h <;> cases h
  | test condition body =>
    cases hc
    split at h <;> cases h
  | right _ _ | argument _ _ _ _ | ignore | assign _ | give =>
    cases hc
    cases h
  | leave | again _ _ | next _ => cases hc

/-- **Without a limit of calls no step stops for one.** -/
theorem Config.not_limit_free {stop : Stop} (hfree : c.free = some c') (h : c'.control = .stop stop)
    (hc : ∀ s, c.control = .stop s → s.isLimit = false) : stop.isLimit = false := by
  obtain ⟨control, k, m⟩ := c
  cases control with
  | eval e =>
    cases hfree
    exact not_limit_ofExpr h
  | args callee name done es =>
    cases es with
    | nil =>
      cases hfree
      exact not_limit_ofCall h
    | cons e es =>
      cases hfree
      cases h
  | exec s =>
    cases hfree
    exact not_limit_ofStmt h
  | execAll ss => cases ss <;> cases hfree <;> cases h
  | clauses ch => cases ch <;> cases hfree <;> cases h
  | value v =>
    cases k with
    | nil => cases hfree
    | cons frame k => exact not_limit_ofValue hfree h
  | flow f =>
    cases k with
    | nil => cases hfree
    | cons frame k => cases frame <;> cases f <;> cases hfree <;> cases h
  | stop s =>
    have hs := hc s rfl
    cases k with
    | nil => cases hfree
    | cons frame k => cases frame <;> cases hfree <;> cases h <;> exact hs

theorem Config.FreeWithin.depth_le (h : FreeWithin limit c c') (hc : c.machine.scope.depth ≤ limit) :
    c'.machine.scope.depth ≤ limit := by
  induction h with
  | refl => exact hc
  | tail _ hstep _ => exact hstep.2

/-- Steps that keep within a limit are steps under that limit. -/
theorem Config.FreeWithin.reaches (h : FreeWithin limit c c') : Reaches limit c c' := by
  refine Relation.ReflTransGen.mono (fun a b hstep => ?_) c c' h
  rcases a.next_eq_free limit with heq | ⟨hfull, name, henters⟩
  · exact heq.trans hstep.1
  · obtain ⟨b', hb', hdepth⟩ := henters.free
    rw [hstep.1] at hb'
    cases hb'
    have hwithin := hstep.2
    omega

/-- Without a limit, the steps keep within it or come to a call too many. -/
theorem Config.FreeReaches.within_or_overruns (h : FreeReaches c c') (hc : c.machine.scope.depth ≤ limit) :
    FreeWithin limit c c' ∨ ∃ d name, Overruns limit c d name := by
  induction h with
  | refl => exact .inl .refl
  | @tail a b _ hstep ih =>
    rcases ih with hwithin | hover
    · have ha := hwithin.depth_le hc
      by_cases hb : b.machine.scope.depth ≤ limit
      · exact .inl (hwithin.tail ⟨hstep, hb⟩)
      -- the step opened a call, so it entered a function, and it did so from the limit itself
      · rcases Classical.em (∃ name, a.Enters name) with ⟨name, henters⟩ | hnot
        · obtain ⟨b', hb', hdepth⟩ := henters.free
          rw [hstep] at hb'
          cases hb'
          exact .inr ⟨a, name, hwithin, henters, by omega⟩
        · have hdepth := depth_free hstep (fun name hname => hnot ⟨name, hname⟩)
          omega
    · exact .inr hover

/-- Under a limit, the steps are those without it, and none stops for a limit, or they come to a call too many. -/
theorem Config.Reaches.within_or_overruns (h : Reaches limit c c') (hc : c.machine.scope.depth ≤ limit)
    (hstop : ∀ s, c.control = .stop s → s.isLimit = false) :
    (FreeWithin limit c c' ∧ ∀ s, c'.control = .stop s → s.isLimit = false) ∨ ∃ d name, Overruns limit c d name := by
  induction h with
  | refl => exact .inl ⟨.refl, hstop⟩
  | @tail a b _ hstep ih =>
    rcases ih with ⟨hwithin, ha⟩ | hover
    · rcases a.next_eq_free limit with heq | ⟨hfull, name, henters⟩
      · have hfree : a.free = some b := heq.symm.trans hstep
        have hb := depth_next hstep (hwithin.depth_le hc)
        exact .inl ⟨hwithin.tail ⟨hfree, hb⟩, fun s hs => not_limit_free hfree hs ha⟩
      · exact .inr ⟨a, name, hwithin, henters, Nat.le_antisymm (hwithin.depth_le hc) hfull⟩
    · exact .inr hover

/-- A stop drops all that was to be done, and only the variables and the saved tables change on the way. -/
theorem Config.reaches_stopped (limit : Nat) (stop : Stop) : ∀ (k : List Frame) (m : Machine),
    ∃ scope, Reaches limit ⟨.stop stop, k, m⟩ ⟨.stop stop, [], { m with scope }⟩
  | [], m => ⟨m.scope, .refl⟩
  | frame :: k, m => by
    obtain ⟨scope, hstep⟩ : ∃ scope, ofStop stop k m frame = ⟨.stop stop, k, { m with scope }⟩ := by
      cases frame with
      | leave => exact ⟨_, rfl⟩
      | _ => exact ⟨m.scope, rfl⟩
    obtain ⟨scope', hrest⟩ := reaches_stopped limit stop k { m with scope }
    exact ⟨scope', .head (congrArg some hstep) hrest⟩

/-- **A call too many ends the run**: under the limit, the steps go to that call, stop there with its fault, and leave
the machine as it was there but for the variables. -/
theorem Config.Overruns.reaches (h : Overruns limit c d name) :
    ∃ scope, Reaches limit c ⟨.stop (.fault (.tooDeep limit name)), [], { d.machine with scope }⟩ := by
  have hstep := h.enters.next_full (Nat.le_of_eq h.full.symm)
  obtain ⟨scope, hrest⟩ := reaches_stopped limit (.fault (.tooDeep limit name)) d.stack d.machine
  exact ⟨scope, (h.within.reaches.tail hstep).trans hrest⟩

theorem Config.FreeWithin.freeReaches (h : FreeWithin limit c c') : FreeReaches c c' :=
  Relation.ReflTransGen.mono (fun _ _ hstep => hstep.1) c c' h

/-- There is a call too many exactly if without a limit one more call than it allows would be open at some time. -/
theorem Config.overruns_iff (hc : c.machine.scope.depth ≤ limit) :
    (∃ d name, Overruns limit c d name) ↔ ∃ d, FreeReaches c d ∧ d.machine.scope.depth = limit + 1 := by
  constructor
  · rintro ⟨d, name, hwithin, henters, hfull⟩
    obtain ⟨d', hd', hdepth⟩ := henters.free
    exact ⟨d', hwithin.freeReaches.tail hd', by omega⟩
  · rintro ⟨d, hreach, hdepth⟩
    rcases hreach.within_or_overruns hc with hwithin | hover
    · have hd := hwithin.depth_le hc
      omega
    · exact hover

end Free

/-! ## Runs and their limit -/

/-- A run that exceeds the limit came to a call too many, and the fault is that of this call. -/
theorem overruns_of_exceeds {limit rounds : Nat} {program : List Stmt} {m m' : Machine} {fault : Fault}
    (hdepth : m.scope.depth ≤ limit) (hrun : runProgram ⟨limit, rounds⟩ program m = .error (.fault fault) m')
    (hfault : fault.cause.isDepth = true) : ∃ d name scope, Overruns limit (start program m) d name ∧
      fault = .tooDeep limit name ∧ m' = { d.machine with scope } := by
  have hfin : Finishes (runProgram ⟨limit, rounds⟩ program m) := by
    rw [hrun]
    exact fun _ h => nomatch h
  have hreaches := runProgram_reaches ⟨limit, rounds⟩ program m hfin
  rw [hrun] at hreaches
  rcases hreaches.within_or_overruns hdepth (fun _ h => nomatch h) with ⟨-, hnot⟩ | ⟨d, name, hover⟩
  · have hlimit := hnot _ rfl
    rw [Stop.isLimit, hfault] at hlimit
    cases hlimit
  -- the steps from the call too many end as well, and steps have one end only
  · obtain ⟨scope, hstopped⟩ := hover.reaches
    have heq := hreaches.eq_of_final hstopped rfl rfl
    cases heq
    exact ⟨d, name, scope, hover, rfl, rfl⟩

/-- A call too many ends every run with rounds enough. -/
theorem Config.Overruns.runProgram_eq {limit : Nat} {program : List Stmt} {m : Machine} {d : Config} {name : Token}
    (h : Overruns limit (start program m) d name) : ∃ n scope, ∀ rounds, n ≤ rounds →
      runProgram ⟨limit, rounds⟩ program m = .error (.fault (.tooDeep limit name)) { d.machine with scope } := by
  obtain ⟨scope, hstopped⟩ := h.reaches
  obtain ⟨n, hn⟩ := runProgram_of_reaches hstopped rfl
  exact ⟨n, scope, fun rounds hrounds => outcome_injective (hn rounds hrounds)⟩

/-- **The limit of calls is exact, and otherwise it does not show.**  Take any limit, and a program on a machine where
no more calls are open than that.  Then at no point of its run are more calls open.  A run that does not end with the
fault that too many calls are open is the same run at every higher limit, with the same outcome and the same machine.
A run ends with that fault exactly if steps without a limit would have one more call open at some time.  The fault names
the call that would be the first to go beyond the limit and its line, and the machine is the one that was there when the
arguments of this call were evaluated, but for the variables; and every run with rounds enough for its loops comes to
it. -/
theorem depth_limit_exact (limit : Nat) (program : List Stmt) {m : Machine} (hdepth : m.scope.depth ≤ limit) :
    (∀ c, Reaches limit (start program m) c → c.machine.scope.depth ≤ limit) ∧
    (∀ limit' rounds, limit ≤ limit' → ¬ Exceeds (runProgram ⟨limit, rounds⟩ program m) →
      runProgram ⟨limit', rounds⟩ program m = runProgram ⟨limit, rounds⟩ program m) ∧
    ((∃ rounds, Exceeds (runProgram ⟨limit, rounds⟩ program m)) ↔
      ∃ c, FreeReaches (start program m) c ∧ c.machine.scope.depth = limit + 1) ∧
    (∀ rounds fault m', runProgram ⟨limit, rounds⟩ program m = .error (.fault fault) m' → fault.cause.isDepth = true →
      ∃ d name scope, Overruns limit (start program m) d name ∧ fault = .tooDeep limit name ∧
        m' = { d.machine with scope }) ∧
    ∀ d name, Overruns limit (start program m) d name → ∃ n scope, ∀ rounds, n ≤ rounds →
      runProgram ⟨limit, rounds⟩ program m = .error (.fault (.tooDeep limit name)) { d.machine with scope } := by
  refine ⟨fun c hc => hc.depth_le hdepth, fun limit' rounds hlimit hnot => ?_, ?_,
    fun _ _ _ hrun hfault => overruns_of_exceeds hdepth hrun hfault, fun _ _ hover => hover.runProgram_eq⟩
  · exact (runProgram_widens hlimit rounds program hdepth).resolve_left hnot
  · rw [← overruns_iff (c := start program m) hdepth]
    constructor
    · rintro ⟨rounds, fault, m', hrun, hfault⟩
      obtain ⟨d, name, -, hover, -⟩ := overruns_of_exceeds hdepth hrun hfault
      exact ⟨d, name, hover⟩
    · rintro ⟨d, name, hover⟩
      obtain ⟨n, scope, hn⟩ := hover.runProgram_eq
      exact ⟨n, _, _, hn n (Nat.le_refl n), rfl⟩

/-- A call of `f` whose argument writes. -/
def delve : Stmt :=
  .expression (.call ⟨.identifier, ['f'], some 1⟩
    [.call ⟨.identifier, "taunt".toList, some 1⟩ [.literal ⟨.buffed, [], some 1⟩]])

/-- A machine whose function `f` calls itself. -/
def delving : Machine where
  functions := ⟨[(['f'], ⟨[⟨.identifier, ['x'], some 1⟩], [delve]⟩)]⟩

/-- Two calls may be open, so the third is too many, and what its argument writes is written. -/
theorem depth_limit_exact_third_call :
    ∃ d name, Overruns 2 (start [delve] delving) d name ∧ name.lexeme = ['f'] ∧ d.machine.events.length = 3 := by
  obtain ⟨m', hrun, hevents⟩ : ∃ m', runProgram ⟨2, 1⟩ [delve] delving =
      .error (.fault { cause := .callDepth ['f'] 2, line := some 1 }) m' ∧ m'.events.length = 3 := ⟨_, rfl, rfl⟩
  obtain ⟨d, name, scope, hover, hfault, hm'⟩ :=
    (depth_limit_exact 2 [delve] (show delving.scope.depth ≤ 2 from Nat.zero_le 2)).2.2.2.1 1 _ m' hrun rfl
  refine ⟨d, name, hover, ?_, ?_⟩
  · injection hfault with hcause
    injection hcause with hlexeme
    exact hlexeme.symm
  · rw [hm'] at hevents
    exact hevents

end Loot
