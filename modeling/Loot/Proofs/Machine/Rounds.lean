import Loot.Proofs.Machine.LoopFree
/-!
# Enough rounds

The bound on rounds is there for loops that go on for ever, and it has no other part in a run.  A run that uses up its
rounds has at least as many steps before it (`runProgram_lasts`).  So if the steps of a program come to an end, every
run with more rounds than steps ends where they do (`runProgram_of_reaches`), which is the converse of
`runProgram_reaches`.
-/
namespace Loot

open Config

/-! ## Actions that no limit stops -/

/-- Is the cause that too many calls are open? -/
def Cause.isDepth : Cause → Bool
  | .callDepth _ _ => true
  | _ => false

/-- Is it a limit that stops the run, that of calls or that of rounds? -/
def Stop.isLimit : Stop → Bool
  | .fault f => f.cause.isDepth
  | .outOfRounds => true
  | _ => false

/-- **No limit stops the action**, whatever else does. -/
def Run.Unhindered {α : Type} (x : Run α) : Prop := ∀ m stop m', x m = .error stop m' → stop.isLimit = false

section Unhindered

open Run

variable {α β : Type}

theorem unhindered_pure (a : α) : (pure a : Run α).Unhindered := fun _ _ _ h => nomatch h

theorem unhindered_throw {stop : Stop} (hstop : stop.isLimit = false) : (throw stop : Run α).Unhindered := by
  intro m stop' m' h
  cases h
  exact hstop

theorem unhindered_modify (f : Machine → Machine) : (modify f : Run Unit).Unhindered := fun _ _ _ h => nomatch h

theorem unhindered_bind {x : Run α} {f : α → Run β} (hx : x.Unhindered) (hf : ∀ a, (f a).Unhindered) :
    (x >>= f).Unhindered := by
  intro m stop m' h
  simp only [bind, EStateM.bind] at h
  cases hxm : x m with
  | ok a m₁ =>
    rw [hxm] at h
    exact hf a m₁ stop m' h
  | error stop₁ m₁ =>
    rw [hxm] at h
    cases h
    exact hx m _ _ hxm

theorem unhindered_ofExcept {x : Except Fault α} (hx : ∀ f, x = .error f → f.cause.isDepth = false) :
    (ofExcept x).Unhindered := by
  cases x with
  | ok a => exact unhindered_pure a
  | error f => exact unhindered_throw (hx f rfl)

theorem unhindered_asNumber (v : Value) (line : Line) : (ofExcept (v.asNumber line)).Unhindered := by
  refine unhindered_ofExcept (fun f hf => ?_)
  cases v with
  | string text =>
    simp only [Value.asNumber] at hf
    split at hf
    · cases hf
    · cases hf
      rfl
  | null | boolean _ | number _ => cases hf

theorem unhindered_negated (v : Value) (line : Line) : (ofExcept (v.negated line)).Unhindered := by
  refine unhindered_ofExcept (fun f hf => ?_)
  cases v with
  | number x => cases hf
  | null | boolean _ | string _ =>
    cases hf
    rfl

theorem unhindered_operate (op : Kind) (l r : Value) (line : Line) :
    (operate op l r line).Unhindered := by
  rw [operate_eq]
  refine unhindered_ofExcept (fun f hf => ?_)
  unfold Value.operate at hf
  split at hf
  all_goals
    cases hf
    try rfl

theorem unhindered_literalValue (t : Token) : (literalValue t).Unhindered := by
  unfold literalValue
  split
  · refine unhindered_bind ?_ (fun _ => unhindered_pure _)
    cases Binary64.read t.lexeme with
    | ok x => exact unhindered_pure x
    | error c => exact unhindered_throw rfl
  · exact unhindered_pure _
  · exact unhindered_pure _

theorem unhindered_lookup (name : Token) : (lookup name).Unhindered := by
  refine unhindered_bind (fun _ _ _ h => nomatch h) (fun m => unhindered_ofExcept (fun f hf => ?_))
  unfold Scope.get at hf
  split at hf
  · cases hf
  · cases hf
    rfl

theorem unhindered_step (name : Token) (delta : Float) : (step name delta).Unhindered := by
  refine unhindered_bind (unhindered_lookup name) (fun v => ?_)
  cases v with
  | number x => exact unhindered_bind (unhindered_modify _) (fun _ => unhindered_pure _)
  | null | boolean _ | string _ => exact unhindered_throw rfl

theorem unhindered_pause (seconds : Float) : (pause seconds).Unhindered := by
  refine unhindered_bind (fun _ _ _ h => nomatch h) (fun m => ?_)
  unfold pauseBy
  cases m.clock seconds with
  | some c => exact unhindered_throw rfl
  | none => exact unhindered_modify _

theorem unhindered_readLine : readLine.Unhindered := by
  intro m stop m' h
  unfold readLine at h
  simp only [get_bind_apply] at h
  cases hinput : m.input with
  | none =>
    rw [hinput] at h
    cases h
  | some text =>
    rw [hinput] at h
    cases text <;> cases h

section Builtins

variable (name : Token) {args : List (Run Value)} (hargs : ∀ a ∈ args, a.Unhindered)

include hargs

theorem unhindered_required (i : Nat) : (Builtin.required name args i).Unhindered := by
  rw [Builtin.required_eq]
  split
  · rename_i arg hi
    exact hargs arg (List.mem_of_getElem? hi)
  · exact unhindered_throw rfl

theorem unhindered_optional (i : Nat) (default : Value) : (Builtin.optional args i default).Unhindered := by
  rw [Builtin.optional_eq]
  cases hi : args[i]? with
  | some arg => exact hargs arg (List.mem_of_getElem? hi)
  | none => exact unhindered_pure _

/-- **No limit stops a built-in function** that does not stop its arguments. -/
theorem unhindered_builtin (b : Builtin) : (b.run name args).Unhindered := by
  have hpure : ∀ v : Value, (pure v : Run Value).Unhindered := unhindered_pure
  have hreq := unhindered_required name hargs 0
  have hnum : (Builtin.number name args).Unhindered := by
    rw [Builtin.number_eq]
    exact unhindered_bind hreq (fun v => unhindered_asNumber v _)
  cases b with
  | taunt =>
    refine unhindered_bind (unhindered_optional hargs 0 _) (fun v => ?_)
    refine unhindered_bind (unhindered_optional hargs 1 _) (fun w => ?_)
    exact unhindered_bind (unhindered_modify _) (fun _ => hpure _)
  | quest =>
    have hread : ∀ f : Option Text → Run Value, (∀ line, (f line).Unhindered) → (readLine >>= f).Unhindered :=
      fun _ hf => unhindered_bind unhindered_readLine hf
    simp only [Builtin.run]
    split
    · refine unhindered_bind hreq (fun v => unhindered_bind (unhindered_modify _) (fun _ => hread _ (fun line => ?_)))
      cases line <;> exact hpure _
    · refine hread _ (fun line => ?_)
      cases line <;> exact hpure _
  | afk => exact unhindered_bind hnum (fun x => unhindered_bind (unhindered_pause _) (fun _ => hpure _))
  | lag => exact unhindered_bind hnum (fun x => unhindered_bind (unhindered_pause _) (fun _ => hpure _))
  | stat => exact unhindered_bind hnum (fun x => hpure _)
  | chat => exact unhindered_bind hreq (fun v => hpure _)
  | patch => exact unhindered_bind hreq (fun v => hpure _)
  | gameover =>
    refine unhindered_bind hnum (fun x => ?_)
    split
    · exact unhindered_throw rfl
    · exact unhindered_throw rfl

end Builtins

theorem unhindered_builtin_values (b : Builtin) (name : Token) (values : List Value) :
    (b.run name (values.map pure)).Unhindered := by
  refine unhindered_builtin name (fun a ha => ?_) b
  obtain ⟨v, -, rfl⟩ := List.mem_map.1 ha
  exact unhindered_pure v

end Unhindered

/-! ## How long the steps last -/

/-- There are at least so many steps to take. -/
def Config.Lasts (limit : Nat) : Nat → Config → Prop
  | 0, _ => True
  | n + 1, c => ∃ c', c.next limit = some c' ∧ Config.Lasts limit n c'

section Lasting

variable {limit : Nat}

theorem Config.Lasts.of_succ : ∀ {n : Nat} {c : Config}, c.Lasts limit (n + 1) → c.Lasts limit n
  | 0, _, _ => trivial
  | _ + 1, _, ⟨c', hstep, hlasts⟩ => ⟨c', hstep, hlasts.of_succ⟩

theorem Config.Lasts.mono {n n' : Nat} {c : Config} (hn : n ≤ n') (h : c.Lasts limit n') : c.Lasts limit n := by
  induction hn with
  | refl => exact h
  | step _ ih => exact ih h.of_succ

theorem Config.Reaches.lasts {n : Nat} {c c' : Config} (h : Reaches limit c c') (hc' : c'.Lasts limit n) :
    c.Lasts limit n := by
  induction h using Relation.ReflTransGen.head_induction_on with
  | refl => exact hc'
  | head hstep _ ih => exact Config.Lasts.of_succ ⟨_, hstep, ih⟩

/-- Steps that come to an end do not last for ever. -/
theorem Config.Reaches.not_lasts {c c' : Config} (h : Reaches limit c c') (hc' : c'.next limit = none) :
    ∃ n, ¬ c.Lasts limit n := by
  induction h using Relation.ReflTransGen.head_induction_on with
  | refl =>
    refine ⟨1, fun ⟨d, hd, _⟩ => ?_⟩
    rw [hc'] at hd
    cases hd
  | head hstep _ ih =>
    obtain ⟨n, hn⟩ := ih
    refine ⟨n + 1, fun ⟨d, hd, hlasts⟩ => hn ?_⟩
    rw [hstep] at hd
    cases hd
    exact hlasts

/-- **If the action is out of rounds, the steps from `c` last for at least `n`**, on a machine with room for so many
more calls. -/
def Outlasts {α : Type} (limit room n : Nat) (c : List Frame → Machine → Config) (x : Run α) (m : Machine) : Prop :=
  limit - m.scope.depth = room → ∀ m', x m = .error .outOfRounds m' → ∀ k, (c k m).Lasts limit n

variable {α β : Type} {room n : Nat} {ret : α → Control} {x : Run α} {f : α → Run β}
  {c c' : List Frame → Machine → Config} {m : Machine}

theorem Outlasts.of_unhindered (hx : x.Unhindered) : Outlasts limit room n c x m :=
  fun _ _ herror => nomatch hx m _ _ herror

theorem Outlasts.congr {y : Run α} (hy : Outlasts limit room n c y m) (h : x m = y m) :
    Outlasts limit room n c x m := by
  unfold Outlasts
  rw [h]
  exact hy

theorem Outlasts.mono {n' : Nat} (hn : n ≤ n') (hx : Outlasts limit room n' c x m) : Outlasts limit room n c x m :=
  fun hroom m' herror k => (hx hroom m' herror k).mono hn

theorem Outlasts.succ (hx : Outlasts limit room n c' x m) (h : ∀ k, (c k m).next limit = some (c' k m)) :
    Outlasts limit room (n + 1) c x m := fun hroom m' herror k => ⟨c' k m, h k, hx hroom m' herror k⟩

theorem Outlasts.after_step (hx : Outlasts limit room n c' x m) (h : ∀ k, (c k m).next limit = some (c' k m)) :
    Outlasts limit room n c x m := (hx.succ h).mono (Nat.le_succ n)

theorem outOfRounds_bind {m' : Machine} (h : (x >>= f) m = .error .outOfRounds m') :
    x m = .error .outOfRounds m' ∨ ∃ a m₁, x m = .ok a m₁ ∧ f a m₁ = .error .outOfRounds m' := by
  simp only [bind, EStateM.bind] at h
  cases hxm : x m with
  | ok a m₁ =>
    rw [hxm] at h
    exact .inr ⟨a, m₁, rfl, h⟩
  | error stop m₁ =>
    rw [hxm] at h
    cases h
    exact .inl rfl

/-- An action that is begun above some frames, and what goes on with its result. -/
theorem Outlasts.bind (frames : List Frame) (hdoes : Does limit room ret c x m)
    (hkeeps : Run.Keeps Machine.Levelled x) (hx : Outlasts limit room n c x m)
    (hf : ∀ a m', Outlasts limit room n (fun k m => ⟨ret a, frames ++ k, m⟩) (f a) m') :
    Outlasts limit room n (fun k m => c (frames ++ k) m) (x >>= f) m := by
  intro hroom m' herror k
  rcases outOfRounds_bind herror with hxm | ⟨a, m₁, hxm, hfa⟩
  · exact hx hroom m' hxm (frames ++ k)
  · have hfin : Finishes (x m) := by
      rw [hxm]
      exact fun _ h => nomatch h
    rcases hdoes.cases hroom hkeeps hfin with ⟨a', m₂, hxm', hroom', hreach⟩ | ⟨stop, m₂, hxm', -⟩
    · rw [hxm] at hxm'
      cases hxm'
      exact (hreach (frames ++ k)).lasts (hf a m₁ hroom' m' hfa k)
    · rw [hxm] at hxm'
      cases hxm'

theorem Outlasts.map {g : α → β} (hx : Outlasts limit room n c x m) :
    Outlasts limit room n c (x >>= fun a => pure (g a)) m := by
  intro hroom m' herror
  rcases outOfRounds_bind herror with hxm | ⟨a, m₁, -, hpure⟩
  · exact hx hroom m' hxm
  · cases hpure

end Lasting

/-! ## Expressions -/

section Expressions

variable {limit room n : Nat} {c : Caller}

/-- The steps of a call last if those of its arguments do. -/
def CallsOutlast (limit room n : Nat) (c : Caller) : Prop := ∀ (name : Token) (es : List Expr),
  (∀ e ∈ es, ∀ m, Outlasts limit room n (Config.mk (.eval e)) (e.eval c) m) →
    ∀ m, Outlasts limit room n (Config.mk (.eval (.call name es))) (c name (Expr.evals c es)) m

mutual

/-- **The steps of an expression that is out of rounds last.** -/
theorem Expr.outlasts_eval (h : ExprsDo limit room c) (hc : CallsOutlast limit room n c) :
    ∀ (e : Expr) (m : Machine), Outlasts limit room n (Config.mk (.eval e)) (e.eval c) m
  | .literal token, m => by
    rw [Expr.eval]
    exact .of_unhindered (unhindered_literalValue token)
  | .variable name, m => by
    rw [Expr.eval]
    exact .of_unhindered (unhindered_lookup name)
  | .unary op e, m => by
    rw [Expr.eval]
    refine .after_step (.bind [.negate op] (h.does e m) (h.keeps e) (Expr.outlasts_eval h hc e m) (fun v m' => ?_))
      (fun _ => rfl)
    exact .of_unhindered (unhindered_negated v _)
  | .binary l op r, m => by
    rw [Expr.eval]
    refine .after_step (.bind [.right op r] (h.does l m) (h.keeps l) (Expr.outlasts_eval h hc l m) (fun v m' => ?_))
      (fun _ => rfl)
    refine .after_step (.bind [.operate op v] (h.does r m') (h.keeps r) (Expr.outlasts_eval h hc r m')
      (fun w m'' => ?_))
      (fun _ => rfl)
    exact .of_unhindered (unhindered_operate _ v w _)
  | .call name es, m => by
    rw [Expr.eval]
    exact hc name es (Expr.outlasts_eval_of_mem h hc es) m

theorem Expr.outlasts_eval_of_mem (h : ExprsDo limit room c) (hc : CallsOutlast limit room n c) :
    ∀ es : List Expr, ∀ e ∈ es, ∀ m, Outlasts limit room n (Config.mk (.eval e)) (e.eval c) m
  | e :: es, e', he', m => by
    rcases List.mem_cons.1 he' with heq | he'
    · rw [heq]
      exact Expr.outlasts_eval h hc e m
    · exact Expr.outlasts_eval_of_mem h hc es e' he' m

end

theorem inOrder_outlasts (h : ExprsDo limit room c) (callee : Callee) (name : Token) :
    ∀ (es : List Expr) (done : List Value),
      (∀ e ∈ es, ∀ m, Outlasts limit room n (Config.mk (.eval e)) (e.eval c) m) → ∀ m,
        Outlasts limit room n (Config.mk (.args callee name done es)) (inOrder (Expr.evals c es)) m
  | [], done, _, m => by
    rw [Expr.evals]
    exact .of_unhindered (unhindered_pure _)
  | e :: es, done, hes, m => by
    obtain ⟨he, hes⟩ := List.forall_mem_cons.1 hes
    rw [Expr.evals, inOrder]
    refine .after_step (.bind [.argument callee name done es] (h.does e m) (h.keeps e) (he m) (fun v m' => ?_))
      (fun _ => rfl)
    exact (inOrder_outlasts h callee name es (v :: done) hes m').map.after_step (fun _ => rfl)

end Expressions

/-! ## Statements -/

/-- The steps of expressions do what their evaluation does, and last if it is out of rounds. -/
structure ExprsOutlast (limit room n : Nat) (c : Caller) : Prop extends ExprsDo limit room c where
  outlasts : ∀ (e : Expr) (m : Machine), Outlasts limit room n (Config.mk (.eval e)) (e.eval c) m

section Statements

variable {limit room rounds : Nat} {c : Caller}

theorem ExprsOutlast.bind {β : Type} {e : Expr} {f : Value → Run β} {begin : List Frame → Machine → Config}
    {m : Machine} (h : ExprsOutlast limit room rounds c) (frame : Frame)
    (hstep : ∀ k, (begin k m).next limit = some ⟨.eval e, frame :: k, m⟩)
    (hf : ∀ v m', Outlasts limit room rounds (fun k m => ⟨.value v, frame :: k, m⟩) (f v) m') :
    Outlasts limit room rounds begin (e.eval c >>= f) m :=
  .after_step (.bind [frame] (h.does e m) (h.keeps e) (h.outlasts e m) hf) hstep

theorem Outlasts.choose {body : Stmt} {rest : Chain} {x y : Run Flow} {m : Machine} (v : Value)
    (hx : Outlasts limit room rounds (Config.mk (.exec body)) x m)
    (hy : Outlasts limit room rounds (Config.mk (.clauses rest)) y m) :
    Outlasts limit room rounds (fun k m => ⟨.value v, .choose body rest :: k, m⟩) (if v.isTrue then x else y) m := by
  by_cases hv : v.isTrue = true
  · rw [if_pos hv]
    exact hx.after_step (fun k => congrArg some (if_pos hv))
  · rw [if_neg hv]
    exact hy.after_step (fun k => congrArg some (if_neg hv))

/-- Every round of a loop has a step of its own, so a loop with `n` rounds to go lasts for `n` steps. -/
theorem repeatWhile_outlasts (h : ExprsOutlast limit room rounds c) (condition : Expr) (body : Stmt) {x : Run Flow}
    (hkeeps : Run.Keeps Machine.Levelled x) (hdoes : ∀ m, Does limit room .flow (Config.mk (.exec body)) x m)
    (hx : ∀ m, Outlasts limit room rounds (Config.mk (.exec body)) x m) :
    ∀ n, n ≤ rounds → ∀ (m : Machine) (begin : List Frame → Machine → Config),
      (∀ k m, (begin k m).next limit = some ⟨.eval condition, .test condition body :: k, m⟩) →
        Outlasts limit room n begin (repeatWhile (condition.eval c) x n) m
  | 0, _, _, _, _ => fun _ _ _ _ => trivial
  | n + 1, hn, m, begin, hbegin => by
    -- the condition and the body are out of rounds only after all the rounds that loops in them may take, which are no
    -- fewer than those left here; otherwise one round is over, and the step that began it counts
    have hn' : n ≤ rounds := Nat.le_of_succ_le hn
    refine .succ (.bind [.test condition body] (h.does condition m) (h.keeps condition)
      ((h.outlasts condition m).mono hn') (fun v m' => ?_)) (fun k => hbegin k m)
    by_cases hv : v.isTrue = true
    · simp only [hv, if_true]
      refine .after_step (.bind [.again condition body] (hdoes m') hkeeps ((hx m').mono hn') (fun flow m'' => ?_))
        (fun k => congrArg some (if_pos hv))
      cases flow with
      | normal => exact repeatWhile_outlasts h condition body hkeeps hdoes hx n hn' m'' _ (fun _ _ => rfl)
      | returned v => exact .of_unhindered (unhindered_pure _)
    · simp only [hv]
      exact .of_unhindered (unhindered_pure _)

mutual

/-- **The steps of a statement that is out of rounds last as long as there were rounds.** -/
theorem Stmt.outlasts_exec (h : ExprsOutlast limit room rounds c) : ∀ (s : Stmt) (m : Machine),
    Outlasts limit room rounds (Config.mk (.exec s)) (s.exec c rounds) m
  | .expression e, m => by
    rw [Stmt.exec]
    exact h.bind .ignore (fun _ => rfl) (fun v m' => .of_unhindered (unhindered_pure _))
  | .declare name none, m => by
    rw [Stmt.exec]
    exact .of_unhindered (unhindered_bind (unhindered_modify _) (fun _ => unhindered_pure _))
  | .declare name (some e), m => by
    rw [Stmt.exec]
    exact h.bind (.assign name) (fun _ => rfl)
      (fun v m' => .of_unhindered (unhindered_bind (unhindered_modify _) (fun _ => unhindered_pure _)))
  | .block body, m => by
    rw [Stmt.exec]
    exact (Stmt.outlasts_execAll h body m).after_step (fun _ => rfl)
  | .branch condition body rest, m => by
    rw [Stmt.exec]
    exact h.bind (.choose body rest) (fun _ => rfl)
      (fun v m' => (Stmt.outlasts_exec h body m').choose v (Chain.outlasts_exec h rest m'))
  | .loop condition body, m => by
    rw [Stmt.exec]
    exact repeatWhile_outlasts h condition body (h.keeps_exec rounds body) (Stmt.does_exec h.toExprsDo rounds body)
      (Stmt.outlasts_exec h body) rounds (Nat.le_refl _) m _ (fun _ _ => rfl)
  | .define name params body, m => by
    rw [Stmt.exec]
    exact .of_unhindered (unhindered_bind (unhindered_modify _) (fun _ => unhindered_pure _))
  | .give _ none, m => by
    rw [Stmt.exec]
    exact .of_unhindered (unhindered_pure _)
  | .give _ (some e), m => by
    rw [Stmt.exec]
    exact h.bind .give (fun _ => rfl) (fun v m' => .of_unhindered (unhindered_pure _))
  | .assign target e, m => by
    rw [Stmt.exec]
    exact h.bind (.assign target) (fun _ => rfl)
      (fun v m' => .of_unhindered (unhindered_bind (unhindered_modify _) (fun _ => unhindered_pure _)))
  | .increase name, m => by
    rw [Stmt.exec]
    exact .of_unhindered (unhindered_step name 1)
  | .decrease name, m => by
    rw [Stmt.exec]
    exact .of_unhindered (unhindered_step name (-1))
  | .finish _, m => by
    rw [Stmt.exec]
    exact .of_unhindered (unhindered_pure _)

theorem Stmt.outlasts_execAll (h : ExprsOutlast limit room rounds c) : ∀ (ss : List Stmt) (m : Machine),
    Outlasts limit room rounds (Config.mk (.execAll ss)) (Stmt.execAll c rounds ss) m
  | [], m => by
    rw [Stmt.execAll]
    exact .of_unhindered (unhindered_pure _)
  | s :: ss, m => by
    rw [Stmt.execAll]
    refine .after_step (.bind [.next ss] (Stmt.does_exec h.toExprsDo rounds s m) (h.keeps_exec rounds s)
      (Stmt.outlasts_exec h s m) (fun flow m' => ?_)) (fun _ => rfl)
    cases flow with
    | normal => exact (Stmt.outlasts_execAll h ss m').after_step (fun _ => rfl)
    | returned v => exact .of_unhindered (unhindered_pure _)

theorem Chain.outlasts_exec (h : ExprsOutlast limit room rounds c) : ∀ (ch : Chain) (m : Machine),
    Outlasts limit room rounds (Config.mk (.clauses ch)) (ch.exec c rounds) m
  | .done, m => by
    rw [Chain.exec]
    exact .of_unhindered (unhindered_pure _)
  | .otherwise body, m => by
    rw [Chain.exec]
    exact (Stmt.outlasts_exec h body m).after_step (fun _ => rfl)
  | .retry condition body rest, m => by
    rw [Chain.exec]
    exact h.bind (.choose body rest) (fun _ => rfl)
      (fun v m' => (Stmt.outlasts_exec h body m').choose v (Chain.outlasts_exec h rest m'))

end

end Statements

/-! ## Calls and programs -/

theorem callWith_outlasts {limit room n : Nat} {enter : Token → Function → List Value → Run Value}
    (h : ExprsDo limit room (callWith enter))
    (henter : ∀ name f values m,
      Outlasts limit room n (Config.mk (.args (.function f) name values.reverse [])) (enter name f values) m) :
    CallsOutlast limit room n (callWith enter) := by
  intro name es hes m
  cases hb : Builtin.ofName? name.lexeme with
  | some b =>
    have hdoes := inOrder_does h.keeps (.builtin b) name (es.take b.uses) []
      (fun e _ => h.does e) m
    have hargs := inOrder_outlasts h (.builtin b) name (es.take b.uses) []
      (fun e he => hes e (List.mem_of_mem_take he)) m
    rw [callWith_inOrder enter hb, Expr.evals_take]
    refine .after_step (.bind [] hdoes (keeps_inOrder_evals h.keeps _) hargs (fun values m' => ?_)) (fun k => ?_)
    · exact .of_unhindered (unhindered_builtin_values b name values)
    · simp only [next, ofExpr, hb, List.nil_append]
  | none =>
    rw [callWith_of_not_builtin enter hb]
    refine Outlasts.congr ?_ (show _ = callFound enter name _ (m.functions.get? name.lexeme) m from rfl)
    cases hget : m.functions.get? name.lexeme with
    | none => exact .of_unhindered (unhindered_throw rfl)
    | some f =>
      rw [callFound, Expr.length_evals]
      by_cases harity : es.length < f.params.length
      · rw [if_pos harity]
        exact .of_unhindered (unhindered_throw rfl)
      · rw [if_neg harity]
        have hdoes := inOrder_does h.keeps (.function f) name es [] (fun e _ => h.does e) m
        have hargs := inOrder_outlasts h (.function f) name es [] hes m
        refine .after_step (.bind [] hdoes (keeps_inOrder_evals h.keeps es) hargs (fun values m' => ?_)) (fun k => ?_)
        · rw [List.append_nil]
          exact henter name f values m'
        · simp only [next, ofExpr, hb, hget, if_neg harity, List.nil_append]

theorem exprsOutlast_caller (limits : Limits) (room : Nat)
    (henter : ∀ name f values m, Outlasts limits.depth room limits.rounds
      (Config.mk (.args (.function f) name values.reverse [])) (enter limits room name f values) m) :
    ExprsOutlast limits.depth room limits.rounds (caller limits room) where
  toExprsDo := exprsDo_caller limits room (enter_does limits room)
  outlasts := Expr.outlasts_eval (exprsDo_caller limits room (enter_does limits room))
    (callWith_outlasts (exprsDo_caller limits room (enter_does limits room)) henter)

/-- **The steps of a call that is out of rounds last**, by induction on the room for more calls. -/
theorem enter_outlasts (limits : Limits) : ∀ (room : Nat) (name : Token) (f : Function) (values : List Value)
    (m : Machine), Outlasts limits.depth room limits.rounds (Config.mk (.args (.function f) name values.reverse []))
      (enter limits room name f values) m
  | 0, _, _, _, _ => fun _ _ herror => nomatch herror
  | room + 1, name, f, values, m => by
    intro hroom m' herror k
    have hroom' : m.scope.depth < limits.depth := by omega
    obtain ⟨m₁, hdepth, hm₁, hstep⟩ := next_entered hroom' name f values k
    have hbody := Stmt.outlasts_execAll (exprsOutlast_caller limits room (enter_outlasts limits room)) f.body m₁
      (by omega)
    rw [enter_succ_eq, ← hm₁] at herror
    cases hrun : Stmt.execAll (caller limits room) limits.rounds f.body m₁ with
    | ok flow m₂ =>
      rw [hrun] at herror
      cases flow <;> cases herror
    | error stop m₂ =>
      rw [hrun] at herror
      cases herror
      exact Config.Lasts.of_succ ⟨_, hstep, hbody m₂ hrun (.leave :: k)⟩

/-- **A run that uses up its rounds has at least as many steps before it.** -/
theorem runProgram_lasts (limits : Limits) {program : List Stmt} {m m' : Machine}
    (h : runProgram limits program m = .error .outOfRounds m') :
    (start program m).Lasts limits.depth limits.rounds :=
  Stmt.outlasts_execAll (exprsOutlast_caller limits _ (enter_outlasts limits _)) program m rfl m' h []

/-- **Where the steps end, every run with rounds enough does.** -/
theorem runProgram_of_reaches {limit : Nat} {program : List Stmt} {m : Machine} {c : Config}
    (h : Reaches limit (start program m) c) (hc : c.next limit = none) :
    ∃ n, ∀ rounds, n ≤ rounds → outcome .flow [] (runProgram ⟨limit, rounds⟩ program m) = c := by
  obtain ⟨n, hn⟩ := h.not_lasts hc
  refine ⟨n, fun rounds hrounds => ?_⟩
  have hfin : Finishes (runProgram ⟨limit, rounds⟩ program m) :=
    fun m' hrun => hn ((runProgram_lasts ⟨limit, rounds⟩ hrun).mono hrounds)
  exact (runProgram_reaches ⟨limit, rounds⟩ program m hfin).eq_of_final h (next_outcome limit _) hc

end Loot
