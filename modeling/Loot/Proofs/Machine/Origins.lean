import Loot.Proofs.Machine.DepthLimit
/-!
# Where a run is stopped

A run that stops is stopped by one of its steps, and on the way out of the open calls nothing but the variables changes
(`Config.Reaches.stopped`).  All along the steps work with the tokens that the program and the declared functions are
made of, and with one clock (`Config.Reaches.runsOver`).  So the step that stops a run is the work of one such token: a
fault on its line, or the call of a built-in function with a value for its argument (`Config.StoppedBy`).
-/
namespace Loot

open Config

variable {P : Token → Prop} {clock : Clock}

/-! ## What steps work with -/

def Expr.IsMadeOf (P : Token → Prop) (e : Expr) : Prop := ∃ e', e.Alike (Same P) e'

def Stmt.IsMadeOf (P : Token → Prop) (s : Stmt) : Prop := ∃ s', s.Alike (Same P) True s'

def Stmt.AllMadeOf (P : Token → Prop) (ss : List Stmt) : Prop := ∃ ss', Stmt.AllAlike (Same P) True ss ss'

def Chain.IsMadeOf (P : Token → Prop) (ch : Chain) : Prop := ∃ ch', ch.Alike (Same P) True ch'

/-- What a call of that name runs, and with how many arguments. -/
def Callee.Suits (P : Token → Prop) (name : Token) (count : Nat) : Callee → Prop
  | .builtin b => Builtin.ofName? name.lexeme = some b ∧ count ≤ b.uses
  | .function f => ∃ g, f.Alike (Same P) True g

def Control.RunsOver (P : Token → Prop) : Control → Prop
  | .eval e => e.IsMadeOf P
  | .args callee name done es =>
    P name ∧ callee.Suits P name (done.length + es.length) ∧ ∀ e ∈ es, e.IsMadeOf P
  | .exec s => s.IsMadeOf P
  | .execAll ss => Stmt.AllMadeOf P ss
  | .clauses ch => ch.IsMadeOf P
  | .value _ | .flow _ | .stop _ => True

def Frame.RunsOver (P : Token → Prop) : Frame → Prop
  | .negate op | .operate op _ => P op
  | .right op e => P op ∧ e.IsMadeOf P
  | .argument callee name done es =>
    P name ∧ callee.Suits P name (done.length + 1 + es.length) ∧ ∀ e ∈ es, e.IsMadeOf P
  | .choose body rest => body.IsMadeOf P ∧ rest.IsMadeOf P
  | .test condition body | .again condition body => condition.IsMadeOf P ∧ body.IsMadeOf P
  | .next ss => Stmt.AllMadeOf P ss
  | .leave | .ignore | .assign _ | .give => True

/-- The machine has functions of such tokens, and the clock. -/
structure Machine.RunsOver (P : Token → Prop) (clock : Clock) (m : Machine) : Prop where
  functions : m.FunctionsOf P True
  clock : m.clock = clock

/-- **All that is left to do is made of such tokens.** -/
structure Config.RunsOver (P : Token → Prop) (clock : Clock) (c : Config) : Prop where
  control : c.control.RunsOver P
  stack : ∀ frame ∈ c.stack, frame.RunsOver P
  machine : c.machine.RunsOver P clock

/-! ## One step -/

/-- The second machine has the functions and the clock of the first. -/
structure Machine.SameTools (m m' : Machine) : Prop where
  functions : m'.functions = m.functions
  clock : m'.clock = m.clock

theorem Machine.sameTools_outward : Outward Machine.SameTools where
  refl _ := ⟨rfl, rfl⟩
  trans hab hbc := ⟨hbc.functions.trans hab.functions, hbc.clock.trans hab.clock⟩
  events _ _ := ⟨rfl, rfl⟩
  input _ _ := ⟨rfl, rfl⟩

theorem Machine.RunsOver.keep {m m' : Machine} (h : m.RunsOver P clock) (hm : m.SameTools m') :
    m'.RunsOver P clock where
  functions := by
    unfold FunctionsOf
    rw [hm.functions]
    exact h.functions
  clock := hm.clock.trans h.clock

section Step

variable {k : List Frame} {m : Machine}

theorem runsOver_outcome {α : Type} {x : Run α} {ret : α → Control} (hx : Run.Keeps Machine.SameTools x)
    (hret : ∀ a, (ret a).RunsOver P) (hk : ∀ frame ∈ k, frame.RunsOver P) (hm : m.RunsOver P clock) :
    (outcome ret k (x m)).RunsOver P clock := by
  have hleft := hx m
  unfold Run.left at hleft
  cases hxm : x m with
  | ok a m' =>
    rw [hxm] at hleft
    exact ⟨hret a, hk, hm.keep hleft⟩
  | error stop m' =>
    rw [hxm] at hleft
    exact ⟨trivial, hk, hm.keep hleft⟩

theorem Machine.keeps_step (name : Token) (delta : Float) : Run.Keeps Machine.SameTools (step name delta) := by
  have hC := Machine.sameTools_outward.toChained
  refine Run.keeps_bind hC (Run.keeps_lookup hC name) (fun v => ?_)
  split
  · exact Run.keeps_bind hC (fun _ => ⟨rfl, rfl⟩) (fun _ => Run.keeps_pure hC _)
  · exact Run.keeps_fault hC _ _

theorem keeps_builtin_tools (b : Builtin) (name : Token) (values : List Value) :
    Run.Keeps Machine.SameTools (b.run name (values.map pure)) := by
  refine keeps_builtin Machine.sameTools_outward b name (fun a ha => ?_)
  obtain ⟨v, -, rfl⟩ := List.mem_map.1 ha
  exact Run.keeps_pure Machine.sameTools_outward.toChained v

theorem keeps_bindParams_tools : ∀ (ps : List Token) (vs : List Value),
    Run.Keeps Machine.SameTools (bindParams ps vs)
  | _ :: ps, _ :: vs =>
    Run.keeps_bind Machine.sameTools_outward.toChained (fun _ => ⟨rfl, rfl⟩) (fun _ => keeps_bindParams_tools ps vs)
  | [], _ => Run.keeps_pure Machine.sameTools_outward.toChained _
  | _ :: _, [] => Run.keeps_pure Machine.sameTools_outward.toChained _

theorem Expr.AllAlike.mem {es es' : List Expr} (h : Expr.AllAlike (Same P) es es') : ∀ e ∈ es, e.IsMadeOf P := by
  induction es generalizing es' with
  | nil => exact List.forall_mem_nil _
  | cons e es ih =>
    cases h with
    | cons he hes => exact List.forall_mem_cons.2 ⟨⟨_, he⟩, ih hes⟩

theorem Expr.IsMadeOf.ofExpr {e : Expr} (he : e.IsMadeOf P) (hk : ∀ frame ∈ k, frame.RunsOver P)
    (hm : m.RunsOver P clock) : (ofExpr k m e).RunsOver P clock := by
  have hC := Machine.sameTools_outward.toChained
  obtain ⟨e', he⟩ := he
  cases he with
  | literal _ => exact runsOver_outcome (keeps_literalValue hC _) (fun _ => trivial) hk hm
  | «variable» _ => exact runsOver_outcome (Run.keeps_lookup hC _) (fun _ => trivial) hk hm
  | unary hop he => exact ⟨⟨_, he⟩, List.forall_mem_cons.2 ⟨hop.2, hk⟩, hm⟩
  | binary hl hop hr => exact ⟨⟨_, hl⟩, List.forall_mem_cons.2 ⟨⟨hop.2, _, hr⟩, hk⟩, hm⟩
  | @call name _ es _ hname hes =>
    simp only [Config.ofExpr]
    split
    · rename_i b hb
      refine ⟨⟨hname.2, ⟨hb, ?_⟩, fun e he => hes.mem e (List.mem_of_mem_take he)⟩, hk, hm⟩
      rw [List.length_nil, Nat.zero_add]
      exact List.length_take_le _ _
    split
    · exact ⟨trivial, hk, hm⟩
    · rename_i f hf
      split
      · exact ⟨trivial, hk, hm⟩
      · exact ⟨⟨hname.2, hm.functions _ f hf, hes.mem⟩, hk, hm⟩

theorem Callee.Suits.ofCall {callee : Callee} {name : Token} {done : List Value} (limit : Nat)
    (hcallee : callee.Suits P name done.length) (hk : ∀ frame ∈ k, frame.RunsOver P) (hm : m.RunsOver P clock) :
    (ofCall limit name done k m callee).RunsOver P clock := by
  cases callee with
  | builtin b => exact runsOver_outcome (keeps_builtin_tools b name _) (fun _ => trivial) hk hm
  | function f =>
    obtain ⟨g, hfg⟩ := hcallee
    simp only [Config.ofCall]
    split
    · exact ⟨trivial, hk, hm⟩
    · have hpushed : Machine.RunsOver P clock { m with scope := m.scope.push } := hm.keep ⟨rfl, rfl⟩
      exact ⟨⟨_, hfg.body⟩, List.forall_mem_cons.2 ⟨trivial, hk⟩, hpushed.keep (keeps_bindParams_tools _ _ _)⟩

theorem Stmt.IsMadeOf.ofStmt {s : Stmt} (hs : s.IsMadeOf P) (hk : ∀ frame ∈ k, frame.RunsOver P)
    (hm : m.RunsOver P clock) : (ofStmt k m s).RunsOver P clock := by
  obtain ⟨s', hs⟩ := hs
  cases hs with
  | expression he => exact ⟨⟨_, he⟩, List.forall_mem_cons.2 ⟨trivial, hk⟩, hm⟩
  | declareNone _ => exact ⟨trivial, hk, hm.keep ⟨rfl, rfl⟩⟩
  | declareSome _ he => exact ⟨⟨_, he⟩, List.forall_mem_cons.2 ⟨trivial, hk⟩, hm⟩
  | block hss => exact ⟨⟨_, hss⟩, hk, hm⟩
  | branch hc hbody hrest =>
    exact ⟨⟨_, hc⟩, List.forall_mem_cons.2 ⟨⟨⟨_, hbody⟩, ⟨_, hrest⟩⟩, hk⟩, hm⟩
  | loop _ hc hbody => exact ⟨⟨_, hc⟩, List.forall_mem_cons.2 ⟨⟨⟨_, hc⟩, ⟨_, hbody⟩⟩, hk⟩, hm⟩
  | @define _ _ ps ps' body body' _ hps hbody =>
    have hf : Function.Alike (Same P) True ⟨ps, body⟩ ⟨ps', body'⟩ := ⟨hps, hbody⟩
    exact ⟨trivial, hk, hm.functions.define _ hf, hm.clock⟩
  | giveNone _ => exact ⟨trivial, hk, hm⟩
  | giveSome _ he => exact ⟨⟨_, he⟩, List.forall_mem_cons.2 ⟨trivial, hk⟩, hm⟩
  | assign _ he => exact ⟨⟨_, he⟩, List.forall_mem_cons.2 ⟨trivial, hk⟩, hm⟩
  | increase _ => exact runsOver_outcome (Machine.keeps_step _ _) (fun _ => trivial) hk hm
  | decrease _ => exact runsOver_outcome (Machine.keeps_step _ _) (fun _ => trivial) hk hm
  | finish => exact ⟨trivial, hk, hm⟩

theorem Frame.RunsOver.ofValue {frame : Frame} {v : Value} {c : Config} (h : ofValue v k m frame = some c)
    (hframe : frame.RunsOver P) (hk : ∀ frame ∈ k, frame.RunsOver P) (hm : m.RunsOver P clock) :
    c.RunsOver P clock := by
  have hC := Machine.sameTools_outward.toChained
  cases frame with
  | negate op =>
    cases h
    exact runsOver_outcome (Run.keeps_ofExcept hC _) (fun _ => trivial) hk hm
  | operate op l =>
    cases h
    exact runsOver_outcome (Run.keeps_operate hC _ _ _ _) (fun _ => trivial) hk hm
  | right op e =>
    cases h
    exact ⟨hframe.2, List.forall_mem_cons.2 ⟨hframe.1, hk⟩, hm⟩
  | argument callee name done es =>
    cases h
    exact ⟨hframe, hk, hm⟩
  | choose body rest =>
    cases h
    split
    · exact ⟨hframe.1, hk, hm⟩
    · exact ⟨hframe.2, hk, hm⟩
  | test condition body =>
    cases h
    split
    · exact ⟨hframe.2, List.forall_mem_cons.2 ⟨hframe, hk⟩, hm⟩
    · exact ⟨trivial, hk, hm⟩
  | ignore | assign _ | give =>
    cases h
    exact ⟨trivial, hk, hm.keep ⟨rfl, rfl⟩⟩
  | leave | again _ _ | next _ => cases h

theorem Frame.RunsOver.ofFlow {frame : Frame} {flow : Flow} {c : Config} (h : ofFlow k m frame flow = some c)
    (hframe : frame.RunsOver P) (hk : ∀ frame ∈ k, frame.RunsOver P) (hm : m.RunsOver P clock) :
    c.RunsOver P clock := by
  cases frame with
  | again condition body =>
    cases flow with
    | normal =>
      cases h
      exact ⟨hframe.1, List.forall_mem_cons.2 ⟨hframe, hk⟩, hm⟩
    | returned v =>
      cases h
      exact ⟨trivial, hk, hm⟩
  | next ss =>
    cases flow with
    | normal =>
      cases h
      exact ⟨hframe, hk, hm⟩
    | returned v =>
      cases h
      exact ⟨trivial, hk, hm⟩
  | leave =>
    cases flow <;> cases h <;> exact ⟨trivial, hk, hm.keep ⟨rfl, rfl⟩⟩
  | negate _ | right _ _ | operate _ _ | argument _ _ _ _ | ignore | assign _ | give | choose _ _ | test _ _ => cases h

/-- **A step goes on with tokens that it found.** -/
theorem Config.RunsOver.next {limit : Nat} {c c' : Config} (h : c.RunsOver P clock) (hstep : c.next limit = some c') :
    c'.RunsOver P clock := by
  obtain ⟨control, k, m⟩ := c
  obtain ⟨hcontrol, hk, hm⟩ := h
  simp only at hcontrol hk hm
  cases control with
  | eval e =>
    cases hstep
    exact hcontrol.ofExpr hk hm
  | args callee name done es =>
    cases es with
    | nil =>
      cases hstep
      exact hcontrol.2.1.ofCall limit hk hm
    | cons e es =>
      cases hstep
      obtain ⟨hname, hcallee, hes⟩ := hcontrol
      obtain ⟨he, hes⟩ := List.forall_mem_cons.1 hes
      refine ⟨he, List.forall_mem_cons.2 ⟨⟨hname, ?_, hes⟩, hk⟩, hm⟩
      rwa [List.length_cons, Nat.add_comm es.length 1, ← Nat.add_assoc] at hcallee
  | exec s =>
    cases hstep
    exact hcontrol.ofStmt hk hm
  | execAll ss =>
    obtain ⟨ss', hss⟩ := hcontrol
    cases hss with
    | nil =>
      cases hstep
      exact ⟨trivial, hk, hm⟩
    | cons hs hss =>
      cases hstep
      exact ⟨⟨_, hs⟩, List.forall_mem_cons.2 ⟨⟨_, hss⟩, hk⟩, hm⟩
  | clauses ch =>
    obtain ⟨ch', hch⟩ := hcontrol
    cases hch with
    | done =>
      cases hstep
      exact ⟨trivial, hk, hm⟩
    | otherwise hs =>
      cases hstep
      exact ⟨⟨_, hs⟩, hk, hm⟩
    | retry hc hs hrest =>
      cases hstep
      exact ⟨⟨_, hc⟩, List.forall_mem_cons.2 ⟨⟨⟨_, hs⟩, ⟨_, hrest⟩⟩, hk⟩, hm⟩
  | value v =>
    cases k with
    | nil => cases hstep
    | cons frame k =>
      obtain ⟨hframe, hk⟩ := List.forall_mem_cons.1 hk
      exact hframe.ofValue hstep hk hm
  | flow flow =>
    cases k with
    | nil => cases hstep
    | cons frame k =>
      obtain ⟨hframe, hk⟩ := List.forall_mem_cons.1 hk
      exact hframe.ofFlow hstep hk hm
  | stop stop =>
    cases k with
    | nil => cases hstep
    | cons frame k =>
      cases hstep
      have hrest := (List.forall_mem_cons.1 hk).2
      cases frame with
      | leave => exact ⟨trivial, hrest, hm.keep ⟨rfl, rfl⟩⟩
      | _ => exact ⟨trivial, hrest, hm⟩

end Step

/-- **So do all steps.** -/
theorem Config.Reaches.runsOver {limit : Nat} {c c' : Config} (h : Reaches limit c c') (hc : c.RunsOver P clock) :
    c'.RunsOver P clock := by
  induction h with
  | refl => exact hc
  | tail _ hstep ih => exact ih.next hstep

/-! ## The step that stops a run -/

/-- How a built-in function stops a run, given the value of its argument. -/
inductive Builtin.Halts (clock : Clock) (line : Line) (v : Value) : Builtin → Stop → Prop
  | exit {x : Float} {code : Int} : v.asNumber line = .ok x → exitCode x = .ok code →
      Halts clock line v .gameover (.exit code)
  | noExit {x : Float} {c : Crash} : v.asNumber line = .ok x → exitCode x = .error c →
      Halts clock line v .gameover (.crash c)
  | afk {x : Float} {c : Crash} : v.asNumber line = .ok x → clock (duration x) = some c →
      Halts clock line v .afk (.crash c)
  | lag {x : Float} {c : Crash} : v.asNumber line = .ok x → clock (duration x / 1000) = some c →
      Halts clock line v .lag (.crash c)

/-- **The step stops the run**, at one of the tokens. -/
inductive Config.StoppedBy (P : Token → Prop) : Config → Stop → Prop
  | fault {c : Config} {t : Token} {cause : Cause} : P t → cause.isRunning = true →
      Config.StoppedBy P c (.fault { cause, line := t.line })
  | unreadable {t : Token} {k : List Frame} {m : Machine} {c : Crash} : P t → t.kind = .number →
      Binary64.read t.lexeme = .error c → Config.StoppedBy P ⟨.eval (.literal t), k, m⟩ (.crash c)
  | halt {b : Builtin} {name : Token} {v : Value} {k : List Frame} {m : Machine} {stop : Stop} : P name →
      Builtin.ofName? name.lexeme = some b → b.Halts m.clock name.line v stop →
      Config.StoppedBy P ⟨.args (.builtin b) name [v] [], k, m⟩ stop

/-- The stop is a fault on that line. -/
inductive Stop.IsFaultAt (line : Line) : Stop → Prop
  | fault {cause : Cause} : cause.isRunning = true → Stop.IsFaultAt line (.fault { cause, line })

/-- If the action stops, it is with such a stop, and the machine is as it was. -/
def Run.StopsWith {α : Type} (Q : Stop → Prop) (x : Run α) (m : Machine) : Prop :=
  ∀ stop m', x m = .error stop m' → Q stop ∧ m' = m

section Actions

variable {α : Type} {Q : Stop → Prop} {m : Machine} {line : Line}

theorem Run.stopsWith_pure (a : α) : (pure a : Run α).StopsWith Q m := fun _ _ h => nomatch h

theorem Run.stopsWith_throw {stop : Stop} (h : Q stop) : (throw stop : Run α).StopsWith Q m := by
  rintro _ _ ⟨⟩
  exact ⟨h, rfl⟩

theorem Run.stopsWith_ofExcept {r : Except Fault α} (h : ∀ f, r = .error f → Q (.fault f)) :
    (ofExcept r).StopsWith Q m := by
  cases r with
  | ok a => exact stopsWith_pure a
  | error f => exact stopsWith_throw (h f rfl)

theorem Run.stopsWith_lookup (name : Token) : (lookup name).StopsWith (Stop.IsFaultAt name.line) m := by
  unfold Run.StopsWith lookup Scope.get
  simp only [get_bind_apply]
  cases m.scope.vars.get? name.lexeme with
  | some v => exact stopsWith_pure v
  | none => exact stopsWith_throw (.fault rfl)

theorem Value.fault_asNumber {v : Value} {f : Fault} (h : v.asNumber line = .error f) :
    Stop.IsFaultAt line (.fault f) := by
  cases v with
  | string s =>
    simp only [asNumber] at h
    split at h <;> cases h
    exact .fault rfl
  | null | boolean _ | number _ => cases h

theorem Value.fault_negated {v : Value} {f : Fault} (h : v.negated line = .error f) :
    Stop.IsFaultAt line (.fault f) := by
  cases v <;> cases h <;> exact .fault rfl

theorem Value.fault_operate {op : Kind} {l r : Value} {f : Fault} (h : operate op l r line = .error f) :
    Stop.IsFaultAt line (.fault f) := by
  unfold operate at h
  split at h <;> cases h
  exact .fault rfl

theorem Run.StopsWith.bind {β : Type} {x : Run α} {f : α → Run β} (hx : x.StopsWith Q m) (hkeeps : Run.Keeps Eq x)
    (hf : ∀ a, x m = .ok a m → (f a).StopsWith Q m) : (x >>= f).StopsWith Q m := by
  intro stop m' h
  have hm := hkeeps m
  unfold Run.left at hm
  simp only [Bind.bind, EStateM.bind] at h
  cases hxm : x m with
  | ok a m₁ =>
    rw [hxm] at h hm
    cases hm
    exact hf a hxm stop m' h
  | error stop' m₁ =>
    rw [hxm] at h
    cases h
    exact hx _ _ hxm

theorem Machine.chained_eq : Chained (@Eq Machine) := ⟨fun _ => rfl, Eq.trans⟩

theorem stopsWith_step (name : Token) (delta : Float) : (step name delta).StopsWith (Stop.IsFaultAt name.line) m := by
  refine (Run.stopsWith_lookup name).bind (Run.keeps_lookup Machine.chained_eq name) (fun v _ => ?_)
  cases v with
  | number x => exact fun _ _ h => nomatch h
  | null | boolean _ | string _ => exact Run.stopsWith_throw (.fault rfl)

end Actions

/-! ### Built-in functions -/

section Builtins

variable {name : Token} {m : Machine} {Q : Stop → Prop}

theorem Builtin.number_pure (name : Token) (v : Value) :
    number name [pure v] = Run.ofExcept (v.asNumber name.line) := by
  rw [number_eq, required_eq]
  rfl

theorem stopsWith_number {β : Type} {f : Float → Run β} {values : List Value} (hlen : values.length ≤ 1)
    (hfault : ∀ stop, Stop.IsFaultAt name.line stop → Q stop)
    (hf : ∀ v x, values = [v] → v.asNumber name.line = .ok x → (f x).StopsWith Q m) :
    (Builtin.number name (values.map pure) >>= f).StopsWith Q m := by
  rcases values with _ | ⟨v, _ | ⟨_, _⟩⟩
  · exact Run.stopsWith_throw (hfault _ (.fault rfl))
  · rw [List.map_singleton, Builtin.number_pure]
    cases hv : v.asNumber name.line with
    | ok x => exact hf v x rfl hv
    | error f => exact Run.stopsWith_throw (hfault _ (Value.fault_asNumber hv))
  · exact absurd hlen (by simp)

theorem pause_apply (seconds : Float) (m : Machine) : Run.pause seconds m = Run.pauseBy m.clock seconds m := rfl

theorem stopsWith_pause {seconds : Float} (v : Value) (h : ∀ c, m.clock seconds = some c → Q (.crash c)) :
    (Run.pause seconds >>= fun _ => pure v).StopsWith Q m := by
  intro stop m' hs
  simp only [Bind.bind, EStateM.bind, pause_apply, Run.pauseBy] at hs
  cases hclock : m.clock seconds with
  | some c =>
    rw [hclock] at hs
    cases hs
    exact ⟨h c hclock, rfl⟩
  | none =>
    rw [hclock] at hs
    cases hs

theorem readLine_ok (m : Machine) : ∃ line m', Run.readLine m = .ok line m' := by
  unfold Run.readLine
  simp only [get_bind_apply]
  cases m.input with
  | none => exact ⟨_, _, rfl⟩
  | some text =>
    cases text with
    | nil => exact ⟨_, _, rfl⟩
    | cons c cs => exact ⟨_, _, rfl⟩

theorem bind_readLine_ne_error {f : Option Text → Run Value} (hf : ∀ line m, ∃ v, f line m = .ok v m) (m : Machine)
    (stop : Stop) (m' : Machine) : (Run.readLine >>= f) m ≠ .error stop m' := by
  intro h
  obtain ⟨line, m₁, hline⟩ := readLine_ok m
  obtain ⟨v, hv⟩ := hf line m₁
  simp only [Bind.bind, EStateM.bind, hline, hv] at h
  cases h

/-- **A built-in function stops a run with a fault on its line, or because of what its argument is.** -/
theorem Builtin.stopsWith_run (b : Builtin) (name : Token) {values : List Value} (hlen : values.length ≤ b.uses)
    (m : Machine) : (b.run name (values.map pure)).StopsWith
      (fun stop => stop.IsFaultAt name.line ∨ ∃ v, values = [v] ∧ b.Halts m.clock name.line v stop) m := by
  cases b with
  | taunt =>
    rcases values with _ | ⟨v, _ | ⟨w, _ | ⟨_, _⟩⟩⟩
    · exact fun _ _ h => nomatch h
    · exact fun _ _ h => nomatch h
    · exact fun _ _ h => nomatch h
    · exact absurd hlen (by simp [uses])
  | quest =>
    rcases values with _ | ⟨v, _ | ⟨_, _⟩⟩
    · refine fun _ _ h => absurd h (bind_readLine_ne_error (fun line m => ?_) _ _ _)
      cases line <;> exact ⟨_, rfl⟩
    · refine fun _ _ h => absurd h (bind_readLine_ne_error (fun line m => ?_) _ _ _)
      cases line <;> exact ⟨_, rfl⟩
    · exact absurd hlen (by simp [uses])
  | afk =>
    exact stopsWith_number hlen (fun _ => .inl) (fun v x hv hx =>
      stopsWith_pause _ (fun c hc => .inr ⟨v, hv, .afk hx hc⟩))
  | lag =>
    exact stopsWith_number hlen (fun _ => .inl) (fun v x hv hx =>
      stopsWith_pause _ (fun c hc => .inr ⟨v, hv, .lag hx hc⟩))
  | stat => exact stopsWith_number hlen (fun _ => .inl) (fun v x _ _ => Run.stopsWith_pure _)
  | chat | patch =>
    rcases values with _ | ⟨v, _ | ⟨_, _⟩⟩
    · exact Run.stopsWith_throw (.inl (.fault rfl))
    · exact Run.stopsWith_pure _
    · exact absurd hlen (by simp [uses])
  | gameover =>
    refine stopsWith_number hlen (fun _ => .inl) (fun v x hv hx => ?_)
    cases hcode : exitCode x with
    | ok code => exact Run.stopsWith_throw (.inr ⟨v, hv, .exit hx hcode⟩)
    | error c => exact Run.stopsWith_throw (.inr ⟨v, hv, .noExit hx hcode⟩)

end Builtins

/-! ### Steps -/

section Steps

variable {k k' : List Frame} {m m' : Machine} {stop : Stop}

/-- The action stops, if what became of it is a stop. -/
theorem Run.StopsWith.ofOutcome {α : Type} {Q : Stop → Prop} {x : Run α} {ret : α → Control} (hx : x.StopsWith Q m)
    (h : outcome ret k (x m) = ⟨.stop stop, k', m'⟩) (hret : ∀ a s, ret a ≠ .stop s) : Q stop ∧ m' = m := by
  cases hxm : x m with
  | ok a m₁ =>
    rw [hxm, outcome, Config.mk.injEq] at h
    exact absurd h.1 (hret a stop)
  | error stop' m₁ =>
    rw [hxm] at h
    cases h
    exact hx _ _ hxm

theorem Stop.IsFaultAt.stoppedBy {c : Config} {t : Token} (h : stop.IsFaultAt t.line) (ht : P t) :
    c.StoppedBy P stop := by
  cases h with
  | fault hcause => exact .fault ht hcause

theorem stopsWith_literalValue {t : Token} (ht : P t) :
    (literalValue t).StopsWith (Config.StoppedBy P ⟨.eval (.literal t), k, m⟩) m := by
  unfold literalValue
  split
  · rename_i hkind
    cases hread : Binary64.read t.lexeme with
    | ok x => exact Run.stopsWith_pure _
    | error c => exact Run.stopsWith_throw (.unreadable ht hkind hread)
  · exact Run.stopsWith_pure _
  · exact Run.stopsWith_pure _

theorem Expr.IsMadeOf.stopped {e : Expr} (he : e.IsMadeOf P) (h : Config.ofExpr k m e = ⟨.stop stop, k', m'⟩) :
    Config.StoppedBy P ⟨.eval e, k, m⟩ stop ∧ m' = m := by
  obtain ⟨e', he⟩ := he
  cases he with
  | literal ht => exact (stopsWith_literalValue ht.2).ofOutcome h (fun _ _ hret => nomatch hret)
  | «variable» ht =>
    obtain ⟨hstop, hm⟩ := (Run.stopsWith_lookup _).ofOutcome h (fun _ _ hret => nomatch hret)
    exact ⟨hstop.stoppedBy ht.2, hm⟩
  | unary hop he => cases h
  | binary hl hop hr => cases h
  | call hname hes =>
    simp only [Config.ofExpr] at h
    split at h
    · cases h
    split at h
    · cases h
      exact ⟨.fault hname.2 rfl, rfl⟩
    split at h <;> cases h
    exact ⟨.fault hname.2 rfl, rfl⟩

theorem Callee.Suits.stopped {limit : Nat} {callee : Callee} {name : Token} {done : List Value} (hname : P name)
    (hcallee : callee.Suits P name done.length) (h : Config.ofCall limit name done k m callee = ⟨.stop stop, k', m'⟩) :
    Config.StoppedBy P ⟨.args callee name done [], k, m⟩ stop ∧ m' = m := by
  cases callee with
  | builtin b =>
    have hlen : done.reverse.length ≤ b.uses := by
      rw [List.length_reverse]
      exact hcallee.2
    obtain ⟨hstop | ⟨v, hdone, hhalts⟩, hm⟩ := (b.stopsWith_run name hlen m).ofOutcome h (fun _ _ hret => nomatch hret)
    · exact ⟨hstop.stoppedBy hname, hm⟩
    · rw [List.reverse_eq_iff] at hdone
      subst hdone
      exact ⟨.halt hname hcallee.1 hhalts, hm⟩
  | function f =>
    simp only [Config.ofCall] at h
    split at h <;> cases h
    exact ⟨.fault hname rfl, rfl⟩

theorem Stmt.IsMadeOf.stopped {s : Stmt} (hs : s.IsMadeOf P) (h : Config.ofStmt k m s = ⟨.stop stop, k', m'⟩) :
    Config.StoppedBy P ⟨.exec s, k, m⟩ stop ∧ m' = m := by
  obtain ⟨s', hs⟩ := hs
  cases hs with
  | increase ht | decrease ht =>
    obtain ⟨hstop, hm⟩ := (stopsWith_step _ _).ofOutcome h (fun _ _ hret => nomatch hret)
    exact ⟨hstop.stoppedBy ht.2, hm⟩
  | _ => cases h

theorem Frame.RunsOver.stopped {frame : Frame} {v : Value} (hframe : frame.RunsOver P)
    (h : Config.ofValue v k m frame = some ⟨.stop stop, k', m'⟩) :
    Config.StoppedBy P ⟨.value v, frame :: k, m⟩ stop ∧ m' = m := by
  cases frame with
  | negate op =>
    obtain ⟨hstop, hm⟩ := (Run.stopsWith_ofExcept fun _ => Value.fault_negated).ofOutcome (Option.some.inj h)
      (fun _ _ hret => nomatch hret)
    exact ⟨hstop.stoppedBy hframe, hm⟩
  | operate op l =>
    have h := Option.some.inj h
    rw [Run.operate_eq] at h
    obtain ⟨hstop, hm⟩ := (Run.stopsWith_ofExcept fun _ => Value.fault_operate).ofOutcome h
      (fun _ _ hret => nomatch hret)
    exact ⟨hstop.stoppedBy hframe, hm⟩
  | choose body rest | test condition body =>
    have h := Option.some.inj h
    split at h <;> cases h
  | _ => cases h

/-- **A step that stops a run is the work of a token that it found**, and changes nothing on the machine. -/
theorem Config.RunsOver.stopped {limit : Nat} {c : Config} (hc : c.RunsOver P clock) (hgoes : ∀ s, c.control ≠ .stop s)
    (h : c.next limit = some ⟨.stop stop, k', m'⟩) : c.StoppedBy P stop ∧ m' = c.machine := by
  obtain ⟨control, k, m⟩ := c
  obtain ⟨hcontrol, hk, -⟩ := hc
  simp only at hcontrol hk hgoes
  cases control with
  | eval e => exact hcontrol.stopped (Option.some.inj h)
  | args callee name done es =>
    cases es with
    | nil => exact hcontrol.2.1.stopped hcontrol.1 (Option.some.inj h)
    | cons e es => cases h
  | exec s => exact hcontrol.stopped (Option.some.inj h)
  | execAll ss => cases ss <;> cases h
  | clauses ch => cases ch <;> cases h
  | value v =>
    cases k with
    | nil => cases h
    | cons frame k => exact (List.forall_mem_cons.1 hk).1.stopped h
  | flow flow =>
    cases k with
    | nil => cases h
    | cons frame k => cases frame <;> cases flow <;> cases h
  | stop s => exact absurd rfl (hgoes s)

end Steps

/-! ## Runs that stop -/

/-- A run that has stopped was stopped by one of its steps.  On the way out of the open calls nothing but the variables
changes. -/
theorem Config.Reaches.stopped {limit : Nat} {c c' : Config} (h : Reaches limit c c') (hc : ∀ s, c.control ≠ .stop s) :
    ∀ stop, c'.control = .stop stop → ∃ d, Reaches limit c d ∧ (∀ s, d.control ≠ .stop s) ∧
      ∃ k m, d.next limit = some ⟨.stop stop, k, m⟩ ∧ ∃ scope, c'.machine = { m with scope } := by
  induction h with
  | refl => exact fun stop hstop => absurd hstop (hc stop)
  | @tail d c' hd hstep ih =>
    obtain ⟨control', k', m'⟩ := c'
    rintro stop ⟨⟩
    by_cases hgoes : ∀ s, d.control ≠ .stop s
    · exact ⟨d, hd, hgoes, k', m', hstep, m'.scope, rfl⟩
    · obtain ⟨s, hs⟩ := not_forall_not.1 hgoes
      obtain ⟨d₀, hd₀, hgoes₀, k₀, m₀, hnext, scope, hm⟩ := ih s hs
      obtain ⟨control, k, m⟩ := d
      cases hs
      cases k with
      | nil => cases hstep
      | cons frame k =>
        have hstep := Option.some.inj hstep
        subst hm
        cases frame <;> cases hstep <;> exact ⟨d₀, hd₀, hgoes₀, k₀, m₀, hnext, _, rfl⟩

/-- **A run that stops was stopped at a token of the program or of the declared functions**, by a step of the run. -/
theorem runProgram_stopped (limits : Limits) {program : List Stmt}
    (hprogram : ∀ l ∈ Stmt.leavesAll program, l.IsMadeOf P True) {m m' : Machine} (hm : m.FunctionsOf P True)
    {stop : Stop} (hrun : runProgram limits program m = .error stop m') (hrounds : stop ≠ .outOfRounds) :
    ∃ c, Reaches limits.depth (start program m) c ∧ c.StoppedBy P stop ∧ c.machine.clock = m.clock ∧
      (∃ k, c.next limits.depth = some ⟨.stop stop, k, c.machine⟩) ∧ ∃ scope, m' = { c.machine with scope } := by
  have hstart : (start program m).RunsOver P m.clock :=
    ⟨⟨_, Stmt.allAlike_self (fun _ ht => ⟨rfl, ht⟩) hprogram⟩, List.forall_mem_nil _, ⟨hm, rfl⟩⟩
  have hreach := runProgram_reaches limits program m (fun m₁ h => by
    rw [hrun] at h
    cases h
    exact hrounds rfl)
  rw [hrun] at hreach
  obtain ⟨c, hc, hgoes, k, m₁, hnext, scope, hm'⟩ := hreach.stopped (fun _ h => nomatch h) stop rfl
  have hover := hc.runsOver hstart
  obtain ⟨hstopped, rfl⟩ := hover.stopped hgoes hnext
  exact ⟨c, hc, hstopped, hover.machine.clock, ⟨k, hnext⟩, scope, hm'⟩

end Loot
