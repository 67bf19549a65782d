import Loot.Proofs.Machine.Relabelled
/-!
# Blocks without braces, choices without further conditions

A block opens no scope: among other statements its own can stand in its place.  A choice with further conditions is a
choice whose last resort is a choice.  So every program has a form without the one and the other (`Stmt.flattenedAll`,
`Stmt.allFlat`), and it does the same, also where the functions that are declared have this form
(`blocks_flattened`).
-/
namespace Loot

/-! ## The flat form of a program -/

/-- The statements of a block, or the statement alone. -/
def Stmt.spliced : Stmt → List Stmt
  | .block body => body
  | s => [s]

mutual

/-- The statement with flat lists of statements and flat choices in it. -/
def Stmt.flattened : Stmt → Stmt
  | .expression e => .expression e
  | .declare name init => .declare name init
  | .block body => .block (Stmt.flattenedAll body)
  | .branch condition body rest => .branch condition body.flattened rest.flattened
  | .loop condition body => .loop condition body.flattened
  | .define name params body => .define name params (Stmt.flattenedAll body)
  | .give keyword value => .give keyword value
  | .assign target value => .assign target value
  | .increase name => .increase name
  | .decrease name => .decrease name
  | .finish eof => .finish eof

/-- The statements, with those of a block in its place. -/
def Stmt.flattenedAll : List Stmt → List Stmt
  | [] => []
  | s :: ss => s.flattened.spliced ++ Stmt.flattenedAll ss

/-- The clauses after a condition as a choice of their own. -/
def Chain.flattened : Chain → Chain
  | .done => .done
  | .otherwise body => .otherwise body.flattened
  | .retry condition body rest => .otherwise (.branch condition body.flattened rest.flattened)

end

def Function.flattened (f : Function) : Function := ⟨f.params, Stmt.flattenedAll f.body⟩

def Stmt.isBlock : Stmt → Bool
  | .block _ => true
  | _ => false

mutual

/-- Is no block among the statements of a list, and is there no further condition in a choice? -/
def Stmt.isFlat : Stmt → Bool
  | .block body => Stmt.allFlat body
  | .branch _ body rest => body.isFlat && rest.isFlat
  | .loop _ body => body.isFlat
  | .define _ _ body => Stmt.allFlat body
  | _ => true

def Stmt.allFlat : List Stmt → Bool
  | [] => true
  | s :: ss => !s.isBlock && s.isFlat && Stmt.allFlat ss

def Chain.isFlat : Chain → Bool
  | .done => true
  | .otherwise body => body.isFlat
  | .retry _ _ _ => false

end

theorem Stmt.allFlat_append : ∀ {ss ss' : List Stmt}, Stmt.allFlat ss = true → Stmt.allFlat ss' = true →
    Stmt.allFlat (ss ++ ss') = true
  | [], _, _, h' => h'
  | s :: ss, ss', h, h' => by
    rw [Stmt.allFlat, Bool.and_eq_true] at h
    rw [List.cons_append, Stmt.allFlat, h.1, Stmt.allFlat_append h.2 h']
    rfl

theorem Stmt.allFlat_spliced {s : Stmt} (h : s.isFlat = true) : Stmt.allFlat s.spliced = true := by
  cases s with
  | block body => exact h
  | _ =>
    rw [Stmt.spliced, Stmt.allFlat, h]
    · rfl
    · intro body hs
      cases hs

mutual

theorem Stmt.isFlat_flattened : ∀ s : Stmt, s.flattened.isFlat = true
  | .expression _ | .declare _ _ | .give _ _ | .assign _ _ | .increase _ | .decrease _ | .finish _ => by
    rw [Stmt.flattened]
    rfl
  | .block body => by
    rw [Stmt.flattened]
    exact Stmt.allFlat_flattenedAll body
  | .branch condition body rest => by
    rw [Stmt.flattened, Stmt.isFlat, Stmt.isFlat_flattened body, Chain.isFlat_flattened rest]
    rfl
  | .loop condition body => by
    rw [Stmt.flattened]
    exact Stmt.isFlat_flattened body
  | .define name params body => by
    rw [Stmt.flattened]
    exact Stmt.allFlat_flattenedAll body

theorem Stmt.allFlat_flattenedAll : ∀ ss : List Stmt, Stmt.allFlat (Stmt.flattenedAll ss) = true
  | [] => rfl
  | s :: ss => by
    rw [Stmt.flattenedAll]
    exact Stmt.allFlat_append (Stmt.allFlat_spliced (Stmt.isFlat_flattened s)) (Stmt.allFlat_flattenedAll ss)

theorem Chain.isFlat_flattened : ∀ ch : Chain, ch.flattened.isFlat = true
  | .done => rfl
  | .otherwise body => by
    rw [Chain.flattened]
    exact Stmt.isFlat_flattened body
  | .retry condition body rest => by
    rw [Chain.flattened, Chain.isFlat, Stmt.isFlat, Stmt.isFlat_flattened body, Chain.isFlat_flattened rest]
    rfl

end

/-! ## It stands for the program -/

theorem Stmt.Recast.spliced {τ : Terms} {s s' : Stmt} {ss ss' : List Stmt} (hs : s.Recast τ s')
    (hss : Stmt.AllRecast τ ss ss') : Stmt.AllRecast τ (s :: ss) (s'.spliced ++ ss') := by
  cases s' with
  | block body' =>
    cases hs with
    | block hbody => exact .splice hbody hss
    | leave hspare => exact .leave hspare hss
  | _ => exact .cons hs hss

/-- The terms of the flat form. -/
def Terms.flattening : Terms := .rewriting (fun _ f g => g = f.flattened) fun _ => False

mutual

theorem Stmt.recast_flattened : ∀ s : Stmt, s.Recast .flattening s.flattened
  | .expression _ | .declare _ _ | .give _ _ | .assign _ _ | .increase _ | .decrease _ | .finish _ => by
    rw [Stmt.flattened]
    exact Stmt.recast_leaf rfl
  | .block body => by
    rw [Stmt.flattened]
    exact .block (Stmt.allRecast_flattenedAll body)
  | .branch condition body rest => by
    rw [Stmt.flattened]
    exact .branch condition.recast_self (Stmt.recast_flattened body) (Chain.recast_flattened rest)
  | .loop condition body => by
    rw [Stmt.flattened]
    exact .loop trivial condition.recast_self (Stmt.recast_flattened body)
  | .define name params body => by
    rw [Stmt.flattened]
    exact .define rfl rfl

/-- **The flat form of a program stands for the program.** -/
theorem Stmt.allRecast_flattenedAll : ∀ ss : List Stmt, Stmt.AllRecast .flattening ss (Stmt.flattenedAll ss)
  | [] => .nil
  | s :: ss => by
    rw [Stmt.flattenedAll]
    exact (Stmt.recast_flattened s).spliced (Stmt.allRecast_flattenedAll ss)

theorem Chain.recast_flattened : ∀ ch : Chain, ch.Recast .flattening ch.flattened
  | .done => .done
  | .otherwise body => by
    rw [Chain.flattened]
    exact .otherwise (Stmt.recast_flattened body)
  | .retry condition body rest => by
    rw [Chain.flattened]
    exact .nest condition.recast_self (Stmt.recast_flattened body) (Chain.recast_flattened rest)

end

/-- Under every name, the flat form of the function. -/
def IsFlattened (_ : Text) (o o' : Option Function) : Prop := o' = o.map Function.flattened

theorem Bond.suits_isFlattened : Bond.Suits ⟨Eq, IsFlattened, Eq⟩ .flattening := by
  refine Bond.suits_rewriting (fun hfg => congrArg some hfg) (fun _ hspare => hspare.elim) (fun {name o o'} _ ho => ?_)
    (fun hfg => ?_) (fun hfg => ?_)
  · cases ho
    exact option_rel_map o (fun _ => rfl)
  · cases hfg
    rfl
  · cases hfg
    exact Stmt.allRecast_flattenedAll _

/-! ## The first clause whose condition holds -/

/-- The conditions of the other clauses of a choice, and what is done under each. -/
def Chain.clauses : Chain → List (Expr × Stmt)
  | .retry condition body rest => (condition, body) :: rest.clauses
  | _ => []

/-- What is done if no condition holds. -/
def Chain.last? : Chain → Option Stmt
  | .done => none
  | .otherwise body => some body
  | .retry _ _ rest => rest.last?

/-- One after the other, the conditions come out false; the last leaves the second machine. -/
inductive AllFail (c : Caller) : List Expr → Machine → Machine → Prop
  | nil (m : Machine) : AllFail c [] m m
  | cons {e : Expr} {es : List Expr} {v : Value} {m m₁ m₂ : Machine} : e.eval c m = .ok v m₁ → v.isTrue = false →
      AllFail c es m₁ m₂ → AllFail c (e :: es) m m₂

/-- **How a choice comes out.**  The clause that is taken is the first whose condition holds: its body runs on the
machine that its own condition left, so that nothing after it has been evaluated. -/
inductive Chooses (c : Caller) (rounds : Nat) (clauses : List (Expr × Stmt)) (last : Option Stmt) (m : Machine) :
    EStateM.Result Stop Machine Flow → Prop
  | first (before after : List (Expr × Stmt)) {e : Expr} {s : Stmt} {v : Value} {m₁ m₂ : Machine} :
      clauses = before ++ (e, s) :: after → AllFail c (before.map Prod.fst) m m₁ → e.eval c m₁ = .ok v m₂ →
      v.isTrue = true → Chooses c rounds clauses last m (s.exec c rounds m₂)
  /-- A condition stops the run, the others before it being false. -/
  | stopped (before after : List (Expr × Stmt)) {e : Expr} {s : Stmt} {stop : Stop} {m₁ m₂ : Machine} :
      clauses = before ++ (e, s) :: after → AllFail c (before.map Prod.fst) m m₁ → e.eval c m₁ = .error stop m₂ →
      Chooses c rounds clauses last m (.error stop m₂)
  | last {s : Stmt} {m₁ : Machine} : last = some s → AllFail c (clauses.map Prod.fst) m m₁ →
      Chooses c rounds clauses last m (s.exec c rounds m₁)
  | none {m₁ : Machine} : last = none → AllFail c (clauses.map Prod.fst) m m₁ →
      Chooses c rounds clauses last m (.ok .normal m₁)

section Choice

variable {c : Caller} {rounds : Nat}

/-- A condition that is false leaves the choice to the clauses after it. -/
theorem Chooses.cons {clauses : List (Expr × Stmt)} {last : Option Stmt} {e : Expr} {v : Value} {m m₁ : Machine}
    {r : EStateM.Result Stop Machine Flow} (s : Stmt) (he : e.eval c m = .ok v m₁) (hv : v.isTrue = false)
    (h : Chooses c rounds clauses last m₁ r) : Chooses c rounds ((e, s) :: clauses) last m r := by
  cases h with
  | first before after hclauses hfail heval htrue =>
    exact .first ((e, s) :: before) after (congrArg ((e, s) :: ·) hclauses) (.cons he hv hfail) heval htrue
  | stopped before after hclauses hfail heval =>
    exact .stopped ((e, s) :: before) after (congrArg ((e, s) :: ·) hclauses) (.cons he hv hfail) heval
  | last hlast hfail => exact .last hlast (.cons he hv hfail)
  | none hlast hfail => exact .none hlast (.cons he hv hfail)

theorem chooses_choice {e : Expr} {s : Stmt} {rest : Run Flow} {clauses : List (Expr × Stmt)} {last : Option Stmt}
    (hrest : ∀ m, Chooses c rounds clauses last m (rest m)) (m : Machine) :
    Chooses c rounds ((e, s) :: clauses) last m
      ((do if (← e.eval c).isTrue then s.exec c rounds else rest : Run Flow) m) := by
  simp only [Bind.bind, EStateM.bind]
  cases he : e.eval c m with
  | error stop m₁ => exact .stopped [] clauses rfl (.nil m) he
  | ok v m₁ =>
    simp only
    cases hv : v.isTrue with
    | true => exact .first [] clauses rfl (.nil m) he hv
    | false => exact (hrest m₁).cons s he hv

theorem Chain.chooses_exec : ∀ (ch : Chain) (m : Machine), Chooses c rounds ch.clauses ch.last? m (ch.exec c rounds m)
  | .done, m => by
    rw [Chain.exec]
    exact .none rfl (.nil m)
  | .otherwise body, m => by
    rw [Chain.exec]
    exact .last rfl (.nil m)
  | .retry condition body rest, m => by
    rw [Chain.exec]
    exact chooses_choice (Chain.chooses_exec rest) m

end Choice

/-- **Blocks open no scope, and further conditions are choices inside choices.**  A program and its flat form end alike,
on machines that are the same but for the functions, which are in flat form on the second; and so are the functions in
the end.  No choice takes anything but the first clause whose condition holds, or evaluates a condition after it. -/
theorem blocks_flattened (limits : Limits) (program : List Stmt) {m m' : Machine}
    (hm : m.SameButFunctions IsFlattened m') :
    Stmt.allFlat (Stmt.flattenedAll program) = true ∧
    EndAlike Eq (Machine.SameButFunctions IsFlattened) m m' (runProgram limits program m)
      (runProgram limits (Stmt.flattenedAll program) m') ∧
    ∀ (c : Caller) (rounds : Nat) (condition : Expr) (body : Stmt) (rest : Chain) (m₀ : Machine),
      Chooses c rounds ((condition, body) :: rest.clauses) rest.last? m₀
        ((Stmt.branch condition body rest).exec c rounds m₀) := by
  refine ⟨Stmt.allFlat_flattenedAll program, ?_, fun c rounds condition body rest m₀ => ?_⟩
  · exact runProgram_sameButFunctions Bond.suits_isFlattened limits (Stmt.allRecast_flattenedAll program) hm
  · rw [Stmt.exec]
    exact chooses_choice rest.chooses_exec m₀

/-- A machine with a function `crit` of the given body. -/
def raiding (body : List Stmt) : Machine where
  functions := ⟨[("crit".toList, ⟨[], body⟩)]⟩

/-- `\x7b spawn buffed \x7d`, and then `taunt("miss")`, which is not reached. -/
def critBody : List Stmt :=
  [.block [.give ⟨.spawn, "spawn".toList, some 1⟩ (some (.literal ⟨.buffed, "buffed".toList, some 1⟩))],
    .expression (.call ⟨.identifier, "taunt".toList, some 2⟩ [.literal ⟨.string, "\"miss\"".toList, some 2⟩])]

/-- `clutch nerfed \x7b \x7d retry crit() buff hp retry mana \x7b \x7d`. -/
def raid : List Stmt :=
  [.branch (.literal ⟨.nerfed, "nerfed".toList, some 3⟩) (.block [])
    (.retry (.call ⟨.identifier, "crit".toList, some 4⟩ []) (.increase ⟨.identifier, "hp".toList, some 5⟩)
      (.retry (.variable ⟨.identifier, "mana".toList, some 6⟩) (.block []) .done))]

/-- The call of `crit` holds, so `hp` is stepped, which is not there; `mana` is not there either, and not looked at. -/
theorem blocks_flattened_first_clause :
    Stmt.allFlat (Stmt.flattenedAll raid) = true ∧
    EndAlike Eq (Machine.SameButFunctions IsFlattened) (raiding critBody) (raiding (Stmt.flattenedAll critBody))
      (runProgram .standard raid (raiding critBody))
      (runProgram .standard (Stmt.flattenedAll raid) (raiding (Stmt.flattenedAll critBody))) := by
  have hm : (raiding critBody).SameButFunctions IsFlattened (raiding (Stmt.flattenedAll critBody)) := by
    refine ⟨rfl, rfl, rfl, fun name => ?_⟩
    have hfind : ∀ body, (raiding body).functions.get? name =
        if name = "crit".toList then some ⟨[], body⟩ else none := fun _ => Bindings.lookup_cons _ _ _ _
    unfold IsFlattened
    rw [hfind, hfind]
    split
    · rfl
    · rfl
  have h := blocks_flattened .standard raid hm
  exact ⟨h.1, h.2.1⟩

end Loot
