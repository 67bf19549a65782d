import Loot.Proofs.Tree.Relabel
/-!
# Reading tokens without their lines

The parser looks at the lines of tokens only to say where it failed.  So on the same tokens without lines it reads the
same program without lines, or fails for the same cause (`readProgram_withoutLine`).  `Lineless` says this of a single
parser; it passes from the parts of a parser to the whole.
-/
namespace Loot

def Token.withoutLine (t : Token) : Token := { t with line := none }

def Fault.withoutLine (f : Fault) : Fault := { f with line := none }

def Failure.withoutLine : Failure → Failure
  | .fault f => .fault f.withoutLine
  | .outOfSteps => .outOfSteps

theorem Expr.mapTokensAll_eq_map (f : Token → Token) (es : List Expr) :
    Expr.mapTokensAll f es = es.map (Expr.mapTokens f) := by
  induction es with
  | nil => rw [Expr.mapTokensAll, List.map_nil]
  | cons e es ih => rw [Expr.mapTokensAll, ih, List.map_cons]

theorem Stmt.mapTokensAll_eq_map (f : Token → Token) (ss : List Stmt) :
    Stmt.mapTokensAll f ss = ss.map (Stmt.mapTokens f) := by
  induction ss with
  | nil => rw [Stmt.mapTokensAll, List.map_nil]
  | cons s ss ih => rw [Stmt.mapTokensAll, ih, List.map_cons]

namespace Parser

variable {α β : Type} {g : α → α} {h : β → β} {eof : Token}

/-- What is left of an outcome without lines, given what is left of the result. -/
def outcomeWithoutLine (g : α → α) : Except Failure (α × List Token) → Except Failure (α × List Token)
  | .ok (a, rest) => .ok (g a, rest.map Token.withoutLine)
  | .error failure => .error failure.withoutLine

/-- **Without lines**, the tokens have with the second parser the outcome that they have with the first. -/
def Lineless (g : α → α) (p q : Parser α) : Prop :=
  ∀ ts, q (ts.map Token.withoutLine) = outcomeWithoutLine g (p ts)

/-! ## Parts of a parser -/

theorem lineless_pure (a : α) : Lineless g (pure a) (pure (g a)) := fun _ => rfl

theorem lineless_outOfSteps : Lineless g outOfSteps outOfSteps := fun _ => rfl

theorem Lineless.bind {p q : Parser α} {k k' : α → Parser β} (hp : Lineless g p q)
    (hk : ∀ a, Lineless h (k a) (k' (g a))) : Lineless h (p >>= k) (q >>= k') := by
  intro ts
  simp only [Bind.bind, StateT.bind]
  rw [hp ts]
  cases p ts with
  | error failure => rfl
  | ok out => exact hk out.1 out.2

theorem Lineless.ite {c : Prop} [Decidable c] {p q p' q' : Parser α} (hp : Lineless g p p') (hq : Lineless g q q') :
    Lineless g (if c then p else q) (if c then p' else q') := by
  split
  · exact hp
  · exact hq

theorem lineless_failAt (line : Line) (text : Text) : Lineless g (failAt line text) (failAt none text) := fun _ => rfl

theorem lineless_failHere (text : Text) : Lineless g (failHere eof text) (failHere eof.withoutLine text) := by
  intro ts
  cases ts <;> rfl

theorem lineless_unexpected : Lineless g (unexpected eof) (unexpected eof.withoutLine) := by
  intro ts
  cases ts <;> rfl

theorem lineless_accept (test : Kind → Bool) : Lineless (Option.map Token.withoutLine) (accept test) (accept test) := by
  intro ts
  cases ts with
  | nil => rfl
  | cons t ts =>
    have hkind : test t.withoutLine.kind = test t.kind := rfl
    rw [List.map_cons, accept, accept, hkind]
    split <;> rfl

theorem lineless_expect (kind : Kind) (text : String) :
    Lineless Token.withoutLine (expect eof kind text) (expect eof.withoutLine kind text) := by
  refine (lineless_accept _).bind (fun o => ?_)
  cases o with
  | none => exact lineless_failHere _
  | some t => exact lineless_pure t

theorem lineless_nextIs (test : Kind → Bool) : Lineless id (nextIs test) (nextIs test) := by
  intro ts
  cases ts <;> rfl

theorem lineless_atEnd : Lineless id atEnd atEnd := by
  intro ts
  cases ts <;> rfl

theorem lineless_skipNewlines : Lineless id skipNewlines skipNewlines := by
  intro ts
  have hdrop : (ts.map Token.withoutLine).dropWhile (·.kind == .newline) =
      (ts.dropWhile (·.kind == .newline)).map Token.withoutLine := List.dropWhile_map
  unfold skipNewlines
  rw [hdrop]
  rfl

section Lists

variable {item item' : Parser α} (hitem : Lineless g item item')

include hitem

theorem lineless_separated : ∀ n, Lineless (List.map g) (separated item n) (separated item' n)
  | 0 => lineless_outOfSteps
  | n + 1 => by
    refine hitem.bind (fun a => (lineless_accept _).bind (fun o => ?_))
    cases o with
    | none => exact lineless_pure [a]
    | some comma => exact (lineless_separated n).bind (fun as => lineless_pure (a :: as))

theorem lineless_items (n : Nat) : Lineless (List.map g) (items item n) (items item' n) :=
  (lineless_nextIs _).bind (fun _ => (lineless_pure []).ite (lineless_separated hitem n))

end Lists

/-! ## Expressions -/

section Levels

variable {p p' : Parser Expr} (hp : Lineless (Expr.mapTokens Token.withoutLine) p p')

include hp

theorem lineless_chainFrom (joins : Kind → Bool) : ∀ (n : Nat) (left : Expr),
    Lineless (Expr.mapTokens Token.withoutLine) (chainFrom p joins n left)
      (chainFrom p' joins n (left.mapTokens Token.withoutLine))
  | 0, _ => lineless_outOfSteps
  | n + 1, left => by
    refine (lineless_accept _).bind (fun o => ?_)
    cases o with
    | none => exact lineless_pure left
    | some op =>
      refine hp.bind (fun right => ?_)
      have hmore := lineless_chainFrom joins n (.binary left op right)
      rw [Expr.mapTokens] at hmore
      exact hmore

theorem lineless_chain (n : Nat) (joins : Kind → Bool) :
    Lineless (Expr.mapTokens Token.withoutLine) (chain n joins p) (chain n joins p') :=
  hp.bind (fun left => lineless_chainFrom hp joins n left)

theorem lineless_expressionOver (n : Nat) :
    Lineless (Expr.mapTokens Token.withoutLine) (expressionOver n p) (expressionOver n p') :=
  lineless_chain (lineless_chain (lineless_chain (lineless_chain hp n _) n _) n _) n _

end Levels

theorem lineless_operand : ∀ n,
    Lineless (Expr.mapTokens Token.withoutLine) (operand eof n) (operand eof.withoutLine n)
  | 0 => lineless_outOfSteps
  | n + 1 => by
    have hexpr := lineless_expressionOver (lineless_operand n) n
    refine (lineless_accept _).bind (fun o => ?_)
    cases o with
    | none => exact lineless_unexpected
    | some t =>
      refine Lineless.ite ((lineless_operand n).bind (fun e => lineless_pure (Expr.unary t e))) ?_
      refine Lineless.ite (hexpr.bind (fun e => (lineless_expect _ _).bind (fun _ => lineless_pure e))) ?_
      refine Lineless.ite ((lineless_accept _).bind (fun o => ?_)) (lineless_pure (Expr.literal t))
      cases o with
      | none => exact lineless_pure (Expr.variable t)
      | some left =>
        refine (lineless_items hexpr n).bind (fun args => (lineless_expect _ _).bind (fun _ => ?_))
        have hcall := lineless_pure (g := Expr.mapTokens Token.withoutLine) (.call t args)
        rw [Expr.mapTokens, Expr.mapTokensAll_eq_map] at hcall
        exact hcall

theorem lineless_expression (n : Nat) :
    Lineless (Expr.mapTokens Token.withoutLine) (expression eof n) (expression eof.withoutLine n) :=
  lineless_expressionOver (lineless_operand n) n

/-! ## Simple statements -/

theorem lineless_endStatement (text : String) :
    Lineless id (endStatement eof text) (endStatement eof.withoutLine text) := by
  refine (lineless_accept _).bind (fun o => ?_)
  cases o with
  | some t => exact lineless_pure ()
  | none =>
    refine lineless_atEnd.bind (fun b => (lineless_nextIs _).bind (fun b' => ?_))
    exact Lineless.ite (lineless_pure ()) (lineless_failHere _)

theorem lastLine_withoutLine (before after : List Token) :
    lastLine (before.map Token.withoutLine) (after.map Token.withoutLine) = none := by
  unfold lastLine
  rw [← List.map_take, List.getLast?_map]
  cases (before.take _).getLast? <;> rfl

theorem lineless_simpleStatement (n : Nat) :
    Lineless (Stmt.mapTokens Token.withoutLine) (simpleStatement eof n) (simpleStatement eof.withoutLine n) := by
  intro before
  have hexpr : expression eof.withoutLine n (before.map Token.withoutLine) = _ := lineless_expression n before
  cases hread : expression eof n before with
  | error failure =>
    rw [hread] at hexpr
    unfold simpleStatement
    rw [hread, hexpr]
    rfl
  | ok out =>
    obtain ⟨e, after⟩ := out
    rw [hread] at hexpr
    -- every expression but a variable or a call fails on the line of its last token
    have hfail : ∀ text, simpleStatement eof n before = failAt (lastLine before after) text after →
        simpleStatement eof.withoutLine n (before.map Token.withoutLine) =
          failAt (lastLine (before.map Token.withoutLine) (after.map Token.withoutLine)) text
            (after.map Token.withoutLine) →
        simpleStatement eof.withoutLine n (before.map Token.withoutLine) =
          outcomeWithoutLine (Stmt.mapTokens Token.withoutLine) (simpleStatement eof n before) := by
      intro text hsimple hsimple'
      rw [hsimple, hsimple', lastLine_withoutLine]
      exact lineless_failAt _ text after
    match e, hread, hexpr with
    | .variable name, hread, hexpr =>
      rw [simpleStatement_variable hread, simpleStatement_variable hexpr]
      refine (lineless_accept _).bind (fun o => ?_) after
      cases o with
      | some sign =>
        refine (lineless_expression n).bind (fun value => (lineless_endStatement _).bind (fun _ => ?_))
        exact lineless_pure (Stmt.assign name value)
      | none => exact (lineless_endStatement _).bind (fun _ => lineless_pure (Stmt.expression (.variable name)))
    | .call name args, hread, hexpr =>
      rw [simpleStatement_call hread, simpleStatement_call hexpr]
      exact (lineless_endStatement _).bind (fun _ => lineless_pure (Stmt.expression (.call name args))) after
    | .literal token, hread, hexpr =>
      exact hfail _ (by unfold simpleStatement; rw [hread]; rfl) (by unfold simpleStatement; rw [hexpr]; rfl)
    | .unary op e, hread, hexpr =>
      exact hfail _ (by unfold simpleStatement; rw [hread]; rfl) (by unfold simpleStatement; rw [hexpr]; rfl)
    | .binary l op r, hread, hexpr =>
      exact hfail _ (by unfold simpleStatement; rw [hread]; rfl) (by unfold simpleStatement; rw [hexpr]; rfl)

theorem lineless_declaration (n : Nat) :
    Lineless (Stmt.mapTokens Token.withoutLine) (declaration eof n) (declaration eof.withoutLine n) := by
  refine (lineless_expect _ _).bind (fun name => (lineless_accept _).bind (fun o => ?_))
  cases o with
  | some sign =>
    refine (lineless_expression n).bind (fun e => (lineless_endStatement _).bind (fun _ => ?_))
    exact lineless_pure (Stmt.declare name (some e))
  | none => exact (lineless_endStatement _).bind (fun _ => lineless_pure (Stmt.declare name none))

theorem lineless_giving (keyword : Token) (n : Nat) : Lineless (Stmt.mapTokens Token.withoutLine)
    (giving eof keyword n) (giving eof.withoutLine keyword.withoutLine n) := by
  refine lineless_atEnd.bind (fun b => (lineless_nextIs _).bind (fun b' => Lineless.ite ?_ ?_))
  · exact (lineless_endStatement _).bind (fun _ => lineless_pure (Stmt.give keyword none))
  · refine (lineless_expression n).bind (fun e => (lineless_endStatement _).bind (fun _ => ?_))
    exact lineless_pure (Stmt.give keyword (some e))

/-! ## Statements with statements in them -/

section Nested

variable {item item' : Parser Stmt} (hitem : Lineless (Stmt.mapTokens Token.withoutLine) item item')

include hitem

theorem lineless_statements : ∀ n,
    Lineless (Stmt.mapTokensAll Token.withoutLine) (statements item n) (statements item' n)
  | 0 => lineless_outOfSteps
  | n + 1 => by
    refine lineless_skipNewlines.bind (fun _ => lineless_atEnd.bind (fun b => (lineless_nextIs _).bind (fun b' => ?_)))
    refine Lineless.ite (lineless_pure []) (hitem.bind (fun s => ?_))
    exact (lineless_statements n).bind (fun ss => lineless_pure (s :: ss))

theorem lineless_blockBody (n : Nat) :
    Lineless (Stmt.mapTokensAll Token.withoutLine) (blockBody eof item n) (blockBody eof.withoutLine item' n) :=
  (lineless_statements hitem n).bind (fun body => (lineless_expect _ _).bind (fun _ => lineless_pure body))

theorem lineless_definition (n : Nat) :
    Lineless (Stmt.mapTokens Token.withoutLine) (definition eof item n) (definition eof.withoutLine item' n) := by
  refine (lineless_expect _ _).bind (fun name => (lineless_expect _ _).bind (fun _ => ?_))
  refine (lineless_items (lineless_expect _ _) n).bind (fun params => (lineless_expect _ _).bind (fun _ => ?_))
  refine (lineless_expect _ _).bind (fun _ => (lineless_blockBody hitem n).bind (fun body => ?_))
  exact lineless_pure (Stmt.define name params body)

theorem lineless_clauses {condition condition' : Parser Expr}
    (hcond : Lineless (Expr.mapTokens Token.withoutLine) condition condition') : ∀ n,
    Lineless (Chain.mapTokens Token.withoutLine) (clauses condition item n) (clauses condition' item' n)
  | 0 => lineless_outOfSteps
  | n + 1 => by
    refine (lineless_accept _).bind (fun o => ?_)
    cases o with
    | some t =>
      refine hcond.bind (fun c => hitem.bind (fun s => (lineless_clauses hcond n).bind (fun ch => ?_)))
      exact lineless_pure (Chain.retry c s ch)
    | none =>
      refine (lineless_accept _).bind (fun o => ?_)
      cases o with
      | some t => exact hitem.bind (fun s => lineless_pure (Chain.otherwise s))
      | none => exact lineless_pure Chain.done

theorem lineless_program : ∀ n,
    Lineless (Stmt.mapTokensAll Token.withoutLine) (program item n) (program item' n)
  | 0 => lineless_outOfSteps
  | n + 1 => by
    refine lineless_atEnd.bind (fun b => Lineless.ite (lineless_pure []) (hitem.bind (fun s => ?_)))
    exact (lineless_program n).bind (fun ss => lineless_pure (s :: ss))

end Nested

theorem lineless_statement : ∀ (n : Nat) (d : Bool),
    Lineless (Stmt.mapTokens Token.withoutLine) (statement eof n d) (statement eof.withoutLine n d)
  | 0, _ => lineless_outOfSteps
  | n + 1, d => by
    have hexpr : Lineless _ (expression eof n) _ := lineless_expression n
    have hbody := lineless_statement n false
    have hitem := lineless_statement n true
    refine lineless_skipNewlines.bind (fun _ => (lineless_accept _).bind (fun o => ?_))
    cases o with
    | none =>
      refine lineless_atEnd.bind (fun b => Lineless.ite (lineless_pure (Stmt.finish eof)) ?_)
      exact (lineless_nextIs _).bind (fun b' => Lineless.ite (lineless_simpleStatement (n + 1)) lineless_unexpected)
    | some t =>
      refine Lineless.ite (hexpr.bind (fun c => hbody.bind (fun s => lineless_pure (Stmt.loop c s)))) ?_
      refine Lineless.ite (hexpr.bind (fun c => hbody.bind (fun s => ?_))) ?_
      · exact (lineless_clauses hbody hexpr n).bind (fun ch => lineless_pure (Stmt.branch c s ch))
      refine Lineless.ite ((lineless_blockBody hitem n).bind (fun body => lineless_pure (Stmt.block body))) ?_
      refine Lineless.ite (lineless_giving t n) ?_
      refine Lineless.ite ((lineless_expect _ _).bind (fun name => lineless_pure (Stmt.increase name))) ?_
      refine Lineless.ite ((lineless_expect _ _).bind (fun name => lineless_pure (Stmt.decrease name))) ?_
      exact Lineless.ite (lineless_definition hitem n) (lineless_declaration n)

end Parser

/-! ## Programs -/

/-- What is left of a reading without lines, given what is left of what was read. -/
def readingWithoutLine {α : Type} (g : α → α) : Except Fault α → Except Fault α
  | .ok a => .ok (g a)
  | .error f => .error f.withoutLine

def Reader.withoutLine (r : Reader) : Reader := ⟨r.position, r.ahead.map Token.withoutLine, r.eof.withoutLine⟩

theorem dropTrivia_withoutLine (ts : List Token) :
    dropTrivia (ts.map Token.withoutLine) = (dropTrivia ts).map Token.withoutLine := List.filter_map

theorem dropTrivia_dropTrivia (ts : List Token) : dropTrivia (dropTrivia ts) = dropTrivia ts := by
  unfold dropTrivia
  rw [List.filter_filter]
  simp only [Bool.and_self]

/-- **Tokens are read by what is no trivia among them.** -/
theorem readProgram_dropTrivia (ts : List Token) : readProgram (dropTrivia ts) = readProgram ts := by
  unfold readProgram Reader.ofTokens
  rw [dropTrivia_dropTrivia]

theorem Reader.ofTokens_withoutLine (ts : List Token) :
    Reader.ofTokens (ts.map Token.withoutLine) = readingWithoutLine Reader.withoutLine (Reader.ofTokens ts) := by
  unfold Reader.ofTokens
  simp only [dropTrivia_withoutLine, List.getLast?_map]
  cases (dropTrivia ts).getLast? with
  | none => rfl
  | some last =>
    have hfind : ((dropTrivia ts).map Token.withoutLine).find? (·.kind == .endOfFile) =
        ((dropTrivia ts).find? (·.kind == .endOfFile)).map Token.withoutLine := List.find?_map
    have htake : ((dropTrivia ts).map Token.withoutLine).takeWhile (!·.kind == .endOfFile) =
        ((dropTrivia ts).takeWhile (!·.kind == .endOfFile)).map Token.withoutLine := List.takeWhile_map
    have hkind : last.withoutLine.kind = last.kind := rfl
    simp only [Option.map_some, hkind, hfind, htake]
    split
    · cases (dropTrivia ts).find? (·.kind == .endOfFile) <;> rfl
    · rfl

/-- **Tokens without lines are read as the program without lines, or refused for the same cause.** -/
theorem readProgram_withoutLine (ts : List Token) : readProgram (ts.map Token.withoutLine) =
    readingWithoutLine (Stmt.mapTokensAll Token.withoutLine) (readProgram ts) := by
  unfold readProgram
  rw [Reader.ofTokens_withoutLine]
  cases Reader.ofTokens ts with
  | error f => rfl
  | ok r =>
    have hsteps : r.withoutLine.ahead.length = r.ahead.length := List.length_map _
    have hstatement : Parser.Lineless _ (Parser.statement r.eof (r.ahead.length + 1) true) _ :=
      Parser.lineless_statement _ _
    have hread := Parser.lineless_program hstatement (r.ahead.length + 1) r.ahead
    simp only [readingWithoutLine, bind, Except.bind, Reader.statements, hsteps]
    simp only [Reader.withoutLine]
    rw [hread]
    cases Parser.program _ _ r.ahead with
    | ok out => rfl
    | error failure => cases failure <;> rfl

end Loot
