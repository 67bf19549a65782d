import Loot.Proofs.Tree.Settled
/-!
# Reading by index

A parser takes tokens from the front of a list, and the end of file stands apart.  Here is the same grammar read in
the other way: all tokens stay where they are, those after the first end of file too, and the reader only moves an
index (`Cursor`).  It looks at the token at the index and, after taking one, at the token before it, and it stops out
of range if there is none.  The two ways agree in what they find, in how far they get and in their faults (`Mirrors`),
so the index never leaves the list, and no token after the first end of file matters
(`reading_stops_at_first_end`).
-/
namespace Loot

/-- Why reading by index stops. -/
inductive Cursor.Halt where
  | failure (f : Failure)
  /-- There is no token at the index. -/
  | outOfRange

abbrev Cursor (α : Type) := StateT Nat (Except Cursor.Halt) α

namespace Cursor

section Reading

variable (tokens : List Token)

/-! ## Tokens at an index -/

def at? (i : Nat) : Except Halt Token :=
  match tokens[i]? with
  | some t => .ok t
  | none => .error .outOfRange

/-- The token at the index. -/
def peek : Cursor Token := fun i => do pure (← at? tokens i, i)

/-- The token before the index. -/
def previous : Cursor Token := fun i =>
  match i with
  | 0 => .error .outOfRange
  | i + 1 => do pure (← at? tokens i, i + 1)

def advance : Cursor Token := fun i => do pure (← at? tokens i, i + 1)

def atEnd : Cursor Bool := do pure ((← peek tokens).kind == .endOfFile)

/-- Does the kind of the token at the index pass the test? An end of file passes none. -/
def check (test : Kind → Bool) : Cursor Bool := do
  if ← atEnd tokens then pure false else pure (test (← peek tokens).kind)

/-- Moves past the token at the index if its kind passes the test, and looks back at it. -/
def accept (test : Kind → Bool) : Cursor (Option Token) := do
  if ← check tokens test then
    let _ ← advance tokens
    pure (some (← previous tokens))
  else pure none

def failAt {α : Type} (line : Line) (text : Text) : Cursor α := fun _ =>
  .error (.failure (.fault { cause := .grammar text, line }))

def outOfSteps {α : Type} : Cursor α := fun _ => .error (.failure .outOfSteps)

def failHere {α : Type} (text : Text) : Cursor α := do failAt (← peek tokens).line text

def unexpected {α : Type} : Cursor α := do
  let t ← peek tokens
  let shown := if t.kind = .endOfFile then "end of file".toList else t.lexeme.quoted
  failAt t.line ("unexpected token ".toList ++ shown)

def expect (kind : Kind) (text : String) : Cursor Token := do
  if ← check tokens (· == kind) then advance tokens else failHere tokens text.toList

def skipNewlines : Nat → Cursor Unit
  | 0 => outOfSteps
  | n + 1 => do
    match ← accept tokens (· == .newline) with
    | some _ => skipNewlines n
    | none => pure ()

/-! ## The grammar -/

def separated {α : Type} (item : Cursor α) : Nat → Cursor (List α)
  | 0 => outOfSteps
  | n + 1 => do
    let a ← item
    match ← accept tokens (· == .comma) with
    | none => pure [a]
    | some _ => pure (a :: (← separated item n))

def items {α : Type} (item : Cursor α) (n : Nat) : Cursor (List α) := do
  if ← check tokens (· == .rightParen) then pure [] else separated tokens item n

def chainFrom (operand : Cursor Expr) (joins : Kind → Bool) : Nat → Expr → Cursor Expr
  | 0, _ => outOfSteps
  | n + 1, left => do
    match ← accept tokens joins with
    | none => pure left
    | some op =>
      let right ← operand
      chainFrom operand joins n (.binary left op right)

def chain (n : Nat) (joins : Kind → Bool) (operand : Cursor Expr) : Cursor Expr := do
  let left ← operand
  chainFrom tokens operand joins n left

def expressionOver (n : Nat) (operand : Cursor Expr) : Cursor Expr :=
  chain tokens n Parser.isEquality (chain tokens n Parser.isComparison
    (chain tokens n Parser.isAdditive (chain tokens n Parser.isMultiplicative operand)))

def operand : Nat → Cursor Expr
  | 0 => outOfSteps
  | n + 1 => do
    match ← accept tokens Parser.startsExpression with
    | none => unexpected tokens
    | some t =>
      if t.kind = .minus then
        let e ← operand n
        pure (.unary t e)
      else if t.kind = .leftParen then
        let e ← expressionOver tokens n (operand n)
        let _ ← expect tokens .rightParen "expected ')' after expression"
        pure e
      else if t.kind = .identifier then
        match ← accept tokens (· == .leftParen) with
        | none => pure (.variable t)
        | some _ =>
          let args ← items tokens (expressionOver tokens n (operand n)) n
          let _ ← expect tokens .rightParen "expected ')' after arguments"
          pure (.call t args)
      else pure (.literal t)

def expression (n : Nat) : Cursor Expr := expressionOver tokens n (operand tokens n)

def endStatement (text : String) : Cursor Unit := do
  match ← accept tokens (· == .newline) with
  | some _ => pure ()
  | none =>
    if (← atEnd tokens) || (← check tokens (· == .rightBrace)) then pure () else failHere tokens text.toList

def statements (item : Cursor Stmt) : Nat → Cursor (List Stmt)
  | 0 => outOfSteps
  | n + 1 => do
    skipNewlines tokens tokens.length
    if (← atEnd tokens) || (← check tokens (· == .rightBrace)) then pure []
    else
      let s ← item
      pure (s :: (← statements item n))

def blockBody (item : Cursor Stmt) (n : Nat) : Cursor (List Stmt) := do
  let body ← statements tokens item n
  let _ ← expect tokens .rightBrace "expected '\x7d' after block"
  pure body

def clauses (condition : Cursor Expr) (body : Cursor Stmt) : Nat → Cursor Chain
  | 0 => outOfSteps
  | n + 1 => do
    match ← accept tokens (· == .retry) with
    | some _ =>
      let c ← condition
      let s ← body
      pure (.retry c s (← clauses condition body n))
    | none =>
      match ← accept tokens (· == .ragequit) with
      | some _ => pure (.otherwise (← body))
      | none => pure .done

/-- What is no statement fails on the line of the token before the index. -/
def simpleStatement (n : Nat) : Cursor Stmt := do
  let e ← expression tokens n
  match e with
  | .variable name =>
    match ← accept tokens (· == .assign) with
    | some _ =>
      let value ← expression tokens n
      endStatement tokens "expected newline after assignment"
      pure (.assign name value)
    | none =>
      endStatement tokens "expected newline after expression"
      pure (.expression (.variable name))
  | .call name args =>
    endStatement tokens "expected newline after expression"
    pure (.expression (.call name args))
  | _ => failAt (← previous tokens).line "invalid expression statement".toList

def declaration (n : Nat) : Cursor Stmt := do
  let name ← expect tokens .identifier "expected variable name"
  match ← accept tokens (· == .assign) with
  | some _ =>
    let e ← expression tokens n
    endStatement tokens "expected newline after variable declaration"
    pure (.declare name (some e))
  | none =>
    endStatement tokens "expected newline after variable declaration"
    pure (.declare name none)

def definition (item : Cursor Stmt) (n : Nat) : Cursor Stmt := do
  let name ← expect tokens .identifier "expected function name"
  let _ ← expect tokens .leftParen "expected '(' after function name"
  let params ← items tokens (expect tokens .identifier "expected parameter name") n
  let _ ← expect tokens .rightParen "expected ')' after parameters"
  let _ ← expect tokens .leftBrace "expected '\x7b' before function body"
  pure (.define name params (← blockBody tokens item n))

def giving (keyword : Token) (n : Nat) : Cursor Stmt := do
  if (← atEnd tokens) || (← check tokens fun k => k == .newline || k == .rightBrace) then
    endStatement tokens "expected newline after return statement"
    pure (.give keyword none)
  else
    let e ← expression tokens n
    endStatement tokens "expected newline after return statement"
    pure (.give keyword (some e))

def statement : Nat → (declares : Bool) → Cursor Stmt
  | 0, _ => outOfSteps
  | n + 1, declares => do
    skipNewlines tokens tokens.length
    match ← accept tokens (Parser.startsStatement declares) with
    | some t =>
      if t.kind = .farm then
        let c ← expression tokens n
        pure (.loop c (← statement n false))
      else if t.kind = .clutch then
        let c ← expression tokens n
        let s ← statement n false
        pure (.branch c s (← clauses tokens (expression tokens n) (statement n false) n))
      else if t.kind = .leftBrace then
        pure (.block (← blockBody tokens (statement n true) n))
      else if t.kind = .spawn then giving tokens t n
      else if t.kind = .buff then
        pure (.increase (← expect tokens .identifier "expected variable name after 'buff'"))
      else if t.kind = .nerf then
        pure (.decrease (← expect tokens .identifier "expected variable name after 'nerf'"))
      else if t.kind = .dlc then definition tokens (statement n true) n
      else declaration tokens n
    | none =>
      if ← atEnd tokens then pure (.finish (← peek tokens))
      else if ← check tokens Parser.startsExpression then simpleStatement tokens (n + 1)
      else unexpected tokens

def program (item : Cursor Stmt) : Nat → Cursor (List Stmt)
  | 0 => outOfSteps
  | n + 1 => do
    if ← atEnd tokens then pure []
    else
      let s ← item
      pure (s :: (← program item n))

/-- Reads statements from the index on until it is at an end of file. -/
def parse (steps : Nat) : Cursor (List Stmt) := program tokens (statement tokens steps true) steps

end Reading

/-! ## Two ways to read -/

variable {α β : Type}

/-- The parser and the cursor ended alike: they found the same and stand at the same place, not before a given index,
or they failed in the same way, unless the parser ran out of steps. -/
def Alike (body : List Token) (low : Nat) (x : Except Failure (α × List Token)) (y : Except Halt (α × Nat)) :
    Prop :=
  (∃ a j, low ≤ j ∧ j ≤ body.length ∧ x = .ok (a, body.drop j) ∧ y = .ok (a, j)) ∨
    (∃ f, x = .error f ∧ y = .error (.failure f)) ∨ x = .error .outOfSteps

/-- **The cursor does at an index what the parser does with the tokens from there on**, and if it finds something, it
has moved so far at least.  It may be given more steps than the parser. -/
def Mirrors (body : List Token) (k : Nat) (p : Parser α) (q : Cursor α) : Prop :=
  ∀ i ≤ body.length, Alike body (i + k) (p (body.drop i)) (q i)

theorem Alike.mono {body : List Token} {low low' : Nat} {x : Except Failure (α × List Token)}
    {y : Except Halt (α × Nat)} (h : Alike body low x y) (hlow : low' ≤ low) : Alike body low' x y :=
  h.imp_left fun ⟨a, j, hj, hrest⟩ => ⟨a, j, Nat.le_trans hlow hj, hrest⟩

theorem bind_ok {q : Cursor α} {g : α → Cursor β} {i j : Nat} {a : α} (h : q i = .ok (a, j)) :
    (q >>= g) i = g a j := by
  simp only [bind, StateT.bind, h, Except.bind]

theorem bind_error {q : Cursor α} {g : α → Cursor β} {i : Nat} {halt : Halt} (h : q i = .error halt) :
    (q >>= g) i = .error halt := by
  simp only [bind, StateT.bind, h, Except.bind]

section Parts

variable {body : List Token} {k : Nat}

theorem mirrors_pure (a : α) : Mirrors body 0 (pure a) (pure a) :=
  fun i hi => .inl ⟨a, i, Nat.le_refl i, hi, rfl, rfl⟩

theorem mirrors_outOfSteps (q : Cursor α) : Mirrors body k Parser.outOfSteps q := fun _ _ => .inr (.inr rfl)

theorem Mirrors.bind {p : Parser α} {q : Cursor α} {f : α → Parser β} {g : α → Cursor β} (hp : Mirrors body k p q)
    (hf : ∀ a, Mirrors body 0 (f a) (g a)) : Mirrors body k (p >>= f) (q >>= g) := by
  intro i hi
  have herror : ∀ failure, p (body.drop i) = .error failure → (p >>= f) (body.drop i) = .error failure := by
    intro failure hpi
    simp only [Bind.bind, StateT.bind, hpi, Except.bind]
  rcases hp i hi with ⟨a, j, hij, hj, hpi, hqi⟩ | ⟨failure, hpi, hqi⟩ | hpi
  · rw [Parser.bind_ok hpi, bind_ok hqi]
    exact (hf a j hj).mono hij
  · exact .inr (.inl ⟨failure, herror failure hpi, bind_error hqi⟩)
  · exact .inr (.inr (herror _ hpi))

theorem Mirrors.weaken {p : Parser α} {q : Cursor α} (h : Mirrors body k p q) : Mirrors body 0 p q :=
  fun i hi => (h i hi).mono (Nat.le_add_right i k)

theorem mirrors_ite {c : Prop} [Decidable c] {p p' : Parser α} {q q' : Cursor α} (hp : Mirrors body k p q)
    (hp' : Mirrors body k p' q') : Mirrors body k (if c then p else p') (if c then q else q') := by
  split
  · exact hp
  · exact hp'

end Parts

/-! ## Tokens before the first end of file -/

section Mirrored

variable {ts body after : List Token} {eof : Token} (h : Ended ts body eof after)

include h

/-- What is at an index up to the first end of file is the next of the tokens from there on. -/
theorem at?_eq {i : Nat} (hi : i ≤ body.length) : at? (dropTrivia ts) i = .ok (Parser.peek eof (body.drop i)) := by
  have hget : (dropTrivia ts)[i]? = some (Parser.peek eof (body.drop i)) := by
    rw [h.split, Parser.peek, List.head?_drop]
    rcases Nat.lt_or_eq_of_le hi with hlt | rfl
    · rw [List.getElem?_append_left hlt, List.getElem?_eq_getElem hlt]
      rfl
    · simp
  unfold at?
  rw [hget]

theorem peek_eq {i : Nat} (hi : i ≤ body.length) :
    peek (dropTrivia ts) i = .ok (Parser.peek eof (body.drop i), i) := by
  unfold peek
  rw [at?_eq h hi]
  rfl

/-- The end of file is next exactly if no token is left before it. -/
theorem isEnd_eq (i : Nat) : ((Parser.peek eof (body.drop i)).kind == .endOfFile) = (body.drop i).isEmpty := by
  cases hdrop : body.drop i with
  | nil => simp [Parser.peek, h.first]
  | cons t us =>
    have hkind : t.kind ≠ .endOfFile := h.before t (List.mem_of_mem_drop (by rw [hdrop]; exact List.mem_cons_self))
    simp [Parser.peek, hkind]

theorem atEnd_eq {i : Nat} (hi : i ≤ body.length) : atEnd (dropTrivia ts) i = .ok ((body.drop i).isEmpty, i) := by
  unfold atEnd
  rw [bind_ok (peek_eq h hi), isEnd_eq h]
  rfl

theorem check_eq (test : Kind → Bool) {i : Nat} (hi : i ≤ body.length) :
    check (dropTrivia ts) test i = .ok ((body.drop i).head?.any (test ·.kind), i) := by
  unfold check
  rw [bind_ok (atEnd_eq h hi)]
  cases hdrop : body.drop i with
  | nil => rfl
  | cons t us =>
    simp only [List.isEmpty_cons, Bool.false_eq_true, if_false]
    rw [bind_ok (peek_eq h hi), hdrop]
    rfl

theorem mirrors_atEnd : Mirrors body 0 Parser.atEnd (atEnd (dropTrivia ts)) :=
  fun i hi => .inl ⟨_, i, Nat.le_refl i, hi, rfl, atEnd_eq h hi⟩

theorem mirrors_nextIs (test : Kind → Bool) : Mirrors body 0 (Parser.nextIs test) (check (dropTrivia ts) test) :=
  fun i hi => .inl ⟨_, i, Nat.le_refl i, hi, rfl, check_eq h test hi⟩

theorem mirrors_failHere (k : Nat) (text : Text) :
    Mirrors body k (Parser.failHere eof text : Parser α) (failHere (dropTrivia ts) text) := by
  intro i hi
  refine .inr (.inl ⟨_, rfl, ?_⟩)
  unfold failHere
  rw [bind_ok (peek_eq h hi)]
  rfl

theorem mirrors_unexpected (k : Nat) :
    Mirrors body k (Parser.unexpected eof : Parser α) (unexpected (dropTrivia ts)) := by
  intro i hi
  refine .inr (.inl ⟨_, rfl, ?_⟩)
  unfold unexpected
  have hend := isEnd_eq h i
  rw [bind_ok (peek_eq h hi)]
  cases hdrop : body.drop i with
  | nil =>
    rw [hdrop] at hend
    simp only [beq_iff_eq.1 hend, if_true]
    rfl
  | cons t us =>
    rw [hdrop] at hend
    simp only [beq_eq_false_iff_ne.1 hend, if_false]
    rfl

omit h in
theorem drop_cases {i : Nat} (hi : i ≤ body.length) :
    body.drop i = [] ∨ ∃ t, i < body.length ∧ body.drop i = t :: body.drop (i + 1) := by
  rcases Nat.lt_or_eq_of_le hi with hlt | rfl
  · exact .inr ⟨body[i], hlt, List.drop_eq_getElem_cons hlt⟩
  · exact .inl List.drop_length

theorem advance_eq {i : Nat} (hi : i ≤ body.length) {t : Token} {us : List Token} (hdrop : body.drop i = t :: us) :
    advance (dropTrivia ts) i = .ok (t, i + 1) := by
  unfold advance
  rw [at?_eq h hi, hdrop]
  rfl

/-- The token before the index, once the cursor has moved. -/
theorem previous_eq {i : Nat} (hi : i ≤ body.length) {t : Token} {us : List Token} (hdrop : body.drop i = t :: us) :
    previous (dropTrivia ts) (i + 1) = .ok (t, i + 1) := by
  unfold previous
  simp only [at?_eq h hi, hdrop]
  rfl

theorem check_cons (test : Kind → Bool) {i : Nat} (hi : i ≤ body.length) {t : Token} {us : List Token}
    (hdrop : body.drop i = t :: us) : check (dropTrivia ts) test i = .ok (test t.kind, i) := by
  rw [check_eq h test hi, hdrop]
  rfl

theorem check_nil (test : Kind → Bool) {i : Nat} (hi : i ≤ body.length) (hdrop : body.drop i = []) :
    check (dropTrivia ts) test i = .ok (false, i) := by
  rw [check_eq h test hi, hdrop]
  rfl

/-- **Taking a token**: it is the one that the cursor looks back at. -/
theorem accept_cases (test : Kind → Bool) {i : Nat} (hi : i ≤ body.length) :
    (∃ t, i < body.length ∧ body.drop i = t :: body.drop (i + 1) ∧ test t.kind = true ∧
      accept (dropTrivia ts) test i = .ok (some t, i + 1)) ∨
    (Parser.NotNext test (body.drop i) ∧ accept (dropTrivia ts) test i = .ok (none, i)) := by
  unfold accept
  rcases drop_cases hi with hnil | ⟨t, hlt, hdrop⟩
  · rw [bind_ok (check_nil h test hi hnil), hnil]
    exact .inr ⟨(fun _ h => nomatch h), rfl⟩
  · rw [bind_ok (check_cons h test hi hdrop)]
    cases htest : test t.kind with
    | false =>
      refine .inr ⟨?_, rfl⟩
      rw [hdrop]
      exact Parser.NotNext.cons htest _
    | true =>
      simp only [if_true]
      rw [bind_ok (advance_eq h hi hdrop), bind_ok (previous_eq h hi hdrop)]
      exact .inl ⟨t, hlt, hdrop, htest, rfl⟩

theorem accept_bind (test : Kind → Bool) {k : Nat} {f : Option Token → Parser β} {g : Option Token → Cursor β}
    (hnone : Mirrors body k (f none) (g none)) (hsome : ∀ t, Mirrors body (k - 1) (f (some t)) (g (some t))) :
    Mirrors body k (Parser.accept test >>= f) (accept (dropTrivia ts) test >>= g) := by
  intro i hi
  rcases accept_cases h test hi with ⟨t, hlt, hdrop, htest, hq⟩ | ⟨hnot, hq⟩
  · rw [hdrop, Parser.bind_ok (Parser.accept_cons htest _), bind_ok hq]
    exact (hsome t (i + 1) hlt).mono (by omega)
  · rw [Parser.bind_ok (Parser.accept_of_notNext hnot), bind_ok hq]
    exact hnone i hi

theorem mirrors_expect (kind : Kind) (text : String) :
    Mirrors body 1 (Parser.expect eof kind text) (expect (dropTrivia ts) kind text) := by
  intro i hi
  have hfail : Alike body (i + 1) ((Parser.failHere eof text.toList : Parser Token) (body.drop i)) _ :=
    mirrors_failHere h 1 text.toList i hi
  unfold Parser.expect expect
  rcases drop_cases hi with hnil | ⟨t, hlt, hdrop⟩
  · have hnot : Parser.NotNext (· == kind) (body.drop i) := by
      rw [hnil]
      exact fun _ h => nomatch h
    rw [bind_ok (check_nil h _ hi hnil), Parser.bind_ok (Parser.accept_of_notNext hnot)]
    exact hfail
  · rw [bind_ok (check_cons h _ hi hdrop)]
    cases htest : t.kind == kind with
    | false =>
      rw [Parser.bind_ok (Parser.accept_of_notNext (by rw [hdrop]; exact Parser.NotNext.cons htest _))]
      exact hfail
    | true =>
      refine .inl ⟨t, i + 1, Nat.le_refl _, hlt, ?_, advance_eq h hi hdrop⟩
      rw [hdrop, Parser.bind_ok (Parser.accept_cons htest _)]
      rfl

theorem skipNewlines_eq : ∀ (n i : Nat), i ≤ body.length → body.length - i < n →
    ∃ j, i ≤ j ∧ j ≤ body.length ∧ Parser.skipNewlines (body.drop i) = .ok ((), body.drop j) ∧
      skipNewlines (dropTrivia ts) n i = .ok ((), j)
  | n + 1, i, hi, hn => by
    unfold skipNewlines
    rcases accept_cases h (· == .newline) hi with ⟨t, hlt, hdrop, htest, hq⟩ | ⟨hnot, hq⟩
    · obtain ⟨j, hij, hj, hp, hskip⟩ := skipNewlines_eq n (i + 1) hlt (by omega)
      refine ⟨j, by omega, hj, ?_, by rw [bind_ok hq]; exact hskip⟩
      rw [hdrop]
      unfold Parser.skipNewlines at hp ⊢
      rw [List.dropWhile_cons]
      simp only [htest, if_true]
      exact hp
    · exact ⟨i, Nat.le_refl i, hi, Parser.skipNewlines_of_notNext hnot, by rw [bind_ok hq]; rfl⟩

theorem mirrors_skipNewlines :
    Mirrors body 0 Parser.skipNewlines (skipNewlines (dropTrivia ts) (dropTrivia ts).length) := by
  intro i hi
  have hlen : body.length - i < (dropTrivia ts).length := by
    rw [h.split, List.length_append, List.length_cons]
    omega
  obtain ⟨j, hij, hj, hp, hq⟩ := skipNewlines_eq h _ i hi hlen
  exact .inl ⟨(), j, hij, hj, hp, hq⟩

/-! ## The two grammars -/

theorem mirrors_separated {item : Parser α} {item' : Cursor α} (hitem : Mirrors body 0 item item') :
    ∀ {m m' : Nat}, m ≤ m' → Mirrors body 0 (Parser.separated item m) (separated (dropTrivia ts) item' m')
  | 0, _, _ => mirrors_outOfSteps _
  | m + 1, m' + 1, hm => by
    refine hitem.bind (fun a => accept_bind h _ (mirrors_pure _) (fun _ => ?_))
    exact (mirrors_separated hitem (Nat.le_of_succ_le_succ hm)).bind (fun as => mirrors_pure _)

theorem mirrors_items {item : Parser α} {item' : Cursor α} (hitem : Mirrors body 0 item item') {m m' : Nat}
    (hm : m ≤ m') : Mirrors body 0 (Parser.items item m) (items (dropTrivia ts) item' m') :=
  (mirrors_nextIs h _).bind fun _ => mirrors_ite (mirrors_pure _) (mirrors_separated h hitem hm)

theorem mirrors_chainFrom {p : Parser Expr} {q : Cursor Expr} (hp : Mirrors body 1 p q) (joins : Kind → Bool) :
    ∀ {m m' : Nat}, m ≤ m' → ∀ l : Expr,
      Mirrors body 0 (Parser.chainFrom p joins m l) (chainFrom (dropTrivia ts) q joins m' l)
  | 0, _, _, _ => mirrors_outOfSteps _
  | _ + 1, _ + 1, hm, _ => accept_bind h _ (mirrors_pure _) fun _ =>
    hp.weaken.bind fun _ => mirrors_chainFrom hp joins (Nat.le_of_succ_le_succ hm) _

theorem mirrors_chain {p : Parser Expr} {q : Cursor Expr} (hp : Mirrors body 1 p q) {n n' : Nat} (hn : n ≤ n')
    (joins : Kind → Bool) : Mirrors body 1 (Parser.chain n joins p) (chain (dropTrivia ts) n' joins q) :=
  hp.bind fun _ => mirrors_chainFrom h hp joins hn _

theorem mirrors_expressionOver {p : Parser Expr} {q : Cursor Expr} (hp : Mirrors body 1 p q) {n n' : Nat}
    (hn : n ≤ n') : Mirrors body 1 (Parser.expressionOver n p) (expressionOver (dropTrivia ts) n' q) :=
  mirrors_chain h (mirrors_chain h (mirrors_chain h (mirrors_chain h hp hn _) hn _) hn _) hn _

theorem mirrors_operand : ∀ {n n' : Nat}, n ≤ n' → Mirrors body 1 (Parser.operand eof n) (operand (dropTrivia ts) n')
  | 0, _, _ => mirrors_outOfSteps _
  | n + 1, n' + 1, hn => by
    have hn' := Nat.le_of_succ_le_succ hn
    have hoperand := mirrors_operand hn'
    have hexpr : Mirrors body 0 (Parser.expressionOver n (Parser.operand eof n)) _ :=
      (mirrors_expressionOver h hoperand hn').weaken
    refine accept_bind h _ (mirrors_unexpected h 1) (fun t => ?_)
    refine mirrors_ite ?_ (mirrors_ite ?_ (mirrors_ite ?_ (mirrors_pure _)))
    · exact hoperand.weaken.bind fun _ => mirrors_pure _
    · exact hexpr.bind fun _ => (mirrors_expect h _ _).weaken.bind fun _ => mirrors_pure _
    · refine accept_bind h _ (mirrors_pure _) (fun _ => ?_)
      exact (mirrors_items h hexpr hn').bind fun _ => (mirrors_expect h _ _).weaken.bind fun _ => mirrors_pure _

theorem mirrors_expression {n n' : Nat} (hn : n ≤ n') :
    Mirrors body 1 (Parser.expression eof n) (expression (dropTrivia ts) n') :=
  mirrors_expressionOver h (mirrors_operand h hn) hn

theorem mirrors_endStatement (text : String) :
    Mirrors body 0 (Parser.endStatement eof text) (endStatement (dropTrivia ts) text) :=
  accept_bind h _ ((mirrors_atEnd h).bind fun _ => (mirrors_nextIs h _).bind fun _ =>
    mirrors_ite (mirrors_pure _) (mirrors_failHere h 0 _)) fun _ => mirrors_pure _

theorem mirrors_statements {item : Parser Stmt} {item' : Cursor Stmt} (hitem : Mirrors body 0 item item') :
    ∀ {m m' : Nat}, m ≤ m' → Mirrors body 0 (Parser.statements item m) (statements (dropTrivia ts) item' m')
  | 0, _, _ => mirrors_outOfSteps _
  | m + 1, m' + 1, hm => by
    refine (mirrors_skipNewlines h).bind fun _ => ?_
    refine (mirrors_atEnd h).bind fun _ => (mirrors_nextIs h _).bind fun _ => ?_
    refine mirrors_ite (mirrors_pure _) (hitem.bind fun s => ?_)
    exact (mirrors_statements hitem (Nat.le_of_succ_le_succ hm)).bind fun _ => mirrors_pure _

theorem mirrors_blockBody {item : Parser Stmt} {item' : Cursor Stmt} (hitem : Mirrors body 0 item item') {n n' : Nat}
    (hn : n ≤ n') : Mirrors body 0 (Parser.blockBody eof item n) (blockBody (dropTrivia ts) item' n') :=
  (mirrors_statements h hitem hn).bind fun _ => (mirrors_expect h _ _).weaken.bind fun _ => mirrors_pure _

theorem mirrors_clauses {c : Parser Expr} {c' : Cursor Expr} {s : Parser Stmt} {s' : Cursor Stmt}
    (hc : Mirrors body 0 c c') (hs : Mirrors body 0 s s') :
    ∀ {m m' : Nat}, m ≤ m' → Mirrors body 0 (Parser.clauses c s m) (clauses (dropTrivia ts) c' s' m')
  | 0, _, _ => mirrors_outOfSteps _
  | m + 1, m' + 1, hm => by
    refine accept_bind h _ (accept_bind h _ (mirrors_pure _) fun _ => ?_) (fun _ => ?_)
    · exact hs.bind fun _ => mirrors_pure _
    · refine hc.bind fun _ => hs.bind fun _ => ?_
      exact (mirrors_clauses hc hs (Nat.le_of_succ_le_succ hm)).bind fun _ => mirrors_pure _

/-- The line of the last token taken is the line of the token before the index. -/
theorem lastLine_eq {i j : Nat} (hij : i < j) (hj : j ≤ body.length) :
    ∃ t, previous (dropTrivia ts) j = .ok (t, j) ∧ Parser.lastLine (body.drop i) (body.drop j) = t.line := by
  obtain ⟨l, rfl⟩ : ∃ l, j = l + 1 := ⟨j - 1, by omega⟩
  refine ⟨body[l], previous_eq h (Nat.le_of_succ_le hj) (List.drop_eq_getElem_cons hj), ?_⟩
  have htaken : (body.drop i).length - (body.drop (l + 1)).length = l - i + 1 := by
    rw [List.length_drop, List.length_drop]
    omega
  have hlast : ((body.drop i).take (l - i + 1)).getLast? = some body[l] := by
    rw [List.getLast?_take, if_neg (Nat.succ_ne_zero _), Nat.add_sub_cancel, List.getElem?_drop,
      Nat.add_sub_cancel' (Nat.le_of_lt_succ hij), List.getElem?_eq_getElem hj]
    rfl
  rw [Parser.lastLine, htaken, hlast]
  rfl

theorem mirrors_simpleStatement {n n' : Nat} (hn : n ≤ n') :
    Mirrors body 0 (Parser.simpleStatement eof n) (simpleStatement (dropTrivia ts) n') := by
  intro i hi
  have herror : ∀ f, Parser.expression eof n (body.drop i) = .error f →
      Parser.simpleStatement eof n (body.drop i) = .error f := by
    intro f hp
    unfold Parser.simpleStatement
    rw [hp]
    rfl
  unfold simpleStatement
  rcases mirrors_expression h hn i hi with ⟨e, j, hij, hj, hp, hq⟩ | ⟨f, hp, hq⟩ | hp
  · rw [bind_ok hq]
    have hfail : (∀ rest, Parser.simpleStatement eof n (body.drop i) =
        Parser.failAt (Parser.lastLine (body.drop i) (body.drop j)) "invalid expression statement".toList rest) →
        Alike body (i + 0) (Parser.simpleStatement eof n (body.drop i))
          ((do failAt (← previous (dropTrivia ts)).line "invalid expression statement".toList : Cursor Stmt) j) := by
      intro hp'
      obtain ⟨t, hprevious, hline⟩ := lastLine_eq h (Nat.lt_of_succ_le hij) hj
      rw [hp' [], hline, bind_ok hprevious]
      exact .inr (.inl ⟨_, rfl, rfl⟩)
    match e, hp with
    | .variable name, hp =>
      rw [Parser.simpleStatement_variable hp]
      refine Alike.mono (accept_bind h (k := 0) _ ?_ (fun _ => ?_) j hj) (Nat.le_of_succ_le hij)
      · exact (mirrors_endStatement h _).bind fun _ => mirrors_pure _
      · refine (mirrors_expression h hn).weaken.bind fun _ => ?_
        exact (mirrors_endStatement h _).bind fun _ => mirrors_pure _
    | .call name args, hp =>
      rw [Parser.simpleStatement_call hp]
      exact ((mirrors_endStatement h _).bind (fun _ => mirrors_pure _) j hj).mono (Nat.le_of_succ_le hij)
    | .literal token, hp => exact hfail (fun _ => by unfold Parser.simpleStatement; rw [hp]; rfl)
    | .unary op e, hp => exact hfail (fun _ => by unfold Parser.simpleStatement; rw [hp]; rfl)
    | .binary l op r, hp => exact hfail (fun _ => by unfold Parser.simpleStatement; rw [hp]; rfl)
  · exact .inr (.inl ⟨f, herror f hp, bind_error hq⟩)
  · exact .inr (.inr (herror _ hp))

theorem mirrors_declaration {n n' : Nat} (hn : n ≤ n') :
    Mirrors body 0 (Parser.declaration eof n) (declaration (dropTrivia ts) n') := by
  refine (mirrors_expect h _ _).weaken.bind fun name => accept_bind h _ ?_ fun _ => ?_
  · exact (mirrors_endStatement h _).bind fun _ => mirrors_pure _
  · refine (mirrors_expression h hn).weaken.bind fun _ => ?_
    exact (mirrors_endStatement h _).bind fun _ => mirrors_pure _

theorem mirrors_definition {item : Parser Stmt} {item' : Cursor Stmt} (hitem : Mirrors body 0 item item') {n n' : Nat}
    (hn : n ≤ n') : Mirrors body 0 (Parser.definition eof item n) (definition (dropTrivia ts) item' n') := by
  refine (mirrors_expect h _ _).weaken.bind fun _ => (mirrors_expect h _ _).weaken.bind fun _ => ?_
  refine (mirrors_items h (mirrors_expect h _ _).weaken hn).bind fun _ => ?_
  refine (mirrors_expect h _ _).weaken.bind fun _ => (mirrors_expect h _ _).weaken.bind fun _ => ?_
  exact (mirrors_blockBody h hitem hn).bind fun _ => mirrors_pure _

theorem mirrors_giving (keyword : Token) {n n' : Nat} (hn : n ≤ n') :
    Mirrors body 0 (Parser.giving eof keyword n) (giving (dropTrivia ts) keyword n') := by
  refine (mirrors_atEnd h).bind fun _ => (mirrors_nextIs h _).bind fun _ => mirrors_ite ?_ ?_
  · exact (mirrors_endStatement h _).bind fun _ => mirrors_pure _
  · refine (mirrors_expression h hn).weaken.bind fun _ => ?_
    exact (mirrors_endStatement h _).bind fun _ => mirrors_pure _

/-- Where only the end of the program is left, it is the token at the index. -/
theorem mirrors_finish {p : Parser Stmt} {q : Cursor Stmt} (hpq : Mirrors body 0 p q) :
    Mirrors body 0 (do if ← Parser.atEnd then pure (.finish eof) else p)
      (do if ← atEnd (dropTrivia ts) then pure (.finish (← peek (dropTrivia ts))) else q) := by
  intro i hi
  rcases drop_cases hi with hnil | ⟨t, -, hdrop⟩
  · rw [bind_ok (atEnd_eq h hi), hnil]
    refine .inl ⟨.finish eof, i, Nat.le_refl i, hi, by rw [hnil]; rfl, ?_⟩
    simp only [List.isEmpty_nil, if_true]
    rw [bind_ok (peek_eq h hi), hnil]
    rfl
  · have hsame := hpq i hi
    rw [bind_ok (atEnd_eq h hi), hdrop]
    rw [hdrop] at hsame
    exact hsame

theorem mirrors_statement : ∀ {n n' : Nat}, n ≤ n' → ∀ d : Bool,
    Mirrors body 0 (Parser.statement eof n d) (statement (dropTrivia ts) n' d)
  | 0, _, _, _ => mirrors_outOfSteps _
  | n + 1, n' + 1, hn, d => by
    have hn' := Nat.le_of_succ_le_succ hn
    have hexpr : Mirrors body 0 (Parser.expression eof n) _ := (mirrors_expression h hn').weaken
    have hbody := mirrors_statement hn' false
    have hitem := mirrors_statement hn' true
    refine (mirrors_skipNewlines h).bind fun _ => accept_bind h _ ?_ fun t => ?_
    · refine mirrors_finish h ((mirrors_nextIs h _).bind fun _ => ?_)
      exact mirrors_ite (mirrors_simpleStatement h hn) (mirrors_unexpected h 0)
    · refine mirrors_ite ?_ (mirrors_ite ?_ (mirrors_ite ?_ (mirrors_ite ?_ (mirrors_ite ?_ (mirrors_ite ?_
        (mirrors_ite ?_ ?_))))))
      · exact hexpr.bind fun _ => hbody.bind fun _ => mirrors_pure _
      · refine hexpr.bind fun _ => hbody.bind fun _ => ?_
        exact (mirrors_clauses h hexpr hbody hn').bind fun _ => mirrors_pure _
      · exact (mirrors_blockBody h hitem hn').bind fun _ => mirrors_pure _
      · exact mirrors_giving h t hn'
      · exact (mirrors_expect h _ _).weaken.bind fun _ => mirrors_pure _
      · exact (mirrors_expect h _ _).weaken.bind fun _ => mirrors_pure _
      · exact mirrors_definition h hitem hn'
      · exact mirrors_declaration h hn'

theorem mirrors_program {item : Parser Stmt} {item' : Cursor Stmt} (hitem : Mirrors body 0 item item') :
    ∀ {m m' : Nat}, m ≤ m' → Mirrors body 0 (Parser.program item m) (program (dropTrivia ts) item' m')
  | 0, _, _ => mirrors_outOfSteps _
  | _ + 1, _ + 1, hm => (mirrors_atEnd h).bind fun _ => mirrors_ite (mirrors_pure _) (hitem.bind fun _ =>
    (mirrors_program hitem (Nat.le_of_succ_le_succ hm)).bind fun _ => mirrors_pure _)

/-- **Reading by index gives what reading gives**, with any number of steps above the number of tokens before the
first end of file. -/
theorem parse_eq {steps : Nat} (hsteps : body.length < steps) : parse (dropTrivia ts) steps 0 =
    match Reader.statements ⟨0, body, eof⟩ with
    | .ok (found, r) => .ok (found, r.position)
    | .error f => .error (.failure (.fault f)) := by
  have henough := Nat.lt_succ_self body.length
  have hsettles : Parser.Settles eof _ body _ := Parser.settles_program _ body henough henough
  have hmirrors := mirrors_program h (mirrors_statement h hsteps true) hsteps 0 (Nat.zero_le _)
  rw [List.drop_zero] at hmirrors
  unfold Reader.statements
  rcases hmirrors with ⟨found, j, -, hj, hp, hq⟩ | ⟨failure, hp, hq⟩ | hp
  · -- nothing is left, so the index is at the first end of file
    obtain ⟨-, hdrop, -⟩ := hsettles.of_ok hp
    have hend : body.length = j := Nat.le_antisymm (List.drop_eq_nil_iff.1 hdrop) hj
    simp only
    rw [hp]
    simp only [hdrop, List.length_nil]
    rw [parse, hq, ← hend]
    simp
  · unfold Parser.Settles at hsettles
    rw [hp] at hsettles
    simp only
    rw [hp, parse, hq]
    cases failure with
    | fault f => rfl
    | outOfSteps => exact hsettles.elim
  · unfold Parser.Settles at hsettles
    rw [hp] at hsettles
    exact hsettles.elim

/-- At the first end of file nothing more is found. -/
theorem parse_again {steps : Nat} (hsteps : 0 < steps) :
    parse (dropTrivia ts) steps body.length = .ok ([], body.length) := by
  obtain ⟨n, rfl⟩ := Nat.exists_eq_succ_of_ne_zero (Nat.ne_of_gt hsteps)
  unfold parse program
  rw [bind_ok (atEnd_eq h (Nat.le_refl _)), List.drop_length]
  rfl

end Mirrored

end Cursor

/-- **Reading always stops, at the first end of file.**  Tokens without an end of file at their end are refused.  Of
others, with more steps than tokens before the first end of file, a program is read up to that end, where nothing more
is found, or a fault is found on the line of a token up to it.  By index the outcome is the same and never out of
range, and it is the same for all tokens that go on in any way after that end. -/
theorem reading_stops_at_first_end (ts : List Token) :
    ((∀ last, (dropTrivia ts).getLast? = some last → last.kind ≠ .endOfFile) →
      Reader.ofTokens ts = .error { cause := .grammar "token stream must end with EOF".toList, line := none }) ∧
    ∀ last, (dropTrivia ts).getLast? = some last → last.kind = .endOfFile →
      ∃ body eof after, Ended ts body eof after ∧ ∃ r, Reader.ofTokens ts = .ok r ∧
        ((∃ program r', r.statements = .ok (program, r') ∧ r'.position = body.length ∧
          r'.statements = .ok ([], r') ∧ ∀ steps, body.length < steps →
            Cursor.parse (dropTrivia ts) steps 0 = .ok (program, body.length) ∧
            Cursor.parse (dropTrivia ts) steps body.length = .ok ([], body.length)) ∨
        ∃ f, r.statements = .error f ∧ f.IsOfGrammar (body ++ [eof]) ∧
          ∀ steps, body.length < steps → Cursor.parse (dropTrivia ts) steps 0 = .error (.failure (.fault f))) ∧
        ∀ ts' after', Ended ts' body eof after' → Reader.ofTokens ts' = .ok r ∧
          ∀ steps, body.length < steps →
            Cursor.parse (dropTrivia ts') steps 0 = Cursor.parse (dropTrivia ts) steps 0 := by
  constructor
  · intro hlast
    refine Reader.ofTokens_refused fun hended => ?_
    obtain ⟨last, hsome, hkind⟩ := (exists_ended_iff ts).1 hended
    exact hlast last hsome hkind
  · intro last hlast hkind
    obtain ⟨body, eof, after, h⟩ := (exists_ended_iff ts).2 ⟨last, hlast, hkind⟩
    refine ⟨body, eof, after, h, ⟨0, body, eof⟩, h.ofTokens_eq, ?_, fun ts' after' h' => ⟨h'.ofTokens_eq, ?_⟩⟩
    · rcases Reader.statements_cases ⟨0, body, eof⟩ with ⟨program, -, hread⟩ | ⟨f, hf, hread⟩
      · rw [Nat.zero_add] at hread
        refine .inl ⟨program, _, hread, rfl, rfl, fun steps hsteps => ⟨?_, ?_⟩⟩
        · rw [Cursor.parse_eq h hsteps, hread]
        · exact Cursor.parse_again h (Nat.zero_lt_of_lt hsteps)
      · refine .inr ⟨f, hread, hf, fun steps hsteps => ?_⟩
        rw [Cursor.parse_eq h hsteps, hread]
    · intro steps hsteps
      rw [Cursor.parse_eq h' hsteps, Cursor.parse_eq h hsteps]

/-- The tokens of `x`, with a comment, a stray parenthesis and a second end of file after the first. -/
def strayTokens : List Token :=
  [⟨.identifier, ['x'], some 1⟩, .plain (some 1) .endOfFile, .plain (some 1) .comment, .plain (some 1) .rightParen,
    .plain (some 2) .endOfFile]

/-- They are read up to the first end of file, at index 1.  The comment alone is refused. -/
theorem reading_stops_at_first_end_stray :
    Reader.ofTokens [.plain (some 1) .comment] =
      .error { cause := .grammar "token stream must end with EOF".toList, line := none } ∧
    ∃ r program r', Reader.ofTokens strayTokens = .ok r ∧ r.statements = .ok (program, r') ∧ r'.position = 1 ∧
      r'.statements = .ok ([], r') ∧ Cursor.parse (dropTrivia strayTokens) 2 0 = .ok (program, 1) := by
  refine ⟨(reading_stops_at_first_end _).1 (fun last h => nomatch h), ?_⟩
  obtain ⟨body, eof, after, h, r, hr, hcases, -⟩ := (reading_stops_at_first_end strayTokens).2 _ rfl rfl
  have hread : Reader.ofTokens strayTokens =
      .ok ⟨0, [⟨.identifier, ['x'], some 1⟩], .plain (some 1) .endOfFile⟩ := rfl
  rw [hread] at hr
  obtain rfl : body = [⟨.identifier, ['x'], some 1⟩] := by
    have heq := h.ofTokens_eq
    rw [hread] at heq
    injection heq with heq
    injection heq with _ hbody
    exact hbody.symm
  rcases hcases with ⟨program, r', hstatements, hposition, hagain, hparse⟩ | ⟨f, herror, -⟩
  · exact ⟨r, program, r', hr ▸ hread, hstatements, hposition, hagain, (hparse 2 (by decide)).1⟩
  · cases hr
    cases herror

end Loot
