import Loot.Proofs.Tree.RoundTrip
/-!
# How programs are read

The grammar as rules about the tokens before and after a phrase, without steps and without failures:
`ReadsExpr`, `ReadsStmt` and `ReadsProgram`.  A rule says what was taken and what had to come next, so
whatever holds of all programs that can be read is shown by going through the rules.  The parser finds every
reading (`ReadsExpr.readAt_eq`, `ReadsStmt.statement_eq`, `ReadsProgram.program_eq`).
-/
namespace Loot

namespace Parser

/-! ## Rules for expressions -/

mutual

/-- **An expression of a level, read from the first tokens down to the second.** -/
inductive ReadsExpr : Nat → Expr → List Token → List Token → Prop
  | literal {t : Token} {rest : List Token} : isLiteral t.kind = true → ReadsExpr 0 (.literal t) (t :: rest) rest
  | variable {name : Token} {rest : List Token} : name.kind = .identifier → NotNext (· == .leftParen) rest →
      ReadsExpr 0 (.variable name) (name :: rest) rest
  | call {name left right : Token} {rest : List Token} : name.kind = .identifier → left.kind = .leftParen →
      right.kind = .rightParen → ReadsExpr 0 (.call name []) (name :: left :: right :: rest) rest
  | callArgs {name left right : Token} {args : List Expr} {ts rest : List Token} : name.kind = .identifier →
      left.kind = .leftParen → ReadsArgs args ts (right :: rest) → right.kind = .rightParen →
      ReadsExpr 0 (.call name args) (name :: left :: ts) rest
  | unary {op : Token} {e : Expr} {ts rest : List Token} : op.kind = .minus → ReadsExpr 0 e ts rest →
      ReadsExpr 0 (.unary op e) (op :: ts) rest
  | parens {left right : Token} {e : Expr} {ts rest : List Token} : left.kind = .leftParen →
      ReadsExpr 4 e ts (right :: rest) → right.kind = .rightParen → ReadsExpr 0 e (left :: ts) rest
  | chain {k : Nat} {l e : Expr} {ts us rest : List Token} : ReadsExpr k l ts us → ReadsMore k l e us rest →
      ReadsExpr (k + 1) e ts rest

/-- What an expression becomes by the operators and operands of a level that follow it. -/
inductive ReadsMore : Nat → Expr → Expr → List Token → List Token → Prop
  | stop {k : Nat} {l : Expr} {rest : List Token} : NotNext (joins k) rest → ReadsMore k l l rest rest
  | more {k : Nat} {l r e : Expr} {op : Token} {ts us rest : List Token} : joins k op.kind = true →
      ReadsExpr k r ts us → ReadsMore k (.binary l op r) e us rest → ReadsMore k l e (op :: ts) rest

/-- One or more expressions with commas between them. -/
inductive ReadsArgs : List Expr → List Token → List Token → Prop
  | last {e : Expr} {ts rest : List Token} : ReadsExpr 4 e ts rest → NotNext (· == .comma) rest →
      ReadsArgs [e] ts rest
  | more {e : Expr} {es : List Expr} {comma : Token} {ts us rest : List Token} : ReadsExpr 4 e ts (comma :: us) →
      comma.kind = .comma → ReadsArgs es us rest → ReadsArgs (e :: es) ts rest

end

/-! ## Rules for statements -/

/-- The end of a simple statement. -/
inductive Ends : List Token → List Token → Prop
  | newline {t : Token} {rest : List Token} : t.kind = .newline → Ends (t :: rest) rest
  | brace {t : Token} {rest : List Token} : t.kind = .rightBrace → Ends (t :: rest) (t :: rest)
  | done : Ends [] []

/-- One or more names with commas between them. -/
inductive ReadsNames : List Token → List Token → List Token → Prop
  | last {name : Token} {rest : List Token} : name.kind = .identifier → NotNext (· == .comma) rest →
      ReadsNames [name] (name :: rest) rest
  | more {name comma : Token} {names ts rest : List Token} : name.kind = .identifier → comma.kind = .comma →
      ReadsNames names ts rest → ReadsNames (name :: names) (name :: comma :: ts) rest

/-- Parameters, none or some. -/
inductive ReadsParams : List Token → List Token → List Token → Prop
  | none {right : Token} {rest : List Token} : right.kind = .rightParen → ReadsParams [] (right :: rest) rest
  | some {right : Token} {names ts rest : List Token} : ReadsNames names ts (right :: rest) →
      right.kind = .rightParen → ReadsParams names ts rest

mutual

/-- **A statement, read from the first tokens down to the second.**  Only where it is allowed, a declaration
counts as one. -/
inductive ReadsStmt (eof : Token) : Bool → Stmt → List Token → List Token → Prop
  | newline {d : Bool} {s : Stmt} {t : Token} {ts rest : List Token} : t.kind = .newline →
      ReadsStmt eof d s ts rest → ReadsStmt eof d s (t :: ts) rest
  | finish {d : Bool} : ReadsStmt eof d (.finish eof) [] []
  | loop {d : Bool} {t : Token} {c : Expr} {s : Stmt} {ts us rest : List Token} : t.kind = .farm →
      ReadsExpr 4 c ts us → ReadsStmt eof false s us rest → ReadsStmt eof d (.loop c s) (t :: ts) rest
  | branch {d : Bool} {t : Token} {c : Expr} {s : Stmt} {ch : Chain} {ts us vs rest : List Token} :
      t.kind = .clutch → ReadsExpr 4 c ts us → ReadsStmt eof false s us vs → ReadsChain eof ch vs rest →
      ReadsStmt eof d (.branch c s ch) (t :: ts) rest
  | block {d : Bool} {t : Token} {ss : List Stmt} {ts rest : List Token} : t.kind = .leftBrace →
      ReadsBody eof ss ts rest → ReadsStmt eof d (.block ss) (t :: ts) rest
  | giveNone {d : Bool} {t : Token} {ts rest : List Token} : t.kind = .spawn → Ends ts rest →
      ReadsStmt eof d (.give t none) (t :: ts) rest
  | giveSome {d : Bool} {t : Token} {e : Expr} {ts us rest : List Token} : t.kind = .spawn →
      ReadsExpr 4 e ts us → Ends us rest → ReadsStmt eof d (.give t (some e)) (t :: ts) rest
  | increase {d : Bool} {t name : Token} {rest : List Token} : t.kind = .buff → name.kind = .identifier →
      ReadsStmt eof d (.increase name) (t :: name :: rest) rest
  | decrease {d : Bool} {t name : Token} {rest : List Token} : t.kind = .nerf → name.kind = .identifier →
      ReadsStmt eof d (.decrease name) (t :: name :: rest) rest
  | define {t name left brace : Token} {params : List Token} {body : List Stmt} {ts us rest : List Token} :
      t.kind = .dlc → name.kind = .identifier → left.kind = .leftParen → ReadsParams params ts (brace :: us) →
      brace.kind = .leftBrace → ReadsBody eof body us rest →
      ReadsStmt eof true (.define name params body) (t :: name :: left :: ts) rest
  | declareNone {t name : Token} {ts rest : List Token} : t.kind = .loot → name.kind = .identifier → Ends ts rest →
      ReadsStmt eof true (.declare name none) (t :: name :: ts) rest
  | declareSome {t name sign : Token} {e : Expr} {ts us rest : List Token} : t.kind = .loot →
      name.kind = .identifier → sign.kind = .assign → ReadsExpr 4 e ts us → Ends us rest →
      ReadsStmt eof true (.declare name (some e)) (t :: name :: sign :: ts) rest
  | expression {d : Bool} {e : Expr} {ts us rest : List Token} : ReadsExpr 4 e ts us → e.standsAlone = true →
      Ends us rest → ReadsStmt eof d (.expression e) ts rest
  | assign {d : Bool} {target sign : Token} {e : Expr} {ts us vs rest : List Token} :
      ReadsExpr 4 (.variable target) ts (sign :: us) → sign.kind = .assign → ReadsExpr 4 e us vs → Ends vs rest →
      ReadsStmt eof d (.assign target e) ts rest

/-- The statements of a block and its closing brace. -/
inductive ReadsBody (eof : Token) : List Stmt → List Token → List Token → Prop
  | close {t : Token} {rest : List Token} : t.kind = .rightBrace → ReadsBody eof [] (t :: rest) rest
  | newline {ss : List Stmt} {t : Token} {ts rest : List Token} : t.kind = .newline → ReadsBody eof ss ts rest →
      ReadsBody eof ss (t :: ts) rest
  | cons {s : Stmt} {ss : List Stmt} {t : Token} {ts us rest : List Token} : t.kind ≠ .newline →
      t.kind ≠ .rightBrace → ReadsStmt eof true s (t :: ts) us → ReadsBody eof ss us rest →
      ReadsBody eof (s :: ss) (t :: ts) rest

/-- The clauses after the first branch of a choice. -/
inductive ReadsChain (eof : Token) : Chain → List Token → List Token → Prop
  | done {rest : List Token} : NotNext isClause rest → ReadsChain eof .done rest rest
  | otherwise {t : Token} {s : Stmt} {ts rest : List Token} : t.kind = .ragequit → ReadsStmt eof false s ts rest →
      ReadsChain eof (.otherwise s) (t :: ts) rest
  | retry {t : Token} {c : Expr} {s : Stmt} {ch : Chain} {ts us vs rest : List Token} : t.kind = .retry →
      ReadsExpr 4 c ts us → ReadsStmt eof false s us vs → ReadsChain eof ch vs rest →
      ReadsChain eof (.retry c s ch) (t :: ts) rest

end

/-- **A program, read from all its tokens.** -/
inductive ReadsProgram (eof : Token) : List Stmt → List Token → Prop
  | nil : ReadsProgram eof [] []
  | cons {s : Stmt} {ss : List Stmt} {t : Token} {ts us : List Token} : ReadsStmt eof true s (t :: ts) us →
      ReadsProgram eof ss us → ReadsProgram eof (s :: ss) (t :: ts)

/-! ## A reading takes tokens from the front -/

mutual

theorem ReadsExpr.start {k : Nat} {e : Expr} {ts rest : List Token} :
    ReadsExpr k e ts rest → ∃ t us, ts = t :: us ∧ startsExpression t.kind = true ∧ rest <:+ us
  | .literal h => ⟨_, _, rfl, by simp [startsExpression, h], List.suffix_rfl⟩
  | .variable h _ => ⟨_, _, rfl, by simp [startsExpression, h], List.suffix_rfl⟩
  | .call h _ _ => ⟨_, _, rfl, by simp [startsExpression, h], (List.suffix_cons _ _).trans (List.suffix_cons _ _)⟩
  | .callArgs h _ hargs _ => by
    obtain ⟨t, us, rfl, -, hus⟩ := hargs.start
    exact ⟨_, _, rfl, by simp [startsExpression, h],
      (((List.suffix_cons _ _).trans hus).trans (List.suffix_cons _ _)).trans (List.suffix_cons _ _)⟩
  | .unary h he => by
    obtain ⟨t, us, rfl, -, hus⟩ := he.start
    exact ⟨_, _, rfl, by simp [startsExpression, h], hus.trans (List.suffix_cons _ _)⟩
  | .parens h he _ => by
    obtain ⟨t, us, rfl, -, hus⟩ := he.start
    exact ⟨_, _, rfl, by simp [startsExpression, h], ((List.suffix_cons _ _).trans hus).trans (List.suffix_cons _ _)⟩
  | .chain hl hmore => by
    obtain ⟨t, us, rfl, ht, hus⟩ := hl.start
    exact ⟨t, us, rfl, ht, hmore.suffix.trans hus⟩

theorem ReadsMore.suffix {k : Nat} {l e : Expr} {ts rest : List Token} : ReadsMore k l e ts rest → rest <:+ ts
  | .stop _ => List.suffix_rfl
  | .more _ hr hmore => by
    obtain ⟨t, us, rfl, -, hus⟩ := hr.start
    exact ((hmore.suffix.trans hus).trans (List.suffix_cons _ _)).trans (List.suffix_cons _ _)

theorem ReadsArgs.start {args : List Expr} {ts rest : List Token} :
    ReadsArgs args ts rest → ∃ t us, ts = t :: us ∧ startsExpression t.kind = true ∧ rest <:+ us
  | .last he _ => he.start
  | .more he _ hargs => by
    obtain ⟨t, us, rfl, ht, hus⟩ := he.start
    obtain ⟨t', us', rfl, -, hus'⟩ := hargs.start
    exact ⟨t, us, rfl, ht, ((hus'.trans (List.suffix_cons _ _)).trans (List.suffix_cons _ _)).trans hus⟩

end

theorem ReadsExpr.shorter {k : Nat} {e : Expr} {ts rest : List Token} (h : ReadsExpr k e ts rest) :
    rest.length < ts.length := by
  obtain ⟨t, us, rfl, -, hus⟩ := h.start
  exact Nat.lt_succ_of_le hus.length_le

theorem Ends.suffix {ts rest : List Token} : Ends ts rest → rest <:+ ts
  | .newline _ => List.suffix_cons _ _
  | .brace _ => List.suffix_rfl
  | .done => List.suffix_rfl

theorem ReadsNames.start {names ts rest : List Token} :
    ReadsNames names ts rest → ∃ t us, ts = t :: us ∧ t.kind = .identifier ∧ rest <:+ us
  | .last h _ => ⟨_, _, rfl, h, List.suffix_rfl⟩
  | .more h _ hmore => by
    obtain ⟨t, us, rfl, -, hus⟩ := hmore.start
    exact ⟨_, _, rfl, h, (hus.trans (List.suffix_cons _ _)).trans (List.suffix_cons _ _)⟩

theorem ReadsParams.shorter {params ts rest : List Token} : ReadsParams params ts rest → rest.length < ts.length
  | .none _ => Nat.lt_succ_self _
  | .some hnames _ => by
    obtain ⟨t, us, rfl, -, hus⟩ := hnames.start
    have := hus.length_le
    simp only [List.length_cons] at this ⊢
    omega

mutual

/-- No statement but the end of the program is read from nothing. -/
theorem ReadsStmt.length_le {eof : Token} {d : Bool} {s : Stmt} {ts rest : List Token} :
    ReadsStmt eof d s ts rest → rest.length ≤ ts.length - 1
  | .newline _ h => by
    have := h.length_le
    rw [List.length_cons]
    omega
  | .finish => Nat.le_refl _
  | .loop _ hc hs => by
    have := hc.shorter
    have := hs.length_le
    rw [List.length_cons]
    omega
  | .branch _ hc hs hch => by
    have := hc.shorter
    have := hs.length_le
    have := hch.length_le
    rw [List.length_cons]
    omega
  | .block _ hbody => by
    have := hbody.shorter
    rw [List.length_cons]
    omega
  | .giveNone _ hend => hend.suffix.length_le
  | .giveSome _ he hend => by
    have := he.shorter
    have := hend.suffix.length_le
    rw [List.length_cons]
    omega
  | .increase _ _ => by
    simp only [List.length_cons]
    omega
  | .decrease _ _ => by
    simp only [List.length_cons]
    omega
  | .define _ _ _ hparams _ hbody => by
    have := hparams.shorter
    have := hbody.shorter
    simp only [List.length_cons] at *
    omega
  | .declareNone _ _ hend => by
    have := hend.suffix.length_le
    simp only [List.length_cons]
    omega
  | .declareSome _ _ _ he hend => by
    have := he.shorter
    have := hend.suffix.length_le
    simp only [List.length_cons]
    omega
  | .expression he _ hend => by
    have := he.shorter
    have := hend.suffix.length_le
    omega
  | .assign htarget _ he hend => by
    have := htarget.shorter
    have := he.shorter
    have := hend.suffix.length_le
    simp only [List.length_cons] at *
    omega

theorem ReadsBody.shorter {eof : Token} {ss : List Stmt} {ts rest : List Token} :
    ReadsBody eof ss ts rest → rest.length < ts.length
  | .close _ => Nat.lt_succ_self _
  | .newline _ h => Nat.lt_succ_of_lt h.shorter
  | .cons _ _ hs hss => by
    have := hs.length_le
    have := hss.shorter
    rw [List.length_cons] at *
    omega

theorem ReadsChain.length_le {eof : Token} {ch : Chain} {ts rest : List Token} :
    ReadsChain eof ch ts rest → rest.length ≤ ts.length
  | .done _ => Nat.le_refl _
  | .otherwise _ hs => by
    have := hs.length_le
    rw [List.length_cons]
    omega
  | .retry _ hc hs hch => by
    have := hc.shorter
    have := hs.length_le
    have := hch.length_le
    rw [List.length_cons]
    omega

end

/-! ## The parser finds every reading

With more steps than tokens, since no step is taken without a token. -/

variable {eof : Token}

mutual

theorem ReadsExpr.readAt_eq {k : Nat} {e : Expr} {ts rest : List Token} :
    ReadsExpr k e ts rest → ∀ n, ts.length < n → readAt n (operand eof n) k ts = .ok (e, rest)
  | .literal h, n + 1, _ => operand_literal eof n _ h
  | .variable h hnot, n + 1, _ => by
    rw [readAt, operand_name eof n _ h, bind_ok (accept_of_notNext hnot)]
    rfl
  | .call hname hleft hright, n + 1, _ => by
    rw [readAt, operand_name eof n _ hname, bind_ok (accept_cons (by simp [hleft]) _)]
    simp only
    rw [bind_ok (items_none _ n hright _), bind_ok (expect_cons eof hright _ _)]
    rfl
  | .callArgs hname hleft hargs hright, n + 1, hn => by
    simp only [List.length_cons] at hn
    have hread := hargs.separated_eq n n (by omega) (by omega)
    obtain ⟨t, us, rfl, ht, -⟩ := hargs.start
    rw [readAt, operand_name eof n _ hname, bind_ok (accept_cons (by simp [hleft]) _)]
    simp only
    rw [bind_ok ((items_some _ n ht _).trans hread), bind_ok (expect_cons eof hright _ _)]
    rfl
  | .unary hop he, n + 1, hn => by
    have hread := he.readAt_eq n (Nat.lt_of_succ_lt_succ hn)
    rw [readAt, operand_minus eof n _ hop]
    rw [readAt] at hread
    rw [bind_ok hread]
    rfl
  | .parens hleft he hright, n + 1, hn => by
    have hread := he.readAt_eq n (Nat.lt_of_succ_lt_succ hn)
    rw [readAt, operand_parens eof n _ hleft, expression_eq_readAt, bind_ok hread, bind_ok (expect_cons eof hright _ _)]
    rfl
  | .chain hl hmore, n, hn => by
    have hshort := hl.shorter
    rw [readAt, chain, bind_ok (hl.readAt_eq n hn), hmore.chainFrom_eq n n (by omega) (by omega)]
  | .literal _, 0, hn => absurd hn (Nat.not_lt_zero _)
  | .variable _ _, 0, hn => absurd hn (Nat.not_lt_zero _)
  | .call _ _ _, 0, hn => absurd hn (Nat.not_lt_zero _)
  | .callArgs _ _ _ _, 0, hn => absurd hn (Nat.not_lt_zero _)
  | .unary _ _, 0, hn => absurd hn (Nat.not_lt_zero _)
  | .parens _ _ _, 0, hn => absurd hn (Nat.not_lt_zero _)

theorem ReadsMore.chainFrom_eq {k : Nat} {l e : Expr} {ts rest : List Token} :
    ReadsMore k l e ts rest → ∀ n m, ts.length < n → ts.length < m →
      chainFrom (readAt n (operand eof n) k) (joins k) m l ts = .ok (e, rest)
  | .stop h, _, _, _, hm => chainFrom_stop (Nat.zero_lt_of_lt hm) _ h
  | .more hop hr hmore, n, m + 1, hn, hm => by
    have hshort := hr.shorter
    simp only [List.length_cons] at hn hm
    rw [chainFrom, bind_ok (accept_cons hop _)]
    simp only
    rw [bind_ok (hr.readAt_eq n (by omega)), hmore.chainFrom_eq n m (by omega) (by omega)]

theorem ReadsArgs.separated_eq {args : List Expr} {ts rest : List Token} :
    ReadsArgs args ts rest → ∀ n m, ts.length < n → ts.length < m →
      separated (expression eof n) m ts = .ok (args, rest)
  | .last he hnot, n, m + 1, hn, _ => by
    rw [separated, expression_eq_readAt, bind_ok (he.readAt_eq n hn), bind_ok (accept_of_notNext hnot)]
    rfl
  | .more he hcomma hargs, n, m + 1, hn, hm => by
    have hshort := he.shorter
    rw [List.length_cons] at hshort
    have hmore := hargs.separated_eq n m (by omega) (by omega)
    rw [separated, expression_eq_readAt, bind_ok (he.readAt_eq n hn), bind_ok (accept_cons (by simp [hcomma]) _)]
    simp only
    rw [← expression_eq_readAt, bind_ok hmore]
    rfl

end

theorem ReadsExpr.expression_eq {e : Expr} {ts rest : List Token} (h : ReadsExpr 4 e ts rest) {n : Nat}
    (hn : ts.length < n) : expression eof n ts = .ok (e, rest) := by
  rw [expression_eq_readAt]
  exact h.readAt_eq n hn

theorem Ends.notNext {test : Kind → Bool} (hnl : test .newline = false) (hbrace : test .rightBrace = false)
    {ts rest : List Token} : Ends ts rest → NotNext test ts
  | .newline h => NotNext.cons (by rw [h]; exact hnl) _
  | .brace h => NotNext.cons (by rw [h]; exact hbrace) _
  | .done => fun _ h => nomatch h

theorem Ends.endStatement_eq {text : String} {ts rest : List Token} :
    Ends ts rest → endStatement eof text ts = .ok ((), rest)
  | .newline h => endStatement_newline eof text h _
  | .brace h => by
    unfold endStatement
    rw [bind_ok (accept_of_notNext (NotNext.cons (by rw [h]; rfl) _))]
    simp only
    rw [bind_ok (atEnd_cons _ _), bind_ok (nextIs_cons (b := true) (by rw [h]; rfl) _)]
    rfl
  | .done => rfl

theorem ReadsNames.separated_eq {text : String} {names ts rest : List Token} :
    ReadsNames names ts rest → ∀ m, ts.length < m →
      separated (expect eof .identifier text) m ts = .ok (names, rest)
  | .last h hnot, m + 1, _ => by
    rw [separated, bind_ok (expect_cons eof h _ _), bind_ok (accept_of_notNext hnot)]
    rfl
  | .more h hcomma hmore, m + 1, hm => by
    simp only [List.length_cons] at hm
    rw [separated, bind_ok (expect_cons eof h _ _), bind_ok (accept_cons (by simp [hcomma]) _)]
    simp only
    rw [bind_ok (hmore.separated_eq m (by omega))]
    rfl

/-- Parameters are read together with the parenthesis that closes them. -/
theorem ReadsParams.items_eq (eof : Token) (text close : String) {params ts rest : List Token} {m : Nat}
    (hm : ts.length < m) : ReadsParams params ts rest → ∃ right, right.kind = .rightParen ∧
      items (expect eof .identifier text) m ts = .ok (params, right :: rest) ∧
      expect eof .rightParen close (right :: rest) = .ok (right, rest)
  | .none h => ⟨_, h, items_none _ m h _, expect_cons eof h _ _⟩
  | .some hnames h => by
    have hread : separated (expect eof .identifier text) m _ = .ok (_, _) := hnames.separated_eq m hm
    obtain ⟨t, us, rfl, ht, -⟩ := hnames.start
    exact ⟨_, h, (items_some _ m (by rw [ht]; rfl) _).trans hread, expect_cons eof h _ _⟩

theorem skipNewlines_bind_newline {α : Type} {t : Token} (h : t.kind = .newline) (f : Unit → Parser α)
    (ts : List Token) : (skipNewlines >>= f) (t :: ts) = (skipNewlines >>= f) ts := by
  have hskip : skipNewlines (t :: ts) = .ok ((), ts.dropWhile (·.kind == .newline)) := by
    simp [skipNewlines, h]
  rw [bind_ok hskip]
  rfl

theorem statement_newline (n : Nat) (d : Bool) {t : Token} (h : t.kind = .newline) (ts : List Token) :
    statement eof n d (t :: ts) = statement eof n d ts := by
  cases n with
  | zero => rfl
  | succ n => rw [statement, skipNewlines_bind_newline h]

theorem statement_simple (n : Nat) (d : Bool) {t : Token} (h : startsExpression t.kind = true) (ts : List Token) :
    statement eof (n + 1) d (t :: ts) = simpleStatement eof (n + 1) (t :: ts) := by
  have hkind : (t.kind == .newline) = false ∧ startsStatement d t.kind = false := by
    revert h
    cases t.kind <;> cases d <;> decide
  rw [statement, bind_ok (skipNewlines_of_notNext (NotNext.cons hkind.1 ts)),
    bind_ok (accept_of_notNext (NotNext.cons hkind.2 ts))]
  simp only
  rw [bind_ok (atEnd_cons t ts)]
  simp only [Bool.false_eq_true, if_false]
  rw [bind_ok (nextIs_cons h ts)]
  rfl

theorem ReadsExpr.simpleStatement_eq {e : Expr} {ts us rest : List Token} (h : ReadsExpr 4 e ts us)
    (halone : e.standsAlone = true) (hend : Ends us rest) {n : Nat} (hn : ts.length < n) :
    simpleStatement eof n ts = .ok (.expression e, rest) := by
  have hread : expression eof n ts = .ok (e, us) := h.expression_eq hn
  match e, halone with
  | .variable name, _ =>
    rw [simpleStatement_variable hread, bind_ok (accept_of_notNext (hend.notNext rfl rfl))]
    simp only
    rw [bind_ok hend.endStatement_eq]
    rfl
  | .call name args, _ =>
    rw [simpleStatement_call hread, bind_ok hend.endStatement_eq]
    rfl

theorem Ends.giving_eq {n : Nat} (keyword : Token) {ts rest : List Token} (hend : Ends ts rest) :
    giving eof keyword n ts = .ok (.give keyword none, rest) := by
  have hcons : ∀ t us, (t.kind == .newline || t.kind == .rightBrace) = true → Ends (t :: us) rest →
      giving eof keyword n (t :: us) = .ok (.give keyword none, rest) := by
    intro t us ht hend
    rw [giving, bind_ok (atEnd_cons _ _), bind_ok (nextIs_cons ht us)]
    simp only [Bool.or_true, if_true]
    rw [bind_ok hend.endStatement_eq]
    rfl
  cases hend with
  | newline h => exact hcons _ _ (by rw [h]; rfl) (.newline h)
  | brace h => exact hcons _ _ (by rw [h]; rfl) (.brace h)
  | done => rfl

theorem ReadsExpr.giving_eq {n : Nat} (keyword : Token) {e : Expr} {ts us rest : List Token} (h : ReadsExpr 4 e ts us)
    (hend : Ends us rest) (hn : ts.length < n) : giving eof keyword n ts = .ok (.give keyword (some e), rest) := by
  have hread : expression eof n ts = .ok (e, us) := h.expression_eq hn
  obtain ⟨t, vs, rfl, ht, -⟩ := h.start
  have hnext : (t.kind == .newline || t.kind == .rightBrace) = false := by
    revert ht
    cases t.kind <;> decide
  rw [giving, bind_ok (atEnd_cons _ _), bind_ok (nextIs_cons hnext vs)]
  simp only [Bool.or_false, Bool.false_eq_true, if_false]
  rw [bind_ok hread, bind_ok hend.endStatement_eq]
  rfl

mutual

theorem ReadsStmt.statement_eq {d : Bool} {s : Stmt} {ts rest : List Token} :
    ReadsStmt eof d s ts rest → ∀ n, ts.length < n → statement eof n d ts = .ok (s, rest)
  | .newline h hs, n, hn => by
    rw [statement_newline n d h, hs.statement_eq n (Nat.lt_of_succ_lt hn)]
  | .finish, n + 1, _ => rfl
  | .loop h hc hs, n + 1, hn => by
    have hshort := hc.shorter
    rw [List.length_cons] at hn
    rw [statement_farm eof n d _ h, bind_ok (hc.expression_eq (by omega)), bind_ok (hs.statement_eq n (by omega))]
    rfl
  | .branch h hc hs hch, n + 1, hn => by
    have hshort := hc.shorter
    have hle := hs.length_le
    rw [List.length_cons] at hn
    rw [statement_clutch eof n d _ h, bind_ok (hc.expression_eq (by omega)), bind_ok (hs.statement_eq n (by omega)),
      bind_ok (hch.clauses_eq n n (by omega) (by omega))]
    rfl
  | .block h hbody, n + 1, hn => by
    rw [List.length_cons] at hn
    obtain ⟨right, hright, hread⟩ := hbody.statements_eq n n (by omega) (by omega)
    rw [statement_leftBrace eof n d _ h, bind_ok (blockBody_ok hread hright)]
    rfl
  | .giveNone h hend, n + 1, _ => by
    rw [statement_spawn eof n d _ h, hend.giving_eq]
  | .giveSome h he hend, n + 1, hn => by
    rw [statement_spawn eof n d _ h, he.giving_eq _ hend (Nat.lt_of_succ_lt_succ hn)]
  | .increase h hname, n + 1, _ => statement_buff eof n d _ h hname
  | .decrease h hname, n + 1, _ => statement_nerf eof n d _ h hname
  | .define h hname hleft hparams hbrace hbody, n + 1, hn => by
    have hshort := hparams.shorter
    simp only [List.length_cons] at hn hshort
    obtain ⟨right, -, hitems, hright⟩ :=
      hparams.items_eq eof "expected parameter name" "expected ')' after parameters" (show _ < n by omega)
    obtain ⟨close, hclose, hread⟩ := hbody.statements_eq n n (by omega) (by omega)
    rw [statement_dlc eof n _ h, definition, bind_ok (expect_cons eof hname _ _), bind_ok (expect_cons eof hleft _ _),
      bind_ok hitems, bind_ok hright, bind_ok (expect_cons eof hbrace _ _), bind_ok (blockBody_ok hread hclose)]
    rfl
  | .declareNone h hname hend, n + 1, _ => by
    rw [statement_loot eof n _ h, declaration, bind_ok (expect_cons eof hname _ _),
      bind_ok (accept_of_notNext (hend.notNext rfl rfl))]
    simp only
    rw [bind_ok hend.endStatement_eq]
    rfl
  | .declareSome h hname hsign he hend, n + 1, hn => by
    simp only [List.length_cons] at hn
    rw [statement_loot eof n _ h, declaration, bind_ok (expect_cons eof hname _ _),
      bind_ok (accept_cons (by simp [hsign]) _)]
    simp only
    rw [bind_ok (he.expression_eq (by omega)), bind_ok hend.endStatement_eq]
    rfl
  | .expression he halone hend, n + 1, hn => by
    have hread : simpleStatement eof (n + 1) ts = _ := he.simpleStatement_eq halone hend hn
    obtain ⟨t, vs, rfl, ht, -⟩ := he.start
    rw [statement_simple n d ht, hread]
  | .assign htarget hsign he hend, n + 1, hn => by
    have hread : expression eof (n + 1) ts = _ := htarget.expression_eq hn
    have hshort := htarget.shorter
    rw [List.length_cons] at hshort
    have hvalue : expression eof (n + 1) _ = _ := he.expression_eq (by omega)
    obtain ⟨t, vs, rfl, ht, -⟩ := htarget.start
    rw [statement_simple n d ht, simpleStatement_variable hread, bind_ok (accept_cons (by simp [hsign]) _)]
    simp only
    rw [bind_ok hvalue, bind_ok hend.endStatement_eq]
    rfl

theorem ReadsBody.statements_eq {ss : List Stmt} {ts rest : List Token} :
    ReadsBody eof ss ts rest → ∀ n m, ts.length < n → ts.length < m → ∃ right, right.kind = .rightBrace ∧
      statements (statement eof n true) m ts = .ok (ss, right :: rest)
  | @ReadsBody.close _ t rest h, n, m + 1, _, _ => by
    have hnl : NotNext (· == .newline) (t :: rest) := NotNext.cons (by rw [h]; rfl) rest
    refine ⟨t, h, ?_⟩
    rw [statements, bind_ok (skipNewlines_of_notNext hnl), bind_ok (atEnd_cons _ _),
      bind_ok (nextIs_cons (b := true) (by rw [h]; rfl) rest)]
    rfl
  | .newline h hss, n, m + 1, hn, hm => by
    obtain ⟨right, hright, hread⟩ := hss.statements_eq n (m + 1) (Nat.lt_of_succ_lt hn) (Nat.lt_of_succ_lt hm)
    rw [statements] at hread
    exact ⟨right, hright, by rw [statements, skipNewlines_bind_newline h, hread]⟩
  | @ReadsBody.cons _ s ss t ts us rest hnl hbrace hs hss, n, m + 1, hn, hm => by
    have hle := hs.length_le
    rw [List.length_cons] at hn hm hle
    have hskip : NotNext (· == .newline) (t :: ts) := NotNext.cons (by simpa using hnl) ts
    obtain ⟨right, hright, hread⟩ := hss.statements_eq n m (by omega) (by omega)
    refine ⟨right, hright, ?_⟩
    rw [statements, bind_ok (skipNewlines_of_notNext hskip), bind_ok (atEnd_cons _ _),
      bind_ok (nextIs_cons (b := false) (by simpa using hbrace) ts)]
    simp only [Bool.or_false, Bool.false_eq_true, if_false]
    rw [bind_ok (hs.statement_eq n hn), bind_ok hread]
    rfl

theorem ReadsChain.clauses_eq {ch : Chain} {ts rest : List Token} :
    ReadsChain eof ch ts rest → ∀ n m, ts.length < n → ts.length < m →
      clauses (expression eof n) (statement eof n false) m ts = .ok (ch, rest)
  | @ReadsChain.done _ rest h, _, m + 1, _, _ => by
    have hretry : NotNext (· == .retry) rest := fun t ht => (Bool.or_eq_false_iff.1 (h t ht)).1
    have hragequit : NotNext (· == .ragequit) rest := fun t ht => (Bool.or_eq_false_iff.1 (h t ht)).2
    rw [clauses, bind_ok (accept_of_notNext hretry)]
    simp only
    rw [bind_ok (accept_of_notNext hragequit)]
    rfl
  | .otherwise h hs, n, m + 1, hn, _ => by
    rw [clauses, bind_ok (accept_of_notNext (NotNext.cons (by rw [h]; rfl) _))]
    simp only
    rw [bind_ok (accept_cons (by simp [h]) _)]
    simp only
    rw [bind_ok (hs.statement_eq n (Nat.lt_of_succ_lt hn))]
    rfl
  | .retry h hc hs hch, n, m + 1, hn, hm => by
    have hshort := hc.shorter
    have hle := hs.length_le
    rw [List.length_cons] at hn hm
    rw [clauses, bind_ok (accept_cons (by simp [h]) _)]
    simp only
    rw [bind_ok (hc.expression_eq (by omega)), bind_ok (hs.statement_eq n (by omega)),
      bind_ok (hch.clauses_eq n m (by omega) (by omega))]
    rfl

end

theorem ReadsProgram.program_eq {program : List Stmt} {ts : List Token} (h : ReadsProgram eof program ts) (n m : Nat)
    (hn : ts.length < n) (hm : ts.length < m) : Parser.program (statement eof n true) m ts = .ok (program, []) := by
  induction h generalizing m with
  | nil =>
    cases m with
    | zero => exact absurd hm (Nat.not_lt_zero _)
    | succ m => rfl
  | cons hs hss ih =>
    obtain ⟨m, rfl⟩ : ∃ k, m = k + 1 := ⟨m - 1, by omega⟩
    have hle := hs.length_le
    rw [List.length_cons] at hn hm hle
    rw [Parser.program, bind_ok (atEnd_cons _ _)]
    simp only [Bool.false_eq_true, if_false]
    rw [bind_ok (hs.statement_eq n hn), bind_ok (ih m (by omega) (by omega))]
    rfl

end Parser

end Loot
