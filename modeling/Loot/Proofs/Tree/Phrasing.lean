import Loot.Tree.Parser.Expression
/-!
# How expressions are phrased

The ways to write an expression in tokens, said without the parser: operands of an operator stand at
tighter levels than the operator, its left operand may stand at the same level, and parentheses may be
put around anything.  However an expression is phrased, the parser reads it and stops right after it
(`expression_reads`), unless the next token goes on with it.
-/
namespace Loot

namespace Parser

/-! ## Levels -/

/-- The operators between operands of a level, from the tightest level on. -/
def joins : Nat → Kind → Bool
  | 0 => isMultiplicative
  | 1 => isAdditive
  | 2 => isComparison
  | 3 => isEquality
  | _ => fun _ => false

/-- Reads an expression of a level: an operand at the lowest, and at any other a chain of expressions of
the level below. -/
def readAt (n : Nat) (operand : Parser Expr) : Nat → Parser Expr
  | 0 => operand
  | k + 1 => chain n (joins k) (readAt n operand k)

/-- Would a token of the kind go on with an expression of the level? -/
def continues : Nat → Kind → Bool
  | 0, kind => kind == .leftParen
  | k + 1, kind => continues k kind || joins k kind

/-- No token of such a kind comes next. -/
def NotNext (test : Kind → Bool) (ts : List Token) : Prop := ∀ t, ts.head? = some t → test t.kind = false

theorem expression_eq_readAt (eof : Token) (n : Nat) : expression eof n = readAt n (operand eof n) 4 := rfl

/-- An operator of a level goes on with no expression below its level. -/
theorem continues_of_joins : ∀ (k : Nat) (kind : Kind), joins k kind = true → continues k kind = false
  | 0, kind, h => by cases kind <;> first | rfl | cases h
  | 1, kind, h => by cases kind <;> first | rfl | cases h
  | 2, kind, h => by cases kind <;> first | rfl | cases h
  | 3, kind, h => by cases kind <;> first | rfl | cases h
  | _ + 4, _, h => nomatch h

theorem NotNext.of_succ {k : Nat} {ts : List Token} (h : NotNext (continues (k + 1)) ts) :
    NotNext (continues k) ts ∧ NotNext (joins k) ts := by
  constructor
  · intro t ht
    exact (Bool.or_eq_false_iff.1 (h t ht)).1
  · intro t ht
    exact (Bool.or_eq_false_iff.1 (h t ht)).2

theorem NotNext.cons {test : Kind → Bool} {t : Token} (h : test t.kind = false) (ts : List Token) :
    NotNext test (t :: ts) := by
  intro t' ht
  cases ht
  exact h

/-! ## Steps of a parser -/

variable {α β : Type}

theorem bind_ok {p : Parser α} {f : α → Parser β} {ts us : List Token} {a : α} (h : p ts = .ok (a, us)) :
    (p >>= f) ts = f a us := by
  simp only [bind, StateT.bind, h, Except.bind]

theorem accept_cons {test : Kind → Bool} {t : Token} (h : test t.kind = true) (ts : List Token) :
    accept test (t :: ts) = .ok (some t, ts) := by
  simp only [accept, h, if_true]

theorem accept_of_notNext {test : Kind → Bool} {ts : List Token} (h : NotNext test ts) :
    accept test ts = .ok (none, ts) := by
  cases ts with
  | nil => rfl
  | cons t ts =>
    have ht := h t rfl
    simp only [accept, ht, Bool.false_eq_true, if_false]

theorem expect_cons (eof : Token) {kind : Kind} {t : Token} (h : t.kind = kind) (text : String) (ts : List Token) :
    expect eof kind text (t :: ts) = .ok (t, ts) := by
  unfold expect
  rw [bind_ok (accept_cons (by simp [h]) ts)]
  rfl

/-! ## Phrases -/

mutual

/-- **The ways to write an expression** as tokens of a level. -/
inductive Phrases : Nat → Expr → List Token → Prop
  | literal {t : Token} : isLiteral t.kind = true → Phrases 0 (.literal t) [t]
  | variable {name : Token} : name.kind = .identifier → Phrases 0 (.variable name) [name]
  | call {name left right : Token} {args : List Expr} {ts : List Token} : name.kind = .identifier →
      left.kind = .leftParen → right.kind = .rightParen → PhrasesArgs args ts →
      Phrases 0 (.call name args) (name :: left :: (ts ++ [right]))
  | unary {op : Token} {e : Expr} {ts : List Token} : op.kind = .minus → Phrases 0 e ts →
      Phrases 0 (.unary op e) (op :: ts)
  | parens {left right : Token} {e : Expr} {ts : List Token} : left.kind = .leftParen →
      right.kind = .rightParen → Phrases 4 e ts → Phrases 0 e (left :: (ts ++ [right]))
  | tighter {k : Nat} {e : Expr} {ts : List Token} : Phrases k e ts → Phrases (k + 1) e ts
  | binary {k : Nat} {l r : Expr} {op : Token} {ts us : List Token} : joins k op.kind = true →
      Phrases (k + 1) l ts → Phrases k r us → Phrases (k + 1) (.binary l op r) (ts ++ op :: us)

/-- The ways to write arguments with commas between them. -/
inductive PhrasesArgs : List Expr → List Token → Prop
  | none : PhrasesArgs [] []
  | last {e : Expr} {ts : List Token} : Phrases 4 e ts → PhrasesArgs [e] ts
  | more {e : Expr} {es : List Expr} {comma : Token} {ts us : List Token} : Phrases 4 e ts →
      comma.kind = .comma → es ≠ [] → PhrasesArgs es us → PhrasesArgs (e :: es) (ts ++ comma :: us)

end

theorem Phrases.start {k : Nat} {e : Expr} {ts : List Token} :
    Phrases k e ts → ∃ t us, ts = t :: us ∧ startsExpression t.kind = true
  | .literal h => ⟨_, _, rfl, by simp [startsExpression, h]⟩
  | .variable h => ⟨_, _, rfl, by simp [startsExpression, h]⟩
  | .call h _ _ _ => ⟨_, _, rfl, by simp [startsExpression, h]⟩
  | .unary h _ => ⟨_, _, rfl, by simp [startsExpression, h]⟩
  | .parens h _ _ => ⟨_, _, rfl, by simp [startsExpression, h]⟩
  | .tighter h => h.start
  | .binary _ h _ => by
    obtain ⟨t, us, rfl, ht⟩ := h.start
    exact ⟨t, _, rfl, ht⟩

theorem PhrasesArgs.start {args : List Expr} {ts : List Token} (h : PhrasesArgs args ts) (hne : args ≠ []) :
    ∃ t us, ts = t :: us ∧ startsExpression t.kind = true := by
  cases h with
  | none => exact absurd rfl hne
  | last h => exact h.start
  | more h _ _ _ =>
    obtain ⟨t, us, rfl, ht⟩ := h.start
    exact ⟨t, _, rfl, ht⟩

theorem Phrases.raise {k j : Nat} {e : Expr} {ts : List Token} (h : Phrases k e ts) (hj : k ≤ j) :
    Phrases j e ts := by
  induction hj with
  | refl => exact h
  | step _ ih => exact .tighter ih

/-! ## Reading -/

/-- The parser of a level reads the tokens as the expression.  At a level with operators it then stands
before what follows with the expression in hand, after some rounds of the chain, since an operator of
the level may follow. -/
def ReadsAs (eof : Token) (n : Nat) (e : Expr) (ts : List Token) : Nat → Prop
  | 0 => ∀ rest, NotNext (continues 0) rest → operand eof n (ts ++ rest) = .ok (e, rest)
  | k + 1 => ∃ c, c < ts.length ∧ ∀ rest, NotNext (continues k) rest →
      readAt n (operand eof n) (k + 1) (ts ++ rest) =
        chainFrom (readAt n (operand eof n) k) (joins k) (n - c) e rest

theorem chainFrom_stop {operand : Parser Expr} {test : Kind → Bool} {n : Nat} (hn : 0 < n) (e : Expr)
    {rest : List Token} (h : NotNext test rest) : chainFrom operand test n e rest = .ok (e, rest) := by
  obtain ⟨n, rfl⟩ := Nat.exists_eq_succ_of_ne_zero (Nat.ne_of_gt hn)
  rw [chainFrom, bind_ok (accept_of_notNext h)]
  rfl

theorem ReadsAs.ok {eof : Token} {n k : Nat} {e : Expr} {ts : List Token} (h : ReadsAs eof n e ts k)
    (hn : ts.length ≤ n) {rest : List Token} (hrest : NotNext (continues k) rest) :
    readAt n (operand eof n) k (ts ++ rest) = .ok (e, rest) := by
  cases k with
  | zero => exact h rest hrest
  | succ k =>
    obtain ⟨c, hc, hread⟩ := h
    rw [hread rest hrest.of_succ.1, chainFrom_stop (by omega) e hrest.of_succ.2]

theorem items_none (item : Parser α) (n : Nat) {right : Token} (h : right.kind = .rightParen) (ts : List Token) :
    items item n (right :: ts) = .ok ([], right :: ts) := by
  have hnext : nextIs (· == .rightParen) (right :: ts) = .ok (true, right :: ts) := by
    simp [nextIs, h]
  rw [items, bind_ok hnext]
  rfl

theorem items_some (item : Parser α) (n : Nat) {t : Token} (h : startsExpression t.kind = true) (ts : List Token) :
    items item n (t :: ts) = separated item n (t :: ts) := by
  have hkind : (t.kind == .rightParen) = false := by
    rw [beq_eq_false_iff_ne]
    intro hk
    rw [hk] at h
    cases h
  have hnext : nextIs (· == .rightParen) (t :: ts) = .ok (false, t :: ts) := by
    simp [nextIs, hkind]
  rw [items, bind_ok hnext]
  rfl

section Operands

variable (eof : Token) (n : Nat) {t : Token} (ts : List Token)

theorem operand_literal (h : isLiteral t.kind = true) : operand eof (n + 1) (t :: ts) = .ok (.literal t, ts) := by
  rw [operand, bind_ok (accept_cons (by simp [startsExpression, h]) ts)]
  have hminus : t.kind ≠ .minus := fun hk => by rw [hk] at h; cases h
  have hleft : t.kind ≠ .leftParen := fun hk => by rw [hk] at h; cases h
  have hname : t.kind ≠ .identifier := fun hk => by rw [hk] at h; cases h
  simp only [hminus, hleft, hname, if_false]
  rfl

theorem operand_minus (h : t.kind = .minus) :
    operand eof (n + 1) (t :: ts) = (do let e ← operand eof n; pure (.unary t e) : Parser Expr) ts := by
  rw [operand, bind_ok (accept_cons (by simp [startsExpression, h]) ts)]
  simp only [h, if_true]

theorem operand_parens (h : t.kind = .leftParen) :
    operand eof (n + 1) (t :: ts) = (do
      let e ← expression eof n
      let _ ← expect eof .rightParen "expected ')' after expression"
      pure e : Parser Expr) ts := by
  rw [operand, bind_ok (accept_cons (by simp [startsExpression, h]) ts)]
  simp only [h, reduceCtorEq, if_false, if_true]
  rfl

theorem operand_name (h : t.kind = .identifier) :
    operand eof (n + 1) (t :: ts) = (do
      match ← accept (· == .leftParen) with
      | none => pure (.variable t)
      | some _ =>
        let args ← items (expression eof n) n
        let _ ← expect eof .rightParen "expected ')' after arguments"
        pure (.call t args) : Parser Expr) ts := by
  rw [operand, bind_ok (accept_cons (by simp [startsExpression, h]) ts)]
  simp only [h, reduceCtorEq, if_false, if_true]
  rfl

end Operands

mutual

theorem Phrases.reads (eof : Token) {k : Nat} {e : Expr} {ts : List Token} :
    Phrases k e ts → ∀ n, ts.length ≤ n → ReadsAs eof n e ts k
  | @Phrases.literal t h, n + 1, _ => fun rest _ => operand_literal eof n rest h
  | @Phrases.variable name h, n + 1, _ => by
    intro rest hrest
    have hnot : NotNext (· == .leftParen) rest := hrest
    rw [List.singleton_append, operand_name eof n rest h, bind_ok (accept_of_notNext hnot)]
    rfl
  | @Phrases.call name left right args us hname hleft hright hargs, n + 1, hn => by
    intro rest _
    simp only [List.length_cons, List.length_append, List.length_nil] at hn
    have hlist : items (expression eof n) n (us ++ right :: rest) = .ok (args, right :: rest) := by
      by_cases hne : args = []
      · subst hne
        cases hargs
        exact items_none _ n hright rest
      · obtain ⟨t, vs, hus, ht⟩ := hargs.start hne
        have hread := PhrasesArgs.reads eof hargs hne n n (by omega) (by omega) right rest hright
        rw [hus] at hread ⊢
        rw [List.cons_append, items_some _ n ht, ← List.cons_append, hread]
    rw [List.cons_append, List.cons_append, List.append_assoc, List.singleton_append, operand_name eof n _ hname,
      bind_ok (accept_cons (by simp [hleft]) _)]
    simp only
    rw [bind_ok hlist, bind_ok (expect_cons eof hright _ _)]
    rfl
  | @Phrases.unary op e us hop h, n + 1, hn => by
    intro rest hrest
    have hread := (Phrases.reads eof h n (by simpa using hn)) rest hrest
    rw [List.cons_append, operand_minus eof n _ hop, bind_ok hread]
    rfl
  | @Phrases.parens left right e us hleft hright h, n + 1, hn => by
    intro rest _
    simp only [List.length_cons, List.length_append, List.length_nil] at hn
    have hstop : NotNext (continues 4) (right :: rest) := NotNext.cons (by rw [hright]; rfl) rest
    have hread := (Phrases.reads eof h n (by omega)).ok (by omega) hstop
    rw [List.cons_append, List.append_assoc, List.singleton_append, operand_parens eof n _ hleft,
      expression_eq_readAt, bind_ok hread, bind_ok (expect_cons eof hright _ _)]
    rfl
  | @Phrases.tighter k e us h, n, hn => by
    have hread := Phrases.reads eof h n hn
    obtain ⟨t, vs, rfl, -⟩ := h.start
    refine ⟨0, by simp, fun rest hrest => ?_⟩
    rw [readAt, chain, bind_ok (hread.ok hn hrest)]
    rfl
  | @Phrases.binary k l r op us vs hop hl hr, n, hn => by
    simp only [List.length_append, List.length_cons] at hn
    obtain ⟨c, hc, hleft⟩ := Phrases.reads eof hl n (by omega)
    have hright := Phrases.reads eof hr n (by omega)
    refine ⟨c + 1, by simp only [List.length_append, List.length_cons]; omega, fun rest hrest => ?_⟩
    rw [List.append_assoc, List.cons_append, hleft _ (NotNext.cons (continues_of_joins k _ hop) _)]
    obtain ⟨m, hm⟩ : ∃ m, n - c = m + 1 := ⟨n - c - 1, by omega⟩
    have hm' : n - (c + 1) = m := by omega
    rw [hm, hm', chainFrom, bind_ok (accept_cons hop _)]
    simp only
    rw [bind_ok (hright.ok (by omega) hrest)]
  | .literal _, 0, hn => by simp at hn
  | .variable _, 0, hn => by simp at hn
  | .call _ _ _ _, 0, hn => by simp at hn
  | .unary _ _, 0, hn => by simp at hn
  | .parens _ _ _, 0, hn => by simp at hn

theorem PhrasesArgs.reads (eof : Token) {args : List Expr} {ts : List Token} :
    PhrasesArgs args ts → args ≠ [] → ∀ n m, ts.length ≤ n → ts.length ≤ m →
      ∀ (right : Token) (rest : List Token), right.kind = .rightParen →
        separated (expression eof n) m (ts ++ right :: rest) = .ok (args, right :: rest)
  | .none, hne, _, _, _, _, _, _, _ => absurd rfl hne
  | @PhrasesArgs.last e us h, _, n, m, hn, hm, right, rest, hright => by
    obtain ⟨t, vs, hus, -⟩ := h.start
    obtain ⟨m, rfl⟩ : ∃ m', m = m' + 1 := ⟨m - 1, by rw [hus, List.length_cons] at hm; omega⟩
    have hstop : NotNext (continues 4) (right :: rest) := NotNext.cons (by rw [hright]; rfl) rest
    have hcomma : NotNext (· == .comma) (right :: rest) := NotNext.cons (by rw [hright]; rfl) rest
    rw [separated, expression_eq_readAt, bind_ok ((Phrases.reads eof h n hn).ok hn hstop),
      bind_ok (accept_of_notNext hcomma)]
    rfl
  | @PhrasesArgs.more e es comma us vs h hcomma hne hargs, _, n, m, hn, hm, right, rest, hright => by
    simp only [List.length_append, List.length_cons] at hn hm
    obtain ⟨m, rfl⟩ : ∃ m', m = m' + 1 := ⟨m - 1, by omega⟩
    have hstop : NotNext (continues 4) (comma :: (vs ++ right :: rest)) := NotNext.cons (by rw [hcomma]; rfl) _
    have hmore := PhrasesArgs.reads eof hargs hne n m (by omega) (by omega) right rest hright
    rw [List.append_assoc, List.cons_append, separated, expression_eq_readAt,
      bind_ok ((Phrases.reads eof h n (by omega)).ok (by omega) hstop), bind_ok (accept_cons (by simp [hcomma]) _)]
    simp only
    rw [← expression_eq_readAt, bind_ok hmore]
    rfl

end

/-- **However an expression is phrased, the parser reads it**, and it stops right after it unless the next
token goes on with it. -/
theorem expression_reads (eof : Token) {e : Expr} {ts rest : List Token} {n : Nat} (h : Phrases 4 e ts)
    (hn : ts.length ≤ n) (hrest : NotNext (continues 4) rest) : expression eof n (ts ++ rest) = .ok (e, rest) := by
  rw [expression_eq_readAt]
  exact (h.reads eof n hn).ok hn hrest

end Parser

end Loot
