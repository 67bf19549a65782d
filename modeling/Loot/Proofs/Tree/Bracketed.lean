import Loot.Proofs.Tree.Settled
/-!
# Expressions with parentheses

The ways to write an expression in tokens, counted by the pairs of parentheses around the whole: an operand
has at least one pair where its operator binds tighter than it does, or as tight and to the left of it, and
there may be any number of them around anything (`Writes`).  Every way of writing an expression is read as
that expression (`expression_reads_written`), and whatever is read as an expression was written in one of
them (`expression_written`), so nothing is written in the same way as something else (`Writes.unique`).
All expressions made of the right kinds of tokens can be written (`exists_writes_iff`).
-/
namespace Loot

/-- No expression is looser than an equality. -/
theorem Expr.of_four_lt_level {e : Expr} {p : Prop} (h : 4 < e.level) : p :=
  absurd e.level_le (Nat.not_le_of_lt h)

namespace Parser

/-- Does a token of the kind stand between two operands? -/
def isBinary (kind : Kind) : Bool := isEquality kind || isComparison kind || isAdditive kind || isMultiplicative kind

mutual

/-- **The ways to write an expression**, with the number of pairs of parentheses around the whole. -/
inductive Writes : Nat → Expr → List Token → Prop
  | literal {t : Token} : isLiteral t.kind = true → Writes 0 (.literal t) [t]
  | variable {name : Token} : name.kind = .identifier → Writes 0 (.variable name) [name]
  | call {name left right : Token} {args : List Expr} {ts : List Token} : name.kind = .identifier →
      left.kind = .leftParen → right.kind = .rightParen → WritesArgs args ts →
      Writes 0 (.call name args) (name :: left :: (ts ++ [right]))
  | unary {k : Nat} {op : Token} {e : Expr} {ts : List Token} : op.kind = .minus → (0 < e.level → 0 < k) →
      Writes k e ts → Writes 0 (.unary op e) (op :: ts)
  | binary {j k : Nat} {l r : Expr} {op : Token} {ts us : List Token} : isBinary op.kind = true →
      (operatorLevel op.kind < l.level → 0 < j) → Writes j l ts →
      (operatorLevel op.kind ≤ r.level → 0 < k) → Writes k r us → Writes 0 (.binary l op r) (ts ++ op :: us)
  | parens {k : Nat} {left right : Token} {e : Expr} {ts : List Token} : left.kind = .leftParen →
      right.kind = .rightParen → Writes k e ts → Writes (k + 1) e (left :: (ts ++ [right]))

/-- The ways to write arguments with commas between them. -/
inductive WritesArgs : List Expr → List Token → Prop
  | none : WritesArgs [] []
  | last {k : Nat} {e : Expr} {ts : List Token} : Writes k e ts → WritesArgs [e] ts
  | more {k : Nat} {e : Expr} {es : List Expr} {comma : Token} {ts us : List Token} : Writes k e ts →
      comma.kind = .comma → es ≠ [] → WritesArgs es us → WritesArgs (e :: es) (ts ++ comma :: us)

end

/-! ## What is written is read -/

mutual

/-- An expression as it is written stands at its own level, or with parentheses around it at any. -/
theorem Writes.phrases {k : Nat} {e : Expr} {ts : List Token} :
    Writes k e ts → ∀ j, (j < e.level → 0 < k) → Phrases j e ts
  | .literal h, j, _ => (Phrases.literal h).raise (Nat.zero_le j)
  | .variable h, j, _ => (Phrases.variable h).raise (Nat.zero_le j)
  | .call hname hleft hright hargs, j, _ => (Phrases.call hname hleft hright hargs.phrases).raise (Nat.zero_le j)
  | .unary hop hneed h, j, _ => (Phrases.unary hop (h.phrases 0 hneed)).raise (Nat.zero_le j)
  | @Writes.binary _ _ l r op ts us hop hl hwl hr hwr, j, hj => by
    obtain ⟨i, hi, hjoins⟩ := operatorLevel_joins hop
    rw [hi] at hl hr
    have hphrases : Phrases (i + 1) (.binary l op r) (ts ++ op :: us) :=
      .binary hjoins (hwl.phrases (i + 1) hl) (hwr.phrases i hr)
    refine hphrases.raise ?_
    rw [Expr.level, hi] at hj
    exact Nat.le_of_not_lt fun h => Nat.lt_irrefl 0 (hj h)
  | Writes.parens hleft hright h, j, _ =>
    (Phrases.parens hleft hright (h.phrases 4 Expr.of_four_lt_level)).raise (Nat.zero_le j)

theorem WritesArgs.phrases {args : List Expr} {ts : List Token} : WritesArgs args ts → PhrasesArgs args ts
  | .none => .none
  | .last h => .last (h.phrases 4 Expr.of_four_lt_level)
  | .more h hcomma hne hargs => .more (h.phrases 4 Expr.of_four_lt_level) hcomma hne hargs.phrases

end

/-- Only a binary operator or an opening parenthesis goes on with an expression. -/
theorem continues_eq (kind : Kind) : continues 4 kind = (isBinary kind || kind == .leftParen) := by
  cases kind <;> rfl

/-- Written in any way, an expression stands where every expression may. -/
theorem Writes.fits {k : Nat} {e : Expr} {ts : List Token} (h : Writes k e ts) : Phrases 4 e ts :=
  h.phrases 4 Expr.of_four_lt_level

/-- **However an expression is written, the parser reads it** and stops right after it, if neither a binary operator
nor an opening parenthesis comes next. -/
theorem expression_reads_written (eof : Token) {k : Nat} {e : Expr} {ts rest : List Token} (h : Writes k e ts)
    (hrest : NotNext (fun kind => isBinary kind || kind == .leftParen) rest) {n : Nat} (hn : ts.length ≤ n) :
    expression eof n (ts ++ rest) = .ok (e, rest) := by
  refine expression_reads eof h.fits hn (fun t ht => ?_)
  rw [continues_eq]
  exact hrest t ht

/-- A sign or a keyword. -/
def bracketedSign (kind : Kind) : Token := .plain (some 1) kind

/-- A name of one letter. -/
def bracketedName (c : Char) : Token := ⟨.identifier, [c], some 1⟩

/-- The tree of `-a - (b - c) == f(d, x)`. -/
def bracketedTree : Expr :=
  .binary (.binary (.unary (bracketedSign .minus) (.variable (bracketedName 'a'))) (bracketedSign .minus)
      (.binary (.variable (bracketedName 'b')) (bracketedSign .minus) (.variable (bracketedName 'c'))))
    (bracketedSign .equals) (.call (bracketedName 'f') [.variable (bracketedName 'd'), .variable (bracketedName 'x')])

/-- The tokens of `-(a) - ((b - c)) == f((d), x)`. -/
def bracketedTokens : List Token :=
  ((bracketedSign .minus :: grouped (some 1) true [bracketedName 'a']) ++ bracketedSign .minus ::
    grouped (some 1) true (grouped (some 1) true
      ([bracketedName 'b'] ++ bracketedSign .minus :: [bracketedName 'c']))) ++
  bracketedSign .equals :: (bracketedName 'f' :: bracketedSign .leftParen ::
    ((grouped (some 1) true [bracketedName 'd'] ++ bracketedSign .comma :: [bracketedName 'x']) ++
      [bracketedSign .rightParen]))

/-- Before a newline they are read as that tree, and the newline is left. -/
theorem expression_reads_written_bracketed : Writes 0 bracketedTree bracketedTokens ∧
    expression (bracketedSign .endOfFile) 21 (bracketedTokens ++ [bracketedSign .newline]) =
      .ok (bracketedTree, [bracketedSign .newline]) := by
  have hname : ∀ c, Writes 0 (.variable (bracketedName c)) [bracketedName c] := fun c => .variable rfl
  have hwrites : Writes 0 bracketedTree bracketedTokens := by
    refine .binary rfl (by decide) (.binary (j := 0) (k := 2) rfl (by decide) ?_ (by decide) ?_) (by decide)
      (.call rfl rfl rfl ?_)
    · exact .unary rfl (by decide) (.parens rfl rfl (hname 'a'))
    · exact .parens rfl rfl (.parens rfl rfl (.binary rfl (by decide) (hname 'b') (by decide) (hname 'c')))
    · exact .more (.parens rfl rfl (hname 'd')) rfl (by simp) (.last (hname 'x'))
  exact ⟨hwrites, expression_reads_written _ hwrites (NotNext.cons rfl []) (by decide)⟩

/-- No tokens are a way to write two expressions. -/
theorem Writes.unique {k k' : Nat} {e e' : Expr} {ts : List Token} (h : Writes k e ts) (h' : Writes k' e' ts) :
    e = e' := by
  have hrest : NotNext (continues 4) [] := fun _ h => nomatch h
  have hread := expression_reads ⟨.endOfFile, [], none⟩ h.fits (Nat.le_refl _) hrest
  rw [expression_reads ⟨.endOfFile, [], none⟩ h'.fits (Nat.le_refl _) hrest] at hread
  cases hread
  rfl

/-! ## What is read was written -/

theorem isBinary_of_joins {j : Nat} {kind : Kind} (h : joins j kind = true) :
    isBinary kind = true ∧ operatorLevel kind = j + 1 := by
  match j, h with
  | 0, h | 1, h | 2, h | 3, h => cases kind <;> first | exact ⟨rfl, rfl⟩ | cases h
  | _ + 4, h => cases h

mutual

/-- The tokens that were taken for an expression of a level are a way to write it, with parentheses around it if by
itself it is looser. -/
theorem ReadsExpr.written {j : Nat} {e : Expr} {ts rest : List Token} :
    ReadsExpr j e ts rest → ∃ k us, ts = us ++ rest ∧ Writes k e us ∧ (j < e.level → 0 < k)
  | .literal h => ⟨0, _, (List.singleton_append ..).symm, .literal h, id⟩
  | .variable h _ => ⟨0, _, (List.singleton_append ..).symm, .variable h, id⟩
  | @ReadsExpr.call name left right rest hname hleft hright =>
    ⟨0, [name, left, right], rfl, .call hname hleft hright .none, id⟩
  | .callArgs hname hleft hargs hright => by
    obtain ⟨us, rfl, hus⟩ := hargs.written
    exact ⟨0, _, by simp, .call hname hleft hright hus, id⟩
  | .unary hop he => by
    obtain ⟨k, us, rfl, hus, hneed⟩ := he.written
    exact ⟨0, _, (List.cons_append ..).symm, .unary hop hneed hus, id⟩
  | .parens hleft he hright => by
    obtain ⟨k, us, rfl, hus, -⟩ := he.written
    exact ⟨k + 1, _, by simp, .parens hleft hright hus, fun _ => Nat.succ_pos k⟩
  | .chain hl hmore => by
    obtain ⟨k, us, rfl, hus, hneed⟩ := hl.written
    exact hmore.written us k hus fun h => hneed (Nat.lt_of_succ_lt h)

theorem ReadsMore.written {j : Nat} {l e : Expr} {ts rest : List Token} :
    ReadsMore j l e ts rest → ∀ (us : List Token) (k : Nat), Writes k l us → (j + 1 < l.level → 0 < k) →
      ∃ k' vs, us ++ ts = vs ++ rest ∧ Writes k' e vs ∧ (j + 1 < e.level → 0 < k')
  | .stop _, us, k, hus, hneed => ⟨k, us, rfl, hus, hneed⟩
  | @ReadsMore.more _ l r _ op _ _ _ hop hr hmore, us, k, hus, hneed => by
    obtain ⟨i, vs, rfl, hvs, hneedr⟩ := hr.written
    obtain ⟨hbinary, hlevel⟩ := isBinary_of_joins hop
    have hwrites : Writes 0 (.binary l op r) (us ++ op :: vs) :=
      .binary hbinary (by rwa [hlevel]) hus (by rwa [hlevel]) hvs
    have hfits : j + 1 < (Expr.binary l op r).level → 0 < 0 := by
      rw [Expr.level, hlevel]
      exact fun h => absurd h (Nat.lt_irrefl _)
    obtain ⟨k', ws, heq, hws⟩ := hmore.written _ 0 hwrites hfits
    exact ⟨k', ws, by simpa using heq, hws⟩

theorem ReadsArgs.written {args : List Expr} {ts rest : List Token} :
    ReadsArgs args ts rest → ∃ us, ts = us ++ rest ∧ WritesArgs args us
  | .last he _ => by
    obtain ⟨k, us, rfl, hus, -⟩ := he.written
    exact ⟨us, rfl, .last hus⟩
  | .more he hcomma hargs => by
    obtain ⟨k, us, rfl, hus, -⟩ := he.written
    obtain ⟨vs, rfl, hvs⟩ := hargs.written
    refine ⟨_, by simp, .more hus hcomma ?_ hvs⟩
    rintro rfl
    cases hargs

end

/-- **What the parser reads as an expression was written in one of the ways.** -/
theorem expression_written {eof : Token} {e : Expr} {ts rest : List Token} {n : Nat} (hn : ts.length < n)
    (h : expression eof n ts = .ok (e, rest)) : ∃ k us, ts = us ++ rest ∧ Writes k e us := by
  obtain ⟨k, us, hts, hus, -⟩ := ((settles_expression n ts hn).of_ok h).2.written
  exact ⟨k, us, hts, hus⟩

/-! ## Which expressions can be written -/

mutual

theorem Writes.isWellFormed {k : Nat} {e : Expr} {ts : List Token} : Writes k e ts → e.isWellFormed = true
  | .literal h => h
  | .variable h => by simp [Expr.isWellFormed, h]
  | .call hname _ _ hargs => by simp [Expr.isWellFormed, hname, hargs.areWellFormed]
  | .unary hop _ h => by simp [Expr.isWellFormed, hop, h.isWellFormed]
  | .binary hop _ hl _ hr => by
    rw [isBinary] at hop
    simp [Expr.isWellFormed, hop, hl.isWellFormed, hr.isWellFormed]
  | .parens _ _ h => h.isWellFormed

theorem WritesArgs.areWellFormed {args : List Expr} {ts : List Token} :
    WritesArgs args ts → Expr.areWellFormed args = true
  | .none => rfl
  | .last h => by simp [Expr.areWellFormed, h.isWellFormed]
  | .more h _ _ hargs => by simp [Expr.areWellFormed, h.isWellFormed, hargs.areWellFormed]

end

/-- **The expressions that can be written are those made of the right kinds of tokens.** -/
theorem exists_writes_iff (e : Expr) : (∃ k ts, Writes k e ts) ↔ e.isWellFormed = true := by
  constructor
  · rintro ⟨k, ts, h⟩
    exact h.isWellFormed
  · intro h
    -- the plainest way to write it is read as the expression, so it is one of the ways
    have hstop : NotNext (continues 4) [] := fun _ h => nomatch h
    have hread := expression_reads ⟨.endOfFile, [], none⟩ (Expr.render_fits none h) (Nat.le_succ _) hstop
    obtain ⟨k, us, -, hwrites⟩ := expression_written (by simp) hread
    exact ⟨k, us, hwrites⟩

end Parser

end Loot
