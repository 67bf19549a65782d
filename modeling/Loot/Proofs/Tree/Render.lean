import Loot.Proofs.Token.Spelling
import Loot.Proofs.Tree.Phrasing
import Loot.Tree.Parser.Statement
/-!
# Programs as tokens

A tree is written in the plainest way: parentheses only where the tree asks for them, one newline after
each statement that needs an end, braces around blocks.  The tree keeps the tokens that mean something;
the others have the one text of their kind and stand on a line of choice.
-/
namespace Loot

open Loot.Parser

/-- The text of a kind that is always spelled the same way. -/
def Kind.plainText (kind : Kind) : Text :=
  kind.fixedText?.getD (((keywords.find? fun p => p.2 == kind).map Prod.fst).getD [])

/-- A token that no tree keeps. -/
def Token.plain (line : Line) (kind : Kind) : Token := ⟨kind, kind.plainText, line⟩

@[simp] theorem Token.plain_kind (line : Line) (kind : Kind) : (Token.plain line kind).kind = kind := rfl

/-! ## Expressions -/

/-- The level of the operands that an operator joins, counted with the operator. -/
def operatorLevel (kind : Kind) : Nat :=
  if isEquality kind then 4 else if isComparison kind then 3 else if isAdditive kind then 2 else 1

/-- The level at which an expression stands without parentheses. -/
def Expr.level : Expr → Nat
  | .binary _ op _ => operatorLevel op.kind
  | _ => 0

def grouped (line : Line) (needed : Bool) (ts : List Token) : List Token :=
  if needed then .plain line .leftParen :: (ts ++ [.plain line .rightParen]) else ts

mutual

def Expr.render (line : Line) : Expr → List Token
  | .binary l op r =>
    grouped line (decide (operatorLevel op.kind < l.level)) (l.render line) ++
      op :: grouped line (decide (operatorLevel op.kind ≤ r.level)) (r.render line)
  | .unary op e => op :: grouped line (decide (0 < e.level)) (e.render line)
  | .literal token => [token]
  | .variable name => [name]
  | .call name args =>
    name :: .plain line .leftParen :: (Expr.renderArgs line args ++ [.plain line .rightParen])

def Expr.renderArgs (line : Line) : List Expr → List Token
  | [] => []
  | [e] => e.render line
  | e :: es => e.render line ++ .plain line .comma :: Expr.renderArgs line es

end

mutual

/-- Are the tokens in the expression of the kinds that belong there? -/
def Expr.isWellFormed : Expr → Bool
  | .binary l op r =>
    (isEquality op.kind || isComparison op.kind || isAdditive op.kind || isMultiplicative op.kind) &&
      l.isWellFormed && r.isWellFormed
  | .unary op e => op.kind == .minus && e.isWellFormed
  | .literal token => isLiteral token.kind
  | .variable name => name.kind == .identifier
  | .call name args => name.kind == .identifier && Expr.areWellFormed args

def Expr.areWellFormed : List Expr → Bool
  | [] => true
  | e :: es => e.isWellFormed && Expr.areWellFormed es

end

/-! ## Statements -/

def renderNames (line : Line) : List Token → List Token
  | [] => []
  | [t] => [t]
  | t :: ts => t :: .plain line .comma :: renderNames line ts

mutual

def Stmt.render (line : Line) : Stmt → List Token
  | .expression e => e.render line ++ [.plain line .newline]
  | .declare name none => [.plain line .loot, name, .plain line .newline]
  | .declare name (some e) =>
    .plain line .loot :: name :: .plain line .assign :: (e.render line ++ [.plain line .newline])
  | .block body => .plain line .leftBrace :: (Stmt.renderAll line body ++ [.plain line .rightBrace])
  | .branch condition body rest =>
    .plain line .clutch :: (condition.render line ++ (body.render line ++ rest.render line))
  | .loop condition body => .plain line .farm :: (condition.render line ++ body.render line)
  | .define name params body =>
    .plain line .dlc :: name :: .plain line .leftParen :: (renderNames line params ++
      .plain line .rightParen :: .plain line .leftBrace ::
        (Stmt.renderAll line body ++ [.plain line .rightBrace]))
  | .give keyword none => [keyword, .plain line .newline]
  | .give keyword (some e) => keyword :: (e.render line ++ [.plain line .newline])
  | .assign target value => target :: .plain line .assign :: (value.render line ++ [.plain line .newline])
  | .increase name => [.plain line .buff, name]
  | .decrease name => [.plain line .nerf, name]
  | .finish _ => []

def Stmt.renderAll (line : Line) : List Stmt → List Token
  | [] => []
  | s :: ss => s.render line ++ Stmt.renderAll line ss

def Chain.render (line : Line) : Chain → List Token
  | .done => []
  | .otherwise body => .plain line .ragequit :: body.render line
  | .retry condition body rest =>
    .plain line .retry :: (condition.render line ++ (body.render line ++ rest.render line))

end

/-- Is it a declaration, which no branch and no loop can have as its body? -/
def Stmt.isDeclaration : Stmt → Bool
  | .declare _ _ | .define _ _ _ => true
  | _ => false

mutual

/-- Does the statement end in a choice without a last resort, so that it would take a clause that follows? -/
def Stmt.endsOpen : Stmt → Bool
  | .loop _ body => body.endsOpen
  | .branch _ _ rest => rest.endsOpen
  | _ => false

def Chain.endsOpen : Chain → Bool
  | .done => true
  | .otherwise body => body.endsOpen
  | .retry _ _ rest => rest.endsOpen

end

/-- May the expression stand alone as a statement? -/
def Expr.standsAlone : Expr → Bool
  | .variable _ | .call _ _ => true
  | _ => false

def Chain.isDone : Chain → Bool
  | .done => true
  | _ => false

mutual

/-- **The statements that programs are made of**: tokens of the right kinds, only variables and calls as
statements, no declaration as a branch or the body of a loop, no end of file, and no branch that would
take the clause that follows it. -/
def Stmt.isWellFormed : Stmt → Bool
  | .expression e => e.isWellFormed && e.standsAlone
  | .declare name none => name.kind == .identifier
  | .declare name (some e) => name.kind == .identifier && e.isWellFormed
  | .block body => Stmt.areWellFormed body
  | .branch condition body rest =>
    condition.isWellFormed && body.isWellFormed && !body.isDeclaration && (rest.isDone || !body.endsOpen) &&
      rest.isWellFormed
  | .loop condition body => condition.isWellFormed && body.isWellFormed && !body.isDeclaration
  | .define name params body =>
    name.kind == .identifier && params.all (·.kind == .identifier) && Stmt.areWellFormed body
  | .give keyword none => keyword.kind == .spawn
  | .give keyword (some e) => keyword.kind == .spawn && e.isWellFormed
  | .assign target value => target.kind == .identifier && value.isWellFormed
  | .increase name => name.kind == .identifier
  | .decrease name => name.kind == .identifier
  | .finish _ => false

def Stmt.areWellFormed : List Stmt → Bool
  | [] => true
  | s :: ss => s.isWellFormed && Stmt.areWellFormed ss

def Chain.isWellFormed : Chain → Bool
  | .done => true
  | .otherwise body => body.isWellFormed && !body.isDeclaration
  | .retry condition body rest =>
    condition.isWellFormed && body.isWellFormed && !body.isDeclaration && (rest.isDone || !body.endsOpen) &&
      rest.isWellFormed

end

/-! ## Rendered expressions are phrased right -/

theorem operatorLevel_joins {kind : Kind}
    (h : (isEquality kind || isComparison kind || isAdditive kind || isMultiplicative kind) = true) :
    ∃ k, operatorLevel kind = k + 1 ∧ joins k kind = true := by
  cases kind <;> cases h <;> exact ⟨_, rfl, rfl⟩

theorem operatorLevel_le (kind : Kind) : operatorLevel kind ≤ 4 := by
  unfold operatorLevel
  repeat' split
  all_goals omega

theorem Expr.level_le (e : Expr) : e.level ≤ 4 := by
  cases e with
  | binary _ op _ => exact operatorLevel_le op.kind
  | _ => exact Nat.zero_le 4

/-- With parentheses where its own level is too loose, an expression fits at any level. -/
theorem grouped_phrases (line : Line) {e : Expr} {ts : List Token} (h : Phrases e.level e ts) (k : Nat) :
    Phrases k e (grouped line (decide (k < e.level)) ts) := by
  unfold grouped
  by_cases hk : k < e.level
  · simp only [hk, decide_true, if_true]
    exact (Phrases.parens rfl rfl (h.raise e.level_le)).raise (Nat.zero_le k)
  · simp only [hk, decide_false, Bool.false_eq_true, if_false]
    exact h.raise (Nat.le_of_not_lt hk)

mutual

theorem Expr.render_phrases (line : Line) : ∀ e : Expr, e.isWellFormed = true → Phrases e.level e (e.render line)
  | .binary l op r, h => by
    simp only [Expr.isWellFormed, Bool.and_eq_true] at h
    obtain ⟨⟨hop, hl⟩, hr⟩ := h
    obtain ⟨k, hk, hjoins⟩ := operatorLevel_joins hop
    have hleft := grouped_phrases line (Expr.render_phrases line l hl) (k + 1)
    have hright := grouped_phrases line (Expr.render_phrases line r hr) k
    rw [Expr.level, Expr.render, hk]
    exact .binary hjoins hleft hright
  | .unary op e, h => by
    simp only [Expr.isWellFormed, Bool.and_eq_true, beq_iff_eq] at h
    rw [Expr.render]
    exact .unary h.1 (grouped_phrases line (Expr.render_phrases line e h.2) 0)
  | .literal token, h => by
    rw [Expr.isWellFormed] at h
    rw [Expr.render]
    exact .literal h
  | .variable name, h => by
    simp only [Expr.isWellFormed, beq_iff_eq] at h
    rw [Expr.render]
    exact .variable h
  | .call name args, h => by
    simp only [Expr.isWellFormed, Bool.and_eq_true, beq_iff_eq] at h
    rw [Expr.render]
    exact .call h.1 rfl rfl (Expr.renderArgs_phrases line args h.2)

theorem Expr.renderArgs_phrases (line : Line) : ∀ es : List Expr, Expr.areWellFormed es = true →
    PhrasesArgs es (Expr.renderArgs line es)
  | [], _ => by
    rw [Expr.renderArgs]
    exact .none
  | [e], h => by
    simp only [Expr.areWellFormed, Bool.and_true] at h
    rw [Expr.renderArgs]
    exact .last ((Expr.render_phrases line e h).raise e.level_le)
  | e :: e' :: es, h => by
    rw [Expr.areWellFormed, Bool.and_eq_true] at h
    rw [Expr.renderArgs]
    · exact .more ((Expr.render_phrases line e h.1).raise e.level_le) rfl (by simp)
        (Expr.renderArgs_phrases line (e' :: es) h.2)
    · simp

end

/-- A rendered expression stands where any expression may. -/
theorem Expr.render_fits (line : Line) {e : Expr} (h : e.isWellFormed = true) : Phrases 4 e (e.render line) :=
  (Expr.render_phrases line e h).raise e.level_le

end Loot
