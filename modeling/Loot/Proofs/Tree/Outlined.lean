import Loot.Proofs.Tree.Legible
import Loot.Proofs.Tree.Lineless
import Loot.Proofs.Tree.Nested
import Mathlib.Data.List.Nodup
/-!
# What an outline tells

An outline is a nested list for each statement (`Stmt.nested`), in which the form of a node is a word and its tokens are
leaves.  The words are names like others, but they stand where no name does.  So the nested lists of programs that were
read tell the programs apart (`Stmt.nested_inj`), and the text tells the nested lists apart: two programs with the same
outline are the same but for the lines of their tokens (`outline_faithful`).
-/
namespace Loot

open Loot.Parser

/-! ## The words of an outline -/

/-- The forms that an outline has a word for. -/
inductive Form where
  | call | alone | declare | block | branch | loop | define | give | assign | increase | decrease | finish
  | otherwise | retry
deriving DecidableEq

def Form.word : Form → Text
  | .call => "call".toList | .alone => "expr".toList | .declare => "var".toList | .block => "block".toList
  | .branch => "if".toList | .loop => "while".toList | .define => "func".toList | .give => "return".toList
  | .assign => "set".toList | .increase => "inc".toList | .decrease => "dec".toList | .finish => "eof".toList
  | .otherwise => "else".toList | .retry => "elif".toList

def Form.all : List Form :=
  [.call, .alone, .declare, .block, .branch, .loop, .define, .give, .assign, .increase, .decrease, .finish, .otherwise,
    .retry]

theorem Form.words_nodup : (Form.all.map Form.word).Nodup := by decide

theorem Form.word_inj {f g : Form} (h : f.word = g.word) : f = g := by
  have hall : ∀ f : Form, f ∈ Form.all := fun f => by cases f <;> decide
  exact List.inj_on_of_nodup_map Form.words_nodup (hall f) (hall g) h

theorem spells_identifier {c : Char} {cs : Text} (hc : isLetter c = true) (hcs : cs.all isAlphanumeric = true)
    (hopen : ¬ ['x', 'X'] <+: c :: cs) (hkind : wordKind (c :: cs) = .identifier) : Spells .identifier (c :: cs) :=
  hkind ▸ .word hc (List.all_eq_true.1 hcs) hopen

/-- The words are names like others. -/
theorem Form.spells (f : Form) : Spells .identifier f.word := by
  cases f <;> exact spells_identifier (by decide) (by decide) (by decide) (by decide)

def Form.leaf (f : Form) : Nested := .leaf ⟨.identifier, f.word, none⟩

theorem Form.leaf_inj {f g : Form} (h : f.leaf = g.leaf) : f = g := by
  simp only [Form.leaf, Nested.leaf.injEq, Token.mk.injEq] at h
  exact Form.word_inj h.2.1

theorem Form.legible_leaf (f : Form) : f.leaf.Legible := by
  rw [Form.leaf, Nested.Legible]
  exact ⟨rfl, f.spells, rfl⟩

/-! ## Trees as nested lists -/

def Token.leaf (t : Token) : Nested := .leaf t.withoutLine

mutual

def Expr.nested : Expr → Nested
  | .binary l op r => .list [op.leaf, l.nested, r.nested] []
  | .unary op e => .list [op.leaf, e.nested] []
  | .literal token => token.leaf
  | .variable name => name.leaf
  | .call name args => .list (Form.call.leaf :: name.leaf :: Expr.nestedAll args) []

def Expr.nestedAll : List Expr → List Nested
  | [] => []
  | e :: es => e.nested :: Expr.nestedAll es

end

mutual

/-- **The nested list of a statement.** -/
def Stmt.nested : Stmt → Nested
  | .expression e => .list [Form.alone.leaf, e.nested] []
  | .declare name none => .list [Form.declare.leaf, name.leaf] []
  | .declare name (some e) => .list [Form.declare.leaf, name.leaf, e.nested] []
  | .block body => .list [Form.block.leaf] (Stmt.nestedAll body)
  | .branch condition body rest => .list [Form.branch.leaf, condition.nested] (body.nested :: rest.nested)
  | .loop condition body => .list [Form.loop.leaf, condition.nested] [body.nested]
  | .define name params body =>
    .list [Form.define.leaf, name.leaf, .list (params.map Token.leaf) []] (Stmt.nestedAll body)
  | .give _ none => .list [Form.give.leaf] []
  | .give _ (some e) => .list [Form.give.leaf, e.nested] []
  | .assign target value => .list [Form.assign.leaf, target.leaf, value.nested] []
  | .increase name => .list [Form.increase.leaf, name.leaf] []
  | .decrease name => .list [Form.decrease.leaf, name.leaf] []
  | .finish _ => .list [Form.finish.leaf] []

def Stmt.nestedAll : List Stmt → List Nested
  | [] => []
  | s :: ss => s.nested :: Stmt.nestedAll ss

/-- The clauses of a choice, each a list of its own. -/
def Chain.nested : Chain → List Nested
  | .done => []
  | .otherwise body => [.list [Form.otherwise.leaf] [body.nested]]
  | .retry condition body rest => .list [Form.retry.leaf, condition.nested] [body.nested] :: rest.nested

end

mutual

theorem Expr.outlineOnto_eq (depth : Nat) : ∀ (e : Expr) (rest : Text),
    e.outlineOnto rest = e.nested.writeOnto depth rest
  | .binary l op r, rest => by
    show '(' :: (op.lexeme ++ ' ' :: l.outlineOnto (' ' :: r.outlineOnto (')' :: rest))) = _
    rw [Expr.outlineOnto_eq depth r, Expr.outlineOnto_eq depth l]
    rfl
  | .unary op e, rest => by
    show '(' :: (op.lexeme ++ ' ' :: e.outlineOnto (')' :: rest)) = _
    rw [Expr.outlineOnto_eq depth e]
    rfl
  | .literal token, rest => rfl
  | .variable name, rest => rfl
  | .call name args, rest => by
    show '(' :: (Form.call.word ++ ' ' :: (name.lexeme ++ Expr.outlinesOnto args (')' :: rest))) = _
    rw [Expr.outlinesOnto_eq depth args]
    rfl

theorem Expr.outlinesOnto_eq (depth : Nat) : ∀ (es : List Expr) (rest : Text),
    Expr.outlinesOnto es rest = Nested.eachOnto [' '] depth (Expr.nestedAll es) rest
  | [], rest => rfl
  | e :: es, rest => by
    show ' ' :: e.outlineOnto (Expr.outlinesOnto es rest) = _
    rw [Expr.outlinesOnto_eq depth es, Expr.outlineOnto_eq depth e]
    rfl

end

/-- Names with spaces between them are the heading of a list. -/
theorem headingOnto_leaves (depth : Nat) : ∀ (ts : List Token) (rest : Text),
    Text.join [' '] (ts.map (·.lexeme)) ++ rest = Nested.headingOnto depth (ts.map Token.leaf) rest
  | [], rest => rfl
  | [t], rest => rfl
  | t :: u :: ts, rest => by
    have hmore := headingOnto_leaves depth (u :: ts) rest
    simp only [List.map_cons, Text.join, List.append_assoc] at hmore ⊢
    rw [hmore]
    rfl

mutual

/-- **A statement is outlined as its nested list is written.** -/
theorem Stmt.outlineOnto_eq : ∀ (s : Stmt) (depth : Nat) (rest : Text),
    s.outlineOnto depth rest = s.nested.writeOnto depth rest
  | .expression e, depth, rest => by
    show '(' :: (Form.alone.word ++ ' ' :: e.outlineOnto (')' :: rest)) = _
    rw [Expr.outlineOnto_eq depth e]
    rfl
  | .declare name none, depth, rest => rfl
  | .declare name (some e), depth, rest => by
    show '(' :: (Form.declare.word ++ ' ' :: (name.lexeme ++ ' ' :: e.outlineOnto (')' :: rest))) = _
    rw [Expr.outlineOnto_eq depth e]
    rfl
  | .block body, depth, rest => by
    show '(' :: (Form.block.word ++ Stmt.outlinesOnto (depth + 1) body (')' :: rest)) = _
    rw [Stmt.outlinesOnto_eq body]
    rfl
  | .branch condition body chain, depth, rest => by
    show '(' :: (Form.branch.word ++ ' ' :: condition.outlineOnto (outlineMargin (depth + 1) ++
      body.outlineOnto (depth + 1) (chain.outlineOnto (depth + 1) (')' :: rest)))) = _
    rw [Chain.outlineOnto_eq chain, Stmt.outlineOnto_eq body, Expr.outlineOnto_eq depth condition]
    rfl
  | .loop condition body, depth, rest => by
    show '(' :: (Form.loop.word ++ ' ' :: condition.outlineOnto (outlineMargin (depth + 1) ++
      body.outlineOnto (depth + 1) (')' :: rest))) = _
    rw [Stmt.outlineOnto_eq body, Expr.outlineOnto_eq depth condition]
    rfl
  | .define name params body, depth, rest => by
    show '(' :: (Form.define.word ++ ' ' :: (name.lexeme ++ " (".toList ++ Text.join [' '] (params.map (·.lexeme)) ++
      ')' :: Stmt.outlinesOnto (depth + 1) body (')' :: rest))) = _
    rw [Stmt.outlinesOnto_eq body, List.append_assoc, headingOnto_leaves depth, List.append_assoc]
    rfl
  | .give _ none, depth, rest => rfl
  | .give _ (some e), depth, rest => by
    show '(' :: (Form.give.word ++ ' ' :: e.outlineOnto (')' :: rest)) = _
    rw [Expr.outlineOnto_eq depth e]
    rfl
  | .assign target value, depth, rest => by
    show '(' :: (Form.assign.word ++ ' ' :: (target.lexeme ++ ' ' :: value.outlineOnto (')' :: rest))) = _
    rw [Expr.outlineOnto_eq depth value]
    rfl
  | .increase name, depth, rest => rfl
  | .decrease name, depth, rest => rfl
  | .finish _, depth, rest => rfl

theorem Stmt.outlinesOnto_eq : ∀ (ss : List Stmt) (depth : Nat) (rest : Text),
    Stmt.outlinesOnto depth ss rest = Nested.eachOnto (outlineMargin depth) depth (Stmt.nestedAll ss) rest
  | [], depth, rest => rfl
  | s :: ss, depth, rest => by
    show outlineMargin depth ++ s.outlineOnto depth (Stmt.outlinesOnto depth ss rest) = _
    rw [Stmt.outlinesOnto_eq ss, Stmt.outlineOnto_eq s]
    rfl

theorem Chain.outlineOnto_eq : ∀ (ch : Chain) (depth : Nat) (rest : Text),
    ch.outlineOnto depth rest = Nested.eachOnto (outlineMargin depth) depth ch.nested rest
  | .done, depth, rest => rfl
  | .otherwise body, depth, rest => by
    show outlineMargin depth ++ '(' :: Form.otherwise.word ++ outlineMargin (depth + 1) ++
      body.outlineOnto (depth + 1) (')' :: rest) = _
    rw [Stmt.outlineOnto_eq body, List.append_assoc, List.append_assoc]
    rfl
  | .retry condition body chain, depth, rest => by
    show outlineMargin depth ++ ('(' :: Form.retry.word ++ [' ']) ++ condition.outlineOnto (outlineMargin (depth + 1) ++
      body.outlineOnto (depth + 1) (')' :: chain.outlineOnto depth rest)) = _
    rw [Chain.outlineOnto_eq chain, Stmt.outlineOnto_eq body, Expr.outlineOnto_eq depth condition, List.append_assoc]
    rfl

end

/-! ## Nested lists of legible trees -/

theorem Token.Is.legible_leaf {test : Kind → Bool} {t : Token} (h : t.Is test)
    (hshown : ∀ kind, test kind = true → kind.isShown = true) : t.leaf.Legible := by
  rw [Token.leaf, Nested.Legible]
  exact ⟨hshown _ h.1, h.2, rfl⟩

theorem Token.IsName.legible_leaf {t : Token} (h : t.IsName) : t.leaf.Legible :=
  Token.Is.legible_leaf h fun kind hkind => by rw [beq_iff_eq.1 hkind]; rfl

theorem isShown_of_isBinary {kind : Kind} (h : isBinary kind = true) : kind.isShown = true := by
  cases kind <;> first | rfl | cases h

mutual

theorem Expr.legible_nested : ∀ e : Expr, e.Legible → e.nested.Legible
  | .binary l op r, h => by
    rw [Expr.Legible] at h
    simp only [Expr.nested, Nested.Legible, Nested.AllLegible, and_true]
    exact ⟨h.1.legible_leaf fun _ => isShown_of_isBinary, Expr.legible_nested l h.2.1, Expr.legible_nested r h.2.2⟩
  | .unary op e, h => by
    rw [Expr.Legible] at h
    simp only [Expr.nested, Nested.Legible, Nested.AllLegible, and_true]
    exact ⟨h.1.legible_leaf fun kind hkind => by rw [beq_iff_eq.1 hkind]; rfl, Expr.legible_nested e h.2⟩
  | .literal token, h => by
    rw [Expr.Legible] at h
    rw [Expr.nested]
    exact h.legible_leaf fun _ => isShown_of_isLiteral
  | .variable name, h => by
    rw [Expr.Legible] at h
    rw [Expr.nested]
    exact h.legible_leaf
  | .call name args, h => by
    rw [Expr.Legible] at h
    simp only [Expr.nested, Nested.Legible, Nested.AllLegible, and_true]
    exact ⟨Form.call.legible_leaf, h.1.legible_leaf, Expr.legible_nestedAll args h.2⟩

theorem Expr.legible_nestedAll : ∀ es : List Expr, Expr.AllLegible es → Nested.AllLegible (Expr.nestedAll es)
  | [], _ => trivial
  | e :: es, h => by
    rw [Expr.AllLegible] at h
    rw [Expr.nestedAll, Nested.AllLegible]
    exact ⟨Expr.legible_nested e h.1, Expr.legible_nestedAll es h.2⟩

end

theorem legible_leaves : ∀ ts : List Token, (∀ t ∈ ts, t.IsName) → Nested.AllLegible (ts.map Token.leaf)
  | [], _ => trivial
  | t :: ts, h => by
    obtain ⟨ht, hts⟩ := List.forall_mem_cons.1 h
    rw [List.map_cons, Nested.AllLegible]
    exact ⟨ht.legible_leaf, legible_leaves ts hts⟩

mutual

theorem Stmt.legible_nested : ∀ s : Stmt, s.Legible → s.nested.Legible
  | .expression e, h => by
    simp only [Stmt.nested, Nested.Legible, Nested.AllLegible, and_true]
    exact ⟨Form.legible_leaf _, Expr.legible_nested e h⟩
  | .declare name none, h => by
    simp only [Stmt.nested, Nested.Legible, Nested.AllLegible, and_true]
    exact ⟨Form.legible_leaf _, Token.IsName.legible_leaf h⟩
  | .declare name (some e), h => by
    rw [Stmt.Legible] at h
    simp only [Stmt.nested, Nested.Legible, Nested.AllLegible, and_true]
    exact ⟨Form.legible_leaf _, h.1.legible_leaf, Expr.legible_nested e h.2⟩
  | .block body, h => by
    simp only [Stmt.nested, Nested.Legible, Nested.AllLegible, and_true]
    exact ⟨Form.legible_leaf _, Stmt.legible_nestedAll body h⟩
  | .branch condition body rest, h => by
    rw [Stmt.Legible] at h
    simp only [Stmt.nested, Nested.Legible, Nested.AllLegible, and_true]
    exact ⟨⟨Form.legible_leaf _, Expr.legible_nested condition h.1⟩, Stmt.legible_nested body h.2.1,
      Chain.legible_nested rest h.2.2⟩
  | .loop condition body, h => by
    rw [Stmt.Legible] at h
    simp only [Stmt.nested, Nested.Legible, Nested.AllLegible, and_true]
    exact ⟨⟨Form.legible_leaf _, Expr.legible_nested condition h.1⟩, Stmt.legible_nested body h.2⟩
  | .define name params body, h => by
    rw [Stmt.Legible] at h
    simp only [Stmt.nested, Nested.Legible, Nested.AllLegible, and_true]
    exact ⟨⟨Form.legible_leaf _, h.1.legible_leaf, legible_leaves params h.2.1⟩, Stmt.legible_nestedAll body h.2.2⟩
  | .give keyword none, _ => by
    simp only [Stmt.nested, Nested.Legible, Nested.AllLegible, and_true]
    exact Form.legible_leaf _
  | .give keyword (some e), h => by
    rw [Stmt.Legible] at h
    simp only [Stmt.nested, Nested.Legible, Nested.AllLegible, and_true]
    exact ⟨Form.legible_leaf _, Expr.legible_nested e h.2⟩
  | .assign target value, h => by
    rw [Stmt.Legible] at h
    simp only [Stmt.nested, Nested.Legible, Nested.AllLegible, and_true]
    exact ⟨Form.legible_leaf _, h.1.legible_leaf, Expr.legible_nested value h.2⟩
  | .increase name, h | .decrease name, h => by
    simp only [Stmt.nested, Nested.Legible, Nested.AllLegible, and_true]
    exact ⟨Form.legible_leaf _, Token.IsName.legible_leaf h⟩
  | .finish eof, _ => by
    simp only [Stmt.nested, Nested.Legible, Nested.AllLegible, and_true]
    exact Form.legible_leaf _

theorem Stmt.legible_nestedAll : ∀ ss : List Stmt, Stmt.AllLegible ss → Nested.AllLegible (Stmt.nestedAll ss)
  | [], _ => trivial
  | s :: ss, h => by
    rw [Stmt.AllLegible] at h
    rw [Stmt.nestedAll, Nested.AllLegible]
    exact ⟨Stmt.legible_nested s h.1, Stmt.legible_nestedAll ss h.2⟩

theorem Chain.legible_nested : ∀ ch : Chain, ch.Legible → Nested.AllLegible ch.nested
  | .done, _ => trivial
  | .otherwise body, h => by
    simp only [Chain.nested, Nested.Legible, Nested.AllLegible, and_true]
    exact ⟨Form.legible_leaf _, Stmt.legible_nested body h⟩
  | .retry condition body rest, h => by
    rw [Chain.Legible] at h
    simp only [Chain.nested, Nested.Legible, Nested.AllLegible, and_true]
    exact ⟨⟨⟨Form.legible_leaf _, Expr.legible_nested condition h.1⟩, Stmt.legible_nested body h.2.1⟩,
      Chain.legible_nested rest h.2.2⟩

end

/-! ## Different trees have different nested lists -/

/-- The keyword of a result is spelled in one way. -/
theorem spawn_of_spells {t : Text} (h : Spells .spawn t) : t = "spawn".toList := by
  generalize hk : Kind.spawn = kind at h
  cases h with
  | fixed h => subst hk; cases h
  | @word c cs _ _ _ =>
    have hword : keywords.lookup (c :: cs) = some .spawn := by
      rw [wordKind] at hk
      cases hl : keywords.lookup (c :: cs) with
      | none => rw [hl] at hk; cases hk
      | some kind => rw [hl] at hk; rw [hk]; rfl
    obtain ⟨before, after, hs, -⟩ := List.lookup_eq_some_iff.1 hword
    have hmem : (c :: cs, Kind.spawn) ∈ keywords := by rw [hs]; simp
    simpa [keywords] using hmem
  | blank _ => cases hk
  | number _ _ _ => cases hk
  | string _ => cases hk
  | comment _ => cases hk

theorem Token.leaf_inj {t t' : Token} (h : t.leaf = t'.leaf) : t.withoutLine = t'.withoutLine := Nested.leaf.inj h

theorem Token.kind_of_leaf {t t' : Token} (h : t.leaf = t'.leaf) : t.kind = t'.kind := by
  have hkind := congrArg Token.kind (Token.leaf_inj h)
  exact hkind

/-- A word of an outline is a name, so no operator is written like one. -/
theorem Token.Is.leaf_ne_form {test : Kind → Bool} {t : Token} (h : t.Is test) (htest : test .identifier = false)
    (f : Form) : t.leaf ≠ f.leaf := by
  intro heq
  have hkind : t.kind = .identifier := congrArg Token.kind (Nested.leaf.inj heq)
  rw [Token.Is, hkind, htest] at h
  cases h.1

mutual

theorem Expr.nested_inj : ∀ (e e' : Expr), e.Legible → e'.Legible → e.nested = e'.nested →
    e.mapTokens Token.withoutLine = e'.mapTokens Token.withoutLine
  | .binary l op r, .binary l' op' r', he, he', h => by
    rw [Expr.Legible] at he he'
    simp only [Expr.nested, Nested.list.injEq, List.cons.injEq, and_true] at h
    rw [Expr.mapTokens, Expr.mapTokens, Token.leaf_inj h.1, Expr.nested_inj l l' he.2.1 he'.2.1 h.2.1,
      Expr.nested_inj r r' he.2.2 he'.2.2 h.2.2]
  | .unary op e, .unary op' e', he, he', h => by
    rw [Expr.Legible] at he he'
    simp only [Expr.nested, Nested.list.injEq, List.cons.injEq, and_true] at h
    rw [Expr.mapTokens, Expr.mapTokens, Token.leaf_inj h.1, Expr.nested_inj e e' he.2 he'.2 h.2]
  | .literal token, .literal token', _, _, h => by rw [Expr.mapTokens, Expr.mapTokens, Token.leaf_inj h]
  | .variable name, .variable name', _, _, h => by rw [Expr.mapTokens, Expr.mapTokens, Token.leaf_inj h]
  | .call name args, .call name' args', he, he', h => by
    rw [Expr.Legible] at he he'
    simp only [Expr.nested, Nested.list.injEq, List.cons.injEq, and_true, true_and] at h
    rw [Expr.mapTokens, Expr.mapTokens, Token.leaf_inj h.1, Expr.nestedAll_inj args args' he.2 he'.2 h.2]
  -- a literal is no name, and `call` is no operator
  | .literal token, .variable name', he, he', h => by
    rw [Expr.Legible, Token.IsName, Token.Is, ← Token.kind_of_leaf h, beq_iff_eq] at he'
    rw [Expr.Legible, Token.Is, he'.1] at he
    cases he.1
  | .variable name, .literal token', he, he', h => by
    rw [Expr.Legible, Token.IsName, Token.Is, Token.kind_of_leaf h, beq_iff_eq] at he
    rw [Expr.Legible, Token.Is, he.1] at he'
    cases he'.1
  | .binary _ _ _, .call _ _, he, _, h | .unary _ _, .call _ _, he, _, h => by
    rw [Expr.Legible] at he
    simp only [Expr.nested, Nested.list.injEq, List.cons.injEq] at h
    exact absurd h.1.1 (he.1.leaf_ne_form rfl _)
  | .call _ _, .binary _ _ _, _, he', h | .call _ _, .unary _ _, _, he', h => by
    rw [Expr.Legible] at he'
    simp only [Expr.nested, Nested.list.injEq, List.cons.injEq] at h
    exact absurd h.1.1.symm (he'.1.leaf_ne_form rfl _)
  | .binary _ _ _, .unary _ _, _, _, h | .unary _ _, .binary _ _ _, _, _, h => by simp [Expr.nested] at h
  | .binary _ _ _, .literal _, _, _, h | .binary _ _ _, .variable _, _, _, h | .unary _ _, .literal _, _, _, h
  | .unary _ _, .variable _, _, _, h | .call _ _, .literal _, _, _, h | .call _ _, .variable _, _, _, h
  | .literal _, .binary _ _ _, _, _, h | .literal _, .unary _ _, _, _, h | .literal _, .call _ _, _, _, h
  | .variable _, .binary _ _ _, _, _, h | .variable _, .unary _ _, _, _, h
  | .variable _, .call _ _, _, _, h => nomatch h

theorem Expr.nestedAll_inj : ∀ (es es' : List Expr), Expr.AllLegible es → Expr.AllLegible es' →
    Expr.nestedAll es = Expr.nestedAll es' →
    Expr.mapTokensAll Token.withoutLine es = Expr.mapTokensAll Token.withoutLine es'
  | [], [], _, _, _ => rfl
  | e :: es, e' :: es', he, he', h => by
    rw [Expr.AllLegible] at he he'
    rw [Expr.nestedAll, Expr.nestedAll, List.cons.injEq] at h
    rw [Expr.mapTokensAll, Expr.mapTokensAll, Expr.nested_inj e e' he.1 he'.1 h.1,
      Expr.nestedAll_inj es es' he.2 he'.2 h.2]

end

theorem map_leaf_inj : ∀ (ts ts' : List Token), ts.map Token.leaf = ts'.map Token.leaf →
    ts.map Token.withoutLine = ts'.map Token.withoutLine
  | [], [], _ => rfl
  | t :: ts, t' :: ts', h => by
    rw [List.map_cons, List.map_cons, List.cons.injEq] at h
    rw [List.map_cons, List.map_cons, Token.leaf_inj h.1, map_leaf_inj ts ts' h.2]

def Stmt.form : Stmt → Form
  | .expression _ => .alone
  | .declare _ _ => .declare
  | .block _ => .block
  | .branch _ _ _ => .branch
  | .loop _ _ => .loop
  | .define _ _ _ => .define
  | .give _ _ => .give
  | .assign _ _ => .assign
  | .increase _ => .increase
  | .decrease _ => .decrease
  | .finish _ => .finish

/-- The nested list of a statement begins with the word for its form. -/
theorem Stmt.nested_form (s : Stmt) : ∃ heading below, s.nested = .list (s.form.leaf :: heading) below := by
  cases s with
  | declare name init => cases init <;> exact ⟨_, _, rfl⟩
  | give keyword value => cases value <;> exact ⟨_, _, rfl⟩
  | _ => exact ⟨_, _, rfl⟩

theorem Stmt.form_eq {s s' : Stmt} (h : s.nested = s'.nested) : s.form = s'.form := by
  obtain ⟨heading, below, hs⟩ := s.nested_form
  obtain ⟨heading', below', hs'⟩ := s'.nested_form
  rw [hs, hs', Nested.list.injEq, List.cons.injEq] at h
  exact Form.leaf_inj h.1.1

/-- There is one keyword for results, so its token says nothing that its form does not. -/
theorem Token.Is.spawn_eq {t : Token} (h : t.Is (· == .spawn)) : t.withoutLine = ⟨.spawn, "spawn".toList, none⟩ := by
  obtain ⟨hkind, hspells⟩ := h
  rw [beq_iff_eq] at hkind
  rw [hkind] at hspells
  rw [Token.withoutLine, hkind, spawn_of_spells hspells]

mutual

/-- **Legible statements with the same nested list are the same but for their lines.** -/
theorem Stmt.nested_inj : ∀ (s s' : Stmt), s.Legible → s'.Legible → s.nested = s'.nested →
    s.mapTokens Token.withoutLine = s'.mapTokens Token.withoutLine
  | .expression e, s', hs, hs', h => by
    have hform := Stmt.form_eq h
    cases s' with
    | expression e' =>
      rw [Stmt.Legible] at hs hs'
      simp only [Stmt.nested, Nested.list.injEq, List.cons.injEq, and_true, true_and] at h
      rw [Stmt.mapTokens, Stmt.mapTokens, Expr.nested_inj e e' hs hs' h]
    | _ => exact nomatch hform
  | .declare name init, s', hs, hs', h => by
    have hform := Stmt.form_eq h
    cases s' with
    | declare name' init' =>
      cases init with
      | none =>
        cases init' with
        | none =>
          simp only [Stmt.nested, Nested.list.injEq, List.cons.injEq, and_true, true_and] at h
          rw [Stmt.mapTokens, Stmt.mapTokens, Token.leaf_inj h]
        | some e' => simp [Stmt.nested] at h
      | some e =>
        cases init' with
        | none => simp [Stmt.nested] at h
        | some e' =>
          rw [Stmt.Legible] at hs hs'
          simp only [Stmt.nested, Nested.list.injEq, List.cons.injEq, and_true, true_and] at h
          rw [Stmt.mapTokens, Stmt.mapTokens, Token.leaf_inj h.1, Expr.nested_inj e e' hs.2 hs'.2 h.2]
    | _ => exact nomatch hform
  | .block body, s', hs, hs', h => by
    have hform := Stmt.form_eq h
    cases s' with
    | block body' =>
      rw [Stmt.Legible] at hs hs'
      simp only [Stmt.nested, Nested.list.injEq, true_and] at h
      rw [Stmt.mapTokens, Stmt.mapTokens, Stmt.nestedAll_inj body body' hs hs' h]
    | _ => exact nomatch hform
  | .branch condition body rest, s', hs, hs', h => by
    have hform := Stmt.form_eq h
    cases s' with
    | branch condition' body' rest' =>
      rw [Stmt.Legible] at hs hs'
      simp only [Stmt.nested, Nested.list.injEq, List.cons.injEq, and_true, true_and] at h
      rw [Stmt.mapTokens, Stmt.mapTokens, Expr.nested_inj condition condition' hs.1 hs'.1 h.1,
        Stmt.nested_inj body body' hs.2.1 hs'.2.1 h.2.1, Chain.nested_inj rest rest' hs.2.2 hs'.2.2 h.2.2]
    | _ => exact nomatch hform
  | .loop condition body, s', hs, hs', h => by
    have hform := Stmt.form_eq h
    cases s' with
    | loop condition' body' =>
      rw [Stmt.Legible] at hs hs'
      simp only [Stmt.nested, Nested.list.injEq, List.cons.injEq, and_true, true_and] at h
      rw [Stmt.mapTokens, Stmt.mapTokens, Expr.nested_inj condition condition' hs.1 hs'.1 h.1,
        Stmt.nested_inj body body' hs.2 hs'.2 h.2]
    | _ => exact nomatch hform
  | .define name params body, s', hs, hs', h => by
    have hform := Stmt.form_eq h
    cases s' with
    | define name' params' body' =>
      rw [Stmt.Legible] at hs hs'
      simp only [Stmt.nested, Nested.list.injEq, List.cons.injEq, and_true, true_and] at h
      rw [Stmt.mapTokens, Stmt.mapTokens, Token.leaf_inj h.1.1, map_leaf_inj params params' h.1.2,
        Stmt.nestedAll_inj body body' hs.2.2 hs'.2.2 h.2]
    | _ => exact nomatch hform
  | .give keyword value, s', hs, hs', h => by
    have hform := Stmt.form_eq h
    cases s' with
    | give keyword' value' =>
      cases value with
      | none =>
        cases value' with
        | none =>
          rw [Stmt.Legible] at hs hs'
          rw [Stmt.mapTokens, Stmt.mapTokens, hs.spawn_eq, hs'.spawn_eq]
        | some e' => simp [Stmt.nested] at h
      | some e =>
        cases value' with
        | none => simp [Stmt.nested] at h
        | some e' =>
          rw [Stmt.Legible] at hs hs'
          simp only [Stmt.nested, Nested.list.injEq, List.cons.injEq, and_true, true_and] at h
          rw [Stmt.mapTokens, Stmt.mapTokens, hs.1.spawn_eq, hs'.1.spawn_eq, Expr.nested_inj e e' hs.2 hs'.2 h]
    | _ => exact nomatch hform
  | .assign target value, s', hs, hs', h => by
    have hform := Stmt.form_eq h
    cases s' with
    | assign target' value' =>
      rw [Stmt.Legible] at hs hs'
      simp only [Stmt.nested, Nested.list.injEq, List.cons.injEq, and_true, true_and] at h
      rw [Stmt.mapTokens, Stmt.mapTokens, Token.leaf_inj h.1, Expr.nested_inj value value' hs.2 hs'.2 h.2]
    | _ => exact nomatch hform
  | .increase name, s', _, _, h => by
    have hform := Stmt.form_eq h
    cases s' with
    | increase name' =>
      simp only [Stmt.nested, Nested.list.injEq, List.cons.injEq, and_true, true_and] at h
      rw [Stmt.mapTokens, Stmt.mapTokens, Token.leaf_inj h]
    | _ => exact nomatch hform
  | .decrease name, s', _, _, h => by
    have hform := Stmt.form_eq h
    cases s' with
    | decrease name' =>
      simp only [Stmt.nested, Nested.list.injEq, List.cons.injEq, and_true, true_and] at h
      rw [Stmt.mapTokens, Stmt.mapTokens, Token.leaf_inj h]
    | _ => exact nomatch hform
  | .finish eof, s', hs, hs', h => by
    have hform := Stmt.form_eq h
    cases s' with
    | finish eof' =>
      rw [Stmt.Legible] at hs hs'
      rw [Stmt.mapTokens, Stmt.mapTokens, Token.withoutLine, Token.withoutLine, hs.1, hs.2, hs'.1, hs'.2]
    | _ => exact nomatch hform

theorem Stmt.nestedAll_inj : ∀ (ss ss' : List Stmt), Stmt.AllLegible ss → Stmt.AllLegible ss' →
    Stmt.nestedAll ss = Stmt.nestedAll ss' →
    Stmt.mapTokensAll Token.withoutLine ss = Stmt.mapTokensAll Token.withoutLine ss'
  | [], [], _, _, _ => rfl
  | s :: ss, s' :: ss', hs, hs', h => by
    rw [Stmt.AllLegible] at hs hs'
    rw [Stmt.nestedAll, Stmt.nestedAll, List.cons.injEq] at h
    rw [Stmt.mapTokensAll, Stmt.mapTokensAll, Stmt.nested_inj s s' hs.1 hs'.1 h.1,
      Stmt.nestedAll_inj ss ss' hs.2 hs'.2 h.2]

theorem Chain.nested_inj : ∀ (ch ch' : Chain), ch.Legible → ch'.Legible → ch.nested = ch'.nested →
    ch.mapTokens Token.withoutLine = ch'.mapTokens Token.withoutLine
  | .done, .done, _, _, _ => rfl
  | .otherwise body, .otherwise body', hch, hch', h => by
    rw [Chain.Legible] at hch hch'
    simp only [Chain.nested, Nested.list.injEq, List.cons.injEq, and_true, true_and] at h
    rw [Chain.mapTokens, Chain.mapTokens, Stmt.nested_inj body body' hch hch' h]
  | .retry condition body rest, .retry condition' body' rest', hch, hch', h => by
    rw [Chain.Legible] at hch hch'
    simp only [Chain.nested, Nested.list.injEq, List.cons.injEq, and_true, true_and] at h
    rw [Chain.mapTokens, Chain.mapTokens, Expr.nested_inj condition condition' hch.1 hch'.1 h.1.1,
      Stmt.nested_inj body body' hch.2.1 hch'.2.1 h.1.2, Chain.nested_inj rest rest' hch.2.2 hch'.2.2 h.2]
  | .otherwise _, .retry _ _ _, _, _, h | .retry _ _ _, .otherwise _, _, _, h => by
    simp [Chain.nested] at h
  | .done, .otherwise _, _, _, h | .done, .retry _ _ _, _, _, h | .otherwise _, .done, _, _, h
  | .retry _ _ _, .done, _, _, h => nomatch h

end

/-! ## Outlines -/

theorem outline_cons (s : Stmt) (ss : List Stmt) :
    outlineMargin 0 ++ outline (s :: ss) = Nested.eachOnto (outlineMargin 0) 0 (Stmt.nestedAll (s :: ss)) [] :=
  Stmt.outlinesOnto_eq (s :: ss) 0 []

/-- No statement is outlined by nothing. -/
theorem outline_cons_ne_nil (s : Stmt) (ss : List Stmt) : outline (s :: ss) ≠ [] := by
  obtain ⟨heading, below, hs⟩ := s.nested_form
  rw [outline, Stmt.outlineOnto_eq, hs, Nested.writeOnto]
  exact List.cons_ne_nil _ _

/-- **An outline is faithful**: two texts that are read as programs with the same outline are read as the same program,
but for the lines of the tokens. -/
theorem outline_faithful {source source' : Text} {program program' : List Stmt}
    (hread : scanText source >>= readProgram = .ok program)
    (hread' : scanText source' >>= readProgram = .ok program') (h : outline program = outline program') :
    Stmt.mapTokensAll Token.withoutLine program = Stmt.mapTokensAll Token.withoutLine program' := by
  have hlegible := legible_of_source hread
  have hlegible' := legible_of_source hread'
  cases program with
  | nil =>
    cases program' with
    | nil => rfl
    | cons s' ss' => exact absurd h.symm (outline_cons_ne_nil s' ss')
  | cons s ss =>
    cases program' with
    | nil => exact absurd h (outline_cons_ne_nil s ss)
    | cons s' ss' =>
      have heq := congrArg (outlineMargin 0 ++ ·) h
      simp only [outline_cons] at heq
      have hmargin : (outlineMargin 0).head? = some '\n' := rfl
      have hend : Stops [] := fun _ hc => nomatch hc
      have hne : ([] : Text).head? ≠ some '\n' := fun hc => nomatch hc
      obtain ⟨hnested, -⟩ := Nested.eachOnto_inj 0 hmargin (.inr (.inr rfl)) _ _ (Stmt.legible_nestedAll _ hlegible)
        (Stmt.legible_nestedAll _ hlegible') hend hend hne hne heq
      exact Stmt.nestedAll_inj _ _ hlegible hlegible' hnested

/-- A call of `call`, with a text that looks like the end of an outline. -/
def chant : Text := "call(\"eof) (\", -elif)".toList

def chantTokens : List Token :=
  let at1 (kind : Kind) (text : String) : Token := ⟨kind, text.toList, some 1⟩
  [at1 .identifier "call", at1 .leftParen "(", at1 .string "\"eof) (\"", at1 .comma ",", at1 .blank " ",
    at1 .minus "-", at1 .identifier "elif", at1 .rightParen ")", at1 .endOfFile ""]

/-- The same call one line further down, with more parentheses. -/
def slowChant : Text := "\ncall((\"eof) (\"),(-elif))".toList

def slowChantTokens : List Token :=
  let at2 (kind : Kind) (text : String) : Token := ⟨kind, text.toList, some 2⟩
  [⟨.newline, ['\n'], some 1⟩, at2 .identifier "call", at2 .leftParen "(", at2 .leftParen "(",
    at2 .string "\"eof) (\"", at2 .rightParen ")", at2 .comma ",", at2 .leftParen "(", at2 .minus "-",
    at2 .identifier "elif", at2 .rightParen ")", at2 .rightParen ")", at2 .endOfFile ""]

def chantTree (line : Line) : List Stmt :=
  [.expression (.call ⟨.identifier, "call".toList, line⟩ [.literal ⟨.string, "\"eof) (\"".toList, line⟩,
    .unary ⟨.minus, ['-'], line⟩ (.variable ⟨.identifier, "elif".toList, line⟩)])]

theorem outline_faithful_misleading_names : scanText chant >>= readProgram = .ok (chantTree (some 1)) ∧
    scanText slowChant >>= readProgram = .ok (chantTree (some 2)) ∧
    outline (chantTree (some 1)) = "(expr (call call \"eof) (\" (- elif)))".toList ∧
    outline (chantTree (some 2)) = "(expr (call call \"eof) (\" (- elif)))".toList ∧
    Stmt.mapTokensAll Token.withoutLine (chantTree (some 1)) =
      Stmt.mapTokensAll Token.withoutLine (chantTree (some 2)) := by
  have hscan : scanText chant = .ok chantTokens := by decide +kernel
  have hscan' : scanText slowChant = .ok slowChantTokens := by decide +kernel
  have hread : scanText chant >>= readProgram = .ok (chantTree (some 1)) := by
    rw [hscan]
    rfl
  have hread' : scanText slowChant >>= readProgram = .ok (chantTree (some 2)) := by
    rw [hscan']
    rfl
  have houtline : ∀ line, outline (chantTree line) = "(expr (call call \"eof) (\" (- elif)))".toList := fun _ => rfl
  exact ⟨hread, hread', houtline _, houtline _,
    outline_faithful hread hread' ((houtline _).trans (houtline _).symm)⟩

end Loot
