import Loot.Proofs.Session.Endings
import Loot.Proofs.Tree.Bracketed
/-!
# Legible programs

A program that was read from a text is legible (`legible_of_source`): every token in it is spelled as its kind asks, and
its kind fits the place in which it stands.
-/
namespace Loot

open Loot.Parser

/-! ## Tokens that fit their places -/

/-- The token is of a kind that passes the test, and spelled as its kind asks. -/
def Token.Is (test : Kind → Bool) (t : Token) : Prop := test t.kind = true ∧ Spells t.kind t.lexeme

def Token.IsName (t : Token) : Prop := t.Is (· == .identifier)

mutual

def Expr.Legible : Expr → Prop
  | .binary l op r => op.Is isBinary ∧ l.Legible ∧ r.Legible
  | .unary op e => op.Is (· == .minus) ∧ e.Legible
  | .literal token => token.Is isLiteral
  | .variable name => name.IsName
  | .call name args => name.IsName ∧ Expr.AllLegible args

def Expr.AllLegible : List Expr → Prop
  | [] => True
  | e :: es => e.Legible ∧ Expr.AllLegible es

end

mutual

/-- **Every token in the statement fits its place** and is spelled right.  The end of the program has no text. -/
def Stmt.Legible : Stmt → Prop
  | .expression e => e.Legible
  | .declare name none => name.IsName
  | .declare name (some e) => name.IsName ∧ e.Legible
  | .block body => Stmt.AllLegible body
  | .branch condition body rest => condition.Legible ∧ body.Legible ∧ rest.Legible
  | .loop condition body => condition.Legible ∧ body.Legible
  | .define name params body => name.IsName ∧ (∀ t ∈ params, t.IsName) ∧ Stmt.AllLegible body
  | .give keyword none => keyword.Is (· == .spawn)
  | .give keyword (some e) => keyword.Is (· == .spawn) ∧ e.Legible
  | .assign target value => target.IsName ∧ value.Legible
  | .increase name => name.IsName
  | .decrease name => name.IsName
  | .finish eof => eof.kind = .endOfFile ∧ eof.lexeme = []

def Stmt.AllLegible : List Stmt → Prop
  | [] => True
  | s :: ss => s.Legible ∧ Stmt.AllLegible ss

def Chain.Legible : Chain → Prop
  | .done => True
  | .otherwise body => body.Legible
  | .retry condition body rest => condition.Legible ∧ body.Legible ∧ rest.Legible

end

/-! ## What was read is legible -/

def Spelled (ts : List Token) : Prop := ∀ t ∈ ts, Spells t.kind t.lexeme

theorem Spelled.cons {t : Token} {ts : List Token} (h : Spelled (t :: ts)) : Spells t.kind t.lexeme ∧ Spelled ts :=
  List.forall_mem_cons.1 h

theorem Token.Is.of_kind {t : Token} {kind : Kind} (hspells : Spells t.kind t.lexeme) (hkind : t.kind = kind) :
    t.Is (· == kind) :=
  ⟨beq_iff_eq.2 hkind, hspells⟩

namespace Parser

mutual

theorem ReadsExpr.legible {k : Nat} {e : Expr} {ts rest : List Token} :
    ReadsExpr k e ts rest → Spelled ts → e.Legible ∧ Spelled rest
  | .literal h, hts => ⟨⟨h, hts.cons.1⟩, hts.cons.2⟩
  | .variable h _, hts => ⟨.of_kind hts.cons.1 h, hts.cons.2⟩
  | .call h _ _, hts => ⟨⟨.of_kind hts.cons.1 h, trivial⟩, hts.cons.2.cons.2.cons.2⟩
  | .callArgs h _ hargs _, hts => by
    obtain ⟨hlegible, hrest⟩ := hargs.legible hts.cons.2.cons.2
    exact ⟨⟨.of_kind hts.cons.1 h, hlegible⟩, hrest.cons.2⟩
  | .unary h he, hts => by
    obtain ⟨hlegible, hrest⟩ := he.legible hts.cons.2
    exact ⟨⟨.of_kind hts.cons.1 h, hlegible⟩, hrest⟩
  | .parens _ he _, hts => by
    obtain ⟨hlegible, hrest⟩ := he.legible hts.cons.2
    exact ⟨hlegible, hrest.cons.2⟩
  | .chain hl hmore, hts => by
    obtain ⟨hlegible, hrest⟩ := hl.legible hts
    exact hmore.legible hlegible hrest

theorem ReadsMore.legible {k : Nat} {l e : Expr} {ts rest : List Token} :
    ReadsMore k l e ts rest → l.Legible → Spelled ts → e.Legible ∧ Spelled rest
  | .stop _, hl, hts => ⟨hl, hts⟩
  | .more hop hr hmore, hl, hts => by
    obtain ⟨hlegible, hrest⟩ := hr.legible hts.cons.2
    exact hmore.legible ⟨⟨(isBinary_of_joins hop).1, hts.cons.1⟩, hl, hlegible⟩ hrest

theorem ReadsArgs.legible {args : List Expr} {ts rest : List Token} :
    ReadsArgs args ts rest → Spelled ts → Expr.AllLegible args ∧ Spelled rest
  | .last he _, hts => by
    obtain ⟨hlegible, hrest⟩ := he.legible hts
    exact ⟨⟨hlegible, trivial⟩, hrest⟩
  | .more he _ hargs, hts => by
    obtain ⟨hlegible, hrest⟩ := he.legible hts
    obtain ⟨hargs, hrest⟩ := hargs.legible hrest.cons.2
    exact ⟨⟨hlegible, hargs⟩, hrest⟩

end

theorem Ends.spelled {ts rest : List Token} (h : Ends ts rest) (hts : Spelled ts) : Spelled rest := fun t ht =>
  hts t (h.suffix.subset ht)

theorem ReadsNames.legible {names ts rest : List Token} :
    ReadsNames names ts rest → Spelled ts → (∀ t ∈ names, t.IsName) ∧ Spelled rest
  | .last h _, hts => ⟨List.forall_mem_singleton.2 (.of_kind hts.cons.1 h), hts.cons.2⟩
  | .more h _ hmore, hts => by
    obtain ⟨hnames, hrest⟩ := hmore.legible hts.cons.2.cons.2
    exact ⟨List.forall_mem_cons.2 ⟨.of_kind hts.cons.1 h, hnames⟩, hrest⟩

theorem ReadsParams.legible {params ts rest : List Token} :
    ReadsParams params ts rest → Spelled ts → (∀ t ∈ params, t.IsName) ∧ Spelled rest
  | .none _, hts => ⟨List.forall_mem_nil _, hts.cons.2⟩
  | .some hnames _, hts => by
    obtain ⟨hlegible, hrest⟩ := hnames.legible hts
    exact ⟨hlegible, hrest.cons.2⟩

variable {eof : Token}

mutual

theorem ReadsStmt.legible (heof : eof.kind = .endOfFile ∧ eof.lexeme = []) {d : Bool} {s : Stmt}
    {ts rest : List Token} : ReadsStmt eof d s ts rest → Spelled ts → s.Legible ∧ Spelled rest
  | .newline _ h, hts => h.legible heof hts.cons.2
  | .finish, hts => ⟨heof, hts⟩
  | .loop _ hc hs, hts => by
    obtain ⟨hcondition, hrest⟩ := hc.legible hts.cons.2
    obtain ⟨hbody, hrest⟩ := hs.legible heof hrest
    exact ⟨⟨hcondition, hbody⟩, hrest⟩
  | .branch _ hc hs hch, hts => by
    obtain ⟨hcondition, hrest⟩ := hc.legible hts.cons.2
    obtain ⟨hbody, hrest⟩ := hs.legible heof hrest
    obtain ⟨hchain, hrest⟩ := hch.legible heof hrest
    exact ⟨⟨hcondition, hbody, hchain⟩, hrest⟩
  | .block _ hbody, hts => hbody.legible heof hts.cons.2
  | .giveNone h hend, hts => ⟨.of_kind hts.cons.1 h, hend.spelled hts.cons.2⟩
  | .giveSome h he hend, hts => by
    obtain ⟨hvalue, hrest⟩ := he.legible hts.cons.2
    exact ⟨⟨.of_kind hts.cons.1 h, hvalue⟩, hend.spelled hrest⟩
  | .increase _ h, hts => ⟨.of_kind hts.cons.2.cons.1 h, hts.cons.2.cons.2⟩
  | .decrease _ h, hts => ⟨.of_kind hts.cons.2.cons.1 h, hts.cons.2.cons.2⟩
  | .define _ h _ hparams _ hbody, hts => by
    obtain ⟨hnames, hrest⟩ := hparams.legible hts.cons.2.cons.2.cons.2
    obtain ⟨hlegible, hrest⟩ := hbody.legible heof hrest.cons.2
    exact ⟨⟨.of_kind hts.cons.2.cons.1 h, hnames, hlegible⟩, hrest⟩
  | .declareNone _ h hend, hts => ⟨.of_kind hts.cons.2.cons.1 h, hend.spelled hts.cons.2.cons.2⟩
  | .declareSome _ h _ he hend, hts => by
    obtain ⟨hvalue, hrest⟩ := he.legible hts.cons.2.cons.2.cons.2
    exact ⟨⟨.of_kind hts.cons.2.cons.1 h, hvalue⟩, hend.spelled hrest⟩
  | .expression he _ hend, hts => by
    obtain ⟨hlegible, hrest⟩ := he.legible hts
    exact ⟨hlegible, hend.spelled hrest⟩
  | .assign htarget _ he hend, hts => by
    obtain ⟨hname, hrest⟩ := htarget.legible hts
    obtain ⟨hvalue, hrest⟩ := he.legible hrest.cons.2
    exact ⟨⟨hname, hvalue⟩, hend.spelled hrest⟩

theorem ReadsBody.legible (heof : eof.kind = .endOfFile ∧ eof.lexeme = []) {ss : List Stmt} {ts rest : List Token} :
    ReadsBody eof ss ts rest → Spelled ts → Stmt.AllLegible ss ∧ Spelled rest
  | .close _, hts => ⟨trivial, hts.cons.2⟩
  | .newline _ h, hts => h.legible heof hts.cons.2
  | .cons _ _ hs hss, hts => by
    obtain ⟨hlegible, hrest⟩ := hs.legible heof hts
    obtain ⟨hmore, hrest⟩ := hss.legible heof hrest
    exact ⟨⟨hlegible, hmore⟩, hrest⟩

theorem ReadsChain.legible (heof : eof.kind = .endOfFile ∧ eof.lexeme = []) {ch : Chain} {ts rest : List Token} :
    ReadsChain eof ch ts rest → Spelled ts → ch.Legible ∧ Spelled rest
  | .done _, hts => ⟨trivial, hts⟩
  | .otherwise _ hs, hts => hs.legible heof hts.cons.2
  | .retry _ hc hs hch, hts => by
    obtain ⟨hcondition, hrest⟩ := hc.legible hts.cons.2
    obtain ⟨hbody, hrest⟩ := hs.legible heof hrest
    obtain ⟨hchain, hrest⟩ := hch.legible heof hrest
    exact ⟨⟨hcondition, hbody, hchain⟩, hrest⟩

end

theorem ReadsProgram.legible (heof : eof.kind = .endOfFile ∧ eof.lexeme = []) {program : List Stmt}
    {ts : List Token} : ReadsProgram eof program ts → Spelled ts → Stmt.AllLegible program
  | .nil, _ => trivial
  | .cons hs hss, hts => by
    obtain ⟨hlegible, hrest⟩ := hs.legible heof hts
    exact ⟨hlegible, hss.legible heof hrest⟩

end Parser

/-- **What is read from a text is legible.** -/
theorem legible_of_source {source : Text} {program : List Stmt}
    (h : scanText source >>= readProgram = .ok program) : Stmt.AllLegible program := by
  obtain ⟨body, eof, hscan, -, hreads⟩ := source_ok h
  obtain ⟨body', last, heq, -, -, hspells, -⟩ := scanText_lossless hscan
  obtain ⟨rfl, heof⟩ := List.append_inj' heq rfl
  rw [List.singleton_inj] at heof
  refine hreads.legible (by rw [heof]; exact ⟨rfl, rfl⟩) (fun t ht => ?_)
  obtain ⟨hmem, htrivia⟩ := List.mem_filter.1 ht
  -- only blanks may be shown by another text than was written
  have hkind : t.kind ≠ .blank := by
    intro hblank
    rw [hblank] at htrivia
    cases htrivia
  have hwritten : t.written = t.lexeme := if_neg fun hb => hkind hb.1
  have hspell := (hspells t hmem).1
  rwa [hwritten] at hspell

end Loot
