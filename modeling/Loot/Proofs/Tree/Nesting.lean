import Loot.Proofs.Tree.Settled
import Loot.Session.Basic
/-!
# Braces nest

The shell counts braces and the parser reads blocks, and the two agree: the tokens of whatever is read nest, every
brace closed by one of its own (`ReadsProgram.nests`).  Where tokens nest, as many braces are closed as were opened
(`Nests.balance`), and on the way never more (`Nests.prefix_le`).
-/
namespace Loot

open Loot.Parser

/-! ## Nested tokens -/

def Kind.isBrace (kind : Kind) : Bool := kind == .leftBrace || kind == .rightBrace

/-- **The tokens from the first list down to the second nest**: every brace among them is closed by one of its own. -/
inductive Nests : List Token → List Token → Prop
  | done {rest : List Token} : Nests rest rest
  | plain {t : Token} {ts rest : List Token} : t.kind.isBrace = false → Nests ts rest → Nests (t :: ts) rest
  | block {left right : Token} {ts us rest : List Token} : left.kind = .leftBrace → Nests ts (right :: us) →
      right.kind = .rightBrace → Nests us rest → Nests (left :: ts) rest

theorem countKind_cons (kind : Kind) (t : Token) (ts : List Token) :
    countKind kind (t :: ts) = countKind kind ts + if t.kind = kind then 1 else 0 := by
  unfold countKind
  rw [List.countP_cons]
  simp only [beq_iff_eq]

theorem countKind_brace_cons {t : Token} (h : t.kind.isBrace = false) (ts : List Token) :
    countKind .leftBrace (t :: ts) = countKind .leftBrace ts ∧
      countKind .rightBrace (t :: ts) = countKind .rightBrace ts := by
  simp only [Kind.isBrace, Bool.or_eq_false_iff, beq_eq_false_iff_ne] at h
  rw [countKind_cons, countKind_cons, if_neg h.1, if_neg h.2]
  exact ⟨rfl, rfl⟩

theorem countKind_leftBrace_cons {t : Token} (h : t.kind = .leftBrace) (ts : List Token) :
    countKind .leftBrace (t :: ts) = countKind .leftBrace ts + 1 ∧
      countKind .rightBrace (t :: ts) = countKind .rightBrace ts := by
  rw [countKind_cons, countKind_cons, h]
  exact ⟨rfl, rfl⟩

theorem countKind_rightBrace_cons {t : Token} (h : t.kind = .rightBrace) (ts : List Token) :
    countKind .leftBrace (t :: ts) = countKind .leftBrace ts ∧
      countKind .rightBrace (t :: ts) = countKind .rightBrace ts + 1 := by
  rw [countKind_cons, countKind_cons, h]
  exact ⟨rfl, rfl⟩

namespace Nests

variable {ts us rest : List Token}

theorem trans (h : Nests ts us) (h' : Nests us rest) : Nests ts rest := by
  induction h with
  | done => exact h'
  | plain ht _ ih => exact .plain ht (ih h')
  | block hleft hbody hright _ _ ih => exact .block hleft hbody hright (ih h')

/-- A token that is no brace at the end, such as a closing parenthesis. -/
theorem plain_end {t : Token} (h : Nests ts (t :: rest)) (ht : t.kind.isBrace = false) : Nests ts rest :=
  h.trans (.plain ht .done)

/-- **As many braces are closed as were opened.** -/
theorem balance (h : Nests ts rest) : countKind .leftBrace ts + countKind .rightBrace rest =
    countKind .rightBrace ts + countKind .leftBrace rest := by
  induction h with
  | done => exact Nat.add_comm _ _
  | @plain t ts rest ht _ ih =>
    obtain ⟨hleft, hright⟩ := countKind_brace_cons ht ts
    omega
  | @block left right ts us rest hleft _ hright _ ihbody ih =>
    obtain ⟨hl, hr⟩ := countKind_leftBrace_cons hleft ts
    obtain ⟨hl', hr'⟩ := countKind_rightBrace_cons hright us
    omega

/-- **On the way no more braces are closed than were opened**, up to as many as what follows may close beyond its
own. -/
theorem prefix_le (h : Nests ts rest) : ∀ (d : Nat) (p : List Token), p <+: ts →
    (∀ q, q <+: rest → countKind .rightBrace q ≤ countKind .leftBrace q + d) →
      countKind .rightBrace p ≤ countKind .leftBrace p + d := by
  induction h with
  | done => exact fun d p hp hrest => hrest p hp
  | @plain t ts rest ht _ ih =>
    intro d p hp hrest
    rcases List.prefix_cons_iff.1 hp with rfl | ⟨p', rfl, hp'⟩
    · exact Nat.zero_le _
    · obtain ⟨hleft, hright⟩ := countKind_brace_cons ht p'
      have hle := ih d p' hp' hrest
      omega
  | @block left right ts us rest hleft _ hright _ ihbody ih =>
    intro d p hp hrest
    -- inside the block one brace more may be closed: its own
    have hclose : ∀ q, q <+: right :: us → countKind .rightBrace q ≤ countKind .leftBrace q + (d + 1) := by
      intro q hq
      rcases List.prefix_cons_iff.1 hq with rfl | ⟨q', rfl, hq'⟩
      · exact Nat.zero_le _
      · obtain ⟨hl, hr⟩ := countKind_rightBrace_cons hright q'
        have hle := ih d q' hq' hrest
        omega
    rcases List.prefix_cons_iff.1 hp with rfl | ⟨p', rfl, hp'⟩
    · exact Nat.zero_le _
    · obtain ⟨hl, hr⟩ := countKind_leftBrace_cons hleft p'
      have hle := ihbody (d + 1) p' hp' hclose
      omega

end Nests

/-! ## What is read nests -/

namespace Parser

theorem isBrace_of_isLiteral {kind : Kind} (h : isLiteral kind = true) : kind.isBrace = false := by
  cases kind <;> cases h <;> rfl

theorem isBrace_of_joins {kind : Kind} : ∀ {k : Nat}, joins k kind = true → kind.isBrace = false
  | 0, h => by cases kind <;> cases h <;> rfl
  | 1, h => by cases kind <;> cases h <;> rfl
  | 2, h => by cases kind <;> cases h <;> rfl
  | 3, h => by cases kind <;> cases h; rfl

theorem plain_of_kind {t : Token} {kind : Kind} (h : t.kind = kind) (hk : kind.isBrace = false) :
    t.kind.isBrace = false := by rw [h, hk]

mutual

/-- No brace stands in an expression. -/
theorem ReadsExpr.nests {k : Nat} {e : Expr} {ts rest : List Token} : ReadsExpr k e ts rest → Nests ts rest
  | .literal h => .plain (isBrace_of_isLiteral h) .done
  | .variable h _ => .plain (plain_of_kind h rfl) .done
  | .call hname hleft hright =>
    .plain (plain_of_kind hname rfl) (.plain (plain_of_kind hleft rfl) (.plain (plain_of_kind hright rfl) .done))
  | .callArgs hname hleft hargs hright =>
    .plain (plain_of_kind hname rfl)
      (.plain (plain_of_kind hleft rfl) (hargs.nests.plain_end (plain_of_kind hright rfl)))
  | .unary hop he => .plain (plain_of_kind hop rfl) he.nests
  | .parens hleft he hright =>
    .plain (plain_of_kind hleft rfl) (he.nests.plain_end (plain_of_kind hright rfl))
  | .chain hl hmore => hl.nests.trans hmore.nests

theorem ReadsMore.nests {k : Nat} {l e : Expr} {ts rest : List Token} : ReadsMore k l e ts rest → Nests ts rest
  | .stop _ => .done
  | .more hop hr hmore => .plain (isBrace_of_joins hop) (hr.nests.trans hmore.nests)

theorem ReadsArgs.nests {args : List Expr} {ts rest : List Token} : ReadsArgs args ts rest → Nests ts rest
  | .last he _ => he.nests
  | .more he hcomma hargs => (he.nests.plain_end (plain_of_kind hcomma rfl)).trans hargs.nests

end

theorem Ends.nests {ts rest : List Token} : Ends ts rest → Nests ts rest
  | .newline h => .plain (plain_of_kind h rfl) .done
  | .brace _ => .done
  | .done => .done

theorem ReadsNames.nests {names ts rest : List Token} : ReadsNames names ts rest → Nests ts rest
  | .last h _ => .plain (plain_of_kind h rfl) .done
  | .more h hcomma hmore => .plain (plain_of_kind h rfl) (.plain (plain_of_kind hcomma rfl) hmore.nests)

theorem ReadsParams.nests {params ts rest : List Token} : ReadsParams params ts rest → Nests ts rest
  | .none h => .plain (plain_of_kind h rfl) .done
  | .some hnames h => hnames.nests.plain_end (plain_of_kind h rfl)

mutual

theorem ReadsStmt.nests {eof : Token} {d : Bool} {s : Stmt} {ts rest : List Token} :
    ReadsStmt eof d s ts rest → Nests ts rest
  | .newline h hs => .plain (plain_of_kind h rfl) hs.nests
  | .finish => .done
  | .loop h hc hs => .plain (plain_of_kind h rfl) (hc.nests.trans hs.nests)
  | .branch h hc hs hch => .plain (plain_of_kind h rfl) (hc.nests.trans (hs.nests.trans hch.nests))
  | .block h hbody => by
    obtain ⟨right, hright, hnests⟩ := hbody.nests
    exact .block h hnests hright .done
  | .giveNone h hend => .plain (plain_of_kind h rfl) hend.nests
  | .giveSome h he hend => .plain (plain_of_kind h rfl) (he.nests.trans hend.nests)
  | .increase h hname => .plain (plain_of_kind h rfl) (.plain (plain_of_kind hname rfl) .done)
  | .decrease h hname => .plain (plain_of_kind h rfl) (.plain (plain_of_kind hname rfl) .done)
  | .define h hname hleft hparams hbrace hbody => by
    obtain ⟨right, hright, hnests⟩ := hbody.nests
    exact .plain (plain_of_kind h rfl) (.plain (plain_of_kind hname rfl) (.plain (plain_of_kind hleft rfl)
      (hparams.nests.trans (.block hbrace hnests hright .done))))
  | .declareNone h hname hend => .plain (plain_of_kind h rfl) (.plain (plain_of_kind hname rfl) hend.nests)
  | .declareSome h hname hsign he hend =>
    .plain (plain_of_kind h rfl) (.plain (plain_of_kind hname rfl) (.plain (plain_of_kind hsign rfl)
      (he.nests.trans hend.nests)))
  | .expression he _ hend => he.nests.trans hend.nests
  | .assign htarget hsign he hend =>
    (htarget.nests.plain_end (plain_of_kind hsign rfl)).trans (he.nests.trans hend.nests)

/-- A body nests up to the brace that closes it. -/
theorem ReadsBody.nests {eof : Token} {ss : List Stmt} {ts rest : List Token} :
    ReadsBody eof ss ts rest → ∃ right : Token, right.kind = .rightBrace ∧ Nests ts (right :: rest)
  | .close h => ⟨_, h, .done⟩
  | .newline h hss => by
    obtain ⟨right, hright, hnests⟩ := hss.nests
    exact ⟨right, hright, .plain (plain_of_kind h rfl) hnests⟩
  | .cons _ _ hs hss => by
    obtain ⟨right, hright, hnests⟩ := hss.nests
    exact ⟨right, hright, hs.nests.trans hnests⟩

theorem ReadsChain.nests {eof : Token} {ch : Chain} {ts rest : List Token} : ReadsChain eof ch ts rest → Nests ts rest
  | .done _ => .done
  | .otherwise h hs => .plain (plain_of_kind h rfl) hs.nests
  | .retry h hc hs hch => .plain (plain_of_kind h rfl) (hc.nests.trans (hs.nests.trans hch.nests))

end

theorem ReadsProgram.nests {eof : Token} {program : List Stmt} {ts : List Token} :
    ReadsProgram eof program ts → Nests ts []
  | .nil => .done
  | .cons hs hss => hs.nests.trans hss.nests

end Parser

end Loot
