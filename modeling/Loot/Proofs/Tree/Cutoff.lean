import Loot.Proofs.Tree.Nesting
import Loot.Proofs.Tree.Seam
/-!
# Programs cut off at the end of a line

A program is cut at a newline, and the tokens before it are looked at alone.  An expression does not reach over the
newline, so it is read there as it was.  A statement may reach over it, in three ways: a loop or a branch has its body
further down, a choice has more clauses, or a block is not closed.  In the first two ways what is left is a statement
still, with less in it.  So the first lines of a program are a program themselves, unless they leave a block open
(`ReadsProgram.cut`).
-/
namespace Loot

/-- A block is left open: more braces are opened than closed. -/
def LeavesOpen (ts : List Token) : Prop := countKind .rightBrace ts < countKind .leftBrace ts

theorem LeavesOpen.of_nests {ts us : List Token} (h : LeavesOpen us) (hnests : Nests ts us) : LeavesOpen ts := by
  have hbalance := hnests.balance
  unfold LeavesOpen at h ⊢
  omega

theorem LeavesOpen.block {t : Token} {ts : List Token} (ht : t.kind = .leftBrace)
    (h : countKind .rightBrace ts ≤ countKind .leftBrace ts) : LeavesOpen (t :: ts) := by
  obtain ⟨hleft, hright⟩ := countKind_leftBrace_cons ht ts
  unfold LeavesOpen
  omega

theorem LeavesOpen.expression {t : Token} {ts us : List Token} {kind : Kind} {c : Expr} (h : LeavesOpen us)
    (ht : t.kind = kind) (hk : kind.isBrace = false) (hc : Parser.ReadsExpr 4 c ts us) : LeavesOpen (t :: ts) :=
  h.of_nests (.plain (Parser.plain_of_kind ht hk) hc.nests)

theorem Nests.closes_all {ts : List Token} (h : Nests ts []) :
    countKind .rightBrace ts = countKind .leftBrace ts := h.balance.symm

namespace Parser

/-! ## Expressions -/

variable {nl : Token} {more : List Token}

/-- A token that is no newline stands before the cut. -/
theorem cut_cons (hnl : nl.kind = .newline) {t : Token} (ht : t.kind ≠ .newline) {ts us : List Token}
    (h : t :: us = ts ++ nl :: more) : ∃ vs, ts = t :: vs ∧ us = vs ++ nl :: more := by
  cases ts with
  | nil =>
    cases h
    exact absurd hnl ht
  | cons t' vs =>
    cases h
    exact ⟨vs, rfl, rfl⟩

theorem cut_kind (hnl : nl.kind = .newline) {t : Token} {kind : Kind} (ht : t.kind = kind) (hk : kind ≠ .newline)
    {ts us : List Token} (h : t :: us = ts ++ nl :: more) : ∃ vs, ts = t :: vs ∧ us = vs ++ nl :: more :=
  cut_cons hnl (by rw [ht]; exact hk) h

theorem NotNext.of_append {test : Kind → Bool} {ts us : List Token} (h : NotNext test us)
    (hus : us = ts ++ nl :: more) : NotNext test ts := by
  intro t ht
  refine h t ?_
  rw [hus, List.head?_append, ht]
  rfl

mutual

/-- **An expression ends before the newline.** -/
theorem ReadsExpr.cut (hnl : nl.kind = .newline) {k : Nat} {e : Expr} {ts' rest' : List Token} :
    ReadsExpr k e ts' rest' → ∀ ts, ts' = ts ++ nl :: more →
      ∃ rest, rest' = rest ++ nl :: more ∧ ReadsExpr k e ts rest
  | .literal h, ts, hts => by
    obtain ⟨rest, rfl, hrest⟩ := cut_cons hnl (fun hk => by rw [hk] at h; cases h) hts
    exact ⟨rest, hrest, .literal h⟩
  | .variable h hnot, ts, hts => by
    obtain ⟨rest, rfl, hrest⟩ := cut_kind hnl h (by decide) hts
    exact ⟨rest, hrest, .variable h (hnot.of_append hrest)⟩
  | .call hname hleft hright, ts, hts => by
    obtain ⟨us, rfl, hus⟩ := cut_kind hnl hname (by decide) hts
    obtain ⟨vs, rfl, hvs⟩ := cut_kind hnl hleft (by decide) hus
    obtain ⟨rest, rfl, hrest⟩ := cut_kind hnl hright (by decide) hvs
    exact ⟨rest, hrest, .call hname hleft hright⟩
  | .callArgs hname hleft hargs hright, ts, hts => by
    obtain ⟨us, rfl, hus⟩ := cut_kind hnl hname (by decide) hts
    obtain ⟨vs, rfl, hvs⟩ := cut_kind hnl hleft (by decide) hus
    obtain ⟨ws, hws, hread⟩ := hargs.cut hnl vs hvs
    obtain ⟨rest, rfl, hrest⟩ := cut_kind hnl hright (by decide) hws
    exact ⟨rest, hrest, .callArgs hname hleft hread hright⟩
  | .unary hop he, ts, hts => by
    obtain ⟨us, rfl, hus⟩ := cut_kind hnl hop (by decide) hts
    obtain ⟨rest, hrest, hread⟩ := he.cut hnl us hus
    exact ⟨rest, hrest, .unary hop hread⟩
  | .parens hleft he hright, ts, hts => by
    obtain ⟨us, rfl, hus⟩ := cut_kind hnl hleft (by decide) hts
    obtain ⟨vs, hvs, hread⟩ := he.cut hnl us hus
    obtain ⟨rest, rfl, hrest⟩ := cut_kind hnl hright (by decide) hvs
    exact ⟨rest, hrest, .parens hleft hread hright⟩
  | .chain hl hmore, ts, hts => by
    obtain ⟨us, hus, hread⟩ := hl.cut hnl ts hts
    obtain ⟨rest, hrest, hread'⟩ := hmore.cut hnl us hus
    exact ⟨rest, hrest, .chain hread hread'⟩

theorem ReadsMore.cut (hnl : nl.kind = .newline) {k : Nat} {l e : Expr} {ts' rest' : List Token} :
    ReadsMore k l e ts' rest' → ∀ ts, ts' = ts ++ nl :: more →
      ∃ rest, rest' = rest ++ nl :: more ∧ ReadsMore k l e ts rest
  | .stop hnot, ts, hts => ⟨ts, hts, .stop (hnot.of_append hts)⟩
  | .more hop hr hmore, ts, hts => by
    obtain ⟨us, rfl, hus⟩ := cut_cons hnl (fun hk => by rw [hk, joins_newline] at hop; cases hop) hts
    obtain ⟨vs, hvs, hread⟩ := hr.cut hnl us hus
    obtain ⟨rest, hrest, hread'⟩ := hmore.cut hnl vs hvs
    exact ⟨rest, hrest, .more hop hread hread'⟩

theorem ReadsArgs.cut (hnl : nl.kind = .newline) {args : List Expr} {ts' rest' : List Token} :
    ReadsArgs args ts' rest' → ∀ ts, ts' = ts ++ nl :: more →
      ∃ rest, rest' = rest ++ nl :: more ∧ ReadsArgs args ts rest
  | .last he hnot, ts, hts => by
    obtain ⟨rest, hrest, hread⟩ := he.cut hnl ts hts
    exact ⟨rest, hrest, .last hread (hnot.of_append hrest)⟩
  | .more he hcomma hargs, ts, hts => by
    obtain ⟨us, hus, hread⟩ := he.cut hnl ts hts
    obtain ⟨vs, rfl, hvs⟩ := cut_kind hnl hcomma (by decide) hus
    obtain ⟨rest, hrest, hread'⟩ := hargs.cut hnl vs hvs
    exact ⟨rest, hrest, .more hread hcomma hread'⟩

end

/-! ## Simple statements -/

theorem ReadsNames.cut (hnl : nl.kind = .newline) {names ts' rest' : List Token} :
    ReadsNames names ts' rest' → ∀ ts, ts' = ts ++ nl :: more →
      ∃ rest, rest' = rest ++ nl :: more ∧ ReadsNames names ts rest
  | .last h hnot, ts, hts => by
    obtain ⟨rest, rfl, hrest⟩ := cut_kind hnl h (by decide) hts
    exact ⟨rest, hrest, .last h (hnot.of_append hrest)⟩
  | .more h hcomma hmore, ts, hts => by
    obtain ⟨us, rfl, hus⟩ := cut_kind hnl h (by decide) hts
    obtain ⟨vs, rfl, hvs⟩ := cut_kind hnl hcomma (by decide) hus
    obtain ⟨rest, hrest, hread⟩ := hmore.cut hnl vs hvs
    exact ⟨rest, hrest, .more h hcomma hread⟩

theorem ReadsParams.cut (hnl : nl.kind = .newline) {params ts' rest' : List Token} :
    ReadsParams params ts' rest' → ∀ ts, ts' = ts ++ nl :: more →
      ∃ rest, rest' = rest ++ nl :: more ∧ ReadsParams params ts rest
  | .none h, ts, hts => by
    obtain ⟨rest, rfl, hrest⟩ := cut_kind hnl h (by decide) hts
    exact ⟨rest, hrest, .none h⟩
  | .some hnames h, ts, hts => by
    obtain ⟨us, hus, hread⟩ := hnames.cut hnl ts hts
    obtain ⟨rest, rfl, hrest⟩ := cut_kind hnl h (by decide) hus
    exact ⟨rest, hrest, .some hread h⟩

/-- A statement that ended with the newline ends with the tokens now. -/
theorem Ends.cut (hnl : nl.kind = .newline) {ts' rest' : List Token} :
    Ends ts' rest' → ∀ ts, ts' = ts ++ nl :: more → ∃ rest, Ends ts rest ∧ LeftBefore nl more rest rest'
  | .newline h, [], hts => by
    cases hts
    exact ⟨[], .done, .inr ⟨rfl, rfl⟩⟩
  | .newline h, t :: ts, hts => by
    cases hts
    exact ⟨ts, .newline h, .inl rfl⟩
  | .brace h, ts, hts => by
    obtain ⟨rest, rfl, hrest⟩ := cut_kind hnl h (by decide) hts
    exact ⟨_, .brace h, .inl hts⟩
  | .done, ts, hts => by
    cases ts <;> cases hts

theorem ReadsExpr.cut_end (hnl : nl.kind = .newline) {e : Expr} {ts' us' rest' : List Token}
    (he : ReadsExpr 4 e ts' us') (hend : Ends us' rest') {ts : List Token} (hts : ts' = ts ++ nl :: more) :
    ∃ us rest, ReadsExpr 4 e ts us ∧ Ends us rest ∧ LeftBefore nl more rest rest' := by
  obtain ⟨us, hus, hread⟩ := he.cut hnl ts hts
  obtain ⟨rest, hend', hleft⟩ := hend.cut hnl us hus
  exact ⟨us, rest, hread, hend', hleft⟩

/-! ## Statements with statements in them -/

variable {eof eof' : Token}

/-- **What the cut leaves of a statement** that was read from longer tokens down to the rest: the statement itself, or
one in its place up to the cut, or an open block. -/
def CutStmt (eof : Token) (d : Bool) (s : Stmt) (nl : Token) (more ts rest' : List Token) : Prop :=
  (∃ rest, ReadsStmt eof d s ts rest ∧ LeftBefore nl more rest rest') ∨
    (∃ s', ReadsStmt eof d s' ts []) ∨ LeavesOpen ts

/-- What the cut leaves of clauses, likewise. -/
def CutChain (eof : Token) (ch : Chain) (nl : Token) (more ts rest' : List Token) : Prop :=
  (∃ rest, ReadsChain eof ch ts rest ∧ LeftBefore nl more rest rest') ∨
    (∃ ch', ReadsChain eof ch' ts []) ∨ LeavesOpen ts

/-- A condition, a body and the clauses after it, cut: the clauses are there as they were, or they end with the body
or at the cut, or a block is left open. -/
theorem cut_clauses {s : Stmt} {ch : Chain} {us vs' rest' : List Token} (hs : CutStmt eof false s nl more us vs')
    (hch : ∀ vs, vs' = vs ++ nl :: more → CutChain eof ch nl more vs rest') :
    (∃ vs rest, ReadsStmt eof false s us vs ∧ ReadsChain eof ch vs rest ∧ LeftBefore nl more rest rest') ∨
      (∃ s' ch' vs, ReadsStmt eof false s' us vs ∧ ReadsChain eof ch' vs []) ∨ LeavesOpen us := by
  have hdone : ReadsChain eof .done [] [] := .done (fun _ h => nomatch h)
  rcases hs with ⟨vs, hread, hvs | ⟨rfl, -⟩⟩ | ⟨s', hread⟩ | hopen
  · rcases hch vs hvs with ⟨rest, hread', hleft⟩ | ⟨ch', hread'⟩ | hopen
    · exact .inl ⟨vs, rest, hread, hread', hleft⟩
    · exact .inr (.inl ⟨s, ch', vs, hread, hread'⟩)
    · exact .inr (.inr (hopen.of_nests hread.nests))
  · exact .inr (.inl ⟨s, .done, [], hread, hdone⟩)
  · exact .inr (.inl ⟨s', .done, [], hread, hdone⟩)
  · exact .inr (.inr hopen)

mutual

theorem ReadsStmt.cut (hnl : nl.kind = .newline) {d : Bool} {s : Stmt} {ts' rest' : List Token} :
    ReadsStmt eof' d s ts' rest' → ∀ ts, ts' = ts ++ nl :: more → CutStmt eof d s nl more ts rest'
  | .newline h hs, [], _ => .inr (.inl ⟨.finish eof, .finish⟩)
  | .newline h hs, t :: ts, hts => by
    obtain ⟨ht, hts⟩ := List.cons.inj hts
    rw [ht] at h
    rcases hs.cut hnl ts hts with ⟨rest, hread, hleft⟩ | ⟨s', hread⟩ | hopen
    · exact .inl ⟨rest, .newline h hread, hleft⟩
    · exact .inr (.inl ⟨s', .newline h hread⟩)
    · exact .inr (.inr (hopen.of_nests (.plain (plain_of_kind h rfl) .done)))
  | .finish, ts, hts => by
    cases ts <;> cases hts
  | .loop h hc hs, ts, hts => by
    obtain ⟨us, rfl, hus⟩ := cut_kind hnl h (by decide) hts
    obtain ⟨vs, hvs, hcond⟩ := hc.cut hnl us hus
    rcases hs.cut hnl vs hvs with ⟨rest, hread, hleft⟩ | ⟨s', hread⟩ | hopen
    · exact .inl ⟨rest, .loop h hcond hread, hleft⟩
    · exact .inr (.inl ⟨_, .loop h hcond hread⟩)
    · exact .inr (.inr (hopen.expression h rfl hcond))
  | .branch h hc hs hch, ts, hts => by
    obtain ⟨us, rfl, hus⟩ := cut_kind hnl h (by decide) hts
    obtain ⟨vs, hvs, hcond⟩ := hc.cut hnl us hus
    rcases cut_clauses (hs.cut hnl vs hvs) (hch.cut hnl) with
      ⟨ws, rest, hread, hread', hleft⟩ | ⟨s', ch', ws, hread, hread'⟩ | hopen
    · exact .inl ⟨rest, .branch h hcond hread hread', hleft⟩
    · exact .inr (.inl ⟨_, .branch h hcond hread hread'⟩)
    · exact .inr (.inr (hopen.expression h rfl hcond))
  | .block h hbody, ts, hts => by
    obtain ⟨us, rfl, hus⟩ := cut_kind hnl h (by decide) hts
    rcases hbody.cut hnl us hus with ⟨rest, hread, hrest⟩ | hle
    · exact .inl ⟨rest, .block h hread, .inl hrest⟩
    · exact .inr (.inr (.block h hle))
  | .giveNone h hend, ts, hts => by
    obtain ⟨us, rfl, hus⟩ := cut_kind hnl h (by decide) hts
    obtain ⟨rest, hend', hleft⟩ := hend.cut hnl us hus
    exact .inl ⟨rest, .giveNone h hend', hleft⟩
  | .giveSome h he hend, ts, hts => by
    obtain ⟨us, rfl, hus⟩ := cut_kind hnl h (by decide) hts
    obtain ⟨vs, rest, hread, hend', hleft⟩ := he.cut_end hnl hend hus
    exact .inl ⟨rest, .giveSome h hread hend', hleft⟩
  | .increase h hname, ts, hts => by
    obtain ⟨us, rfl, hus⟩ := cut_kind hnl h (by decide) hts
    obtain ⟨rest, rfl, hrest⟩ := cut_kind hnl hname (by decide) hus
    exact .inl ⟨rest, .increase h hname, .inl hrest⟩
  | .decrease h hname, ts, hts => by
    obtain ⟨us, rfl, hus⟩ := cut_kind hnl h (by decide) hts
    obtain ⟨rest, rfl, hrest⟩ := cut_kind hnl hname (by decide) hus
    exact .inl ⟨rest, .decrease h hname, .inl hrest⟩
  | .define h hname hleft hparams hbrace hbody, ts, hts => by
    obtain ⟨us, rfl, hus⟩ := cut_kind hnl h (by decide) hts
    obtain ⟨vs, rfl, hvs⟩ := cut_kind hnl hname (by decide) hus
    obtain ⟨ws, rfl, hws⟩ := cut_kind hnl hleft (by decide) hvs
    obtain ⟨xs, hxs, hread⟩ := hparams.cut hnl ws hws
    obtain ⟨ys, rfl, hys⟩ := cut_kind hnl hbrace (by decide) hxs
    rcases hbody.cut hnl ys hys with ⟨rest, hread', hrest⟩ | hle
    · exact .inl ⟨rest, .define h hname hleft hread hbrace hread', .inl hrest⟩
    · refine .inr (.inr ((LeavesOpen.block hbrace hle).of_nests ?_))
      exact .plain (plain_of_kind h rfl)
        (.plain (plain_of_kind hname rfl) (.plain (plain_of_kind hleft rfl) hread.nests))
  | .declareNone h hname hend, ts, hts => by
    obtain ⟨us, rfl, hus⟩ := cut_kind hnl h (by decide) hts
    obtain ⟨vs, rfl, hvs⟩ := cut_kind hnl hname (by decide) hus
    obtain ⟨rest, hend', hleft⟩ := hend.cut hnl vs hvs
    exact .inl ⟨rest, .declareNone h hname hend', hleft⟩
  | .declareSome h hname hsign he hend, ts, hts => by
    obtain ⟨us, rfl, hus⟩ := cut_kind hnl h (by decide) hts
    obtain ⟨vs, rfl, hvs⟩ := cut_kind hnl hname (by decide) hus
    obtain ⟨ws, rfl, hws⟩ := cut_kind hnl hsign (by decide) hvs
    obtain ⟨xs, rest, hread, hend', hleft⟩ := he.cut_end hnl hend hws
    exact .inl ⟨rest, .declareSome h hname hsign hread hend', hleft⟩
  | .expression he halone hend, ts, hts => by
    obtain ⟨us, rest, hread, hend', hleft⟩ := he.cut_end hnl hend hts
    exact .inl ⟨rest, .expression hread halone hend', hleft⟩
  | .assign htarget hsign he hend, ts, hts => by
    obtain ⟨us, hus, hread⟩ := htarget.cut hnl ts hts
    obtain ⟨vs, rfl, hvs⟩ := cut_kind hnl hsign (by decide) hus
    obtain ⟨ws, rest, hread', hend', hleft⟩ := he.cut_end hnl hend hvs
    exact .inl ⟨rest, .assign hread hsign hread' hend', hleft⟩

/-- **A body that is cut** is closed before the cut, or it closes no more braces than it opens. -/
theorem ReadsBody.cut (hnl : nl.kind = .newline) {ss : List Stmt} {ts' rest' : List Token} :
    ReadsBody eof' ss ts' rest' → ∀ ts, ts' = ts ++ nl :: more →
      (∃ rest, ReadsBody eof ss ts rest ∧ rest' = rest ++ nl :: more) ∨
        countKind .rightBrace ts ≤ countKind .leftBrace ts
  | .close h, ts, hts => by
    obtain ⟨rest, rfl, hrest⟩ := cut_kind hnl h (by decide) hts
    exact .inl ⟨rest, .close h, hrest⟩
  | .newline h hss, [], _ => .inr (Nat.le_refl _)
  | .newline h hss, t :: ts, hts => by
    obtain ⟨ht, hts⟩ := List.cons.inj hts
    rw [ht] at h
    rcases hss.cut hnl ts hts with ⟨rest, hread, hrest⟩ | hle
    · exact .inl ⟨rest, .newline h hread, hrest⟩
    · obtain ⟨hleft, hright⟩ := countKind_brace_cons (plain_of_kind h rfl) ts
      exact .inr (by omega)
  | .cons hnotnl hbrace hs hss, ts, hts => by
    obtain ⟨us, rfl, hus⟩ := cut_cons hnl hnotnl hts
    rcases hs.cut hnl _ hts with ⟨vs, hread, hvs | ⟨rfl, -⟩⟩ | ⟨s', hread⟩ | hopen
    · rcases hss.cut hnl vs hvs with ⟨rest, hread', hrest⟩ | hle
      · exact .inl ⟨rest, .cons hnotnl hbrace hread hread', hrest⟩
      · have hbalance := hread.nests.balance
        exact .inr (by omega)
    · exact .inr (Nat.le_of_eq hread.nests.closes_all)
    · exact .inr (Nat.le_of_eq hread.nests.closes_all)
    · exact .inr (Nat.le_of_lt hopen)

theorem ReadsChain.cut (hnl : nl.kind = .newline) {ch : Chain} {ts' rest' : List Token} :
    ReadsChain eof' ch ts' rest' → ∀ ts, ts' = ts ++ nl :: more → CutChain eof ch nl more ts rest'
  | .done hnot, ts, hts => .inl ⟨ts, .done (hnot.of_append hts), .inl hts⟩
  | .otherwise h hs, ts, hts => by
    obtain ⟨us, rfl, hus⟩ := cut_kind hnl h (by decide) hts
    rcases hs.cut hnl us hus with ⟨rest, hread, hleft⟩ | ⟨s', hread⟩ | hopen
    · exact .inl ⟨rest, .otherwise h hread, hleft⟩
    · exact .inr (.inl ⟨_, .otherwise h hread⟩)
    · exact .inr (.inr (hopen.of_nests (.plain (plain_of_kind h rfl) .done)))
  | .retry h hc hs hch, ts, hts => by
    obtain ⟨us, rfl, hus⟩ := cut_kind hnl h (by decide) hts
    obtain ⟨vs, hvs, hcond⟩ := hc.cut hnl us hus
    rcases cut_clauses (hs.cut hnl vs hvs) (hch.cut hnl) with
      ⟨ws, rest, hread, hread', hleft⟩ | ⟨s', ch', ws, hread, hread'⟩ | hopen
    · exact .inl ⟨rest, .retry h hcond hread hread', hleft⟩
    · exact .inr (.inl ⟨_, .retry h hcond hread hread'⟩)
    · exact .inr (.inr (hopen.expression h rfl hcond))

end

/-! ## Programs -/

/-- **The first lines of a program are a program**, or they leave a block open. -/
theorem ReadsProgram.cut (hnl : nl.kind = .newline) {program : List Stmt} {ts' : List Token} :
    ReadsProgram eof' program ts' → ∀ ts, ts' = ts ++ nl :: more →
      (∃ program', ReadsProgram eof program' ts) ∨ LeavesOpen ts
  | .nil, ts, hts => by
    cases ts <;> cases hts
  | .cons hs hss, [], _ => .inl ⟨[], .nil⟩
  | .cons hs hss, t :: ts, hts => by
    rcases hs.cut hnl (t :: ts) hts with ⟨us, hread, hus | ⟨rfl, -⟩⟩ | ⟨s', hread⟩ | hopen
    · rcases hss.cut hnl us hus with ⟨program', hread'⟩ | hopen
      · exact .inl ⟨_, .cons hread hread'⟩
      · exact .inr (hopen.of_nests hread.nests)
    · exact .inl ⟨_, .cons hread .nil⟩
    · exact .inl ⟨_, .cons hread .nil⟩
    · exact .inr hopen

end Parser

end Loot
