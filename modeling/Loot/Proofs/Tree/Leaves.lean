import Loot.Proofs.Tree.Settled
/-!
# The leaves of a program

A tree written out in the order of the source: the tokens that it holds, and between them the keywords and
signs that its form stands for.  Parentheses, newlines and trivia do not show in a tree, and all else does:
the leaves of a program that was read are its tokens, one by one (`readProgram_leaves`).
-/
namespace Loot

open Loot.Parser

/-- A token that a tree holds, or a keyword or sign that belongs to the form of a node. -/
inductive Leaf where
  | held (t : Token)
  | plain (kind : Kind)
deriving DecidableEq

def Leaf.kind : Leaf → Kind
  | .held t => t.kind
  | .plain kind => kind

/-! ## Trees as lists of leaves -/

mutual

def Expr.leaves : Expr → List Leaf
  | .binary l op r => l.leaves ++ .held op :: r.leaves
  | .unary op e => .held op :: e.leaves
  | .literal token => [.held token]
  | .variable name => [.held name]
  | .call name args => .held name :: Expr.argLeaves args

def Expr.argLeaves : List Expr → List Leaf
  | [] => []
  | [e] => e.leaves
  | e :: es => e.leaves ++ .plain .comma :: Expr.argLeaves es

end

def paramLeaves : List Token → List Leaf
  | [] => []
  | [t] => [.held t]
  | t :: ts => .held t :: .plain .comma :: paramLeaves ts

mutual

def Stmt.leaves : Stmt → List Leaf
  | .expression e => e.leaves
  | .declare name none => [.plain .loot, .held name]
  | .declare name (some e) => .plain .loot :: .held name :: .plain .assign :: e.leaves
  | .block body => .plain .leftBrace :: (Stmt.leavesAll body ++ [.plain .rightBrace])
  | .branch condition body rest => .plain .clutch :: (condition.leaves ++ (body.leaves ++ rest.leaves))
  | .loop condition body => .plain .farm :: (condition.leaves ++ body.leaves)
  | .define name params body =>
    .plain .dlc :: .held name ::
      (paramLeaves params ++ .plain .leftBrace :: (Stmt.leavesAll body ++ [.plain .rightBrace]))
  | .give keyword none => [.held keyword]
  | .give keyword (some e) => .held keyword :: e.leaves
  | .assign target value => .held target :: .plain .assign :: value.leaves
  | .increase name => [.plain .buff, .held name]
  | .decrease name => [.plain .nerf, .held name]
  | .finish _ => []

def Stmt.leavesAll : List Stmt → List Leaf
  | [] => []
  | s :: ss => s.leaves ++ Stmt.leavesAll ss

def Chain.leaves : Chain → List Leaf
  | .done => []
  | .otherwise body => .plain .ragequit :: body.leaves
  | .retry condition body rest => .plain .retry :: (condition.leaves ++ (body.leaves ++ rest.leaves))

end

/-! ## Tokens that show -/

/-- Does a token of the kind show in the tree?  Trivia, newlines, parentheses and the end of file do not. -/
def Kind.isShown (kind : Kind) : Bool :=
  !(kind.isTrivia || kind == .newline || kind == .endOfFile || kind == .leftParen || kind == .rightParen)

/-- **The leaves in which tokens show**, from the front of the list down to the rest. -/
inductive Shown (rest : List Token) : List Leaf → List Token → Prop
  | done : Shown rest [] rest
  | silent {ws : List Leaf} {t : Token} {ts : List Token} : t.kind.isShown = false → Shown rest ws ts →
      Shown rest ws (t :: ts)
  | held {ws : List Leaf} {t : Token} {ts : List Token} : t.kind.isShown = true → Shown rest ws ts →
      Shown rest (.held t :: ws) (t :: ts)
  | plain {ws : List Leaf} {kind : Kind} {t : Token} {ts : List Token} : t.kind = kind → kind.isShown = true →
      Shown rest ws ts → Shown rest (.plain kind :: ws) (t :: ts)

namespace Shown

variable {ws vs : List Leaf} {ts us rest : List Token}

theorem append (h : Shown us ws ts) (h' : Shown rest vs us) : Shown rest (ws ++ vs) ts := by
  induction h with
  | done => exact h'
  | silent ht _ ih => exact .silent ht ih
  | held ht _ ih => exact .held ht ih
  | plain ht hk _ ih => exact .plain ht hk ih

/-- A token that does not show at the end, such as a closing parenthesis. -/
theorem silent_end {t : Token} (h : Shown (t :: rest) ws ts) (ht : t.kind.isShown = false) : Shown rest ws ts := by
  have happend := h.append (.silent ht .done)
  rwa [List.append_nil] at happend

theorem isShown (h : Shown rest ws ts) : ∀ w ∈ ws, w.kind.isShown = true := by
  induction h with
  | done => exact fun _ hw => nomatch hw
  | silent _ _ ih => exact ih
  | held ht _ ih => exact List.forall_mem_cons.2 ⟨ht, ih⟩
  | plain _ hk _ ih => exact List.forall_mem_cons.2 ⟨hk, ih⟩

/-- A token that the tree holds is one of the tokens. -/
theorem mem_of_held (h : Shown rest ws ts) : ∀ t, .held t ∈ ws → t ∈ ts := by
  induction h with
  | done => exact fun _ hw => nomatch hw
  | silent _ _ ih => exact fun t ht => List.mem_cons_of_mem _ (ih t ht)
  | held _ _ ih =>
    intro t ht
    rcases List.mem_cons.1 ht with heq | ht
    · cases heq
      exact List.mem_cons_self
    · exact List.mem_cons_of_mem _ (ih t ht)
  | plain _ _ _ ih =>
    intro t ht
    rcases List.mem_cons.1 ht with heq | ht
    · cases heq
    · exact List.mem_cons_of_mem _ (ih t ht)

theorem map_kind (h : Shown [] ws ts) : ws.map Leaf.kind = (ts.filter (·.kind.isShown)).map Token.kind := by
  induction h with
  | done => rfl
  | silent ht _ ih => rw [ih, List.filter_cons_of_neg (by simp [ht])]
  | held ht _ ih => rw [List.filter_cons_of_pos (by simp [ht]), List.map_cons, List.map_cons, ih]; rfl
  | plain ht hk _ ih =>
    rw [List.filter_cons_of_pos (by simp [ht, hk]), List.map_cons, List.map_cons, ih, ht]
    rfl

theorem getElem?_held (h : Shown [] ws ts) : ∀ (i : Nat) (t : Token), ws[i]? = some (.held t) →
    (ts.filter (·.kind.isShown))[i]? = some t := by
  induction h with
  | done => exact fun i t hi => by simp at hi
  | silent ht _ ih => rwa [List.filter_cons_of_neg (by simp [ht])]
  | held ht _ ih =>
    rw [List.filter_cons_of_pos (by simp [ht])]
    intro i t hi
    cases i with
    | zero =>
      cases hi
      rfl
    | succ i => exact ih i t hi
  | plain ht hk _ ih =>
    rw [List.filter_cons_of_pos (by simp [ht, hk])]
    intro i t hi
    cases i with
    | zero => cases hi
    | succ i => exact ih i t hi

end Shown

/-! ## What is read shows -/

namespace Parser

theorem isShown_of_isLiteral {kind : Kind} (h : isLiteral kind = true) : kind.isShown = true := by
  cases kind <;> cases h <;> rfl

theorem isShown_of_joins {kind : Kind} : ∀ {k : Nat}, joins k kind = true → kind.isShown = true
  | 0, h => by cases kind <;> cases h <;> rfl
  | 1, h => by cases kind <;> cases h <;> rfl
  | 2, h => by cases kind <;> cases h <;> rfl
  | 3, h => by cases kind <;> cases h; rfl

theorem shown_of_kind {t : Token} {kind : Kind} (h : t.kind = kind) (hk : kind.isShown = true) :
    t.kind.isShown = true := by rw [h, hk]

theorem silent_of_kind {t : Token} {kind : Kind} (h : t.kind = kind) (hk : kind.isShown = false) :
    t.kind.isShown = false := by rw [h, hk]

mutual

theorem ReadsExpr.shown {k : Nat} {e : Expr} {ts rest : List Token} : ReadsExpr k e ts rest → Shown rest e.leaves ts
  | .literal h => by
    rw [Expr.leaves]
    exact .held (isShown_of_isLiteral h) .done
  | .variable h _ => by
    rw [Expr.leaves]
    exact .held (shown_of_kind h rfl) .done
  | .call hname hleft hright => by
    rw [Expr.leaves, Expr.argLeaves]
    exact .held (shown_of_kind hname rfl)
      (.silent (silent_of_kind hleft rfl) (.silent (silent_of_kind hright rfl) .done))
  | .callArgs hname hleft hargs hright => by
    rw [Expr.leaves]
    exact .held (shown_of_kind hname rfl)
      (.silent (silent_of_kind hleft rfl) (hargs.shown.silent_end (silent_of_kind hright rfl)))
  | .unary hop he => by
    rw [Expr.leaves]
    exact .held (shown_of_kind hop rfl) he.shown
  | .parens hleft he hright =>
    .silent (silent_of_kind hleft rfl) (he.shown.silent_end (silent_of_kind hright rfl))
  | .chain hl hmore => by
    obtain ⟨ws, hws, hshown⟩ := hmore.shown
    rw [hws]
    exact hl.shown.append hshown

/-- What follows an expression adds its leaves to those of the expression. -/
theorem ReadsMore.shown {k : Nat} {l e : Expr} {ts rest : List Token} :
    ReadsMore k l e ts rest → ∃ ws, e.leaves = l.leaves ++ ws ∧ Shown rest ws ts
  | .stop _ => ⟨[], (List.append_nil _).symm, .done⟩
  | @ReadsMore.more _ l r e op _ _ _ hop hr hmore => by
    obtain ⟨ws, hws, hshown⟩ := hmore.shown
    refine ⟨.held op :: (r.leaves ++ ws), ?_, .held (isShown_of_joins hop) (hr.shown.append hshown)⟩
    rw [hws, Expr.leaves, List.append_assoc, List.cons_append]

theorem ReadsArgs.shown {args : List Expr} {ts rest : List Token} :
    ReadsArgs args ts rest → Shown rest (Expr.argLeaves args) ts
  | .last he _ => by
    rw [Expr.argLeaves]
    exact he.shown
  | .more he hcomma hargs => by
    have hne : ∀ {es us vs}, ReadsArgs es us vs → es ≠ [] := fun h => by cases h <;> simp
    rw [Expr.argLeaves]
    · exact he.shown.append (.plain hcomma rfl hargs.shown)
    · exact hne hargs

end

theorem Ends.shown {ts rest : List Token} : Ends ts rest → Shown rest [] ts
  | .newline h => .silent (silent_of_kind h rfl) .done
  | .brace _ => .done
  | .done => .done

theorem ReadsExpr.shown_end {e : Expr} {ts us rest : List Token} (h : ReadsExpr 4 e ts us) (hend : Ends us rest) :
    Shown rest e.leaves ts := by
  have happend := h.shown.append hend.shown
  rwa [List.append_nil] at happend

theorem ReadsNames.shown {names ts rest : List Token} : ReadsNames names ts rest → Shown rest (paramLeaves names) ts
  | .last h _ => .held (shown_of_kind h rfl) .done
  | .more h hcomma hmore => by
    have hne : ∀ {ns us vs}, ReadsNames ns us vs → ns ≠ [] := fun h => by cases h <;> simp
    rw [paramLeaves]
    · exact .held (shown_of_kind h rfl) (.plain hcomma rfl hmore.shown)
    · exact hne hmore

theorem ReadsParams.shown {params ts rest : List Token} :
    ReadsParams params ts rest → Shown rest (paramLeaves params) ts
  | .none h => .silent (silent_of_kind h rfl) .done
  | .some hnames h => hnames.shown.silent_end (silent_of_kind h rfl)

mutual

theorem ReadsStmt.shown {eof : Token} {d : Bool} {s : Stmt} {ts rest : List Token} :
    ReadsStmt eof d s ts rest → Shown rest s.leaves ts
  | .newline h hs => .silent (silent_of_kind h rfl) hs.shown
  | .finish => by
    rw [Stmt.leaves]
    exact .done
  | .loop h hc hs => by
    rw [Stmt.leaves]
    exact .plain h rfl (hc.shown.append hs.shown)
  | .branch h hc hs hch => by
    rw [Stmt.leaves]
    exact .plain h rfl (hc.shown.append (hs.shown.append hch.shown))
  | .block h hbody => by
    rw [Stmt.leaves]
    exact .plain h rfl hbody.shown
  | .giveNone h hend => by
    rw [Stmt.leaves]
    exact .held (shown_of_kind h rfl) hend.shown
  | .giveSome h he hend => by
    rw [Stmt.leaves]
    exact .held (shown_of_kind h rfl) (he.shown_end hend)
  | .increase h hname => by
    rw [Stmt.leaves]
    exact .plain h rfl (.held (shown_of_kind hname rfl) .done)
  | .decrease h hname => by
    rw [Stmt.leaves]
    exact .plain h rfl (.held (shown_of_kind hname rfl) .done)
  | .define h hname hleft hparams hbrace hbody => by
    rw [Stmt.leaves]
    exact .plain h rfl (.held (shown_of_kind hname rfl) (.silent (silent_of_kind hleft rfl)
      (hparams.shown.append (.plain hbrace rfl hbody.shown))))
  | .declareNone h hname hend => by
    rw [Stmt.leaves]
    exact .plain h rfl (.held (shown_of_kind hname rfl) hend.shown)
  | .declareSome h hname hsign he hend => by
    rw [Stmt.leaves]
    exact .plain h rfl (.held (shown_of_kind hname rfl) (.plain hsign rfl (he.shown_end hend)))
  | .expression he _ hend => by
    rw [Stmt.leaves]
    exact he.shown_end hend
  | .assign htarget hsign he hend => by
    have hname := htarget.shown
    rw [Expr.leaves] at hname
    rw [Stmt.leaves]
    exact hname.append (.plain hsign rfl (he.shown_end hend))

/-- The leaves of a body and of the brace that closes it. -/
theorem ReadsBody.shown {eof : Token} {ss : List Stmt} {ts rest : List Token} :
    ReadsBody eof ss ts rest → Shown rest (Stmt.leavesAll ss ++ [.plain .rightBrace]) ts
  | .close h => by
    rw [Stmt.leavesAll]
    exact .plain h rfl .done
  | .newline h hss => .silent (silent_of_kind h rfl) hss.shown
  | .cons _ _ hs hss => by
    rw [Stmt.leavesAll, List.append_assoc]
    exact hs.shown.append hss.shown

theorem ReadsChain.shown {eof : Token} {ch : Chain} {ts rest : List Token} :
    ReadsChain eof ch ts rest → Shown rest ch.leaves ts
  | .done _ => by
    rw [Chain.leaves]
    exact .done
  | .otherwise h hs => by
    rw [Chain.leaves]
    exact .plain h rfl hs.shown
  | .retry h hc hs hch => by
    rw [Chain.leaves]
    exact .plain h rfl (hc.shown.append (hs.shown.append hch.shown))

end

theorem ReadsProgram.shown {eof : Token} {program : List Stmt} {ts : List Token} :
    ReadsProgram eof program ts → Shown [] (Stmt.leavesAll program) ts
  | .nil => by
    rw [Stmt.leavesAll]
    exact .done
  | .cons hs hss => by
    rw [Stmt.leavesAll]
    exact hs.shown.append hss.shown

end Parser

/-- **Reading loses, invents and moves no token.**  Leave out trivia, newlines, parentheses and the end of file: the
leaves of a program that was read and the tokens that it was read from are of the same kinds one by one, and
where a leaf is a token that the tree holds, it is the token at its place. -/
theorem readProgram_leaves {body : List Token} {eof : Token} (hbody : ∀ t ∈ body, t.kind ≠ .endOfFile)
    (heof : eof.kind = .endOfFile) {program : List Stmt} (h : readProgram (body ++ [eof]) = .ok program) :
    ((Stmt.leavesAll program).filter (·.kind.isShown)).map Leaf.kind =
        ((body ++ [eof]).filter (·.kind.isShown)).map Token.kind ∧
      ∀ (i : Nat) (t : Token), ((Stmt.leavesAll program).filter (·.kind.isShown))[i]? = some (.held t) →
        ((body ++ [eof]).filter (·.kind.isShown))[i]? = some t := by
  have hshown := ((readProgram_eq_ok_iff hbody heof program).1 h).shown
  have hleaves : (Stmt.leavesAll program).filter (·.kind.isShown) = Stmt.leavesAll program :=
    List.filter_eq_self.2 hshown.isShown
  have htokens : (body ++ [eof]).filter (·.kind.isShown) = (dropTrivia body).filter (·.kind.isShown) := by
    have hsingle : [eof].filter (·.kind.isShown) = [] := List.filter_cons_of_neg (by rw [heof]; decide)
    have htrivia : ∀ t ∈ body, t.kind.isShown = (t.kind.isShown && !t.kind.isTrivia) := fun t _ => by
      cases t.kind <;> rfl
    rw [List.filter_append, hsingle, List.append_nil, dropTrivia, List.filter_filter]
    exact List.filter_congr htrivia
  rw [hleaves, htokens]
  exact ⟨hshown.map_kind, hshown.getElem?_held⟩

/-- `clutch (a) buff b ragequit` and a block with the call `f(a, -b)`, the parts on two lines, with a blank and a
comment that stand between them. -/
def brawlTokens : List Token :=
  let at1 (kind : Kind) (text : String) : Token := ⟨kind, text.toList, some 1⟩
  let at2 (kind : Kind) (text : String) : Token := ⟨kind, text.toList, some 2⟩
  [at1 .clutch "clutch", at1 .blank " ", at1 .leftParen "(", at1 .identifier "a", at1 .rightParen ")",
    at1 .newline "\n", at2 .buff "buff", at2 .identifier "b", at2 .comment "xX again Xx", at2 .ragequit "ragequit",
    at2 .leftBrace "\x7b", at2 .identifier "f", at2 .leftParen "(", at2 .identifier "a", at2 .comma ",",
    at2 .minus "-", at2 .identifier "b", at2 .rightParen ")", at2 .rightBrace "\x7d"]

def brawlEnd : Token := ⟨.endOfFile, [], some 2⟩

theorem readProgram_leaves_choice_over_lines : ∃ program, readProgram (brawlTokens ++ [brawlEnd]) = .ok program ∧
    ((Stmt.leavesAll program).filter (·.kind.isShown)).map Leaf.kind =
      [.clutch, .identifier, .buff, .identifier, .ragequit, .leftBrace, .identifier, .identifier, .comma, .minus,
        .identifier, .rightBrace] ∧
    ((brawlTokens ++ [brawlEnd]).filter (·.kind.isShown))[7]? = some ⟨.identifier, ['a'], some 2⟩ := by
  refine ⟨_, rfl, ?_⟩
  have hbody : ∀ t ∈ brawlTokens, t.kind ≠ .endOfFile := by decide
  obtain ⟨hkinds, hheld⟩ := readProgram_leaves hbody (show brawlEnd.kind = .endOfFile from rfl) rfl
  exact ⟨hkinds.trans (by decide), hheld 7 _ rfl⟩

end Loot
