import Loot.Proofs.Tree.Settled
/-!
# Reading does not look at lines

The parser decides by the kinds of tokens alone.  So if every token is replaced by another of its kind, the program
that is read has the other tokens in the same places (`ReadsProgram.relabel`).
-/
namespace Loot

/-! ## Trees with other tokens -/

mutual

def Expr.mapTokens (f : Token → Token) : Expr → Expr
  | .binary l op r => .binary (l.mapTokens f) (f op) (r.mapTokens f)
  | .unary op e => .unary (f op) (e.mapTokens f)
  | .literal token => .literal (f token)
  | .variable name => .variable (f name)
  | .call name args => .call (f name) (Expr.mapTokensAll f args)

def Expr.mapTokensAll (f : Token → Token) : List Expr → List Expr
  | [] => []
  | e :: es => e.mapTokens f :: Expr.mapTokensAll f es

end

mutual

/-- The statement with each of its tokens replaced. -/
def Stmt.mapTokens (f : Token → Token) : Stmt → Stmt
  | .expression e => .expression (e.mapTokens f)
  | .declare name none => .declare (f name) none
  | .declare name (some e) => .declare (f name) (some (e.mapTokens f))
  | .block body => .block (Stmt.mapTokensAll f body)
  | .branch condition body rest => .branch (condition.mapTokens f) (body.mapTokens f) (rest.mapTokens f)
  | .loop condition body => .loop (condition.mapTokens f) (body.mapTokens f)
  | .define name params body => .define (f name) (params.map f) (Stmt.mapTokensAll f body)
  | .give keyword none => .give (f keyword) none
  | .give keyword (some e) => .give (f keyword) (some (e.mapTokens f))
  | .assign target value => .assign (f target) (value.mapTokens f)
  | .increase name => .increase (f name)
  | .decrease name => .decrease (f name)
  | .finish eof => .finish (f eof)

def Stmt.mapTokensAll (f : Token → Token) : List Stmt → List Stmt
  | [] => []
  | s :: ss => s.mapTokens f :: Stmt.mapTokensAll f ss

def Chain.mapTokens (f : Token → Token) : Chain → Chain
  | .done => .done
  | .otherwise body => .otherwise (body.mapTokens f)
  | .retry condition body rest => .retry (condition.mapTokens f) (body.mapTokens f) (rest.mapTokens f)

end

mutual

theorem Expr.mapTokens_id : ∀ e : Expr, e.mapTokens id = e
  | .binary l op r => by rw [Expr.mapTokens, Expr.mapTokens_id l, Expr.mapTokens_id r, id]
  | .unary op e => by rw [Expr.mapTokens, Expr.mapTokens_id e, id]
  | .literal token => by rw [Expr.mapTokens, id]
  | .variable name => by rw [Expr.mapTokens, id]
  | .call name args => by rw [Expr.mapTokens, Expr.mapTokensAll_id args, id]

theorem Expr.mapTokensAll_id : ∀ es : List Expr, Expr.mapTokensAll id es = es
  | [] => by rw [Expr.mapTokensAll]
  | e :: es => by rw [Expr.mapTokensAll, Expr.mapTokens_id e, Expr.mapTokensAll_id es]

end

mutual

theorem Stmt.mapTokens_id : ∀ s : Stmt, s.mapTokens id = s
  | .expression e => by rw [Stmt.mapTokens, Expr.mapTokens_id e]
  | .declare name none => by rw [Stmt.mapTokens, id]
  | .declare name (some e) => by rw [Stmt.mapTokens, Expr.mapTokens_id e, id]
  | .block body => by rw [Stmt.mapTokens, Stmt.mapTokensAll_id body]
  | .branch condition body rest => by
    rw [Stmt.mapTokens, Expr.mapTokens_id condition, Stmt.mapTokens_id body, Chain.mapTokens_id rest]
  | .loop condition body => by rw [Stmt.mapTokens, Expr.mapTokens_id condition, Stmt.mapTokens_id body]
  | .define name params body => by rw [Stmt.mapTokens, Stmt.mapTokensAll_id body, List.map_id, id]
  | .give keyword none => by rw [Stmt.mapTokens, id]
  | .give keyword (some e) => by rw [Stmt.mapTokens, Expr.mapTokens_id e, id]
  | .assign target value => by rw [Stmt.mapTokens, Expr.mapTokens_id value, id]
  | .increase name => by rw [Stmt.mapTokens, id]
  | .decrease name => by rw [Stmt.mapTokens, id]
  | .finish eof => by rw [Stmt.mapTokens, id]

theorem Stmt.mapTokensAll_id : ∀ ss : List Stmt, Stmt.mapTokensAll id ss = ss
  | [] => by rw [Stmt.mapTokensAll]
  | s :: ss => by rw [Stmt.mapTokensAll, Stmt.mapTokens_id s, Stmt.mapTokensAll_id ss]

theorem Chain.mapTokens_id : ∀ ch : Chain, ch.mapTokens id = ch
  | .done => by rw [Chain.mapTokens]
  | .otherwise body => by rw [Chain.mapTokens, Stmt.mapTokens_id body]
  | .retry condition body rest => by
    rw [Chain.mapTokens, Expr.mapTokens_id condition, Stmt.mapTokens_id body, Chain.mapTokens_id rest]

end

/-! ## Readings with other tokens -/

namespace Parser

variable {f : Token → Token}

theorem NotNext.relabel (hf : ∀ t, (f t).kind = t.kind) {test : Kind → Bool} {ts : List Token} (h : NotNext test ts) :
    NotNext test (ts.map f) := by
  intro t ht
  rw [List.head?_map, Option.map_eq_some_iff] at ht
  obtain ⟨u, hu, rfl⟩ := ht
  rw [hf]
  exact h u hu

theorem standsAlone_relabel {e : Expr} (h : e.standsAlone = true) : (e.mapTokens f).standsAlone = true := by
  match e, h with
  | .variable name, _ => rw [Expr.mapTokens]; rfl
  | .call name args, _ => rw [Expr.mapTokens]; rfl

mutual

theorem ReadsExpr.relabel (hf : ∀ t, (f t).kind = t.kind) {k : Nat} {e : Expr} {ts rest : List Token} :
    ReadsExpr k e ts rest → ReadsExpr k (e.mapTokens f) (ts.map f) (rest.map f)
  | .literal h => by
    rw [Expr.mapTokens]
    exact .literal (by rw [hf]; exact h)
  | .variable h hnot => by
    rw [Expr.mapTokens]
    exact .variable ((hf _).trans h) (hnot.relabel hf)
  | .call hname hleft hright => by
    rw [Expr.mapTokens, Expr.mapTokensAll]
    exact .call ((hf _).trans hname) ((hf _).trans hleft) ((hf _).trans hright)
  | .callArgs hname hleft hargs hright => by
    rw [Expr.mapTokens]
    exact .callArgs ((hf _).trans hname) ((hf _).trans hleft) (hargs.relabel hf) ((hf _).trans hright)
  | .unary hop he => by
    rw [Expr.mapTokens]
    exact .unary ((hf _).trans hop) (he.relabel hf)
  | .parens hleft he hright => .parens ((hf _).trans hleft) (he.relabel hf) ((hf _).trans hright)
  | .chain hl hmore => .chain (hl.relabel hf) (hmore.relabel hf)

theorem ReadsMore.relabel (hf : ∀ t, (f t).kind = t.kind) {k : Nat} {l e : Expr} {ts rest : List Token} :
    ReadsMore k l e ts rest → ReadsMore k (l.mapTokens f) (e.mapTokens f) (ts.map f) (rest.map f)
  | .stop hnot => .stop (hnot.relabel hf)
  | .more hop hr hmore => by
    have hrest := hmore.relabel hf
    rw [Expr.mapTokens] at hrest
    exact .more (by rw [hf]; exact hop) (hr.relabel hf) hrest

theorem ReadsArgs.relabel (hf : ∀ t, (f t).kind = t.kind) {args : List Expr} {ts rest : List Token} :
    ReadsArgs args ts rest → ReadsArgs (Expr.mapTokensAll f args) (ts.map f) (rest.map f)
  | .last he hnot => by
    rw [Expr.mapTokensAll, Expr.mapTokensAll]
    exact .last (he.relabel hf) (hnot.relabel hf)
  | .more he hcomma hargs => by
    rw [Expr.mapTokensAll]
    exact .more (he.relabel hf) ((hf _).trans hcomma) (hargs.relabel hf)

end

theorem Ends.relabel (hf : ∀ t, (f t).kind = t.kind) {ts rest : List Token} :
    Ends ts rest → Ends (ts.map f) (rest.map f)
  | .newline h => .newline ((hf _).trans h)
  | .brace h => .brace ((hf _).trans h)
  | .done => .done

theorem ReadsNames.relabel (hf : ∀ t, (f t).kind = t.kind) {names ts rest : List Token} :
    ReadsNames names ts rest → ReadsNames (names.map f) (ts.map f) (rest.map f)
  | .last h hnot => .last ((hf _).trans h) (hnot.relabel hf)
  | .more h hcomma hmore => .more ((hf _).trans h) ((hf _).trans hcomma) (hmore.relabel hf)

theorem ReadsParams.relabel (hf : ∀ t, (f t).kind = t.kind) {params ts rest : List Token} :
    ReadsParams params ts rest → ReadsParams (params.map f) (ts.map f) (rest.map f)
  | .none h => .none ((hf _).trans h)
  | .some hnames h => .some (hnames.relabel hf) ((hf _).trans h)

mutual

theorem ReadsStmt.relabel (hf : ∀ t, (f t).kind = t.kind) {eof : Token} {d : Bool} {s : Stmt} {ts rest : List Token} :
    ReadsStmt eof d s ts rest → ReadsStmt (f eof) d (s.mapTokens f) (ts.map f) (rest.map f)
  | .newline h hs => .newline ((hf _).trans h) (hs.relabel hf)
  | .finish => by
    rw [Stmt.mapTokens]
    exact .finish
  | .loop h hc hs => by
    rw [Stmt.mapTokens]
    exact .loop ((hf _).trans h) (hc.relabel hf) (hs.relabel hf)
  | .branch h hc hs hch => by
    rw [Stmt.mapTokens]
    exact .branch ((hf _).trans h) (hc.relabel hf) (hs.relabel hf) (hch.relabel hf)
  | .block h hbody => by
    rw [Stmt.mapTokens]
    exact .block ((hf _).trans h) (hbody.relabel hf)
  | .giveNone h hend => by
    rw [Stmt.mapTokens]
    exact .giveNone ((hf _).trans h) (hend.relabel hf)
  | .giveSome h he hend => by
    rw [Stmt.mapTokens]
    exact .giveSome ((hf _).trans h) (he.relabel hf) (hend.relabel hf)
  | .increase h hname => by
    rw [Stmt.mapTokens]
    exact .increase ((hf _).trans h) ((hf _).trans hname)
  | .decrease h hname => by
    rw [Stmt.mapTokens]
    exact .decrease ((hf _).trans h) ((hf _).trans hname)
  | .define h hname hleft hparams hbrace hbody => by
    rw [Stmt.mapTokens]
    exact .define ((hf _).trans h) ((hf _).trans hname) ((hf _).trans hleft) (hparams.relabel hf)
      ((hf _).trans hbrace) (hbody.relabel hf)
  | .declareNone h hname hend => by
    rw [Stmt.mapTokens]
    exact .declareNone ((hf _).trans h) ((hf _).trans hname) (hend.relabel hf)
  | .declareSome h hname hsign he hend => by
    rw [Stmt.mapTokens]
    exact .declareSome ((hf _).trans h) ((hf _).trans hname) ((hf _).trans hsign) (he.relabel hf)
      (hend.relabel hf)
  | .expression he halone hend => by
    rw [Stmt.mapTokens]
    exact .expression (he.relabel hf) (standsAlone_relabel halone) (hend.relabel hf)
  | .assign htarget hsign he hend => by
    have htarget' := htarget.relabel hf
    rw [Expr.mapTokens] at htarget'
    rw [Stmt.mapTokens]
    exact .assign htarget' ((hf _).trans hsign) (he.relabel hf) (hend.relabel hf)

theorem ReadsBody.relabel (hf : ∀ t, (f t).kind = t.kind) {eof : Token} {ss : List Stmt} {ts rest : List Token} :
    ReadsBody eof ss ts rest → ReadsBody (f eof) (Stmt.mapTokensAll f ss) (ts.map f) (rest.map f)
  | .close h => by
    rw [Stmt.mapTokensAll]
    exact .close ((hf _).trans h)
  | .newline h hss => .newline ((hf _).trans h) (hss.relabel hf)
  | .cons hnl hbrace hs hss => by
    rw [Stmt.mapTokensAll]
    exact .cons (by rw [hf]; exact hnl) (by rw [hf]; exact hbrace) (hs.relabel hf) (hss.relabel hf)

theorem ReadsChain.relabel (hf : ∀ t, (f t).kind = t.kind) {eof : Token} {ch : Chain} {ts rest : List Token} :
    ReadsChain eof ch ts rest → ReadsChain (f eof) (ch.mapTokens f) (ts.map f) (rest.map f)
  | .done hnot => by
    rw [Chain.mapTokens]
    exact .done (hnot.relabel hf)
  | .otherwise h hs => by
    rw [Chain.mapTokens]
    exact .otherwise ((hf _).trans h) (hs.relabel hf)
  | .retry h hc hs hch => by
    rw [Chain.mapTokens]
    exact .retry ((hf _).trans h) (hc.relabel hf) (hs.relabel hf) (hch.relabel hf)

end

/-- **The program of other tokens has them where the program has its own.** -/
theorem ReadsProgram.relabel (hf : ∀ t, (f t).kind = t.kind) {eof : Token} {program : List Stmt} {ts : List Token} :
    ReadsProgram eof program ts → ReadsProgram (f eof) (Stmt.mapTokensAll f program) (ts.map f)
  | .nil => by
    rw [Stmt.mapTokensAll]
    exact .nil
  | .cons hs hss => by
    rw [Stmt.mapTokensAll]
    exact .cons (hs.relabel hf) (hss.relabel hf)

end Parser

end Loot
