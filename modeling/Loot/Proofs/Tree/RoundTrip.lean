import Loot.Proofs.Tree.FirstEnd
import Loot.Proofs.Tree.Render
/-!
# Reading a rendered program

A well-formed program, written as tokens, is read back as it was, tokens included
(`readProgram_render`).  The proof follows the tree.  A rendered statement is read whatever tokens come
after it, with one exception: one that ends open must not be followed by a clause, which it would take
for its own.
-/
namespace Loot

open Loot.Parser

namespace Parser

/-! ## Steps of the statement parser -/

/-- The tokens that a rendered statement begins with. -/
def opensStatement (k : Kind) : Bool :=
  k == .identifier || k == .loot || k == .dlc || k == .clutch || k == .farm || k == .leftBrace || k == .spawn ||
    k == .buff || k == .nerf

def isClause (k : Kind) : Bool := k == .retry || k == .ragequit

theorem opensStatement_spec {k : Kind} (h : opensStatement k = true) :
    continues 4 k = false ∧ (k == .newline) = false ∧ (k == .rightBrace) = false ∧ isClause k = false := by
  cases k <;> cases h <;> exact ⟨rfl, rfl, rfl, rfl⟩

theorem skipNewlines_of_notNext {ts : List Token} (h : NotNext (· == .newline) ts) :
    skipNewlines ts = .ok ((), ts) := by
  cases ts with
  | nil => rfl
  | cons t ts =>
    have ht := h t rfl
    simp only [skipNewlines, List.dropWhile_cons, ht, Bool.false_eq_true, if_false]

theorem atEnd_cons (t : Token) (ts : List Token) : atEnd (t :: ts) = .ok (false, t :: ts) := rfl

theorem nextIs_cons {test : Kind → Bool} {b : Bool} {t : Token} (h : test t.kind = b) (ts : List Token) :
    nextIs test (t :: ts) = .ok (b, t :: ts) := by
  simp [nextIs, h]

theorem endStatement_newline (eof : Token) (text : String) {t : Token} (h : t.kind = .newline) (ts : List Token) :
    endStatement eof text (t :: ts) = .ok ((), ts) := by
  unfold endStatement
  rw [bind_ok (accept_cons (by simp [h]) ts)]
  rfl

theorem blockBody_ok {eof right : Token} {item : Parser Stmt} {n : Nat} {ts rest : List Token} {body : List Stmt}
    (h : statements item n ts = .ok (body, right :: rest)) (hright : right.kind = .rightBrace) :
    blockBody eof item n ts = .ok (body, rest) := by
  unfold blockBody
  rw [bind_ok h, bind_ok (expect_cons eof hright _ _)]
  rfl

theorem statement_cons (eof : Token) (n : Nat) (declares : Bool) {t : Token}
    (h : startsStatement declares t.kind = true) (ts : List Token) :
    statement eof (n + 1) declares (t :: ts) = (
      if t.kind = .farm then do
        let c ← expression eof n
        pure (.loop c (← statement eof n false))
      else if t.kind = .clutch then do
        let c ← expression eof n
        let s ← statement eof n false
        pure (.branch c s (← clauses (expression eof n) (statement eof n false) n))
      else if t.kind = .leftBrace then do
        pure (.block (← blockBody eof (statement eof n true) n))
      else if t.kind = .spawn then giving eof t n
      else if t.kind = .buff then do
        pure (.increase (← expect eof .identifier "expected variable name after 'buff'"))
      else if t.kind = .nerf then do
        pure (.decrease (← expect eof .identifier "expected variable name after 'nerf'"))
      else if t.kind = .dlc then definition eof (statement eof n true) n
      else declaration eof n : Parser Stmt) ts := by
  have hnl : NotNext (· == .newline) (t :: ts) := by
    refine NotNext.cons ?_ ts
    rw [beq_eq_false_iff_ne]
    intro hk
    rw [hk] at h
    cases declares <;> cases h
  rw [statement, bind_ok (skipNewlines_of_notNext hnl), bind_ok (accept_cons h ts)]

section Keywords

variable (eof : Token) (n : Nat) (declares : Bool) {t : Token} (ts : List Token)

theorem statement_farm (h : t.kind = .farm) :
    statement eof (n + 1) declares (t :: ts) = (do
      let c ← expression eof n
      pure (.loop c (← statement eof n false)) : Parser Stmt) ts := by
  rw [statement_cons eof n declares (by rw [h]; cases declares <;> rfl)]
  simp only [h, if_true]

theorem statement_clutch (h : t.kind = .clutch) :
    statement eof (n + 1) declares (t :: ts) = (do
      let c ← expression eof n
      let s ← statement eof n false
      pure (.branch c s (← clauses (expression eof n) (statement eof n false) n)) : Parser Stmt) ts := by
  rw [statement_cons eof n declares (by rw [h]; cases declares <;> rfl)]
  simp only [h, reduceCtorEq, if_false, if_true]

theorem statement_leftBrace (h : t.kind = .leftBrace) :
    statement eof (n + 1) declares (t :: ts) = (do
      pure (.block (← blockBody eof (statement eof n true) n)) : Parser Stmt) ts := by
  rw [statement_cons eof n declares (by rw [h]; cases declares <;> rfl)]
  simp only [h, reduceCtorEq, if_false, if_true]

theorem statement_spawn (h : t.kind = .spawn) : statement eof (n + 1) declares (t :: ts) = giving eof t n ts := by
  rw [statement_cons eof n declares (by rw [h]; cases declares <;> rfl)]
  simp only [h, reduceCtorEq, if_false, if_true]

theorem statement_buff (h : t.kind = .buff) {name : Token} (hname : name.kind = .identifier) :
    statement eof (n + 1) declares (t :: name :: ts) = .ok (.increase name, ts) := by
  rw [statement_cons eof n declares (by rw [h]; cases declares <;> rfl)]
  simp only [h, reduceCtorEq, if_false, if_true]
  rw [bind_ok (expect_cons eof hname _ _)]
  rfl

theorem statement_nerf (h : t.kind = .nerf) {name : Token} (hname : name.kind = .identifier) :
    statement eof (n + 1) declares (t :: name :: ts) = .ok (.decrease name, ts) := by
  rw [statement_cons eof n declares (by rw [h]; cases declares <;> rfl)]
  simp only [h, reduceCtorEq, if_false, if_true]
  rw [bind_ok (expect_cons eof hname _ _)]
  rfl

theorem statement_dlc (h : t.kind = .dlc) :
    statement eof (n + 1) true (t :: ts) = definition eof (statement eof n true) n ts := by
  rw [statement_cons eof n true (by rw [h]; rfl)]
  simp only [h, reduceCtorEq, if_false, if_true]

theorem statement_loot (h : t.kind = .loot) : statement eof (n + 1) true (t :: ts) = declaration eof n ts := by
  rw [statement_cons eof n true (by rw [h]; rfl)]
  simp only [h, reduceCtorEq, if_false]

end Keywords

theorem statement_name (eof : Token) (n : Nat) (declares : Bool) {t : Token} (h : t.kind = .identifier)
    (ts : List Token) : statement eof (n + 1) declares (t :: ts) = simpleStatement eof (n + 1) (t :: ts) := by
  have hnl : NotNext (· == .newline) (t :: ts) := NotNext.cons (by rw [h]; rfl) ts
  have hstart : NotNext (startsStatement declares) (t :: ts) := NotNext.cons (by rw [h]; cases declares <;> rfl) ts
  rw [statement, bind_ok (skipNewlines_of_notNext hnl), bind_ok (accept_of_notNext hstart)]
  simp only
  rw [bind_ok (atEnd_cons t ts)]
  simp only [Bool.false_eq_true, if_false]
  rw [bind_ok (nextIs_cons (b := true) (by rw [h]; rfl) ts)]
  rfl

/-! ## Statements without statements in them -/

theorem simpleStatement_variable {eof name : Token} {n : Nat} {ts us : List Token}
    (h : expression eof n ts = .ok (.variable name, us)) :
    simpleStatement eof n ts = (do
      match ← accept (· == .assign) with
      | some _ =>
        let value ← expression eof n
        endStatement eof "expected newline after assignment"
        pure (.assign name value)
      | none =>
        endStatement eof "expected newline after expression"
        pure (.expression (.variable name)) : Parser Stmt) us := by
  unfold simpleStatement
  rw [h]
  rfl

theorem simpleStatement_call {eof name : Token} {n : Nat} {args : List Expr} {ts us : List Token}
    (h : expression eof n ts = .ok (.call name args, us)) :
    simpleStatement eof n ts = (do
      endStatement eof "expected newline after expression"
      pure (.expression (.call name args)) : Parser Stmt) us := by
  unfold simpleStatement
  rw [h]
  rfl

section Simple

variable (eof : Token) (n : Nat) (line : Line) (rest : List Token)

theorem notNext_newline (test : Kind → Bool) (h : test .newline = false) :
    NotNext test (.plain line .newline :: rest) := NotNext.cons h rest

theorem simpleStatement_alone {e : Expr} {ts : List Token} (h : Phrases 4 e ts) (hn : ts.length ≤ n)
    (halone : e.standsAlone = true) :
    simpleStatement eof n (ts ++ .plain line .newline :: rest) = .ok (.expression e, rest) := by
  have hread := expression_reads eof h hn (notNext_newline line rest (continues 4) rfl)
  match e, halone with
  | .variable name, _ =>
    rw [simpleStatement_variable hread, bind_ok (accept_of_notNext (notNext_newline line rest _ rfl))]
    simp only
    rw [bind_ok (endStatement_newline eof _ rfl rest)]
    rfl
  | .call name args, _ =>
    rw [simpleStatement_call hread, bind_ok (endStatement_newline eof _ rfl rest)]
    rfl

theorem simpleStatement_assign {target : Token} {value : Expr} {ts : List Token} (htarget : target.kind = .identifier)
    (h : Phrases 4 value ts) (hn : ts.length + 1 ≤ n) :
    simpleStatement eof n (target :: .plain line .assign :: (ts ++ .plain line .newline :: rest)) =
      .ok (.assign target value, rest) := by
  have hname : Phrases 4 (.variable target) [target] := (Phrases.variable htarget).raise (Nat.zero_le 4)
  have hstop : NotNext (continues 4) (.plain line .assign :: (ts ++ .plain line .newline :: rest)) :=
    NotNext.cons rfl _
  have hread := expression_reads eof (n := n) hname (by rw [List.length_singleton]; omega) hstop
  rw [List.singleton_append] at hread
  rw [simpleStatement_variable hread, bind_ok (accept_cons rfl _)]
  simp only
  rw [bind_ok (expression_reads eof h (by omega) (notNext_newline line rest (continues 4) rfl)),
    bind_ok (endStatement_newline eof _ rfl rest)]
  rfl

theorem declaration_none {name : Token} (hname : name.kind = .identifier) :
    declaration eof n (name :: .plain line .newline :: rest) = .ok (.declare name none, rest) := by
  unfold declaration
  rw [bind_ok (expect_cons eof hname _ _), bind_ok (accept_of_notNext (notNext_newline line rest _ rfl))]
  simp only
  rw [bind_ok (endStatement_newline eof _ rfl rest)]
  rfl

theorem declaration_some {name : Token} {e : Expr} {ts : List Token} (hname : name.kind = .identifier)
    (h : Phrases 4 e ts) (hn : ts.length ≤ n) :
    declaration eof n (name :: .plain line .assign :: (ts ++ .plain line .newline :: rest)) =
      .ok (.declare name (some e), rest) := by
  unfold declaration
  rw [bind_ok (expect_cons eof hname _ _), bind_ok (accept_cons rfl _)]
  simp only
  rw [bind_ok (expression_reads eof h hn (notNext_newline line rest (continues 4) rfl)),
    bind_ok (endStatement_newline eof _ rfl rest)]
  rfl

theorem giving_none (keyword : Token) :
    giving eof keyword n (.plain line .newline :: rest) = .ok (.give keyword none, rest) := by
  unfold giving
  rw [bind_ok (atEnd_cons _ _), bind_ok (nextIs_cons (b := true) rfl rest)]
  simp only [Bool.or_true, if_true]
  rw [bind_ok (endStatement_newline eof _ rfl rest)]
  rfl

theorem giving_some (keyword : Token) {e : Expr} {ts : List Token} (h : Phrases 4 e ts) (hn : ts.length ≤ n) :
    giving eof keyword n (ts ++ .plain line .newline :: rest) = .ok (.give keyword (some e), rest) := by
  have hread := expression_reads eof h hn (notNext_newline line rest (continues 4) rfl)
  obtain ⟨t, us, rfl, ht⟩ := h.start
  have hend : (t.kind == .newline || t.kind == .rightBrace) = false := by
    generalize t.kind = k at ht
    cases k <;> cases ht <;> rfl
  unfold giving
  rw [List.cons_append] at hread ⊢
  rw [bind_ok (atEnd_cons _ _), bind_ok (nextIs_cons hend _)]
  simp only [Bool.or_false, Bool.false_eq_true, if_false]
  rw [bind_ok hread, bind_ok (endStatement_newline eof _ rfl rest)]
  rfl

end Simple

/-! ## Parameters -/

theorem separated_names (eof : Token) (line : Line) (text : String) {right : Token} (hright : right.kind = .rightParen)
    (rest : List Token) : ∀ (names : List Token) (m : Nat), names ≠ [] → (∀ t ∈ names, t.kind = .identifier) →
      (renderNames line names).length ≤ m →
      separated (expect eof .identifier text) m (renderNames line names ++ right :: rest) = .ok (names, right :: rest)
  | [], _, hne, _, _ => absurd rfl hne
  | [t], m, _, hnames, hm => by
    obtain ⟨m, rfl⟩ : ∃ m', m = m' + 1 := ⟨m - 1, by simp only [renderNames, List.length_singleton] at hm; omega⟩
    have hcomma : NotNext (· == .comma) (right :: rest) := NotNext.cons (by rw [hright]; rfl) rest
    rw [renderNames, List.singleton_append, separated,
      bind_ok (expect_cons eof (hnames t List.mem_cons_self) _ _), bind_ok (accept_of_notNext hcomma)]
    rfl
  | t :: t' :: ts, m, _, hnames, hm => by
    rw [renderNames] at hm ⊢
    · simp only [List.length_cons] at hm
      obtain ⟨m, rfl⟩ : ∃ m', m = m' + 1 := ⟨m - 1, by omega⟩
      have hmore := separated_names eof line text hright rest (t' :: ts) m (by simp)
        (fun u hu => hnames u (List.mem_cons_of_mem _ hu)) (by omega)
      rw [List.cons_append, List.cons_append, separated, bind_ok (expect_cons eof (hnames t List.mem_cons_self) _ _),
        bind_ok (accept_cons rfl _)]
      simp only
      rw [bind_ok hmore]
      rfl
    · simp
    · simp

theorem items_names (eof : Token) (line : Line) (text : String) {right : Token} (hright : right.kind = .rightParen)
    (rest names : List Token) (m : Nat) (hnames : ∀ t ∈ names, t.kind = .identifier)
    (hm : (renderNames line names).length ≤ m) :
    items (expect eof .identifier text) m (renderNames line names ++ right :: rest) = .ok (names, right :: rest) := by
  cases names with
  | nil => exact items_none _ m hright rest
  | cons t ts =>
    have hread := separated_names eof line text hright rest (t :: ts) m (by simp) hnames hm
    have hstart : startsExpression t.kind = true := by
      rw [hnames t List.mem_cons_self]
      rfl
    obtain ⟨us, hus⟩ : ∃ us, renderNames line (t :: ts) = t :: us := by cases ts <;> exact ⟨_, rfl⟩
    rw [hus] at hread ⊢
    rw [List.cons_append, items_some _ m hstart, ← List.cons_append, hread]

end Parser

/-! ## Statements with statements in them -/

theorem Expr.render_alone (line : Line) {e : Expr} (h : e.isWellFormed = true) (halone : e.standsAlone = true) :
    ∃ t us, e.render line = t :: us ∧ t.kind = .identifier := by
  match e, halone with
  | .variable name, _ =>
    simp only [Expr.isWellFormed, beq_iff_eq] at h
    exact ⟨name, [], by rw [Expr.render], h⟩
  | .call name args, _ =>
    simp only [Expr.isWellFormed, Bool.and_eq_true, beq_iff_eq] at h
    exact ⟨name, _, by rw [Expr.render], h.1⟩

theorem Stmt.render_start (line : Line) (s : Stmt) (h : s.isWellFormed = true) :
    ∃ t us, s.render line = t :: us ∧ opensStatement t.kind = true := by
  match s with
  | .expression e =>
    rw [Stmt.isWellFormed, Bool.and_eq_true] at h
    obtain ⟨t, us, hts, ht⟩ := Expr.render_alone line h.1 h.2
    exact ⟨t, us ++ [.plain line .newline], by rw [Stmt.render, hts]; rfl, by rw [ht]; rfl⟩
  | .declare name none => exact ⟨_, _, by rw [Stmt.render], rfl⟩
  | .declare name (some e) => exact ⟨_, _, by rw [Stmt.render], rfl⟩
  | .block body => exact ⟨_, _, by rw [Stmt.render], rfl⟩
  | .branch condition body rest => exact ⟨_, _, by rw [Stmt.render], rfl⟩
  | .loop condition body => exact ⟨_, _, by rw [Stmt.render], rfl⟩
  | .define name params body => exact ⟨_, _, by rw [Stmt.render], rfl⟩
  | .give keyword none =>
    simp only [Stmt.isWellFormed, beq_iff_eq] at h
    exact ⟨keyword, _, by rw [Stmt.render], by rw [h]; rfl⟩
  | .give keyword (some e) =>
    simp only [Stmt.isWellFormed, Bool.and_eq_true, beq_iff_eq] at h
    exact ⟨keyword, _, by rw [Stmt.render], by rw [h.1]; rfl⟩
  | .assign target value =>
    simp only [Stmt.isWellFormed, Bool.and_eq_true, beq_iff_eq] at h
    exact ⟨target, _, by rw [Stmt.render], by rw [h.1]; rfl⟩
  | .increase name => exact ⟨_, _, by rw [Stmt.render], rfl⟩
  | .decrease name => exact ⟨_, _, by rw [Stmt.render], rfl⟩
  | .finish _ => rw [Stmt.isWellFormed] at h; cases h

theorem Stmt.notNext_render (line : Line) {s : Stmt} (h : s.isWellFormed = true) {test : Kind → Bool}
    (htest : ∀ k, opensStatement k = true → test k = false) (rest : List Token) :
    NotNext test (s.render line ++ rest) := by
  obtain ⟨t, us, hts, ht⟩ := s.render_start line h
  rw [hts]
  exact NotNext.cons (htest _ ht) _

theorem Stmt.notNext_renderAll (line : Line) {ss : List Stmt} (h : Stmt.areWellFormed ss = true) {rest : List Token}
    (hrest : NotNext isClause rest) : NotNext isClause (Stmt.renderAll line ss ++ rest) := by
  cases ss with
  | nil =>
    rw [Stmt.renderAll]
    exact hrest
  | cons s ss =>
    rw [Stmt.areWellFormed, Bool.and_eq_true] at h
    rw [Stmt.renderAll, List.append_assoc]
    exact Stmt.notNext_render line h.1 (fun k hk => (opensStatement_spec hk).2.2.2) _

/-- A branch is not followed by a clause that it would take. -/
theorem Chain.notNext_render (line : Line) {body : Stmt} {chain : Chain} {rest : List Token}
    (h : (chain.isDone || !body.endsOpen) = true) (hopen : chain.endsOpen = true → NotNext isClause rest) :
    body.endsOpen = true → NotNext isClause (chain.render line ++ rest) := by
  intro hbody
  rw [hbody, Bool.not_true, Bool.or_false] at h
  match chain, h with
  | .done, _ =>
    rw [Chain.render]
    exact hopen rfl

-- The steps that are left always outnumber the tokens to be read; each level of the tree takes one of both.

mutual

/-- **A rendered statement is read back**, and the parser stops right after it. -/
theorem Stmt.reads (eof : Token) (line : Line) : ∀ (s : Stmt) (n : Nat) (declares : Bool) (rest : List Token),
    s.isWellFormed = true → (s.render line).length < n → (s.isDeclaration = true → declares = true) →
    (s.endsOpen = true → NotNext isClause rest) → statement eof n declares (s.render line ++ rest) = .ok (s, rest)
  | _, 0, _, _, _, hn, _, _ => absurd hn (Nat.not_lt_zero _)
  | .expression e, n + 1, declares, rest, h, hn, _, _ => by
    rw [Stmt.isWellFormed, Bool.and_eq_true] at h
    rw [Stmt.render, List.length_append, List.length_singleton] at hn
    have hphrase := Expr.render_fits line h.1
    have hread := simpleStatement_alone eof (n + 1) line rest hphrase (by omega) h.2
    obtain ⟨t, us, hts, ht⟩ := Expr.render_alone line h.1 h.2
    rw [hts, List.cons_append] at hread
    rw [Stmt.render, List.append_assoc, List.singleton_append, hts, List.cons_append, statement_name eof n declares ht]
    exact hread
  | .declare name none, n + 1, declares, rest, h, hn, hd, _ => by
    simp only [Stmt.isWellFormed, beq_iff_eq] at h
    obtain rfl := hd rfl
    rw [Stmt.render, List.cons_append, statement_loot eof n _ rfl]
    exact declaration_none eof n line rest h
  | .declare name (some e), n + 1, declares, rest, h, hn, hd, _ => by
    simp only [Stmt.isWellFormed, Bool.and_eq_true, beq_iff_eq] at h
    simp only [Stmt.render, List.length_cons, List.length_append] at hn
    obtain rfl := hd rfl
    have hphrase := Expr.render_fits line h.2
    rw [Stmt.render, List.cons_append, statement_loot eof n _ rfl, List.cons_append, List.cons_append,
      List.append_assoc, List.singleton_append]
    exact declaration_some eof n line rest h.1 hphrase (by omega)
  | .block body, n + 1, declares, rest, h, hn, _, _ => by
    rw [Stmt.isWellFormed] at h
    simp only [Stmt.render, List.length_cons, List.length_append, List.length_nil] at hn
    have hbody := Stmt.reads_all eof line (.plain line .rightBrace) rest rfl body n n h (by omega) (by omega)
    rw [Stmt.render, List.cons_append, statement_leftBrace eof n declares _ rfl, List.append_assoc,
      List.singleton_append, bind_ok (blockBody_ok hbody rfl)]
    rfl
  | .branch condition body chain, n + 1, declares, rest, h, hn, _, hopen => by
    simp only [Stmt.isWellFormed, Bool.and_eq_true, Bool.not_eq_true'] at h
    obtain ⟨⟨⟨⟨hcond, hbody⟩, hdecl⟩, hfollow⟩, hchain⟩ := h
    simp only [Stmt.render, List.length_cons, List.length_append] at hn
    rw [Stmt.endsOpen] at hopen
    have hphrase := Expr.render_fits line hcond
    have hstop := Stmt.notNext_render line hbody (fun k hk => (opensStatement_spec hk).1) (chain.render line ++ rest)
    have hread := Stmt.reads eof line body n false (chain.render line ++ rest) hbody (by omega)
      (fun hd => by rw [hdecl] at hd; cases hd) (Chain.notNext_render line hfollow hopen)
    have hclauses := Chain.reads eof line chain n n rest hchain (by omega) (by omega) hopen
    rw [Stmt.render, List.cons_append, statement_clutch eof n declares _ rfl, List.append_assoc, List.append_assoc,
      bind_ok (expression_reads eof hphrase (by omega) hstop), bind_ok hread, bind_ok hclauses]
    rfl
  | .loop condition body, n + 1, declares, rest, h, hn, _, hopen => by
    simp only [Stmt.isWellFormed, Bool.and_eq_true, Bool.not_eq_true'] at h
    obtain ⟨⟨hcond, hbody⟩, hdecl⟩ := h
    simp only [Stmt.render, List.length_cons, List.length_append] at hn
    rw [Stmt.endsOpen] at hopen
    have hphrase := Expr.render_fits line hcond
    have hstop := Stmt.notNext_render line hbody (fun k hk => (opensStatement_spec hk).1) rest
    have hread := Stmt.reads eof line body n false rest hbody (by omega) (fun hd => by rw [hdecl] at hd; cases hd) hopen
    rw [Stmt.render, List.cons_append, statement_farm eof n declares _ rfl, List.append_assoc,
      bind_ok (expression_reads eof hphrase (by omega) hstop), bind_ok hread]
    rfl
  | .define name params body, n + 1, declares, rest, h, hn, hd, _ => by
    simp only [Stmt.isWellFormed, Bool.and_eq_true, beq_iff_eq, List.all_eq_true] at h
    obtain ⟨⟨hname, hparams⟩, hbody⟩ := h
    simp only [Stmt.render, List.length_cons, List.length_append, List.length_nil] at hn
    obtain rfl := hd rfl
    have hblock := Stmt.reads_all eof line (.plain line .rightBrace) rest rfl body n n hbody (by omega) (by omega)
    rw [Stmt.render, List.cons_append, statement_dlc eof n _ rfl, definition]
    simp only [List.cons_append, List.append_assoc, List.nil_append]
    rw [bind_ok (expect_cons eof hname _ _), bind_ok (expect_cons eof (Token.plain_kind line _) _ _),
      bind_ok (items_names eof line _ (Token.plain_kind line _) _ params n hparams (by omega)),
      bind_ok (expect_cons eof (Token.plain_kind line _) _ _), bind_ok (expect_cons eof (Token.plain_kind line _) _ _),
      bind_ok (blockBody_ok hblock rfl)]
    rfl
  | .give keyword none, n + 1, declares, rest, h, hn, _, _ => by
    simp only [Stmt.isWellFormed, beq_iff_eq] at h
    rw [Stmt.render, List.cons_append, statement_spawn eof n declares _ h]
    exact giving_none eof n line rest keyword
  | .give keyword (some e), n + 1, declares, rest, h, hn, _, _ => by
    simp only [Stmt.isWellFormed, Bool.and_eq_true, beq_iff_eq] at h
    simp only [Stmt.render, List.length_cons, List.length_append] at hn
    have hphrase := Expr.render_fits line h.2
    rw [Stmt.render, List.cons_append, statement_spawn eof n declares _ h.1, List.append_assoc, List.singleton_append]
    exact giving_some eof n line rest keyword hphrase (by omega)
  | .assign target value, n + 1, declares, rest, h, hn, _, _ => by
    simp only [Stmt.isWellFormed, Bool.and_eq_true, beq_iff_eq] at h
    simp only [Stmt.render, List.length_cons, List.length_append] at hn
    have hphrase := Expr.render_fits line h.2
    rw [Stmt.render, List.cons_append, statement_name eof n declares h.1, List.cons_append, List.append_assoc,
      List.singleton_append]
    exact simpleStatement_assign eof (n + 1) line rest h.1 hphrase (by omega)
  | .increase name, n + 1, declares, rest, h, hn, _, _ => by
    simp only [Stmt.isWellFormed, beq_iff_eq] at h
    rw [Stmt.render]
    exact statement_buff eof n declares rest rfl h
  | .decrease name, n + 1, declares, rest, h, hn, _, _ => by
    simp only [Stmt.isWellFormed, beq_iff_eq] at h
    rw [Stmt.render]
    exact statement_nerf eof n declares rest rfl h
  | .finish _, n + 1, _, _, h, _, _, _ => by
    rw [Stmt.isWellFormed] at h
    cases h

theorem Stmt.reads_all (eof : Token) (line : Line) (right : Token) (rest : List Token)
    (hright : right.kind = .rightBrace) : ∀ (ss : List Stmt) (n m : Nat), Stmt.areWellFormed ss = true →
      (Stmt.renderAll line ss).length < n → (Stmt.renderAll line ss).length < m →
      statements (statement eof n true) m (Stmt.renderAll line ss ++ right :: rest) = .ok (ss, right :: rest)
  | _, _, 0, _, _, hm => absurd hm (Nat.not_lt_zero _)
  | [], n, m + 1, _, _, _ => by
    have hnl : NotNext (· == .newline) (right :: rest) := NotNext.cons (by rw [hright]; rfl) rest
    rw [Stmt.renderAll, List.nil_append, statements, bind_ok (skipNewlines_of_notNext hnl), bind_ok (atEnd_cons _ _),
      bind_ok (nextIs_cons (b := true) (by rw [hright]; rfl) rest)]
    rfl
  | s :: ss, n, m + 1, h, hn, hm => by
    rw [Stmt.areWellFormed, Bool.and_eq_true] at h
    obtain ⟨t, us, hts, ht⟩ := s.render_start line h.1
    have hlen : 0 < (s.render line).length := by rw [hts]; exact Nat.succ_pos _
    rw [Stmt.renderAll, List.length_append] at hn hm
    have hspec := opensStatement_spec ht
    have hend : NotNext isClause (right :: rest) := NotNext.cons (by rw [hright]; rfl) rest
    have hclause := Stmt.notNext_renderAll line h.2 hend
    have hread := Stmt.reads eof line s n true (Stmt.renderAll line ss ++ right :: rest) h.1 (by omega) (fun _ => rfl)
      (fun _ => hclause)
    have hmore := Stmt.reads_all eof line right rest hright ss n m h.2 (by omega) (by omega)
    rw [Stmt.renderAll, List.append_assoc]
    rw [hts, List.cons_append] at hread ⊢
    rw [statements, bind_ok (skipNewlines_of_notNext (NotNext.cons hspec.2.1 _)), bind_ok (atEnd_cons _ _),
      bind_ok (nextIs_cons hspec.2.2.1 _)]
    simp only [Bool.or_false, Bool.false_eq_true, if_false]
    rw [bind_ok hread, bind_ok hmore]
    rfl

theorem Chain.reads (eof : Token) (line : Line) : ∀ (ch : Chain) (n m : Nat) (rest : List Token),
    ch.isWellFormed = true → (ch.render line).length < n → (ch.render line).length < m →
    (ch.endsOpen = true → NotNext isClause rest) →
    clauses (expression eof n) (statement eof n false) m (ch.render line ++ rest) = .ok (ch, rest)
  | _, _, 0, _, _, _, hm, _ => absurd hm (Nat.not_lt_zero _)
  | .done, n, m + 1, rest, h, hn, hm, hopen => by
    have hnext := hopen rfl
    have hretry : NotNext (· == .retry) rest := fun t ht => (Bool.or_eq_false_iff.1 (hnext t ht)).1
    have hragequit : NotNext (· == .ragequit) rest := fun t ht => (Bool.or_eq_false_iff.1 (hnext t ht)).2
    rw [Chain.render, List.nil_append, clauses, bind_ok (accept_of_notNext hretry)]
    simp only
    rw [bind_ok (accept_of_notNext hragequit)]
    rfl
  | .otherwise body, n, m + 1, rest, h, hn, hm, hopen => by
    simp only [Chain.isWellFormed, Bool.and_eq_true, Bool.not_eq_true'] at h
    simp only [Chain.render, List.length_cons] at hn
    rw [Chain.endsOpen] at hopen
    have hread := Stmt.reads eof line body n false rest h.1 (by omega) (fun hd => by rw [h.2] at hd; cases hd) hopen
    rw [Chain.render, List.cons_append, clauses, bind_ok (accept_of_notNext (NotNext.cons rfl _))]
    simp only
    rw [bind_ok (accept_cons rfl _)]
    simp only
    rw [bind_ok hread]
    rfl
  | .retry condition body chain, n, m + 1, rest, h, hn, hm, hopen => by
    simp only [Chain.isWellFormed, Bool.and_eq_true, Bool.not_eq_true'] at h
    obtain ⟨⟨⟨⟨hcond, hbody⟩, hdecl⟩, hfollow⟩, hchain⟩ := h
    simp only [Chain.render, List.length_cons, List.length_append] at hn hm
    rw [Chain.endsOpen] at hopen
    have hphrase := Expr.render_fits line hcond
    have hstop := Stmt.notNext_render line hbody (fun k hk => (opensStatement_spec hk).1) (chain.render line ++ rest)
    have hread := Stmt.reads eof line body n false (chain.render line ++ rest) hbody (by omega)
      (fun hd => by rw [hdecl] at hd; cases hd) (Chain.notNext_render line hfollow hopen)
    have hclauses := Chain.reads eof line chain n m rest hchain (by omega) (by omega) hopen
    rw [Chain.render, List.cons_append, clauses, bind_ok (accept_cons rfl _)]
    simp only
    rw [List.append_assoc, List.append_assoc, bind_ok (expression_reads eof hphrase (by omega) hstop), bind_ok hread,
      bind_ok hclauses]
    rfl

end

/-! ## Programs -/

theorem program_reads (eof : Token) (line : Line) : ∀ (ss : List Stmt) (n m : Nat), Stmt.areWellFormed ss = true →
    (Stmt.renderAll line ss).length < n → (Stmt.renderAll line ss).length < m →
    program (statement eof n true) m (Stmt.renderAll line ss) = .ok (ss, [])
  | _, _, 0, _, _, hm => absurd hm (Nat.not_lt_zero _)
  | [], n, m + 1, _, _, _ => rfl
  | s :: ss, n, m + 1, h, hn, hm => by
    rw [Stmt.areWellFormed, Bool.and_eq_true] at h
    rw [Stmt.renderAll, List.length_append] at hn hm
    obtain ⟨t, us, hts, -⟩ := s.render_start line h.1
    have hlen : 0 < (s.render line).length := by rw [hts]; exact Nat.succ_pos _
    have hend : NotNext isClause [] := fun t ht => nomatch ht
    have hclause := Stmt.notNext_renderAll line h.2 hend
    rw [List.append_nil] at hclause
    have hread := Stmt.reads eof line s n true (Stmt.renderAll line ss) h.1 (by omega) (fun _ => rfl) (fun _ => hclause)
    have hmore := program_reads eof line ss n m h.2 (by omega) (by omega)
    rw [Stmt.renderAll]
    rw [hts, List.cons_append] at hread ⊢
    rw [program, bind_ok (atEnd_cons _ _)]
    simp only [Bool.false_eq_true, if_false]
    rw [bind_ok hread, bind_ok hmore]
    rfl

/-! ## Tokens that the grammar sees -/

/-- The kinds that the grammar sees, other than the end of file. -/
def Kind.isSolid (kind : Kind) : Bool := !(kind.isTrivia || kind == .endOfFile)

/-- None of the tokens is dropped, and none ends the program. -/
def Solid (ts : List Token) : Prop := ∀ t ∈ ts, t.kind.isSolid = true

theorem Solid.nil : Solid [] := fun _ ht => nomatch ht

theorem Solid.cons {t : Token} {ts : List Token} (h : t.kind.isSolid = true) (hts : Solid ts) : Solid (t :: ts) :=
  List.forall_mem_cons.2 ⟨h, hts⟩

theorem Solid.append {ts us : List Token} (hts : Solid ts) (hus : Solid us) : Solid (ts ++ us) :=
  List.forall_mem_append.2 ⟨hts, hus⟩

theorem Solid.single {t : Token} {kind : Kind} (h : t.kind = kind) (hkind : kind.isSolid = true) : Solid [t] :=
  .cons (by rw [h]; exact hkind) .nil

/-- Tokens that the grammar sees are taken as they are. -/
theorem Reader.ofTokens_solid {ts : List Token} {eof : Token} (h : Solid ts) (heof : eof.kind = .endOfFile) :
    Reader.ofTokens (ts ++ [eof]) = .ok ⟨0, ts, eof⟩ := by
  have hsolid : ∀ t ∈ ts, t.kind.isTrivia = false ∧ t.kind ≠ .endOfFile := by
    intro t ht
    have := h t ht
    rwa [Kind.isSolid, Bool.not_eq_true', Bool.or_eq_false_iff, beq_eq_false_iff_ne] at this
  have hkept : dropTrivia ts = ts := by
    unfold dropTrivia
    rw [List.filter_eq_self]
    intro t ht
    rw [(hsolid t ht).1]
    rfl
  have hended := ended_concat (fun t ht => (hsolid t ht).2) heof
  rw [hkept] at hended
  exact hended.ofTokens_eq

theorem Kind.isSolid_of_isLiteral {kind : Kind} (h : isLiteral kind = true) : kind.isSolid = true := by
  cases kind <;> cases h <;> rfl

theorem Kind.isSolid_of_joins {kind : Kind} : ∀ {k : Nat}, joins k kind = true → kind.isSolid = true
  | 0, h => by cases kind <;> cases h <;> rfl
  | 1, h => by cases kind <;> cases h <;> rfl
  | 2, h => by cases kind <;> cases h <;> rfl
  | 3, h => by cases kind <;> cases h; rfl

mutual

theorem Parser.Phrases.solid {k : Nat} {e : Expr} {ts : List Token} : Phrases k e ts → Solid ts
  | .literal h => .cons (Kind.isSolid_of_isLiteral h) .nil
  | .variable h => .single h rfl
  | .call hname hleft hright h =>
    .append (.single hname rfl) (.append (.single hleft rfl) (.append h.solid (.single hright rfl)))
  | .unary hop h => .append (.single hop rfl) h.solid
  | .parens hleft hright h => .append (.single hleft rfl) (.append h.solid (.single hright rfl))
  | .tighter h => h.solid
  | .binary hop hl hr => .append hl.solid (.cons (Kind.isSolid_of_joins hop) hr.solid)

theorem Parser.PhrasesArgs.solid {args : List Expr} {ts : List Token} : PhrasesArgs args ts → Solid ts
  | .none => .nil
  | .last h => h.solid
  | .more h hcomma _ hargs => .append h.solid (.append (.single hcomma rfl) hargs.solid)

end

theorem renderNames_solid (line : Line) : ∀ names : List Token, (∀ t ∈ names, t.kind = .identifier) →
    Solid (renderNames line names)
  | [], _ => by
    rw [renderNames]
    exact .nil
  | [t], h => by
    rw [renderNames]
    exact .single (h t List.mem_cons_self) rfl
  | t :: t' :: ts, h => by
    rw [renderNames]
    · exact .append (.single (h t List.mem_cons_self) rfl)
        (.cons rfl (renderNames_solid line (t' :: ts) (fun u hu => h u (List.mem_cons_of_mem _ hu))))
    · simp

theorem Expr.render_solid (line : Line) {e : Expr} (h : e.isWellFormed = true) : Solid (e.render line) :=
  (Expr.render_phrases line e h).solid

mutual

theorem Stmt.render_solid (line : Line) : ∀ s : Stmt, s.isWellFormed = true → Solid (s.render line)
  | .expression e, h => by
    rw [Stmt.isWellFormed, Bool.and_eq_true] at h
    rw [Stmt.render]
    exact .append (Expr.render_solid line h.1) (.cons rfl .nil)
  | .declare name none, h => by
    simp only [Stmt.isWellFormed, beq_iff_eq] at h
    rw [Stmt.render]
    exact .cons rfl (.append (.single h rfl) (.cons rfl .nil))
  | .declare name (some e), h => by
    simp only [Stmt.isWellFormed, Bool.and_eq_true, beq_iff_eq] at h
    rw [Stmt.render]
    exact .cons rfl (.append (.single h.1 rfl) (.cons rfl (.append (Expr.render_solid line h.2) (.cons rfl .nil))))
  | .block body, h => by
    rw [Stmt.isWellFormed] at h
    rw [Stmt.render]
    exact .cons rfl (.append (Stmt.renderAll_solid line body h) (.cons rfl .nil))
  | .branch condition body rest, h => by
    simp only [Stmt.isWellFormed, Bool.and_eq_true] at h
    obtain ⟨⟨⟨⟨hcond, hbody⟩, -⟩, -⟩, hrest⟩ := h
    rw [Stmt.render]
    exact .cons rfl (.append (Expr.render_solid line hcond)
      (.append (Stmt.render_solid line body hbody) (Chain.render_solid line rest hrest)))
  | .loop condition body, h => by
    simp only [Stmt.isWellFormed, Bool.and_eq_true] at h
    obtain ⟨⟨hcond, hbody⟩, -⟩ := h
    rw [Stmt.render]
    exact .cons rfl (.append (Expr.render_solid line hcond) (Stmt.render_solid line body hbody))
  | .define name params body, h => by
    simp only [Stmt.isWellFormed, Bool.and_eq_true, beq_iff_eq, List.all_eq_true] at h
    obtain ⟨⟨hname, hparams⟩, hbody⟩ := h
    rw [Stmt.render]
    exact .cons rfl (.append (.single hname rfl) (.cons rfl (.append (renderNames_solid line params hparams)
      (.cons rfl (.cons rfl (.append (Stmt.renderAll_solid line body hbody) (.cons rfl .nil)))))))
  | .give keyword none, h => by
    simp only [Stmt.isWellFormed, beq_iff_eq] at h
    rw [Stmt.render]
    exact .append (.single h rfl) (.cons rfl .nil)
  | .give keyword (some e), h => by
    simp only [Stmt.isWellFormed, Bool.and_eq_true, beq_iff_eq] at h
    rw [Stmt.render]
    exact .append (.single h.1 rfl) (.append (Expr.render_solid line h.2) (.cons rfl .nil))
  | .assign target value, h => by
    simp only [Stmt.isWellFormed, Bool.and_eq_true, beq_iff_eq] at h
    rw [Stmt.render]
    exact .append (.single h.1 rfl) (.cons rfl (.append (Expr.render_solid line h.2) (.cons rfl .nil)))
  | .increase name, h => by
    simp only [Stmt.isWellFormed, beq_iff_eq] at h
    rw [Stmt.render]
    exact .cons rfl (.single h rfl)
  | .decrease name, h => by
    simp only [Stmt.isWellFormed, beq_iff_eq] at h
    rw [Stmt.render]
    exact .cons rfl (.single h rfl)
  | .finish _, h => by
    rw [Stmt.isWellFormed] at h
    cases h

theorem Stmt.renderAll_solid (line : Line) : ∀ ss : List Stmt, Stmt.areWellFormed ss = true →
    Solid (Stmt.renderAll line ss)
  | [], _ => by
    rw [Stmt.renderAll]
    exact .nil
  | s :: ss, h => by
    rw [Stmt.areWellFormed, Bool.and_eq_true] at h
    rw [Stmt.renderAll]
    exact .append (Stmt.render_solid line s h.1) (Stmt.renderAll_solid line ss h.2)

theorem Chain.render_solid (line : Line) : ∀ ch : Chain, ch.isWellFormed = true → Solid (ch.render line)
  | .done, _ => by
    rw [Chain.render]
    exact .nil
  | .otherwise body, h => by
    rw [Chain.isWellFormed, Bool.and_eq_true] at h
    rw [Chain.render]
    exact .cons rfl (Stmt.render_solid line body h.1)
  | .retry condition body rest, h => by
    simp only [Chain.isWellFormed, Bool.and_eq_true] at h
    obtain ⟨⟨⟨⟨hcond, hbody⟩, -⟩, -⟩, hrest⟩ := h
    rw [Chain.render]
    exact .cons rfl (.append (Expr.render_solid line hcond)
      (.append (Stmt.render_solid line body hbody) (Chain.render_solid line rest hrest)))

end

/-- **Reading undoes rendering**: a well-formed program, written as tokens and followed by an end of
file, is read back as exactly that program, with all the tokens it keeps. -/
theorem readProgram_render (line : Line) (program : List Stmt) (h : Stmt.areWellFormed program = true) (eof : Token)
    (heof : eof.kind = .endOfFile) : readProgram (Stmt.renderAll line program ++ [eof]) = .ok program := by
  have hreader := Reader.ofTokens_solid (Stmt.renderAll_solid line program h) heof
  have hread := program_reads eof line program ((Stmt.renderAll line program).length + 1)
    ((Stmt.renderAll line program).length + 1) h (Nat.lt_succ_self _) (Nat.lt_succ_self _)
  have hstatements : Reader.statements ⟨0, Stmt.renderAll line program, eof⟩ =
      .ok (program, ⟨0 + ((Stmt.renderAll line program).length - 0), [], eof⟩) := by
    unfold Reader.statements
    simp only [hread, List.length_nil]
  unfold readProgram
  rw [hreader]
  simp only [bind, Except.bind, hstatements]
  rfl

/-- A function with a choice in a loop in a choice, and differences and products that need parentheses or
do not. -/
def healing : List Stmt :=
  let name (c : Char) : Token := ⟨.identifier, [c], some 1⟩
  let value (c : Char) : Expr := .variable (name c)
  let op (kind : Kind) : Token := .plain (some 1) kind
  let difference : Expr := .binary (.binary (value 'a') (op .minus) (value 'b')) (op .minus)
    (.binary (value 'c') (op .minus) (.unary (op .minus) (.binary (value 'a') (op .star) (value 'b'))))
  [.define (name 'f') [name 'a', name 'b']
    [.branch (.binary difference (op .greater) (value 'c'))
      (.loop (value 'a') (.branch (value 'b') (.increase (name 'a')) (.otherwise (.decrease (name 'b')))))
      (.retry (value 'c') (.block []) (.otherwise (.give (op .spawn) (some difference))))],
    .expression (.call (name 'f') [difference, .literal (op .buffed)])]

theorem readProgram_render_nested_choice :
    Stmt.areWellFormed healing = true ∧
      readProgram (Stmt.renderAll none healing ++ [⟨.endOfFile, [], none⟩]) = .ok healing :=
  ⟨by decide, readProgram_render none healing (by decide) ⟨.endOfFile, [], none⟩ rfl⟩

end Loot
