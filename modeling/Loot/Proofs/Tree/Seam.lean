import Loot.Proofs.Tree.Relabel
/-!
# One program after another

What happens where two programs meet, with a newline between them.  A statement that ended with the first program now
ends with the newline, or before it.  Only a choice could reach further, if the second program began with one of its
clauses, and a body that was missing at the end would be found in the second program.  The first is impossible,
and without the second the programs are read one after the other (`ReadsProgram.joined`).
-/
namespace Loot

/-! ## Programs without missing bodies -/

def Stmt.isFinish : Stmt → Bool
  | .finish _ => true
  | _ => false

mutual

/-- Has every loop and every branch in the statement its body? -/
def Stmt.isWhole : Stmt → Bool
  | .block body => Stmt.allWhole body
  | .branch _ body rest => !body.isFinish && body.isWhole && rest.isWhole
  | .loop _ body => !body.isFinish && body.isWhole
  | .define _ _ body => Stmt.allWhole body
  | _ => true

def Stmt.allWhole : List Stmt → Bool
  | [] => true
  | s :: ss => s.isWhole && Stmt.allWhole ss

def Chain.isWhole : Chain → Bool
  | .done => true
  | .otherwise body => !body.isFinish && body.isWhole
  | .retry _ body rest => !body.isFinish && body.isWhole && rest.isWhole

end

/-- The statements but those that only mark the end of a program. -/
def dropFinish (program : List Stmt) : List Stmt := program.filter fun s => !s.isFinish

namespace Parser

/-! ## A newline after a program -/

variable {nl : Token} {more : List Token}

theorem joins_newline : ∀ k : Nat, joins k .newline = false
  | 0 | 1 | 2 | 3 | _ + 4 => rfl

theorem NotNext.append {test : Kind → Bool} {ts : List Token} (h : NotNext test ts) (hnl : nl.kind = .newline)
    (htest : test .newline = false) : NotNext test (ts ++ nl :: more) := by
  cases ts with
  | nil => exact NotNext.cons (by rw [hnl]; exact htest) more
  | cons t ts => exact NotNext.cons (h t rfl) _

mutual

theorem ReadsExpr.append (hnl : nl.kind = .newline) {k : Nat} {e : Expr} {ts rest : List Token} :
    ReadsExpr k e ts rest → ReadsExpr k e (ts ++ nl :: more) (rest ++ nl :: more)
  | .literal h => .literal h
  | .variable h hnot => .variable h (hnot.append hnl rfl)
  | .call hname hleft hright => .call hname hleft hright
  | .callArgs hname hleft hargs hright => .callArgs hname hleft (hargs.append hnl) hright
  | .unary hop he => .unary hop (he.append hnl)
  | .parens hleft he hright => .parens hleft (he.append hnl) hright
  | .chain hl hmore => .chain (hl.append hnl) (hmore.append hnl)

theorem ReadsMore.append (hnl : nl.kind = .newline) {k : Nat} {l e : Expr} {ts rest : List Token} :
    ReadsMore k l e ts rest → ReadsMore k l e (ts ++ nl :: more) (rest ++ nl :: more)
  | .stop hnot => .stop (hnot.append hnl (joins_newline _))
  | .more hop hr hmore => .more hop (hr.append hnl) (hmore.append hnl)

theorem ReadsArgs.append (hnl : nl.kind = .newline) {args : List Expr} {ts rest : List Token} :
    ReadsArgs args ts rest → ReadsArgs args (ts ++ nl :: more) (rest ++ nl :: more)
  | .last he hnot => .last (he.append hnl) (hnot.append hnl rfl)
  | .more he hcomma hargs => .more (he.append hnl) hcomma (hargs.append hnl)

end

theorem ReadsNames.append (hnl : nl.kind = .newline) {names ts rest : List Token} :
    ReadsNames names ts rest → ReadsNames names (ts ++ nl :: more) (rest ++ nl :: more)
  | .last h hnot => .last h (hnot.append hnl rfl)
  | .more h hcomma hmore => .more h hcomma (hmore.append hnl)

theorem ReadsParams.append (hnl : nl.kind = .newline) {params ts rest : List Token} :
    ReadsParams params ts rest → ReadsParams params (ts ++ nl :: more) (rest ++ nl :: more)
  | .none h => .none h
  | .some hnames h => .some (hnames.append hnl) h

/-- What is left, now that a newline and more follows: that much more, or if nothing was left, perhaps the newline
is taken as well. -/
def LeftBefore (nl : Token) (more rest rest' : List Token) : Prop :=
  rest' = rest ++ nl :: more ∨ rest = [] ∧ rest' = more

theorem Ends.append (hnl : nl.kind = .newline) {ts rest : List Token} :
    Ends ts rest → ∃ rest', Ends (ts ++ nl :: more) rest' ∧ LeftBefore nl more rest rest'
  | .newline h => ⟨_, .newline h, .inl rfl⟩
  | .brace h => ⟨_, .brace h, .inl rfl⟩
  | .done => ⟨more, .newline hnl, .inr ⟨rfl, rfl⟩⟩

theorem ReadsStmt.of_finish {eof e : Token} {d : Bool} {ts rest : List Token} :
    ReadsStmt eof d (.finish e) ts rest → rest = [] ∧ ∀ t ∈ ts, t.kind = .newline
  | .newline h hread => by
    obtain ⟨hrest, hall⟩ := hread.of_finish
    exact ⟨hrest, List.forall_mem_cons.2 ⟨h, hall⟩⟩
  | .finish => ⟨rfl, fun _ h => nomatch h⟩

/-- Only newlines are taken for a statement that marks the end, and nothing is left. -/
theorem ReadsStmt.eq_nil_of_isFinish {eof : Token} {d : Bool} {s : Stmt} {ts rest : List Token}
    (h : ReadsStmt eof d s ts rest) (hs : s.isFinish = true) : rest = [] ∧ ∀ t ∈ ts, t.kind = .newline := by
  cases s with
  | finish e => exact h.of_finish
  | _ => cases hs

mutual

/-- **A statement before a newline** is read as it was at the end, unless it lacks a body. -/
theorem ReadsStmt.append (hnl : nl.kind = .newline) (hmore : NotNext isClause more) {eof : Token} (eof' : Token)
    {d : Bool} {s : Stmt} {ts rest : List Token} (hfinish : s.isFinish = false) (hwhole : s.isWhole = true) :
    ReadsStmt eof d s ts rest →
      ∃ rest', ReadsStmt eof' d s (ts ++ nl :: more) rest' ∧ LeftBefore nl more rest rest'
  | .newline h hs => by
    obtain ⟨rest', hread, hleft⟩ := hs.append hnl hmore eof' hfinish hwhole
    exact ⟨rest', .newline h hread, hleft⟩
  | .finish => nomatch hfinish
  | .loop h hc hs => by
    rw [Stmt.isWhole, Bool.and_eq_true, Bool.not_eq_true'] at hwhole
    obtain ⟨rest', hread, hleft⟩ := hs.append hnl hmore eof' hwhole.1 hwhole.2
    exact ⟨rest', .loop h (hc.append hnl) hread, hleft⟩
  | .branch h hc hs hch => by
    rw [Stmt.isWhole, Bool.and_eq_true, Bool.and_eq_true, Bool.not_eq_true'] at hwhole
    obtain ⟨vs', hread, hleft⟩ := hs.append hnl hmore eof' hwhole.1.1 hwhole.1.2
    rcases hleft with rfl | ⟨rfl, rfl⟩
    · obtain ⟨rest', hreadch, hleft⟩ := hch.append hnl hmore eof' hwhole.2
      exact ⟨rest', .branch h (hc.append hnl) hread hreadch, hleft⟩
    · -- the body took the newline, and no clause followed it
      cases hch with
      | done _ => exact ⟨_, .branch h (hc.append hnl) hread (.done hmore), .inr ⟨rfl, rfl⟩⟩
  | .block h hbody => by
    rw [Stmt.isWhole] at hwhole
    exact ⟨_, .block h (hbody.append hnl hmore eof' hwhole), .inl rfl⟩
  | .giveNone h hend => by
    obtain ⟨rest', hend', hleft⟩ := hend.append hnl
    exact ⟨rest', .giveNone h hend', hleft⟩
  | .giveSome h he hend => by
    obtain ⟨rest', hend', hleft⟩ := hend.append hnl
    exact ⟨rest', .giveSome h (he.append hnl) hend', hleft⟩
  | .increase h hname => ⟨_, .increase h hname, .inl rfl⟩
  | .decrease h hname => ⟨_, .decrease h hname, .inl rfl⟩
  | .define h hname hleft hparams hbrace hbody => by
    rw [Stmt.isWhole] at hwhole
    exact ⟨_, .define h hname hleft (hparams.append hnl) hbrace (hbody.append hnl hmore eof' hwhole), .inl rfl⟩
  | .declareNone h hname hend => by
    obtain ⟨rest', hend', hleft⟩ := hend.append hnl
    exact ⟨rest', .declareNone h hname hend', hleft⟩
  | .declareSome h hname hsign he hend => by
    obtain ⟨rest', hend', hleft⟩ := hend.append hnl
    exact ⟨rest', .declareSome h hname hsign (he.append hnl) hend', hleft⟩
  | .expression he halone hend => by
    obtain ⟨rest', hend', hleft⟩ := hend.append hnl
    exact ⟨rest', .expression (he.append hnl) halone hend', hleft⟩
  | .assign htarget hsign he hend => by
    obtain ⟨rest', hend', hleft⟩ := hend.append hnl
    exact ⟨rest', .assign (htarget.append hnl) hsign (he.append hnl) hend', hleft⟩

theorem ReadsBody.append (hnl : nl.kind = .newline) (hmore : NotNext isClause more) {eof : Token} (eof' : Token)
    {ss : List Stmt} {ts rest : List Token} (hwhole : Stmt.allWhole ss = true) :
    ReadsBody eof ss ts rest → ReadsBody eof' ss (ts ++ nl :: more) (rest ++ nl :: more)
  | .close h => .close h
  | .newline h hss => .newline h (hss.append hnl hmore eof' hwhole)
  | @ReadsBody.cons _ s ss t ts us rest hnotnl hbrace hs hss => by
    rw [Stmt.allWhole, Bool.and_eq_true] at hwhole
    -- the brace is still ahead, so the statement neither is the end nor comes to it
    have hne : us ≠ [] := by
      rintro rfl
      exact absurd hss.shorter (Nat.not_lt_zero _)
    have hfinish : s.isFinish = false := by
      cases hs' : s.isFinish with
      | false => rfl
      | true => exact absurd (hs.eq_nil_of_isFinish hs').1 hne
    obtain ⟨us', hread, hleft⟩ := hs.append hnl hmore eof' hfinish hwhole.1
    rcases hleft with rfl | ⟨hnil, -⟩
    · exact .cons hnotnl hbrace hread (hss.append hnl hmore eof' hwhole.2)
    · exact absurd hnil hne

theorem ReadsChain.append (hnl : nl.kind = .newline) (hmore : NotNext isClause more) {eof : Token} (eof' : Token)
    {ch : Chain} {ts rest : List Token} (hwhole : ch.isWhole = true) :
    ReadsChain eof ch ts rest →
      ∃ rest', ReadsChain eof' ch (ts ++ nl :: more) rest' ∧ LeftBefore nl more rest rest'
  | .done hnot => ⟨_, .done (hnot.append hnl rfl), .inl rfl⟩
  | .otherwise h hs => by
    rw [Chain.isWhole, Bool.and_eq_true, Bool.not_eq_true'] at hwhole
    obtain ⟨rest', hread, hleft⟩ := hs.append hnl hmore eof' hwhole.1 hwhole.2
    exact ⟨rest', .otherwise h hread, hleft⟩
  | .retry h hc hs hch => by
    rw [Chain.isWhole, Bool.and_eq_true, Bool.and_eq_true, Bool.not_eq_true'] at hwhole
    obtain ⟨vs', hread, hleft⟩ := hs.append hnl hmore eof' hwhole.1.1 hwhole.1.2
    rcases hleft with rfl | ⟨rfl, rfl⟩
    · obtain ⟨rest', hreadch, hleft⟩ := hch.append hnl hmore eof' hwhole.2
      exact ⟨rest', .retry h (hc.append hnl) hread hreadch, hleft⟩
    · cases hch with
      | done _ => exact ⟨_, .retry h (hc.append hnl) hread (.done hmore), .inr ⟨rfl, rfl⟩⟩

end

/-! ## Programs -/

/-- No statement begins with a clause of a choice. -/
theorem ReadsStmt.notNext_isClause {eof : Token} {d : Bool} {s : Stmt} {ts rest : List Token}
    (h : ReadsStmt eof d s ts rest) : NotNext isClause ts := by
  have hexpr : ∀ {e : Expr} {us : List Token}, ReadsExpr 4 e ts us → NotNext isClause ts := by
    intro e us he
    obtain ⟨t, vs, rfl, ht, -⟩ := he.start
    refine NotNext.cons ?_ vs
    revert ht
    cases t.kind <;> decide
  cases h with
  | finish => exact fun _ h => nomatch h
  | expression he _ _ => exact hexpr he
  | assign htarget _ _ _ => exact hexpr htarget
  | newline h _ | loop h _ _ | branch h _ _ _ | block h _ | giveNone h _ | giveSome h _ _ | increase h _
  | decrease h _ | define h _ _ _ _ _ | declareNone h _ _ | declareSome h _ _ _ _ =>
    exact NotNext.cons (by rw [h]; rfl) _

theorem ReadsProgram.notNext_isClause {eof : Token} {program : List Stmt} {ts : List Token} :
    ReadsProgram eof program ts → NotNext isClause ts
  | .nil => fun _ h => nomatch h
  | .cons hs _ => hs.notNext_isClause

/-- Newlines before a program are skipped. -/
theorem ReadsProgram.newlines {eof : Token} {program : List Stmt} {ts : List Token} (h : ReadsProgram eof program ts) :
    ∀ nls : List Token, (∀ t ∈ nls, t.kind = .newline) →
      ∃ program', ReadsProgram eof program' (nls ++ ts) ∧ dropFinish program' = dropFinish program
  | [], _ => ⟨program, h, rfl⟩
  | nl :: nls, hnls => by
    obtain ⟨hnl, hnls⟩ := List.forall_mem_cons.1 hnls
    obtain ⟨program', hread, hdrop⟩ := h.newlines nls hnls
    rw [List.cons_append]
    revert hread
    generalize nls ++ ts = us
    intro hread
    cases hread with
    | nil => exact ⟨[.finish eof], .cons (.newline hnl .finish) .nil, hdrop⟩
    | cons hs hss => exact ⟨_, .cons (.newline hnl hs) hss, hdrop⟩

/-- **Programs with a newline between them are read one after the other.** -/
theorem ReadsProgram.joined (hnl : nl.kind = .newline) {eof eof' : Token} {program' : List Stmt}
    (h' : ReadsProgram eof' program' more) {program : List Stmt} {ts : List Token}
    (hwhole : Stmt.allWhole program = true) :
    ReadsProgram eof program ts → ∃ joined, ReadsProgram eof' joined (ts ++ nl :: more) ∧
      dropFinish joined = dropFinish program ++ dropFinish program'
  | .nil => by
    obtain ⟨joined, hread, hdrop⟩ := h'.newlines [nl] (by simpa using hnl)
    exact ⟨joined, hread, hdrop⟩
  | @ReadsProgram.cons _ s ss t ts us hs hss => by
    rw [Stmt.allWhole, Bool.and_eq_true] at hwhole
    cases hfinish : s.isFinish with
    | true =>
      -- only newlines were left of the first program
      obtain ⟨rfl, hall⟩ := hs.eq_nil_of_isFinish hfinish
      cases hss
      have hnls : ∀ u ∈ t :: ts ++ [nl], u.kind = .newline := by
        intro u hu
        rcases List.mem_append.1 hu with hu | hu
        · exact hall u hu
        · rw [List.mem_singleton.1 hu, hnl]
      obtain ⟨joined, hread, hdrop⟩ := h'.newlines _ hnls
      refine ⟨joined, by simpa using hread, ?_⟩
      rw [hdrop, dropFinish, dropFinish, List.filter_cons_of_neg (by simp [hfinish])]
      rfl
    | false =>
      have hcons : ∀ program, dropFinish (s :: program) = s :: dropFinish program := fun program =>
        List.filter_cons_of_pos (by simp [hfinish])
      obtain ⟨rest', hread, hleft⟩ := hs.append hnl h'.notNext_isClause eof' hfinish hwhole.1
      rcases hleft with rfl | ⟨rfl, rfl⟩
      · obtain ⟨joined, hjoined, hdrop⟩ := h'.joined hnl hwhole.2 hss
        exact ⟨s :: joined, .cons hread hjoined, by rw [hcons, hcons, hdrop, List.cons_append]⟩
      · cases hss
        exact ⟨s :: program', .cons hread h', by rw [hcons, hcons]; rfl⟩

end Parser

theorem dropTrivia_joined {f : Token → Token} (hf : ∀ t, (f t).kind = t.kind) {nl : Token} (hnl : nl.kind = .newline)
    (body body' : List Token) :
    dropTrivia (body ++ nl :: body'.map f) = dropTrivia body ++ nl :: (dropTrivia body').map f := by
  unfold dropTrivia
  rw [List.filter_append, List.filter_cons_of_pos (by rw [hnl]; rfl), List.filter_map]
  simp only [Function.comp_def, hf]

/-- Two programs with a newline between them, the second with other tokens of the same kinds. -/
theorem readProgram_tokens_joined {f : Token → Token} (hf : ∀ t, (f t).kind = t.kind) {nl : Token}
    (hnl : nl.kind = .newline) {body body' : List Token} {eof eof' : Token} (hbody : ∀ t ∈ body, t.kind ≠ .endOfFile)
    (hbody' : ∀ t ∈ body', t.kind ≠ .endOfFile) (heof' : eof'.kind = .endOfFile) {program program' : List Stmt}
    (h : Parser.ReadsProgram eof program (dropTrivia body)) (h' : Parser.ReadsProgram eof' program' (dropTrivia body'))
    (hwhole : Stmt.allWhole program = true) :
    ∃ joined, readProgram (body ++ nl :: body'.map f ++ [f eof']) = .ok joined ∧
      dropFinish joined = dropFinish program ++ dropFinish (Stmt.mapTokensAll f program') := by
  have htokens : ∀ t ∈ body ++ nl :: body'.map f, t.kind ≠ .endOfFile := by
    intro t ht
    rcases List.mem_append.1 ht with ht | ht
    · exact hbody t ht
    rcases List.mem_cons.1 ht with rfl | ht
    · rw [hnl]
      decide
    · obtain ⟨u, hu, rfl⟩ := List.mem_map.1 ht
      rw [hf]
      exact hbody' u hu
  obtain ⟨joined, hread, hdrop⟩ := (h'.relabel hf).joined hnl hwhole h
  rw [← dropTrivia_joined hf hnl] at hread
  exact ⟨joined, (readProgram_eq_ok_iff htokens ((hf eof').trans heof') joined).2 hread, hdrop⟩

end Loot
