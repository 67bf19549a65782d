import Loot.Proofs.Tree.Seam
/-!
# The shape of programs

What holds of every program that was read, from whatever tokens (`Shapely`).  Each statement in it fits where it
stands (`Stmt.Fits`): only variables and calls stand alone, no branch and no loop has a declaration as its body, no
branch would take the clause that follows it, and no end of the program stands between braces.  A statement that came to
the end of the program left nothing for another, so there is one end at most, and it is last
(`ReadsProgram.countP_finish`).
-/
namespace Loot

/-! ## Statements in statements -/

mutual

/-- The statement and all statements in it, in the order in which they begin. -/
def Stmt.parts : Stmt → List Stmt
  | .block body => .block body :: Stmt.partsAll body
  | .branch condition body rest => .branch condition body rest :: (body.parts ++ rest.parts)
  | .loop condition body => .loop condition body :: body.parts
  | .define name params body => .define name params body :: Stmt.partsAll body
  | s => [s]

def Stmt.partsAll : List Stmt → List Stmt
  | [] => []
  | s :: ss => s.parts ++ Stmt.partsAll ss

def Chain.parts : Chain → List Stmt
  | .done => []
  | .otherwise body => body.parts
  | .retry _ body rest => body.parts ++ rest.parts

end

def Chain.bodies : Chain → List Stmt
  | .done => []
  | .otherwise body => [body]
  | .retry _ body rest => body :: rest.bodies

/-- The statements of a block or of the body of a function. -/
def Stmt.statements : Stmt → List Stmt
  | .block body | .define _ _ body => body
  | _ => []

/-- The branches of a choice, or the body of a loop. -/
def Stmt.branches : Stmt → List Stmt
  | .branch _ body rest => body :: rest.bodies
  | .loop _ body => [body]
  | _ => []

/-- The branches of a choice that a clause follows. -/
def Stmt.followed : Stmt → List Stmt
  | .branch _ body rest => (body :: rest.bodies).dropLast
  | _ => []

mutual

/-- Where the statement ends, through bodies of loops and last branches of choices. -/
def Stmt.last : Stmt → Stmt
  | .branch _ body rest => rest.last.getD body.last
  | .loop _ body => body.last
  | s => s

def Chain.last : Chain → Option Stmt
  | .done => none
  | .otherwise body => some body.last
  | .retry _ body rest => some (rest.last.getD body.last)

end

mutual

/-- Any statement in a statement stands directly in a block, a function, a choice or a loop. -/
theorem Stmt.mem_parts : ∀ (s : Stmt) {t : Stmt}, t ∈ s.parts →
    t = s ∨ ∃ u ∈ s.parts, t ∈ u.statements ∨ t ∈ u.branches
  | .block body, t, h => by
    rw [Stmt.parts, List.mem_cons] at h
    refine h.imp_right fun h => ?_
    rcases Stmt.mem_partsAll body h with h | ⟨u, hu, h⟩
    · exact ⟨.block body, List.mem_cons_self, .inl h⟩
    · exact ⟨u, List.mem_cons_of_mem _ hu, h⟩
  | .branch condition body rest, t, h => by
    rw [Stmt.parts, List.mem_cons] at h
    refine h.imp_right fun h => ?_
    rcases List.mem_append.1 h with h | h
    · rcases Stmt.mem_parts body h with rfl | ⟨u, hu, h⟩
      · exact ⟨.branch condition t rest, List.mem_cons_self, .inr List.mem_cons_self⟩
      · exact ⟨u, List.mem_cons_of_mem _ (List.mem_append_left _ hu), h⟩
    · rcases Chain.mem_parts rest h with h | ⟨u, hu, h⟩
      · exact ⟨.branch condition body rest, List.mem_cons_self, .inr (List.mem_cons_of_mem _ h)⟩
      · exact ⟨u, List.mem_cons_of_mem _ (List.mem_append_right _ hu), h⟩
  | .loop condition body, t, h => by
    rw [Stmt.parts, List.mem_cons] at h
    refine h.imp_right fun h => ?_
    rcases Stmt.mem_parts body h with rfl | ⟨u, hu, h⟩
    · exact ⟨.loop condition t, List.mem_cons_self, .inr List.mem_cons_self⟩
    · exact ⟨u, List.mem_cons_of_mem _ hu, h⟩
  | .define name params body, t, h => by
    rw [Stmt.parts, List.mem_cons] at h
    refine h.imp_right fun h => ?_
    rcases Stmt.mem_partsAll body h with h | ⟨u, hu, h⟩
    · exact ⟨.define name params body, List.mem_cons_self, .inl h⟩
    · exact ⟨u, List.mem_cons_of_mem _ hu, h⟩
  | .expression _, _, h | .declare _ _, _, h | .give _ _, _, h | .assign _ _, _, h | .increase _, _, h
  | .decrease _, _, h | .finish _, _, h => .inl (List.mem_singleton.1 h)

theorem Stmt.mem_partsAll : ∀ (ss : List Stmt) {t : Stmt}, t ∈ Stmt.partsAll ss →
    t ∈ ss ∨ ∃ u ∈ Stmt.partsAll ss, t ∈ u.statements ∨ t ∈ u.branches
  | s :: ss, t, h => by
    rw [Stmt.partsAll] at h ⊢
    rcases List.mem_append.1 h with h | h
    · rcases Stmt.mem_parts s h with rfl | ⟨u, hu, h⟩
      · exact .inl List.mem_cons_self
      · exact .inr ⟨u, List.mem_append_left _ hu, h⟩
    · rcases Stmt.mem_partsAll ss h with h | ⟨u, hu, h⟩
      · exact .inl (List.mem_cons_of_mem _ h)
      · exact .inr ⟨u, List.mem_append_right _ hu, h⟩

theorem Chain.mem_parts : ∀ (ch : Chain) {t : Stmt}, t ∈ ch.parts →
    t ∈ ch.bodies ∨ ∃ u ∈ ch.parts, t ∈ u.statements ∨ t ∈ u.branches
  | .otherwise body, t, h => by
    rw [Chain.parts] at h ⊢
    exact (Stmt.mem_parts body h).imp_left fun h => by rw [h, Chain.bodies]; exact List.mem_cons_self
  | .retry condition body rest, t, h => by
    rw [Chain.parts] at h ⊢
    rcases List.mem_append.1 h with h | h
    · rcases Stmt.mem_parts body h with rfl | ⟨u, hu, h⟩
      · exact .inl List.mem_cons_self
      · exact .inr ⟨u, List.mem_append_left _ hu, h⟩
    · rcases Chain.mem_parts rest h with h | ⟨u, hu, h⟩
      · exact .inl (List.mem_cons_of_mem _ h)
      · exact .inr ⟨u, List.mem_append_right _ hu, h⟩

end

/-! ## Where statements may stand -/

/-- **Does the statement fit where it stands**, in a program with the given end? -/
def Stmt.Fits (eof : Token) : Stmt → Prop
  | .expression e => e.standsAlone = true
  | .branch _ body rest => (∀ b ∈ body :: rest.bodies, b.isDeclaration = false) ∧
      ∀ b ∈ (body :: rest.bodies).dropLast, b.endsOpen = false
  | .loop _ body => body.isDeclaration = false
  | .block body | .define _ _ body => (Stmt.partsAll body).countP (·.isFinish) = 0
  | .finish e => e = eof
  | _ => True

namespace Parser

variable {eof : Token}

/-- Where declarations do not count as statements, none is read. -/
theorem ReadsStmt.not_isDeclaration {d : Bool} {s : Stmt} {ts rest : List Token} (hd : d = false) :
    ReadsStmt eof d s ts rest → s.isDeclaration = false
  | .newline _ h => h.not_isDeclaration hd
  | .define _ _ _ _ _ _ | .declareNone _ _ _ | .declareSome _ _ _ _ _ => nomatch hd
  | .finish | .loop _ _ _ | .branch _ _ _ _ | .block _ _ | .giveNone _ _ | .giveSome _ _ _ | .increase _ _
  | .decrease _ _ | .expression _ _ _ | .assign _ _ _ _ => rfl

mutual

/-- **Choices are greedy**: no clause comes after a statement that would take it. -/
theorem ReadsStmt.notNext_of_endsOpen {d : Bool} {s : Stmt} {ts rest : List Token} :
    ReadsStmt eof d s ts rest → s.endsOpen = true → NotNext isClause rest
  | .newline _ h, ho => h.notNext_of_endsOpen ho
  | .loop _ _ hs, ho => hs.notNext_of_endsOpen ho
  | .branch _ _ _ hch, ho => hch.notNext_of_endsOpen ho
  | .finish, ho | .block _ _, ho | .giveNone _ _, ho | .giveSome _ _ _, ho | .increase _ _, ho | .decrease _ _, ho
  | .define _ _ _ _ _ _, ho | .declareNone _ _ _, ho | .declareSome _ _ _ _ _, ho | .expression _ _ _, ho
  | .assign _ _ _ _, ho => nomatch ho

theorem ReadsChain.notNext_of_endsOpen {ch : Chain} {ts rest : List Token} :
    ReadsChain eof ch ts rest → ch.endsOpen = true → NotNext isClause rest
  | .done hnot, _ => hnot
  | .otherwise _ hs, ho => hs.notNext_of_endsOpen ho
  | .retry _ _ _ hch, ho => hch.notNext_of_endsOpen ho

end

/-- A branch before a clause did not end where it could have taken the clause. -/
theorem ReadsStmt.not_endsOpen {d : Bool} {s : Stmt} {t : Token} {ts us : List Token}
    (h : ReadsStmt eof d s ts (t :: us)) (ht : isClause t.kind = true) : s.endsOpen = false := by
  cases ho : s.endsOpen with
  | false => rfl
  | true =>
    have hnot := h.notNext_of_endsOpen ho t rfl
    rw [ht] at hnot
    cases hnot

/-- No branch of a choice is a declaration, and only the last may end open. -/
theorem ReadsChain.branches_fit {body : Stmt} {ch : Chain} {ts vs rest : List Token}
    (hs : ReadsStmt eof false body ts vs) : ReadsChain eof ch vs rest →
      (∀ b ∈ body :: ch.bodies, b.isDeclaration = false) ∧ ∀ b ∈ (body :: ch.bodies).dropLast, b.endsOpen = false
  | .done _ => ⟨List.forall_mem_singleton.2 (hs.not_isDeclaration rfl), fun _ h => nomatch h⟩
  | .otherwise h hs' => by
    refine ⟨List.forall_mem_cons.2 ⟨hs.not_isDeclaration rfl, ?_⟩, List.forall_mem_singleton.2 ?_⟩
    · exact List.forall_mem_singleton.2 (hs'.not_isDeclaration rfl)
    · exact hs.not_endsOpen (by rw [h]; rfl)
  | .retry h _ hs' hch => by
    obtain ⟨hdecl, hopen⟩ := hch.branches_fit hs'
    exact ⟨List.forall_mem_cons.2 ⟨hs.not_isDeclaration rfl, hdecl⟩,
      List.forall_mem_cons.2 ⟨hs.not_endsOpen (by rw [h]; rfl), hopen⟩⟩

/-! ## The end of the program -/

mutual

/-- A statement has no end of the program in it, or it ends there and leaves nothing. -/
theorem ReadsStmt.countP_finish {d : Bool} {s : Stmt} {ts rest : List Token} :
    ReadsStmt eof d s ts rest → s.parts.countP (·.isFinish) = 0 ∨
      rest = [] ∧ s.parts.countP (·.isFinish) = 1 ∧ s.last = .finish eof
  | .newline _ h => h.countP_finish
  | .finish => .inr ⟨rfl, rfl, rfl⟩
  | .loop _ _ hs => by
    rw [Stmt.parts, List.countP_cons_of_neg Bool.false_ne_true, Stmt.last]
    exact hs.countP_finish
  | .branch _ _ hs hch => by
    rw [Stmt.parts, List.countP_cons_of_neg Bool.false_ne_true, List.countP_append, Stmt.last]
    rcases hs.countP_finish with h | ⟨rfl, hcount, hlast⟩
    · rw [h, Nat.zero_add]
      refine hch.countP_finish.imp_right (fun ⟨hrest, hcount, hlast⟩ => ?_)
      rw [hlast]
      exact ⟨hrest, hcount, rfl⟩
    · -- nothing was left for a clause
      cases hch
      exact .inr ⟨rfl, by rw [hcount]; rfl, hlast⟩
  | .block _ hbody => .inl hbody.countP_finish
  | .define _ _ _ _ _ hbody => .inl hbody.countP_finish
  | .giveNone _ _ | .giveSome _ _ _ | .increase _ _ | .decrease _ _ | .declareNone _ _ _ | .declareSome _ _ _ _ _
  | .expression _ _ _ | .assign _ _ _ _ => .inl rfl

/-- Between braces there is no end of the program: the closing brace is still ahead. -/
theorem ReadsBody.countP_finish {ss : List Stmt} {ts rest : List Token} :
    ReadsBody eof ss ts rest → (Stmt.partsAll ss).countP (·.isFinish) = 0
  | .close _ => rfl
  | .newline _ h => h.countP_finish
  | .cons _ _ hs hss => by
    rw [Stmt.partsAll, List.countP_append, hss.countP_finish]
    rcases hs.countP_finish with h | ⟨rfl, -⟩
    · exact h
    · exact absurd hss.shorter (Nat.not_lt_zero _)

theorem ReadsChain.countP_finish {ch : Chain} {ts rest : List Token} :
    ReadsChain eof ch ts rest → ch.parts.countP (·.isFinish) = 0 ∨
      rest = [] ∧ ch.parts.countP (·.isFinish) = 1 ∧ ch.last = some (.finish eof)
  | .done _ => .inl rfl
  | .otherwise _ hs => by
    rcases hs.countP_finish with h | ⟨hrest, hcount, hlast⟩
    · exact .inl h
    · exact .inr ⟨hrest, hcount, by rw [Chain.last, hlast]⟩
  | .retry _ _ hs hch => by
    rw [Chain.parts, List.countP_append, Chain.last]
    rcases hs.countP_finish with h | ⟨rfl, hcount, hlast⟩
    · rw [h, Nat.zero_add]
      refine hch.countP_finish.imp_right (fun ⟨hrest, hcount, hlast⟩ => ?_)
      rw [hlast]
      exact ⟨hrest, hcount, rfl⟩
    · cases hch
      exact .inr ⟨rfl, by rw [hcount]; rfl, congrArg some hlast⟩

end

theorem ReadsProgram.countP_finish {program : List Stmt} {ts : List Token} :
    ReadsProgram eof program ts → (Stmt.partsAll program).countP (·.isFinish) = 0 ∨
      (Stmt.partsAll program).countP (·.isFinish) = 1 ∧ ∃ init s, program = init ++ [s] ∧ s.last = .finish eof
  | .nil => .inl rfl
  | @ReadsProgram.cons _ s ss _ _ _ hs hss => by
    rw [Stmt.partsAll, List.countP_append]
    rcases hs.countP_finish with h | ⟨rfl, hcount, hlast⟩
    · rw [h, Nat.zero_add]
      refine hss.countP_finish.imp_right (fun ⟨hcount, init, s', hsplit, hlast⟩ => ?_)
      exact ⟨hcount, s :: init, s', by rw [hsplit]; rfl, hlast⟩
    · cases hss
      exact .inr ⟨by rw [hcount]; rfl, [], s, rfl, hlast⟩

/-! ## Everything fits -/

mutual

theorem ReadsStmt.fits {d : Bool} {s : Stmt} {ts rest : List Token} :
    ReadsStmt eof d s ts rest → ∀ p ∈ s.parts, p.Fits eof
  | .newline _ h => h.fits
  | .finish => List.forall_mem_singleton.2 rfl
  | .loop _ _ hs => List.forall_mem_cons.2 ⟨hs.not_isDeclaration rfl, hs.fits⟩
  | .branch _ _ hs hch => by
    rw [Stmt.parts, List.forall_mem_cons, List.forall_mem_append]
    exact ⟨hch.branches_fit hs, hs.fits, hch.fits⟩
  | .block _ hbody | .define _ _ _ _ _ hbody => List.forall_mem_cons.2 ⟨hbody.countP_finish, hbody.fits⟩
  | .expression _ halone _ => List.forall_mem_singleton.2 halone
  | .giveNone _ _ | .giveSome _ _ _ | .increase _ _ | .decrease _ _ | .declareNone _ _ _ | .declareSome _ _ _ _ _
  | .assign _ _ _ _ => List.forall_mem_singleton.2 trivial

theorem ReadsBody.fits {ss : List Stmt} {ts rest : List Token} :
    ReadsBody eof ss ts rest → ∀ p ∈ Stmt.partsAll ss, p.Fits eof
  | .close _ => fun _ h => nomatch h
  | .newline _ h => h.fits
  | .cons _ _ hs hss => by
    rw [Stmt.partsAll, List.forall_mem_append]
    exact ⟨hs.fits, hss.fits⟩

theorem ReadsChain.fits {ch : Chain} {ts rest : List Token} :
    ReadsChain eof ch ts rest → ∀ p ∈ ch.parts, p.Fits eof
  | .done _ => fun _ h => nomatch h
  | .otherwise _ hs => hs.fits
  | .retry _ _ hs hch => by
    rw [Chain.parts, List.forall_mem_append]
    exact ⟨hs.fits, hch.fits⟩

end

theorem ReadsProgram.fits {program : List Stmt} {ts : List Token} :
    ReadsProgram eof program ts → ∀ p ∈ Stmt.partsAll program, p.Fits eof
  | .nil => fun _ h => nomatch h
  | .cons hs hss => by
    rw [Stmt.partsAll, List.forall_mem_append]
    exact ⟨hs.fits, hss.fits⟩

end Parser

/-! ## Programs -/

/-- **The shape of a program.** -/
structure Shapely (program : List Stmt) : Prop where
  /-- Only variables and calls stand alone. -/
  alone : ∀ e, .expression e ∈ Stmt.partsAll program → e.standsAlone = true
  /-- No branch and no loop has a declaration as its body. -/
  bodies : ∀ s ∈ Stmt.partsAll program, ∀ b ∈ s.branches, b.isDeclaration = false
  /-- Declarations stand at the top, or directly in a block or in the body of a function. -/
  declarations : ∀ s ∈ Stmt.partsAll program, s.isDeclaration = true →
    s ∈ program ∨ ∃ t ∈ Stmt.partsAll program, s ∈ t.statements
  /-- A clause belongs to the nearest choice that is open. -/
  nearest : ∀ s ∈ Stmt.partsAll program, ∀ b ∈ s.followed, b.endsOpen = false
  oneEnd : (Stmt.partsAll program).countP (·.isFinish) ≤ 1
  /-- No end stands in a block or in the body of a function, at any depth. -/
  noEndInside : ∀ s ∈ Stmt.partsAll program, ∀ t ∈ Stmt.partsAll s.statements, t.isFinish = false
  /-- The end is where the last statement of the program ends. -/
  endLast : ∀ s ∈ Stmt.partsAll program, s.isFinish = true → ∃ init t, program = init ++ [t] ∧ t.last = s

/-- **Every program that was read has the shape of one**, whatever the tokens were. -/
theorem readProgram_shapely {ts : List Token} {program : List Stmt} (h : readProgram ts = .ok program) :
    Shapely program := by
  obtain ⟨body, eof, after, -, hread⟩ := readProgram_reads h
  have hfits := hread.fits
  have hbodies : ∀ s ∈ Stmt.partsAll program, ∀ b ∈ s.branches, b.isDeclaration = false := by
    intro s hs b hb
    have hfit := hfits s hs
    cases s with
    | branch condition body rest => exact hfit.1 b hb
    | loop condition body => rwa [List.mem_singleton.1 hb]
    | _ => cases hb
  exact {
    alone := fun e he => hfits _ he
    bodies := hbodies
    declarations := by
      intro s hs hdecl
      rcases Stmt.mem_partsAll program hs with htop | ⟨t, ht, hmem | hmem⟩
      · exact .inl htop
      · exact .inr ⟨t, ht, hmem⟩
      · rw [hbodies t ht s hmem] at hdecl
        cases hdecl
    nearest := by
      intro s hs b hb
      have hfit := hfits s hs
      cases s with
      | branch condition body rest => exact hfit.2 b hb
      | _ => cases hb
    oneEnd := by
      rcases hread.countP_finish with hcount | ⟨hcount, -⟩ <;> omega
    noEndInside := by
      intro s hs t ht
      have hfit := hfits s hs
      cases s with
      | block body | define name params body => simpa using List.countP_eq_zero.1 hfit t ht
      | _ => cases ht
    endLast := by
      intro s hs hfinish
      rcases hread.countP_finish with hcount | ⟨-, init, t, hsplit, hlast⟩
      · exact absurd hfinish (List.countP_eq_zero.1 hcount s hs)
      · refine ⟨init, t, hsplit, ?_⟩
        have hfit := hfits s hs
        cases s with
        | finish e => rw [hlast, show e = eof from hfit]
        | _ => cases hfinish }

/-- The tokens of `dlc f() { loot x`, `clutch a farm b y`, `retry c {} }`, `farm d` on four lines, with a comment and
a second end of file after the first. -/
def shapedTokens : List Token :=
  let name (c : Char) : Token := ⟨.identifier, [c], some 1⟩
  let sign (kind : Kind) : Token := .plain (some 1) kind
  [sign .dlc, name 'f', sign .leftParen, sign .rightParen, sign .leftBrace, sign .loot, name 'x', sign .newline,
    sign .clutch, name 'a', sign .farm, name 'b', name 'y', sign .newline, sign .retry, name 'c', sign .leftBrace,
    sign .rightBrace, sign .rightBrace, sign .newline, sign .farm, name 'd', sign .endOfFile, sign .comment,
    sign .endOfFile]

/-- A loop without a body is where the program ends. -/
def shapedProgram : List Stmt :=
  let name (c : Char) : Token := ⟨.identifier, [c], some 1⟩
  [.define (name 'f') [] [.declare (name 'x') none,
      .branch (.variable (name 'a')) (.loop (.variable (name 'b')) (.expression (.variable (name 'y'))))
        (.retry (.variable (name 'c')) (.block []) .done)],
    .loop (.variable (name 'd')) (.finish (.plain (some 1) .endOfFile))]

theorem readProgram_shapely_loop_at_end : readProgram shapedTokens = .ok shapedProgram ∧ Shapely shapedProgram :=
  have hread : readProgram shapedTokens = .ok shapedProgram := by rfl
  ⟨hread, readProgram_shapely hread⟩

end Loot
