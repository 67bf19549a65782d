import Loot.Proofs.Tree.Reading
/-!
# Every list of tokens is settled

Given more steps than tokens, the parser answers a reading or fails with a fault on the line of one of the
tokens, the end of file among them; it never runs out of steps (`settles_program`).  So reading a list of
tokens is settled by the rules of `Reading` alone: a program is found exactly if it can be read
(`Ended.readProgram_eq_ok_iff`), and every failure is a fault of the grammar with a line
(`Ended.readProgram_error`).
-/
namespace Loot

/-- A fault of the grammar, found on the line of one of the tokens. -/
structure Fault.IsOfGrammar (f : Fault) (ts : List Token) : Prop where
  cause : ∃ text, f.cause = .grammar text
  notInternal : f.isInternal = false
  line : ∃ t ∈ ts, f.line = t.line

theorem Fault.IsOfGrammar.mono {f : Fault} {ts us : List Token} (h : f.IsOfGrammar ts) (hsub : ∀ t ∈ ts, t ∈ us) :
    f.IsOfGrammar us := by
  obtain ⟨t, ht, hline⟩ := h.line
  exact ⟨h.cause, h.notInternal, t, hsub t ht, hline⟩

namespace Parser

variable {α β : Type} {eof : Token}

/-- **The parser settles the tokens**: it answers what `Q` allows, with the last of the tokens left, or it
fails with a fault on the line of one of them. -/
def Settles (eof : Token) (p : Parser α) (ts : List Token) (Q : α → List Token → Prop) : Prop :=
  match p ts with
  | .ok (a, rest) => rest <:+ ts ∧ Q a rest
  | .error (.fault f) => f.IsOfGrammar (ts ++ [eof])
  | .error .outOfSteps => False

/-! ## Parts of a parser -/

theorem settles_ok {p : Parser α} {ts rest : List Token} {a : α} {Q : α → List Token → Prop}
    (hp : p ts = .ok (a, rest)) (hrest : rest <:+ ts) (hQ : Q a rest) : Settles eof p ts Q := by
  unfold Settles
  rw [hp]
  exact ⟨hrest, hQ⟩

theorem settles_pure {a : α} {ts : List Token} {Q : α → List Token → Prop} (h : Q a ts) :
    Settles eof (pure a) ts Q := settles_ok rfl List.suffix_rfl h

/-- What settles the last of the tokens settles all of them. -/
theorem Settles.after {p q : Parser α} {ts us : List Token} {Q : α → List Token → Prop} (hq : Settles eof q us Q)
    (hpq : p ts = q us) (hus : us <:+ ts) : Settles eof p ts Q := by
  unfold Settles at hq ⊢
  rw [hpq]
  split at hq
  · exact ⟨hq.1.trans hus, hq.2⟩
  · refine hq.mono (fun t ht => ?_)
    rcases List.mem_append.1 ht with ht | ht
    · exact List.mem_append_left _ (hus.subset ht)
    · exact List.mem_append_right _ ht
  · exact hq

theorem Settles.of_error {p : Parser α} {q : Parser β} {ts : List Token} {P : α → List Token → Prop}
    {Q : β → List Token → Prop} {failure : Failure} (hp : Settles eof p ts P) (hpts : p ts = .error failure)
    (hqts : q ts = .error failure) : Settles eof q ts Q := by
  unfold Settles at hp ⊢
  rw [hpts] at hp
  rw [hqts]
  cases failure with
  | fault f => exact hp
  | outOfSteps => exact hp

theorem Settles.of_ok {p : Parser α} {ts rest : List Token} {a : α} {Q : α → List Token → Prop}
    (hp : Settles eof p ts Q) (hpts : p ts = .ok (a, rest)) : rest <:+ ts ∧ Q a rest := by
  unfold Settles at hp
  rwa [hpts] at hp

theorem Settles.bind {p : Parser α} {f : α → Parser β} {ts : List Token} {P : α → List Token → Prop}
    {Q : β → List Token → Prop} (hp : Settles eof p ts P)
    (hf : ∀ a us, us <:+ ts → P a us → Settles eof (f a) us Q) : Settles eof (p >>= f) ts Q := by
  cases hpts : p ts with
  | error failure =>
    refine hp.of_error hpts ?_
    simp only [Bind.bind, StateT.bind, hpts, Except.bind]
  | ok out =>
    obtain ⟨hus, hP⟩ := hp.of_ok hpts
    exact (hf out.1 out.2 hus hP).after (bind_ok hpts) hus

theorem Settles.mono {p : Parser α} {ts : List Token} {P Q : α → List Token → Prop} (hp : Settles eof p ts P)
    (h : ∀ a rest, rest <:+ ts → P a rest → Q a rest) : Settles eof p ts Q := by
  unfold Settles at hp ⊢
  split at hp
  · rename_i a rest hok
    exact ⟨hp.1, h a rest hp.1 hp.2⟩
  · exact hp
  · exact hp

theorem settles_failAt {line : Line} {text : Text} {ts : List Token} {Q : α → List Token → Prop}
    (h : ∃ t ∈ ts ++ [eof], line = t.line) : Settles eof (failAt line text) ts Q :=
  show Fault.IsOfGrammar _ _ from ⟨⟨text, rfl⟩, rfl, h⟩

theorem settles_failHere (text : Text) (ts : List Token) (Q : α → List Token → Prop) :
    Settles eof (failHere eof text) ts Q := by
  refine show Settles eof (failAt (peek eof ts).line text) ts Q from settles_failAt ?_
  cases ts with
  | nil => exact ⟨eof, by simp, rfl⟩
  | cons t ts => exact ⟨t, by simp, rfl⟩

theorem settles_unexpected (ts : List Token) (Q : α → List Token → Prop) : Settles eof (unexpected eof) ts Q :=
  settles_failHere _ ts Q

theorem settles_accept (test : Kind → Bool) (ts : List Token) :
    Settles eof (accept test) ts fun o rest => match o with
      | some t => ts = t :: rest ∧ test t.kind = true
      | none => rest = ts ∧ NotNext test ts := by
  cases ts with
  | nil => exact settles_ok rfl List.suffix_rfl ⟨rfl, fun _ h => nomatch h⟩
  | cons t ts =>
    cases ht : test t.kind with
    | true => exact settles_ok (accept_cons ht ts) (List.suffix_cons _ _) ⟨rfl, ht⟩
    | false =>
      have hnot := NotNext.cons ht ts
      exact settles_ok (accept_of_notNext hnot) List.suffix_rfl ⟨rfl, hnot⟩

theorem settles_expect (kind : Kind) (text : String) (ts : List Token) :
    Settles eof (expect eof kind text) ts fun t rest => ts = t :: rest ∧ t.kind = kind := by
  refine (settles_accept _ ts).bind (fun o us hus ho => ?_)
  cases o with
  | none => exact settles_failHere _ _ _
  | some t => exact settles_pure ⟨ho.1, by simpa using ho.2⟩

theorem settles_nextIs (test : Kind → Bool) (ts : List Token) :
    Settles eof (nextIs test) ts fun b rest => rest = ts ∧ b = ts.head?.any (test ·.kind) :=
  settles_ok rfl List.suffix_rfl ⟨rfl, rfl⟩

theorem settles_atEnd (ts : List Token) : Settles eof atEnd ts fun b rest => rest = ts ∧ b = ts.isEmpty :=
  settles_ok rfl List.suffix_rfl ⟨rfl, rfl⟩

theorem settles_skipNewlines (ts : List Token) :
    Settles eof skipNewlines ts fun _ rest => rest = ts.dropWhile (·.kind == .newline) :=
  settles_ok rfl (List.dropWhile_suffix _) rfl

section Lists

variable {item : Parser α} {n : Nat} {I : α → List Token → List Token → Prop}
  {R : List α → List Token → List Token → Prop}

/-- Items with commas between them are settled, by the rules that say when one item is a list and when it goes
on with one. -/
theorem settles_separated
    (hitem : ∀ us, us.length < n → Settles eof item us fun a rest => I a us rest ∧ rest.length < us.length)
    (hlast : ∀ a us rest, I a us rest → NotNext (· == .comma) rest → R [a] us rest)
    (hmore : ∀ a as comma us vs rest, I a us (comma :: vs) → comma.kind = .comma → R as vs rest → R (a :: as) us rest) :
    ∀ (m : Nat) (ts : List Token), ts.length < m → ts.length < n →
      Settles eof (separated item m) ts fun as rest => R as ts rest
  | m + 1, ts, hm, hn => by
    refine (hitem ts hn).bind (fun a us _ ⟨ha, hshort⟩ => ?_)
    refine (settles_accept _ us).bind (fun o vs _ ho => ?_)
    cases o with
    | none =>
      obtain ⟨rfl, hnot⟩ := ho
      exact settles_pure (hlast a ts vs ha hnot)
    | some comma =>
      obtain ⟨rfl, hcomma⟩ := ho
      rw [List.length_cons] at hshort
      refine (settles_separated hitem hlast hmore m vs (by omega) (by omega)).bind (fun as rest _ has => ?_)
      exact settles_pure (hmore a as comma ts vs rest ha (by simpa using hcomma) has)

theorem settles_items
    (hitem : ∀ us, us.length < n → Settles eof item us fun a rest => I a us rest ∧ rest.length < us.length)
    (hlast : ∀ a us rest, I a us rest → NotNext (· == .comma) rest → R [a] us rest)
    (hmore : ∀ a as comma us vs rest, I a us (comma :: vs) → comma.kind = .comma → R as vs rest → R (a :: as) us rest)
    (ts : List Token) (hn : ts.length < n) :
    Settles eof (items item n) ts fun as rest => (as = [] ∧ rest = ts) ∨ R as ts rest := by
  refine (settles_nextIs _ ts).bind (fun b us _ ⟨hus, _⟩ => ?_)
  subst hus
  cases b with
  | true => exact settles_pure (.inl ⟨rfl, rfl⟩)
  | false => exact (settles_separated hitem hlast hmore n us hn hn).mono (fun as rest _ h => .inr h)

end Lists

/-! ## Expressions -/

section Levels

variable {p : Parser Expr} {n : Nat}

theorem settles_chainFrom {k : Nat}
    (hp : ∀ us, us.length < n → Settles eof p us fun e rest => ReadsExpr k e us rest) :
    ∀ (m : Nat) (l : Expr) (ts : List Token), ts.length < m → ts.length < n →
      Settles eof (chainFrom p (joins k) m l) ts fun e rest => ReadsMore k l e ts rest
  | m + 1, l, ts, hm, hn => by
    refine (settles_accept _ ts).bind (fun o us _ ho => ?_)
    cases o with
    | none =>
      obtain ⟨rfl, hnot⟩ := ho
      exact settles_pure (.stop hnot)
    | some op =>
      obtain ⟨rfl, hop⟩ := ho
      rw [List.length_cons] at hm hn
      refine (hp us (by omega)).bind (fun r vs _ hr => ?_)
      have hshort := hr.shorter
      exact (settles_chainFrom hp m _ vs (by omega) (by omega)).mono (fun e rest _ hmore => .more hop hr hmore)

theorem settles_readAt (hp : ∀ us, us.length < n → Settles eof p us fun e rest => ReadsExpr 0 e us rest) :
    ∀ (k : Nat) (ts : List Token), ts.length < n → Settles eof (readAt n p k) ts fun e rest => ReadsExpr k e ts rest
  | 0, ts, hn => hp ts hn
  | k + 1, ts, hn => by
    refine (settles_readAt hp k ts hn).bind (fun l us _ hl => ?_)
    have hshort := hl.shorter
    refine (settles_chainFrom (settles_readAt hp k) n l us (by omega) (by omega)).mono (fun e rest _ hmore => ?_)
    exact .chain hl hmore

end Levels

theorem settles_operand (n : Nat) (ts : List Token) (hn : ts.length < n) :
    Settles eof (operand eof n) ts fun e rest => ReadsExpr 0 e ts rest := by
  induction n generalizing ts with
  | zero => exact absurd hn (Nat.not_lt_zero _)
  | succ n ih =>
    have hexpr := settles_readAt ih 4
    refine (settles_accept _ ts).bind (fun o us _ ho => ?_)
    cases o with
    | none => exact settles_unexpected _ _
    | some t =>
      obtain ⟨rfl, hstart⟩ := ho
      rw [List.length_cons] at hn
      simp only
      split
      · rename_i hminus
        refine (ih us (by omega)).bind (fun e rest _ he => ?_)
        exact settles_pure (.unary hminus he)
      split
      · rename_i hleft
        refine (hexpr us (by omega)).bind (fun e vs _ he => ?_)
        refine (settles_expect _ _ vs).bind (fun right rest _ h => ?_)
        obtain ⟨rfl, hright⟩ := h
        exact settles_pure (.parens hleft he hright)
      split
      · rename_i hname
        refine (settles_accept _ us).bind (fun o vs _ ho => ?_)
        cases o with
        | none =>
          obtain ⟨rfl, hnot⟩ := ho
          exact settles_pure (.variable hname hnot)
        | some left =>
          obtain ⟨rfl, hleft⟩ := ho
          rw [List.length_cons] at hn
          have hitems : Settles eof _ vs fun as rest => (as = [] ∧ rest = vs) ∨ ReadsArgs as vs rest := settles_items
            (fun us hus => (hexpr us hus).mono (fun e rest _ he => ⟨he, he.shorter⟩))
            (fun _ _ _ he hnot => .last he hnot) (fun _ _ _ _ _ _ he hcomma has => .more he hcomma has) vs (by omega)
          refine hitems.bind (fun args ws _ hargs => ?_)
          refine (settles_expect _ _ ws).bind (fun right rest _ h => ?_)
          obtain ⟨rfl, hright⟩ := h
          rcases hargs with ⟨rfl, rfl⟩ | hargs
          · exact settles_pure (.call hname (by simpa using hleft) hright)
          · exact settles_pure (.callArgs hname (by simpa using hleft) hargs hright)
      · rename_i hminus hleft hname
        refine settles_pure (.literal ?_)
        simpa [startsExpression, hminus, hleft, hname] using hstart

theorem settles_expression (n : Nat) (ts : List Token) (hn : ts.length < n) :
    Settles eof (expression eof n) ts fun e rest => ReadsExpr 4 e ts rest :=
  settles_readAt (settles_operand n) 4 ts hn

/-! ## Simple statements -/

theorem settles_endStatement (text : String) (ts : List Token) :
    Settles eof (endStatement eof text) ts fun _ rest => Ends ts rest := by
  refine (settles_accept _ ts).bind (fun o us _ ho => ?_)
  cases o with
  | some t =>
    obtain ⟨rfl, ht⟩ := ho
    exact settles_pure (.newline (by simpa using ht))
  | none =>
    obtain ⟨rfl, -⟩ := ho
    cases us with
    | nil => exact settles_ok rfl List.suffix_rfl .done
    | cons t ts =>
      refine (settles_atEnd _).bind (fun b us _ ⟨hus, hb⟩ => ?_)
      subst hus
      refine (settles_nextIs _ _).bind (fun b' us _ ⟨hus, hb'⟩ => ?_)
      subst hus hb hb'
      split
      · rename_i hbrace
        exact settles_pure (.brace (by simpa using hbrace))
      · exact settles_failHere _ _ _

/-- The line of the last token taken is the line of a token. -/
theorem lastLine_mem {ts us : List Token} (hshort : us.length < ts.length) : ∃ t ∈ ts, lastLine ts us = t.line := by
  have hne : ts.take (ts.length - us.length) ≠ [] := by
    intro h
    have hlen := congrArg List.length h
    rw [List.length_take, List.length_nil] at hlen
    omega
  refine ⟨_, List.mem_of_mem_take (List.getLast_mem hne), ?_⟩
  rw [lastLine, List.getLast?_eq_some_getLast hne]
  rfl

theorem settles_simpleStatement (d : Bool) (n : Nat) (ts : List Token) (hn : ts.length < n) :
    Settles eof (simpleStatement eof n) ts fun s rest => ReadsStmt eof d s ts rest := by
  have hexpr : Settles eof _ ts _ := settles_expression n ts hn
  cases hread : expression eof n ts with
  | error failure =>
    refine hexpr.of_error hread ?_
    unfold simpleStatement
    rw [hread]
    rfl
  | ok out =>
    obtain ⟨e, us⟩ := out
    obtain ⟨hus, he⟩ := hexpr.of_ok hread
    have hshort := he.shorter
    -- every expression but a variable or a call fails on the line of its last token
    have hfail :
        (∀ after, simpleStatement eof n ts = failAt (lastLine ts us) "invalid expression statement".toList after) →
        Settles eof (simpleStatement eof n) ts fun s rest => ReadsStmt eof d s ts rest := by
      intro h
      obtain ⟨t, ht, hline⟩ := lastLine_mem hshort
      exact (settles_failAt ⟨t, List.mem_append_left _ ht, hline⟩).after (h ts) List.suffix_rfl
    match e, hread, he with
    | .variable name, hread, he =>
      refine Settles.after ?_ (simpleStatement_variable hread) hus
      refine (settles_accept _ us).bind (fun o vs _ ho => ?_)
      cases o with
      | some sign =>
        obtain ⟨rfl, hsign⟩ := ho
        rw [List.length_cons] at hshort
        refine (settles_expression n vs (by omega)).bind (fun value ws _ hvalue => ?_)
        refine (settles_endStatement _ ws).bind (fun _ rest _ hend => ?_)
        exact settles_pure (.assign he (by simpa using hsign) hvalue hend)
      | none =>
        obtain ⟨rfl, -⟩ := ho
        refine (settles_endStatement _ vs).bind (fun _ rest _ hend => ?_)
        exact settles_pure (.expression he rfl hend)
    | .call name args, hread, he =>
      refine Settles.after ?_ (simpleStatement_call hread) hus
      refine (settles_endStatement _ us).bind (fun _ rest _ hend => ?_)
      exact settles_pure (.expression he rfl hend)
    | .literal token, hread, _ => exact hfail (fun _ => by unfold simpleStatement; rw [hread]; rfl)
    | .unary op e, hread, _ => exact hfail (fun _ => by unfold simpleStatement; rw [hread]; rfl)
    | .binary l op r, hread, _ => exact hfail (fun _ => by unfold simpleStatement; rw [hread]; rfl)

theorem settles_declaration {t : Token} (ht : t.kind = .loot) (n : Nat) (ts : List Token) (hn : ts.length < n) :
    Settles eof (declaration eof n) ts fun s rest => ReadsStmt eof true s (t :: ts) rest := by
  refine (settles_expect _ _ ts).bind (fun name us _ ⟨hus, hname⟩ => ?_)
  subst hus
  refine (settles_accept _ us).bind (fun o vs _ ho => ?_)
  cases o with
  | some sign =>
    obtain ⟨rfl, hsign⟩ := ho
    simp only [List.length_cons] at hn
    refine (settles_expression n vs (by omega)).bind (fun e ws _ he => ?_)
    refine (settles_endStatement _ ws).bind (fun _ rest _ hend => ?_)
    exact settles_pure (.declareSome ht hname (by simpa using hsign) he hend)
  | none =>
    obtain ⟨rfl, -⟩ := ho
    refine (settles_endStatement _ vs).bind (fun _ rest _ hend => ?_)
    exact settles_pure (.declareNone ht hname hend)

theorem settles_giving {d : Bool} {t : Token} (ht : t.kind = .spawn) (n : Nat) (ts : List Token) (hn : ts.length < n) :
    Settles eof (giving eof t n) ts fun s rest => ReadsStmt eof d s (t :: ts) rest := by
  refine (settles_atEnd ts).bind (fun b us _ ⟨hus, _⟩ => ?_)
  subst hus
  refine (settles_nextIs _ us).bind (fun b' vs _ ⟨hvs, _⟩ => ?_)
  subst hvs
  split
  · refine (settles_endStatement _ vs).bind (fun _ rest _ hend => ?_)
    exact settles_pure (.giveNone ht hend)
  · refine (settles_expression n vs hn).bind (fun e ws _ he => ?_)
    refine (settles_endStatement _ ws).bind (fun _ rest _ hend => ?_)
    exact settles_pure (.giveSome ht he hend)

/-! ## Statements with statements in them -/

theorem ReadsStmt.of_dropWhile {d : Bool} {s : Stmt} {rest : List Token} : ∀ {ts : List Token},
    ReadsStmt eof d s (ts.dropWhile (·.kind == .newline)) rest → ReadsStmt eof d s ts rest
  | [], h => h
  | t :: ts, h => by
    rw [List.dropWhile_cons] at h
    split at h
    · rename_i ht
      exact .newline (by simpa using ht) h.of_dropWhile
    · exact h

theorem ReadsBody.of_dropWhile {ss : List Stmt} {rest : List Token} : ∀ {ts : List Token},
    ReadsBody eof ss (ts.dropWhile (·.kind == .newline)) rest → ReadsBody eof ss ts rest
  | [], h => h
  | t :: ts, h => by
    rw [List.dropWhile_cons] at h
    split at h
    · rename_i ht
      exact .newline (by simpa using ht) h.of_dropWhile
    · exact h

section Nested

variable {n : Nat} {item : Parser Stmt}

theorem settles_statements
    (hitem : ∀ us, us.length < n → Settles eof item us fun s rest => ReadsStmt eof true s us rest) :
    ∀ (m : Nat) (ts : List Token), ts.length < m → ts.length < n →
      Settles eof (statements item m) ts fun ss us =>
        ∀ right rest, us = right :: rest → right.kind = .rightBrace → ReadsBody eof ss ts rest
  | m + 1, ts, hm, hn => by
    refine (settles_skipNewlines ts).bind (fun _ us hsuf hus => ?_)
    have hle := hsuf.length_le
    have hdrop : ∀ ss rest, ReadsBody eof ss us rest → ReadsBody eof ss ts rest := by
      intro ss rest h
      rw [hus] at h
      exact h.of_dropWhile
    cases us with
    | nil =>
      refine settles_ok (show _ = Except.ok ([], []) from rfl) List.suffix_rfl (fun right rest h => ?_)
      cases h
    | cons t us =>
      refine (settles_atEnd _).bind (fun b vs _ ⟨hvs, hb⟩ => ?_)
      subst hvs
      refine (settles_nextIs _ _).bind (fun b' vs _ ⟨hvs, hb'⟩ => ?_)
      subst hvs hb hb'
      rw [List.length_cons] at hle
      split
      · refine settles_pure (fun right rest h hright => ?_)
        cases h
        exact hdrop _ _ (.close hright)
      · rename_i hbrace
        refine (hitem (t :: us) (by rw [List.length_cons]; omega)).bind (fun s ws _ hs => ?_)
        have hshort := hs.length_le
        rw [List.length_cons] at hshort
        refine (settles_statements hitem m ws (by omega) (by omega)).bind (fun ss xs _ hss => ?_)
        refine settles_pure (fun right rest h hright => hdrop _ _ (.cons ?_ ?_ hs (hss right rest h hright)))
        · intro hnl
          have := List.head?_dropWhile_not (fun t : Token => t.kind == .newline) ts
          rw [← hus] at this
          simp [hnl] at this
        · simpa using hbrace

theorem settles_blockBody
    (hitem : ∀ us, us.length < n → Settles eof item us fun s rest => ReadsStmt eof true s us rest)
    (ts : List Token) (hn : ts.length < n) :
    Settles eof (blockBody eof item n) ts fun ss rest => ReadsBody eof ss ts rest := by
  refine (settles_statements hitem n ts hn hn).bind (fun ss us _ hss => ?_)
  refine (settles_expect _ _ us).bind (fun right rest _ ⟨hus, hright⟩ => ?_)
  exact settles_pure (hss right rest hus hright)

theorem settles_definition {t : Token} (ht : t.kind = .dlc)
    (hitem : ∀ us, us.length < n → Settles eof item us fun s rest => ReadsStmt eof true s us rest)
    (ts : List Token) (hn : ts.length < n) :
    Settles eof (definition eof item n) ts fun s rest => ReadsStmt eof true s (t :: ts) rest := by
  refine (settles_expect _ _ ts).bind (fun name us _ ⟨hus, hname⟩ => ?_)
  subst hus
  refine (settles_expect _ _ us).bind (fun left vs _ ⟨hvs, hleft⟩ => ?_)
  subst hvs
  simp only [List.length_cons] at hn
  have hitems : Settles eof (items (expect eof .identifier "expected parameter name") n) vs
      fun as rest => (as = [] ∧ rest = vs) ∨ ReadsNames as vs rest := settles_items
    (I := fun a us rest => us = a :: rest ∧ a.kind = .identifier)
    (fun us _ => (settles_expect _ _ us).mono (fun a rest _ h => ⟨h, by rw [h.1]; exact Nat.lt_succ_self _⟩))
    (fun a us rest h hnot => by rw [h.1]; exact .last h.2 hnot)
    (fun a as comma us vs rest h hcomma has => by rw [h.1]; exact .more h.2 hcomma has) vs (by omega)
  refine hitems.bind (fun params ws hws hparams => ?_)
  refine (settles_expect _ _ ws).bind (fun right xs hxs ⟨hright, hkind⟩ => ?_)
  refine (settles_expect _ _ xs).bind (fun brace ys hys ⟨hbrace, hkind'⟩ => ?_)
  have hlen := ((hys.trans hxs).trans hws).length_le
  refine (settles_blockBody hitem ys (by omega)).bind (fun body rest _ hbody => ?_)
  subst hbrace hright
  refine settles_pure (.define ht hname hleft ?_ hkind' hbody)
  rcases hparams with ⟨rfl, rfl⟩ | hparams
  · exact .none hkind
  · exact .some hparams hkind

theorem settles_clauses {condition : Parser Expr}
    (hcond : ∀ us, us.length < n → Settles eof condition us fun e rest => ReadsExpr 4 e us rest)
    (hbody : ∀ us, us.length < n → Settles eof item us fun s rest => ReadsStmt eof false s us rest) :
    ∀ (m : Nat) (ts : List Token), ts.length < m → ts.length < n →
      Settles eof (clauses condition item m) ts fun ch rest => ReadsChain eof ch ts rest
  | m + 1, ts, hm, hn => by
    refine (settles_accept _ ts).bind (fun o us _ ho => ?_)
    cases o with
    | some t =>
      obtain ⟨rfl, ht⟩ := ho
      rw [List.length_cons] at hm hn
      refine (hcond us (by omega)).bind (fun c vs _ hc => ?_)
      have hshort := hc.shorter
      refine (hbody vs (by omega)).bind (fun s ws _ hs => ?_)
      have hle := hs.length_le
      refine (settles_clauses hcond hbody m ws (by omega) (by omega)).bind (fun ch rest _ hch => ?_)
      exact settles_pure (.retry (by simpa using ht) hc hs hch)
    | none =>
      obtain ⟨rfl, hretry⟩ := ho
      refine (settles_accept _ us).bind (fun o vs _ ho => ?_)
      cases o with
      | some t =>
        obtain ⟨rfl, ht⟩ := ho
        rw [List.length_cons] at hn
        refine (hbody vs (by omega)).bind (fun s rest _ hs => ?_)
        exact settles_pure (.otherwise (by simpa using ht) hs)
      | none =>
        obtain ⟨rfl, hragequit⟩ := ho
        exact settles_pure (.done fun t ht => Bool.or_eq_false_iff.2 ⟨hretry t ht, hragequit t ht⟩)

end Nested

theorem settles_statement : ∀ (n : Nat) (d : Bool) (ts : List Token), ts.length < n →
    Settles eof (statement eof n d) ts fun s rest => ReadsStmt eof d s ts rest
  | n + 1, d, ts, hn => by
    have hbody := settles_statement n false
    have hitem := settles_statement n true
    refine (settles_skipNewlines ts).bind (fun _ us hsuf hus => ?_)
    have hle := hsuf.length_le
    suffices h : Settles eof _ us fun s rest => ReadsStmt eof d s us rest from h.mono (fun s rest _ hs => by
      rw [hus] at hs
      exact hs.of_dropWhile)
    refine (settles_accept _ us).bind (fun o vs _ ho => ?_)
    cases o with
    | none =>
      obtain ⟨rfl, -⟩ := ho
      refine (settles_atEnd _).bind (fun b ws _ ⟨hws, hb⟩ => ?_)
      subst hws hb
      split
      · rename_i hempty
        rw [List.isEmpty_iff.1 hempty]
        exact settles_pure .finish
      · refine (settles_nextIs _ _).bind (fun b' ws' _ ⟨hws', _⟩ => ?_)
        subst hws'
        split
        · exact settles_simpleStatement d (n + 1) _ (by omega)
        · exact settles_unexpected _ _
    | some t =>
      obtain ⟨rfl, hstart⟩ := ho
      rw [List.length_cons] at hle
      have hvs : vs.length < n := by omega
      simp only
      split
      · rename_i ht
        refine (settles_expression n vs hvs).bind (fun c ws _ hc => ?_)
        have hshort := hc.shorter
        refine (hbody ws (by omega)).bind (fun s rest _ hs => ?_)
        exact settles_pure (.loop ht hc hs)
      split
      · rename_i ht
        refine (settles_expression n vs hvs).bind (fun c ws _ hc => ?_)
        have hshort := hc.shorter
        refine (hbody ws (by omega)).bind (fun s xs _ hs => ?_)
        have hlen := hs.length_le
        refine (settles_clauses (settles_expression n) hbody n xs (by omega) (by omega)).bind (fun ch rest _ hch => ?_)
        exact settles_pure (.branch ht hc hs hch)
      split
      · rename_i ht
        refine (settles_blockBody hitem vs hvs).bind (fun ss rest _ hss => ?_)
        exact settles_pure (.block ht hss)
      split
      · rename_i ht
        exact settles_giving ht n vs hvs
      split
      · rename_i ht
        refine (settles_expect _ _ vs).bind (fun name rest _ ⟨hrest, hname⟩ => ?_)
        subst hrest
        exact settles_pure (.increase ht hname)
      split
      · rename_i ht
        refine (settles_expect _ _ vs).bind (fun name rest _ ⟨hrest, hname⟩ => ?_)
        subst hrest
        exact settles_pure (.decrease ht hname)
      -- what is left are declarations, so they are allowed here
      rename_i hfarm hclutch hbrace hspawn hbuff hnerf
      have hdecl : d = true ∧ (t.kind = .dlc ∨ t.kind = .loot) := by
        simpa [startsStatement, hfarm, hclutch, hbrace, hspawn, hbuff, hnerf] using hstart
      obtain ⟨rfl, hkind⟩ := hdecl
      split
      · rename_i ht
        exact settles_definition ht hitem vs hvs
      · rename_i ht
        exact settles_declaration (hkind.resolve_left ht) n vs hvs

theorem settles_program {n : Nat} : ∀ (m : Nat) (ts : List Token), ts.length < m → ts.length < n →
    Settles eof (program (statement eof n true) m) ts fun ss rest => rest = [] ∧ ReadsProgram eof ss ts
  | m + 1, [], _, _ => settles_ok rfl List.suffix_rfl ⟨rfl, .nil⟩
  | m + 1, t :: ts, hm, hn => by
    refine (settles_atEnd _).bind (fun b us _ ⟨hus, hb⟩ => ?_)
    subst hus hb
    refine (settles_statement n true (t :: ts) hn).bind (fun s us _ hs => ?_)
    have hle := hs.length_le
    rw [List.length_cons] at hm hn hle
    refine (settles_program m us (by omega) (by omega)).bind (fun ss rest _ ⟨hrest, hss⟩ => ?_)
    exact settles_pure ⟨hrest, .cons hs hss⟩

end Parser

/-! ## Programs -/

open Loot.Parser

/-- **Reading takes all tokens**, or it fails on the line of one of them. -/
theorem Reader.statements_cases (r : Reader) :
    (∃ program, ReadsProgram r.eof program r.ahead ∧
      r.statements = .ok (program, ⟨r.position + r.ahead.length, [], r.eof⟩)) ∨
    ∃ f, f.IsOfGrammar (r.ahead ++ [r.eof]) ∧ r.statements = .error f := by
  have hsteps := Nat.lt_succ_self r.ahead.length
  have hsettles : Settles r.eof _ _ _ := settles_program _ _ hsteps hsteps
  unfold Reader.statements
  simp only
  cases hread : program (statement r.eof (r.ahead.length + 1) true) (r.ahead.length + 1) r.ahead with
  | ok out =>
    obtain ⟨found, rest⟩ := out
    obtain ⟨-, rfl, hfound⟩ := hsettles.of_ok hread
    exact .inl ⟨found, hfound, rfl⟩
  | error failure =>
    unfold Settles at hsettles
    rw [hread] at hsettles
    cases failure with
    | fault f => exact .inr ⟨f, hsettles, rfl⟩
    | outOfSteps => exact hsettles.elim

section Programs

variable {ts body after : List Token} {eof : Token}

theorem Ended.readProgram_eq (h : Ended ts body eof after) :
    readProgram ts = (Reader.statements ⟨0, body, eof⟩).map Prod.fst := by
  unfold readProgram
  rw [h.ofTokens_eq]
  simp only [bind, Except.bind]
  cases Reader.statements ⟨0, body, eof⟩ <;> rfl

/-- **The program of a list of tokens is the one that can be read from it**, up to the first end of file. -/
theorem Ended.readProgram_eq_ok_iff (h : Ended ts body eof after) (statements : List Stmt) :
    readProgram ts = .ok statements ↔ ReadsProgram eof statements body := by
  rw [h.readProgram_eq]
  constructor
  · intro hread
    rcases Reader.statements_cases ⟨0, body, eof⟩ with ⟨found, hfound, hstatements⟩ | ⟨f, -, hstatements⟩
    · rw [hstatements] at hread
      cases hread
      exact hfound
    · rw [hstatements] at hread
      cases hread
  · intro hread
    have hsteps := Nat.lt_succ_self body.length
    unfold Reader.statements
    simp only
    rw [hread.program_eq _ _ hsteps hsteps]
    rfl

theorem Ended.readProgram_error (h : Ended ts body eof after) {f : Fault} (hread : readProgram ts = .error f) :
    f.IsOfGrammar (body ++ [eof]) := by
  rw [h.readProgram_eq] at hread
  rcases Reader.statements_cases ⟨0, body, eof⟩ with ⟨found, -, hstatements⟩ | ⟨f', hf, hstatements⟩
  · rw [hstatements] at hread
    cases hread
  · rw [hstatements] at hread
    cases hread
    exact hf

/-- A program that was found was read from the tokens before the first end of file. -/
theorem readProgram_reads {program : List Stmt} (h : readProgram ts = .ok program) :
    ∃ body eof after, Ended ts body eof after ∧ ReadsProgram eof program body := by
  by_cases hended : ∃ body eof after, Ended ts body eof after
  · obtain ⟨body, eof, after, hended⟩ := hended
    exact ⟨body, eof, after, hended, (hended.readProgram_eq_ok_iff program).1 h⟩
  · unfold readProgram at h
    rw [Reader.ofTokens_refused hended] at h
    cases h

end Programs

/-! ## Programs with one end of file -/

section Concat

variable {body : List Token} {eof : Token} (hbody : ∀ t ∈ body, t.kind ≠ .endOfFile) (heof : eof.kind = .endOfFile)

include hbody heof

theorem readProgram_whole : readProgram (body ++ [eof]) =
    match program (statement eof ((dropTrivia body).length + 1) true) ((dropTrivia body).length + 1)
      (dropTrivia body) with
    | .ok (statements, _) => .ok statements
    | .error failure => .error failure.toFault := by
  rw [(ended_concat hbody heof).readProgram_eq]
  unfold Reader.statements
  simp only
  cases program _ _ (dropTrivia body) <;> rfl

theorem readProgram_eq_ok_iff (statements : List Stmt) :
    readProgram (body ++ [eof]) = .ok statements ↔ ReadsProgram eof statements (dropTrivia body) :=
  (ended_concat hbody heof).readProgram_eq_ok_iff statements

theorem readProgram_error {f : Fault} (h : readProgram (body ++ [eof]) = .error f) :
    f.IsOfGrammar (body ++ [eof]) := by
  refine ((ended_concat hbody heof).readProgram_error h).mono (fun t ht => ?_)
  rcases List.mem_append.1 ht with ht | ht
  · exact List.mem_append_left _ (List.mem_filter.1 ht).1
  · exact List.mem_append_right _ ht

end Concat

end Loot
