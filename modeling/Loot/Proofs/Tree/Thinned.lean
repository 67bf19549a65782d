import Loot.Proofs.Tree.Lineless
import Loot.Proofs.Tree.Seam
/-!
# Newlines in a row

Of several newlines in a row the parser needs one.  It stops at the first of them, and skips the others before the next
statement; only a clause of a choice must come right after the newline that ends the statement before it.  So tokens
with fewer newlines in a row are read as the same program (`readProgram_thinned`), if no clause comes right after two
newlines: `Follows` says of two parsers that the one does on the thinned tokens what the other does on all of them.
-/
namespace Loot

open Loot.Parser

/-! ## Thinned newlines -/

/-- **The second tokens are the first with fewer newlines in a row.** -/
inductive Thinned : List Token → List Token → Prop
  | nil : Thinned [] []
  | keep (t : Token) {ts us : List Token} : Thinned ts us → Thinned (t :: ts) (t :: us)
  | drop {nl : Token} {ts us : List Token} : nl.kind = .newline → Thinned (nl :: ts) us → Thinned (nl :: nl :: ts) us

/-- No clause of a choice comes right after two newlines. -/
def NoLateClause (ts : List Token) : Prop :=
  ∀ before nl nl' t after, ts = before ++ nl :: nl' :: t :: after → nl.kind = .newline → nl'.kind = .newline →
    isClause t.kind = false

theorem NoLateClause.tail {t : Token} {ts : List Token} (h : NoLateClause (t :: ts)) : NoLateClause ts :=
  fun before nl nl' u after hts => h (t :: before) nl nl' u after (by rw [hts]; rfl)

theorem NoLateClause.dropWhile (p : Token → Bool) {ts : List Token} (h : NoLateClause ts) :
    NoLateClause (ts.dropWhile p) := by
  induction ts with
  | nil => exact h
  | cons t ts ih =>
    rw [List.dropWhile_cons]
    split
    · exact ih h.tail
    · exact h

theorem NoLateClause.withoutLine {ts : List Token} (h : NoLateClause ts) : NoLateClause (ts.map Token.withoutLine) := by
  intro before nl nl' t after hts
  obtain ⟨before, ts₁, rfl, -, hts₁⟩ := List.map_eq_append_iff.1 hts
  obtain ⟨nl, ts₂, rfl, rfl, hts₂⟩ := List.map_eq_cons_iff.1 hts₁
  obtain ⟨nl', ts₃, rfl, rfl, hts₃⟩ := List.map_eq_cons_iff.1 hts₂
  obtain ⟨t, after, rfl, rfl, -⟩ := List.map_eq_cons_iff.1 hts₃
  exact h before nl nl' t after rfl

theorem NoLateClause.of_append {ts us : List Token} (h : NoLateClause (ts ++ us)) : NoLateClause ts :=
  fun before nl nl' t after hts => h before nl nl' t (after ++ us) (by rw [hts]; simp)

/-- The tokens from the first one on that is no newline. -/
def pastNewlines (ts : List Token) : List Token := ts.dropWhile (·.kind == .newline)

theorem pastNewlines_cons {nl : Token} (h : nl.kind = .newline) (ts : List Token) :
    pastNewlines (nl :: ts) = pastNewlines ts := List.dropWhile_cons_of_pos (by simp [h])

theorem pastNewlines_of_notNext {ts : List Token} (h : NotNext (· == .newline) ts) : pastNewlines ts = ts := by
  cases ts with
  | nil => rfl
  | cons t ts => exact List.dropWhile_cons_of_neg (Bool.eq_false_iff.1 (h t rfl))

theorem NoLateClause.past {nl nl' : Token} (hnl : nl.kind = .newline) (hnl' : nl'.kind = .newline) {ts : List Token}
    (h : NoLateClause (nl :: nl' :: ts)) : NotNext isClause (pastNewlines ts) := by
  induction ts generalizing nl nl' with
  | nil => exact fun t ht => nomatch ht
  | cons t ts ih =>
    by_cases ht : t.kind = .newline
    · rw [pastNewlines_cons ht]
      exact ih hnl' ht h.tail
    · rw [pastNewlines_of_notNext (NotNext.cons (by simpa using ht) ts)]
      exact NotNext.cons (h [] nl nl' t ts rfl hnl hnl') ts

namespace Thinned

theorem refl : ∀ ts : List Token, Thinned ts ts
  | [] => .nil
  | t :: ts => .keep t (refl ts)

theorem append {ts us ts' us' : List Token} (h : Thinned ts us) (h' : Thinned ts' us') :
    Thinned (ts ++ ts') (us ++ us') := by
  induction h with
  | nil => exact h'
  | keep t _ ih => exact .keep t ih
  | drop hnl _ ih => exact .drop hnl ih

/-- A newline after a newline at the end may be left out. -/
theorem drop_last {ts us : List Token} {nl : Token} (h : Thinned ts us) (hlast : ts.getLast? = some nl)
    (hnl : nl.kind = .newline) : Thinned (ts ++ [nl]) us := by
  induction h with
  | nil => cases hlast
  | @keep t ts us h ih =>
    cases ts with
    | nil =>
      cases hlast
      cases h
      exact .drop hnl (.keep _ .nil)
    | cons u ts => exact .keep t (ih hlast)
  | drop ht _ ih => exact .drop ht (ih hlast)

theorem head? {ts us : List Token} (h : Thinned ts us) : ts.head? = us.head? := by
  induction h with
  | nil => rfl
  | keep t _ _ => rfl
  | drop _ _ ih => exact ih

theorem cons_inv {t : Token} {ts us : List Token} (h : Thinned (t :: ts) us) (ht : t.kind ≠ .newline) :
    ∃ vs, us = t :: vs ∧ Thinned ts vs := by
  cases h with
  | keep _ h => exact ⟨_, rfl, h⟩
  | drop hnl _ => exact absurd hnl ht

theorem pastNewlines {ts us : List Token} (h : Thinned ts us) : Thinned (pastNewlines ts) (pastNewlines us) := by
  induction h with
  | nil => exact .nil
  | @keep t ts us h ih =>
    by_cases ht : t.kind = .newline
    · rw [pastNewlines_cons ht, pastNewlines_cons ht]
      exact ih
    · have hnot : ∀ vs, NotNext (· == .newline) (t :: vs) := NotNext.cons (by simpa using ht)
      rw [pastNewlines_of_notNext (hnot ts), pastNewlines_of_notNext (hnot us)]
      exact .keep t h
  | drop hnl _ ih =>
    rw [pastNewlines_cons hnl]
    exact ih

end Thinned

/-- **Thinned tokens that a parser may meet.** -/
def Near (ts us : List Token) : Prop := Thinned ts us ∧ NoLateClause ts

/-- What a parser may meet after it took one newline of a row: there may be more of them, and fewer or none in the
thinned tokens, but then no clause comes after them. -/
def Loose (ts us : List Token) : Prop :=
  Near ts us ∨ (¬ NotNext (· == .newline) ts ∧ NotNext isClause (pastNewlines ts) ∧
    Near (pastNewlines ts) (pastNewlines us))

theorem Near.loose {ts us : List Token} (h : Near ts us) : Loose ts us := .inl h

theorem Near.cons_inv {t : Token} {ts us : List Token} (h : Near (t :: ts) us) (ht : t.kind ≠ .newline) :
    ∃ vs, us = t :: vs ∧ Near ts vs := by
  obtain ⟨vs, rfl, hvs⟩ := h.1.cons_inv ht
  exact ⟨vs, rfl, hvs, h.2.tail⟩

theorem Near.pastNewlines {ts us : List Token} (h : Near ts us) : Near (pastNewlines ts) (pastNewlines us) :=
  ⟨h.1.pastNewlines, h.2.dropWhile _⟩

theorem Loose.pastNewlines {ts us : List Token} (h : Loose ts us) : Near (pastNewlines ts) (pastNewlines us) := by
  rcases h with h | ⟨-, -, h⟩
  · exact h.pastNewlines
  · exact h

/-- **Of a row of newlines, both lists have the first.** -/
theorem Near.newline_inv {nl : Token} {ts us : List Token} (h : Near (nl :: ts) us) (hnl : nl.kind = .newline) :
    ∃ vs, us = nl :: vs ∧ Loose ts vs := by
  obtain ⟨hthin, hlate⟩ := h
  generalize hall : nl :: ts = all at hthin
  induction hthin generalizing ts with
  | nil => cases hall
  | keep _ hthin _ =>
    cases hall
    exact ⟨_, rfl, .inl ⟨hthin, hlate.tail⟩⟩
  | drop _ _ ih =>
    cases hall
    obtain ⟨vs, rfl, hloose⟩ := ih hlate.tail rfl
    refine ⟨vs, rfl, .inr ⟨fun hnot => ?_, ?_, ?_⟩⟩
    · have hnext := hnot nl rfl
      rw [hnl] at hnext
      cases hnext
    · rw [pastNewlines_cons hnl]
      exact hlate.past hnl hnl
    · rw [pastNewlines_cons hnl]
      exact hloose.pastNewlines

/-! ## Parsers on thinned tokens -/

namespace Parser

variable {α β : Type} {eof : Token}

/-- **Outcomes agree** as far as both parsers had steps enough: with the same result, or a fault for the same cause. -/
inductive Agree (S : α → List Token → List Token → Prop) :
    Except Failure (α × List Token) → Except Failure (α × List Token) → Prop
  | ok {a : α} {ts us : List Token} : S a ts us → Agree S (.ok (a, ts)) (.ok (a, us))
  | fault {f g : Fault} : f.withoutLine = g.withoutLine → Agree S (.error (.fault f)) (.error (.fault g))
  | left (y : Except Failure (α × List Token)) : Agree S (.error .outOfSteps) y
  | right (x : Except Failure (α × List Token)) : Agree S x (.error .outOfSteps)

theorem Agree.value {S : α → List Token → List Token → Prop} {a b : α} {ts us : List Token}
    (h : Agree S (.ok (a, ts)) (.ok (b, us))) : a = b := by
  cases h
  rfl

/-- **The second parser follows the first**: on tokens in one relation their outcomes agree, with tokens left in
another. -/
def Follows (R : List Token → List Token → Prop) (p q : Parser α) (S : α → List Token → List Token → Prop) : Prop :=
  ∀ ts us, R ts us → Agree S (p ts) (q us)

section Parts

variable {R R' : List Token → List Token → Prop} {S S' : α → List Token → List Token → Prop}
  {T : β → List Token → List Token → Prop}

theorem Follows.bind {p q : Parser α} {k k' : α → Parser β} (hp : Follows R p q S)
    (hk : ∀ a, Follows (S a) (k a) (k' a) T) : Follows R (p >>= k) (q >>= k') T := by
  intro ts us h
  have hagree := hp ts us h
  simp only [Bind.bind, StateT.bind]
  generalize p ts = x at hagree
  generalize q us = y at hagree
  cases hagree with
  | ok hS => exact hk _ _ _ hS
  | fault hfg => exact .fault hfg
  | left _ => exact .left _
  | right _ => exact .right _

theorem Follows.mono {p q : Parser α} (h : Follows R p q S) (hR : ∀ ts us, R' ts us → R ts us)
    (hS : ∀ a ts us, S a ts us → S' a ts us) : Follows R' p q S' := by
  intro ts us hts
  have hagree := h ts us (hR ts us hts)
  generalize p ts = x at hagree
  generalize q us = y at hagree
  cases hagree with
  | ok h => exact .ok (hS _ _ _ h)
  | fault hfg => exact .fault hfg
  | left _ => exact .left _
  | right _ => exact .right _

theorem Follows.ite {c : Prop} [Decidable c] {p q p' q' : Parser α} (hp : Follows R p p' S) (hq : Follows R q q' S) :
    Follows R (if c then p else q) (if c then p' else q') S := by
  split
  · exact hp
  · exact hq

theorem follows_pure (a : α) : Follows R (pure a) (pure a) fun _ => R := fun _ _ h => .ok h

theorem Follows.loosen {p q : Parser α} (h : Follows R p q fun _ => Near) : Follows R p q fun _ => Loose :=
  h.mono (fun _ _ h => h) (fun _ _ _ h => h.loose)

theorem Follows.fromLoose {p q : Parser α} (h : Follows Loose p q S) : Follows Near p q S :=
  h.mono (fun _ _ h => h.loose) (fun _ _ _ h => h)

theorem follows_outOfSteps_left (q : Parser α) : Follows R outOfSteps q S := fun _ _ _ => .left _

theorem follows_outOfSteps_right (p : Parser α) : Follows R p outOfSteps S := fun _ _ _ => .right _

theorem follows_failHere (text : Text) : Follows R (failHere eof text) (failHere eof text) S :=
  fun _ _ _ => .fault rfl

theorem follows_unexpected : Follows Near (unexpected eof) (unexpected eof) S := by
  intro ts us h
  have hhead := h.1.head?
  refine .fault ?_
  cases ts with
  | nil =>
    cases us with
    | nil => rfl
    | cons u us => cases hhead
  | cons t ts =>
    cases us with
    | nil => cases hhead
    | cons u us =>
      cases hhead
      rfl

end Parts

theorem follows_nextIs (test : Kind → Bool) : Follows Near (nextIs test) (nextIs test) fun _ => Near := by
  intro ts us h
  unfold nextIs
  rw [h.1.head?]
  exact .ok h

theorem follows_atEnd : Follows Near atEnd atEnd fun _ => Near := by
  intro ts us h
  have hempty : ∀ vs : List Token, vs.isEmpty = vs.head?.isNone := fun vs => by cases vs <;> rfl
  unfold atEnd
  rw [hempty, hempty, h.1.head?]
  exact .ok h

theorem follows_skipNewlines : Follows Loose skipNewlines skipNewlines fun _ => Near :=
  fun _ _ h => .ok h.pastNewlines

/-- A token that is no newline is taken from both lists or from none. -/
theorem follows_accept {test : Kind → Bool} (htest : test .newline = false) :
    Follows Near (accept test) (accept test) fun _ => Near := by
  intro ts us h
  cases ts with
  | nil =>
    cases us with
    | nil => exact .ok h
    | cons u us => cases h.1.head?
  | cons t ts =>
    cases ht : test t.kind with
    | true =>
      obtain ⟨vs, rfl, hvs⟩ := h.cons_inv (fun hnl => by rw [hnl, htest] at ht; cases ht)
      rw [accept_cons ht, accept_cons ht]
      exact .ok hvs
    | false =>
      have hnot : ∀ {vs}, vs.head? = some t → NotNext test vs := fun hvs u hu => by
        cases hvs.symm.trans hu
        exact ht
      rw [accept_of_notNext (hnot rfl), accept_of_notNext (hnot h.1.head?.symm)]
      exact .ok h

/-- One newline is taken from both lists or from none. -/
theorem follows_accept_newline :
    Follows Near (accept (· == .newline)) (accept (· == .newline)) fun o ts us => match o with
      | some _ => Loose ts us
      | none => Near ts us := by
  intro ts us h
  cases ts with
  | nil =>
    cases us with
    | nil => exact .ok h
    | cons u us => cases h.1.head?
  | cons t ts =>
    by_cases ht : t.kind = .newline
    · obtain ⟨vs, rfl, hvs⟩ := h.newline_inv ht
      have hnl : (t.kind == .newline) = true := by simp [ht]
      rw [accept_cons hnl, accept_cons hnl]
      exact .ok hvs
    · obtain ⟨vs, rfl, hvs⟩ := h.cons_inv ht
      have hnot : ∀ ws, NotNext (· == .newline) (t :: ws) := NotNext.cons (by simpa using ht)
      rw [accept_of_notNext (hnot ts), accept_of_notNext (hnot vs)]
      exact .ok h

/-- **A clause is taken from both lists or from none**, also after a newline: where there are more newlines, no clause
comes after them. -/
theorem follows_accept_clause {test : Kind → Bool} (htest : ∀ k, test k = true → isClause k = true) :
    Follows Loose (accept test) (accept test) fun o ts us => match o with
      | some _ => Near ts us
      | none => Loose ts us := by
  have hnewline : test .newline = false := by
    cases hnl : test .newline with
    | false => rfl
    | true => cases htest _ hnl
  intro ts us h
  rcases h with h | ⟨hts, hclause, hpast⟩
  · have hagree := follows_accept hnewline ts us h
    generalize accept test ts = x at hagree
    generalize accept test us = y at hagree
    cases hagree with
    | @ok o _ _ hnear =>
      cases o with
      | some _ => exact .ok hnear
      | none => exact .ok hnear.loose
    | fault hfg => exact .fault hfg
    | left _ => exact .left _
    | right _ => exact .right _
  · have hnot : ∀ {vs : List Token}, NotNext isClause (pastNewlines vs) → NotNext test vs := by
      intro vs hvs t ht
      by_cases hnl : t.kind = .newline
      · rw [hnl]
        exact hnewline
      · rw [pastNewlines_of_notNext (fun u hu => by cases ht.symm.trans hu; simpa using hnl)] at hvs
        cases htrue : test t.kind with
        | false => rfl
        | true => cases (htest _ htrue).symm.trans (hvs t ht)
    have hclause' : NotNext isClause (pastNewlines us) := fun t ht => hclause t (hpast.1.head?.trans ht)
    rw [accept_of_notNext (hnot hclause), accept_of_notNext (hnot hclause')]
    exact .ok (.inr ⟨hts, hclause, hpast⟩)

theorem follows_expect {kind : Kind} (hkind : kind ≠ .newline) (text : String) :
    Follows Near (expect eof kind text) (expect eof kind text) fun _ => Near := by
  refine (follows_accept (by simpa using Ne.symm hkind)).bind (fun o => ?_)
  cases o with
  | none => exact follows_failHere _
  | some t => exact follows_pure _

section Lists

variable {item item' : Parser α} (hitem : Follows Near item item' fun _ => Near)

include hitem

theorem follows_separated : ∀ n m, Follows Near (separated item n) (separated item' m) fun _ => Near
  | 0, _ => follows_outOfSteps_left _
  | _ + 1, 0 => follows_outOfSteps_right _
  | n + 1, m + 1 => by
    refine hitem.bind (fun a => (follows_accept (by decide)).bind (fun o => ?_))
    cases o with
    | none => exact follows_pure _
    | some comma => exact (follows_separated n m).bind (fun as => follows_pure _)

theorem follows_items (n m : Nat) : Follows Near (items item n) (items item' m) fun _ => Near :=
  (follows_nextIs _).bind (fun _ => (follows_pure _).ite (follows_separated hitem n m))

end Lists

/-! ## Expressions -/

section Levels

variable {p p' : Parser Expr} (hp : Follows Near p p' fun _ => Near)

include hp

theorem follows_chainFrom {joins : Kind → Bool} (hjoins : joins .newline = false) : ∀ (n m : Nat) (l : Expr),
    Follows Near (chainFrom p joins n l) (chainFrom p' joins m l) fun _ => Near
  | 0, _, _ => follows_outOfSteps_left _
  | _ + 1, 0, _ => follows_outOfSteps_right _
  | n + 1, m + 1, l => by
    refine (follows_accept hjoins).bind (fun o => ?_)
    cases o with
    | none => exact follows_pure _
    | some op => exact hp.bind (fun r => follows_chainFrom hjoins n m _)

theorem follows_chain (n m : Nat) {joins : Kind → Bool} (hjoins : joins .newline = false) :
    Follows Near (chain n joins p) (chain m joins p') fun _ => Near :=
  hp.bind (fun l => follows_chainFrom hp hjoins n m l)

theorem follows_expressionOver (n m : Nat) : Follows Near (expressionOver n p) (expressionOver m p') fun _ => Near :=
  follows_chain (follows_chain (follows_chain (follows_chain hp n m rfl) n m rfl) n m rfl) n m rfl

end Levels

theorem follows_operand : ∀ n m, Follows Near (operand eof n) (operand eof m) fun _ => Near
  | 0, _ => follows_outOfSteps_left _
  | _ + 1, 0 => follows_outOfSteps_right _
  | n + 1, m + 1 => by
    have hexpr := follows_expressionOver (follows_operand n m) n m
    refine (follows_accept (by decide)).bind (fun o => ?_)
    cases o with
    | none => exact follows_unexpected
    | some t =>
      refine Follows.ite ((follows_operand n m).bind (fun e => follows_pure _)) ?_
      refine Follows.ite (hexpr.bind (fun e => (follows_expect (by decide) _).bind (fun _ => ?_))) ?_
      · exact follows_pure _
      refine Follows.ite ((follows_accept (by decide)).bind (fun o => ?_)) (follows_pure _)
      cases o with
      | none => exact follows_pure _
      | some left =>
        refine (follows_items hexpr n m).bind (fun args => (follows_expect (by decide) _).bind (fun _ => ?_))
        exact follows_pure _

theorem follows_expression (n m : Nat) : Follows Near (expression eof n) (expression eof m) fun _ => Near :=
  follows_expressionOver (follows_operand n m) n m

/-! ## Statements -/

theorem follows_endStatement (text : String) :
    Follows Near (endStatement eof text) (endStatement eof text) fun _ => Loose := by
  refine follows_accept_newline.bind (fun o => ?_)
  cases o with
  | some t => exact follows_pure _
  | none =>
    refine follows_atEnd.bind (fun b => (follows_nextIs _).bind (fun b' => ?_))
    exact Follows.ite (follows_pure _).loosen (follows_failHere _)

theorem follows_simpleStatement (n m : Nat) :
    Follows Near (simpleStatement eof n) (simpleStatement eof m) fun _ => Loose := by
  intro ts us h
  have hagree : Agree (fun _ => Near) (expression eof n ts) (expression eof m us) := follows_expression n m ts us h
  have herror : ∀ {n ts failure}, expression eof n ts = .error failure → simpleStatement eof n ts = .error failure := by
    intro n ts failure hread
    unfold simpleStatement
    rw [hread]
    rfl
  generalize hx : expression eof n ts = x at hagree
  generalize hy : expression eof m us = y at hagree
  cases hagree with
  | left _ =>
    rw [herror hx]
    exact .left _
  | right _ =>
    rw [herror hy]
    exact .right _
  | fault hfg =>
    rw [herror hx, herror hy]
    exact .fault hfg
  | @ok e ts' us' hnear =>
    match e with
    | .variable name =>
      rw [simpleStatement_variable hx, simpleStatement_variable hy]
      refine (follows_accept (by decide)).bind (fun o => ?_) ts' us' hnear
      cases o with
      | some sign =>
        exact (follows_expression n m).bind (fun value => (follows_endStatement _).bind (fun _ => follows_pure _))
      | none => exact (follows_endStatement _).bind (fun _ => follows_pure _)
    | .call name args =>
      rw [simpleStatement_call hx, simpleStatement_call hy]
      exact (follows_endStatement _).bind (fun _ => follows_pure _) ts' us' hnear
    | .literal _ | .unary _ _ | .binary _ _ _ =>
      unfold simpleStatement
      rw [hx, hy]
      exact .fault rfl

theorem follows_declaration (n m : Nat) : Follows Near (declaration eof n) (declaration eof m) fun _ => Loose := by
  refine (follows_expect (by decide) _).bind (fun name => (follows_accept (by decide)).bind (fun o => ?_))
  cases o with
  | some sign => exact (follows_expression n m).bind (fun e => (follows_endStatement _).bind (fun _ => follows_pure _))
  | none => exact (follows_endStatement _).bind (fun _ => follows_pure _)

theorem follows_giving (keyword : Token) (n m : Nat) :
    Follows Near (giving eof keyword n) (giving eof keyword m) fun _ => Loose := by
  refine follows_atEnd.bind (fun b => (follows_nextIs _).bind (fun b' => Follows.ite ?_ ?_))
  · exact (follows_endStatement _).bind (fun _ => follows_pure _)
  · exact (follows_expression n m).bind (fun e => (follows_endStatement _).bind (fun _ => follows_pure _))

section Nested

variable {item item' : Parser Stmt} (hitem : Follows Loose item item' fun _ => Loose)

include hitem

theorem follows_statements : ∀ n m, Follows Loose (statements item n) (statements item' m) fun _ => Near
  | 0, _ => follows_outOfSteps_left _
  | _ + 1, 0 => follows_outOfSteps_right _
  | n + 1, m + 1 => by
    refine follows_skipNewlines.bind (fun _ => follows_atEnd.bind (fun b => (follows_nextIs _).bind (fun b' => ?_)))
    refine Follows.ite (follows_pure []) (hitem.fromLoose.bind (fun s => ?_))
    exact (follows_statements n m).bind (fun ss => follows_pure _)

theorem follows_blockBody (n m : Nat) : Follows Near (blockBody eof item n) (blockBody eof item' m) fun _ => Near :=
  (follows_statements hitem n m).fromLoose.bind (fun body =>
    (follows_expect (by decide) _).bind (fun _ => follows_pure body))

theorem follows_definition (n m : Nat) :
    Follows Near (definition eof item n) (definition eof item' m) fun _ => Near := by
  refine (follows_expect (by decide) _).bind (fun name => (follows_expect (by decide) _).bind (fun _ => ?_))
  refine (follows_items (follows_expect (by decide) _) n m).bind (fun params => ?_)
  refine (follows_expect (by decide) _).bind (fun _ => (follows_expect (by decide) _).bind (fun _ => ?_))
  exact (follows_blockBody hitem n m).bind (fun body => follows_pure _)

theorem follows_clauses {condition condition' : Parser Expr} (hcond : Follows Near condition condition' fun _ => Near) :
    ∀ n m, Follows Loose (clauses condition item n) (clauses condition' item' m) fun _ => Loose
  | 0, _ => follows_outOfSteps_left _
  | _ + 1, 0 => follows_outOfSteps_right _
  | n + 1, m + 1 => by
    refine (follows_accept_clause (fun k hk => by simp only [isClause, hk, Bool.true_or])).bind (fun o => ?_)
    cases o with
    | some t =>
      refine hcond.bind (fun c => hitem.fromLoose.bind (fun s => ?_))
      exact (follows_clauses hcond n m).bind (fun ch => follows_pure _)
    | none =>
      refine (follows_accept_clause (fun k hk => by simp only [isClause, hk, Bool.or_true])).bind (fun o => ?_)
      cases o with
      | some t => exact hitem.fromLoose.bind (fun s => follows_pure _)
      | none => exact follows_pure _

end Nested

theorem follows_statement : ∀ (n m : Nat) (d : Bool),
    Follows Loose (statement eof n d) (statement eof m d) fun _ => Loose
  | 0, _, _ => follows_outOfSteps_left _
  | _ + 1, 0, _ => follows_outOfSteps_right _
  | n + 1, m + 1, d => by
    have hexpr : Follows Near (expression eof n) (expression eof m) fun _ => Near := follows_expression n m
    have hbody := follows_statement n m false
    have hitem := follows_statement n m true
    refine follows_skipNewlines.bind (fun _ => (follows_accept (by cases d <;> rfl)).bind (fun o => ?_))
    cases o with
    | none =>
      refine follows_atEnd.bind (fun b => Follows.ite (follows_pure _).loosen ?_)
      exact (follows_nextIs _).bind (fun b' => Follows.ite (follows_simpleStatement _ _) follows_unexpected)
    | some t =>
      refine Follows.ite (hexpr.bind (fun c => hbody.fromLoose.bind (fun s => follows_pure _))) ?_
      refine Follows.ite (hexpr.bind (fun c => hbody.fromLoose.bind (fun s => ?_))) ?_
      · exact (follows_clauses hbody hexpr n m).bind (fun ch => follows_pure _)
      refine Follows.ite ((follows_blockBody hitem n m).bind (fun body => follows_pure _)).loosen ?_
      refine Follows.ite (follows_giving t n m) ?_
      refine Follows.ite ((follows_expect (by decide) _).bind (fun name => follows_pure _)).loosen ?_
      refine Follows.ite ((follows_expect (by decide) _).bind (fun name => follows_pure _)).loosen ?_
      exact Follows.ite (follows_definition hitem n m).loosen (follows_declaration n m)

/-! ## Programs -/

theorem statement_of_pastNewlines {ts : List Token} (h : pastNewlines ts = []) (n : Nat) (d : Bool) :
    statement eof (n + 1) d ts = .ok (.finish eof, []) := by
  have hskip : skipNewlines ts = .ok ((), []) := congrArg (fun rest => Except.ok ((), rest)) h
  rw [statement, bind_ok hskip]
  rfl

/-- What a program is but for marks of the end, where a token is left. -/
theorem dropFinish_program_cons (item : Parser Stmt) (n : Nat) (t : Token) (ts : List Token) :
    (dropFinish <$> program item (n + 1)) (t :: ts) =
      (item >>= fun s => dropFinish <$> program item n >>= fun ss => pure (dropFinish [s] ++ ss)) (t :: ts) := by
  have hcons : ∀ s ss, dropFinish (s :: ss) = dropFinish [s] ++ dropFinish ss := fun s ss =>
    List.filter_append [s] ss
  have hprogram : (dropFinish <$> program item (n + 1)) (t :: ts) =
      (dropFinish <$> (item >>= fun s => program item n >>= fun ss => pure (s :: ss))) (t :: ts) := rfl
  rw [hprogram]
  simp only [map_eq_pure_bind, bind_assoc, pure_bind]
  refine congrArg (fun rest : Stmt → Parser (List Stmt) => (item >>= rest) (t :: ts)) (funext fun s => ?_)
  exact congrArg (program item n >>= ·) (funext fun ss => congrArg pure (hcons s ss))

/-- **Programs agree but for what marks their end**: after the last statement the one list may be done where the other
has newlines left. -/
theorem agree_program (eof : Token) (k l : Nat) : ∀ (n m : Nat) (ts us : List Token), Loose ts us →
    Agree (fun _ _ _ => True) ((dropFinish <$> program (statement eof k true) n) ts)
      ((dropFinish <$> program (statement eof l true) m) us)
  | 0, _, _, _, _ => .left _
  | _ + 1, 0, _, _, _ => .right _
  | n + 1, m + 1, [], us, h => by
    have hus : us.head? = none := by
      rcases h with h | ⟨hnot, -⟩
      · exact h.1.head?.symm
      · exact absurd (fun _ ht => nomatch ht) hnot
    rw [List.head?_eq_none_iff.1 hus]
    exact .ok trivial
  | n + 1, m + 1, t :: ts, [], h => by
    have hpast : pastNewlines (t :: ts) = [] := List.head?_eq_none_iff.1 h.pastNewlines.1.head?
    rw [dropFinish_program_cons]
    cases k with
    | zero => exact .left _
    | succ k =>
      rw [bind_ok (statement_of_pastNewlines hpast k true)]
      cases n with
      | zero => exact .left _
      | succ n => exact .ok trivial
  | n + 1, m + 1, t :: ts, u :: us, h => by
    rw [dropFinish_program_cons, dropFinish_program_cons]
    refine (follows_statement k l true).bind (T := fun _ _ _ => True) (fun s => ?_) _ _ h
    exact Follows.bind (agree_program eof k l n m) (fun ss _ _ _ => .ok trivial)

end Parser

/-- **Tokens with fewer newlines in a row are read as the same program**, or refused for the same cause, if no clause
comes right after two newlines. -/
theorem readProgram_thinned {ts us : List Token} {eof : Token} (heof : eof.kind = .endOfFile)
    (hts : ∀ t ∈ ts, t.kind ≠ .endOfFile) (hus : ∀ t ∈ us, t.kind ≠ .endOfFile) (hsolid : dropTrivia ts = ts)
    (hsolid' : dropTrivia us = us) (h : Thinned ts us) (hlate : NoLateClause ts) :
    readingWithoutLine dropFinish (readProgram (ts ++ [eof])) =
      readingWithoutLine dropFinish (readProgram (us ++ [eof])) := by
  have hagree := agree_program eof (ts.length + 1) (us.length + 1) (ts.length + 1) (us.length + 1) ts us
    (.inl ⟨h, hlate⟩)
  have hsettled : ∀ vs : List Token, (program (statement eof (vs.length + 1) true) (vs.length + 1)) vs ≠
      .error .outOfSteps := by
    intro vs herror
    have hsettles : Settles eof _ vs _ := settles_program _ vs (Nat.lt_succ_self _) (Nat.lt_succ_self _)
    unfold Settles at hsettles
    rwa [herror] at hsettles
  have hleft := hsettled ts
  have hright := hsettled us
  rw [readProgram_whole hts heof, readProgram_whole hus heof, hsolid, hsolid']
  simp only [Functor.map, StateT.map] at hagree
  generalize program (statement eof (ts.length + 1) true) (ts.length + 1) ts = x at hagree hleft
  generalize program (statement eof (us.length + 1) true) (us.length + 1) us = y at hagree hright
  match x, y with
  | .error .outOfSteps, _ => exact absurd rfl hleft
  | _, .error .outOfSteps => exact absurd rfl hright
  | .error (.fault f), .error (.fault g) =>
    cases hagree with
    | fault hfg => exact congrArg Except.error hfg
  | .error (.fault f), .ok out => cases hagree
  | .ok out, .error (.fault g) => cases hagree
  | .ok (ss, rest), .ok (ss', rest') =>
    exact congrArg Except.ok (Agree.value hagree)

end Loot
