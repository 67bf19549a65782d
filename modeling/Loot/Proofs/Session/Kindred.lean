import Loot.Proofs.Session.Cleaning
import Loot.Proofs.Session.LinesAside
import Loot.Proofs.Session.Waiting
/-!
# Kin wait alike and run alike

A verbatim text that is open leaves open what a shell keeps of it (`AreKin.waits`).  If it is complete, so is what the
shell keeps, and the two run alike but for lines (`AreKin.complete`, `AreKin.endAlike`), unless a clause of a choice is
cut off, or the text is refused for a character that the shell took away.
-/
namespace Loot

/-! ## When a text needs more -/

theorem countKind_tokensOf {kind : Kind} (htrivia : kind.isTrivia = false) (hkind : kind ≠ .endOfFile)
    (ps : List Piece) (line : Nat) : countKind kind (tokensOf line ps) = countKind kind (grammarTokens ps) := by
  have hlines : ∀ ts : List Token, countKind kind (ts.map Token.withoutLine) = countKind kind ts := fun ts => by
    unfold countKind
    rw [List.countP_map]
    rfl
  rw [← countKind_dropTrivia htrivia, ← hlines, dropTrivia_tokensOf, countKind_eof hkind rfl]

/-- Do the pieces and the tail of a text leave something open? -/
def Tail.waits (ps : List Piece) : Tail → Bool
  | .done => decide (countKind .rightBrace (grammarTokens ps) < countKind .leftBrace (grammarTokens ps))
  | .string _ | .comment _ => true
  | .refused _ _ _ => false

theorem needsMore_splits {t : Text} {ps : List Piece} {e : Tail} (h : Splits (withoutReturns t) ps e) :
    needsMore t = e.waits ps := by
  have hscan := scanText_splits h
  cases e with
  | done =>
    rw [needsMore_of_scan hscan, countKind_tokensOf rfl (by decide), countKind_tokensOf rfl (by decide)]
    rfl
  | string body => exact needsMore_of_fault hscan
  | comment body => exact needsMore_of_fault hscan
  | refused c cs cause => exact (needsMore_of_fault hscan).trans h.fits.2

theorem Thinned.countKind {ts us : List Token} (h : Thinned ts us) {kind : Kind} (hkind : kind ≠ .newline) :
    countKind kind ts = countKind kind us := by
  induction h with
  | nil => rfl
  | keep t _ ih => rw [countKind_cons, countKind_cons, ih]
  | drop hnl _ ih => rw [countKind_cons, hnl, if_neg (Ne.symm hkind), Nat.add_zero, ih]

theorem waits_congr {ps qs : List Piece}
    (h : ∀ kind, kind ≠ .newline → countKind kind (grammarTokens ps) = countKind kind (grammarTokens qs)) :
    Tail.done.waits ps = Tail.done.waits qs := by
  unfold Tail.waits
  rw [h _ (by decide), h _ (by decide)]

theorem AtBreak.waits {ps qs : List Piece} {e e' : Tail} (h : AtBreak ps e qs e') : e.waits ps = e'.waits qs := by
  cases h with
  | code h =>
    -- the newline that the break adds to both counts for neither
    refine waits_congr (fun kind hkind => ?_)
    have hcount := h.countKind hkind
    unfold countKind at hcount ⊢
    rw [grammarTokens_append, grammarTokens_append, List.countP_append, List.countP_append] at hcount
    exact Nat.add_right_cancel hcount
  | string _ _ => rfl
  | comment _ _ _ => rfl

theorem Kin.waits {lost : Char → Prop} {after : Text} {ps qs : List Piece} {e e' : Tail}
    (h : Kin lost after ps e qs e') (hwaits : e.waits ps = true) : e'.waits qs = true := by
  cases h with
  | done h => exact (waits_congr (fun _ => h.countKind)).symm.trans hwaits
  | string _ _ => rfl
  | comment _ _ _ => rfl
  | refused _ => cases hwaits
  | spoiled _ _ _ => cases hwaits

/-- What waits for more is, with what the shell keeps of it, before another line. -/
theorem Kin.atBreak {lost : Char → Prop} {after : Text} {ps qs : List Piece} {e e' : Tail}
    (h : Kin lost after ps e qs e') (hwaits : e.waits ps = true) (hstring : ∀ body, e = .string body → after = []) :
    AtBreak ps e qs e' := by
  cases h with
  | done h =>
    refine .code ?_
    rw [grammarTokens_append, grammarTokens_append]
    exact h.append (.refl _)
  | string body h =>
    rw [hstring _ rfl, List.append_nil]
    exact .string body h
  | comment body body' h => exact .comment body body' h
  | refused _ => cases hwaits
  | spoiled _ _ _ => cases hwaits

/-- What the scanner refuses a text for. -/
def refusal? (t : Text) : Option Cause :=
  match scanText t with
  | .ok _ => none
  | .error f => some f.cause

theorem refusal?_splits {t : Text} {ps : List Piece} {e : Tail} (h : Splits (withoutReturns t) ps e) :
    refusal? t = e.cause? := by
  unfold refusal?
  rw [scanText_splits h]
  cases e.cause? <;> rfl

theorem needsMore_of_stray {t : Text} {c : Char} (h : refusal? t = some (.unexpectedCharacter [c])) :
    needsMore t = false := by
  unfold refusal? at h
  split at h
  · cases h
  · rename_i f hscan
    rw [needsMore_of_fault hscan, Option.some.inj h]
    rfl

/-! ## Kin -/

theorem AreKin.waits {lost : Char → Prop} {after v w : Text}
    (h : AreKin lost after (withoutReturns v) (withoutReturns w)) (hwaits : needsMore v = true) :
    needsMore w = true := by
  obtain ⟨ps, e, qs, e', hv, hw, hkin⟩ := h
  rw [needsMore_splits hw]
  exact hkin.waits ((needsMore_splits hv).symm.trans hwaits)

/-- What needs nothing more needs nothing more at a prompt. -/
theorem AreKin.complete {lost : Char → Prop} {after v w : Text}
    (h : AreKin lost after (withoutReturns v) (withoutReturns w)) (hdone : needsMore v = false)
    (hstray : ∀ c, refusal? v = some (.unexpectedCharacter [c]) → ¬ lost c) : needsMore w = false := by
  obtain ⟨ps, e, qs, e', hv, hw, hkin⟩ := h
  rw [needsMore_splits hv] at hdone
  rw [needsMore_splits hw]
  cases hkin with
  | done hthin => exact (waits_congr (fun _ => hthin.countKind)).symm.trans hdone
  | string _ _ => cases hdone
  | comment _ _ _ => cases hdone
  | refused _ => rfl
  | spoiled _ _ hc => exact absurd hc (hstray _ (refusal?_splits hv))

/-! ## Runs -/

theorem runProgram_dropFinish (limits : Limits) (program : List Stmt) :
    runProgram limits (dropFinish program) = runProgram limits program := by
  unfold runProgram
  funext m
  rw [get_bind_apply, get_bind_apply, Stmt.execAll_dropFinish]

theorem readProgram_tokensOf (ps : List Piece) : readProgram (grammarTokens ps ++ [⟨.endOfFile, [], none⟩]) =
    readingWithoutLine (Stmt.mapTokensAll Token.withoutLine) (readProgram (tokensOf 1 ps)) := by
  rw [← dropTrivia_tokensOf ps 1, readProgram_withoutLine, readProgram_dropTrivia]

/-- Texts that are read alike, lines and the marks of the end aside, run alike. -/
theorem runSource_readAlike (limits : Limits) {ts us : List Token}
    (h : readingWithoutLine dropFinish (readingWithoutLine (Stmt.mapTokensAll Token.withoutLine) (readProgram ts)) =
      readingWithoutLine dropFinish (readingWithoutLine (Stmt.mapTokensAll Token.withoutLine) (readProgram us)))
    {v w : Text} (hv : scanText v = .ok ts) (hw : scanText w = .ok us) (m : Machine) :
    EndAlike (fun stop stop' => stop.withoutLine = stop'.withoutLine) (Machine.SameButFunctions SameWithoutLines) m m
      (runSource limits v m) (runSource limits w m) := by
  have hm : m.SameButFunctions SameWithoutLines m := ⟨rfl, rfl, rfl, fun _ => rfl⟩
  rw [runSource_eq, runSource_eq, hv, hw]
  simp only [bind, Except.bind]
  cases hts : readProgram ts with
  | ok program =>
    cases hus : readProgram us with
    | ok program' =>
      rw [hts, hus] at h
      have hsame := Except.ok.inj h
      rw [dropFinish_mapTokensAll, dropFinish_mapTokensAll, ← Stmt.mapTokensAll_eq_map,
        ← Stmt.mapTokensAll_eq_map] at hsame
      have hrun := runProgram_sameWithoutLines limits hsame hm
      rwa [runProgram_dropFinish, runProgram_dropFinish] at hrun
    | error f' =>
      rw [hts, hus] at h
      cases h
  | error f =>
    cases hus : readProgram us with
    | ok program' =>
      rw [hts, hus] at h
      cases h
    | error f' =>
      rw [hts, hus] at h
      exact .error (congrArg Stop.fault (Except.error.inj h)) hm (.refl m m)

/-- **Kin of which one is complete run alike.** -/
theorem AreKin.endAlike {lost : Char → Prop} {after v w : Text}
    (h : AreKin lost after (withoutReturns v) (withoutReturns w)) (hdone : needsMore v = false)
    (hstray : ∀ c, refusal? v = some (.unexpectedCharacter [c]) → ¬ lost c)
    (hclauses : ∀ ts, scanText v = .ok ts → NoLateClause (dropTrivia ts)) (limits : Limits) (m : Machine) :
    EndAlike (fun stop stop' => stop.withoutLine = stop'.withoutLine) (Machine.SameButFunctions SameWithoutLines) m m
      (runSource limits v m) (runSource limits w m) := by
  obtain ⟨ps, e, qs, e', hv, hw, hkin⟩ := h
  have hm : m.SameButFunctions SameWithoutLines m := ⟨rfl, rfl, rfl, fun _ => rfl⟩
  have hscan := scanText_splits hv
  have hscan' := scanText_splits hw
  rw [needsMore_splits hv] at hdone
  cases hkin with
  | done hthin =>
    refine runSource_readAlike limits ?_ hscan hscan' m
    rw [← readProgram_tokensOf, ← readProgram_tokensOf]
    exact readProgram_thinned rfl hv.kind_grammarTokens hw.kind_grammarTokens (dropTrivia_grammarTokens ps)
      (dropTrivia_grammarTokens qs) hthin (noLateClause_grammarTokens (hclauses _ hscan))
  | string _ _ => cases hdone
  | comment _ _ _ => cases hdone
  | refused cause =>
    rw [runSource_eq, runSource_eq, hscan, hscan']
    exact .error rfl hm (.refl m m)
  | spoiled _ _ hc => exact absurd hc (hstray _ (refusal?_splits hv))

end Loot
