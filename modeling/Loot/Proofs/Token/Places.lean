import Loot.Proofs.Token.Splits
/-!
# The places of tokens and faults

Newlines are counted where they stand: between tokens, in strings, behind a backslash or not, and in comments.  A
token is on the line that the newlines of the tokens before it make.  Where scanning fails, whole tokens stand before
a place at which no token can be completed, for one of four reasons (`Stuck`), and the fault is on the line of that
place, not on the line where the text ran out (`scanText_lines_exact`).
-/
namespace Loot

/-! ## Tokens that cannot be completed -/

/-- **The text begins with a token that cannot be completed**, for the given cause. -/
inductive Stuck : Cause → Text → Prop
  /-- A quote, and no quote after it closes the string. -/
  | string {body : Text} : (∀ before after, body = before ++ '"' :: after → ¬ IsStringBody before) →
      Stuck .unterminatedString ('"' :: body)
  | comment {body : Text} : ¬ ['X', 'x'] <:+: body → Stuck .unterminatedComment ('x' :: 'X' :: body)
  /-- A digit, and digits and points after it as far as they go, which together are no number. -/
  | number {c : Char} {cs rest : Text} : isDigit c = true → (∀ d ∈ cs, isDigit d = true ∨ d = '.') →
      Kind.number.EndsBefore rest → Numeral.ofText? (c :: cs) = none →
      Stuck (.invalidNumber (c :: cs)) (c :: (cs ++ rest))
  /-- A character that no token begins with. -/
  | character {c : Char} {cs : Text} : c ∉ marks → isLetter c = false → isDigit c = false → c ≠ '"' →
      Stuck (.unexpectedCharacter [c]) (c :: cs)

theorem Stuck.exists_cons {cause : Cause} {start : Text} (h : Stuck cause start) : ∃ c cs, start = c :: cs := by
  cases h <;> exact ⟨_, _, rfl⟩

theorem closeString_eq_none_iff (seen body : Text) :
    closeString seen body = none ↔ ∀ before after, body = before ++ '"' :: after → ¬ IsStringBody before := by
  constructor
  · rintro h before after rfl hbefore
    rw [closeString_complete after hbefore] at h
    cases h
  · intro h
    cases hclose : closeString seen body with
    | none => rfl
    | some text =>
      obtain ⟨before, after, hbody, hbefore, -⟩ := closeString_sound _ _ hclose
      exact absurd hbefore (h before after hbody)

theorem closeComment_eq_none_iff (seen body : Text) : closeComment seen body = none ↔ ¬ ['X', 'x'] <:+: body := by
  fun_induction closeComment seen body with
  | case1 => simp
  | case2 seen cs => exact iff_of_false (by simp) (fun h => h (List.infix_append [] ['X', 'x'] cs))
  | case3 seen c cs hc ih =>
    have hbegins : ¬ ['X', 'x'] <+: c :: cs := by
      rintro ⟨rest, hrest⟩
      cases hrest
      exact hc rest rfl rfl
    rw [ih, List.infix_cons_iff, not_or]
    exact ⟨fun h => ⟨hbegins, h⟩, And.right⟩

theorem not_opensComment {c : Char} (hc : c ≠ 'x') (cs : Text) : ¬ opensComment (c :: cs) = true := by
  intro hopen
  obtain ⟨after, hafter⟩ := (opensComment_iff _).1 hopen
  rw [List.cons_append, List.cons.injEq] at hafter
  exact hc hafter.1.symm

/-- Where no token can be completed the scanner finds none. -/
theorem Stuck.nextToken_eq {cause : Cause} {c : Char} {cs : Text} (h : Stuck cause (c :: cs)) :
    nextToken c cs = .error cause := by
  cases h with
  | string hopen =>
    rw [nextToken_of_not_mark (by decide), (closeString_eq_none_iff _ _).2 hopen]
    rfl
  | @comment body hopen =>
    have hbegins : opensComment ('x' :: 'X' :: body) = true := rfl
    rw [nextToken_of_not_mark (by decide), if_pos hbegins, List.drop_succ_cons, List.drop_zero,
      (closeComment_eq_none_iff _ _).2 hopen]
  | @number _ cs rest hdigit hcs hends hnone =>
    have hx : c ≠ 'x' := by
      rintro rfl
      exact absurd hdigit (by decide)
    have hparts : ∀ d ∈ cs, isNumberPart d = true := fun d hd => by simpa [isNumberPart] using hcs d hd
    rw [nextToken_of_not_mark (not_mem_marks (p := isDigit) (by decide) hdigit), if_neg (not_opensComment hx _),
      if_neg (by rw [isLetter_eq_false_of_isDigit hdigit]; decide), if_pos hdigit,
      takeWhile_of_endsBefore (p := isNumberPart) (fun _ => rfl) hparts hends, hnone, if_neg (by decide)]
  | character hmark hletter hdigit hquote =>
    have hx : c ≠ 'x' := by
      rintro rfl
      exact absurd hletter (by decide)
    rw [nextToken_of_not_mark hmark, if_neg (not_opensComment hx _), hletter, hdigit, if_neg (by decide),
      if_neg (by decide), if_neg hquote]

/-- Digits and points as far as they go that are no number. -/
theorem Stuck.of_takeWhile {c : Char} {cs : Text} (hdigit : isDigit c = true)
    (hnone : Numeral.ofText? (c :: cs.takeWhile isNumberPart) = none) :
    Stuck (.invalidNumber (c :: cs.takeWhile isNumberPart)) (c :: cs) := by
  have hparts : ∀ d ∈ cs.takeWhile isNumberPart, isDigit d = true ∨ d = '.' := fun d hd => by
    simpa [isNumberPart] using List.all_eq_true.1 List.all_takeWhile d hd
  have hends : Kind.number.EndsBefore (cs.dropWhile isNumberPart) := endsBefore_dropWhile (fun _ => rfl) cs
  have hstuck := Stuck.number hdigit hparts hends hnone
  rwa [List.takeWhile_append_dropWhile] at hstuck

/-- Where the scanner finds no token none can be completed. -/
theorem stuck_of_nextToken_error {cause : Cause} {c : Char} {cs : Text} (h : nextToken c cs = .error cause) :
    Stuck cause (c :: cs) := by
  have hmark : c ∉ marks := by
    intro hc
    obtain ⟨out, hout⟩ := nextToken_of_mark hc cs
    cases hout.symm.trans h
  rw [nextToken_of_not_mark hmark] at h
  split at h
  · rename_i hopen
    obtain ⟨rest, hrest⟩ := (opensComment_iff _).1 hopen
    cases hrest
    split at h
    · cases h
    · rename_i hclose
      cases h
      exact .comment ((closeComment_eq_none_iff _ _).1 hclose)
  split at h
  · cases h
  rename_i hletter
  split at h
  · rename_i hdigit
    split at h
    · cases h
    · rename_i hnone
      cases h
      exact .of_takeWhile hdigit (by simpa using hnone)
  rename_i hdigit
  split at h
  · rename_i hquote
    cases hquote
    split at h
    · cases h
    · rename_i hclose
      cases h
      exact .string ((closeString_eq_none_iff _ _).1 hclose)
  · rename_i hquote
    cases h
    exact .character hmark (by simpa using hletter) (by simpa using hdigit) hquote

/-! ## Lines -/

/-- The four blanks that a tab is shown as end no line, nor does the tab. -/
theorem newlines_shownLexeme (text : Text) : (shownLexeme text).newlines = text.newlines := by
  unfold shownLexeme
  split
  · rename_i h
    rw [h]
    rfl
  · rfl

theorem tokensOf_line_eq : ∀ (ps : List Piece) (line : Nat) (before : List Token) (t : Token) (after : List Token),
    tokensOf line ps = before ++ t :: after →
      t.line = some ((line + Text.newlines (before.flatMap Token.lexeme) : Nat) : Int)
  | [], line, [], t, after, h => by
    cases h
    rfl
  | [], line, u :: before, t, after, h => by
    rw [tokensOf, List.cons_append] at h
    simp at h
  | p :: ps, line, [], t, after, h => by
    cases h
    rfl
  | p :: ps, line, u :: before, t, after, h => by
    rw [tokensOf, List.cons_append, List.cons.injEq] at h
    obtain ⟨rfl, hrest⟩ := h
    rw [tokensOf_line_eq ps _ before t after hrest, List.flatMap_cons, Text.newlines_append, newlines_shownLexeme,
      Nat.add_assoc]

/-- **Every line is exact.**  A token of a text that can be scanned, the end of file too, is on line 1 and so many
lines down as there are newlines in the tokens before it.  A text cannot be scanned exactly if it is whole tokens and
then one that cannot be completed, and the fault has the cause and the line of the place where that token begins. -/
theorem scanText_lines_exact (source : Text) :
    (∀ ts, scanText source = .ok ts → ∀ before t after, ts = before ++ t :: after →
      t.line = some ((1 + Text.newlines (before.flatMap Token.lexeme) : Nat) : Int)) ∧
    ∀ f, scanText source = .error f ↔ f.isInternal = false ∧ ∃ ps start,
      withoutReturns source = textOf ps ++ start ∧ CutBefore start ps ∧ Stuck f.cause start ∧
        f.line = some ((1 + (textOf ps).newlines : Nat) : Int) := by
  refine ⟨fun ts h before t after hts => ?_, fun f => ⟨fun h => ?_, ?_⟩⟩
  · obtain ⟨ps, -, -, rfl⟩ := (scanText_eq_ok_iff source ts).1 h
    exact tokensOf_line_eq ps 1 before t after hts
  · obtain ⟨ps, e, hsplits⟩ := exists_splits (withoutReturns source)
    rw [scanText_splits hsplits] at h
    split at h
    · cases h
    · rename_i cause hcause
      cases h
      obtain ⟨c, cs, htext, hnext⟩ := Tail.nextToken_eq hsplits.fits hcause
      exact ⟨rfl, ps, e.text, hsplits.text, hsplits.cut, htext ▸ stuck_of_nextToken_error hnext, rfl⟩
  · rintro ⟨hinternal, ps, start, htext, hcut, hstuck, hline⟩
    obtain ⟨c, cs, rfl⟩ := hstuck.exists_cons
    obtain ⟨e, he, hcause, hfits⟩ := nextToken_error_cases hstuck.nextToken_eq
    have hsplits : Splits (withoutReturns source) ps e := ⟨he ▸ htext, he ▸ hcut, hfits⟩
    rw [scanText_splits hsplits, hcause]
    cases f
    cases hinternal
    cases hline
    rfl

/-- A string over three lines, with a backslash before its first newline, and a comment over two. -/
def crackedText : Text := "\"a\\\n\nb\" xX\nXx".toList

/-- What comes after them is on line 4: the end of the text, or a number with two points. -/
theorem scanText_lines_exact_long_tokens :
    (∃ ts, scanText crackedText = .ok ts ∧ ∀ before t after, ts = before ++ t :: after →
      t.line = some ((1 + Text.newlines (before.flatMap Token.lexeme) : Nat) : Int)) ∧
    ∃ f, scanText (crackedText ++ "1.2.3".toList) = .error f ∧ f.line = some 4 ∧
      f.cause = .invalidNumber "1.2.3".toList ∧ ∃ ps start,
        withoutReturns (crackedText ++ "1.2.3".toList) = textOf ps ++ start ∧ CutBefore start ps ∧
          Stuck f.cause start ∧ f.line = some ((1 + (textOf ps).newlines : Nat) : Int) := by
  constructor
  · have hscan : (scanText crackedText).toBool = true := by decide +kernel
    cases h : scanText crackedText with
    | error f =>
      rw [h] at hscan
      cases hscan
    | ok ts => exact ⟨ts, rfl, (scanText_lines_exact crackedText).1 ts h⟩
  · have hscan : (match scanText (crackedText ++ "1.2.3".toList) with | .error f => some f | .ok _ => none) =
        some { cause := .invalidNumber "1.2.3".toList, line := some 4 } := by decide +kernel
    cases h : scanText (crackedText ++ "1.2.3".toList) with
    | error f =>
      rw [h] at hscan
      cases hscan
      exact ⟨_, rfl, rfl, rfl, (((scanText_lines_exact _).2 _).1 h).2⟩
    | ok ts =>
      rw [h] at hscan
      cases hscan

end Loot
