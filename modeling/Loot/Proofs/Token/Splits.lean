import Loot.Proofs.Token.Lines
/-!
# Where the tokens of a text end

A text begins with whole tokens, and they end with the text, or where a string or a comment is opened and not closed, or
at a character where the scanner finds no token (`exists_splits`).  What the scanner answers is told by that place
(`scanText_splits`), and with more text after it the scanner goes on from there (`Splits.resume`).
-/
namespace Loot

/-- **What a text ends with** after its last whole token. -/
inductive Tail where
  | done
  /-- A quote, and a text after it that does not close the string. -/
  | string (body : Text)
  | comment (body : Text)
  /-- A text that begins with no token, for another cause. -/
  | refused (c : Char) (cs : Text) (cause : Cause)

namespace Tail

def text : Tail → Text
  | done => []
  | string body => '"' :: body
  | comment body => 'x' :: 'X' :: body
  | refused c cs _ => c :: cs

def cause? : Tail → Option Cause
  | done => none
  | string _ => some .unterminatedString
  | comment _ => some .unterminatedComment
  | refused _ _ cause => some cause

/-- The text of the tail does begin with no token. -/
def Fits : Tail → Prop
  | done => True
  | string body => closeString ['"'] body = none
  | comment body => closeComment ['X', 'x'] body = none
  | refused c cs cause => nextToken c cs = .error cause ∧ cause.isUnclosed = false

end Tail

/-- Pieces in a row that make tokens before some text. -/
def CutBefore (tail : Text) : List Piece → Prop
  | [] => True
  | p :: ps => Spells p.kind p.text ∧ p.kind.EndsBefore (textOf ps ++ tail) ∧ CutBefore tail ps

/-- **The text is the pieces and then the tail.** -/
structure Splits (t : Text) (ps : List Piece) (e : Tail) : Prop where
  text : t = textOf ps ++ e.text
  cut : CutBefore e.text ps
  fits : e.Fits

/-! ## Pieces in a row -/

theorem CutBefore.append {tail : Text} {qs : List Piece} (hqs : CutBefore tail qs) : ∀ {ps : List Piece},
    CutBefore (textOf qs ++ tail) ps → CutBefore tail (ps ++ qs)
  | [], _ => hqs
  | p :: ps, ⟨hspells, hends, hps⟩ => by
    refine ⟨hspells, ?_, hqs.append hps⟩
    change p.kind.EndsBefore (textOf (ps ++ qs) ++ tail)
    rw [textOf_append, List.append_assoc]
    exact hends

/-- What comes after the pieces may be another text, if that begins alike or with a blank. -/
theorem CutBefore.replace {tail tail' : Text}
    (h : ∀ d, tail'.head? = some d → tail.head? = some d ∨ isBlank d = true) : ∀ {ps : List Piece},
    CutBefore tail ps → CutBefore tail' ps
  | [], _ => trivial
  | p :: ps, ⟨hspells, hends, hps⟩ => by
    refine ⟨hspells, fun d hd => ?_, hps.replace h⟩
    rw [List.head?_append] at hd
    have hhead := hends d
    rw [List.head?_append] at hhead
    cases htext : (textOf ps).head? with
    | some c =>
      rw [htext] at hd hhead
      exact hhead hd
    | none =>
      rw [htext] at hd hhead
      rcases h d hd with htail | hblank
      · exact hhead htail
      · exact p.kind.growsBy_of_isBlank hblank

theorem CutBefore.spells {tail : Text} : ∀ {ps : List Piece}, CutBefore tail ps → ∀ p ∈ ps, Spells p.kind p.text
  | [], _, _, hp => nomatch hp
  | _ :: _, ⟨hspells, _, hps⟩, p, hp => by
    rcases List.mem_cons.1 hp with rfl | hp
    · exact hspells
    · exact hps.spells p hp

def Piece.newline : Piece := ⟨.newline, ['\n']⟩

namespace Splits

variable {t : Text} {ps : List Piece} {e : Tail}

theorem of_tail (h : e.Fits) : Splits e.text [] e := ⟨rfl, trivial, h⟩

theorem cons {kind : Kind} (token : Text) {rest : Text} (hspells : Spells kind token) (hends : kind.EndsBefore rest)
    (h : Splits rest ps e) : Splits (token ++ rest) (⟨kind, token⟩ :: ps) e := by
  refine ⟨?_, ⟨hspells, h.text ▸ hends, h.cut⟩, h.fits⟩
  rw [textOf_cons, List.append_assoc, ← h.text]

theorem newline (h : Splits t ps e) : Splits ('\n' :: t) (.newline :: ps) e :=
  cons ['\n'] (.fixed rfl) (fun _ _ => rfl) h

/-- **With more text, scanning goes on from the tail.** -/
theorem resume (h : Splits t ps e) {more : Text} (hhead : e.text = [] → ∀ d, more.head? = some d → isBlank d = true)
    {qs : List Piece} {e' : Tail} (hmore : Splits (e.text ++ more) qs e') : Splits (t ++ more) (ps ++ qs) e' := by
  refine ⟨?_, hmore.cut.append ?_, hmore.fits⟩
  · rw [textOf_append, List.append_assoc, ← hmore.text, ← List.append_assoc, ← h.text]
  · rw [← hmore.text]
    refine h.cut.replace (fun d hd => ?_)
    cases htail : e.text with
    | nil =>
      rw [htail] at hd
      exact .inr (hhead htail d hd)
    | cons c cs =>
      rw [htail] at hd
      exact .inl hd

end Splits

/-! ## Every text is split -/

/-- The scanner finds no token for one of three reasons. -/
theorem nextToken_error_cases {c : Char} {cs : Text} {cause : Cause} (h : nextToken c cs = .error cause) :
    ∃ e : Tail, e.text = c :: cs ∧ e.cause? = some cause ∧ e.Fits := by
  cases hcause : cause.isUnclosed with
  | false => exact ⟨.refused c cs cause, rfl, rfl, h, hcause⟩
  | true =>
    have hmark : c ∉ marks := by
      intro hc
      obtain ⟨out, hout⟩ := nextToken_of_mark hc cs
      cases hout.symm.trans h
    rw [nextToken_of_not_mark hmark] at h
    split at h
    · rename_i hopen
      obtain ⟨rest, hrest⟩ := (opensComment_iff _).1 hopen
      cases hrest
      split at h
      · cases h
      · rename_i hclose
        cases h
        exact ⟨.comment rest, rfl, rfl, hclose⟩
    split at h
    · cases h
    split at h
    · split at h
      · cases h
      · cases h
        cases hcause
    split at h
    · rename_i hquote
      cases hquote
      split at h
      · cases h
      · rename_i hclose
        cases h
        exact ⟨.string cs, rfl, rfl, hclose⟩
    · cases h
      cases hcause

theorem exists_splits (t : Text) : ∃ ps e, Splits t ps e := by
  match t with
  | [] => exact ⟨[], .done, rfl, trivial, trivial⟩
  | c :: cs =>
    cases hnext : nextToken c cs with
    | error cause =>
      obtain ⟨e, htext, -, hfits⟩ := nextToken_error_cases hnext
      exact ⟨[], e, htext ▸ .of_tail hfits⟩
    | ok out =>
      obtain ⟨rest, hsplit, hspells, hends⟩ := nextToken_sound hnext
      obtain ⟨d, ds, htext, -⟩ := nextToken_complete hspells hends
      have hlen : rest.length < (c :: cs).length := by
        rw [hsplit, htext, List.length_append, List.length_cons]
        omega
      obtain ⟨ps, e, h⟩ := exists_splits rest
      exact ⟨⟨out.1, out.2⟩ :: ps, e, hsplit ▸ .cons _ hspells hends h⟩
termination_by t.length
decreasing_by exact hlen

/-! ## What the scanner answers -/

theorem Tail.nextToken_eq {e : Tail} (h : e.Fits) {cause : Cause} (hcause : e.cause? = some cause) :
    ∃ c cs, e.text = c :: cs ∧ nextToken c cs = .error cause := by
  cases e with
  | done => cases hcause
  | string body =>
    cases hcause
    refine ⟨'"', body, rfl, ?_⟩
    rw [nextToken_of_not_mark (by decide), show closeString ['"'] body = none from h]
    rfl
  | comment body =>
    cases hcause
    refine ⟨'x', 'X' :: body, rfl, ?_⟩
    have hopen : opensComment ('x' :: 'X' :: body) = true := rfl
    rw [nextToken_of_not_mark (by decide), if_pos hopen, List.drop_succ_cons, List.drop_zero,
      show closeComment ['X', 'x'] body = none from h]
  | refused c cs _ =>
    cases hcause
    exact ⟨c, cs, rfl, h.1⟩

/-- **What the scanner answers is told by the tail.** -/
theorem scanFrom_splits {e : Tail} : ∀ {ps : List Piece} {t : Text}, Splits t ps e → ∀ (line : Nat) (done : List Token),
    scanFrom line 0 done t = match e.cause? with
      | none => .ok (done.reverse ++ tokensOf line ps)
      | some cause => .error { cause, line := some ((line + (textOf ps).newlines : Nat) : Int) }
  | [], t, h, line, done => by
    have htext : t = e.text := h.text
    cases hcause : e.cause? with
    | none =>
      cases e with
      | done =>
        rw [htext, Tail.text, scanFrom, List.reverse_cons]
        rfl
      | _ => cases hcause
    | some cause =>
      obtain ⟨c, cs, hcs, hnext⟩ := Tail.nextToken_eq h.fits hcause
      rw [htext, hcs, scanFrom, hnext]
      rfl
  | p :: ps, t, h, line, done => by
    obtain ⟨htext, ⟨hspells, hends, hcut⟩, hfits⟩ := h
    obtain ⟨c, cs, hp, hnext⟩ := nextToken_complete hspells hends
    have hrest := scanFrom_splits ⟨rfl, hcut, hfits⟩ (line + p.text.newlines)
      (⟨p.kind, shownLexeme p.text, some (line : Int)⟩ :: done)
    rw [textOf_cons, List.append_assoc, hp] at htext
    rw [hp] at hnext hrest
    rw [htext, scanFrom_token line done hnext, hrest]
    cases e.cause? with
    | none =>
      rw [tokensOf, hp]
      simp
    | some cause =>
      rw [textOf_cons, hp, Text.newlines_append, Nat.add_assoc]

theorem scanText_splits {source : Text} {ps : List Piece} {e : Tail} (h : Splits (withoutReturns source) ps e) :
    scanText source = match e.cause? with
      | none => .ok (tokensOf 1 ps)
      | some cause => .error { cause, line := some ((1 + (textOf ps).newlines : Nat) : Int) } :=
  scanFrom_splits h 1 []

/-! ## Blanks -/

/-- The blanks that make tokens. -/
def IsSpace (c : Char) : Prop := c = ' ' ∨ c = '\t'

/-- A character that the scanner finds no token at, though it is a blank or may stand for help at a prompt. -/
structure Spoils (c : Char) : Prop where
  stray : isBlank c = true ∨ c = '?'
  notSpace : ¬ IsSpace c
  notNewline : c ≠ '\n'

def Piece.ofSpace (c : Char) : Piece := ⟨.blank, [c]⟩

theorem not_mem_marks_of_spoils {c : Char} (h : Spoils c) : c ∉ marks := by
  have hmarks : (marks.all fun d => !(isBlank d || d == '?') || d == ' ' || d == '\t' || d == '\n') = true := by decide
  intro hmem
  have hc := List.all_eq_true.1 hmarks c hmem
  have hstray : (isBlank c || c == '?') = true := by simpa using h.stray
  simp only [hstray, Bool.not_true, Bool.false_or, Bool.or_eq_true, beq_iff_eq] at hc
  rcases hc with hspace | hnl
  · exact h.notSpace hspace
  · exact h.notNewline hnl

theorem fits_of_spoils {c : Char} (h : Spoils c) (cs : Text) : (Tail.refused c cs (.unexpectedCharacter [c])).Fits := by
  have hclass : isLetter c = false ∧ isDigit c = false ∧ c ≠ 'x' ∧ c ≠ '"' := by
    rcases h.stray with hblank | rfl
    · obtain ⟨hword, hdigit⟩ := isAlphanumeric_of_isBlank hblank
      rw [isAlphanumeric, Bool.or_eq_false_iff, Bool.or_eq_false_iff] at hword
      have hx := ne_of_isBlank (e := 'x') hblank (by decide)
      have hquote := ne_of_isBlank (e := '"') hblank (by decide)
      exact ⟨hword.1.1, hdigit, by simpa using hx, by simpa using hquote⟩
    · exact ⟨by decide +kernel, by decide +kernel, by decide, by decide⟩
  obtain ⟨hletter, hdigit, hx, hquote⟩ := hclass
  have hopen : opensComment (c :: cs) = false := by
    refine Bool.eq_false_iff.2 (fun hopen => ?_)
    obtain ⟨rest, hrest⟩ := (opensComment_iff _).1 hopen
    cases hrest
    exact hx rfl
  refine ⟨?_, rfl⟩
  rw [nextToken_of_not_mark (not_mem_marks_of_spoils h), hopen, hletter, hdigit, if_neg (by decide), if_neg (by decide),
    if_neg (by decide), if_neg hquote]

/-- **A text with blanks before it** is split as it is alone, with a token for each blank, unless one of the blanks
makes no token. -/
theorem Splits.after_blanks {before : Text} (hblank : ∀ c ∈ before, isBlank c = true) (hnl : '\n' ∉ before) {t : Text}
    {ps : List Piece} {e : Tail} (h : Splits t ps e) :
    Splits (before ++ t) (before.map Piece.ofSpace ++ ps) e ∨
      ∃ qs c cs, c ∈ before ∧ Splits (before ++ t) qs (.refused c cs (.unexpectedCharacter [c])) := by
  induction before with
  | nil => exact .inl h
  | cons c before ih =>
    have hstep := ih (fun d hd => hblank d (List.mem_cons_of_mem _ hd)) (fun hd => hnl (List.mem_cons_of_mem _ hd))
    by_cases hc : IsSpace c
    · rcases hstep with hsplits | ⟨qs, d, ds, hd, hsplits⟩
      · exact .inl (hsplits.cons [c] (.blank hc) (fun _ _ => rfl))
      · exact .inr ⟨_, d, ds, List.mem_cons_of_mem _ hd, hsplits.cons [c] (.blank hc) (fun _ _ => rfl)⟩
    · have hspoils : Spoils c := ⟨.inl (hblank c List.mem_cons_self), hc, fun h => hnl (h ▸ List.mem_cons_self)⟩
      exact .inr ⟨[], c, before ++ t, List.mem_cons_self, .of_tail (fits_of_spoils hspoils _)⟩

/-! ## Strings and comments that are left open -/

theorem closeString_of_no_quote (seen t : Text) (h : '"' ∉ t) : closeString seen t = none := by
  fun_induction closeString seen t with
  | case1 => rfl
  | case2 seen cs => exact absurd List.mem_cons_self h
  | case3 seen c cs ih => exact ih (fun hmem => h (List.mem_cons_of_mem _ (List.mem_cons_of_mem _ hmem)))
  | case4 seen c cs _ _ ih => exact ih (fun hmem => h (List.mem_cons_of_mem _ hmem))

/-- An open string stays open if no quote follows. -/
theorem closeString_append_none {seen body : Text} (h : closeString seen body = none) {more : Text}
    (hmore : '"' ∉ more) : closeString seen (body ++ more) = none := by
  fun_induction closeString seen body with
  | case1 => exact closeString_of_no_quote _ _ hmore
  | case2 => cases h
  | case3 seen c cs ih =>
    rw [List.cons_append, List.cons_append, closeString]
    exact ih h
  | case4 seen c cs hq hb ih =>
    by_cases hc : c = '\\'
    · -- the body is a backslash, which takes the next character with it
      have hcs : cs = [] := by
        cases cs with
        | nil => rfl
        | cons d ds => exact absurd rfl (hb d ds hc)
      rw [hcs, hc]
      exact closeString_of_no_quote _ _ (List.not_mem_cons_of_ne_of_not_mem (by decide) hmore)
    · rw [List.cons_append, closeString_plain hq hc]
      exact ih h

theorem not_closing {c : Char} {cs : Text} (h : ∀ ds, c = 'X' → cs = 'x' :: ds → False) :
    ¬ (c = 'X' ∧ cs.head? = some 'x') := by
  rintro ⟨hX, hx⟩
  obtain ⟨ds, hds⟩ := List.head?_eq_some_iff.1 hx
  exact h ds hX hds

theorem closeComment_none_iff (seen seen' t : Text) : closeComment seen t = none ↔ closeComment seen' t = none := by
  fun_induction closeComment seen t generalizing seen' with
  | case1 => exact iff_of_true rfl rfl
  | case2 seen cs => exact iff_of_false (by simp) (by simp [closeComment])
  | case3 seen c cs hc ih =>
    rw [closeComment_cons (not_closing hc)]
    exact ih _

/-- An open comment stays open if none is closed in what follows, and nothing closes over the seam. -/
theorem closeComment_append_none {seen body : Text} (h : closeComment seen body = none) {more : Text}
    (hmore : closeComment seen more = none) (hhead : more.head? ≠ some 'x') :
    closeComment seen (body ++ more) = none := by
  fun_induction closeComment seen body with
  | case1 => exact hmore
  | case2 => cases h
  | case3 seen c cs hc ih =>
    have hseam : ¬ (c = 'X' ∧ (cs ++ more).head? = some 'x') := by
      cases cs with
      | nil => exact fun hclose => hhead hclose.2
      | cons d ds => exact (not_closing hc : ¬ (c = 'X' ∧ (d :: ds).head? = some 'x'))
    rw [List.cons_append, closeComment_cons hseam]
    exact ih h ((closeComment_none_iff _ _ _).1 hmore)

/-- Characters that cannot begin a closing mark are passed over. -/
theorem closeComment_skip (before : Text) (h : 'X' ∉ before) (seen t : Text) :
    closeComment seen (before ++ t) = none ↔ closeComment seen t = none := by
  induction before generalizing seen with
  | nil => exact Iff.rfl
  | cons c before ih =>
    obtain ⟨hc, hbefore⟩ := List.ne_and_not_mem_of_not_mem_cons h
    rw [List.cons_append, closeComment_cons (fun hclose => hc hclose.1.symm), ih hbefore]
    exact closeComment_none_iff _ _ _

/-- The closing mark of a comment stands behind them. -/
theorem exists_body_behind {before : Text} (h : 'X' ∉ before) {t body rest : Text} (hbody : IsCommentBody body)
    (ht : before ++ t = body ++ 'X' :: rest) : ∃ body', IsCommentBody body' ∧ t = body' ++ 'X' :: rest := by
  induction before generalizing body with
  | nil => exact ⟨body, hbody, ht⟩
  | cons c before ih =>
    cases body with
    | nil =>
      cases ht
      exact absurd List.mem_cons_self h
    | cons d body =>
      rw [List.cons_append, List.cons_append, List.cons.injEq] at ht
      exact ih (List.not_mem_of_not_mem_cons h) ((isCommentBody_cons d body).1 hbody).2 ht.2

theorem isCommentBody_append {body : Text} (before : Text) (h : 'X' ∉ before) (hbody : IsCommentBody body) :
    IsCommentBody (before ++ body) := by
  induction before with
  | nil => exact hbody
  | cons c before ih =>
    obtain ⟨hc, hbefore⟩ := List.ne_and_not_mem_of_not_mem_cons h
    exact (isCommentBody_cons c _).2 ⟨fun hclose => hc hclose.1.symm, ih hbefore⟩

/-- An open comment goes on over the end of its line. -/
theorem isCommentBody_resume {seen body : Text} (h : closeComment seen body = none) {next : Text}
    (hnext : IsCommentBody next) : IsCommentBody (body ++ '\n' :: next) := by
  fun_induction closeComment seen body with
  | case1 => exact (isCommentBody_cons _ _).2 ⟨fun hclose => absurd hclose.1 (by decide), hnext⟩
  | case2 => cases h
  | case3 seen c cs hc ih =>
    have hseam : ¬ (c = 'X' ∧ (cs ++ '\n' :: next ++ ['X', 'x']).head? = some 'x') := by
      cases cs with
      | nil => exact fun hclose => absurd (Option.some.inj hclose.2) (by decide)
      | cons d ds => exact (not_closing hc : ¬ (c = 'X' ∧ (d :: ds).head? = some 'x'))
    exact (isCommentBody_cons c _).2 ⟨hseam, ih h⟩

theorem Splits.comment {rest : Text} {ps : List Piece} {e : Tail} (h : Splits rest ps e) {body : Text}
    (hbody : IsCommentBody body) :
    Splits ('x' :: 'X' :: (body ++ 'X' :: 'x' :: rest)) (⟨.comment, 'x' :: 'X' :: body ++ ['X', 'x']⟩ :: ps) e := by
  have hsplits := h.cons _ (.comment hbody) (fun _ _ => rfl)
  rwa [List.cons_append, List.cons_append, List.cons_append, List.cons_append, List.append_assoc] at hsplits

end Loot
