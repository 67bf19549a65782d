import Loot.Proofs.Session.Stepping
import Loot.Proofs.Token.Splits
import Loot.Proofs.Tree.Thinned
/-!
# What cleaning does to the tokens of a line

A shell cleans the lines that it is given: it takes the blanks off their ends, drops blank lines, and puts a word for a
question mark in front.  What that does to a text of several lines depends on where its lines are broken.  Between
tokens and inside comments only blanks, comments and newlines in a row are gone (`line_step`, `blank_step`), as far as
the text itself has no character there that the scanner refuses.  Inside a string every character counts.
-/
namespace Loot

/-! ## The tokens of pieces -/

/-- The token of a piece, without its line. -/
def Piece.token (p : Piece) : Token := ⟨p.kind, shownLexeme p.text, none⟩

/-- The tokens of pieces as the grammar sees them, without their lines. -/
def grammarTokens (ps : List Piece) : List Token := (ps.filter fun p => !p.kind.isTrivia).map Piece.token

theorem grammarTokens_append (ps qs : List Piece) :
    grammarTokens (ps ++ qs) = grammarTokens ps ++ grammarTokens qs := by
  unfold grammarTokens
  rw [List.filter_append, List.map_append]

theorem grammarTokens_spaces (blanks : Text) : grammarTokens (blanks.map Piece.ofSpace) = [] := by
  unfold grammarTokens
  rw [List.map_eq_nil_iff, List.filter_eq_nil_iff]
  intro p hp
  obtain ⟨c, -, rfl⟩ := List.mem_map.1 hp
  exact Bool.false_ne_true

theorem dropTrivia_tokensOf (ps : List Piece) (line : Nat) :
    (dropTrivia (tokensOf line ps)).map Token.withoutLine = grammarTokens ps ++ [⟨.endOfFile, [], none⟩] := by
  induction ps generalizing line with
  | nil => rfl
  | cons p ps ih =>
    have hcons : ∀ ts, (dropTrivia (⟨p.kind, shownLexeme p.text, some (line : Int)⟩ :: ts)).map Token.withoutLine =
        grammarTokens [p] ++ (dropTrivia ts).map Token.withoutLine := by
      intro ts
      unfold dropTrivia grammarTokens
      rw [List.filter_cons, List.filter_cons]
      split <;> rfl
    rw [tokensOf, hcons, ih, ← List.append_assoc, ← grammarTokens_append, List.singleton_append]

theorem Splits.kind_grammarTokens {t : Text} {ps : List Piece} {e : Tail} (h : Splits t ps e) :
    ∀ u ∈ grammarTokens ps, u.kind ≠ .endOfFile := by
  intro u hu
  obtain ⟨p, hp, rfl⟩ := List.mem_map.1 hu
  exact (h.cut.spells p (List.mem_filter.1 hp).1).kind_ne_endOfFile

theorem dropTrivia_grammarTokens (ps : List Piece) : dropTrivia (grammarTokens ps) = grammarTokens ps := by
  unfold dropTrivia
  rw [List.filter_eq_self]
  intro u hu
  obtain ⟨p, hp, rfl⟩ := List.mem_map.1 hu
  exact (List.mem_filter.1 hp).2

theorem noLateClause_grammarTokens {ps : List Piece} {line : Nat} (h : NoLateClause (dropTrivia (tokensOf line ps))) :
    NoLateClause (grammarTokens ps) := by
  have hlineless := h.withoutLine
  rw [dropTrivia_tokensOf] at hlineless
  exact hlineless.of_append

/-! ## Kin -/

/-- **A verbatim text and what a shell keeps of it**, by their tokens and tails, given the characters that were lost and
the blanks that were taken off the end: they end alike, unless the verbatim text is refused for a character that the
shell took away. -/
inductive Kin (lost : Char → Prop) (after : Text) : List Piece → Tail → List Piece → Tail → Prop
  | done {ps qs : List Piece} : Thinned (grammarTokens ps) (grammarTokens qs) → Kin lost after ps .done qs .done
  | string {ps qs : List Piece} (body : Text) : Thinned (grammarTokens ps) (grammarTokens qs) →
      Kin lost after ps (.string (body ++ after)) qs (.string body)
  | comment {ps qs : List Piece} (body body' : Text) : Thinned (grammarTokens ps) (grammarTokens qs) →
      Kin lost after ps (.comment body) qs (.comment body')
  | refused {ps qs : List Piece} {c c' : Char} {cs cs' : Text} (cause : Cause) :
      Kin lost after ps (.refused c cs cause) qs (.refused c' cs' cause)
  | spoiled {ps : List Piece} {c : Char} {cs : Text} (qs : List Piece) (e : Tail) : lost c →
      Kin lost after ps (.refused c cs (.unexpectedCharacter [c])) qs e

theorem Kin.behind {lost : Char → Prop} {after : Text} {ps₀ qs₀ ps qs : List Piece} {e e' : Tail}
    (h₀ : Thinned (grammarTokens ps₀) (grammarTokens qs₀)) (h : Kin lost after ps e qs e') :
    Kin lost after (ps₀ ++ ps) e (qs₀ ++ qs) e' := by
  have happend : Thinned (grammarTokens ps) (grammarTokens qs) →
      Thinned (grammarTokens (ps₀ ++ ps)) (grammarTokens (qs₀ ++ qs)) := fun h => by
    rw [grammarTokens_append, grammarTokens_append]
    exact h₀.append h
  cases h with
  | done h => exact .done (happend h)
  | string body h => exact .string body (happend h)
  | comment body body' h => exact .comment body body' (happend h)
  | refused cause => exact .refused cause
  | spoiled _ _ hc => exact .spoiled _ _ hc

/-- Blanks in a line, which hold no newline. -/
structure Blanks (t : Text) : Prop where
  blank : ∀ c ∈ t, isBlank c = true
  oneLine : '\n' ∉ t

theorem Blanks.not_mem {t : Text} (h : Blanks t) {e : Char} (he : isBlank e = false) : e ∉ t := by
  intro hmem
  rw [h.blank e hmem] at he
  cases he

/-- Blanks close no comment. -/
theorem Blanks.closeComment_append {after : Text} (hafter : Blanks after) {seen t : Text}
    (h : closeComment seen t = none) : closeComment seen (t ++ after) = none := by
  have hblanks : closeComment seen (after ++ []) = none := (closeComment_skip after (hafter.not_mem rfl) _ _).2 rfl
  have hhead : after.head? ≠ some 'x' := fun hx => hafter.not_mem (e := 'x') rfl (List.mem_of_head? hx)
  rw [List.append_nil] at hblanks
  exact closeComment_append_none h hblanks hhead

/-- The texts are split as kin. -/
def AreKin (lost : Char → Prop) (after v w : Text) : Prop :=
  ∃ ps e qs e', Splits v ps e ∧ Splits w qs e' ∧ Kin lost after ps e qs e'

theorem AreKin.mono {lost lost' : Char → Prop} (hlost : ∀ c, lost c → lost' c) {after v w : Text}
    (h : AreKin lost after v w) : AreKin lost' after v w := by
  obtain ⟨ps, e, qs, e', hv, hw, hkin⟩ := h
  refine ⟨ps, e, qs, e', hv, hw, ?_⟩
  cases hkin with
  | done h => exact .done h
  | string body h => exact .string body h
  | comment body body' h => exact .comment body body' h
  | refused cause => exact .refused cause
  | spoiled _ _ hc => exact .spoiled _ _ (hlost _ hc)

/-- **Blanks at the end of a line** make no difference, but in an open string, or if one of them makes no token. -/
theorem areKin_trailing (t : Text) {after : Text} (hafter : Blanks after) {lost : Char → Prop}
    (hlost : ∀ c ∈ after, lost c) : AreKin lost after (t ++ after) t := by
  obtain ⟨qs, e, h⟩ := exists_splits t
  suffices hkin : ∃ ps e', Splits (t ++ after) ps e' ∧ Kin lost after ps e' qs e by
    obtain ⟨ps, e', hsplits, hkin⟩ := hkin
    exact ⟨ps, e', qs, e, hsplits, h, hkin⟩
  have hrefl := Thinned.refl (grammarTokens qs)
  cases e with
  | done =>
    have hnil : Splits [] [] .done := ⟨rfl, trivial, trivial⟩
    have hhead : ∀ d, after.head? = some d → isBlank d = true := fun d hd => hafter.blank d (List.mem_of_head? hd)
    rcases hnil.after_blanks hafter.blank hafter.oneLine with hspaces | ⟨ps, c, cs, hc, hspoiled⟩
    · rw [List.append_nil, List.append_nil] at hspaces
      refine ⟨_, _, h.resume (fun _ => hhead) hspaces, .done ?_⟩
      rw [grammarTokens_append, grammarTokens_spaces, List.append_nil]
      exact hrefl
    · rw [List.append_nil] at hspoiled
      exact ⟨_, _, h.resume (fun _ => hhead) hspoiled, .spoiled _ _ (hlost c hc)⟩
  | string body =>
    have hopen : (Tail.string (body ++ after)).Fits := closeString_append_none h.fits (hafter.not_mem rfl)
    have hsplits := h.resume (fun hnil => nomatch hnil) (.of_tail hopen)
    rw [List.append_nil] at hsplits
    exact ⟨qs, _, hsplits, .string body hrefl⟩
  | comment body =>
    have hopen : (Tail.comment (body ++ after)).Fits := hafter.closeComment_append h.fits
    have hsplits := h.resume (fun hnil => nomatch hnil) (.of_tail hopen)
    rw [List.append_nil] at hsplits
    exact ⟨qs, _, hsplits, .comment _ _ hrefl⟩
  | refused c cs cause =>
    obtain ⟨hnext, hcause⟩ := h.fits
    have hstill : (Tail.refused c (cs ++ after) cause).Fits := by
      refine ⟨?_, hcause⟩
      cases after with
      | nil => rwa [List.append_nil]
      | cons d after => exact nextToken_error_blank hnext hcause (hafter.blank d List.mem_cons_self) after
    have hsplits := h.resume (fun hnil => nomatch hnil) (.of_tail hstill)
    rw [List.append_nil] at hsplits
    exact ⟨qs, _, hsplits, .refused cause⟩

/-! ## A line more -/

/-- What a stripped line becomes: a question mark in front is short for help. -/
def expanded : Text → Text
  | '?' :: rest => "help ".toList ++ rest
  | stripped => stripped

theorem cleaned_eq (line : Text) : Shell.cleaned line = expanded line.strip := rfl

theorem expanded_of_head {t : Text} (h : t.head? ≠ some '?') : expanded t = t := by
  unfold expanded
  split
  · exact absurd rfl h
  · rfl

/-- What cleaning takes off a line of these parts. -/
def Lost (before core after : Text) (c : Char) : Prop :=
  c ∈ before ∨ core.head? = some '?' ∧ c = '?' ∨ c ∈ after

theorem lost_after (before core : Text) {after : Text} : ∀ c ∈ after, Lost before core after c :=
  fun _ hc => .inr (.inr hc)

/-- Kin behind whole tokens that agree are kin. -/
theorem AreKin.behind {lost : Char → Prop} {after v w : Text} {ps₀ qs₀ : List Piece} {e₀ e₀' : Tail}
    (hv : Splits v ps₀ e₀) (hw : Splits w qs₀ e₀') (hopen : e₀.text ≠ []) (hopen' : e₀'.text ≠ [])
    (h₀ : Thinned (grammarTokens ps₀) (grammarTokens qs₀)) {more more' : Text}
    (h : AreKin lost after (e₀.text ++ more) (e₀'.text ++ more')) : AreKin lost after (v ++ more) (w ++ more') := by
  obtain ⟨ps, e, qs, e', hps, hqs, hkin⟩ := h
  exact ⟨_, e, _, e', hv.resume (fun hnil => absurd hnil hopen) hps, hw.resume (fun hnil => absurd hnil hopen') hqs,
    hkin.behind h₀⟩

/-- **A line between tokens.** -/
theorem areKin_line {before : Text} (hbefore : Blanks before) (core : Text) {after : Text} (hafter : Blanks after) :
    AreKin (Lost before core after) after (before ++ (core ++ after)) (expanded core) := by
  by_cases hhead : core.head? = some '?'
  · obtain ⟨rest, rfl⟩ := List.head?_eq_some_iff.1 hhead
    obtain ⟨qs, e', hcore⟩ := exists_splits (expanded ('?' :: rest))
    have hmark : Spoils '?' := ⟨.inr rfl, by unfold IsSpace; decide, by decide⟩
    have hspoiled := Splits.of_tail (fits_of_spoils hmark (rest ++ after))
    rcases hspoiled.after_blanks hbefore.blank hbefore.oneLine with hsplits | ⟨ps, c, cs, hc, hsplits⟩
    · exact ⟨_, _, qs, e', hsplits, hcore, .spoiled _ _ (.inr (.inl ⟨rfl, rfl⟩))⟩
    · exact ⟨_, _, qs, e', hsplits, hcore, .spoiled _ _ (.inl hc)⟩
  · obtain ⟨ps, e, qs, e', hline, hcore, hkin⟩ := areKin_trailing core hafter (lost_after before core)
    rw [expanded_of_head hhead]
    rcases hline.after_blanks hbefore.blank hbefore.oneLine with hsplits | ⟨ps, c, cs, hc, hsplits⟩
    · have hspaces : Thinned (grammarTokens (before.map Piece.ofSpace)) (grammarTokens []) := by
        rw [grammarTokens_spaces]
        exact .nil
      exact ⟨_, _, _, _, hsplits, hcore, hkin.behind hspaces⟩
    · exact ⟨_, _, qs, e', hsplits, hcore, .spoiled _ _ (.inl hc)⟩

/-- The closing mark of a comment stands in a line where it stands in the cleaned line. -/
theorem exists_closing_of_expanded {core body rest : Text} (hbody : IsCommentBody body)
    (h : expanded core = body ++ 'X' :: 'x' :: rest) :
    ∃ body', IsCommentBody body' ∧ core = body' ++ 'X' :: 'x' :: rest := by
  by_cases hhead : core.head? = some '?'
  · obtain ⟨after, rfl⟩ := List.head?_eq_some_iff.1 hhead
    obtain ⟨body', hbody', hafter⟩ := exists_body_behind (by decide) hbody h
    exact ⟨'?' :: body', isCommentBody_append ['?'] (by decide) hbody', congrArg ('?' :: ·) hafter⟩
  · rw [expanded_of_head hhead] at h
    exact ⟨body, hbody, h⟩

theorem closeComment_of_expanded {seen core : Text} (h : closeComment seen (expanded core) = none) :
    closeComment seen core = none := by
  by_cases hhead : core.head? = some '?'
  · obtain ⟨rest, rfl⟩ := List.head?_eq_some_iff.1 hhead
    have hrest : closeComment seen rest = none := (closeComment_skip "help ".toList (by decide) seen rest).1 h
    exact (closeComment_skip ['?'] (by decide) seen rest).2 hrest
  · rwa [expanded_of_head hhead] at h

theorem fits_comment_line {body t : Text} (hbody : (Tail.comment body).Fits) (ht : closeComment ['X', 'x'] t = none) :
    (Tail.comment (body ++ '\n' :: t)).Fits :=
  closeComment_append_none hbody ((closeComment_skip ['\n'] (by decide) _ _).2 ht) (fun hx => nomatch hx)

/-- **A line in a comment**, of whatever text the comment has so far. -/
theorem areKin_comment {body body' before : Text} (hopen : (Tail.comment body).Fits)
    (hopen' : (Tail.comment body').Fits) (hbefore : Blanks before) (core : Text) {after : Text}
    (hafter : Blanks after) :
    AreKin (Lost before core after) after ((Tail.comment body).text ++ '\n' :: (before ++ (core ++ after)))
      ((Tail.comment body').text ++ '\n' :: expanded core) := by
  have hX : 'X' ∉ before := hbefore.not_mem rfl
  cases hclose : closeComment ['X', 'x'] (expanded core) with
  | none =>
    have hline : closeComment ['X', 'x'] (before ++ (core ++ after)) = none :=
      (closeComment_skip before hX _ _).2 (hafter.closeComment_append (closeComment_of_expanded hclose))
    exact ⟨[], _, [], _, .of_tail (fits_comment_line hopen hline), .of_tail (fits_comment_line hopen' hclose),
      .comment _ _ .nil⟩
  | some text =>
    obtain ⟨typed, rest, hcore', htyped, -⟩ := closeComment_sound _ _ hclose
    obtain ⟨verbatim, hverbatim, hcore⟩ := exists_closing_of_expanded htyped hcore'
    obtain ⟨ps, e, qs, e', hps, hqs, hkin⟩ := areKin_trailing rest hafter (lost_after before core)
    have hleft := hps.comment (isCommentBody_resume hopen (isCommentBody_append before hX hverbatim))
    have hright := hqs.comment (isCommentBody_resume hopen' htyped)
    have hcomments : ∀ t u : Text, Thinned (grammarTokens [⟨.comment, t⟩]) (grammarTokens [⟨.comment, u⟩]) :=
      fun _ _ => .nil
    have htext : (Tail.comment body).text ++ '\n' :: (before ++ (core ++ after)) =
        'x' :: 'X' :: (body ++ '\n' :: (before ++ verbatim) ++ 'X' :: 'x' :: (rest ++ after)) := by
      simp [Tail.text, hcore]
    have htext' : (Tail.comment body').text ++ '\n' :: expanded core =
        'x' :: 'X' :: (body' ++ '\n' :: typed ++ 'X' :: 'x' :: rest) := by
      simp [Tail.text, hcore']
    rw [htext, htext']
    exact ⟨_, _, _, _, hleft, hright, hkin.behind (hcomments _ _)⟩

/-! ## Breaks -/

/-- **A verbatim text and what a shell keeps of it, before another line.**  Between tokens the text may have more
newlines at its end. -/
inductive AtBreak : List Piece → Tail → List Piece → Tail → Prop
  | code {ps qs : List Piece} :
      Thinned (grammarTokens (ps ++ [.newline])) (grammarTokens (qs ++ [.newline])) → AtBreak ps .done qs .done
  | string {ps qs : List Piece} (body : Text) : Thinned (grammarTokens ps) (grammarTokens qs) →
      AtBreak ps (.string body) qs (.string body)
  | comment {ps qs : List Piece} (body body' : Text) : Thinned (grammarTokens ps) (grammarTokens qs) →
      AtBreak ps (.comment body) qs (.comment body')

section Step

variable {v w : Text} {ps qs : List Piece} {e e' : Tail} (hv : Splits v ps e) (hw : Splits w qs e')
  (h : AtBreak ps e qs e') {before : Text} (hbefore : Blanks before)

include hv hw h hbefore

/-- **A line more**: in a string, no blanks may be taken off its front, and no question mark. -/
theorem line_step (core : Text) {after : Text} (hafter : Blanks after)
    (hstring : ∀ body, e = .string body → before = [] ∧ core.head? ≠ some '?') :
    AreKin (Lost before core after) after (v ++ '\n' :: (before ++ (core ++ after))) (w ++ '\n' :: expanded core) := by
  cases h with
  | code hthin =>
    obtain ⟨ps₁, e₁, qs₁, e₁', hline, htyped, hkin⟩ := areKin_line hbefore core hafter
    have hblank : ∀ more d, ('\n' :: more : Text).head? = some d → isBlank d = true := by
      rintro more d hd
      cases hd
      decide
    refine ⟨_, _, _, _, hv.resume (fun _ => hblank _) hline.newline, hw.resume (fun _ => hblank _) htyped.newline, ?_⟩
    have hbehind := hkin.behind hthin
    rwa [List.append_assoc, List.append_assoc] at hbehind
  | string body hthin =>
    obtain ⟨hnil, hhead⟩ := hstring body rfl
    rw [hnil, expanded_of_head hhead]
    refine AreKin.behind hv hw (by simp [Tail.text]) (by simp [Tail.text]) hthin ?_
    have htrailing := areKin_trailing ((Tail.string body).text ++ '\n' :: core) hafter (lost_after [] core)
    rwa [List.append_assoc] at htrailing
  | comment body body' hthin =>
    exact AreKin.behind hv hw (by simp [Tail.text]) (by simp [Tail.text]) hthin
      (areKin_comment hv.fits hw.fits hbefore core hafter)

/-- **A blank line more**, which a shell drops. -/
theorem blank_step (hstring : ∀ body, e ≠ .string body) :
    ∃ ps₁ e₁, Splits (v ++ '\n' :: before) ps₁ e₁ ∧
      (AtBreak ps₁ e₁ qs e' ∨ ∃ c cs, c ∈ before ∧ e₁ = .refused c cs (.unexpectedCharacter [c])) := by
  cases h with
  | code hthin =>
    have hnil : Splits [] [] .done := ⟨rfl, trivial, trivial⟩
    have hblank : ∀ d, ('\n' :: before : Text).head? = some d → isBlank d = true := by
      rintro d hd
      cases hd
      decide
    rcases hnil.after_blanks hbefore.blank hbefore.oneLine with hspaces | ⟨ps₁, c, cs, hc, hspoiled⟩
    · rw [List.append_nil, List.append_nil] at hspaces
      refine ⟨_, _, hv.resume (fun _ => hblank) hspaces.newline, .inl (.code ?_)⟩
      have htokens : grammarTokens (ps ++ (.newline :: before.map Piece.ofSpace) ++ [.newline]) =
          grammarTokens (ps ++ [.newline]) ++ [Piece.newline.token] := by
        have hcons : grammarTokens (.newline :: before.map Piece.ofSpace) = [Piece.newline.token] :=
          congrArg (Piece.newline.token :: ·) (grammarTokens_spaces before)
        rw [grammarTokens_append, grammarTokens_append, hcons, grammarTokens_append]
        rfl
      have hlast : (grammarTokens (ps ++ [.newline])).getLast? = some Piece.newline.token := by
        rw [grammarTokens_append]
        exact List.getLast?_concat
      rw [htokens]
      exact hthin.drop_last hlast rfl
    · rw [List.append_nil] at hspoiled
      exact ⟨_, _, hv.resume (fun _ => hblank) hspoiled.newline, .inr ⟨c, cs, hc, rfl⟩⟩
  | string body _ => exact absurd rfl (hstring body)
  | comment body body' hthin =>
    have hopen := fits_comment_line hv.fits (hbefore.closeComment_append (t := []) rfl)
    have hsplits := hv.resume (fun hnil => nomatch hnil) (.of_tail hopen)
    rw [List.append_nil] at hsplits
    exact ⟨ps, _, hsplits, .inl (.comment _ _ hthin)⟩

end Step

end Loot
