import Loot.Display.Highlight
import Loot.Proofs.Token.Lines
/-!
# Highlighted text read back

A terminal takes an escape character, a bracket, digits and semicolons, and an `m` for a change of style, and shows
what is left without them (`plainText`).  Of a painter only this is used, that it puts such changes around a text
(`Painter.Wraps`).  The highlighted text of a program is left as its lexemes, one after another, if none of them holds
an escape character (`plainText_terminalText`).  Lexemes show four blanks for a tab, and blanks
end a token wherever a tab does, so the text that is left is scanned as the program was, with a token for each blank
(`scanText_shown`).
-/
namespace Loot

/-! ## Text without its styles -/

/-- May the character stand between the bracket and the `m` of a change of style? -/
def isStyleParameter (c : Char) : Bool := c.isDigit || c == ';'

/-- The length of the change of style that a text begins with, if it begins with one. -/
def styleLength? : Text → Option Nat
  | '\x1b' :: '[' :: cs =>
    if (cs.dropWhile isStyleParameter).head? = some 'm' then some ((cs.takeWhile isStyleParameter).length + 3)
    else none
  | _ => none

/-- Leaves out the changes of style from a place on.  The first `pending` characters belong to the change before. -/
def plainFrom : (pending : Nat) → Text → Text
  | _, [] => []
  | pending + 1, _ :: cs => plainFrom pending cs
  | 0, c :: cs =>
    match styleLength? (c :: cs) with
    | some n => plainFrom (n - 1) cs
    | none => c :: plainFrom 0 cs

/-- **The text without its changes of style.** -/
def plainText (t : Text) : Text := plainFrom 0 t

theorem plainFrom_pending : ∀ (pending : Nat) (t : Text), plainFrom pending t = plainFrom 0 (t.drop pending)
  | 0, _ => rfl
  | _ + 1, [] => by rw [plainFrom, List.drop_nil, plainFrom]
  | pending + 1, _ :: cs => by rw [plainFrom, plainFrom_pending pending cs, List.drop_succ_cons]

/-- The change of style ends at its `m`, whatever comes after it. -/
theorem plainText_style {params : Text} (h : ∀ c ∈ params, isStyleParameter c = true) (rest : Text) :
    plainText ('\x1b' :: '[' :: params ++ ['m'] ++ rest) = plainText rest := by
  have hm : ¬ isStyleParameter 'm' = true := by decide
  have hlength : styleLength? ('\x1b' :: '[' :: (params ++ 'm' :: rest)) = some (params.length + 3) := by
    rw [styleLength?, List.dropWhile_append_of_pos h, List.takeWhile_append_of_pos h, List.dropWhile_cons_of_neg hm,
      List.takeWhile_cons_of_neg hm, List.append_nil]
    rfl
  have hdrop : ('[' :: (params ++ 'm' :: rest)).drop (params.length + 3 - 1) = rest := by
    have hsplit : '[' :: (params ++ 'm' :: rest) = ('[' :: params ++ ['m']) ++ rest := by simp
    rw [hsplit]
    exact List.drop_left' (by simp)
  have htext : '\x1b' :: '[' :: params ++ ['m'] ++ rest = '\x1b' :: '[' :: (params ++ 'm' :: rest) := by simp
  rw [htext, plainText, plainFrom, hlength]
  simp only
  rw [plainFrom_pending, hdrop]
  rfl

theorem plainText_char {c : Char} (hc : c ≠ '\x1b') (rest : Text) : plainText (c :: rest) = c :: plainText rest := by
  have hnone : styleLength? (c :: rest) = none := by
    unfold styleLength?
    split
    · rename_i h
      cases h
      exact absurd rfl hc
    · rfl
  rw [plainText, plainFrom, hnone]
  rfl

/-- A text without escape characters is kept as it is. -/
theorem plainText_chars (rest : Text) : ∀ {t : Text}, '\x1b' ∉ t → plainText (t ++ rest) = t ++ plainText rest
  | [], _ => rfl
  | c :: cs, h => by
    rw [List.mem_cons, not_or] at h
    rw [List.cons_append, plainText_char (Ne.symm h.1), plainText_chars rest h.2, List.cons_append]

theorem plainText_escapeSequence (n : Nat) (rest : Text) : plainText (Text.escapeSequence n ++ rest) = plainText rest :=
  plainText_style (fun _ hc => by
    rw [isStyleParameter, Nat.isDigit_of_mem_toDigits (by decide) (by decide) hc]
    rfl) rest

theorem plainText_escapeSequences (rest : Text) : ∀ codes : List Nat,
    plainText (codes.flatMap Text.escapeSequence ++ rest) = plainText rest
  | [] => rfl
  | n :: codes => by
    rw [List.flatMap_cons, List.append_assoc, plainText_escapeSequence, plainText_escapeSequences rest codes]

/-! ## Painters -/

/-- **The painter wraps a text**: changes of style stand before it, and one that ends them after it. -/
def Painter.Wraps (paint : Painter) : Prop := ∀ style t, ∃ codes : List Nat,
  paint style t = codes.flatMap Text.escapeSequence ++ t ++ Text.escapeSequence 0

theorem Painter.wraps_ansi : Painter.ansi.Wraps := fun _ _ => ⟨_, rfl⟩

section Painted

variable {paint : Painter} (hpaint : paint.Wraps)

include hpaint

theorem plainText_paint (style : Style) {t : Text} (h : '\x1b' ∉ t) (rest : Text) :
    plainText (paint style t ++ rest) = t ++ plainText rest := by
  obtain ⟨codes, hcodes⟩ := hpaint style t
  rw [hcodes, List.append_assoc, List.append_assoc, plainText_escapeSequences, plainText_chars _ h,
    plainText_escapeSequence]

theorem Token.plainText_painted {t : Token} (h : '\x1b' ∉ t.lexeme) (rest : Text) :
    plainText (t.painted paint ++ rest) = t.lexeme ++ plainText rest := by
  unfold Token.painted
  split
  · exact plainText_chars rest h
  · exact plainText_chars rest h
  · exact plainText_chars rest h
  · exact plainText_paint hpaint _ h rest

/-- **Without its changes of style, a highlighted program is its lexemes.** -/
theorem plainText_terminalText : ∀ {ts : List Token}, (∀ t ∈ ts, '\x1b' ∉ t.lexeme) →
    plainText (terminalText ts paint) = ts.flatMap Token.lexeme
  | [], _ => rfl
  | t :: ts, h => by
    obtain ⟨ht, hts⟩ := List.forall_mem_cons.1 h
    have hrest := plainText_terminalText hts
    rw [terminalText] at hrest ⊢
    rw [List.flatMap_cons, Token.plainText_painted hpaint ht, hrest, List.flatMap_cons]

end Painted

/-! ## The lexemes as a program

A lexeme is the text of its piece, or four blanks for a tab. -/

/-- The pieces that the text shown for a piece is cut into. -/
def Piece.shown (p : Piece) : List Piece := (if p.text = ['\t'] then List.replicate 4 ⟨.blank, [' ']⟩ else [p])

/-- The tokens that the lexeme of a token is cut into: one for each blank, and itself if it is no blank. -/
def Token.shown (t : Token) : List Token :=
  if t.kind = .blank then t.lexeme.map fun c => { t with lexeme := [c] } else [t]

theorem textOf_shown (p : Piece) : textOf p.shown = shownLexeme p.text := by
  unfold Piece.shown shownLexeme
  split
  · rfl
  · exact List.append_nil p.text

theorem lexemes_tokensOf : ∀ (ps : List Piece) (line : Nat),
    (tokensOf line ps).flatMap Token.lexeme = textOf (ps.flatMap Piece.shown)
  | [], _ => rfl
  | p :: ps, line => by
    rw [tokensOf, List.flatMap_cons, lexemes_tokensOf ps, List.flatMap_cons, textOf_append, textOf_shown]

/-- The text shown for a text begins as it does, or with a blank. -/
theorem head?_shown {ps : List Piece} (hps : Cut ps) {c : Char} (h : (textOf (ps.flatMap Piece.shown)).head? = some c) :
    (textOf ps).head? = some c ∨ isBlank c = true := by
  cases ps with
  | nil => exact .inl h
  | cons p ps =>
    rw [List.flatMap_cons, textOf_append, textOf_shown] at h
    by_cases htab : p.text = ['\t']
    · rw [htab] at h
      cases h
      exact .inr (by decide)
    · obtain ⟨hspells, hends, -⟩ := hps
      obtain ⟨d, ds, htext, -⟩ := nextToken_complete hspells hends
      rw [shownLexeme, if_neg htab, htext] at h
      rw [textOf_cons, htext]
      exact .inl h

/-- **What is shown for a cut text is cut**, each tab into four blanks. -/
theorem Cut.shown : ∀ {ps : List Piece}, Cut ps → Cut (ps.flatMap Piece.shown)
  | [], _ => trivial
  | p :: ps, ⟨hspells, hends, hcut⟩ => by
    have hrest := hcut.shown
    rw [List.flatMap_cons, Piece.shown]
    split
    · have hblank : Spells .blank [' '] := .blank (.inl rfl)
      exact ⟨hblank, fun _ _ => rfl, hblank, fun _ _ => rfl, hblank, fun _ _ => rfl, hblank, fun _ _ => rfl, hrest⟩
    · refine ⟨hspells, fun c hc => ?_, hrest⟩
      rcases head?_shown hcut hc with hhead | hblank
      · exact hends c hhead
      · exact p.kind.growsBy_of_isBlank hblank

theorem tokensOf_shown : ∀ {ps : List Piece}, Cut ps → ∀ line : Nat,
    tokensOf line (ps.flatMap Piece.shown) = (tokensOf line ps).flatMap Token.shown
  | [], _, _ => rfl
  | p :: ps, ⟨hspells, _, hcut⟩, line => by
    obtain ⟨kind, text⟩ := p
    rw [List.flatMap_cons, tokensOf, List.flatMap_cons, ← tokensOf_shown hcut, Piece.shown, Token.shown]
    by_cases htab : text = ['\t']
    · subst htab
      cases hspells.kind_of_tab
      rfl
    · simp only [htab, if_false, shownLexeme, List.singleton_append, tokensOf]
      by_cases hkind : kind = .blank
      · subst hkind
        have hspace : text = [' '] := hspells.text_of_blank.resolve_right htab
        rw [hspace]
        rfl
      · simp only [hkind, if_false, List.singleton_append]

/-- No character that is taken out before scanning is shown. -/
theorem holdsNoReturn_shown {ps : List Piece} (h : ∀ p ∈ ps, p.HoldsNoReturn) :
    ∀ q ∈ ps.flatMap Piece.shown, q.HoldsNoReturn := by
  intro q hq
  obtain ⟨p, hp, hmem⟩ := List.mem_flatMap.1 hq
  unfold Piece.shown at hmem
  split at hmem
  · rw [List.eq_of_mem_replicate hmem]
    exact fun c hc => by cases List.mem_singleton.1 hc; decide
  · rw [List.mem_singleton.1 hmem]
    exact h p hp

/-- **The lexemes of a program are scanned as the program was**, with a token for each blank. -/
theorem scanText_shown {source : Text} {ts : List Token} (h : scanText source = .ok ts) :
    scanText (ts.flatMap Token.lexeme) = .ok (ts.flatMap Token.shown) := by
  obtain ⟨ps, hcut, htext, rfl⟩ := (scanText_eq_ok_iff source ts).1 h
  have hreturns : ∀ p ∈ ps, p.HoldsNoReturn :=
    (withoutReturns_textOf ps).1 (by rw [htext, withoutReturns_withoutReturns])
  refine (scanText_eq_ok_iff _ _).2 ⟨ps.flatMap Piece.shown, hcut.shown, ?_, (tokensOf_shown hcut 1).symm⟩
  rw [lexemes_tokensOf, (withoutReturns_textOf _).2 (holdsNoReturn_shown hreturns)]

theorem dropTrivia_shown : ∀ ts : List Token, dropTrivia (ts.flatMap Token.shown) = dropTrivia ts
  | [] => rfl
  | t :: ts => by
    have htoken : dropTrivia t.shown = dropTrivia [t] := by
      unfold Token.shown
      split
      · rename_i hkind
        have htrivia : t.kind.isTrivia = true := by rw [hkind]; rfl
        rw [dropTrivia, dropTrivia, List.filter_cons_of_neg (by rw [htrivia]; decide), List.filter_nil,
          List.filter_eq_nil_iff]
        intro u hu
        obtain ⟨c, -, rfl⟩ := List.mem_map.1 hu
        rw [htrivia]
        decide
      · rfl
    have hrest := dropTrivia_shown ts
    unfold dropTrivia at *
    rw [List.flatMap_cons, List.filter_append, hrest, htoken, ← List.filter_append, List.singleton_append]

/-- A lexeme holds nothing but blanks and what the text holds. -/
theorem mem_source_of_mem_lexeme {source : Text} {ts : List Token} (h : scanText source = .ok ts) {t : Token}
    (ht : t ∈ ts) {c : Char} (hc : c ∈ t.lexeme) : c = ' ' ∨ c ∈ source := by
  obtain ⟨ps, -, htext, rfl⟩ := (scanText_eq_ok_iff source ts).1 h
  have hmem : c ∈ textOf (ps.flatMap Piece.shown) := by
    rw [← lexemes_tokensOf ps 1]
    exact List.mem_flatMap.2 ⟨t, ht, hc⟩
  obtain ⟨q, hq, hcq⟩ := List.mem_flatMap.1 hmem
  obtain ⟨p, hp, hqp⟩ := List.mem_flatMap.1 hq
  unfold Piece.shown at hqp
  split at hqp
  · rw [List.eq_of_mem_replicate hqp] at hcq
    exact .inl (List.mem_singleton.1 hcq)
  · rw [List.mem_singleton.1 hqp] at hcq
    have hsource : c ∈ withoutReturns source := htext ▸ List.mem_flatMap.2 ⟨p, hp, hcq⟩
    exact .inr (List.mem_filter.1 hsource).1

/-- **Highlighting for a terminal keeps the program**, by any painter that wraps texts.  If a text without escape
characters can be scanned, the highlighted text is, without its changes of style, the lexemes one after another: the
text without its returns, where four blanks stand for each tab between tokens.  Scanned again it gives the same tokens,
lines included, but for a token for each of these blanks, and so the same tokens of the grammar. -/
theorem terminalText_read_back {paint : Painter} (hpaint : paint.Wraps) {source : Text} {ts : List Token}
    (hescape : '\x1b' ∉ source) (h : scanText source = .ok ts) :
    plainText (terminalText ts paint) = ts.flatMap Token.lexeme ∧
      (∃ ps, Cut ps ∧ textOf ps = withoutReturns source ∧
        plainText (terminalText ts paint) = textOf (ps.flatMap Piece.shown)) ∧
      scanText (plainText (terminalText ts paint)) = .ok (ts.flatMap Token.shown) ∧
      dropTrivia (ts.flatMap Token.shown) = dropTrivia ts := by
  have hplain : plainText (terminalText ts paint) = ts.flatMap Token.lexeme := by
    refine plainText_terminalText hpaint fun t ht hc => ?_
    rcases mem_source_of_mem_lexeme h ht hc with hblank | hsource
    · cases hblank
    · exact hescape hsource
  refine ⟨hplain, ?_, hplain ▸ scanText_shown h, dropTrivia_shown ts⟩
  obtain ⟨ps, hcut, htext, rfl⟩ := (scanText_eq_ok_iff source ts).1 h
  exact ⟨ps, hcut, htext, hplain.trans (lexemes_tokensOf ps 1)⟩

/-- Tabs between tokens, in a string and in a comment, and texts that look like the rest of a change of style. -/
def gaudyText : Text := "loot\thp =\r \"[0m\t\" xX31m\n\tXx\n\t>=".toList

theorem terminalText_read_back_tabs :
    ∃ ts us, scanText gaudyText = .ok ts ∧
      plainText (terminalText ts .ansi) = "loot    hp = \"[0m\t\" xX31m\n\tXx\n    >=".toList ∧
      scanText (plainText (terminalText ts .ansi)) = .ok us ∧ dropTrivia us = dropTrivia ts := by
  have hscan : (scanText gaudyText).toOption.map (·.flatMap Token.lexeme) =
      some "loot    hp = \"[0m\t\" xX31m\n\tXx\n    >=".toList := by decide +kernel
  cases h : scanText gaudyText with
  | error f =>
    rw [h] at hscan
    cases hscan
  | ok ts =>
    obtain ⟨hplain, -, hagain, htrivia⟩ := terminalText_read_back Painter.wraps_ansi (by decide) h
    rw [h] at hscan
    exact ⟨ts, _, rfl, hplain.trans (Option.some.inj hscan), hagain, htrivia⟩

end Loot
