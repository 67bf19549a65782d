import Loot.Proofs.Token.Spelling
/-!
# Programs in pieces

A text that can be scanned is cut into pieces, each spelled as a token of its kind and none able to
grow into the next.  Scanning finds the pieces and the pieces determine the scan (`scanText_eq_ok_iff`),
so nothing of a text is lost, every cut text is scanned, and a text fails to scan exactly if it has no
such cut.
-/
namespace Loot

/-- A kind of token, and the text of such a token as it stands in a program. -/
structure Piece where
  kind : Kind
  text : Text

def textOf (ps : List Piece) : Text := ps.flatMap Piece.text

/-- **Pieces in a row that make tokens**: each is spelled right and ends before the text of the others. -/
def Cut : List Piece → Prop
  | [] => True
  | p :: ps => Spells p.kind p.text ∧ p.kind.EndsBefore (textOf ps) ∧ Cut ps

/-- The tokens of pieces from the given line on, with the end of file after them. -/
def tokensOf (line : Nat) : List Piece → List Token
  | [] => [⟨.endOfFile, [], some line⟩]
  | p :: ps => ⟨p.kind, shownLexeme p.text, some line⟩ :: tokensOf (line + p.text.newlines) ps

/-! ## The scanner cuts a text -/

/-- Characters that belong to the token before are passed over. -/
theorem scanFrom_pending (line : Nat) (done : List Token) : ∀ (pending : Nat) (t : Text),
    scanFrom line pending done t = scanFrom line 0 done (t.drop pending)
  | 0, _ => rfl
  | _ + 1, [] => by rw [scanFrom, List.drop_nil, scanFrom]
  | pending + 1, _ :: cs => by rw [scanFrom, scanFrom_pending line done pending cs, List.drop_succ_cons]

theorem scanFrom_token (line : Nat) (done : List Token) {c : Char} {cs rest : Text} {kind : Kind}
    (h : nextToken c (cs ++ rest) = .ok (kind, c :: cs)) :
    scanFrom line 0 done (c :: cs ++ rest) =
      scanFrom (line + Text.newlines (c :: cs)) 0 (⟨kind, shownLexeme (c :: cs), some line⟩ :: done) rest := by
  rw [List.cons_append, scanFrom, h]
  simp only
  rw [scanFrom_pending, List.length_cons, Nat.add_sub_cancel, List.drop_left]

theorem scanFrom_complete : ∀ (ps : List Piece) (line : Nat) (done : List Token), Cut ps →
    scanFrom line 0 done (textOf ps) = .ok (done.reverse ++ tokensOf line ps)
  | [], line, done, _ => by
    rw [textOf, List.flatMap_nil, scanFrom, List.reverse_cons]
    rfl
  | p :: ps, line, done, ⟨hspells, hends, hcut⟩ => by
    obtain ⟨c, cs, htext, hnext⟩ := nextToken_complete hspells hends
    rw [htext] at hnext
    rw [textOf, List.flatMap_cons, ← textOf, htext, scanFrom_token line done hnext, scanFrom_complete ps _ _ hcut,
      tokensOf, htext]
    simp

theorem scanFrom_sound (t : Text) (line : Nat) (done ts : List Token) (h : scanFrom line 0 done t = .ok ts) :
    ∃ ps, Cut ps ∧ textOf ps = t ∧ ts = done.reverse ++ tokensOf line ps := by
  match t with
  | [] =>
    rw [scanFrom, List.reverse_cons] at h
    cases h
    exact ⟨[], trivial, rfl, rfl⟩
  | c :: cs =>
    have hstep := h
    rw [scanFrom] at hstep
    split at hstep
    · cases hstep
    · rename_i kind text hnext
      obtain ⟨rest, hsplit, hspells, hends⟩ := nextToken_sound hnext
      obtain ⟨c', cs', htext, -⟩ := nextToken_complete hspells hends
      subst htext
      -- the rest is shorter, because every token has at least one character
      have hlen : rest.length < (c :: cs).length := by
        rw [hsplit, List.length_append, List.length_cons]
        omega
      simp only [List.cons_append, List.cons.injEq] at hsplit
      obtain ⟨rfl, rfl⟩ := hsplit
      rw [← List.cons_append, scanFrom_token line done hnext] at h
      obtain ⟨ps, hcut, hps, hts⟩ := scanFrom_sound rest _ _ ts h
      refine ⟨⟨kind, c :: cs'⟩ :: ps, ⟨hspells, by rw [hps]; exact hends, hcut⟩, ?_, ?_⟩
      · rw [textOf, List.flatMap_cons, ← textOf, hps]
        rfl
      · rw [hts, tokensOf]
        simp
termination_by t.length

/-- **A scan is a cut of the text**, and every cut of the text is its scan. -/
theorem scanText_eq_ok_iff (source : Text) (ts : List Token) :
    scanText source = .ok ts ↔ ∃ ps, Cut ps ∧ textOf ps = withoutReturns source ∧ ts = tokensOf 1 ps := by
  unfold scanText
  constructor
  · exact scanFrom_sound _ 1 [] ts
  · rintro ⟨ps, hcut, htext, rfl⟩
    rw [← htext, scanFrom_complete ps 1 [] hcut]
    rfl

/-! ## Nothing is lost -/

/-- The text of a token as it stands in a program: a tab where four blanks are shown for it. -/
def Token.written (t : Token) : Text :=
  if t.kind = .blank ∧ t.lexeme = List.replicate 4 ' ' then ['\t'] else t.lexeme

theorem Spells.kind_of_tab {kind : Kind} (h : Spells kind ['\t']) : kind = .blank := by
  cases h with
  | fixed h => cases kind <;> cases h
  | blank _ => rfl
  | word h _ _ => exact absurd h (by decide)
  | number h _ _ => exact absurd h (by decide)

theorem Spells.text_of_blank {text : Text} (h : Spells .blank text) : text = [' '] ∨ text = ['\t'] := by
  generalize hk : Kind.blank = kind at h
  cases h with
  | fixed h => subst hk; cases h
  | blank hc => rcases hc with rfl | rfl <;> simp
  | @word c cs _ _ _ =>
    have := wordKind_growsBy (c :: cs) 'a'
    rw [← hk] at this
    exact absurd this (by decide)
  | number _ _ _ => cases hk
  | string _ => cases hk
  | comment _ => cases hk

theorem Spells.kind_ne_endOfFile {kind : Kind} {text : Text} (h : Spells kind text) : kind ≠ .endOfFile := by
  cases h with
  | fixed h => rintro rfl; cases h
  | blank _ => decide
  | @word c cs _ _ _ =>
    intro hk
    have := wordKind_growsBy (c :: cs) 'a'
    rw [hk] at this
    exact absurd this (by decide)
  | number _ _ _ => decide
  | string _ => decide
  | comment _ => decide

/-- A token of a piece gives the text of the piece back. -/
theorem Spells.written_shown {kind : Kind} {text : Text} (h : Spells kind text) (line : Line) :
    (Token.mk kind (shownLexeme text) line).written = text := by
  unfold Token.written shownLexeme
  by_cases htab : text = ['\t']
  · subst htab
    rw [h.kind_of_tab]
    rfl
  · simp only [htab, if_false]
    rw [if_neg]
    rintro ⟨rfl, rfl⟩
    rcases h.text_of_blank with h | h <;> cases h

theorem tokensOf_spec : ∀ (ps : List Piece) (line : Nat), Cut ps →
    ∃ body last, tokensOf line ps = body ++ [⟨.endOfFile, [], some last⟩] ∧
      body.map (fun t => Piece.mk t.kind t.written) = ps ∧ ∀ t ∈ body, t.lexeme = shownLexeme t.written
  | [], line, _ => ⟨[], line, rfl, rfl, fun _ h => nomatch h⟩
  | p :: ps, line, ⟨hspells, _, hcut⟩ => by
    obtain ⟨body, last, htokens, hmap, hshown⟩ := tokensOf_spec ps (line + p.text.newlines) hcut
    refine ⟨⟨p.kind, shownLexeme p.text, some line⟩ :: body, last, ?_, ?_, fun t ht => ?_⟩
    · rw [tokensOf, htokens, List.cons_append]
    · rw [List.map_cons, hmap, hspells.written_shown]
    · rcases List.mem_cons.1 ht with rfl | ht
      · rw [hspells.written_shown]
      · exact hshown t ht

theorem Cut.spells : ∀ {ps : List Piece}, Cut ps → ∀ p ∈ ps, Spells p.kind p.text
  | _ :: _, ⟨hspells, _, hcut⟩, p, hp => by
    rcases List.mem_cons.1 hp with rfl | hp
    · exact hspells
    · exact hcut.spells p hp

theorem Cut.endsBefore : ∀ {ps : List Piece}, Cut ps → ∀ before p after, ps = before ++ p :: after →
    p.kind.EndsBefore (textOf after)
  | [], _, before, p, after, hs => by simp at hs
  | q :: ps, ⟨_, hends, hcut⟩, before, p, after, hs => by
    cases before with
    | nil =>
      simp only [List.nil_append, List.cons.injEq] at hs
      obtain ⟨rfl, rfl⟩ := hs
      exact hends
    | cons r before =>
      simp only [List.cons_append, List.cons.injEq] at hs
      exact hcut.endsBefore before p after hs.2

/-- **Scanning loses nothing and takes as much as it can.**  The tokens of a text end in one end of file.
Those before it are spelled as their kind asks, four blanks standing for a tab, put together they are the text
without its returns, and none of them could have been longer. -/
theorem scanText_lossless {source : Text} {ts : List Token} (h : scanText source = .ok ts) :
    ∃ body last, ts = body ++ [⟨.endOfFile, [], some last⟩] ∧
      (∀ t ∈ body, t.kind ≠ .endOfFile) ∧
      body.flatMap Token.written = withoutReturns source ∧
      (∀ t ∈ body, Spells t.kind t.written ∧ t.lexeme = shownLexeme t.written) ∧
      ∀ before t after, body = before ++ t :: after → t.kind.EndsBefore (after.flatMap Token.written) := by
  obtain ⟨ps, hcut, htext, rfl⟩ := (scanText_eq_ok_iff source ts).1 h
  obtain ⟨body, last, htokens, rfl, hshown⟩ := tokensOf_spec ps 1 hcut
  have htextOf : ∀ l : List Token, textOf (l.map fun t => Piece.mk t.kind t.written) = l.flatMap Token.written :=
    fun l => List.flatMap_map _ _ l
  have hspells : ∀ t ∈ body, Spells t.kind t.written := fun t ht => hcut.spells _ (List.mem_map.2 ⟨t, ht, rfl⟩)
  refine ⟨body, last, htokens, fun t ht => (hspells t ht).kind_ne_endOfFile, ?_,
    fun t ht => ⟨hspells t ht, hshown t ht⟩, fun before t after hs => ?_⟩
  · rw [← htextOf, htext]
  · rw [← htextOf]
    exact hcut.endsBefore (before.map fun t => Piece.mk t.kind t.written) ⟨t.kind, t.written⟩ _ (by rw [hs]; simp)

/-- A tab between tokens is read back as one, and a tab in a string stays; the return is gone. -/
theorem scanText_lossless_tabs :
    ∃ body last, scanText "\"a\\\"\tb\"\t1\r\n".toList = .ok (body ++ [⟨.endOfFile, [], some last⟩]) ∧
      body.flatMap Token.written = "\"a\\\"\tb\"\t1\n".toList := by
  have hscan : (scanText "\"a\\\"\tb\"\t1\r\n".toList).toBool = true := by decide +kernel
  cases h : scanText "\"a\\\"\tb\"\t1\r\n".toList with
  | error f =>
    rw [h] at hscan
    cases hscan
  | ok ts =>
    obtain ⟨body, last, rfl, -, htext, -⟩ := scanText_lossless h
    exact ⟨body, last, rfl, by rw [htext]; decide⟩

/-! ## Everything that can be cut is scanned -/

/-- The causes of faults in the text of a program that no token can be made of. -/
def Cause.isLexical : Cause → Bool
  | .lexical _ | .unexpectedCharacter _ | .unterminatedString | .unterminatedComment | .invalidNumber _ => true
  | _ => false

theorem nextToken_error {c : Char} {cs : Text} {cause : Cause} (h : nextToken c cs = .error cause) :
    cause.isLexical = true := by
  simp only [nextToken] at h
  repeat' split at h
  all_goals cases h <;> rfl

theorem scanFrom_error (line pending : Nat) (done : List Token) (t : Text) {f : Fault}
    (h : scanFrom line pending done t = .error f) : f.cause.isLexical = true := by
  fun_induction scanFrom line pending done t with
  | case1 => cases h
  | case2 _ _ _ _ _ ih => exact ih h
  | case3 _ _ _ _ _ hnext =>
    cases h
    exact nextToken_error hnext
  | case4 _ _ _ _ _ _ _ _ ih => exact ih h

/-- The piece holds no character that is taken out of a text before it is scanned. -/
def Piece.HoldsNoReturn (p : Piece) : Prop := ∀ c ∈ p.text, c ≠ '\r' ∧ c ≠ '\x0b' ∧ c ≠ '\x0c'

theorem withoutReturns_eq_self_iff (t : Text) :
    withoutReturns t = t ↔ ∀ c ∈ t, c ≠ '\r' ∧ c ≠ '\x0b' ∧ c ≠ '\x0c' := by
  unfold withoutReturns
  rw [List.filter_eq_self]
  simp [and_assoc]

theorem withoutReturns_withoutReturns (t : Text) : withoutReturns (withoutReturns t) = withoutReturns t := by
  unfold withoutReturns
  rw [List.filter_filter]
  simp

theorem withoutReturns_textOf (ps : List Piece) :
    withoutReturns (textOf ps) = textOf ps ↔ ∀ p ∈ ps, p.HoldsNoReturn := by
  rw [withoutReturns_eq_self_iff]
  unfold textOf Piece.HoldsNoReturn
  constructor
  · intro h p hp c hc
    exact h c (List.mem_flatMap.2 ⟨p, hp, hc⟩)
  · intro h c hc
    obtain ⟨p, hp, hc⟩ := List.mem_flatMap.1 hc
    exact h p hp c hc

theorem tokensOf_kinds : ∀ (ps : List Piece) (line : Nat),
    (tokensOf line ps).map (fun t => (t.kind, t.lexeme)) =
      ps.map (fun p => (p.kind, shownLexeme p.text)) ++ [(.endOfFile, [])]
  | [], _ => rfl
  | p :: ps, line => by rw [tokensOf, List.map_cons, tokensOf_kinds ps, List.map_cons, List.cons_append]

/-- **Scanning finds every cut, and fails only where there is none.**  Pieces that hold no returns, are
spelled right and end before one another are scanned as they are, a tab shown as four blanks; and a text
is refused, as one that is no row of tokens, exactly if without its returns it is not the text of such pieces. -/
theorem scanText_finds_cut :
    (∀ ps : List Piece, Cut ps → (∀ p ∈ ps, p.HoldsNoReturn) → ∃ ts, scanText (textOf ps) = .ok ts ∧
      ts.map (fun t => (t.kind, t.lexeme)) = ps.map (fun p => (p.kind, shownLexeme p.text)) ++ [(.endOfFile, [])]) ∧
    ∀ source : Text, (∃ f, scanText source = .error f ∧ f.cause.isLexical = true) ↔
      ¬ ∃ ps : List Piece, Cut ps ∧ (∀ p ∈ ps, p.HoldsNoReturn) ∧ textOf ps = withoutReturns source := by
  refine ⟨fun ps hcut hreturns => ?_, fun source => ⟨?_, fun hnone => ?_⟩⟩
  · exact ⟨tokensOf 1 ps, (scanText_eq_ok_iff _ _).2 ⟨ps, hcut, ((withoutReturns_textOf ps).2 hreturns).symm, rfl⟩,
      tokensOf_kinds ps 1⟩
  · rintro ⟨f, hf, -⟩ ⟨ps, hcut, -, htext⟩
    rw [(scanText_eq_ok_iff source _).2 ⟨ps, hcut, htext, rfl⟩] at hf
    cases hf
  · cases hscan : scanText source with
    | error f => exact ⟨f, rfl, scanFrom_error _ _ _ _ hscan⟩
    | ok ts =>
      obtain ⟨ps, hcut, htext, -⟩ := (scanText_eq_ok_iff source ts).1 hscan
      refine absurd ⟨ps, hcut, (withoutReturns_textOf ps).1 ?_, htext⟩ hnone
      rw [htext, withoutReturns_withoutReturns]

/-- `hp`, a tab, `>` and `=` with a blank between them, and a string that holds a quote. -/
def apartPieces : List Piece :=
  [⟨.identifier, ['h', 'p']⟩, ⟨.blank, ['\t']⟩, ⟨.greater, ['>']⟩, ⟨.blank, [' ']⟩, ⟨.assign, ['=']⟩,
    ⟨.string, ['"', '\\', '"', '"']⟩]

theorem apartPieces_cut : Cut apartPieces := by
  have hword : Spells (wordKind ['h', 'p']) ['h', 'p'] := .word (by decide +kernel)
    (fun d hd => by cases List.mem_singleton.1 hd; decide +kernel) (by decide)
  have hstring : IsStringBody ['\\', '"'] := (isStringBody_escape '"' []).2 isStringBody_nil
  refine ⟨hword, ?_, .blank (.inr rfl), ?_, .fixed rfl, ?_, .blank (.inl rfl), ?_, .fixed rfl, ?_,
    .string hstring, ?_, trivial⟩ <;>
  · intro c hc
    cases hc <;> decide +kernel

theorem scanText_finds_cut_between_blanks :
    Cut apartPieces ∧ ∃ ts, scanText (textOf apartPieces) = .ok ts ∧ ts.map (fun t => (t.kind, t.lexeme)) =
      apartPieces.map (fun p => (p.kind, shownLexeme p.text)) ++ [(.endOfFile, [])] :=
  ⟨apartPieces_cut, scanText_finds_cut.1 apartPieces apartPieces_cut (by simp [Piece.HoldsNoReturn, apartPieces])⟩

end Loot
