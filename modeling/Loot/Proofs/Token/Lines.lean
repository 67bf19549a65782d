import Loot.Proofs.Token.Pieces
/-!
# The lines of tokens

A token is on the line that the newlines before it make, so every token, and every place where scanning fails,
is on a line of the text (`scanText_scanned`, `scanText_error`).  A newline between two texts is a token between
theirs, and moves the tokens of the second down (`scanText_joined`).  A fault of the first stays, unless it was a
string or a comment that is not closed (`scanText_error_newline`).
-/
namespace Loot

theorem Text.newlines_append (a b : Text) : Text.newlines (a ++ b) = Text.newlines a + Text.newlines b :=
  List.count_append

theorem newlines_withoutReturns (t : Text) : (withoutReturns t).newlines = t.newlines := by
  unfold withoutReturns Text.newlines
  exact List.count_filter rfl

theorem textOf_cons (p : Piece) (ps : List Piece) : textOf (p :: ps) = p.text ++ textOf ps := List.flatMap_cons

theorem textOf_append (ps qs : List Piece) : textOf (ps ++ qs) = textOf ps ++ textOf qs := List.flatMap_append

/-! ## Every line is a line of the text -/

/-- The line is known, and it is one of those of a text with so many newlines. -/
def Line.IsWithin (line : Line) (newlines : Nat) : Prop := ∃ n : Nat, line = some (n : Int) ∧ 1 ≤ n ∧ n ≤ 1 + newlines

theorem Line.IsWithin.mono {line : Line} {k l : Nat} (h : line.IsWithin k) (hkl : k ≤ l) : line.IsWithin l := by
  obtain ⟨n, hn, hlow, hhigh⟩ := h
  exact ⟨n, hn, hlow, by omega⟩

theorem tokensOf_line : ∀ (ps : List Piece) (line : Nat), ∀ t ∈ tokensOf line ps,
    ∃ n : Nat, t.line = some (n : Int) ∧ line ≤ n ∧ n ≤ line + (textOf ps).newlines
  | [], line, t, ht => by
    rw [List.mem_singleton.1 ht]
    exact ⟨line, rfl, Nat.le_refl _, Nat.le_add_right _ _⟩
  | p :: ps, line, t, ht => by
    rw [textOf_cons, Text.newlines_append]
    rcases List.mem_cons.1 ht with rfl | ht
    · exact ⟨line, rfl, Nat.le_refl _, Nat.le_add_right _ _⟩
    · obtain ⟨n, hn, hlow, hhigh⟩ := tokensOf_line ps _ t ht
      exact ⟨n, hn, by omega, by omega⟩

theorem scanFrom_error_line (line pending : Nat) (done : List Token) (t : Text) {f : Fault}
    (h : scanFrom line pending done t = .error f) : f.isInternal = false ∧
      ∃ n : Nat, f.line = some (n : Int) ∧ line ≤ n ∧ n ≤ line + Text.newlines (t.drop pending) := by
  fun_induction scanFrom line pending done t with
  | case1 => cases h
  | case2 _ _ _ _ _ ih => exact ih h
  | case3 line _ _ _ _ _ =>
    cases h
    exact ⟨rfl, line, rfl, Nat.le_refl _, Nat.le_add_right _ _⟩
  | case4 line done c cs kind text hnext token ih =>
    obtain ⟨hinternal, n, hn, hlow, hhigh⟩ := ih h
    obtain ⟨rest, hsplit, hspells, hends⟩ := nextToken_sound hnext
    obtain ⟨c', cs', rfl, -⟩ := nextToken_complete hspells hends
    -- what is left after the token is the text without it
    simp only [List.cons_append, List.cons.injEq] at hsplit
    obtain ⟨rfl, rfl⟩ := hsplit
    rw [List.length_cons, Nat.add_sub_cancel, List.drop_left] at hhigh
    refine ⟨hinternal, n, hn, by omega, ?_⟩
    rw [List.drop_zero, ← List.cons_append, Text.newlines_append]
    omega

theorem scanText_error {source : Text} {f : Fault} (h : scanText source = .error f) :
    f.cause.isLexical = true ∧ f.isInternal = false ∧ f.line.IsWithin source.newlines := by
  obtain ⟨hinternal, n, hn, hlow, hhigh⟩ := scanFrom_error_line 1 0 [] _ h
  rw [List.drop_zero, newlines_withoutReturns] at hhigh
  exact ⟨scanFrom_error _ _ _ _ h, hinternal, n, hn, hlow, hhigh⟩

theorem Spells.readNumber_isSome {text : Text} (h : Spells .number text) : (readNumber? (shownLexeme text)).isSome := by
  generalize hk : Kind.number = kind at h
  cases h with
  | fixed h => subst hk; cases h
  | blank _ => cases hk
  | @word c cs _ _ _ =>
    have := wordKind_growsBy (c :: cs) 'a'
    rw [← hk] at this
    exact absurd this (by decide)
  | @number c cs hdigit _ hnum =>
    have htab : c :: cs ≠ ['\t'] := by
      intro h
      cases h
      exact absurd hdigit (by decide)
    rw [shownLexeme, if_neg htab, readNumber?, Option.isSome_map]
    exact hnum
  | string _ => cases hk
  | comment _ => cases hk

/-- **What the tokens of a text are like**: one end of file after the others, all on lines of the text, and numbers
that can be read. -/
structure Scanned (source : Text) (body : List Token) (eof : Token) : Prop where
  kind_body : ∀ t ∈ body, t.kind ≠ .endOfFile
  kind_eof : eof.kind = .endOfFile
  line : ∀ t ∈ body ++ [eof], t.line.IsWithin source.newlines
  number : ∀ t ∈ body, t.kind = .number → (readNumber? t.lexeme).isSome

theorem scanText_scanned {source : Text} {ts : List Token} (h : scanText source = .ok ts) :
    ∃ body eof, ts = body ++ [eof] ∧ Scanned source body eof := by
  obtain ⟨ps, hcut, htext, rfl⟩ := (scanText_eq_ok_iff source ts).1 h
  obtain ⟨body, last, htokens, hmap, hshown⟩ := tokensOf_spec ps 1 hcut
  have hspells : ∀ t ∈ body, Spells t.kind t.written := fun t ht =>
    hcut.spells _ (hmap ▸ List.mem_map.2 ⟨t, ht, rfl⟩)
  refine ⟨body, _, htokens, fun t ht => (hspells t ht).kind_ne_endOfFile, rfl, fun t ht => ?_, fun t ht hk => ?_⟩
  · rw [← htokens] at ht
    obtain ⟨n, hn, hlow, hhigh⟩ := tokensOf_line ps 1 t ht
    rw [htext, newlines_withoutReturns] at hhigh
    exact ⟨n, hn, hlow, hhigh⟩
  · have hnumber := hspells t ht
    rw [hk] at hnumber
    rw [hshown t ht]
    exact hnumber.readNumber_isSome

/-! ## Two texts with a newline between them -/

/-- The token so many lines further down. -/
def Token.moved (k : Nat) (t : Token) : Token := { t with line := t.line.map (· + k) }

@[simp] theorem Token.moved_kind (k : Nat) (t : Token) : (t.moved k).kind = t.kind := rfl

theorem tokensOf_moved (k : Nat) : ∀ (ps : List Piece) (line : Nat),
    tokensOf (line + k) ps = (tokensOf line ps).map (Token.moved k)
  | [], line => by simp [tokensOf, Token.moved]
  | p :: ps, line => by
    rw [tokensOf, tokensOf, List.map_cons, ← tokensOf_moved k ps, Nat.add_right_comm]
    simp [Token.moved]

theorem tokensOf_append : ∀ (ps qs : List Piece) (line : Nat),
    tokensOf line (ps ++ qs) = (tokensOf line ps).dropLast ++ tokensOf (line + (textOf ps).newlines) qs
  | [], qs, line => rfl
  | p :: ps, qs, line => by
    have hne : tokensOf (line + p.text.newlines) ps ≠ [] := by cases ps <;> exact List.cons_ne_nil _ _
    rw [List.cons_append, tokensOf, tokensOf, List.dropLast_cons_of_ne_nil hne, tokensOf_append ps qs, textOf_cons,
      Text.newlines_append, Nat.add_assoc, List.cons_append]

/-- The blanks lie apart from what a word or a number may grow by. -/
theorem blankRanges_apart : apart 0 blankRanges letterRanges = true ∧
    apart 0 blankRanges (decimalZeros.map fun z => (z, z + 9)) = true ∧ apart 0 blankRanges loneDigitRanges = true ∧
    apart 0 blankRanges otherNumeralRanges = true := by
  refine ⟨?_, ?_, ?_, ?_⟩ <;> decide +kernel

theorem isAlphanumeric_of_isBlank {d : Char} (hd : isBlank d = true) :
    isAlphanumeric d = false ∧ isDigit d = false := by
  have hout : ∀ rs, apart 0 blankRanges rs = true → ∀ r ∈ rs, ¬ (r.1 ≤ d.toNat ∧ d.toNat ≤ r.2) := by
    rintro rs h r hr ⟨hlow, hhigh⟩
    cases ((inRanges_eq_false_of_apart _ _ rs 0 h r hr).2 hlow hhigh).symm.trans hd
  have hranges : ∀ rs, apart 0 blankRanges rs = true → inRanges rs d.toNat = false := by
    intro rs h
    refine Bool.eq_false_iff.2 (fun hin => ?_)
    obtain ⟨r, hr, hn⟩ := exists_of_inRanges _ _ hin
    exact hout rs h r hr hn
  have hdecimal : (digitValue? d).isSome = false := by
    refine Bool.eq_false_iff.2 (fun hin => ?_)
    obtain ⟨z, hz, hn⟩ := exists_of_digitValueIn _ _ hin
    exact hout _ blankRanges_apart.2.1 (z, z + 9) (List.mem_map.2 ⟨z, hz, rfl⟩) hn
  have hdigit : isDigit d = false := by
    rw [isDigit, hdecimal, hranges _ blankRanges_apart.2.2.1, Bool.or_false]
  refine ⟨?_, hdigit⟩
  rw [isAlphanumeric, isLetter, hranges _ blankRanges_apart.1, hdigit, hranges _ blankRanges_apart.2.2.2]
  rfl

theorem ne_of_isBlank {d e : Char} (hd : isBlank d = true) (he : isBlank e = false) : (d == e) = false := by
  rw [beq_eq_false_iff_ne]
  rintro rfl
  cases hd.symm.trans he

/-- **No token grows over a blank**, and so none grows over the end of its line. -/
theorem Kind.growsBy_of_isBlank (kind : Kind) {d : Char} (hd : isBlank d = true) : kind.growsBy d = false := by
  obtain ⟨hword, hdigit⟩ := isAlphanumeric_of_isBlank hd
  have hequals := ne_of_isBlank (e := '=') hd (by decide)
  have hpoint := ne_of_isBlank (e := '.') hd (by decide)
  cases kind <;> simp only [Kind.growsBy, hword, hdigit, hequals, hpoint, Bool.or_false]

/-- A token that ends before some text ends before it also with a blank and more after it. -/
theorem Kind.EndsBefore.blank {kind : Kind} {rest : Text} (h : kind.EndsBefore rest) {d : Char}
    (hd : isBlank d = true) (more : Text) : kind.EndsBefore (rest ++ d :: more) := by
  intro c hc
  cases rest with
  | nil =>
    cases hc
    exact kind.growsBy_of_isBlank hd
  | cons _ _ => exact h c hc

/-- **Cut texts stay cut when a newline is put between them.** -/
theorem Cut.joined {qs : List Piece} (hqs : Cut qs) : ∀ {ps : List Piece}, Cut ps → Cut (ps ++ ⟨.newline, ['\n']⟩ :: qs)
  | [], _ => ⟨.fixed rfl, fun _ _ => rfl, hqs⟩
  | p :: ps, ⟨hspells, hends, hcut⟩ => by
    have htext : textOf (ps ++ ⟨.newline, ['\n']⟩ :: qs) = textOf ps ++ '\n' :: textOf qs := by
      rw [textOf_append, textOf_cons, List.singleton_append]
    refine ⟨hspells, ?_, hqs.joined hcut⟩
    change p.kind.EndsBefore (textOf (ps ++ ⟨.newline, ['\n']⟩ :: qs))
    rw [htext]
    exact hends.blank (by decide) _

theorem withoutReturns_joined (source source' : Text) :
    withoutReturns (source ++ '\n' :: source') = withoutReturns source ++ '\n' :: withoutReturns source' := by
  unfold withoutReturns
  rw [List.filter_append, List.filter_cons_of_pos (by decide)]

theorem scanText_joined {source source' : Text} {ts ts' : List Token} (h : scanText source = .ok ts)
    (h' : scanText source' = .ok ts') : scanText (source ++ '\n' :: source') =
      .ok (ts.dropLast ++ ⟨.newline, ['\n'], some ((1 + source.newlines : Nat) : Int)⟩ ::
        ts'.map (Token.moved (1 + source.newlines))) := by
  obtain ⟨ps, hcut, htext, rfl⟩ := (scanText_eq_ok_iff source ts).1 h
  obtain ⟨qs, hcut', htext', rfl⟩ := (scanText_eq_ok_iff source' ts').1 h'
  refine (scanText_eq_ok_iff _ _).2 ⟨ps ++ ⟨.newline, ['\n']⟩ :: qs, hcut'.joined hcut, ?_, ?_⟩
  · rw [textOf_append, textOf_cons, htext, htext', withoutReturns_joined]
    rfl
  · have hlines : (textOf ps).newlines = source.newlines := by rw [htext, newlines_withoutReturns]
    rw [tokensOf_append, tokensOf, hlines, ← tokensOf_moved, Nat.add_comm (1 + source.newlines) (Text.newlines ['\n'])]
    rfl

/-- The pieces of a text are scanned alike when a newline and more follow, and the scan goes on after the newline. -/
theorem scanFrom_past (more : Text) : ∀ (ps : List Piece) (line : Nat) (done : List Token), Cut ps →
    ∃ line' done', scanFrom line 0 done (textOf ps ++ '\n' :: more) = scanFrom line' 0 done' more
  | [], line, done, _ => by
    have hnext : nextToken '\n' ([] ++ more) = .ok (.newline, ['\n']) := rfl
    exact ⟨_, _, scanFrom_token line done hnext⟩
  | p :: ps, line, done, ⟨hspells, hends, hcut⟩ => by
    obtain ⟨c, cs, htext, hnext⟩ := nextToken_complete hspells (hends.blank (d := '\n') (by decide) more)
    obtain ⟨line', done', hscan⟩ := scanFrom_past more ps (line + Text.newlines (c :: cs))
      (⟨p.kind, shownLexeme (c :: cs), some line⟩ :: done) hcut
    rw [htext] at hnext
    refine ⟨line', done', ?_⟩
    rw [textOf_cons, List.append_assoc, htext, scanFrom_token line done hnext, hscan]

/-- If a text can be scanned alone, and with a newline and a second text after it, the second can be scanned alone. -/
theorem scanText_second {source source' : Text} {ts us : List Token} (h : scanText source = .ok ts)
    (hjoined : scanText (source ++ '\n' :: source') = .ok us) : ∃ ts', scanText source' = .ok ts' := by
  obtain ⟨ps, hcut, htext, -⟩ := (scanText_eq_ok_iff source ts).1 h
  obtain ⟨line', done', hpast⟩ := scanFrom_past (withoutReturns source') ps 1 [] hcut
  rw [scanText, withoutReturns_joined, ← htext, hpast] at hjoined
  obtain ⟨qs, hcut', htext', -⟩ := scanFrom_sound _ _ _ _ hjoined
  exact ⟨_, (scanText_eq_ok_iff source' _).2 ⟨qs, hcut', htext', rfl⟩⟩

/-! ## Faults that stay

A string or a comment that is not closed may be closed further down.  Every other fault is found by looking at no more
than the line it is on. -/

/-- The causes that more text may do away with. -/
def Cause.isUnclosed (cause : Cause) : Bool := cause == .unterminatedString || cause == .unterminatedComment

theorem nextToken_of_mark {c : Char} (hc : c ∈ marks) (cs : Text) : ∃ out, nextToken c cs = .ok out := by
  simp only [marks, List.mem_cons, List.not_mem_nil, or_false] at hc
  have hrelation : ∀ x y : Kind × Text, ∃ out,
      (if cs.head? = some '=' then (.ok x : Except Cause (Kind × Text)) else .ok y) = .ok out := by
    intro x y
    split
    · exact ⟨x, rfl⟩
    · exact ⟨y, rfl⟩
  rcases hc with rfl | rfl | rfl | rfl | rfl | rfl | rfl | rfl | rfl | rfl | rfl | rfl | rfl | rfl | rfl
  all_goals first
    | exact ⟨_, rfl⟩
    | exact hrelation _ _

theorem takeWhile_stop {p : Char → Bool} {d : Char} (hp : p d = false) (cs more : Text) :
    (cs ++ d :: more).takeWhile p = cs.takeWhile p := by
  rw [List.takeWhile_append, List.takeWhile_cons_of_neg (by simp [hp])]
  split
  · rename_i hlength
    rw [List.append_nil]
    exact ((List.takeWhile_prefix p).eq_of_length hlength).symm
  · rfl

theorem nextToken_error_blank {c : Char} {cs : Text} {cause : Cause} (h : nextToken c cs = .error cause)
    (hcause : cause.isUnclosed = false) {d : Char} (hd : isBlank d = true) (more : Text) :
    nextToken c (cs ++ d :: more) = .error cause := by
  have hmark : c ∉ marks := by
    intro hc
    obtain ⟨out, hout⟩ := nextToken_of_mark hc cs
    rw [hout] at h
    cases h
  have hd' : d ≠ 'X' := by simpa using ne_of_isBlank (e := 'X') hd (by decide)
  have hopen : opensComment (c :: (cs ++ d :: more)) = opensComment (c :: cs) := by
    cases cs with
    | nil => by_cases hx : c = 'x' <;> simp [opensComment, hx, hd']
    | cons e es => by_cases hx : c = 'x' <;> by_cases hX : e = 'X' <;> simp [opensComment, hx, hX]
  obtain ⟨hword, hdigit⟩ := isAlphanumeric_of_isBlank hd
  have hnumber : isNumberPart d = false := by
    rw [isNumberPart, hdigit, ne_of_isBlank hd (by decide)]
    rfl
  rw [nextToken_of_not_mark hmark] at h ⊢
  rw [hopen, takeWhile_stop hword, takeWhile_stop hnumber]
  repeat' split at h
  all_goals simp_all [Cause.isUnclosed]

theorem scanFrom_error_newline (line pending : Nat) (done : List Token) (t more : Text) {f : Fault}
    (h : scanFrom line pending done t = .error f) (hcause : f.cause.isUnclosed = false) :
    scanFrom line pending done (t ++ '\n' :: more) = .error f := by
  fun_induction scanFrom line pending done t with
  | case1 => cases h
  | case2 _ _ _ _ _ ih => exact ih h
  | case3 _ _ _ _ _ hnext =>
    cases h
    rw [List.cons_append, scanFrom, nextToken_error_blank hnext hcause (by decide)]
  | case4 line done c cs kind text hnext token ih =>
    obtain ⟨rest, hsplit, hspells, hends⟩ := nextToken_sound hnext
    obtain ⟨c', cs', rfl, hnext'⟩ := nextToken_complete hspells (hends.blank (d := '\n') (by decide) more)
    simp only [List.cons_append, List.cons.injEq] at hsplit
    obtain ⟨rfl, rfl⟩ := hsplit
    rw [List.cons_append, scanFrom, List.append_assoc, hnext']
    rw [List.append_assoc] at ih
    exact ih h

/-- **A text that cannot be scanned stays so with more text after it**, unless it leaves a string or a comment open. -/
theorem scanText_error_newline {source : Text} {f : Fault} (h : scanText source = .error f)
    (hcause : f.cause.isUnclosed = false) (source' : Text) : scanText (source ++ '\n' :: source') = .error f := by
  rw [scanText, withoutReturns_joined]
  exact scanFrom_error_newline _ _ _ _ _ h hcause

end Loot
