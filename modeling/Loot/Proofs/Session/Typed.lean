import Loot.Proofs.Session.Kindred
import Loot.Proofs.Session.Prompting
/-!
# A text typed over several lines

A text that leaves something open until its last line can be typed line by line, or be run as it is.  It means the
same both ways (`typed_as_written`) if cleaning takes nothing off its lines that counts (`Harmless`); in an open string
blanks count, and the shell takes them off all the same (`typed_loses_blanks`).  Before the last line, the lines so far
and what the shell keeps of them leave the same thing open (`HeldAlike`), which each line more preserves
(`HeldAlike.step`).
-/
namespace Loot

/-! ## The parts of a line -/

theorem withoutReturns_append (t u : Text) : withoutReturns (t ++ u) = withoutReturns t ++ withoutReturns u :=
  List.filter_append t u

theorem withoutReturns_parts (line : Text) : withoutReturns line =
    withoutReturns line.blanksBefore ++ (withoutReturns line.strip ++ withoutReturns line.blanksAfter) := by
  rw [← withoutReturns_append, ← withoutReturns_append, Text.strip_parts]

theorem blanks_withoutReturns {t line : Text} (hblank : ∀ c ∈ t, isBlank c = true) (hmem : ∀ c ∈ t, c ∈ line)
    (hline : '\n' ∉ line) : Blanks (withoutReturns t) :=
  ⟨fun c hc => hblank c (List.mem_filter.1 hc).1, fun hc => hline (hmem _ (List.mem_filter.1 hc).1)⟩

section Parts

variable {line : Text} (hline : '\n' ∉ line)

include hline

theorem blanks_before : Blanks (withoutReturns line.blanksBefore) := by
  refine blanks_withoutReturns Text.isBlank_of_mem_blanksBefore (fun c hc => ?_) hline
  rw [← Text.strip_parts line]
  exact List.mem_append_left _ hc

theorem blanks_after : Blanks (withoutReturns line.blanksAfter) := by
  refine blanks_withoutReturns Text.isBlank_of_mem_blanksAfter (fun c hc => ?_) hline
  rw [← Text.strip_parts line]
  exact List.mem_append_right _ (List.mem_append_right _ hc)

end Parts

theorem head?_withoutReturns_strip (line : Text) : (withoutReturns line.strip).head? = line.strip.head? := by
  cases hstrip : line.strip with
  | nil => rfl
  | cons c cs =>
    have hc : isBlank c = false := Text.head?_strip (t := line) (by rw [hstrip]; rfl)
    have hkept : (c != '\r' && c != '\x0b' && c != '\x0c') = true := by
      simp only [Bool.and_eq_true, bne_iff_ne]
      refine ⟨⟨?_, ?_⟩, ?_⟩ <;> rintro rfl <;> revert hc <;> decide
    have hfilter : withoutReturns (c :: cs) = c :: withoutReturns cs := List.filter_cons_of_pos hkept
    rw [hfilter]
    rfl

theorem withoutReturns_cleaned (line : Text) :
    withoutReturns (Shell.cleaned line) = expanded (withoutReturns line.strip) := by
  have hhead := head?_withoutReturns_strip line
  rw [cleaned_eq]
  by_cases hmark : line.strip.head? = some '?'
  · obtain ⟨rest, hrest⟩ := List.head?_eq_some_iff.1 hmark
    rw [hrest]
    exact withoutReturns_append "help ".toList rest
  · rw [expanded_of_head hmark, expanded_of_head (by rwa [hhead])]

/-- What cleaning takes off a line. -/
def TakenOff (line : Text) : Char → Prop := Lost line.blanksBefore line.strip line.blanksAfter

theorem takenOff_of_lost {line : Text} (c : Char)
    (h : Lost (withoutReturns line.blanksBefore) (withoutReturns line.strip) (withoutReturns line.blanksAfter) c) :
    TakenOff line c := by
  rcases h with hc | ⟨hmark, hc⟩ | hc
  · exact .inl (List.mem_filter.1 hc).1
  · exact .inr (.inl ⟨(head?_withoutReturns_strip line).symm.trans hmark, hc⟩)
  · exact .inr (.inr (List.mem_filter.1 hc).1)

/-! ## Lines that are one text -/

/-- What a shell keeps of lines that it is given while something is open. -/
def keptLines (lines : List Text) : List Text := (lines.filter fun line => !line.strip.isEmpty).map Shell.cleaned

theorem keptLines_blank {line : Text} (h : line.strip = []) : keptLines [line] = [] := by
  unfold keptLines
  rw [List.filter_cons_of_neg (by simp [h])]
  rfl

theorem keptLines_line {line : Text} (h : line.strip ≠ []) : keptLines [line] = [Shell.cleaned line] := by
  unfold keptLines
  rw [List.filter_cons_of_pos (by simpa using h)]
  rfl

theorem keptLines_append (lines lines' : List Text) :
    keptLines (lines ++ lines') = keptLines lines ++ keptLines lines' := by
  unfold keptLines
  rw [List.filter_append, List.map_append]

theorem keptLines_concat_blank (lines : List Text) {line : Text} (h : line.strip = []) :
    keptLines (lines ++ [line]) = keptLines lines := by
  rw [keptLines_append, keptLines_blank h, List.append_nil]

theorem ne_nil_of_mem_keptLines {lines : List Text} : ∀ t ∈ keptLines lines, t ≠ [] := by
  intro t ht
  obtain ⟨line, hline, rfl⟩ := List.mem_map.1 ht
  rw [Ne, Shell.cleaned_eq_nil_iff]
  simpa using (List.mem_filter.1 hline).2

/-- **Lines that are one text**: something is open after each of them but the last. -/
structure Multiline (lines : List Text) : Prop where
  several : 2 ≤ lines.length
  oneLine : ∀ line ∈ lines, '\n' ∉ line
  waits : ∀ i < lines.length, 0 < i → needsMore (Text.join ['\n'] (lines.take i)) = true
  complete : needsMore (Text.join ['\n'] lines) = false

/-- **Nothing that counts is taken off the lines.** -/
structure Harmless (lines : List Text) : Prop where
  /-- A line that is broken in a string has no blanks there, and the line after it begins with what stays. -/
  strings : ∀ i line next, lines[i]? = some line → lines[i + 1]? = some next →
    refusal? (Text.join ['\n'] (lines.take (i + 1))) = some .unterminatedString →
      withoutReturns line.blanksAfter = [] ∧ withoutReturns next.blanksBefore = [] ∧
      next.strip ≠ [] ∧ next.strip.head? ≠ some '?'
  /-- If the text is refused for a character, it is none that is taken off its last line. -/
  stray : ∀ last c, lines.getLast? = some last →
    refusal? (Text.join ['\n'] lines) = some (.unexpectedCharacter [c]) → ¬ TakenOff last c
  /-- No clause of a choice comes after two newlines, of which the shell may take one. -/
  clauses : ∀ ts, scanText (Text.join ['\n'] lines) = .ok ts → NoLateClause (dropTrivia ts)

/-! ## The lines so far -/

/-- **The lines so far and what a shell kept of them are at a break.** -/
def HeldAlike (lines : List Text) : Prop :=
  keptLines lines ≠ [] ∧ ∃ ps e qs e', Splits (withoutReturns (Text.join ['\n'] lines)) ps e ∧
    Splits (withoutReturns (Text.join ['\n'] (keptLines lines))) qs e' ∧ AtBreak ps e qs e'

theorem HeldAlike.ne_nil {lines : List Text} (h : HeldAlike lines) : lines ≠ [] := by
  rintro rfl
  exact h.1 rfl

theorem HeldAlike.waits {lines : List Text} (h : HeldAlike lines) :
    needsMore (Text.join ['\n'] (keptLines lines)) = needsMore (Text.join ['\n'] lines) := by
  obtain ⟨-, ps, e, qs, e', hv, hw, hbreak⟩ := h
  rw [needsMore_splits hv, needsMore_splits hw, hbreak.waits]

theorem HeldAlike.of_areKin {lost : Char → Prop} {after : Text} {lines : List Text} (hkept : keptLines lines ≠ [])
    (h : AreKin lost after (withoutReturns (Text.join ['\n'] lines))
      (withoutReturns (Text.join ['\n'] (keptLines lines))))
    (hwaits : needsMore (Text.join ['\n'] lines) = true)
    (hstring : refusal? (Text.join ['\n'] lines) = some .unterminatedString → after = []) : HeldAlike lines := by
  obtain ⟨ps, e, qs, e', hv, hw, hkin⟩ := h
  refine ⟨hkept, ps, e, qs, e', hv, hw, hkin.atBreak ((needsMore_splits hv).symm.trans hwaits) (fun body he => ?_)⟩
  exact hstring ((refusal?_splits hv).trans (by rw [he]; rfl))

theorem withoutReturns_join {lines : List Text} (h : lines ≠ []) (line : Text) :
    withoutReturns (Text.join ['\n'] (lines ++ [line])) =
      withoutReturns (Text.join ['\n'] lines) ++ '\n' :: withoutReturns line := by
  rw [Text.join_append _ h (List.cons_ne_nil _ _), List.append_assoc]
  exact withoutReturns_joined _ line

section Step

variable {earlier : List Text} {line : Text} (hline : '\n' ∉ line)

include hline

/-- A line and what the shell makes of it, at the start. -/
theorem areKin_first : AreKin (TakenOff line) (withoutReturns line.blanksAfter) (withoutReturns line)
    (withoutReturns (Shell.cleaned line)) := by
  rw [withoutReturns_parts line, withoutReturns_cleaned]
  exact (areKin_line (blanks_before hline) _ (blanks_after hline)).mono takenOff_of_lost

theorem strip_ne_nil_of_needsMore (hwaits : needsMore line = true) : line.strip ≠ [] := by
  intro hstrip
  have hnil := (areKin_first hline).waits hwaits
  rw [(Shell.cleaned_eq_nil_iff line).2 hstrip] at hnil
  exact absurd hnil (by decide)

theorem HeldAlike.first (hwaits : needsMore line = true)
    (hafter : refusal? line = some .unterminatedString → withoutReturns line.blanksAfter = []) : HeldAlike [line] := by
  have hkept := keptLines_line (strip_ne_nil_of_needsMore hline hwaits)
  have hfirst := areKin_first hline
  have htext : Shell.cleaned line = Text.join ['\n'] (keptLines [line]) := by rw [hkept]; rfl
  rw [htext] at hfirst
  exact .of_areKin (by rw [hkept]; exact List.cons_ne_nil _ _) hfirst hwaits hafter

variable (h : HeldAlike earlier) (hstring : refusal? (Text.join ['\n'] earlier) = some .unterminatedString →
  withoutReturns line.blanksBefore = [] ∧ line.strip ≠ [] ∧ line.strip.head? ≠ some '?')

include h hstring

/-- **Another line**, which is not blank. -/
theorem HeldAlike.nonblank (hstrip : line.strip ≠ []) :
    AreKin (TakenOff line) (withoutReturns line.blanksAfter) (withoutReturns (Text.join ['\n'] (earlier ++ [line])))
      (withoutReturns (Text.join ['\n'] (keptLines (earlier ++ [line])))) := by
  obtain ⟨hkept, ps, e, qs, e', hv, hw, hbreak⟩ := id h
  rw [keptLines_append, keptLines_line hstrip, withoutReturns_join h.ne_nil, withoutReturns_join hkept,
    withoutReturns_parts line, withoutReturns_cleaned]
  refine (line_step hv hw hbreak (blanks_before hline) _ (blanks_after hline) (fun body he => ?_)).mono takenOff_of_lost
  obtain ⟨hbefore, -, hhead⟩ := hstring ((refusal?_splits hv).trans (by rw [he]; rfl))
  exact ⟨hbefore, by rwa [head?_withoutReturns_strip]⟩

/-- A blank line is no end of the text, unless one of its blanks is refused. -/
theorem HeldAlike.blank (hstrip : line.strip = []) : HeldAlike (earlier ++ [line]) ∨
    ∃ c, refusal? (Text.join ['\n'] (earlier ++ [line])) = some (.unexpectedCharacter [c]) ∧ c ∈ line := by
  obtain ⟨hkept, ps, e, qs, e', hv, hw, hbreak⟩ := id h
  have hblanks : Blanks (withoutReturns line) :=
    blanks_withoutReturns ((Text.strip_eq_nil_iff line).1 hstrip) (fun _ hc => hc) hline
  have hopen : ∀ body, e ≠ .string body := fun body he =>
    (hstring ((refusal?_splits hv).trans (by rw [he]; rfl))).2.1 hstrip
  have hsame := keptLines_concat_blank earlier hstrip
  obtain ⟨ps₁, e₁, hv₁, hnext⟩ := blank_step hv hw hbreak hblanks hopen
  rw [← withoutReturns_join h.ne_nil] at hv₁
  rcases hnext with hbreak₁ | ⟨c, cs, hc, rfl⟩
  · refine .inl ⟨hsame ▸ hkept, ps₁, e₁, qs, e', hv₁, ?_, hbreak₁⟩
    rwa [hsame]
  · exact .inr ⟨c, refusal?_splits hv₁, (List.mem_filter.1 hc).1⟩

/-- **Another line that does not complete the text.** -/
theorem HeldAlike.step (hwaits : needsMore (Text.join ['\n'] (earlier ++ [line])) = true)
    (hafter : refusal? (Text.join ['\n'] (earlier ++ [line])) = some .unterminatedString →
      withoutReturns line.blanksAfter = []) : HeldAlike (earlier ++ [line]) := by
  by_cases hstrip : line.strip = []
  · rcases h.blank hline hstring hstrip with hheld | ⟨c, hrefused, -⟩
    · exact hheld
    · cases hwaits.symm.trans (needsMore_of_stray hrefused)
  · refine .of_areKin ?_ (h.nonblank hline hstring hstrip) hwaits hafter
    rw [keptLines_append]
    exact List.append_ne_nil_of_left_ne_nil h.1 _

/-- **The line that completes the text** is not blank. -/
theorem HeldAlike.last (hopen : needsMore (Text.join ['\n'] earlier) = true)
    (hdone : needsMore (Text.join ['\n'] (earlier ++ [line])) = false)
    (hstray : ∀ c, refusal? (Text.join ['\n'] (earlier ++ [line])) = some (.unexpectedCharacter [c]) →
      ¬ TakenOff line c) : line.strip ≠ [] := by
  intro hstrip
  rcases h.blank hline hstring hstrip with hheld | ⟨c, hrefused, hc⟩
  · have hwaits := hheld.waits
    rw [keptLines_concat_blank earlier hstrip, h.waits, hopen, hdone] at hwaits
    cases hwaits
  · rw [← Text.strip_parts line, hstrip, List.nil_append, List.mem_append] at hc
    exact hstray c hrefused (hc.imp_right .inr)

end Step

/-- What `Harmless` says of the line after a break. -/
theorem Harmless.after_break {lines : List Text} (hharmless : Harmless lines) {i : Nat} (hi : 0 < i) {line : Text}
    (hline : lines[i]? = some line)
    (hopen : refusal? (Text.join ['\n'] (lines.take i)) = some .unterminatedString) :
    withoutReturns line.blanksBefore = [] ∧ line.strip ≠ [] ∧ line.strip.head? ≠ some '?' := by
  obtain ⟨i, rfl⟩ := Nat.exists_eq_add_one.2 hi
  have hlt := (List.getElem?_eq_some_iff.1 hline).1
  exact (hharmless.strings i _ line (List.getElem?_eq_getElem (Nat.lt_of_succ_lt hlt)) hline hopen).2

section Lines

variable {lines : List Text} (h : Multiline lines) (hharmless : Harmless lines)

include h hharmless

/-- **Whatever is typed before the last line, the shell keeps what is open alike.** -/
theorem heldAlike_take (i : Nat) (hi : 0 < i) (hlt : i < lines.length) : HeldAlike (lines.take i) := by
  induction i with
  | zero => exact absurd hi (Nat.lt_irrefl 0)
  | succ i ih =>
    have hi' := Nat.lt_of_succ_lt hlt
    have hline : lines[i]? = some lines[i] := List.getElem?_eq_getElem hi'
    have htake : lines.take (i + 1) = lines.take i ++ [lines[i]] := List.take_succ_eq_append_getElem hi'
    have hone := h.oneLine lines[i] (List.getElem_mem hi')
    have hwaits := h.waits (i + 1) hlt hi
    have hafter := fun hopen => (hharmless.strings i lines[i] _ hline (List.getElem?_eq_getElem hlt) hopen).1
    rw [htake] at hwaits hafter ⊢
    -- no break stands before the first line, so it is its own case
    by_cases hzero : i = 0
    · subst hzero
      rw [List.take_zero, List.nil_append] at hwaits hafter ⊢
      exact .first hone hwaits hafter
    · have hpos := Nat.pos_of_ne_zero hzero
      exact (ih hpos hi').step hone (hharmless.after_break hpos hline) hwaits hafter

end Lines

/-! ## The shell while something is open -/

namespace Shell

/-- The shell that keeps the lines. -/
def holding (s : Session) (kept : List Text) : Shell :=
  { session := s, buffer := Text.join ['\n'] kept, lineNumber := kept.length, prompt := secondaryPrompt }

theorem afterAll_concat (sh : Shell) (lines : List Text) (line : Text) :
    sh.afterAll (lines ++ [line]) = (sh.afterAll lines).after line := List.foldl_concat _ _ _ _

theorem feeds_concat (sh : Shell) (lines : List Text) (line : Text) :
    sh.feeds (lines ++ [line]) = sh.feeds lines ++ ((sh.afterAll lines).feed? line).toList := by
  induction lines generalizing sh with
  | nil => exact List.append_nil _
  | cons first lines ih =>
    have hcons : ∀ more, sh.feeds (first :: more) = (sh.feed? first).toList ++ (sh.after first).feeds more :=
      fun _ => rfl
    rw [List.cons_append, hcons, hcons, ih, List.append_assoc]
    rfl

theorem join_keptLines_eq_nil_iff (lines : List Text) :
    Text.join ['\n'] (keptLines lines) = [] ↔ keptLines lines = [] := by
  cases hkept : keptLines lines with
  | nil => exact iff_of_true rfl rfl
  | cons t ts =>
    have ht : t ≠ [] := ne_nil_of_mem_keptLines t (by rw [hkept]; exact List.mem_cons_self)
    refine iff_of_false ?_ (List.cons_ne_nil _ _)
    cases ts with
    | nil => exact ht
    | cons u us => simp [Text.join]

theorem joinLine_holding (s : Session) (earlier : List Text) (text : Text) :
    joinLine (holding s (keptLines earlier)).buffer text = Text.join ['\n'] (keptLines earlier ++ [text]) :=
  joinLine_join _ (join_keptLines_eq_nil_iff earlier) text

theorem program?_holding {s : Session} {earlier : List Text} (hkept : keptLines earlier ≠ []) (line : Text) :
    program? (holding s (keptLines earlier)).buffer line = (keptLines [line]).head? := by
  have hbuffer : (holding s (keptLines earlier)).buffer ≠ [] := fun hnil =>
    hkept ((join_keptLines_eq_nil_iff earlier).1 hnil)
  unfold program?
  by_cases hstrip : line.strip = []
  · rw [if_pos (.inl hstrip), keptLines_blank hstrip]
    rfl
  · rw [if_neg (by simp [hstrip, hbuffer]), keptLines_line hstrip]
    rfl

/-- **A line that does not complete the text is kept**, if it is not blank. -/
theorem after_holding (s : Session) {earlier : List Text} (hkept : keptLines earlier ≠ []) {line : Text}
    (hmore : needsMore (Text.join ['\n'] (keptLines (earlier ++ [line]))) = true) :
    (holding s (keptLines earlier)).after line = holding s (keptLines (earlier ++ [line])) ∧
      (holding s (keptLines earlier)).feed? line = none := by
  have hprogram := program?_holding (s := s) hkept line
  rw [keptLines_append] at hmore ⊢
  by_cases hstrip : line.strip = []
  · rw [keptLines_blank hstrip] at hprogram ⊢
    rw [List.append_nil]
    exact ⟨after_of_none hprogram, feed?_of_none hprogram⟩
  · rw [keptLines_line hstrip] at hprogram hmore ⊢
    have hjoin := joinLine_holding s earlier (cleaned line)
    rw [← hjoin] at hmore
    refine ⟨(after_of_kept hprogram hmore).trans ?_, feed?_of_kept hprogram hmore⟩
    unfold keeping
    rw [hjoin]
    unfold holding
    rw [List.length_append]
    rfl

/-- **The line that completes the text** makes the shell feed it to the session. -/
theorem after_holding_complete (s : Session) {earlier : List Text} (hkept : keptLines earlier ≠ []) {line : Text}
    (hstrip : line.strip ≠ []) {kept : List Text} (hlines : kept = keptLines (earlier ++ [line]))
    (hdone : needsMore (Text.join ['\n'] kept) = false) :
    (holding s (keptLines earlier)).after line =
        { session := s.fedWith (Text.join ['\n'] kept) kept.length, lineNumber := kept.length } ∧
      (holding s (keptLines earlier)).feed? line = some (Text.join ['\n'] kept, kept.length) := by
  have hprogram := program?_holding (s := s) hkept line
  rw [keptLines_append, keptLines_line hstrip] at hlines
  rw [keptLines_line hstrip] at hprogram
  have hjoin : joinLine (holding s (keptLines earlier)).buffer (cleaned line) = Text.join ['\n'] kept := by
    rw [joinLine_holding, hlines]
  have hnumber : (holding s (keptLines earlier)).lineNumber + 1 = kept.length := by
    rw [hlines, List.length_append]
    rfl
  rw [← hjoin] at hdone
  have hafter := after_of_fed hprogram hdone
  have hfeed := feed?_of_fed hprogram hdone
  rw [hjoin, hnumber] at hafter hfeed
  refine ⟨hafter.trans ?_, hfeed⟩
  unfold passing
  rw [hnumber]
  rfl

theorem newline_not_mem_cleaned {line : Text} (hline : '\n' ∉ line) : '\n' ∉ cleaned line := by
  have hstrip : '\n' ∉ line.strip := fun hmem => hline (by
    rw [← Text.strip_parts line]
    exact List.mem_append_right _ (List.mem_append_left _ hmem))
  unfold cleaned
  split
  · rename_i rest hrest
    rw [hrest] at hstrip
    intro hmem
    rcases List.mem_append.1 hmem with hmem | hmem
    · exact absurd hmem (by decide)
    · exact hstrip (List.mem_cons_of_mem _ hmem)
  · exact hstrip

/-- No command leaves anything open. -/
theorem not_command_of_needsMore {line : Text} (hline : '\n' ∉ line) (hmore : needsMore (cleaned line) = true) :
    Text.strip (cleaned line) ∉ commandWords := by
  have hclosed : ∀ word ∈ commandWords, needsMore word = false := by decide
  have hparts := withoutReturns_parts (cleaned line)
  rw [Text.blanksBefore_eq_nil (fun _ => head?_cleaned)] at hparts
  have hkin : AreKin (fun _ => True) (withoutReturns (Text.blanksAfter (cleaned line))) (withoutReturns (cleaned line))
      (withoutReturns (Text.strip (cleaned line))) := by
    rw [hparts]
    exact areKin_trailing _ (blanks_after (newline_not_mem_cleaned hline)) (fun _ _ => trivial)
  intro hword
  cases (hclosed _ hword).symm.trans (hkin.waits hmore)

/-- **The first line is kept**: no command leaves anything open. -/
theorem after_first (s : Session) {line : Text} (hline : '\n' ∉ line) (hmore : needsMore line = true) :
    Shell.after { session := s } line = holding s (keptLines [line]) ∧ Shell.feed? { session := s } line = none := by
  have hstrip := strip_ne_nil_of_needsMore hline hmore
  have hcleaned := (areKin_first hline).waits hmore
  have hcommand := not_command_of_needsMore hline hcleaned
  have hprogram : program? [] line = some (cleaned line) := if_neg (by simp [hstrip, hcommand])
  rw [keptLines_line hstrip]
  exact ⟨after_of_kept hprogram hcleaned, feed?_of_kept hprogram hcleaned⟩

section Lines

variable (s : Session) {lines : List Text} (h : Multiline lines) (hharmless : Harmless lines)

include h hharmless

/-- **Before the last line the shell does nothing but keep lines.** -/
theorem holding_take (i : Nat) (hi : 0 < i) (hlt : i < lines.length) :
    afterAll { session := s } (lines.take i) = holding s (keptLines (lines.take i)) ∧
      feeds { session := s } (lines.take i) = [] := by
  induction i with
  | zero => exact absurd hi (Nat.lt_irrefl 0)
  | succ i ih =>
    have hi' := Nat.lt_of_succ_lt hlt
    have hheld := heldAlike_take h hharmless (i + 1) hi hlt
    have hmore := h.waits (i + 1) hlt hi
    rw [List.take_succ_eq_append_getElem hi', afterAll_concat, feeds_concat]
    rw [List.take_succ_eq_append_getElem hi'] at hheld hmore
    by_cases hzero : i = 0
    · subst hzero
      obtain ⟨hafter, hfeed⟩ := after_first s (h.oneLine lines[0] (List.getElem_mem hi')) hmore
      exact ⟨hafter, congrArg Option.toList hfeed⟩
    · have hpos := Nat.pos_of_ne_zero hzero
      obtain ⟨hafters, hfeeds⟩ := ih hpos hi'
      obtain ⟨hafter, hfeed⟩ := after_holding s (heldAlike_take h hharmless i hpos hi').1 (hheld.waits.trans hmore)
      rw [hafters, hfeeds, hfeed]
      exact ⟨hafter, rfl⟩

end Lines

end Shell

/-! ## The whole text -/

section Lines

variable {lines : List Text} (h : Multiline lines) (hharmless : Harmless lines)

include h hharmless

/-- The lines are typed up to the last one, which is not blank. -/
theorem exists_last : ∃ earlier last, lines = earlier ++ [last] ∧ last.strip ≠ [] ∧ HeldAlike earlier ∧
    AreKin (TakenOff last) (withoutReturns last.blanksAfter) (withoutReturns (Text.join ['\n'] lines))
      (withoutReturns (Text.join ['\n'] (keptLines lines))) ∧
    ∀ s, Shell.afterAll { session := s } earlier = Shell.holding s (keptLines earlier) ∧
      Shell.feeds { session := s } earlier = [] := by
  obtain ⟨earlier, last, rfl⟩ : ∃ earlier last, lines = earlier ++ [last] := by
    rcases List.eq_nil_or_concat' lines with rfl | hconcat
    · exact absurd h.several (by decide)
    · exact hconcat
  have hpos : 0 < earlier.length := by
    have hseveral := h.several
    rw [List.length_append] at hseveral
    exact Nat.lt_of_succ_le (Nat.le_of_succ_le_succ hseveral)
  have hlt : earlier.length < (earlier ++ [last]).length := by simp
  have htake : (earlier ++ [last]).take earlier.length = earlier := List.take_left
  have hheld := heldAlike_take h hharmless earlier.length hpos hlt
  have hbreak := hharmless.after_break hpos List.getElem?_concat_length
  have hopen := h.waits earlier.length hlt hpos
  have hshell := fun s => Shell.holding_take s h hharmless earlier.length hpos hlt
  rw [htake] at hheld hbreak hopen
  simp only [htake] at hshell
  have hone := h.oneLine last (List.mem_append_right _ List.mem_cons_self)
  have hstrip := hheld.last hone hbreak hopen h.complete (fun c => hharmless.stray last c List.getLast?_concat)
  exact ⟨earlier, last, rfl, hstrip, hheld, hheld.nonblank hone hbreak hstrip, hshell⟩

end Lines

/-! ## Typed or written -/

theorem Session.machine_fedWith {s : Session} (hfatal : s.reporter.isFatal = false) (text : Text) (number : Nat) :
    (s.fedWith text number).machine = (runSource .standard text).left s.machine := by
  unfold Session.fedWith Run.left
  rw [Session.guarded_feed hfatal]
  cases runSource .standard text s.machine with
  | ok flow m => rfl
  | error stop m => cases stop <;> rfl

/-- **A text of several lines means the same typed at a prompt and run as it is**, as far as the shell takes nothing off
its lines that counts.  Let something be open after each line but the last.  The shell keeps the lines until the last,
feeds its session one text, and tells of it what it tells of a run of that text; and that run ends as the run of the
lines as they are: with the same result, or stopped for the same cause, perhaps on another line.  Both have shown the
same, and the machines are the same but for lines in their functions. -/
theorem typed_as_written {s : Session} (hfatal : s.reporter.isFatal = false) {lines : List Text} (h : Multiline lines)
    (hharmless : Harmless lines) :
    ∃ text number, Shell.feeds { session := s } lines = [(text, number)] ∧
      Shell.afterAll { session := s } lines = { session := s.fedWith text number, lineNumber := number } ∧
      Session.guarded (Session.feed text (some (number : Int))) s =
        s.told text (some (number : Int)) (runSource .standard text s.machine) ∧
      (s.fedWith text number).machine = (runSource .standard text).left s.machine ∧
      EndAlike (fun stop stop' => stop.withoutLine = stop'.withoutLine) (Machine.SameButFunctions SameWithoutLines)
        s.machine s.machine (runSource .standard (Text.join ['\n'] lines) s.machine)
        (runSource .standard text s.machine) := by
  obtain ⟨earlier, last, hlines, hstrip, hheld, hkin, hshell⟩ := exists_last h hharmless
  obtain ⟨hafters, hfeeds⟩ := hshell s
  have hstray : ∀ c, refusal? (Text.join ['\n'] lines) = some (.unexpectedCharacter [c]) → ¬ TakenOff last c :=
    fun c => hharmless.stray last c (by rw [hlines, List.getLast?_concat])
  have hdone := hkin.complete h.complete hstray
  obtain ⟨hafter, hfeed⟩ := Shell.after_holding_complete s hheld.1 hstrip (congrArg keptLines hlines) hdone
  refine ⟨_, (keptLines lines).length, ?_, ?_, Session.guarded_feed hfatal _ _, Session.machine_fedWith hfatal _ _,
    hkin.endAlike h.complete hstray hharmless.clauses .standard s.machine⟩
  · rw [hlines, Shell.feeds_concat, hfeeds, hafters, hfeed, ← hlines]
    rfl
  · rw [hlines, Shell.afterAll_concat, hafters, hafter, ← hlines]

/-- A block with a comment and a string in it, each over two lines, and with a blank line. -/
def scroll : List Text :=
  [" dlc f() \x7b ".toList, "xX note ".toList, [], "? Xx spawn \"a".toList, "b\" \x7d".toList]

theorem harmless_scroll : Harmless scroll where
  strings := by
    intro i line next hline hnext hopen
    have hstrings : ∀ i < scroll.length,
        refusal? (Text.join ['\n'] (scroll.take (i + 1))) = some .unterminatedString → i = 3 := by decide +kernel
    cases hstrings i (List.getElem?_eq_some_iff.1 hline).1 hopen
    cases hline
    cases hnext
    decide +kernel
  stray := by
    intro last c _ hrefused
    have hscanned : refusal? (Text.join ['\n'] scroll) = none := by decide +kernel
    cases hscanned.symm.trans hrefused
  clauses := by
    intro ts hscan before nl nl' t after hts _ _
    have hkinds : (scanText (Text.join ['\n'] scroll)).map (fun ts => ts.all fun t => !Parser.isClause t.kind) =
        .ok true := by decide +kernel
    obtain ⟨ts', hscan', hall⟩ := ok_of_map_eq_ok hkinds
    cases hscan.symm.trans hscan'
    have ht : t ∈ ts := (List.mem_filter.1 (by rw [← dropTrivia, hts]; simp)).1
    simpa using List.all_eq_true.1 hall t ht

/-- A session at a prompt, as it is opened. -/
def opened : Session :=
  { reporter := { Reporter.openFile {} Session.typedPath with isFatal := false }, path := Session.typedPath }

example : Session.start {} Session.typedPath true none none = .ok opened := rfl

theorem typed_as_written_strings_and_comments :
    ∃ text number, Shell.feeds { session := opened } scroll = [(text, number)] ∧
      text = "dlc f() \x7b\nxX note\nhelp  Xx spawn \"a\nb\" \x7d".toList ∧ number = 4 ∧
      EndAlike (fun stop stop' => stop.withoutLine = stop'.withoutLine) (Machine.SameButFunctions SameWithoutLines)
        {} {} (runSource .standard (Text.join ['\n'] scroll) {}) (runSource .standard text {}) := by
  have hmultiline : Multiline scroll := ⟨by decide, by decide, by decide +kernel, by decide +kernel⟩
  obtain ⟨text, number, hfeeds, -, -, -, hrun⟩ := typed_as_written (s := opened) rfl hmultiline harmless_scroll
  have hscroll : Shell.feeds { session := opened } scroll =
      [("dlc f() \x7b\nxX note\nhelp  Xx spawn \"a\nb\" \x7d".toList, 4)] := by decide +kernel
  cases hfeeds.symm.trans hscroll
  exact ⟨_, _, hscroll, rfl, rfl, hrun⟩

/-- A string that is broken before blanks. -/
def torn : List Text := ["loot x = \"a".toList, "  b\"".toList]

/-- **Blanks in an open string are lost at a prompt.** -/
theorem typed_loses_blanks :
    Multiline torn ∧
    (Shell.afterAll { session := opened } torn).session.machine.scope =
      ({} : Scope).set ['x'] (.string "a\nb".toList) ∧
    ((runSource .standard (Text.join ['\n'] torn)).left opened.machine).scope =
      ({} : Scope).set ['x'] (.string "a\n  b".toList) :=
  ⟨⟨by decide, by decide, by decide +kernel, by decide +kernel⟩, by decide +kernel, by decide +kernel⟩

end Loot
