import Loot.Token.Scan
/-!
# How tokens are spelled

The texts that a token of each kind may have, said without the scanner, and the characters that would
make it longer if one of them came next.  One step of the scanner finds exactly these: a token that it
finds is spelled right and cannot grow (`nextToken_sound`), and it finds every text that is spelled
right, whatever follows, as long as it cannot grow (`nextToken_complete`).
-/
namespace Loot

/-! ## The spelling of each kind -/

def endingBackslashes (t : Text) : Nat := (t.reverse.takeWhile (· == '\\')).length

/-- What may stand between the quotes of a string.  A quote closes a string if an even number of
backslashes stands right before it: none of the quotes in the body does, and the one after it does. -/
structure IsStringBody (body : Text) : Prop where
  even : endingBackslashes body % 2 = 0
  odd : ∀ before after, body = before ++ '"' :: after → endingBackslashes before % 2 = 1

/-- What may stand between the marks of a comment: the mark that closes it is the first one. -/
def IsCommentBody (body : Text) : Prop :=
  ∀ before after, body ++ ['X', 'x'] = before ++ 'X' :: 'x' :: after → after = []

/-- The text of the kinds that have only one. -/
def Kind.fixedText? : Kind → Option Text
  | .plus => some ['+'] | .minus => some ['-'] | .star => some ['*'] | .slash => some ['/']
  | .assign => some ['='] | .equals => some ['=', '=']
  | .greater => some ['>'] | .greaterEqual => some ['>', '=']
  | .less => some ['<'] | .lessEqual => some ['<', '=']
  | .leftParen => some ['('] | .rightParen => some [')']
  | .leftBrace => some ['\x7b'] | .rightBrace => some ['\x7d']
  | .comma => some [','] | .newline => some ['\n']
  | _ => none

/-- **The texts that a token of a kind may have** in a program. -/
inductive Spells : Kind → Text → Prop
  | fixed {kind : Kind} {text : Text} : kind.fixedText? = some text → Spells kind text
  | blank {c : Char} : c = ' ' ∨ c = '\t' → Spells .blank [c]
  /-- A letter, and letters and digits after it.  The word decides whether it is a keyword. -/
  | word {c : Char} {cs : Text} : isLetter c = true → (∀ d ∈ cs, isAlphanumeric d = true) →
      ¬ ['x', 'X'] <+: c :: cs → Spells (wordKind (c :: cs)) (c :: cs)
  | number {c : Char} {cs : Text} : isDigit c = true → (∀ d ∈ cs, isDigit d = true ∨ d = '.') →
      (Numeral.ofText? (c :: cs)).isSome → Spells .number (c :: cs)
  | string {body : Text} : IsStringBody body → Spells .string ('"' :: body ++ ['"'])
  | comment {body : Text} : IsCommentBody body → Spells .comment ('x' :: 'X' :: body ++ ['X', 'x'])

/-- Would the character make a token of the kind longer, if it came right after it? -/
def Kind.growsBy : Kind → Char → Bool
  | .number, c => isDigit c || c == '.'
  | .assign, c | .greater, c | .less, c => c == '='
  | .identifier, c | .loot, c | .dlc, c | .clutch, c | .retry, c | .ragequit, c | .buffed, c | .nerfed, c
  | .farm, c | .spawn, c | .buff, c | .nerf, c => isAlphanumeric c
  | _, _ => false

/-- A token of the kind cannot grow into the text after it. -/
def Kind.EndsBefore (kind : Kind) (rest : Text) : Prop := ∀ c, rest.head? = some c → kind.growsBy c = false

/-! ## Strings -/

theorem endingBackslashes_le (t : Text) : endingBackslashes t ≤ t.length := by
  have h := (List.takeWhile_sublist (l := t.reverse) (· == '\\')).length_le
  rwa [List.length_reverse] at h

theorem endingBackslashes_cons (c : Char) (t : Text) :
    endingBackslashes (c :: t) =
      if endingBackslashes t = t.length then t.length + (if c = '\\' then 1 else 0) else endingBackslashes t := by
  unfold endingBackslashes
  rw [List.reverse_cons, List.takeWhile_append, List.length_reverse]
  split
  · by_cases hc : c = '\\'
    · simp [hc]
    · simp [hc]
  · rfl

/-- A backslash and the character after it together leave the parity as it is. -/
theorem endingBackslashes_escape (c : Char) (t : Text) :
    endingBackslashes ('\\' :: c :: t) % 2 = endingBackslashes t % 2 := by
  have hle := endingBackslashes_le t
  rw [endingBackslashes_cons, endingBackslashes_cons c t, List.length_cons]
  by_cases ht : endingBackslashes t = t.length
  · by_cases hc : c = '\\'
    · simp [ht, hc]; omega
    · simp [ht, hc]
  · have : endingBackslashes t ≠ t.length + 1 := by omega
    simp [ht, this]

theorem endingBackslashes_plain {c : Char} (hc : c ≠ '\\') (t : Text) :
    endingBackslashes (c :: t) = endingBackslashes t := by
  rw [endingBackslashes_cons]
  split
  · rename_i ht
    exact ht.symm
  · rfl

theorem isStringBody_nil : IsStringBody [] :=
  ⟨rfl, fun before after h => by cases before <;> cases h⟩

theorem not_isStringBody_quote (t : Text) : ¬ IsStringBody ('"' :: t) := fun h =>
  absurd (h.odd [] t rfl) (by decide)

theorem not_isStringBody_backslash : ¬ IsStringBody ['\\'] := fun h => absurd h.even (by decide)

theorem isStringBody_plain {c : Char} (hq : c ≠ '"') (hb : c ≠ '\\') (t : Text) :
    IsStringBody (c :: t) ↔ IsStringBody t := by
  constructor
  · intro h
    refine ⟨by rw [← endingBackslashes_plain hb]; exact h.even, fun before after ht => ?_⟩
    have := h.odd (c :: before) after (by rw [ht]; rfl)
    rwa [endingBackslashes_plain hb] at this
  · intro h
    refine ⟨by rw [endingBackslashes_plain hb]; exact h.even, fun before after ht => ?_⟩
    cases before with
    | nil =>
      simp only [List.nil_append, List.cons.injEq] at ht
      exact absurd ht.1 hq
    | cons d before =>
      simp only [List.cons_append, List.cons.injEq] at ht
      obtain ⟨rfl, ht⟩ := ht
      rw [endingBackslashes_plain hb]
      exact h.odd before after ht

theorem isStringBody_escape (c : Char) (t : Text) : IsStringBody ('\\' :: c :: t) ↔ IsStringBody t := by
  constructor
  · intro h
    refine ⟨by rw [← endingBackslashes_escape c]; exact h.even, fun before after ht => ?_⟩
    have := h.odd ('\\' :: c :: before) after (by rw [ht]; rfl)
    rwa [endingBackslashes_escape] at this
  · intro h
    refine ⟨by rw [endingBackslashes_escape]; exact h.even, fun before after ht => ?_⟩
    match before with
    | [] => cases ht
    | [d] =>
      simp only [List.cons_append, List.cons.injEq] at ht
      obtain ⟨rfl, -⟩ := ht
      rfl
    | d :: e :: before =>
      simp only [List.cons_append, List.cons.injEq] at ht
      obtain ⟨rfl, rfl, ht⟩ := ht
      rw [endingBackslashes_escape]
      exact h.odd before after ht

/-- The body of a string is read in steps: a plain character, or a backslash with the next character. -/
theorem IsStringBody.induct {P : Text → Prop} (nil : P [])
    (plain : ∀ c t, c ≠ '"' → c ≠ '\\' → P t → P (c :: t)) (escape : ∀ c t, P t → P ('\\' :: c :: t)) :
    ∀ {body}, IsStringBody body → P body
  | [], _ => nil
  | c :: t, h => by
    by_cases hb : c = '\\'
    · subst hb
      cases t with
      | nil => exact absurd h not_isStringBody_backslash
      | cons d t => exact escape d t (induct nil plain escape ((isStringBody_escape d t).1 h))
    · have hq : c ≠ '"' := by
        rintro rfl
        exact not_isStringBody_quote t h
      exact plain c t hq hb (induct nil plain escape ((isStringBody_plain hq hb t).1 h))
termination_by body => body.length

theorem closeString_plain {c : Char} (hq : c ≠ '"') (hb : c ≠ '\\') (seen cs : Text) :
    closeString seen (c :: cs) = closeString (c :: seen) cs := by
  rw [closeString]
  · exact hq
  · intro d ds h
    exact absurd h hb

/-- **The scanner closes a string at the quote that closes it.** -/
theorem closeString_complete (rest : Text) {body : Text} (h : IsStringBody body) (seen : Text) :
    closeString seen (body ++ '"' :: rest) = some (seen.reverse ++ body ++ ['"']) := by
  revert seen
  refine IsStringBody.induct (P := fun body => ∀ seen, closeString seen (body ++ '"' :: rest) =
    some (seen.reverse ++ body ++ ['"'])) ?_ ?_ ?_ h
  · intro seen
    simp [closeString]
  · intro c t hq hb ih seen
    rw [List.cons_append, closeString_plain hq hb, ih]
    simp
  · intro c t ih seen
    rw [List.cons_append, List.cons_append, closeString, ih]
    simp

theorem closeString_sound (seen t : Text) {u : Text} (h : closeString seen t = some u) :
    ∃ body rest, t = body ++ '"' :: rest ∧ IsStringBody body ∧ u = seen.reverse ++ body ++ ['"'] := by
  fun_induction closeString seen t with
  | case1 => cases h
  | case2 seen rest =>
    cases h
    exact ⟨[], rest, rfl, isStringBody_nil, by simp⟩
  | case3 seen c cs ih =>
    obtain ⟨body, rest, rfl, hbody, rfl⟩ := ih h
    exact ⟨'\\' :: c :: body, rest, rfl, (isStringBody_escape c body).2 hbody, by simp⟩
  | case4 seen c cs hq hb ih =>
    obtain ⟨body, rest, rfl, hbody, rfl⟩ := ih h
    have hc : c ≠ '\\' := by
      rintro rfl
      cases body with
      | nil => exact hb _ _ rfl rfl
      | cons d body => exact hb _ _ rfl rfl
    exact ⟨c :: body, rest, rfl, (isStringBody_plain hq hc body).2 hbody, by simp⟩

/-! ## Comments -/

theorem isCommentBody_nil : IsCommentBody [] := by
  intro before after h
  match before with
  | [] =>
    cases h
    rfl
  | [_] => cases h
  | _ :: _ :: before => cases before <;> cases h

theorem isCommentBody_cons (c : Char) (t : Text) :
    IsCommentBody (c :: t) ↔ ¬ (c = 'X' ∧ (t ++ ['X', 'x']).head? = some 'x') ∧ IsCommentBody t := by
  constructor
  · intro h
    refine ⟨?_, fun before after ht => h (c :: before) after (by rw [List.cons_append, ht]; rfl)⟩
    rintro ⟨rfl, hx⟩
    cases t with
    | nil => cases hx
    | cons d t =>
      cases hx
      have := h [] (t ++ ['X', 'x']) rfl
      simp at this
  · rintro ⟨hc, h⟩ before after ht
    cases before with
    | nil =>
      simp only [List.cons_append, List.nil_append, List.cons.injEq] at ht
      exact absurd ⟨ht.1, by rw [ht.2]; rfl⟩ hc
    | cons d before =>
      simp only [List.cons_append, List.cons.injEq] at ht
      exact h before after ht.2

theorem closeComment_cons {c : Char} {cs : Text} (h : ¬ (c = 'X' ∧ cs.head? = some 'x')) (seen : Text) :
    closeComment seen (c :: cs) = closeComment (c :: seen) cs := by
  rw [closeComment]
  rintro ds rfl rfl
  exact h ⟨rfl, rfl⟩

/-- **The scanner closes a comment at the first closing mark.** -/
theorem closeComment_complete (rest : Text) : ∀ (body seen : Text), IsCommentBody body →
    closeComment seen (body ++ 'X' :: 'x' :: rest) = some (seen.reverse ++ body ++ ['X', 'x'])
  | [], seen, _ => by simp [closeComment]
  | c :: body, seen, h => by
    obtain ⟨hc, hbody⟩ := (isCommentBody_cons c body).1 h
    have hhead : (body ++ 'X' :: 'x' :: rest).head? = (body ++ ['X', 'x']).head? := by cases body <;> rfl
    rw [List.cons_append, closeComment_cons (by rw [hhead]; exact hc), closeComment_complete rest body _ hbody]
    simp

theorem closeComment_sound (seen t : Text) {u : Text} (h : closeComment seen t = some u) :
    ∃ body rest, t = body ++ 'X' :: 'x' :: rest ∧ IsCommentBody body ∧ u = seen.reverse ++ body ++ ['X', 'x'] := by
  fun_induction closeComment seen t with
  | case1 => cases h
  | case2 seen rest =>
    cases h
    exact ⟨[], rest, rfl, isCommentBody_nil, by simp⟩
  | case3 seen c cs hc ih =>
    obtain ⟨body, rest, rfl, hbody, rfl⟩ := ih h
    refine ⟨c :: body, rest, rfl, (isCommentBody_cons c body).2 ⟨?_, hbody⟩, by simp⟩
    rintro ⟨rfl, hx⟩
    cases body with
    | nil => cases hx
    | cons d body =>
      cases hx
      exact hc _ rfl rfl

/-! ## Signs and words -/

theorem sign?_fixed {c : Char} {kind : Kind} (h : sign? c = some kind) :
    kind.fixedText? = some [c] ∧ ∀ d, kind.growsBy d = false := by
  unfold sign? at h
  split at h <;> cases h <;> exact ⟨rfl, fun _ => rfl⟩

theorem relation?_fixed {c : Char} {alone paired : Kind} (h : relation? c = some (alone, paired)) :
    alone.fixedText? = some [c] ∧ paired.fixedText? = some [c, '='] ∧
      (∀ d, alone.growsBy d = (d == '=')) ∧ ∀ d, paired.growsBy d = false := by
  unfold relation? at h
  split at h <;> cases h <;> exact ⟨rfl, rfl, fun _ => rfl, fun _ => rfl⟩

/-- A word grows by letters and digits, whether it is a keyword or not. -/
theorem wordKind_growsBy (word : Text) (c : Char) : (wordKind word).growsBy c = isAlphanumeric c := by
  have hall : ∀ p ∈ keywords, p.2.growsBy c = isAlphanumeric c := by
    intro p hp
    simp only [keywords, List.mem_cons, List.not_mem_nil, or_false] at hp
    rcases hp with rfl | rfl | rfl | rfl | rfl | rfl | rfl | rfl | rfl | rfl | rfl <;> rfl
  unfold wordKind
  cases hk : keywords.lookup word with
  | none => rfl
  | some kind =>
    obtain ⟨before, after, hs, -⟩ := List.lookup_eq_some_iff.1 hk
    exact hall (word, kind) (by rw [hs]; simp)

/-! ## Classes of characters

No digit is a letter, so the scanner may ask for letters first. -/

/-- Do two ascending lists of ranges lie apart?  The ranges of the second list that lie below the first
range of the other are done with; the others must start above it, which is checked when their turn comes. -/
def apart (floor : Nat) : List (Nat × Nat) → List (Nat × Nat) → Bool
  | [], ss => ss.all fun s => decide (floor < s.1)
  | r :: rs, ss =>
    (ss.takeWhile fun s => decide (s.2 < r.1)).all (fun s => decide (floor < s.1)) &&
      apart (max floor r.2) rs (ss.dropWhile fun s => decide (s.2 < r.1))

theorem inRanges_eq_false_of_apart (n : Nat) : ∀ (rs ss : List (Nat × Nat)) (floor : Nat), apart floor rs ss = true →
    ∀ s ∈ ss, floor < s.1 ∧ (s.1 ≤ n → n ≤ s.2 → inRanges rs n = false)
  | [], ss, floor, h, s, hs => by
    rw [apart, List.all_eq_true] at h
    exact ⟨by simpa using h s hs, fun _ _ => rfl⟩
  | r :: rs, ss, floor, h, s, hs => by
    rw [apart, Bool.and_eq_true, List.all_eq_true] at h
    rw [← List.takeWhile_append_dropWhile (p := fun s => decide (s.2 < r.1)) (l := ss), List.mem_append] at hs
    rw [inRanges]
    rcases hs with hs | hs
    · have hfloor := h.1 s hs
      have hbelow := List.all_eq_true.1 List.all_takeWhile s hs
      simp only [decide_eq_true_eq] at hfloor hbelow
      exact ⟨hfloor, fun _ hn => if_pos (by omega)⟩
    · obtain ⟨hfloor, hin⟩ := inRanges_eq_false_of_apart n rs _ _ h.2 s hs
      refine ⟨by omega, fun hn hn' => ?_⟩
      rw [hin hn hn', if_neg (show ¬ n ≤ r.2 by omega), ite_self]

theorem letterRanges_apart : apart 0 letterRanges (decimalZeros.map fun z => (z, z + 9)) = true ∧
    apart 0 letterRanges loneDigitRanges = true := by
  constructor <;> decide +kernel

theorem exists_of_inRanges (n : Nat) : ∀ rs : List (Nat × Nat), inRanges rs n = true → ∃ r ∈ rs, r.1 ≤ n ∧ n ≤ r.2
  | [], h => by cases h
  | (lo, hi) :: rs, h => by
    rw [inRanges] at h
    split at h
    · cases h
    · split at h
      · exact ⟨(lo, hi), List.mem_cons_self, by omega, by omega⟩
      · obtain ⟨r, hr, hn⟩ := exists_of_inRanges n rs h
        exact ⟨r, List.mem_cons_of_mem _ hr, hn⟩

theorem exists_of_digitValueIn (n : Nat) : ∀ zs : List Nat, (digitValueIn zs n).isSome → ∃ z ∈ zs, z ≤ n ∧ n ≤ z + 9
  | [], h => by cases h
  | z :: zs, h => by
    rw [digitValueIn] at h
    split at h
    · cases h
    · split at h
      · exact ⟨z, List.mem_cons_self, by omega, by omega⟩
      · obtain ⟨y, hy, hn⟩ := exists_of_digitValueIn n zs h
        exact ⟨y, List.mem_cons_of_mem _ hy, hn⟩

theorem isLetter_eq_false_of_isDigit {c : Char} (h : isDigit c = true) : isLetter c = false := by
  unfold isDigit at h
  rw [Bool.or_eq_true] at h
  rcases h with h | h
  · obtain ⟨z, hz, hlo, hhi⟩ := exists_of_digitValueIn _ _ h
    exact (inRanges_eq_false_of_apart _ _ _ 0 letterRanges_apart.1 (z, z + 9) (List.mem_map.2 ⟨z, hz, rfl⟩)).2 hlo hhi
  · obtain ⟨r, hr, hlo, hhi⟩ := exists_of_inRanges _ _ h
    exact (inRanges_eq_false_of_apart _ _ _ 0 letterRanges_apart.2 r hr).2 hlo hhi

/-! ## One token -/

/-- The characters that decide by themselves what token begins with them. -/
def marks : List Char := ['\n', ' ', '\t', ',', '+', '-', '*', '/', '(', ')', '\x7b', '\x7d', '=', '>', '<']

/-- At any other character the scanner asks for a comment, a word, a number and a string, in this order. -/
theorem nextToken_of_not_mark {c : Char} (hc : c ∉ marks) (cs : Text) :
    nextToken c cs =
      if opensComment (c :: cs) then
        match closeComment ['X', 'x'] (cs.drop 1) with
        | some text => .ok (.comment, text)
        | none => .error .unterminatedComment
      else if isLetter c then
        .ok (wordKind (c :: cs.takeWhile isAlphanumeric), c :: cs.takeWhile isAlphanumeric)
      else if isDigit c then
        if (Numeral.ofText? (c :: cs.takeWhile isNumberPart)).isSome then .ok (.number, c :: cs.takeWhile isNumberPart)
        else .error (.invalidNumber (c :: cs.takeWhile isNumberPart))
      else if c = '"' then
        match closeString ['"'] cs with
        | some text => .ok (.string, text)
        | none => .error .unterminatedString
      else .error (.unexpectedCharacter [c]) := by
  simp only [marks, List.mem_cons, List.not_mem_nil, or_false, not_or] at hc
  have hsign : sign? c = none := by
    unfold sign?
    split <;> simp_all
  have hrel : relation? c = none := by
    unfold relation?
    split <;> simp_all
  have h : nextToken c cs = nextToken c cs := rfl
  conv at h => rhs; simp only [nextToken, hsign, hrel, hc, if_false, or_self]
  exact h

theorem not_mem_marks {p : Char → Bool} (hp : marks.all (fun d => !p d) = true) {c : Char} (hc : p c = true) :
    c ∉ marks := by
  intro h
  have := List.all_eq_true.1 hp c h
  simp [hc] at this

theorem opensComment_iff (t : Text) : opensComment t = true ↔ ['x', 'X'] <+: t := by
  constructor
  · intro h
    unfold opensComment at h
    split at h
    · exact ⟨_, rfl⟩
    · cases h
  · rintro ⟨rest, rfl⟩
    rfl

/-- After the longest run of characters that a token grows by, it grows no more. -/
theorem endsBefore_dropWhile {kind : Kind} {p : Char → Bool} (hp : ∀ c, kind.growsBy c = p c) (cs : Text) :
    kind.EndsBefore (cs.dropWhile p) := by
  intro c hc
  have h := List.head?_dropWhile_not p cs
  rw [hc] at h
  rw [hp]
  exact h

/-- The text begins with a token of the kind, which is spelled right and cannot grow. -/
def BeginsWith (kind : Kind) (token text : Text) : Prop :=
  ∃ rest, text = token ++ rest ∧ Spells kind token ∧ kind.EndsBefore rest

theorem beginsWith_relation {c : Char} {alone paired : Kind} (h : relation? c = some (alone, paired)) (cs : Text) :
    if cs.head? = some '=' then BeginsWith paired [c, '='] (c :: cs) else BeginsWith alone [c] (c :: cs) := by
  obtain ⟨halone, hpaired, hgrows, hpgrows⟩ := relation?_fixed h
  split
  · rename_i hhead
    obtain ⟨rest, rfl⟩ := List.head?_eq_some_iff.1 hhead
    exact ⟨rest, rfl, .fixed hpaired, fun d _ => hpgrows d⟩
  · rename_i hhead
    refine ⟨cs, rfl, .fixed halone, fun d hd => ?_⟩
    rw [hgrows, beq_eq_false_iff_ne]
    rintro rfl
    exact hhead hd

theorem beginsWith_comment {c : Char} {cs text : Text} (hopen : opensComment (c :: cs) = true)
    (hclose : closeComment ['X', 'x'] (cs.drop 1) = some text) : BeginsWith .comment text (c :: cs) := by
  obtain ⟨rest, hrest⟩ := (opensComment_iff _).1 hopen
  simp only [List.cons_append, List.nil_append, List.cons.injEq] at hrest
  obtain ⟨rfl, rfl⟩ := hrest
  obtain ⟨body, after, hafter, hbody, rfl⟩ := closeComment_sound _ _ hclose
  refine ⟨after, ?_, .comment hbody, fun _ _ => rfl⟩
  simp only [List.drop_succ_cons, List.drop_zero] at hafter
  rw [hafter]
  simp

theorem beginsWith_word {c : Char} (hletter : isLetter c = true) {cs : Text} (hopen : ¬ opensComment (c :: cs) = true) :
    BeginsWith (wordKind (c :: cs.takeWhile isAlphanumeric)) (c :: cs.takeWhile isAlphanumeric) (c :: cs) := by
  refine ⟨cs.dropWhile isAlphanumeric, ?_, .word hletter ?_ ?_, ?_⟩
  · rw [List.cons_append, List.takeWhile_append_dropWhile]
  · exact List.all_eq_true.1 List.all_takeWhile
  · -- a word is the start of the text, so the text would open a comment as well
    intro hx
    exact hopen ((opensComment_iff _).2 (hx.trans (List.prefix_cons_inj c |>.2 (List.takeWhile_prefix _))))
  · exact endsBefore_dropWhile (wordKind_growsBy _) cs

theorem beginsWith_number {c : Char} (hdigit : isDigit c = true) {cs : Text}
    (hnum : (Numeral.ofText? (c :: cs.takeWhile isNumberPart)).isSome) :
    BeginsWith .number (c :: cs.takeWhile isNumberPart) (c :: cs) := by
  refine ⟨cs.dropWhile isNumberPart, ?_, .number hdigit (fun d hd => ?_) hnum, ?_⟩
  · rw [List.cons_append, List.takeWhile_append_dropWhile]
  · have := List.all_eq_true.1 List.all_takeWhile d hd
    simpa [isNumberPart] using this
  · exact endsBefore_dropWhile (fun _ => rfl) cs

/-- **A token that the scanner finds is spelled right and cannot grow.** -/
theorem nextToken_sound {c : Char} {cs : Text} {kind : Kind} {text : Text} (h : nextToken c cs = .ok (kind, text)) :
    BeginsWith kind text (c :: cs) := by
  unfold nextToken at h
  split at h
  · rename_i hc
    cases h
    exact ⟨cs, rfl, .fixed (by rw [hc]; rfl), fun _ _ => rfl⟩
  split at h
  · rename_i hc
    cases h
    exact ⟨cs, rfl, .blank hc, fun _ _ => rfl⟩
  split at h
  · rename_i hsign
    cases h
    obtain ⟨hfixed, hgrows⟩ := sign?_fixed hsign
    exact ⟨cs, rfl, .fixed hfixed, fun d _ => hgrows d⟩
  · rename_i hrel
    have hbegins := beginsWith_relation hrel cs
    split at h
    · rename_i hhead
      cases h
      rwa [if_pos hhead] at hbegins
    · rename_i hhead
      cases h
      rwa [if_neg hhead] at hbegins
  -- no mark begins the token: it is a comment, a word, a number or a string
  split at h
  · rename_i hopen
    split at h
    · rename_i hclose
      cases h
      exact beginsWith_comment hopen hclose
    · cases h
  rename_i hopen
  split at h
  · rename_i hletter
    cases h
    exact beginsWith_word hletter hopen
  split at h
  · rename_i hdigit
    simp only at h
    split at h
    · rename_i hnum
      cases h
      exact beginsWith_number hdigit hnum
    · cases h
  split at h
  · rename_i hc
    subst hc
    split at h
    · rename_i hclose
      cases h
      obtain ⟨body, rest, rfl, hbody, rfl⟩ := closeString_sound _ _ hclose
      exact ⟨rest, by simp, .string hbody, fun _ _ => rfl⟩
    · cases h
  · cases h

theorem takeWhile_of_endsBefore {kind : Kind} {p : Char → Bool} (hp : ∀ c, kind.growsBy c = p c) {cs rest : Text}
    (hcs : ∀ d ∈ cs, p d = true) (hrest : kind.EndsBefore rest) : (cs ++ rest).takeWhile p = cs := by
  rw [List.takeWhile_append_of_pos hcs]
  have hstop : rest.takeWhile p = [] := by
    cases rest with
    | nil => rfl
    | cons c rest =>
      have hc := hrest c rfl
      rw [hp] at hc
      simp [hc]
  rw [hstop, List.append_nil]

/-- A sign that may be followed by an equals sign is read alone if none follows. -/
theorem nextToken_alone {c : Char} {alone paired : Kind} (hc : c = '=' ∨ c = '>' ∨ c = '<')
    (h : relation? c = some (alone, paired)) {rest : Text} (hrest : alone.EndsBefore rest) :
    nextToken c rest = .ok (alone, [c]) := by
  have hhead : rest.head? ≠ some '=' := by
    intro hr
    have := hrest '=' hr
    rw [(relation?_fixed h).2.2.1] at this
    cases this
  rcases hc with rfl | rfl | rfl
  all_goals
    cases h
    exact if_neg hhead

theorem nextToken_fixed {kind : Kind} {text rest : Text} (h : kind.fixedText? = some text)
    (hrest : kind.EndsBefore rest) : ∃ c cs, text = c :: cs ∧ nextToken c (cs ++ rest) = .ok (kind, text) := by
  cases kind <;> cases h
  case assign => exact ⟨_, _, rfl, nextToken_alone (by decide) rfl hrest⟩
  case greater => exact ⟨_, _, rfl, nextToken_alone (by decide) rfl hrest⟩
  case less => exact ⟨_, _, rfl, nextToken_alone (by decide) rfl hrest⟩
  all_goals exact ⟨_, _, rfl, rfl⟩

/-- **The scanner finds every token that is spelled right and cannot grow.** -/
theorem nextToken_complete {kind : Kind} {text rest : Text} (h : Spells kind text) (hrest : kind.EndsBefore rest) :
    ∃ c cs, text = c :: cs ∧ nextToken c (cs ++ rest) = .ok (kind, text) := by
  cases h with
  | fixed h => exact nextToken_fixed h hrest
  | @blank c hc =>
    refine ⟨c, [], rfl, ?_⟩
    rcases hc with rfl | rfl <;> rfl
  | @word c cs hletter hcs hx =>
    refine ⟨c, cs, rfl, ?_⟩
    have hgrows := wordKind_growsBy (c :: cs)
    have hopen : ¬ opensComment (c :: (cs ++ rest)) = true := by
      intro ho
      obtain ⟨after, hafter⟩ := (opensComment_iff _).1 ho
      simp only [List.cons_append, List.nil_append, List.cons.injEq] at hafter
      obtain ⟨rfl, hafter⟩ := hafter
      cases cs with
      | nil =>
        have hX := hrest 'X' (by rw [← List.nil_append rest, ← hafter]; rfl)
        rw [hgrows] at hX
        exact absurd hX (by decide)
      | cons d cs =>
        simp only [List.cons_append, List.cons.injEq] at hafter
        exact hx ⟨cs, by rw [← hafter.1]; rfl⟩
    rw [nextToken_of_not_mark (not_mem_marks (p := isLetter) (by decide) hletter), if_neg hopen, if_pos hletter,
      takeWhile_of_endsBefore hgrows hcs hrest]
  | @number c cs hdigit hcs hnum =>
    refine ⟨c, cs, rfl, ?_⟩
    have hopen : ¬ opensComment (c :: (cs ++ rest)) = true := by
      intro ho
      obtain ⟨after, hafter⟩ := (opensComment_iff _).1 ho
      simp only [List.cons_append, List.nil_append, List.cons.injEq] at hafter
      obtain ⟨rfl, -⟩ := hafter
      exact absurd hdigit (by decide)
    have hparts : ∀ d ∈ cs, isNumberPart d = true := fun d hd => by simpa [isNumberPart] using hcs d hd
    rw [nextToken_of_not_mark (not_mem_marks (p := isDigit) (by decide) hdigit), if_neg hopen,
      if_neg (by rw [isLetter_eq_false_of_isDigit hdigit]; decide), if_pos hdigit,
      takeWhile_of_endsBefore (p := isNumberPart) (fun _ => rfl) hparts hrest, if_pos hnum]
  | @string body hbody =>
    refine ⟨'"', body ++ ['"'], rfl, ?_⟩
    rw [nextToken_of_not_mark (by decide), List.append_assoc, List.singleton_append, closeString_complete rest hbody]
    rfl
  | @comment body hbody =>
    refine ⟨'x', 'X' :: body ++ ['X', 'x'], rfl, ?_⟩
    have hopen : opensComment ('x' :: ('X' :: body ++ ['X', 'x'] ++ rest)) = true := rfl
    have hdrop : ('X' :: body ++ ['X', 'x'] ++ rest).drop 1 = body ++ 'X' :: 'x' :: rest := by simp
    rw [nextToken_of_not_mark (by decide), if_pos hopen, hdrop, closeComment_complete rest body _ hbody]
    rfl

end Loot
