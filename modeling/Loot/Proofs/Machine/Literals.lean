import Loot.Proofs.Machine.Parallel
import Loot.Proofs.Token.Lines
import Loot.Proofs.Tree.Settled
/-!
# Every string has a literal

A string is written as a literal by escaping what cannot stand between quotes.  Newlines and tabs may be escaped or
not, each as one likes.  The scanner and the reading of escapes go through a literal apart from each other and both
take a backslash together with the character after it: so the literal is one token, it stands for the string that was
written, and a program can bind every string to a name (`literal_denotes`).
-/
namespace Loot

/-! ## Writing a literal -/

/-- A character between the quotes of a literal.  A newline or a tab may stand there raw. -/
def writtenChar (raw : Bool) : Char → Text
  | '\\' => ['\\', '\\']
  | '"' => ['\\', '"']
  | '\r' => ['\\', 'r']
  | '\n' => if raw then ['\n'] else ['\\', 'n']
  | '\t' => if raw then ['\t'] else ['\\', 't']
  | c => [c]

/-- A string between the quotes of a literal, given for each of its places whether a newline or a tab there stands
raw. -/
def writtenBody (raw : Nat → Bool) : Text → Text
  | [] => []
  | c :: s => writtenChar (raw 0) c ++ writtenBody (fun i => raw (i + 1)) s

def literalOf (raw : Nat → Bool) (s : Text) : Text := '"' :: writtenBody raw s ++ ['"']

/-- A character stands for itself and is none that a literal cannot hold, or it is written as its escape. -/
theorem writtenChar_cases (raw : Bool) (c : Char) :
    (writtenChar raw c = [c] ∧ c ≠ '"' ∧ c ≠ '\\' ∧ c ≠ '\r') ∨
      ∃ e, writtenChar raw c = ['\\', e] ∧ escape? e = some c := by
  unfold writtenChar
  split
  · exact .inr ⟨'\\', rfl, rfl⟩
  · exact .inr ⟨'"', rfl, rfl⟩
  · exact .inr ⟨'r', rfl, rfl⟩
  · cases raw
    · exact .inr ⟨'n', rfl, rfl⟩
    · exact .inl ⟨rfl, by decide⟩
  · cases raw
    · exact .inr ⟨'t', rfl, rfl⟩
    · exact .inl ⟨rfl, by decide⟩
  · rename_i hbackslash hquote hreturn _ _
    exact .inl ⟨rfl, hquote, hbackslash, hreturn⟩

/-! ## Reading it back -/

theorem isStringBody_written : ∀ (s : Text) (raw : Nat → Bool), IsStringBody (writtenBody raw s)
  | [], _ => isStringBody_nil
  | c :: s, raw => by
    have ih := isStringBody_written s (fun i => raw (i + 1))
    rw [writtenBody]
    rcases writtenChar_cases (raw 0) c with ⟨hc, hquote, hbackslash, -⟩ | ⟨e, he, -⟩
    · rw [hc, List.singleton_append]
      exact (isStringBody_plain hquote hbackslash _).2 ih
    · rw [he]
      exact (isStringBody_escape e _).2 ih

theorem literalBody_plain {c : Char} (hc : c ≠ '\\') (done cs : Text) :
    literalBody done (c :: cs) = literalBody (c :: done) cs := by
  rw [literalBody]
  intro d ds h
  exact absurd h hc

theorem literalBody_written : ∀ (s : Text) (raw : Nat → Bool) (done : Text),
    literalBody done (writtenBody raw s) = done.reverse ++ s
  | [], _, done => by rw [writtenBody, literalBody, List.append_nil]
  | c :: s, raw, done => by
    have ih := literalBody_written s (fun i => raw (i + 1)) (c :: done)
    rw [List.reverse_cons, List.append_assoc, List.singleton_append] at ih
    rw [writtenBody]
    rcases writtenChar_cases (raw 0) c with ⟨hc, -, hbackslash, -⟩ | ⟨e, he, hescape⟩
    · rw [hc, List.singleton_append, literalBody_plain hbackslash, ih]
    · rw [he, List.cons_append, List.cons_append, List.nil_append, literalBody, hescape]
      exact ih

/-- **A literal stands for the string that was written.** -/
theorem literalText_literalOf (raw : Nat → Bool) (s : Text) : literalText (literalOf raw s) = s := by
  unfold literalText literalOf
  rw [List.cons_append, List.drop_one, List.tail_cons, List.dropLast_concat, literalBody_written]
  rfl

/-! ## The literal as a token -/

theorem escape?_holdsNoReturn {e c : Char} (h : escape? e = some c) : e ≠ '\r' ∧ e ≠ '\x0b' ∧ e ≠ '\x0c' := by
  refine ⟨?_, ?_, ?_⟩ <;>
  · rintro rfl
    simp [escape?] at h

/-- What a literal holds of a string is taken out by no scan, if the string has no vertical tabs and form feeds. -/
theorem mem_writtenBody : ∀ (s : Text) (raw : Nat → Bool), (∀ c ∈ s, c ≠ '\x0b' ∧ c ≠ '\x0c') →
    ∀ d ∈ writtenBody raw s, d ≠ '\r' ∧ d ≠ '\x0b' ∧ d ≠ '\x0c'
  | [], _, _, d, hd => nomatch hd
  | c :: s, raw, h, d, hd => by
    obtain ⟨hc, hs⟩ := List.forall_mem_cons.1 h
    rw [writtenBody, List.mem_append] at hd
    rcases hd with hd | hd
    · rcases writtenChar_cases (raw 0) c with ⟨hw, -, -, hreturn⟩ | ⟨e, he, hescape⟩
      · rw [hw, List.mem_singleton] at hd
        rw [hd]
        exact ⟨hreturn, hc⟩
      · rw [he, List.mem_cons, List.mem_singleton] at hd
        rcases hd with rfl | rfl
        · decide
        · exact escape?_holdsNoReturn hescape
    · exact mem_writtenBody s _ hs d hd

theorem mem_literalOf {raw : Nat → Bool} {s : Text} (h : ∀ c ∈ s, c ≠ '\x0b' ∧ c ≠ '\x0c') :
    ∀ d ∈ literalOf raw s, d ≠ '\r' ∧ d ≠ '\x0b' ∧ d ≠ '\x0c' := by
  intro d hd
  have hquote : '"' ≠ '\r' ∧ '"' ≠ '\x0b' ∧ '"' ≠ '\x0c' := by decide
  simp only [literalOf, List.mem_append, List.mem_cons, List.not_mem_nil, or_false] at hd
  rcases hd with (rfl | hd) | rfl
  · exact hquote
  · exact mem_writtenBody s raw h d hd
  · exact hquote

theorem spells_literalOf (raw : Nat → Bool) (s : Text) : Spells .string (literalOf raw s) :=
  .string (isStringBody_written s raw)

theorem shownLexeme_literalOf (raw : Nat → Bool) (s : Text) : shownLexeme (literalOf raw s) = literalOf raw s := by
  have htab : literalOf raw s ≠ ['\t'] := by
    intro h
    cases h
  exact if_neg htab

/-- Pieces that hold no returns are scanned as they stand. -/
theorem scanText_pieces {ps : List Piece} (hcut : Cut ps) (hreturns : ∀ p ∈ ps, p.HoldsNoReturn) :
    scanText (textOf ps) = .ok (tokensOf 1 ps) :=
  (scanText_eq_ok_iff _ _).2 ⟨ps, hcut, ((withoutReturns_textOf ps).2 hreturns).symm, rfl⟩

/-! ## The literal in a program -/

/-- The pieces of `loot x =` and a literal after it. -/
def bindingPieces (literal : Text) : List Piece :=
  [⟨.loot, ['l', 'o', 'o', 't']⟩, ⟨.blank, [' ']⟩, ⟨.identifier, ['x']⟩, ⟨.blank, [' ']⟩, ⟨.assign, ['=']⟩,
    ⟨.blank, [' ']⟩, ⟨.string, literal⟩]

theorem textOf_bindingPieces (literal : Text) : textOf (bindingPieces literal) = "loot x = ".toList ++ literal := by
  simp [bindingPieces, textOf]

theorem cut_bindingPieces {literal : Text} (h : Spells .string literal) : Cut (bindingPieces literal) := by
  have hoot : (['o', 'o', 't'].all isAlphanumeric) = true := by decide +kernel
  have hloot : Spells (wordKind ['l', 'o', 'o', 't']) ['l', 'o', 'o', 't'] :=
    .word (by decide +kernel) (List.all_eq_true.1 hoot) (by decide)
  have hx : Spells (wordKind ['x']) ['x'] := .word (by decide +kernel) (fun _ hd => nomatch hd) (by decide)
  refine ⟨hloot, ?_, .blank (.inl rfl), fun _ _ => rfl, hx, ?_, .blank (.inl rfl), fun _ _ => rfl, .fixed rfl, ?_,
    .blank (.inl rfl), fun _ _ => rfl, h, fun _ _ => rfl, trivial⟩
  all_goals
    intro c hc
    cases hc
    decide +kernel

theorem holdsNoReturn_bindingPieces {literal : Text}
    (h : ∀ c ∈ literal, c ≠ '\r' ∧ c ≠ '\x0b' ∧ c ≠ '\x0c') : ∀ p ∈ bindingPieces literal, p.HoldsNoReturn := by
  intro p hp
  simp only [bindingPieces, List.mem_cons, List.not_mem_nil, or_false] at hp
  rcases hp with rfl | rfl | rfl | rfl | rfl | rfl | rfl
  case inr.inr.inr.inr.inr.inr => exact h
  all_goals simp [Piece.HoldsNoReturn]

/-- The statement that these pieces are read as. -/
theorem readProgram_bindingPieces (literal : Text) :
    readProgram (tokensOf 1 (bindingPieces literal)) =
      .ok [.declare ⟨.identifier, ['x'], some 1⟩ (some (.literal ⟨.string, shownLexeme literal, some 1⟩))] := by
  rfl

theorem runSource_literalOf (limits : Limits) (raw : Nat → Bool) {s : Text}
    (h : ∀ c ∈ s, c ≠ '\x0b' ∧ c ≠ '\x0c') (m : Machine) :
    runSource limits ("loot x = ".toList ++ literalOf raw s) m =
      .ok .normal { m with scope := m.scope.set ['x'] (.string s) } := by
  have hscan := scanText_pieces (cut_bindingPieces (spells_literalOf raw s))
    (holdsNoReturn_bindingPieces (mem_literalOf h))
  have hread : scanText ("loot x = ".toList ++ literalOf raw s) >>= readProgram =
      .ok [.declare ⟨.identifier, ['x'], some 1⟩ (some (.literal ⟨.string, literalOf raw s, some 1⟩))] := by
    rw [← textOf_bindingPieces, hscan, ← shownLexeme_literalOf raw s]
    exact readProgram_bindingPieces _
  rw [runSource_of_read hread]
  have hvalue : literalValue ⟨.string, literalOf raw s, some 1⟩ m = .ok (.string s) m :=
    congrArg (EStateM.Result.ok · m) (congrArg Value.string (literalText_literalOf raw s))
  simp only [Stmt.execAll, Stmt.exec, Expr.eval, bind, EStateM.bind, hvalue]
  rfl

/-- **Every string can be written as a literal.**  Let a string have no vertical tabs and form feeds, and let each of
its newlines and tabs stand raw or escaped.  The literal is one token and the end of file is the next; it stands for the
string; and binding it to a name does that, on every machine, and nothing else. -/
theorem literal_denotes (raw : Nat → Bool) (s : Text) (h : ∀ c ∈ s, c ≠ '\x0b' ∧ c ≠ '\x0c') :
    scanText (literalOf raw s) = .ok [⟨.string, literalOf raw s, some 1⟩,
      ⟨.endOfFile, [], some ((1 + (literalOf raw s).newlines : Nat) : Int)⟩] ∧
    literalText (literalOf raw s) = s ∧
    ∀ (limits : Limits) (m : Machine), runSource limits ("loot x = ".toList ++ literalOf raw s) m =
      .ok .normal { m with scope := m.scope.set ['x'] (.string s) } := by
  refine ⟨?_, literalText_literalOf raw s, fun limits m => runSource_literalOf limits raw h m⟩
  have hcut : Cut [⟨.string, literalOf raw s⟩] := ⟨spells_literalOf raw s, fun _ _ => rfl, trivial⟩
  have hscan := scanText_pieces hcut (fun p hp => by rw [List.mem_singleton.1 hp]; exact mem_literalOf h)
  rw [textOf, List.flatMap_singleton, tokensOf, tokensOf, shownLexeme_literalOf] at hscan
  exact hscan

/-- Backslashes before a letter and before a quote, a return, and two newlines. -/
def riddle : Text := ['\\', 'n', '\\', '\\', '"', '\r', '\n', '\n', 'x']

/-- Only the second newline of the riddle stands raw. -/
def riddleRaw (i : Nat) : Bool := i == 7

theorem literal_denotes_all_escapes :
    literalOf riddleRaw riddle = "\"\\\\n\\\\\\\\\\\"\\r\\n\nx\"".toList ∧
    scanText (literalOf riddleRaw riddle) =
      .ok [⟨.string, literalOf riddleRaw riddle, some 1⟩, ⟨.endOfFile, [], some 2⟩] ∧
    literalText (literalOf riddleRaw riddle) = riddle ∧
    ∀ (limits : Limits) (m : Machine), runSource limits ("loot x = ".toList ++ literalOf riddleRaw riddle) m =
      .ok .normal { m with scope := m.scope.set ['x'] (.string riddle) } :=
  ⟨by decide, literal_denotes riddleRaw riddle (by simp [riddle])⟩

end Loot
