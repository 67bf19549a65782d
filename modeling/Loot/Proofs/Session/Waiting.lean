import Loot.Proofs.Session.Endings
import Loot.Proofs.Tree.Cutoff
/-!
# When the shell waits for another line

The shell waits while a string, a comment or a block is open, and counts braces to see whether a block is.  That is the
right time to wait in both ways.  A text that it holds back could not run (`withheld_unreadable`), because whatever can
be read has its braces closed.  And a text that it lets through with a fault cannot be mended by what might be typed
after it (`fault_beyond_repair`), because a program that goes on below a line is cut by it into a program or an open
block.
-/
namespace Loot

/-! ## Counting braces -/

theorem countKind_dropTrivia {kind : Kind} (h : kind.isTrivia = false) (ts : List Token) :
    countKind kind (dropTrivia ts) = countKind kind ts := by
  unfold countKind dropTrivia
  rw [List.countP_filter]
  refine List.countP_congr (fun t _ => ⟨fun ht => (Bool.and_eq_true_iff.1 ht).1, fun ht => ?_⟩)
  rw [ht, beq_iff_eq.1 ht, h]
  rfl

theorem countKind_eof {kind : Kind} (h : kind ≠ .endOfFile) {eof : Token} (heof : eof.kind = .endOfFile)
    (body : List Token) : countKind kind (body ++ [eof]) = countKind kind body := by
  have hsingle : countKind kind [eof] = 0 := by
    rw [countKind_cons, heof, if_neg (Ne.symm h)]
    rfl
  unfold countKind at hsingle ⊢
  rw [List.countP_append, hsingle, Nat.add_zero]

section Balance

variable {body : List Token} {eof : Token} {program : List Stmt}

/-- **The braces of a program are balanced**, and on the way through its tokens no more are closed than were opened. -/
theorem braces_of_read (hbody : ∀ t ∈ body, t.kind ≠ .endOfFile) (heof : eof.kind = .endOfFile)
    (h : readProgram (body ++ [eof]) = .ok program) :
    countKind .leftBrace (body ++ [eof]) = countKind .rightBrace (body ++ [eof]) ∧
      ∀ p, p <+: body ++ [eof] → countKind .rightBrace p ≤ countKind .leftBrace p := by
  have hnests := ((readProgram_eq_ok_iff hbody heof program).1 h).nests
  have hplain : ∀ ts, countKind .rightBrace ts = countKind .rightBrace (dropTrivia ts) ∧
      countKind .leftBrace ts = countKind .leftBrace (dropTrivia ts) := fun ts =>
    ⟨(countKind_dropTrivia rfl ts).symm, (countKind_dropTrivia rfl ts).symm⟩
  have hle : ∀ p, p <+: body → countKind .rightBrace p ≤ countKind .leftBrace p := by
    intro p hp
    obtain ⟨hright, hleft⟩ := hplain p
    rw [hright, hleft]
    refine hnests.prefix_le 0 _ (hp.filter _) (fun q hq => ?_)
    rw [List.prefix_nil.1 hq]
    exact Nat.le_refl _
  have hall : countKind .rightBrace body = countKind .leftBrace body := by
    rw [(hplain body).1, (hplain body).2, hnests.closes_all]
  have hwhole : countKind .leftBrace (body ++ [eof]) = countKind .rightBrace (body ++ [eof]) := by
    rw [countKind_eof (by decide) heof, countKind_eof (by decide) heof, hall]
  refine ⟨hwhole, fun p hp => ?_⟩
  rcases List.prefix_concat_iff.1 hp with rfl | hp
  · exact Nat.le_of_eq hwhole.symm
  · exact hle p hp

end Balance

/-! ## Texts that are held back -/

theorem needsMore_of_scan {text : Text} {ts : List Token} (h : scanText text = .ok ts) :
    needsMore text = decide (countKind .rightBrace ts < countKind .leftBrace ts) := by
  rw [needsMore, h]

theorem needsMore_of_fault {text : Text} {f : Fault} (h : scanText text = .error f) :
    needsMore text = f.cause.isUnclosed := by
  rw [needsMore, h]
  rfl

/-- **What the shell holds back could not run.**  Let a line be typed after the text kept before.  If the shell waits
for more, the text so far is refused, for a string or a comment that is not closed, or for a fault of the grammar, and
running it does nothing else.  For the tokens of every program have as many braces closed as opened, and of no
tokens at its front more are closed than opened. -/
theorem withheld_unreadable :
    (∀ before line : Text, needsMore (joinLine before line) = true → ∃ f : Fault,
      ((scanText (joinLine before line) = .error f ∧
          (f.cause = .unterminatedString ∨ f.cause = .unterminatedComment)) ∨
        ∃ ts, scanText (joinLine before line) = .ok ts ∧ readProgram ts = .error f ∧ ∃ text, f.cause = .grammar text) ∧
      ∀ (limits : Limits) (m : Machine), runSource limits (joinLine before line) m = .error (.fault f) m) ∧
    ∀ (body : List Token) (eof : Token) (program : List Stmt), (∀ t ∈ body, t.kind ≠ .endOfFile) →
      eof.kind = .endOfFile → readProgram (body ++ [eof]) = .ok program →
        countKind .leftBrace (body ++ [eof]) = countKind .rightBrace (body ++ [eof]) ∧
          ∀ p, p <+: body ++ [eof] → countKind .rightBrace p ≤ countKind .leftBrace p := by
  refine ⟨fun before line hmore => ?_, fun body eof program hbody heof h => braces_of_read hbody heof h⟩
  generalize joinLine before line = text at hmore
  cases hscan : scanText text with
  | error f =>
    rw [needsMore_of_fault hscan, Cause.isUnclosed, Bool.or_eq_true, beq_iff_eq, beq_iff_eq] at hmore
    refine ⟨f, .inl ⟨rfl, hmore⟩, fun limits m => ?_⟩
    rw [runSource_eq, hscan]
    rfl
  | ok ts =>
    rw [needsMore_of_scan hscan, decide_eq_true_eq] at hmore
    obtain ⟨body, eof, rfl, hscanned⟩ := scanText_scanned hscan
    cases hread : readProgram (body ++ [eof]) with
    | ok program =>
      have hbalance := (braces_of_read hscanned.kind_body hscanned.kind_eof hread).1
      omega
    | error f =>
      have hgrammar := readProgram_error hscanned.kind_body hscanned.kind_eof hread
      refine ⟨f, .inr ⟨_, rfl, hread, hgrammar.cause⟩, fun limits m => ?_⟩
      have hbind : scanText text >>= readProgram = .error f := by
        rw [hscan]
        exact hread
      rw [runSource_eq, hbind]

/-- The first line of a function. -/
def vault : Text := "dlc f() \x7b".toList

/-- A block in a block and a third after them, with a blank between. -/
def chambers : List Token :=
  [⟨.leftBrace, ['\x7b'], some 1⟩, ⟨.leftBrace, ['\x7b'], some 1⟩, ⟨.rightBrace, ['\x7d'], some 1⟩,
    ⟨.rightBrace, ['\x7d'], some 1⟩, ⟨.blank, [' '], some 1⟩, ⟨.leftBrace, ['\x7b'], some 1⟩,
    ⟨.rightBrace, ['\x7d'], some 1⟩]

/-- The shell waits in the middle of a function, and between the blocks of a program all braces are closed. -/
theorem withheld_unreadable_open_function :
    needsMore (joinLine vault "spawn 1".toList) = true ∧
    (∃ f : Fault, ∀ (limits : Limits) (m : Machine),
      runSource limits (joinLine vault "spawn 1".toList) m = .error (.fault f) m) ∧
    ∃ program, readProgram (chambers ++ [⟨.endOfFile, [], some 1⟩]) = .ok program ∧
      countKind .rightBrace (chambers.take 5) ≤ countKind .leftBrace (chambers.take 5) := by
  have hmore : needsMore (joinLine vault "spawn 1".toList) = true := by decide +kernel
  obtain ⟨f, -, hrun⟩ := withheld_unreadable.1 vault "spawn 1".toList hmore
  obtain ⟨program, hread⟩ : ∃ program, readProgram (chambers ++ [⟨.endOfFile, [], some 1⟩]) = .ok program := ⟨_, rfl⟩
  obtain ⟨-, hle⟩ := withheld_unreadable.2 chambers _ program (by decide) rfl hread
  exact ⟨hmore, ⟨f, hrun⟩, program, hread, hle _ ((List.take_prefix 5 _).trans (List.prefix_append _ _))⟩

/-! ## Texts that are let through -/

/-- **The first text of a program** with a newline and another text after it is a program itself, or it leaves a block
open. -/
theorem read_first {text after : Text} {body : List Token} {eof : Token} (hscan : scanText text = .ok (body ++ [eof]))
    (hscanned : Scanned text body eof) {program : List Stmt}
    (hjoined : scanText (text ++ '\n' :: after) >>= readProgram = .ok program) :
    (∃ program', readProgram (body ++ [eof]) = .ok program') ∨ LeavesOpen (dropTrivia body) := by
  obtain ⟨joined, last, hscanj, -, hreads⟩ := source_ok hjoined
  obtain ⟨ts', hscan'⟩ := scanText_second hscan hscanj
  obtain ⟨body', eof', rfl, -⟩ := scanText_scanned hscan'
  have htokens := scanText_joined hscan hscan'
  rw [hscanj, List.dropLast_concat, List.map_append, List.map_singleton, ← List.cons_append,
    ← List.append_assoc] at htokens
  obtain ⟨hjoin, -⟩ := List.append_inj' (Except.ok.inj htokens) rfl
  rw [hjoin, dropTrivia_joined (Token.moved_kind _) rfl] at hreads
  rcases hreads.cut rfl (dropTrivia body) rfl with ⟨program', hread⟩ | hopen
  · exact .inl ⟨program', (readProgram_eq_ok_iff hscanned.kind_body hscanned.kind_eof program').2 hread⟩
  · exact .inr hopen

/-- **A fault that the shell reports is there for good.**  If the shell does not wait for more and the text cannot be
scanned and read, then neither can the text with a newline and any other text after it. -/
theorem fault_beyond_repair {text : Text} (hmore : needsMore text = false) {f : Fault}
    (h : scanText text >>= readProgram = .error f) (after : Text) :
    ∃ f', scanText (text ++ '\n' :: after) >>= readProgram = .error f' := by
  cases hscan : scanText text with
  | error f₀ =>
    rw [needsMore_of_fault hscan] at hmore
    rw [scanText_error_newline hscan hmore]
    exact ⟨f₀, rfl⟩
  | ok ts =>
    obtain ⟨body, eof, rfl, hscanned⟩ := scanText_scanned hscan
    cases hjoined : scanText (text ++ '\n' :: after) >>= readProgram with
    | error f' => exact ⟨f', rfl⟩
    | ok program =>
      rcases read_first hscan hscanned hjoined with ⟨program', hread⟩ | hopen
      · rw [hscan] at h
        exact nomatch hread.symm.trans h
      · rw [needsMore_of_scan hscan, decide_eq_false_iff_not, countKind_eof (by decide) hscanned.kind_eof,
          countKind_eof (by decide) hscanned.kind_eof] at hmore
        rw [LeavesOpen, countKind_dropTrivia rfl, countKind_dropTrivia rfl] at hopen
        exact absurd hopen hmore

/-- A declaration that lacks its value. -/
def unpaid : Text := "loot hp =".toList

/-- The value does not help on the next line. -/
theorem fault_beyond_repair_missing_value :
    needsMore unpaid = false ∧ (∃ f, scanText unpaid >>= readProgram = .error f) ∧
    ∃ f', scanText (unpaid ++ '\n' :: ['1']) >>= readProgram = .error f' := by
  have hmore : needsMore unpaid = false := by decide +kernel
  have hfails : (scanText unpaid >>= readProgram).toBool = false := by decide +kernel
  cases h : scanText unpaid >>= readProgram with
  | ok program =>
    rw [h] at hfails
    cases hfails
  | error f => exact ⟨hmore, ⟨f, rfl⟩, fault_beyond_repair hmore h ['1']⟩

end Loot
