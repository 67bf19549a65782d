import Loot.Proofs.Machine.Recast
import Loot.Proofs.Text.Blanks
import Loot.Proofs.Token.Spelling
import Loot.Session.Shell
/-!
# The step of a shell

What a step of the shell can do is said once (`Stepped`): it does nothing but answer, it keeps a line of program, or it
feeds its session the text that the line completes, and is left alike however that ends.  Which lines are program is
said without the way in which commands are recognised (`program?`).
-/
namespace Loot

/-! ## Commands -/

namespace Shell

def commandWords : List Text := ["help".toList, "exit".toList, "EOF".toList]

theorem not_isCommandChar_of_isBlank {c : Char} (h : isBlank c = true) : isCommandChar c = false := by
  obtain ⟨r, hr, hlow, hhigh⟩ := exists_of_inRanges _ _ h
  have hle : ∀ d : Char, (decide (d ≤ c)) = decide (d.toNat ≤ c.toNat) := fun _ => rfl
  have hge : ∀ d : Char, (decide (c ≤ d)) = decide (c.toNat ≤ d.toNat) := fun _ => rfl
  have hscore : (c == '_') = decide (c.toNat = '_'.toNat) := by
    rw [Bool.eq_iff_iff, beq_iff_eq, decide_eq_true_eq]
    exact ⟨fun h => h ▸ rfl, fun h => Char.ext (UInt32.toNat_inj.1 h)⟩
  rw [isCommandChar, hle, hle, hle, hge, hge, hge, hscore]
  simp only [blankRanges, List.mem_cons, List.not_mem_nil, or_false] at hr
  rcases hr with rfl | rfl | rfl | rfl | rfl | rfl | rfl | rfl | rfl | rfl
  all_goals
    simp only [Char.reduceToNat, Bool.or_eq_false_iff, Bool.and_eq_false_iff, decide_eq_false_iff_not] at *
    omega

/-- A word of command characters with blanks after it is the command that the line consists of. -/
theorem command?_word {word blanks : Text} (hword : ∀ c ∈ word, isCommandChar c = true)
    (hblanks : ∀ c ∈ blanks, isBlank c = true) : command? (word ++ blanks) = some word := by
  have htake : (word ++ blanks).takeWhile isCommandChar = word := by
    rw [List.takeWhile_append_of_pos hword]
    cases blanks with
    | nil => exact List.append_nil word
    | cons c cs =>
      have hc := not_isCommandChar_of_isBlank (hblanks c List.mem_cons_self)
      rw [List.takeWhile_cons_of_neg (by rw [hc]; decide), List.append_nil]
  unfold command?
  simp only [htake, List.drop_left, (Text.strip_eq_nil_iff blanks).2 hblanks, List.isEmpty_nil, if_true]

theorem command?_eq_some {line word : Text} (h : command? line = some word) :
    ∃ blanks, line = word ++ blanks ∧ ∀ c ∈ blanks, isBlank c = true := by
  unfold command? at h
  simp only at h
  split at h
  · rename_i hblanks
    cases h
    rw [List.isEmpty_iff, Text.strip_eq_nil_iff] at hblanks
    exact ⟨_, (List.prefix_iff_eq_append.1 (List.takeWhile_prefix _)).symm, hblanks⟩
  · cases h

theorem head?_cleaned {line : Text} {c : Char} (h : (cleaned line).head? = some c) : isBlank c = false := by
  unfold cleaned at h
  split at h
  · cases h
    decide
  · exact Text.head?_strip h

theorem cleaned_eq_nil_iff (line : Text) : cleaned line = [] ↔ line.strip = [] := by
  unfold cleaned
  split
  · rename_i hstrip
    simp [hstrip]
  · rfl

/-- **A cleaned line is a command exactly if it is the word, blanks after it aside.** -/
theorem command?_cleaned {line word : Text} (hword : word ∈ commandWords) :
    command? (cleaned line) = some word ↔ Text.strip (cleaned line) = word := by
  have hends : (∀ c, word.head? = some c → isBlank c = false) ∧ (∀ c, word.getLast? = some c → isBlank c = false) ∧
      ∀ c ∈ word, isCommandChar c = true := by
    have hchars : (commandWords.all fun word => word.all isCommandChar) = true := by decide
    refine ⟨?_, ?_, List.all_eq_true.1 (List.all_eq_true.1 hchars word hword)⟩
    all_goals
      simp only [commandWords, List.mem_cons, List.not_mem_nil, or_false] at hword
      rcases hword with rfl | rfl | rfl <;> rintro c ⟨⟩ <;> decide
  obtain ⟨hhead, hlast, hchars⟩ := hends
  constructor
  · intro h
    obtain ⟨blanks, hline, hblanks⟩ := command?_eq_some h
    rw [hline]
    exact Text.strip_of_ends [] blanks hhead hlast (fun _ h => nomatch h) hblanks
  · intro h
    have hparts := Text.strip_parts (cleaned line)
    rw [Text.blanksBefore_eq_nil (fun _ => head?_cleaned), List.nil_append, h] at hparts
    rw [← hparts]
    exact command?_word hchars Text.isBlank_of_mem_blanksAfter

/-! ## What a step does -/

/-- **The line of program that a typed line is**, if it is one: it is not blank, and no command, which it can only be
while nothing is kept. -/
def program? (buffer line : Text) : Option Text :=
  if line.strip = [] ∨ buffer = [] ∧ Text.strip (cleaned line) ∈ commandWords then none else some (cleaned line)

/-- The shell after it kept a line of program. -/
def keeping (sh : Shell) (text : Text) : Shell :=
  { sh with buffer := joinLine sh.buffer text, lineNumber := sh.lineNumber + 1, prompt := secondaryPrompt }

/-- The shell after a line of program completed what was kept, given what its session became. -/
def passing (sh : Shell) (s : Session) : Shell :=
  { session := s, buffer := [], lineNumber := sh.lineNumber + 1, prompt := primaryPrompt }

/-- **What a step can do.** -/
inductive Stepped (sh : Shell) (line : Text) : EStateM.Result Stop Shell Reply → Prop
  /-- The line is blank or a command, and nothing happens but the answer. -/
  | answered (reply : Reply) : program? sh.buffer line = none →
      (reply.isDone = true ↔ sh.buffer = [] ∧ (line.strip = "exit".toList ∨ line.strip = "EOF".toList)) →
      Stepped sh line (.ok reply sh)
  /-- The text so far is kept, because it needs another line. -/
  | kept {text : Text} : program? sh.buffer line = some text → needsMore (joinLine sh.buffer text) = true →
      Stepped sh line (.ok {} (sh.keeping text))
  /-- The text so far is fed to the session, with the number of the line. -/
  | fed {text : Text} {s : Session} (flow : Option Flow) : program? sh.buffer line = some text →
      needsMore (joinLine sh.buffer text) = false →
      Session.guarded (Session.feed (joinLine sh.buffer text) (some ((sh.lineNumber + 1 : Nat) : Int))) sh.session =
        .ok flow s → Stepped sh line (.ok {} (sh.passing s))
  /-- It is fed to the session, which stops. -/
  | stopped {text : Text} {s : Session} {stop : Stop} : program? sh.buffer line = some text →
      needsMore (joinLine sh.buffer text) = false →
      Session.guarded (Session.feed (joinLine sh.buffer text) (some ((sh.lineNumber + 1 : Nat) : Int))) sh.session =
        .error stop s → Stepped sh line (.error stop (sh.passing s))

theorem eq_some_of_map_ofList {o : Option Text} {word : String} (h : o.map String.ofList = some word) :
    o = some word.toList := by
  cases o with
  | none => cases h
  | some text =>
    cases h
    rw [String.toList_ofList]

theorem step_blank {line : Text} (h : line.strip = []) (sh : Shell) : step line sh = .ok {} sh := by
  unfold step
  rw [(cleaned_eq_nil_iff line).2 h]
  rfl

/-- **A line that completes a text is the feeding of it**, in the shell where nothing is kept any more. -/
theorem takeLine_complete {sh : Shell} {text : Text} (hmore : needsMore (joinLine sh.buffer text) = false) :
    (do takeLine text; return {} : InShell Reply) sh = (do
      let _ ← inSession (Session.guarded
        (Session.feed (joinLine sh.buffer text) (some ((sh.lineNumber + 1 : Nat) : Int))))
      return {} : InShell Reply) (sh.passing sh.session) := by
  unfold takeLine
  simp only [bind_assoc]
  rw [get_bind_apply, if_neg (by rw [hmore]; decide)]
  simp only [bind_assoc, pure_bind]
  rfl

/-- A line of program is kept, or what it completes is fed to the session. -/
theorem stepped_takeLine {sh : Shell} {line text : Text} (h : program? sh.buffer line = some text) :
    Stepped sh line ((do takeLine text; return {} : InShell Reply) sh) := by
  cases hmore : needsMore (joinLine sh.buffer text) with
  | true =>
    unfold takeLine
    simp only [bind_assoc]
    rw [get_bind_apply, if_pos hmore]
    exact .kept h hmore
  | false =>
    rw [takeLine_complete hmore]
    cases hfeed : Session.guarded (Session.feed (joinLine sh.buffer text) (some ((sh.lineNumber + 1 : Nat) : Int)))
        sh.session with
    | ok flow s =>
      have hfed := Stepped.fed flow h hmore hfeed
      simp only [bind, EStateM.bind, inSession, passing, hfeed]
      exact hfed
    | error stop s =>
      have hstopped := Stepped.stopped h hmore hfeed
      simp only [bind, EStateM.bind, inSession, passing, hfeed]
      exact hstopped

/-- The words by which a shell is left are not touched by cleaning, and nothing else is cleaned to them: what begins
with a question mark is cleaned to another word. -/
theorem strip_cleaned_eq {line word : Text} (hhelp : word.head? ≠ some 'h') (hmark : word.head? ≠ some '?') :
    Text.strip (cleaned line) = word ↔ line.strip = word := by
  unfold cleaned
  split
  · rename_i rest hstrip
    have hhead : (Text.strip ("help ".toList ++ rest)).head? = some 'h' := Text.head?_strip_of_head? rfl (by decide)
    constructor
    · rintro rfl
      exact absurd hhead hhelp
    · rintro rfl
      rw [hstrip] at hmark
      exact absurd rfl hmark
  · rw [Text.strip_strip]

theorem leaving_cleaned (line : Text) :
    Text.strip (cleaned line) = "exit".toList ∨ Text.strip (cleaned line) = "EOF".toList ↔
      line.strip = "exit".toList ∨ line.strip = "EOF".toList :=
  or_congr (strip_cleaned_eq (by decide) (by decide)) (strip_cleaned_eq (by decide) (by decide))

/-- **A command is answered**, and the shell is done unless the command is for help. -/
theorem step_command {line word : Text} (hword : word ∈ commandWords) (hline : Text.strip (cleaned line) = word)
    {sh : Shell} (hbuffer : sh.buffer = []) :
    ∃ reply : Reply, step line sh = .ok reply sh ∧ (reply.isDone = true ↔ word ≠ "help".toList) := by
  have hcommand := (command?_cleaned hword).2 hline
  have hne : ¬ (cleaned line).isEmpty = true := by
    intro hnil
    rw [List.isEmpty_iff] at hnil
    rw [hnil] at hline
    subst hline
    revert hword
    decide
  unfold step
  rw [if_neg hne, get_bind_apply, if_pos (by rw [hbuffer]; rfl), hcommand]
  simp only [commandWords, List.mem_cons, List.not_mem_nil, or_false] at hword
  rcases hword with rfl | rfl | rfl
  · exact ⟨_, rfl, by decide⟩
  · exact ⟨_, rfl, by decide⟩
  · exact ⟨_, rfl, by decide⟩

theorem step_program {line text : Text} {sh : Shell} (h : program? sh.buffer line = some text) :
    step line sh = (do takeLine text; return {} : InShell Reply) sh := by
  unfold program? at h
  split at h
  · cases h
  rename_i hprogram
  cases h
  obtain ⟨hblank, hcommand⟩ := not_or.1 hprogram
  have hline : ¬ (cleaned line).isEmpty = true := by
    rw [List.isEmpty_iff, cleaned_eq_nil_iff]
    exact hblank
  unfold step
  rw [if_neg hline, get_bind_apply]
  refine congrArg (fun action : InShell Reply => action sh) ?_
  by_cases hbuffer : sh.buffer = []
  · have hnot : ∀ word : String, word.toList ∈ commandWords →
        (command? (cleaned line)).map String.ofList ≠ some word := by
      intro word hword hsome
      have hstrip := (command?_cleaned hword).1 (eq_some_of_map_ofList hsome)
      exact hcommand ⟨hbuffer, hstrip ▸ hword⟩
    rw [if_pos (by rw [hbuffer]; rfl)]
    split
    · rename_i hsome
      exact absurd hsome (hnot "help" (by decide))
    · rename_i hsome
      exact absurd hsome (hnot "exit" (by decide))
    · rename_i hsome
      exact absurd hsome (hnot "EOF" (by decide))
    · rfl
  · rw [if_neg (by simpa using hbuffer)]

theorem step_stepped (line : Text) (sh : Shell) : Stepped sh line (step line sh) := by
  cases hprogram : program? sh.buffer line with
  | some text =>
    rw [step_program hprogram]
    exact stepped_takeLine hprogram
  | none =>
    have hcases := hprogram
    unfold program? at hcases
    split at hcases
    · rename_i hidle
      by_cases hblank : line.strip = []
      · rw [step_blank hblank]
        have hdone : ¬ (sh.buffer = [] ∧ (line.strip = "exit".toList ∨ line.strip = "EOF".toList)) := by
          rw [hblank]
          rintro ⟨-, h | h⟩ <;> cases h
        exact .answered {} hprogram (iff_of_false (by decide) hdone)
      · obtain ⟨hbuffer, hcommand⟩ := hidle.resolve_left hblank
        obtain ⟨reply, hreply, hdone⟩ := step_command hcommand rfl hbuffer
        rw [hreply]
        refine .answered reply hprogram (hdone.trans ?_)
        rw [← leaving_cleaned]
        simp only [hbuffer, true_and]
        generalize Text.strip (cleaned line) = word at hcommand
        revert word
        decide
    · cases hcases

theorem step_idle {sh : Shell} {line : Text} (h : program? sh.buffer line = none) :
    ∃ reply, step line sh = .ok reply sh := by
  have hstep := step_stepped line sh
  generalize step line sh = result at hstep
  cases hstep with
  | answered reply _ _ => exact ⟨reply, rfl⟩
  | kept hsome _ => cases h.symm.trans hsome
  | fed _ hsome _ _ => cases h.symm.trans hsome
  | stopped hsome _ _ => cases h.symm.trans hsome

/-- The words by which the shell is left are no program while nothing is kept. -/
theorem program?_of_leaving {sh : Shell} {line : Text}
    (h : sh.buffer = [] ∧ (line.strip = "exit".toList ∨ line.strip = "EOF".toList)) :
    program? sh.buffer line = none := by
  obtain ⟨hbuffer, hword⟩ := h
  rw [← leaving_cleaned] at hword
  refine if_pos (.inr ⟨hbuffer, ?_⟩)
  rcases hword with hword | hword
  · rw [hword]
    decide
  · rw [hword]
    decide

/-- **The shell is done exactly after the words for it**, while nothing is kept. -/
theorem isDone_iff (sh : Shell) (line : Text) :
    (∃ reply sh', step line sh = .ok reply sh' ∧ reply.isDone = true) ↔
      sh.buffer = [] ∧ (line.strip = "exit".toList ∨ line.strip = "EOF".toList) := by
  have hstep := step_stepped line sh
  generalize step line sh = result at hstep
  have hprogram : ∀ {text}, program? sh.buffer line = some text →
      ¬ (sh.buffer = [] ∧ (line.strip = "exit".toList ∨ line.strip = "EOF".toList)) := fun hsome hleaving => by
    cases (program?_of_leaving hleaving).symm.trans hsome
  cases hstep with
  | answered reply _ hdone =>
    rw [← hdone]
    constructor
    · rintro ⟨_, _, hreply, hisDone⟩
      cases hreply
      exact hisDone
    · exact fun hisDone => ⟨reply, sh, rfl, hisDone⟩
  | kept hsome _ =>
    refine iff_of_false ?_ (hprogram hsome)
    rintro ⟨_, _, hreply, hisDone⟩
    cases hreply
    cases hisDone
  | fed _ hsome _ _ =>
    refine iff_of_false ?_ (hprogram hsome)
    rintro ⟨_, _, hreply, hisDone⟩
    cases hreply
    cases hisDone
  | stopped hsome _ _ =>
    refine iff_of_false ?_ (hprogram hsome)
    rintro ⟨_, _, hreply, _⟩
    cases hreply

end Shell

end Loot
