import Loot.Proofs.Machine.Rollback
import Loot.Proofs.Session.Reporting
import Loot.Proofs.Session.Stepping
/-!
# The shell as a state machine

A history is a list of typed lines, given to a shell one after another whatever came of those before.  From what one
step can do follow what holds after every history (`shell_sound`), and that no line of program is lost or run twice
(`lines_accounted_for`).
-/
namespace Loot

/-! ## What a session makes of a typed piece -/

/-- Does a reporter let the stop pass without a word?  The program asked to exit, or it does not end. -/
def Stop.isSilent : Stop → Bool
  | .exit _ | .outOfRounds => true
  | .fault _ | .crash _ => false

namespace Session

/-- The reporter while a typed piece of program is at work. -/
def atWork (s : Session) (text : Text) (number : Line) : Reporter := s.reporter.markLine s.path ⟨some text, number⟩

/-- **What a session that is not fatal makes of a run** of a typed piece: the machine is kept in any case.  A fault is
reported and goes no further, a crash is reported, and an exit leaves the piece marked. -/
def told (s : Session) (text : Text) (number : Line) :
    EStateM.Result Stop Machine Flow → EStateM.Result Stop Session (Option Flow)
  | .ok flow m =>
    .ok (some flow) { s with
      machine := m
      reporter := (s.atWork text number).clearLine s.path
      errors := if flow = .normal then s.errors
        else (s.atWork text number).warning strayReturn.toList number :: s.errors }
  | .error (.fault f) m =>
    .ok none { s with
      machine := m
      reporter := (s.atWork text number).reset
      errors := (s.atWork text number).report f :: s.errors }
  | .error (.crash c) m =>
    .error (.crash c) { s with
      machine := m
      reporter := (s.atWork text number).reset
      errors := (s.atWork text number).report (Reporter.internalFault c) :: s.errors }
  | .error stop m => .error stop { s with machine := m, reporter := s.atWork text number }

theorem feed_eq (text : Text) (number : Line) (s : Session) :
    feed text number s = match runSource .standard text s.machine with
      | .ok flow m => .ok flow { s with
          machine := m
          reporter := (s.atWork text number).clearLine s.path
          errors := if flow = .normal then s.errors
            else (s.atWork text number).warning strayReturn.toList number :: s.errors }
      | .error stop m => .error stop { s with machine := m, reporter := s.atWork text number } := by
  have hmark : modifyReporter (·.markLine s.path ⟨some text, number⟩) s =
      .ok () { s with reporter := s.atWork text number } := rfl
  unfold feed
  rw [get_bind_apply]
  simp only [bind, EStateM.bind, hmark, onMachine]
  cases runSource .standard text s.machine with
  | error stop m => rfl
  | ok flow m =>
    cases flow with
    | normal => rfl
    | returned v =>
      have hstray : (Flow.returned v != .normal) = true := rfl
      simp only [hstray, if_true, EStateM.bind, warn_apply]
      rfl

/-- **A session that is not fatal makes of a typed piece what it makes of the run of its text.** -/
theorem guarded_feed {s : Session} (hfatal : s.reporter.isFatal = false) (text : Text) (number : Line) :
    guarded (feed text number) s = s.told text number (runSource .standard text s.machine) := by
  have hwork : (s.atWork text number).isFatal = false := hfatal
  rw [guarded_eq, feed_eq]
  cases runSource .standard text s.machine with
  | ok flow m => rfl
  | error stop m =>
    cases stop with
    | fault f => simp only [told, hwork, reported_of_notFatal, Bool.false_eq_true, if_false]
    | crash c => simp only [told, hwork, reported_of_notFatal, Bool.false_eq_true, if_false]
    | exit code => rfl
    | outOfRounds => rfl

/-- The session after a typed piece, however it ended. -/
def fedWith (s : Session) (text : Text) (number : Nat) : Session :=
  match guarded (feed text (some (number : Int))) s with
  | .ok _ s' => s'
  | .error _ s' => s'

/-- **What holds of a session at a prompt** between two pieces: it is not fatal, no call is open, and the typed input is
the only file at work. -/
structure Ready (s : Session) : Prop where
  notFatal : s.reporter.isFatal = false
  depth : s.machine.scope.depth = 0
  file : ∃ mark, s.reporter.trace.entries = [(s.path, mark)]

/-- No line is at work. -/
def Quiet (s : Session) : Prop := ∀ entry ∈ s.reporter.trace.entries, entry.2 = {}

theorem entries_atWork {s : Session} {mark : Mark} (h : s.reporter.trace.entries = [(s.path, mark)]) (text : Text)
    (number : Line) : (s.atWork text number).trace.entries = [(s.path, ⟨some text, number⟩)] :=
  Reporter.entries_set h _

theorem depth_of_levelled {m m' : Machine} (h : m.Levelled m') (hdepth : m.scope.depth = 0) : m'.scope.depth = 0 := by
  unfold Scope.depth at *
  rw [h.saved]
  exact hdepth

/-- **A piece leaves the session ready**, and no line at work unless it stopped silently. -/
theorem Ready.stays {s : Session} (h : s.Ready) (text : Text) (number : Nat) :
    (s.fedWith text number).Ready ∧
    ((∀ stop s', guarded (feed text (some (number : Int))) s = .error stop s' → stop.isSilent = false) →
      (s.fedWith text number).Quiet) := by
  obtain ⟨mark, hmark⟩ := h.file
  have hwork := entries_atWork hmark text (some (number : Int))
  have hdepth := depth_of_levelled (keeps_runSource_levelled .standard text s.machine) h.depth
  have hquiet : ∀ {s' : Session}, s'.reporter.trace.entries = [(s'.path, {})] → s'.Quiet := by
    intro s' hs' entry hentry
    rw [hs', List.mem_singleton] at hentry
    rw [hentry]
  unfold fedWith
  unfold Run.left at hdepth
  rw [guarded_feed h.notFatal]
  cases hrun : runSource .standard text s.machine with
  | ok flow m =>
    rw [hrun] at hdepth
    have hfile := Reporter.entries_set hwork {}
    exact ⟨⟨h.notFatal, hdepth, {}, hfile⟩, fun _ => hquiet hfile⟩
  | error stop m =>
    rw [hrun] at hdepth
    have hfile := Reporter.entries_reset hwork
    cases stop with
    | fault f => exact ⟨⟨h.notFatal, hdepth, {}, hfile⟩, fun _ => hquiet hfile⟩
    | crash c => exact ⟨⟨h.notFatal, hdepth, {}, hfile⟩, fun _ => hquiet hfile⟩
    | exit code => exact ⟨⟨h.notFatal, hdepth, _, hwork⟩, fun hloud => nomatch hloud _ _ rfl⟩
    | outOfRounds => exact ⟨⟨h.notFatal, hdepth, _, hwork⟩, fun hloud => nomatch hloud _ _ rfl⟩

end Session

/-! ## Histories -/

namespace Shell

/-- The shell after a line, whatever came of it. -/
def after (sh : Shell) (line : Text) : Shell :=
  match step line sh with
  | .ok _ sh' => sh'
  | .error _ sh' => sh'

def stop? (sh : Shell) (line : Text) : Option Stop :=
  match step line sh with
  | .ok _ _ => none
  | .error stop _ => some stop

/-- What a line makes the shell feed its session, with the number that goes with it. -/
def feed? (sh : Shell) (line : Text) : Option (Text × Nat) :=
  (program? sh.buffer line).bind fun text =>
    if needsMore (joinLine sh.buffer text) then none else some (joinLine sh.buffer text, sh.lineNumber + 1)

/-- The shell after a history. -/
def afterAll (sh : Shell) (lines : List Text) : Shell := lines.foldl after sh

/-- All that the lines of a history make of the shells that they are given to. -/
def collect {α : Type} (f : Shell → Text → Option α) (sh : Shell) : List Text → List α
  | [] => []
  | line :: lines => (f sh line).toList ++ collect f (sh.after line) lines

/-- The lines of program in a history. -/
def programLines (sh : Shell) (lines : List Text) : List Text := collect (fun sh => program? sh.buffer) sh lines

/-- What a history feeds the session. -/
def feeds (sh : Shell) (lines : List Text) : List (Text × Nat) := collect feed? sh lines

/-- The stops of the steps of a history. -/
def stops (sh : Shell) (lines : List Text) : List Stop := collect stop? sh lines

/-- **What a line leaves**: the shell as it was, the shell with a line kept, or the shell with nothing kept and what its
session became of the text. -/
theorem after_cases (sh : Shell) (line : Text) :
    (program? sh.buffer line = none ∧ sh.after line = sh) ∨
    (∃ text, program? sh.buffer line = some text ∧ needsMore (joinLine sh.buffer text) = true ∧
      sh.after line = sh.keeping text) ∨
    (∃ text, program? sh.buffer line = some text ∧ needsMore (joinLine sh.buffer text) = false ∧
      sh.after line = sh.passing (sh.session.fedWith (joinLine sh.buffer text) (sh.lineNumber + 1)) ∧
      ∀ stop s', Session.guarded (Session.feed (joinLine sh.buffer text) (some ((sh.lineNumber + 1 : Nat) : Int)))
        sh.session = .error stop s' → sh.stop? line = some stop) := by
  have h := step_stepped line sh
  unfold after stop? Session.fedWith
  generalize step line sh = result at h
  cases h with
  | answered reply hprogram _ => exact .inl ⟨hprogram, rfl⟩
  | kept hprogram hmore => exact .inr (.inl ⟨_, hprogram, hmore, rfl⟩)
  | fed flow hprogram hmore hfeed =>
    refine .inr (.inr ⟨_, hprogram, hmore, by rw [hfeed], fun stop s' hstop => ?_⟩)
    rw [hfeed] at hstop
    cases hstop
  | stopped hprogram hmore hfeed =>
    refine .inr (.inr ⟨_, hprogram, hmore, by rw [hfeed], fun stop s' hstop => ?_⟩)
    rw [hfeed] at hstop
    cases hstop
    rfl

theorem feed?_of_none {sh : Shell} {line : Text} (h : program? sh.buffer line = none) : sh.feed? line = none := by
  unfold feed?
  rw [h]
  rfl

theorem feed?_of_kept {sh : Shell} {line text : Text} (h : program? sh.buffer line = some text)
    (hmore : needsMore (joinLine sh.buffer text) = true) : sh.feed? line = none := by
  unfold feed?
  rw [h]
  exact if_pos hmore

theorem feed?_of_fed {sh : Shell} {line text : Text} (h : program? sh.buffer line = some text)
    (hmore : needsMore (joinLine sh.buffer text) = false) :
    sh.feed? line = some (joinLine sh.buffer text, sh.lineNumber + 1) := by
  unfold feed?
  rw [h]
  exact if_neg (by rw [hmore]; decide)

theorem after_of_none {sh : Shell} {line : Text} (h : program? sh.buffer line = none) : sh.after line = sh := by
  rcases after_cases sh line with ⟨-, hafter⟩ | ⟨text, hsome, -⟩ | ⟨text, hsome, -⟩
  · exact hafter
  · cases h.symm.trans hsome
  · cases h.symm.trans hsome

theorem after_of_kept {sh : Shell} {line text : Text} (h : program? sh.buffer line = some text)
    (hmore : needsMore (joinLine sh.buffer text) = true) : sh.after line = sh.keeping text := by
  rcases after_cases sh line with ⟨hnone, -⟩ | ⟨text, hsome, -, hafter⟩ | ⟨text, hsome, hdone, -⟩
  · cases h.symm.trans hnone
  · cases h.symm.trans hsome
    exact hafter
  · cases h.symm.trans hsome
    cases hmore.symm.trans hdone

theorem after_of_fed {sh : Shell} {line text : Text} (h : program? sh.buffer line = some text)
    (hmore : needsMore (joinLine sh.buffer text) = false) :
    sh.after line = sh.passing (sh.session.fedWith (joinLine sh.buffer text) (sh.lineNumber + 1)) := by
  rcases after_cases sh line with ⟨hnone, -⟩ | ⟨text, hsome, hkept, -⟩ | ⟨text, hsome, -, hafter, -⟩
  · cases h.symm.trans hnone
  · cases h.symm.trans hsome
    cases hmore.symm.trans hkept
  · cases h.symm.trans hsome
    exact hafter

theorem step_of_feed? {sh : Shell} {line text : Text} {number : Nat} (h : sh.feed? line = some (text, number)) :
    step line sh = (do
      let _ ← inSession (Session.guarded (Session.feed text (some (number : Int))))
      return {} : InShell Reply) (sh.passing sh.session) := by
  unfold feed? at h
  obtain ⟨last, hsome, hfeed⟩ := Option.bind_eq_some_iff.1 h
  split at hfeed
  · cases hfeed
  · rename_i hmore
    cases hfeed
    rw [step_program hsome, takeLine_complete (Bool.not_eq_true _ ▸ hmore)]

theorem step_of_no_feed {sh : Shell} {line : Text} (h : sh.feed? line = none) :
    ∃ reply sh', step line sh = .ok reply sh' ∧ sh'.session = sh.session := by
  have hstep := step_stepped line sh
  generalize step line sh = result at hstep
  cases hstep with
  | answered reply _ _ => exact ⟨reply, sh, rfl, rfl⟩
  | kept _ _ => exact ⟨_, _, rfl, rfl⟩
  | fed _ hsome hmore _ => cases h.symm.trans (feed?_of_fed hsome hmore)
  | stopped hsome hmore _ => cases h.symm.trans (feed?_of_fed hsome hmore)

/-! ## What holds after every history -/

/-- **What holds of a shell between two lines.** -/
structure Sound (sh : Shell) : Prop where
  session : sh.session.Ready
  prompt : sh.prompt = if sh.buffer = [] then primaryPrompt else secondaryPrompt
  buffer : sh.buffer ≠ [] → needsMore sh.buffer = true

theorem program?_ne_nil {buffer line text : Text} (h : program? buffer line = some text) : text ≠ [] := by
  unfold program? at h
  split at h
  · cases h
  · rename_i hprogram
    cases h
    exact fun hnil => hprogram (.inl ((cleaned_eq_nil_iff line).1 hnil))

theorem joinLine_ne_nil (before : Text) {line : Text} (h : line ≠ []) : joinLine before line ≠ [] := by
  unfold joinLine
  split
  · exact h
  · exact List.append_ne_nil_of_right_ne_nil _ (List.cons_ne_nil _ _)

theorem Sound.prompt_iff {sh : Shell} (h : sh.Sound) : sh.prompt = secondaryPrompt ↔ sh.buffer ≠ [] := by
  rw [h.prompt]
  by_cases hbuffer : sh.buffer = []
  · rw [if_pos hbuffer]
    exact iff_of_false (by decide) (not_not_intro hbuffer)
  · rw [if_neg hbuffer]
    exact iff_of_true rfl hbuffer

/-- **A step leaves a sound shell sound**, one more line of program counted if the line is one. -/
theorem Sound.after {sh : Shell} (h : sh.Sound) (line : Text) :
    (sh.after line).Sound ∧
    (sh.after line).lineNumber = sh.lineNumber + (program? sh.buffer line).toList.length := by
  rcases after_cases sh line with ⟨hnone, hafter⟩ | ⟨text, hsome, hmore, hafter⟩ | ⟨text, hsome, -, hafter, -⟩
  · rw [hafter, hnone]
    exact ⟨h, rfl⟩
  · have hne := joinLine_ne_nil sh.buffer (program?_ne_nil hsome)
    rw [hafter, hsome]
    exact ⟨⟨h.session, (if_neg hne).symm, fun _ => hmore⟩, rfl⟩
  · rw [hafter, hsome]
    exact ⟨⟨(h.session.stays _ _).1, rfl, fun hne => absurd rfl hne⟩, rfl⟩

theorem Sound.afterAll {sh : Shell} (h : sh.Sound) (lines : List Text) :
    (sh.afterAll lines).Sound ∧ (sh.afterAll lines).lineNumber = sh.lineNumber + (sh.programLines lines).length := by
  induction lines generalizing sh with
  | nil => exact ⟨h, rfl⟩
  | cons line lines ih =>
    obtain ⟨hsound, hnumber⟩ := h.after line
    obtain ⟨hsounds, hnumbers⟩ := ih hsound
    refine ⟨hsounds, hnumbers.trans ?_⟩
    rw [hnumber, programLines, programLines, collect, List.length_append, Nat.add_assoc]

/-- **A step leaves no line at work** unless it stops silently. -/
theorem Sound.quiet_after {sh : Shell} (h : sh.Sound) (hquiet : sh.session.Quiet) (line : Text)
    (hstop : ∀ stop ∈ sh.stop? line, stop.isSilent = false) : (sh.after line).session.Quiet := by
  rcases after_cases sh line with ⟨-, hafter⟩ | ⟨text, -, -, hafter⟩ | ⟨text, -, -, hafter, hstops⟩
  · rwa [hafter]
  · rwa [hafter]
  · rw [hafter]
    exact (h.session.stays _ _).2 (fun stop s' hfeed => hstop stop (hstops stop s' hfeed))

theorem Sound.quiet_afterAll {sh : Shell} (h : sh.Sound) (hquiet : sh.session.Quiet) (lines : List Text)
    (hstops : ∀ stop ∈ sh.stops lines, stop.isSilent = false) : (sh.afterAll lines).session.Quiet := by
  induction lines generalizing sh with
  | nil => exact hquiet
  | cons line lines ih =>
    have hfirst : ∀ stop ∈ sh.stop? line, stop.isSilent = false := fun stop hstop =>
      hstops stop (List.mem_append_left _ (Option.mem_toList.2 hstop))
    have hrest : ∀ stop ∈ (sh.after line).stops lines, stop.isSilent = false := fun stop hstop =>
      hstops stop (List.mem_append_right _ hstop)
    exact ih (h.after line).1 (h.quiet_after hquiet line hfirst) hrest

/-- A session opened at a prompt is ready for typed input, and no line is at work. -/
theorem sound_start {isFatal : Bool} {contents : Option (List Nat)} {input : Option Text} {s : Session}
    (hstart : Session.start { isFatal } Session.typedPath true contents input = .ok s) :
    Sound { session := s } ∧ s.Quiet := by
  cases hstart
  have hquiet : ∀ entry ∈ [(Session.typedPath, ({} : Mark))], entry.2 = {} := by simp
  exact ⟨⟨⟨rfl, rfl, {}, rfl⟩, rfl, fun hne => absurd rfl hne⟩, hquiet⟩

end Shell

/-- **The shell is sound after every history** of typed lines, whatever came of the pieces of program among them.  The
prompt asks for more exactly if something is kept, and what is kept does need more; faults do not end the shell; no call
is open; the line number counts the lines of program, which are the lines handed on as such; and no line is at work
unless a step stopped silently.  Of the next line it is known when the shell is done with it, and that nothing changes
if it is blank or a command. -/
theorem shell_sound (isFatal : Bool) (contents : Option (List Nat)) (input : Option Text) {s : Session}
    (hstart : Session.start { isFatal } Session.typedPath true contents input = .ok s) {lines : List Text} {sh : Shell}
    (hafter : sh = Shell.afterAll { session := s } lines) :
    (sh.prompt = Shell.secondaryPrompt ↔ sh.buffer ≠ []) ∧
    (sh.buffer ≠ [] → needsMore sh.buffer = true) ∧
    sh.session.reporter.isFatal = false ∧
    sh.session.machine.scope.depth = 0 ∧
    sh.lineNumber = (Shell.programLines { session := s } lines).length ∧
    ((∀ stop ∈ Shell.stops { session := s } lines, stop.isSilent = false) → sh.session.Quiet) ∧
    ∀ line,
      ((∃ reply sh', Shell.step line sh = .ok reply sh' ∧ reply.isDone = true) ↔
        sh.buffer = [] ∧ (line.strip = "exit".toList ∨ line.strip = "EOF".toList)) ∧
      (Shell.program? sh.buffer line = none → ∃ reply, Shell.step line sh = .ok reply sh) ∧
      ∀ text, Shell.program? sh.buffer line = some text →
        Shell.step line sh = (do Shell.takeLine text; return {} : InShell Reply) sh := by
  obtain ⟨hsound, hquiet⟩ := Shell.sound_start hstart
  obtain ⟨hsounds, hnumber⟩ := hsound.afterAll lines
  subst hafter
  refine ⟨hsounds.prompt_iff, hsounds.buffer, hsounds.session.notFatal, hsounds.session.depth, ?_,
    hsound.quiet_afterAll hquiet lines,
    fun line => ⟨Shell.isDone_iff _ line, Shell.step_idle, fun text => Shell.step_program⟩⟩
  rw [hnumber, Nat.zero_add]

/-- A command word in an open block is program, and the prompt asks for more. -/
theorem shell_sound_block :
    ∃ s, Session.start {} Session.typedPath true none none = .ok s ∧
      ∃ sh, sh = Shell.afterAll { session := s } ["dlc f() \x7b".toList, "exit".toList] ∧
        sh.buffer = "dlc f() \x7b\nexit".toList ∧ sh.prompt = Shell.secondaryPrompt ∧ sh.lineNumber = 2 := by
  refine ⟨_, rfl, _, rfl, by decide +kernel, ?_, ?_⟩
  · exact (shell_sound true none none rfl rfl).1.2 (by decide +kernel)
  · exact ((shell_sound true none none rfl rfl).2.2.2.2.1).trans (by decide +kernel)

/-! ## No line is lost or run twice -/

namespace Text

theorem join_cons {sep t : Text} {ts : List Text} (h : ts ≠ []) : join sep (t :: ts) = t ++ sep ++ join sep ts := by
  cases ts with
  | nil => exact absurd rfl h
  | cons u us => rfl

theorem join_append (sep : Text) {ts us : List Text} (hts : ts ≠ []) (hus : us ≠ []) :
    join sep (ts ++ us) = join sep ts ++ sep ++ join sep us := by
  induction ts with
  | nil => exact absurd rfl hts
  | cons t ts ih =>
    by_cases hnil : ts = []
    · rw [hnil]
      exact join_cons hus
    · rw [List.cons_append, join_cons (List.append_ne_nil_of_left_ne_nil hnil us), join_cons hnil, ih hnil]
      simp only [List.append_assoc]

/-- **Joining joined groups joins them all**, if no group is empty. -/
theorem join_flatten (sep : Text) : ∀ {groups : List (List Text)}, (∀ group ∈ groups, group ≠ []) →
    join sep (groups.map (join sep)) = join sep groups.flatten
  | [], _ => rfl
  | [group], _ => by rw [List.flatten_singleton]; rfl
  | group :: next :: groups, h => by
    have hrest : ∀ g ∈ next :: groups, g ≠ [] := fun g hg => h g (List.mem_cons_of_mem _ hg)
    have hne : (next :: groups).flatten ≠ [] :=
      List.append_ne_nil_of_left_ne_nil (hrest next List.mem_cons_self) _
    calc join sep ((group :: next :: groups).map (join sep))
        = join sep group ++ sep ++ join sep ((next :: groups).map (join sep)) := rfl
      _ = join sep group ++ sep ++ join sep (next :: groups).flatten := by rw [join_flatten sep hrest]
      _ = join sep (group ++ (next :: groups).flatten) := (join_append sep (h group List.mem_cons_self) hne).symm

end Text

namespace Shell

/-- The texts of groups of lines, each with the number of lines up to its end. -/
def numbered (start : Nat) : List (List Text) → List (Text × Nat)
  | [] => []
  | group :: groups => (Text.join ['\n'] group, start + group.length) :: numbered (start + group.length) groups

theorem joinLine_join (pending : List Text) (hnil : Text.join ['\n'] pending = [] ↔ pending = []) (text : Text) :
    joinLine (Text.join ['\n'] pending) text = Text.join ['\n'] (pending ++ [text]) := by
  unfold joinLine
  by_cases hpending : pending = []
  · rw [if_pos (by rw [List.isEmpty_iff, hnil]; exact hpending), hpending]
    rfl
  · rw [if_neg (by rw [List.isEmpty_iff, hnil]; exact hpending), Text.join_append _ hpending (by simp)]
    simp [Text.join]

/-- **The lines of program of a history fall into groups**, those kept at its start first: each group is fed to the
session as one text, with the number of its last line, but for the last group, which is kept. -/
theorem grouped (lines : List Text) {sh : Shell} {pending : List Text} {before : Nat}
    (hbuffer : sh.buffer = Text.join ['\n'] pending) (hnil : sh.buffer = [] ↔ pending = [])
    (hnumber : sh.lineNumber = before + pending.length) :
    ∃ groups last, pending ++ sh.programLines lines = groups.flatten ++ last ∧ (∀ group ∈ groups, group ≠ []) ∧
      sh.feeds lines = numbered before groups ∧
      (sh.afterAll lines).buffer = Text.join ['\n'] last ∧ ((sh.afterAll lines).buffer = [] ↔ last = []) := by
  induction lines generalizing sh pending before with
  | nil => exact ⟨[], pending, by simp [programLines, collect], by simp, rfl, hbuffer, hnil⟩
  | cons line lines ih =>
    have hlines : sh.programLines (line :: lines) =
        (program? sh.buffer line).toList ++ (sh.after line).programLines lines := rfl
    have hfeeds : sh.feeds (line :: lines) = (sh.feed? line).toList ++ (sh.after line).feeds lines := rfl
    have hjoin : ∀ text, joinLine sh.buffer text = Text.join ['\n'] (pending ++ [text]) := fun text => by
      rw [hbuffer, joinLine_join pending (hbuffer ▸ hnil)]
    rw [hlines, hfeeds]
    rcases after_cases sh line with ⟨hnone, hafter⟩ | ⟨text, hsome, hmore, hafter⟩ | ⟨text, hsome, hmore, hafter, -⟩
    · rw [hnone, feed?_of_none hnone]
      exact ih (by rw [hafter, hbuffer]) (by rw [hafter, hnil]) (by rw [hafter, hnumber])
    · rw [hsome, feed?_of_kept hsome hmore, Option.toList_some, ← List.append_assoc]
      refine ih ?_ ?_ ?_
      · rw [hafter, ← hjoin]
        rfl
      · rw [hafter]
        exact iff_of_false (joinLine_ne_nil _ (program?_ne_nil hsome)) (by simp)
      · rw [hafter, List.length_append]
        exact congrArg (· + 1) hnumber
    · rw [hsome, feed?_of_fed hsome hmore, Option.toList_some, ← List.append_assoc, hjoin]
      have hcount : sh.lineNumber + 1 = before + (pending ++ [text]).length := by
        rw [List.length_append, hnumber]
        rfl
      obtain ⟨groups, last, hgroups, hne, hfed, hkept⟩ := @ih (sh.after line) [] (before + (pending ++ [text]).length)
        (by rw [hafter]; rfl) (by rw [hafter]; exact iff_of_true rfl rfl) (by rw [hafter]; exact hcount)
      refine ⟨(pending ++ [text]) :: groups, last, ?_, ?_, ?_, hkept⟩
      · rw [List.flatten_cons, List.append_assoc _ groups.flatten, ← hgroups]
        rfl
      · intro group hgroup
        rcases List.mem_cons.1 hgroup with rfl | hgroup
        · simp
        · exact hne group hgroup
      · rw [hfed, hcount]
        rfl

theorem numbered_texts (start : Nat) (groups : List (List Text)) :
    (numbered start groups).map (·.1) = groups.map (Text.join ['\n']) := by
  induction groups generalizing start with
  | nil => rfl
  | cons group groups ih => exact congrArg (Text.join ['\n'] group :: ·) (ih (start + group.length))

/-- **The session sees what it is fed, and nothing else.** -/
theorem session_afterAll (sh : Shell) (lines : List Text) :
    (sh.afterAll lines).session = (sh.feeds lines).foldl (fun s piece => s.fedWith piece.1 piece.2) sh.session := by
  induction lines generalizing sh with
  | nil => rfl
  | cons line lines ih =>
    have hfeeds : sh.feeds (line :: lines) = (sh.feed? line).toList ++ (sh.after line).feeds lines := rfl
    have hafters : sh.afterAll (line :: lines) = (sh.after line).afterAll lines := rfl
    rw [hafters, ih, hfeeds]
    rcases after_cases sh line with ⟨hnone, hafter⟩ | ⟨text, hsome, hmore, hafter⟩ | ⟨text, hsome, hmore, hafter, -⟩
    · rw [feed?_of_none hnone, hafter]
      rfl
    · rw [feed?_of_kept hsome hmore, hafter]
      rfl
    · rw [feed?_of_fed hsome hmore, hafter]
      rfl

end Shell

/-- **No line of program is lost or run twice**, whatever came of the pieces before.  The lines of program of a history
fall into groups.  The session is fed the text of each group but the last, with the number of the group's last line
among the lines of program, and it is fed nothing else; the last group is what is kept.  So the texts that were fed
and what is kept are the lines of program again. -/
theorem lines_accounted_for (s : Session) (lines : List Text) :
    (∀ (sh : Shell) (line : Text),
      (sh.feed? line = none → ∃ reply sh', Shell.step line sh = .ok reply sh' ∧ sh'.session = sh.session) ∧
      ∀ text number, sh.feed? line = some (text, number) →
        Shell.step line sh = (do
          let _ ← Shell.inSession (Session.guarded (Session.feed text (some (number : Int))))
          return {} : InShell Reply) (sh.passing sh.session)) ∧
    (Shell.afterAll { session := s } lines).session =
      (Shell.feeds { session := s } lines).foldl (fun s piece => s.fedWith piece.1 piece.2) s ∧
    ∃ buffer, buffer = (Shell.afterAll { session := s } lines).buffer ∧
      (∃ groups last, Shell.programLines { session := s } lines = groups.flatten ++ last ∧
        (∀ group ∈ groups, group ≠ []) ∧
        Shell.feeds { session := s } lines = Shell.numbered 0 groups ∧
        buffer = Text.join ['\n'] last ∧ (buffer = [] ↔ last = [])) ∧
      Text.join ['\n'] ((Shell.feeds { session := s } lines).map (·.1) ++ if buffer = [] then [] else [buffer]) =
        Text.join ['\n'] (Shell.programLines { session := s } lines) := by
  obtain ⟨groups, last, hlines, hgroups, hfeeds, hbuffer, hnil⟩ :=
    @Shell.grouped lines { session := s } [] 0 rfl (iff_of_true rfl rfl) rfl
  rw [List.nil_append] at hlines
  refine ⟨fun sh line => ⟨Shell.step_of_no_feed, fun text number => Shell.step_of_feed?⟩,
    Shell.session_afterAll _ lines, _, rfl, ⟨groups, last, hlines, hgroups, hfeeds, hbuffer, hnil⟩, ?_⟩
  rw [hfeeds, Shell.numbered_texts, hlines]
  by_cases hlast : last = []
  · rw [if_pos (hnil.2 hlast), hlast, List.append_nil, List.append_nil, Text.join_flatten _ hgroups]
  · have hall : ∀ group ∈ groups ++ [last], group ≠ [] := by
      intro group hgroup
      rcases List.mem_append.1 hgroup with hgroup | hgroup
      · exact hgroups group hgroup
      · rwa [List.mem_singleton.1 hgroup]
    have hjoin := Text.join_flatten ['\n'] hall
    rw [List.map_append, List.flatten_append, List.flatten_singleton] at hjoin
    rw [if_neg (fun h => hlast (hnil.1 h)), hbuffer]
    exact hjoin

/-- After a piece that fails, a block over two lines with a blank line in it is fed as one text. -/
example : Shell.feeds { session := { reporter := { isFatal := false }, path := Session.typedPath } }
    ["x".toList, " dlc f() \x7b".toList, [], "\x7d ".toList, "loot y = \"".toList] =
      [("x".toList, 1), ("dlc f() \x7b\n\x7d".toList, 3)] := by decide +kernel

end Loot
