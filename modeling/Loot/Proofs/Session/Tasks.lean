import Loot.Proofs.Session.Prompting
/-!
# No line stays at work

A session can be asked for five things in any order.  Each is guarded, so between two of them its reporter remembers the
file and no line of it, however the one before ended, unless that asked to exit or goes on for ever
(`Task.tracks_afterAll`).  What a task prints is one report at most, and the report quotes nothing but what the task
itself was given or the line of its own fault (`Task.ends`).
-/
namespace Loot

/-! ## Faults of programs -/

theorem Machine.functionsOf_any (m : Machine) : m.FunctionsOf (fun _ => True) True := fun _ f _ =>
  ⟨f, List.forall₂_same.2 fun _ _ => ⟨rfl, trivial⟩,
    Stmt.allAlike_self (fun _ _ => ⟨rfl, trivial⟩) fun l _ => l.isMadeOf_any⟩

theorem Raised.notInternal {K : Token → Token → Prop} {loops : Prop} {stop stop' : Stop}
    (h : Raised K loops stop stop') {f : Fault} (hf : stop = .fault f) : f.isInternal = false := by
  cases h <;> cases hf
  rfl

/-- No fault of a program is one of the interpreter. -/
theorem runSource_notInternal {limits : Limits} {source : Text} {m m' : Machine} {f : Fault}
    (h : runSource limits source m = .error (.fault f) m') : f.isInternal = false := by
  rw [runSource_eq] at h
  cases hread : scanText source >>= readProgram with
  | error f' =>
    rw [hread] at h
    cases h
    exact (text_fault hread).2.1
  | ok program =>
    have hends := runProgram_stops limits (fun l (_ : l ∈ Stmt.leavesAll program) => l.isMadeOf_any) m.functionsOf_any
    rw [hread] at h
    simp only at h
    rw [h] at hends
    exact hends.1.notInternal rfl

/-! ## Tasks -/

/-- **What a session can be asked for.** -/
inductive Task where
  | run
  /-- A typed piece of program, with the number of its line. -/
  | feed (text : Text) (number : Line)
  | outline
  | tokens
  | statements

namespace Task

/-- What a session answers to a task. -/
def Answer : Task → Type
  | run | feed _ _ => Flow
  | outline => Text
  | tokens => List Token
  | statements => List Stmt

def action : (t : Task) → InSession t.Answer
  | run => Session.runFile
  | feed text number => Session.feed text number
  | outline => Session.outlined
  | tokens => Session.tokens
  | statements => Session.statements

/-- The line at work when a task has come to a stop: the typed piece itself, or the line of the fault in a file. -/
def mark (source : Text) : Task → Stop → Mark
  | run, .fault f => Session.faultMark source f
  | feed text number, _ => ⟨some text, number⟩
  | _, _ => {}

/-- The warnings that come with an answer. -/
def warnings (paint : Painter) (path : Text) : (t : Task) → t.Answer → List Text
  | run, flow => flowWarnings paint path none flow
  | feed _ number, flow => flowWarnings paint path number flow
  | outline, _ | tokens, _ | statements, _ => []

end Task

namespace Session

/-- **What a session keeps in mind**: it is not fatal, and its reporter has the file and the mark, and nothing else. -/
structure Tracks (paint : Painter) (path source : Text) (mark : Mark) (s : Session) : Prop where
  notFatal : s.reporter.isFatal = false
  paint : s.reporter.paint = paint
  trace : s.reporter.trace.entries = [(path, mark)]
  path : s.path = path
  source : s.source = source

variable {paint : Painter} {path source : Text} {s : Session}

/-- A report is printed, and the mark is gone. -/
theorem Tracks.reported {mark : Mark} (h : s.Tracks paint path source mark) (f : Fault) :
    (s.reported f).Tracks paint path source {} ∧ (s.reported f).errors = s.reporter.report f :: s.errors := by
  rw [reported_of_notFatal h.notFatal]
  exact ⟨⟨h.notFatal, h.paint, Reporter.entries_reset h.trace, h.path, h.source⟩, rfl⟩

theorem statements_eq (s : Session) : statements s = ofExcept (scanText s.source >>= readProgram) s := by
  have htokens : tokens s = ofExcept (scanText s.source) s := rfl
  simp only [statements, bind, EStateM.bind, htokens]
  cases scanText s.source <;> rfl

theorem outlined_eq (s : Session) : outlined s = ofExcept ((scanText s.source >>= readProgram).map outline) s := by
  simp only [outlined, bind, EStateM.bind, statements_eq]
  cases Except.bind (scanText s.source) readProgram <;> rfl

end Session

/-! ## What a task does -/

namespace Task

variable {paint : Painter} {path source : Text} {s : Session}

/-- **How a task that is not guarded ends.**  Its answer comes with nothing but warnings and leaves no mark, and a stop
leaves the mark of the task and prints nothing. -/
def EndsBare (t : Task) (paint : Painter) (path source : Text) (s : Session) :
    EStateM.Result Stop Session t.Answer → Prop
  | .ok a s' => s'.Tracks paint path source {} ∧ s'.errors = t.warnings paint path a ++ s.errors
  | .error stop s' => s'.Tracks paint path source (t.mark source stop) ∧ s'.errors = s.errors ∧
      ∀ f, stop = .fault f → f.isInternal = false

/-- A task that only reads the source leaves the session as it was. -/
theorem endsBare_ofExcept (h : s.Tracks paint path source {}) {t : Task} {x : Except Fault t.Answer}
    (hwarnings : ∀ a, t.warnings paint path a = []) (hmark : ∀ stop, t.mark source stop = {})
    (hx : ∀ f, x = .error f → f.isInternal = false) : t.EndsBare paint path source s (Session.ofExcept x s) := by
  cases x with
  | ok a => exact ⟨h, by rw [hwarnings]; rfl⟩
  | error f =>
    refine ⟨by rw [hmark]; exact h, rfl, fun f' hf' => ?_⟩
    cases hf'
    exact hx f rfl

theorem endsBare_run (h : s.Tracks paint path source {}) : run.EndsBare paint path source s (Session.runFile s) := by
  obtain ⟨hfatal, rfl, htrace, rfl, rfl⟩ := h
  have hfile := Session.runFile_eq htrace
  cases hrun : runSource .standard s.source s.machine with
  | ok flow m =>
    rw [hrun] at hfile
    rw [hfile]
    exact ⟨⟨hfatal, rfl, htrace, rfl, rfl⟩, rfl⟩
  | error stop m =>
    rw [hrun] at hfile
    cases stop with
    | fault f =>
      obtain ⟨trace, hfile, hentries⟩ := hfile
      rw [hfile]
      refine ⟨⟨hfatal, rfl, hentries, rfl, rfl⟩, rfl, fun f' hf' => ?_⟩
      cases hf'
      exact runSource_notInternal hrun
    | exit code => exact hfile ▸ ⟨⟨hfatal, rfl, htrace, rfl, rfl⟩, rfl, fun _ hf => nomatch hf⟩
    | crash c => exact hfile ▸ ⟨⟨hfatal, rfl, htrace, rfl, rfl⟩, rfl, fun _ hf => nomatch hf⟩
    | outOfRounds => exact hfile ▸ ⟨⟨hfatal, rfl, htrace, rfl, rfl⟩, rfl, fun _ hf => nomatch hf⟩

theorem endsBare_feed (h : s.Tracks paint path source {}) (text : Text) (number : Line) :
    (feed text number).EndsBare paint path source s (Session.feed text number s) := by
  obtain ⟨hfatal, rfl, htrace, rfl, rfl⟩ := h
  have hwork := Session.entries_atWork htrace text number
  rw [Session.feed_eq]
  cases hrun : runSource .standard text s.machine with
  | ok flow m =>
    refine ⟨⟨hfatal, rfl, Reporter.entries_set hwork {}, rfl, rfl⟩, ?_⟩
    simp only [Reporter.warning_eq hwork]
    cases flow <;> rfl
  | error stop m =>
    refine ⟨⟨hfatal, rfl, hwork, rfl, rfl⟩, rfl, fun f hf => ?_⟩
    cases hf
    exact runSource_notInternal hrun

theorem endsBare (h : s.Tracks paint path source {}) (t : Task) : t.EndsBare paint path source s (t.action s) := by
  have hread : ∀ f, scanText s.source >>= readProgram = .error f → f.isInternal = false :=
    fun f hf => (text_fault hf).2.1
  cases t with
  | run => exact endsBare_run h
  | feed text number => exact endsBare_feed h text number
  | tokens => exact endsBare_ofExcept (t := tokens) h (fun _ => rfl) (fun _ => rfl) fun f hf => (scanText_error hf).2.1
  | statements =>
    rw [action, Session.statements_eq]
    exact endsBare_ofExcept (t := statements) h (fun _ => rfl) (fun _ => rfl) hread
  | outline =>
    rw [action, Session.outlined_eq]
    refine endsBare_ofExcept (t := outline) h (fun _ => rfl) (fun _ => rfl) fun f hf => ?_
    cases hprogram : scanText s.source >>= readProgram with
    | ok program =>
      rw [hprogram] at hf
      cases hf
    | error f' =>
      rw [hprogram] at hf
      cases hf
      exact hread f hprogram

/-! ## Guarded tasks -/

/-- **How a guarded task ends** in a session that is not fatal. -/
inductive Ends (t : Task) (paint : Painter) (path source : Text) (s : Session) :
    EStateM.Result Stop Session (Option t.Answer) → Prop
  /-- It is answered, and nothing but warnings is printed. -/
  | answered {a : t.Answer} {s' : Session} : t.action s = .ok a s' → s'.Tracks paint path source {} →
      s'.errors = t.warnings paint path a ++ s.errors → Ends t paint path source s (.ok (some a) s')
  /-- A fault is printed in one report, and goes no further. -/
  | reported {f : Fault} {bare s' : Session} : t.action s = .error (.fault f) bare → s'.Tracks paint path source {} →
      s'.errors = (traceback path (t.mark source (.fault f)) ++ errorLine paint f) :: s.errors →
      Ends t paint path source s (.ok none s')
  /-- A crash is printed in one report as a failure of the system, and goes on. -/
  | crashed {c : Crash} {bare s' : Session} : t.action s = .error (.crash c) bare → s'.Tracks paint path source {} →
      s'.errors = (traceback path (t.mark source (.crash c)) ++ internalLine paint c) :: s.errors →
      Ends t paint path source s (.error (.crash c) s')
  /-- It asks to exit, or it goes on for ever. -/
  | left {stop : Stop} {s' : Session} : t.action s = .error stop s' → stop.isSilent = true → s'.errors = s.errors →
      Ends t paint path source s (.error stop s')

/-- A fault ends a task in one way only. -/
theorem Ends.of_fault {t : Task} {result : EStateM.Result Stop Session (Option t.Answer)}
    (h : t.Ends paint path source s result) {f : Fault} {bare : Session}
    (hfault : t.action s = .error (.fault f) bare) :
    ∃ s' : Session, result = .ok none s' ∧ s'.Tracks paint path source {} ∧
      s'.errors = (traceback path (t.mark source (.fault f)) ++ errorLine paint f) :: s.errors := by
  cases h with
  | answered haction _ _ => cases hfault.symm.trans haction
  | reported haction htracks herrors =>
    cases hfault.symm.trans haction
    exact ⟨_, rfl, htracks, herrors⟩
  | crashed haction _ _ => cases hfault.symm.trans haction
  | left haction hsilent _ =>
    cases hfault.symm.trans haction
    cases hsilent

/-- **Every guarded task ends in one of these ways.** -/
theorem ends (h : s.Tracks paint path source {}) (t : Task) :
    t.Ends paint path source s (Session.guarded t.action s) := by
  have hbare := t.endsBare h
  rw [Session.guarded_eq]
  cases haction : t.action s with
  | ok a s' =>
    rw [haction] at hbare
    exact .answered haction hbare.1 hbare.2
  | error stop s' =>
    rw [haction] at hbare
    obtain ⟨htracks, herrors, hinternal⟩ := hbare
    cases stop with
    | fault f =>
      obtain ⟨hreported, hprinted⟩ := htracks.reported f
      simp only [htracks.notFatal, Bool.false_eq_true, if_false]
      refine .reported haction hreported ?_
      rw [hprinted, Reporter.report_fault htracks.trace (hinternal f rfl), htracks.paint, herrors]
    | crash c =>
      obtain ⟨hreported, hprinted⟩ := htracks.reported (Reporter.internalFault c)
      simp only [htracks.notFatal, Bool.false_eq_true, if_false]
      refine .crashed haction hreported ?_
      rw [hprinted, Reporter.report_crash htracks.trace, htracks.paint, herrors]
    | exit code => exact .left haction rfl herrors
    | outOfRounds => exact .left haction rfl herrors

/-! ## Tasks one after another -/

/-- The session after a guarded task, however it ended. -/
def after (s : Session) (t : Task) : Session :=
  match Session.guarded t.action s with
  | .ok _ s' => s'
  | .error _ s' => s'

def afterAll (s : Session) (tasks : List Task) : Session := tasks.foldl after s

/-- Does none of the tasks, one after another, ask to exit or go on for ever? -/
def allEnd (s : Session) : List Task → Bool
  | [] => true
  | t :: ts => (stopOf? (Session.guarded t.action s)).all (!·.isSilent) && allEnd (after s t) ts

/-- A task that comes to its end leaves no mark. -/
theorem tracks_after (h : s.Tracks paint path source {}) {t : Task}
    (hends : (stopOf? (Session.guarded t.action s)).all (!·.isSilent) = true) :
    (after s t).Tracks paint path source {} := by
  have hcases := t.ends h
  unfold after
  generalize Session.guarded t.action s = result at hcases hends
  cases hcases with
  | answered _ htracks _ => exact htracks
  | reported _ htracks _ => exact htracks
  | crashed _ htracks _ => exact htracks
  | left _ hsilent _ =>
    rw [stopOf?, Option.all_some, hsilent] at hends
    cases hends

theorem tracks_afterAll : ∀ (tasks : List Task) {s : Session}, s.Tracks paint path source {} → allEnd s tasks = true →
    (afterAll s tasks).Tracks paint path source {}
  | [], _, h, _ => h
  | t :: ts, s, h, hends => by
    rw [allEnd, Bool.and_eq_true] at hends
    exact tracks_afterAll ts (tracks_after h hends.1) hends.2

end Task

/-- A session starts with its file in mind, and no line. -/
theorem Session.tracks_start {fatal atPrompt : Bool} {paint : Painter} {path : Text} {contents : Option (List Nat)}
    {input : Option Text} {s : Session}
    (h : Session.start { isFatal := fatal, paint } path atPrompt contents input = .ok s)
    (hfatal : s.reporter.isFatal = false) : s.Tracks paint path s.source {} := by
  have hkept : s.reporter.paint = paint ∧ s.reporter.trace.entries = [(path, {})] ∧ s.path = path := by
    simp only [Session.start] at h
    repeat' split at h
    all_goals
      cases h
      try exact ⟨rfl, rfl, rfl⟩
  exact ⟨hfatal, hkept.1, hkept.2.1, hkept.2.2, rfl⟩

/-- **No line of a task is quoted after it.**  Take a session that is not fatal, with a reporter of its own, and any
tasks, each guarded, of which none asks to exit or goes on for ever.  After them the reporter remembers the file and no
line.  The next task is answered without a report; or it ends in a fault, which is printed in exactly one report and
goes no further; or in a crash, which is printed in exactly one report and goes on.  The report quotes at most one line:
the piece that was typed for this task, or the line of the file that the fault is on.  Reading the file quotes none. -/
theorem no_stale_trace {fatal atPrompt : Bool} {paint : Painter} {path : Text} {contents : Option (List Nat)}
    {input : Option Text} {s : Session}
    (hstart : Session.start { isFatal := fatal, paint } path atPrompt contents input = .ok s)
    (hfatal : s.reporter.isFatal = false) {tasks : List Task} (hends : Task.allEnd s tasks = true) :
    (Task.afterAll s tasks).reporter.trace.entries = [(path, {})] ∧
      ∀ t : Task,
        t.Ends paint path s.source (Task.afterAll s tasks) (Session.guarded t.action (Task.afterAll s tasks)) := by
  have htracks := Task.tracks_afterAll tasks (Session.tracks_start hstart hfatal) hends
  exact ⟨htracks.trace, Task.ends htracks⟩

/-- A session on a file that looks for `hp` on its second line, and goes on after it. -/
def relay : Session := { glitch with reporter := { glitch.reporter with isFatal := false } }

/-- A typed piece with a fault, one that makes the system fail, and a look at the tokens of the file. -/
def relayTasks : List Task := [.feed "boss".toList (some 7), .feed "gameover(1/0)".toList (some 8), .tokens]

/-- None of the typed pieces is quoted when the file is run after them. -/
theorem no_stale_trace_after_typed :
    let f : Fault := { cause := .undefinedVariable "hp".toList, line := some 2 }
    Session.start { isFatal := false } "a".toList false (some [10, 104, 112]) none = .ok relay ∧
    Task.allEnd relay relayTasks = true ∧
    ∃ s', Session.guarded Session.runFile (Task.afterAll relay relayTasks) = .ok none s' ∧
      s'.reporter.trace.entries = [("a".toList, {})] ∧
      s'.errors = ("Traceback:\n  File 'a', line 2:\n    hp\n".toList ++ errorLine .ansi f) ::
        (Task.afterAll relay relayTasks).errors := by
  intro f
  have hstart : Session.start { isFatal := false } "a".toList false (some [10, 104, 112]) none = .ok relay := rfl
  have hends : Task.allEnd relay relayTasks = true := by decide +kernel
  have hstop : stopOf? (Session.runFile (Task.afterAll relay relayTasks)) = some (.fault f) := by decide +kernel
  have hquoted : traceback "a".toList (Task.run.mark relay.source (.fault f)) =
      "Traceback:\n  File 'a', line 2:\n    hp\n".toList := by decide +kernel
  obtain ⟨bare, hbare⟩ := eq_error_of_stopOf? hstop
  obtain ⟨s', hguard, htracks, herrors⟩ := ((no_stale_trace hstart rfl hends).2 .run).of_fault hbare
  rw [hquoted] at herrors
  exact ⟨hstart, hends, s', hguard, htracks.trace, herrors⟩

end Loot
