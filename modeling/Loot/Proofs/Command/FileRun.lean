import Loot.Command.Line
import Loot.Proofs.Display.Plain
import Loot.Proofs.Session.Reporting
import Loot.Proofs.Text.Utf8
/-!
# Running a file from the command line

A command line that names a file runs the text of the file on a fresh machine, and writes what that run writes.  What it
says besides, and with which code it ends, is told by the way in which the run ended (`file_run_settled`).  The reporter
that guards the run is fatal, so there is one report at most and nothing after it.
-/
namespace Loot

/-! ## The command line -/

/-- A word that does not begin with a hyphen names the file. -/
theorem Options.read_file {path : Text} (h : path.head? ≠ some '-') :
    Options.read [path] = .run { file := some path } := by
  have hplain : Word.ofText path = .ok (.plain path) := by
    unfold Word.ofText
    split
    · exact absurd rfl h
    · exact absurd rfl h
    · exact absurd rfl h
    · exact absurd rfl h
    · rfl
  have hdivider : path ≠ "--".toList := by
    rintro rfl
    exact absurd rfl h
  rw [Options.read, Word.classify, if_neg hdivider, hplain]
  rfl

/-! ## Effects -/

theorem foldl_prepend {f : Text → Event → Text} (hf : ∀ text e, f text e = f [] e ++ text) :
    ∀ (es : List Event) (text : Text), es.foldl f text = es.foldl f [] ++ text
  | [], _ => rfl
  | e :: es, text => by
    rw [List.foldl_cons, List.foldl_cons, hf, foldl_prepend hf es (f [] e ++ text), foldl_prepend hf es (f [] e),
      List.append_assoc]

/-- The last event comes first, and its text last. -/
theorem Event.written_cons (e : Event) (es : List Event) : written (e :: es) = written es ++ written [e] := by
  unfold written
  rw [List.foldl_cons, foldl_prepend fun text e => by cases e <;> simp]
  rfl

namespace Outcome

variable (stop : Option Stop)

theorem output_append (a b : List Effect) :
    (⟨a ++ b, stop⟩ : Outcome).output = (⟨a, stop⟩ : Outcome).output ++ (⟨b, stop⟩ : Outcome).output :=
  List.flatMap_append

theorem errors_append (a b : List Effect) :
    (⟨a ++ b, stop⟩ : Outcome).errors = (⟨a, stop⟩ : Outcome).errors ++ (⟨b, stop⟩ : Outcome).errors :=
  List.flatMap_append

theorem output_events : ∀ events : List Event,
    (⟨(events.map Effect.ofEvent).reverse, stop⟩ : Outcome).output = Event.written events
  | [] => rfl
  | e :: es => by
    have he : (⟨[Effect.ofEvent e], stop⟩ : Outcome).output = Event.written [e] := by cases e <;> rfl
    rw [List.map_cons, List.reverse_cons, output_append, output_events es, he, ← Event.written_cons]

theorem errors_events (events : List Event) : (⟨(events.map Effect.ofEvent).reverse, stop⟩ : Outcome).errors = [] := by
  refine List.flatMap_eq_nil_iff.2 fun e he => ?_
  obtain ⟨event, -, rfl⟩ := List.mem_map.1 (List.mem_reverse.1 he)
  cases event <;> rfl

theorem output_printed (texts : List Text) : (⟨(texts.map Effect.err).reverse, stop⟩ : Outcome).output = [] := by
  refine List.flatMap_eq_nil_iff.2 fun e he => ?_
  obtain ⟨text, -, rfl⟩ := List.mem_map.1 (List.mem_reverse.1 he)
  rfl

theorem errors_printed : ∀ texts : List Text,
    (⟨(texts.map Effect.err).reverse, stop⟩ : Outcome).errors = texts.reverse.flatten
  | [] => rfl
  | t :: ts => by
    have ht : (⟨[Effect.err t], stop⟩ : Outcome).errors = t := List.append_nil t
    rw [List.map_cons, List.reverse_cons, errors_append, errors_printed ts, ht, List.reverse_cons, List.flatten_append,
      List.flatten_singleton]

/-- **The effects of a session** are what its machine wrote, and what it printed besides. -/
theorem output_ofSession (s : Session) :
    (⟨Effect.ofSession s, stop⟩ : Outcome).output = Event.written s.machine.events := by
  rw [Effect.ofSession, output_append, output_events, output_printed, List.append_nil]

theorem errors_ofSession (s : Session) : (⟨Effect.ofSession s, stop⟩ : Outcome).errors = s.errors.reverse.flatten := by
  rw [Effect.ofSession, errors_append, errors_events, errors_printed, List.nil_append]

end Outcome

/-! ## The session of a file -/

/-- The session of a command on a file with the given text. -/
def Session.onText (paint : Painter) (path source : Text) (input : Option Text) : Session where
  reporter := { trace := ⟨[(path, {})]⟩, paint }
  path := path
  source := source
  machine := { input }

theorem Session.start_text (paint : Painter) {path : Text} (htyped : path ≠ typedPath) (hnull : '\x00' ∉ path)
    (text : Text) (input : Option Text) :
    start { paint } path false (some text.utf8) input = .ok (onText paint path text.withNewlines input) := by
  have hname : ¬ path.contains '\x00' = true := by simpa using hnull
  simp only [start, if_neg htyped, if_neg hname, Utf8.decode_utf8]
  rfl

/-- A command that asks for nothing else runs the file. -/
theorem Command.onFile_run (paint : Painter) (path : Text) (s : Session) :
    onFile paint { file := some path } s = match Session.runFile s with
      | .ok _ s' => .ok [] s'
      | .error stop s' => .error stop s' := by
  simp only [onFile, bind, EStateM.bind, Bool.false_eq_true, if_false]
  cases Session.runFile s <;> rfl

/-! ## How the command ends -/

/-- **What a finished command shows**: what it wrote, what it said besides, and how it stopped. -/
structure Outcome.Shows (o : Outcome) (output errors : Text) (stop : Option Stop) : Prop where
  output : o.output = output
  errors : o.errors = errors
  stop : o.stop = stop

theorem Outcome.shows_session (s : Session) (stop : Option Stop) :
    (⟨Effect.ofSession s, stop⟩ : Outcome).Shows (Event.written s.machine.events) s.errors.reverse.flatten stop :=
  ⟨output_ofSession stop s, errors_ofSession stop s, rfl⟩

theorem Outcome.shows_reported {s : Session} (hquiet : s.errors = []) {f : Fault} {text : Text}
    (htext : s.reporter.report f = text) (stop : Option Stop) :
    (⟨Effect.ofSession (s.reported f), stop⟩ : Outcome).Shows (Event.written s.machine.events) text stop := by
  have herrors : (s.reported f).errors.reverse.flatten = text := by
    rw [Session.reported, htext, hquiet, List.reverse_singleton, List.flatten_singleton]
  exact herrors ▸ shows_session (s.reported f) stop

/-- Nothing is shown by writing nothing. -/
theorem Outcome.shows_answered (s : Session) : (⟨Effect.ofSession s ++ [.out []], none⟩ : Outcome).Shows
    (Event.written s.machine.events) s.errors.reverse.flatten none := by
  refine ⟨?_, ?_, rfl⟩
  · rw [output_append, output_ofSession]
    exact List.append_nil _
  · rw [errors_append, errors_ofSession]
    exact List.append_nil _

/-- The outcome of guarded work on a file. -/
def Outcome.ofGuarded : EStateM.Result Stop Session (Option Text) → Outcome
  | .ok text s => ⟨Effect.ofSession s ++ [.out (text.getD [])], none⟩
  | .error stop s => ⟨Effect.ofSession s, some stop⟩

/-- The command starts a session on the text and guards its work. -/
theorem Command.run_text {files : Text → Option (List Nat)} {path text : Text} (hfile : files path = some text.utf8)
    (htyped : path ≠ Session.typedPath) (hhyphen : path.head? ≠ some '-') (hnull : '\x00' ∉ path)
    (input : Option Text) (paint : Painter) : run files [path] input paint = Outcome.ofGuarded
      (Session.guarded (onFile paint { file := some path }) (Session.onText paint path text.withNewlines input)) := by
  simp only [run, Options.read_file hhyphen, runFile, hfile, Session.start_text paint htyped hnull]
  rfl

/-- **A guarded run shows what the run did**, if the guard is fatal and nothing was printed before. -/
theorem Command.ofGuarded_shows {s : Session} (hfatal : s.reporter.isFatal = true)
    (htrace : s.reporter.trace.entries = [(s.path, {})]) (hquiet : s.errors = []) {path : Text} {o : Outcome}
    {paint : Painter} (ho : o = Outcome.ofGuarded (Session.guarded (onFile paint { file := some path }) s)) :
    match runSource .standard s.source s.machine with
    | .ok flow m => o.Shows (Event.written m.events) (flowWarnings s.reporter.paint s.path none flow).flatten none
    | .error (.fault f) m => f.isInternal = false →
      o.Shows (Event.written m.events)
        (traceback s.path (Session.faultMark s.source f) ++ errorLine s.reporter.paint f) (some (.exit 1))
    | .error (.crash c) m => o.Shows (Event.written m.events) (internalLine s.reporter.paint c) (some (.exit 1))
    | .error stop m => o.Shows (Event.written m.events) [] (some stop) := by
  have hrun := Session.runFile_eq htrace
  rw [Session.guarded_eq, onFile_run] at ho
  cases hsource : runSource .standard s.source s.machine with
  | ok flow m =>
    rw [hsource] at hrun
    simp only [hrun, hquiet] at ho
    rw [ho]
    have hshows := Outcome.shows_answered
      { s with machine := m, errors := flowWarnings s.reporter.paint s.path none flow ++ [] }
    cases flow <;> exact hshows
  | error stop m =>
    rw [hsource] at hrun
    cases stop with
    | fault f =>
      obtain ⟨trace, hrun, hentries⟩ := hrun
      intro hinternal
      simp only [hrun, hfatal, if_true, hquiet] at ho
      rw [ho]
      exact Outcome.shows_reported (s := { s with machine := m, reporter := { s.reporter with trace }, errors := [] })
        rfl (Reporter.report_fault hentries hinternal) _
    | crash c =>
      simp only [hrun, hfatal, if_true, hquiet] at ho
      rw [ho]
      -- no line is marked for a crash, so none is quoted
      exact Outcome.shows_reported (s := { s with machine := m, errors := [] }) rfl (Reporter.report_crash htrace c) _
    | exit code =>
      simp only [hrun, hquiet] at ho
      rw [ho]
      exact Outcome.shows_session { s with machine := m, errors := [] } _
    | outOfRounds =>
      simp only [hrun, hquiet] at ho
      rw [ho]
      exact Outcome.shows_session { s with machine := m, errors := [] } _

/-! ## Runs on a fresh machine -/

theorem fault_of_fresh {limits : Limits} {source : Text} {input : Option Text} {f : Fault} {m : Machine}
    (h : runSource limits source { input } = .error (.fault f) m) :
    f.isInternal = false ∧ f.line.IsWithin source.newlines := by
  have hending := runSource_ending limits [] source (Machine.functionsOf_fresh _ _ input .standard) fun m' hm' => by
    cases h.symm.trans hm'
  rw [h] at hending
  cases hending with
  | refused _ hinternal hline => exact ⟨hinternal, hline⟩
  | failed _ _ hinternal hline => exact ⟨hinternal, by simpa [mostNewlines] using hline⟩

theorem crash_of_fresh {limits : Limits} {source : Text} {input : Option Text} {c : Crash} {m : Machine}
    (h : runSource limits source { input } = .error (.crash c) m) :
    c = .exitNotNumber ∨ c = .exitInfinite ∨ c = .pauseTooLong := by
  have hending := runSource_ending limits [] source (Machine.functionsOf_fresh _ _ input .standard) fun m' hm' => by
    cases h.symm.trans hm'
  rw [h] at hending
  cases hending with
  | exitNotNumber _ _ _ => exact .inl rfl
  | exitInfinite _ _ _ => exact .inr (.inl rfl)
  | noSeconds _ _ hrefuses | noMilliseconds _ _ hrefuses => exact .inr (.inr (Clock.standard_refuses hrefuses))

/-- The line of a fault is one of the text, and it is the one that is marked. -/
theorem faultMark_of_fresh {limits : Limits} {text : Text} {input : Option Text} {f : Fault} {m : Machine}
    (h : runSource limits text.withNewlines { input } = .error (.fault f) m) :
    ∃ (n : Nat) (line : Text), f.line = some (n : Int) ∧ 0 < n ∧
      (text.withNewlines.splitOn '\n')[n - 1]? = some line ∧
      Session.faultMark text.withNewlines f = ⟨some line, some n⟩ := by
  obtain ⟨n, line, hn, hpos, hline, hfound⟩ := (fault_of_fresh h).2.sourceLine
  have hreturns : text.withNewlines.filter (· != '\r') = text.withNewlines := by
    refine List.filter_eq_self.2 fun c hc => ?_
    rw [bne_iff_ne]
    rintro rfl
    exact return_not_mem_withNewlines text hc
  rw [hreturns] at hline
  exact ⟨n, line, hn, hpos, hline, Session.faultMark_eq hn (Session.sourceLine?_eq _ _ ▸ hfound)⟩

theorem newlines_escapeSequence (n : Nat) : (Text.escapeSequence n).newlines = 0 := by
  refine List.count_eq_zero.2 fun h => ?_
  have hdigits : '\n' ∉ Text.ofNat n := fun hmem =>
    absurd (Nat.isDigit_of_mem_toDigits (by decide) (by decide) hmem) (by decide)
  simp [Text.escapeSequence, hdigits] at h

/-- What a painter puts around a text is on its lines. -/
theorem Painter.Wraps.newlines {paint : Painter} (h : paint.Wraps) (style : Style) (t : Text) :
    (paint style t).newlines = t.newlines := by
  obtain ⟨codes, hcodes⟩ := h style t
  have hbefore : ∀ codes : List Nat, Text.newlines (codes.flatMap Text.escapeSequence) = 0 := by
    intro codes
    induction codes with
    | nil => rfl
    | cons n codes ih => rw [List.flatMap_cons, Text.newlines_append, newlines_escapeSequence, ih]
  rw [hcodes, Text.newlines_append, Text.newlines_append, hbefore, newlines_escapeSequence, Nat.zero_add, Nat.add_zero]

/-- A warning is one line, whatever lines the name of the file has. -/
theorem newlines_strayWarning {paint : Painter} (hpaint : paint.Wraps) (path : Text) :
    (strayWarning paint path none).newlines = path.newlines + 1 := by
  have hwords : Text.newlines "warning: ".toList = 0 ∧ Text.newlines Session.strayReturn.toList = 0 := by decide
  rw [strayWarning, Text.newlines_append, Text.newlines_append, Text.newlines_append, Painter.bold,
    Painter.boldColoured, hpaint.newlines, hpaint.newlines, hwords.1, hwords.2, Text.newlines_append,
    Text.newlines_append, Option.elim_none]
  rfl

/-- **How a command on a file ends**, by the way in which the run of its text ended. -/
inductive Outcome.Settles (o : Outcome) (paint : Painter) (path source : Text) :
    EStateM.Result Stop Machine Flow → Prop
  /-- The run completes, and the command comes to its end without a word. -/
  | completed {m : Machine} : o.Shows (Event.written m.events) [] none → Settles o paint path source (.ok .normal m)
  /-- A value is given back, and the command comes to its end with a warning of one line. -/
  | stray {v : Value} {m : Machine} : o.Shows (Event.written m.events) (strayWarning paint path none) none →
      (strayWarning paint path none).newlines = path.newlines + 1 → Settles o paint path source (.ok (.returned v) m)
  /-- The run exits with a code, and so does the command, without a word. -/
  | exited {code : Int} {m : Machine} : o.Shows (Event.written m.events) [] (some (.exit code)) →
      Settles o paint path source (.error (.exit code) m)
  /-- The run ends in a fault on a line of the text.  The command quotes the line, unless it is empty, and exits. -/
  | faulted {f : Fault} {m : Machine} {n : Nat} {line : Text} : f.line = some (n : Int) → 0 < n →
      (source.splitOn '\n')[n - 1]? = some line →
      o.Shows (Event.written m.events) (traceback path ⟨some line, some n⟩ ++ errorLine paint f) (some (.exit 1)) →
      Settles o paint path source (.error (.fault f) m)
  /-- `gameover`, `afk` or `lag` makes the system fail.  The command calls the failure internal and exits. -/
  | crashed {c : Crash} {m : Machine} : c = .exitNotNumber ∨ c = .exitInfinite ∨ c = .pauseTooLong →
      o.Shows (Event.written m.events) (internalLine paint c) (some (.exit 1)) →
      Settles o paint path source (.error (.crash c) m)
  /-- The run does not end, and nor does the command. -/
  | endless {m : Machine} : o.Shows (Event.written m.events) [] (some .outOfRounds) →
      Settles o paint path source (.error .outOfRounds m)

/-- A fault settles a command in one way only. -/
theorem Outcome.Settles.of_fault {o : Outcome} {paint : Painter} {path source : Text} {f : Fault} {m : Machine}
    (h : o.Settles paint path source (.error (.fault f) m)) : ∃ (n : Nat) (line : Text), f.line = some (n : Int) ∧
      (source.splitOn '\n')[n - 1]? = some line ∧
      o.Shows (Event.written m.events) (traceback path ⟨some line, some n⟩ ++ errorLine paint f) (some (.exit 1)) := by
  cases h with
  | faulted hn _ hline hshows => exact ⟨_, _, hn, hline, hshows⟩

/-- **A file is run from the command line as its text is.**  Take a file that holds a text, whose name is not the one
for typed input, does not begin with a hyphen and holds no null character, as no name of a file does; any input; and a
painter that wraps what it paints.
The command writes exactly what the text, its line ends made newlines, writes on a fresh machine.  What it says besides
and how it ends is settled by the end of that run. -/
theorem file_run_settled {files : Text → Option (List Nat)} {path text : Text} (hfile : files path = some text.utf8)
    (htyped : path ≠ Session.typedPath) (hhyphen : path.head? ≠ some '-') (hnull : '\x00' ∉ path)
    (input : Option Text) {paint : Painter} (hpaint : paint.Wraps) :
    (Command.run files [path] input paint).Settles paint path text.withNewlines
      (runSource .standard text.withNewlines { input }) := by
  have hshows := Command.ofGuarded_shows (s := Session.onText paint path text.withNewlines input) rfl rfl rfl
    (Command.run_text hfile htyped hhyphen hnull input paint)
  have hfresh : runSource .standard (Session.onText paint path text.withNewlines input).source
      (Session.onText paint path text.withNewlines input).machine =
        runSource .standard text.withNewlines { input } := rfl
  rw [hfresh] at hshows
  cases hrun : runSource .standard text.withNewlines { input } with
  | ok flow m =>
    rw [hrun] at hshows
    cases flow with
    | normal => exact .completed hshows
    | returned v =>
      have hone : (flowWarnings paint path none (.returned v)).flatten = strayWarning paint path none :=
        List.flatten_singleton
      exact .stray (by rw [← hone]; exact hshows) (newlines_strayWarning hpaint path)
  | error stop m =>
    rw [hrun] at hshows
    cases stop with
    | fault f =>
      obtain ⟨n, line, hn, hpos, hline, hmark⟩ := faultMark_of_fresh hrun
      exact .faulted hn hpos hline (hmark ▸ hshows (fault_of_fresh hrun).1)
    | crash c => exact .crashed (crash_of_fresh hrun) hshows
    | exit code => exact .exited hshows
    | outOfRounds => exact .endless hshows

/-- A file that writes a number, ends its line with a return and a newline, and then looks for `hp`. -/
def spoiledText : Text := "taunt(1)\r\n\thp".toList

theorem file_run_settled_quoted_fault :
    let f : Fault := { cause := .undefinedVariable "hp".toList, line := some 2 }
    (Command.run (fun _ => some spoiledText.utf8) ["a".toList] none).Shows "1\n".toList
      ("Traceback:\n  File 'a', line 2:\n    hp\n".toList ++ errorLine .ansi f) (some (.exit 1)) := by
  intro f
  have hstop : stopOf? (runSource .standard spoiledText.withNewlines {}) = some (.fault f) := by decide +kernel
  have hwritten : Event.written ((runSource .standard spoiledText.withNewlines).left {}).events = "1\n".toList := by
    decide +kernel
  have hline : (spoiledText.withNewlines.splitOn '\n')[1]? = some "\thp".toList := by decide +kernel
  have hquoted : traceback "a".toList ⟨some "\thp".toList, some 2⟩ =
      "Traceback:\n  File 'a', line 2:\n    hp\n".toList := by decide +kernel
  obtain ⟨m, hm⟩ := eq_error_of_stopOf? hstop
  have hsettled : (Command.run (fun _ => some spoiledText.utf8) ["a".toList] none).Settles .ansi "a".toList
      spoiledText.withNewlines (runSource .standard spoiledText.withNewlines {}) :=
    file_run_settled rfl (by decide) (by decide) (by decide) none Painter.wraps_ansi
  rw [hm] at hsettled
  obtain ⟨n, line, hn, hfound, hshows⟩ := hsettled.of_fault
  have htwo : n = 2 := by
    have hcast : (2 : Int) = n := Option.some.inj hn
    omega
  subst htwo
  rw [← Option.some.inj (hline.symm.trans hfound)] at hshows
  unfold Run.left at hwritten
  rw [hm] at hwritten
  rw [← hwritten, ← hquoted]
  exact hshows

end Loot
