import Loot.Proofs.Session.Endings
/-!
# What a session prints

A guard prints one report for work that ends in a fault or a crash, and none for other work (`guarded_eq`).  While one
file is at work, a report is the quotation of at most one line and the words for what happened (`report_fault`,
`report_crash`).  A session that runs its file quotes the line of the file that the fault is on (`runFile_eq`).
-/
namespace Loot

/-! ## Texts of reports -/

/-- The quotation of the line at work, which there is none of if the line is empty. -/
def traceback (path : Text) : Mark → Text
  | ⟨none, _⟩ | ⟨some [], _⟩ => []
  | ⟨some text, number⟩ =>
    "Traceback:\n  File '".toList ++ path ++ "', line ".toList ++ number.text ++ ":\n    ".toList ++ text.strip ++
      ['\n']

section Painted

variable (paint : Painter)

/-- The words for a fault. -/
def errorLine (f : Fault) : Text := paint.boldColoured .red "error: ".toList ++ f.text ++ ['\n']

/-- The words for a crash. -/
def internalLine (c : Crash) : Text :=
  paint.boldColoured .red "[internal] ".toList ++ paint.boldColoured .red "error: ".toList ++
    ("unknown error: '".toList ++ c.name ++ ": ".toList ++ c.text ++ "'".toList) ++ ['\n']

/-- The warning about a program that gave back a value outside of a function. -/
def strayWarning (path : Text) (line : Line) : Text :=
  paint.bold (path ++ line.elim [] (fun n => ':' :: Text.ofInt n) ++ ": ".toList) ++
    paint.boldColoured .magenta "warning: ".toList ++ Session.strayReturn.toList ++ ['\n']

/-- The warnings after a program: one if it gave a value back. -/
def flowWarnings (path : Text) (line : Line) : Flow → List Text
  | .normal => []
  | .returned _ => [strayWarning paint path line]

end Painted

namespace Reporter

variable {r : Reporter} {path : Text} {mark : Mark}

theorem quotations_eq (h : r.trace.entries = [(path, mark)]) : r.quotations = traceback path mark := by
  unfold quotations
  rw [h, List.flatMap_singleton]
  obtain ⟨_ | _ | ⟨c, cs⟩, number⟩ := mark
  · rfl
  · rfl
  · rfl

theorem report_fault (h : r.trace.entries = [(path, mark)]) {f : Fault} (hf : f.isInternal = false) :
    r.report f = traceback path mark ++ errorLine r.paint f := by
  rw [report, quotations_eq h, hf]
  simp only [errorLine, Bool.false_eq_true, if_false, List.append_nil, List.append_assoc]

theorem report_crash (h : r.trace.entries = [(path, mark)]) (c : Crash) :
    r.report (internalFault c) = traceback path mark ++ internalLine r.paint c := by
  have htext : (internalFault c).text = "unknown error: '".toList ++ c.name ++ ": ".toList ++ c.text ++ "'".toList :=
    rfl
  have hinternal : (internalFault c).isInternal = true := rfl
  rw [report, quotations_eq h, htext, hinternal, if_pos rfl, internalLine]
  simp only [List.append_assoc]

theorem warning_eq (h : r.trace.entries = [(path, mark)]) (line : Line) :
    r.warning Session.strayReturn.toList line = strayWarning r.paint path line := by
  have hlocation : r.location line = path ++ line.elim [] (fun n => ':' :: Text.ofInt n) ++ ": ".toList := by
    unfold location
    rw [h]
    cases line with
    | none => exact congrArg (· ++ ": ".toList) (List.append_nil path).symm
    | some n => exact congrArg (· ++ ": ".toList) (List.append_assoc path [':'] (Text.ofInt n))
  rw [warning, hlocation, if_neg (by simp)]
  rfl

theorem report_ne_nil (r : Reporter) (f : Fault) : r.report f ≠ [] :=
  List.append_ne_nil_of_right_ne_nil _ (List.cons_ne_nil _ _)

theorem warning_ne_nil (r : Reporter) (text : Text) (line : Line) : r.warning text line ≠ [] :=
  List.append_ne_nil_of_right_ne_nil _ (List.cons_ne_nil _ _)

theorem entries_set (h : r.trace.entries = [(path, mark)]) (mark' : Mark) :
    (r.trace.set path mark').entries = [(path, mark')] := by
  unfold Bindings.set
  rw [h]
  exact if_pos rfl

theorem entries_reset (h : r.trace.entries = [(path, mark)]) : r.reset.trace.entries = [(path, {})] := by
  unfold reset Bindings.map
  rw [h]
  rfl

end Reporter

namespace Session

/-! ## Guards -/

theorem print_apply {text : Text} (h : text ≠ []) (s : Session) :
    print text s = .ok () { s with errors := text :: s.errors } :=
  congrArg (EStateM.Result.ok ()) (if_neg (by simpa using h))

theorem warn_apply (text : String) (line : Line) (s : Session) :
    warn text line s = .ok () { s with errors := s.reporter.warning text.toList line :: s.errors } :=
  print_apply (Reporter.warning_ne_nil s.reporter text.toList line) s

/-- What a guard does when its action stops: it prints what the reporter makes of the stop, and lets out what it lets
out. -/
theorem guarded_of_error {α : Type} {action : InSession α} {s s' : Session} {stop : Stop} {text : Text} {r : Reporter}
    {out : Option Stop} (h : action s = .error stop s')
    (hsettle : s'.reporter.settle (some (.stop stop)) = (text, r, out)) :
    guarded action s = (print text >>= fun _ => out.elim (pure none) throw) { s' with reporter := r } := by
  have hrestore : EStateM.Backtrackable.restore s' (EStateM.Backtrackable.save s) = s' := rfl
  have hget : (get : InSession Session) s' = .ok s' s' := rfl
  unfold guarded
  simp only [bind, EStateM.bind, tryCatch, tryCatchThe, MonadExceptOf.tryCatch, EStateM.tryCatch, h, hrestore, hget,
    hsettle]
  cases out <;> rfl

/-- The session after its reporter has printed a fault. -/
def reported (s : Session) (f : Fault) : Session :=
  { s with reporter := (s.reporter.fail f).2.1, errors := s.reporter.report f :: s.errors }

theorem reported_of_notFatal {s : Session} (h : s.reporter.isFatal = false) (f : Fault) :
    s.reported f = { s with reporter := s.reporter.reset, errors := s.reporter.report f :: s.errors } := by
  rw [reported, Reporter.fail, if_neg (by rw [h]; decide)]

/-- A guard that prints a fault lets out what its reporter lets out. -/
theorem guarded_of_report {α : Type} {action : InSession α} {s s' : Session} {stop : Stop} {f : Fault}
    {out : Option Stop} (h : action s = .error stop s')
    (hsettle : s'.reporter.settle (some (.stop stop)) = (s'.reporter.report f, (s'.reporter.fail f).2.1, out)) :
    guarded action s = out.elim (.ok none (s'.reported f)) fun stop => .error stop (s'.reported f) := by
  rw [guarded_of_error h hsettle]
  simp only [bind, EStateM.bind, print_apply (Reporter.report_ne_nil s'.reporter f)]
  cases out <;> rfl

/-- **What a guard makes of an outcome**: faults and crashes are printed, and a fault goes no further.  With a fatal
reporter both end the program. -/
theorem guarded_eq {α : Type} (action : InSession α) (s : Session) :
    guarded action s = match action s with
      | .ok a s' => .ok (some a) s'
      | .error (.fault f) s' =>
        if s'.reporter.isFatal then .error (.exit 1) (s'.reported f) else .ok none (s'.reported f)
      | .error (.crash c) s' =>
        .error (if s'.reporter.isFatal then .exit 1 else .crash c) (s'.reported (Reporter.internalFault c))
      | .error stop s' => .error stop s' := by
  have hfail : ∀ (r : Reporter) f,
      r.fail f = (r.report f, (r.fail f).2.1, if r.isFatal then some (.exit 1) else none) := by
    intro r f
    unfold Reporter.fail
    split <;> rfl
  cases haction : action s with
  | ok a s' =>
    simp only [guarded, bind, EStateM.bind, tryCatch, tryCatchThe, MonadExceptOf.tryCatch, EStateM.tryCatch, haction]
    rfl
  | error stop s' =>
    cases stop with
    | exit code => rw [guarded_of_error haction rfl]; rfl
    | outOfRounds => rw [guarded_of_error haction rfl]; rfl
    | fault f =>
      rw [guarded_of_report haction (hfail s'.reporter f)]
      simp only
      split <;> rfl
    | crash c =>
      have hsettle : s'.reporter.settle (some (.stop (.crash c))) =
          (s'.reporter.report (Reporter.internalFault c), (s'.reporter.fail (Reporter.internalFault c)).2.1,
            some (if s'.reporter.isFatal then .exit 1 else .crash c)) := by
        rw [Reporter.settle, hfail]
        cases s'.reporter.isFatal <;> rfl
      rw [guarded_of_report haction hsettle]
      rfl

/-! ## Files -/

/-- The line of a source with the given number.  Returns aside, newlines stand between lines. -/
def numberedLine? (source : Text) (n : Int) : Option Text :=
  if 0 < n then ((source.filter (· != '\r')).splitOn '\n')[n.toNat - 1]? else none

theorem sourceLine?_eq (source : Text) (n : Int) : sourceLine? source n = numberedLine? source n := by
  unfold sourceLine? numberedLine?
  rw [Text.lines_eq_splitOn]
  by_cases hn : 0 < n
  · rw [if_neg (by omega), if_pos hn]
  · rw [if_pos (by omega), if_neg hn]

/-- The mark for a fault: the line of the source that it is on, if the source has it. -/
def faultMark (source : Text) (f : Fault) : Mark :=
  match f.line.bind (numberedLine? source) with
  | none => {}
  | some text => ⟨some text, f.line⟩

theorem faultMark_eq {source : Text} {f : Fault} {n : Int} {text : Text} (hline : f.line = some n)
    (htext : numberedLine? source n = some text) : faultMark source f = ⟨some text, some n⟩ := by
  rw [faultMark, hline, Option.bind_some, htext]

/-- While no line is at work, marking a fault puts its mark in place. -/
theorem markFault_entries {s : Session} (h : s.reporter.trace.entries = [(s.path, {})]) (f : Fault) :
    ∃ trace, markFault f s = .ok () { s with reporter := { s.reporter with trace } } ∧
      trace.entries = [(s.path, faultMark s.source f)] := by
  cases htext : f.line.bind (numberedLine? s.source) with
  | none =>
    refine ⟨s.reporter.trace, ?_, by rw [faultMark, htext]; exact h⟩
    simp only [markFault, get_bind_apply]
    cases hline : f.line with
    | none => rfl
    | some n =>
      rw [hline, Option.bind_some, ← sourceLine?_eq] at htext
      simp only [htext]
      rfl
  | some text =>
    obtain ⟨n, hline, hn⟩ := Option.bind_eq_some_iff.1 htext
    refine ⟨_, markFault_eq s hline (sourceLine?_eq s.source n ▸ hn), ?_⟩
    rw [faultMark_eq hline hn]
    exact Reporter.entries_set h _

/-- **A file is run as its text is**, with a warning if it gave a value back.  A fault leaves its line marked. -/
theorem runFile_eq {s : Session} (h : s.reporter.trace.entries = [(s.path, {})]) :
    match runSource .standard s.source s.machine with
    | .ok flow m =>
      runFile s = .ok flow { s with machine := m, errors := flowWarnings s.reporter.paint s.path none flow ++ s.errors }
    | .error (.fault f) m =>
      ∃ trace, runFile s = .error (.fault f) { s with machine := m, reporter := { s.reporter with trace } } ∧
        trace.entries = [(s.path, faultMark s.source f)]
    | .error stop m => runFile s = .error stop { s with machine := m } := by
  simp only [runFile, get_bind_apply]
  simp only [onMachine, bind, EStateM.bind, tryCatch, tryCatchThe, MonadExceptOf.tryCatch, EStateM.tryCatch]
  cases hrun : runSource .standard s.source s.machine with
  | ok flow m =>
    cases flow with
    | normal => rfl
    | returned v =>
      have hstray : (Flow.returned v != .normal) = true := rfl
      simp only [hstray, if_true, EStateM.bind, warn_apply, Reporter.warning_eq h]
      rfl
  | error stop m =>
    cases stop with
    | fault f =>
      obtain ⟨trace, hmark, hentries⟩ := markFault_entries (s := { s with machine := m }) h f
      refine ⟨trace, ?_, hentries⟩
      simp only [EStateM.Backtrackable.restore, EStateM.dummyRestore, EStateM.bind, hmark]
      rfl
    | exit code => rfl
    | crash c => rfl
    | outOfRounds => rfl

end Session

end Loot
