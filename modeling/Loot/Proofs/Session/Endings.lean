import Loot.Proofs.Machine.Origins
import Loot.Proofs.Token.Lines
import Loot.Proofs.Tree.Cursor
import Loot.Session.Basic
/-!
# How pieces of program end

Pieces of program run one after another on one machine end in few ways (`Ending`).  Their tokens are scanned from them,
so every fault has a line and every number can be read, and of the system around them nothing fails but what a call of
`gameover`, `afk` or `lag` asks of it.  A run that ends so comes to that call, with the number that it is about
(`StopsAtCall`).  A session that runs a file finds the line of every fault in it (`pieces_end`).
-/
namespace Loot

/-! ## Tokens of the pieces -/

/-- The token was scanned from one of the sources. -/
def Token.IsFrom (sources : List Text) (t : Token) : Prop :=
  ∃ source ∈ sources, ∃ ts, scanText source = .ok ts ∧ t ∈ ts

/-- The newlines of the source that has most. -/
def mostNewlines (sources : List Text) : Nat := (sources.map Text.newlines).foldr max 0

theorem newlines_le_most {source : Text} : ∀ {sources : List Text}, source ∈ sources →
    source.newlines ≤ mostNewlines sources
  | s :: sources, h => by
    have hcons : mostNewlines (s :: sources) = max s.newlines (mostNewlines sources) := rfl
    rw [hcons]
    rcases List.mem_cons.1 h with rfl | h
    · exact Nat.le_max_left _ _
    · exact Nat.le_trans (newlines_le_most h) (Nat.le_max_right _ _)

theorem Token.IsFrom.line {sources : List Text} {t : Token} (h : t.IsFrom sources) :
    t.line.IsWithin (mostNewlines sources) := by
  obtain ⟨source, hsource, ts, hscan, ht⟩ := h
  obtain ⟨body, eof, rfl, hscanned⟩ := scanText_scanned hscan
  exact (hscanned.line t ht).mono (newlines_le_most hsource)

theorem Token.IsFrom.number {sources : List Text} {t : Token} (h : t.IsFrom sources) (hk : t.kind = .number) :
    (readNumber? t.lexeme).isSome := by
  obtain ⟨source, hsource, ts, hscan, ht⟩ := h
  obtain ⟨body, eof, rfl, hscanned⟩ := scanText_scanned hscan
  rcases List.mem_append.1 ht with ht | ht
  · exact hscanned.number t ht hk
  · rw [List.mem_singleton.1 ht, hscanned.kind_eof] at hk
    cases hk

/-- A source that can be scanned and read, in its two steps. -/
theorem source_ok {source : Text} {program : List Stmt} (h : scanText source >>= readProgram = .ok program) :
    ∃ body eof, scanText source = .ok (body ++ [eof]) ∧ Scanned source body eof ∧
      Parser.ReadsProgram eof program (dropTrivia body) := by
  cases hscan : scanText source with
  | error f =>
    rw [hscan] at h
    cases h
  | ok ts =>
    obtain ⟨body, eof, rfl, hscanned⟩ := scanText_scanned hscan
    rw [hscan] at h
    exact ⟨body, eof, rfl, hscanned, (readProgram_eq_ok_iff hscanned.kind_body hscanned.kind_eof program).1 h⟩

/-- What is read from a source is made of its tokens. -/
theorem leaves_isFrom {sources : List Text} {source : Text} (hsource : source ∈ sources) {program : List Stmt}
    (h : scanText source >>= readProgram = .ok program) :
    ∀ l ∈ Stmt.leavesAll program, l.IsMadeOf (Token.IsFrom sources) True := by
  intro l hl
  obtain ⟨body, eof, hscan, -, hreads⟩ := source_ok h
  cases l with
  | plain kind => exact fun _ => trivial
  | held t =>
    have hmem := hreads.shown.mem_of_held t hl
    exact ⟨source, hsource, _, hscan, List.mem_append_left _ (List.mem_filter.1 hmem).1⟩

/-- A fault in the text of a program: no tokens can be made of it, or they are no program. -/
theorem text_fault {source : Text} {f : Fault} (h : scanText source >>= readProgram = .error f) :
    (f.cause.isLexical = true ∨ ∃ text, f.cause = .grammar text) ∧ f.isInternal = false ∧
      f.line.IsWithin source.newlines := by
  cases hscan : scanText source with
  | error f' =>
    rw [hscan] at h
    cases h
    obtain ⟨hcause, hrest⟩ := scanText_error hscan
    exact ⟨.inl hcause, hrest⟩
  | ok ts =>
    obtain ⟨body, eof, rfl, hscanned⟩ := scanText_scanned hscan
    rw [hscan] at h
    have hgrammar := readProgram_error hscanned.kind_body hscanned.kind_eof h
    obtain ⟨t, ht, hline⟩ := hgrammar.line
    exact ⟨.inr hgrammar.cause, hgrammar.notInternal, by rw [hline]; exact hscanned.line t ht⟩

/-! ## The machine between the pieces -/

/-- **A call of a built-in function stops the run of a source**: a word of the pieces makes it, its argument is the
number `x`, the run comes to it on the machine `m'`, and the step from there is the stop. -/
def StopsAtCall (limits : Limits) (before : List Text) (source : Text) (m : Machine) (word : String) (b : Builtin)
    (x : Float) (stop : Stop) (m' : Machine) : Prop :=
  ∃ program name v k k', scanText source >>= readProgram = .ok program ∧ name.IsFrom (source :: before) ∧
    name.lexeme = word.toList ∧ v.asNumber name.line = .ok x ∧
    let call : Config := ⟨.args (.builtin b) name [v] [], k, m'⟩
    Config.Reaches limits.depth (Config.start program m) call ∧
      call.next limits.depth = some ⟨.stop stop, k', m'⟩

/-- **The ways in which a piece of program ends**, after other pieces and on the machine that they left.  A call that
ends it leaves the machine as it was, but for the variables that open calls take back. -/
inductive Ending (limits : Limits) (before : List Text) (source : Text) (m : Machine) :
    EStateM.Result Stop Machine Flow → Prop
  | completed (flow : Flow) (m' : Machine) : Ending limits before source m (.ok flow m')
  /-- `gameover` ends the program with the code of a number. -/
  | exited {x : Float} {code : Int} {m' : Machine} (scope : Scope) :
      StopsAtCall limits before source m "gameover" .gameover x (.exit code) m' → Builtin.exitCode x = .ok code →
      Ending limits before source m (.error (.exit code) { m' with scope })
  /-- `gameover` has no code for what is not a number. -/
  | exitNotNumber {x : Float} {m' : Machine} (scope : Scope) :
      StopsAtCall limits before source m "gameover" .gameover x (.crash .exitNotNumber) m' → x.isNaN = true →
      Ending limits before source m (.error (.crash .exitNotNumber) { m' with scope })
  /-- `gameover` has no code for the two infinities. -/
  | exitInfinite {x : Float} {m' : Machine} (scope : Scope) :
      StopsAtCall limits before source m "gameover" .gameover x (.crash .exitInfinite) m' → x.isInf = true →
      Ending limits before source m (.error (.crash .exitInfinite) { m' with scope })
  /-- `afk` asks for seconds that the clock refuses. -/
  | noSeconds {x : Float} {c : Crash} {m' : Machine} (scope : Scope) :
      StopsAtCall limits before source m "afk" .afk x (.crash c) m' → m.clock (Builtin.duration x) = some c →
      Ending limits before source m (.error (.crash c) { m' with scope })
  /-- `lag` asks for milliseconds that the clock refuses. -/
  | noMilliseconds {x : Float} {c : Crash} {m' : Machine} (scope : Scope) :
      StopsAtCall limits before source m "lag" .lag x (.crash c) m' → m.clock (Builtin.duration x / 1000) = some c →
      Ending limits before source m (.error (.crash c) { m' with scope })
  /-- The text has a fault on one of its lines, and nothing is run. -/
  | refused {f : Fault} : (f.cause.isLexical = true ∨ ∃ text, f.cause = .grammar text) → f.isInternal = false →
      f.line.IsWithin source.newlines → Ending limits before source m (.error (.fault f) m)
  /-- A fault while it runs, on a line that one of the pieces has. -/
  | failed {f : Fault} (m' : Machine) : f.cause.isRunning = true → f.isInternal = false →
      f.line.IsWithin (mostNewlines (source :: before)) → Ending limits before source m (.error (.fault f) m')

theorem Builtin.mem_table_of_ofName? {name : Text} {b : Builtin} (h : Builtin.ofName? name = some b) :
    (name, b) ∈ Builtin.table := mem_of_lookup h

theorem Builtin.exitCode_error {x : Float} {c : Crash} (h : Builtin.exitCode x = .error c) :
    (c = .exitNotNumber ∧ x.isNaN = true) ∨ (c = .exitInfinite ∧ x.isInf = true) := by
  simp only [Builtin.exitCode] at h
  split at h
  · rename_i hlarge
    cases h
    exact .inl ⟨rfl, (Binary64.isNaN_iff x).2 hlarge⟩
  split at h
  · rename_i hinfinite
    cases h
    exact .inr ⟨rfl, (Binary64.isInf_iff x).2 hinfinite⟩
  · cases h

/-- The number of a scanned token can be read. -/
theorem Token.IsFrom.read_ok {sources : List Text} {t : Token} (h : t.IsFrom sources) (hk : t.kind = .number) :
    ∃ x, Binary64.read t.lexeme = .ok x := by
  have hsome := h.number hk
  rw [readNumber?, Option.isSome_map] at hsome
  obtain ⟨n, hn⟩ := Option.isSome_iff_exists.1 hsome
  exact ⟨n.toFloat, Binary64.read_eq ((Numeral.ofText?_eq_some_iff _ n).1 hn)⟩

/-- **The step that stops a run says how it ends.** -/
theorem Config.StoppedBy.ending {limits : Limits} {before : List Text} {source : Text} {program : List Stmt}
    (hread : scanText source >>= readProgram = .ok program) {m : Machine} {c : Config} {stop : Stop}
    (h : c.StoppedBy (Token.IsFrom (source :: before)) stop) (hclock : c.machine.clock = m.clock)
    (hreach : Config.Reaches limits.depth (Config.start program m) c) {k' : List Frame}
    (hstep : c.next limits.depth = some ⟨.stop stop, k', c.machine⟩) (scope : Scope) :
    Ending limits before source m (.error stop { c.machine with scope }) := by
  cases h with
  | fault ht hcause => exact .failed _ hcause rfl ht.line
  | unreadable ht hkind hbad =>
    obtain ⟨x, hx⟩ := ht.read_ok hkind
    cases hx.symm.trans hbad
  | @halt b name v k m' _ hname hb hhalts =>
    have hcall : ∀ (word : String) {x : Float}, name.lexeme = word.toList → v.asNumber name.line = .ok x →
        StopsAtCall limits before source m word b x stop m' :=
      fun word x hword hx => ⟨program, name, v, k, k', hread, hname, hword, hx, hreach, hstep⟩
    have hmem := Builtin.mem_table_of_ofName? hb
    simp only at hclock
    rw [hclock] at hhalts
    cases hhalts with
    | exit hx hcode => exact .exited scope (hcall "gameover" (by simpa [Builtin.table] using hmem) hx) hcode
    | noExit hx hcode =>
      have hgameover := hcall "gameover" (by simpa [Builtin.table] using hmem) hx
      rcases Builtin.exitCode_error hcode with ⟨rfl, hnan⟩ | ⟨rfl, hinf⟩
      · exact .exitNotNumber scope hgameover hnan
      · exact .exitInfinite scope hgameover hinf
    | afk hx hrefuses => exact .noSeconds scope (hcall "afk" (by simpa [Builtin.table] using hmem) hx) hrefuses
    | lag hx hrefuses => exact .noMilliseconds scope (hcall "lag" (by simpa [Builtin.table] using hmem) hx) hrefuses

theorem runSource_ending (limits : Limits) (before : List Text) (source : Text) {m : Machine}
    (hm : m.FunctionsOf (Token.IsFrom (source :: before)) True)
    (hrounds : ∀ m', runSource limits source m ≠ .error .outOfRounds m') :
    Ending limits before source m (runSource limits source m) := by
  rw [runSource_eq] at hrounds ⊢
  cases hread : scanText source >>= readProgram with
  | error f =>
    obtain ⟨hcause, hinternal, hline⟩ := text_fault hread
    exact .refused hcause hinternal hline
  | ok program =>
    rw [hread] at hrounds
    simp only at hrounds ⊢
    cases hrun : runProgram limits program m with
    | ok flow m' => exact .completed flow m'
    | error stop m' =>
      obtain ⟨c, hreach, hstopped, hclock, ⟨k, hstep⟩, scope, rfl⟩ := runProgram_stopped limits
        (leaves_isFrom List.mem_cons_self hread) hm hrun (fun hstop => hrounds m' (by rw [hrun, hstop]))
      exact hstopped.ending hread hclock hreach hstep scope

/-! ## Files -/

theorem Text.linesFrom_eq : ∀ (t line : Text) (done : List Text),
    Text.linesFrom line done t = done.reverse ++ List.splitOnPPrepend (· == '\n') t line
  | [], line, done => by rw [Text.linesFrom, List.reverse_cons]; rfl
  | c :: cs, line, done => by
    rw [Text.linesFrom]
    by_cases hc : c = '\n'
    · rw [if_pos hc, Text.linesFrom_eq cs, List.splitOnPPrepend_cons_pos (by simpa using hc), List.reverse_cons,
        List.append_assoc]
      rfl
    · rw [if_neg hc, Text.linesFrom_eq cs, List.splitOnPPrepend_cons_neg (by simpa using hc)]

theorem Text.lines_eq_splitOn (t : Text) : t.lines = t.splitOn '\n' := Text.linesFrom_eq t [] []

theorem length_splitOnPPrepend_newline : ∀ t line : Text,
    (List.splitOnPPrepend (· == '\n') t line).length = 1 + t.newlines
  | [], line => rfl
  | c :: cs, line => by
    have hcount : Text.newlines (c :: cs) = Text.newlines cs + if c = '\n' then 1 else 0 := by
      simp [Text.newlines, List.count_cons]
    by_cases hc : c = '\n'
    · rw [List.splitOnPPrepend_cons_pos (by simpa using hc), List.length_cons, List.splitOnP,
        length_splitOnPPrepend_newline cs [], hcount, if_pos hc]
      omega
    · rw [List.splitOnPPrepend_cons_neg (by simpa using hc), length_splitOnPPrepend_newline cs, hcount, if_neg hc]
      omega

/-- A source has every line that its newlines make. -/
theorem Line.IsWithin.sourceLine {line : Line} {source : Text} (h : line.IsWithin source.newlines) :
    ∃ (n : Nat) (text : Text), line = some (n : Int) ∧ 0 < n ∧
      ((source.filter (· != '\r')).splitOn '\n')[n - 1]? = some text ∧ Session.sourceLine? source n = some text := by
  obtain ⟨n, hn, hlow, hhigh⟩ := h
  have hlines : ((source.filter (· != '\r')).splitOn '\n').length = 1 + source.newlines := by
    rw [List.splitOn, List.splitOnP, length_splitOnPPrepend_newline]
    unfold Text.newlines
    rw [List.count_filter (by decide)]
  have hlt : n - 1 < ((source.filter (· != '\r')).splitOn '\n').length := by omega
  refine ⟨n, _, hn, hlow, List.getElem?_eq_getElem hlt, ?_⟩
  rw [Session.sourceLine?, if_neg (by omega), Int.toNat_natCast, Text.lines_eq_splitOn, List.getElem?_eq_getElem hlt]

namespace Session

theorem markFault_eq (s : Session) {f : Fault} {n : Int} {text : Text} (hline : f.line = some n)
    (htext : sourceLine? s.source n = some text) :
    markFault f s = .ok () { s with reporter := s.reporter.markLine s.path ⟨some text, some n⟩ } := by
  simp only [markFault, get_bind_apply, hline, htext]
  rfl

end Session

/-- A fresh machine has no functions. -/
theorem Machine.functionsOf_fresh (P : Token → Prop) (loops : Prop) (input : Option Text) (clock : Clock) :
    Machine.FunctionsOf P loops { input, clock } := fun _ _ h => nomatch h

theorem Clock.standard_refuses {seconds : Float} {c : Crash} (h : standard seconds = some c) : c = .pauseTooLong := by
  unfold standard at h
  split at h <;> cases h
  rfl

/-- The stop that an outcome ends with, if it does. -/
def stopOf? {σ α : Type} : EStateM.Result Stop σ α → Option Stop
  | .ok _ _ => none
  | .error stop _ => some stop

theorem eq_error_of_stopOf? {σ α : Type} {r : EStateM.Result Stop σ α} {stop : Stop} (h : stopOf? r = some stop) :
    ∃ s, r = .error stop s := by
  cases r with
  | ok a s => cases h
  | error stop' s =>
    cases h
    exact ⟨s, rfl⟩

/-- A session on a file that looks for `hp` on its second line. -/
def glitch : Session where
  reporter := { trace := ⟨[("a".toList, {})]⟩ }
  path := "a".toList
  source := "\nhp".toList

end Loot
