import Loot.Proofs.Machine.Relabelled
import Loot.Proofs.Session.Joined
import Loot.Proofs.Tree.Lineless
/-!
# Lines are for reports

The lines of tokens are in the trees, and in the functions that a machine holds, but nothing looks at them until a fault
is reported.  A program runs as it does without lines (`runProgram_withoutLines`); so programs that differ in lines
run the same, and so do texts that differ in blanks, comments and returns (`lines_immaterial`).
-/
namespace Loot

/-! ## Machines without lines -/

/-- Under every name, the function without lines. -/
def IsWithoutLines (_ : Text) (o o' : Option Function) : Prop := o' = o.map (Function.mapTokens Token.withoutLine)

/-- Under every name, functions that are the same without lines. -/
def SameWithoutLines (_ : Text) (o o' : Option Function) : Prop :=
  o.map (Function.mapTokens Token.withoutLine) = o'.map (Function.mapTokens Token.withoutLine)

def Machine.withoutLines (m : Machine) : Machine :=
  { m with functions := m.functions.map (Function.mapTokens Token.withoutLine) }

theorem Bindings.get?_map {α β : Type} (f : α → β) (b : Bindings α) (name : Text) :
    (b.map f).get? name = (b.get? name).map f := by
  obtain ⟨entries⟩ := b
  unfold Bindings.get? Bindings.map
  simp only
  induction entries with
  | nil => rfl
  | cons entry entries ih =>
    rw [List.map_cons, Bindings.lookup_cons, Bindings.lookup_cons, ih]
    split <;> rfl

/-! ## Runs without lines -/

/-- The terms of taking the lines away. -/
def Terms.unlining : Terms where
  tokens := fun s t => t = s.withoutLine
  vars := fun s t => t = s.withoutLine
  functions := fun _ f g => g = f.mapTokens Token.withoutLine
  spare := fun _ => False
  loops := True

theorem Stmt.allRecast_withoutLine (ss : List Stmt) :
    Stmt.AllRecast .unlining ss (Stmt.mapTokensAll Token.withoutLine ss) :=
  Stmt.allRecast_mapTokens ⟨trivial, fun _ => rfl, fun _ _ _ => rfl⟩ ss (fun _ _ => rfl)

theorem Bond.suits_isWithoutLines :
    Bond.Suits ⟨Eq, IsWithoutLines, fun stop stop' => stop' = stop.withoutLine⟩ .unlining where
  same hst := by
    cases hst
    exact ⟨rfl, rfl⟩
  named hst := hst
  stops hraised := by
    cases hraised with
    | fault hst _ =>
      cases hst
      rfl
    | _ => rfl
  get hst hb := by
    cases hst
    cases hb
    rfl
  set v hst hb := by
    cases hst
    cases hb
    rfl
  declare hfg := congrArg some hfg
  leave _ hspare := hspare.elim
  find {name o o'} _ ho := by
    cases ho
    exact option_rel_map o (fun _ => rfl)
  params hfg := by
    cases hfg
    exact List.forall₂_map_right_iff.2 (List.forall₂_same.2 (fun _ _ => rfl))
  body hfg := by
    cases hfg
    exact Stmt.allRecast_withoutLine _

/-- **A program runs as it does without lines.** -/
theorem runProgram_withoutLines (limits : Limits) (program : List Stmt) {m m' : Machine}
    (hm : m.SameButFunctions IsWithoutLines m') :
    EndAlike (fun stop stop' => stop' = stop.withoutLine) (Machine.SameButFunctions IsWithoutLines) m m'
      (runProgram limits program m) (runProgram limits (Stmt.mapTokensAll Token.withoutLine program) m') :=
  runProgram_sameButFunctions Bond.suits_isWithoutLines limits (Stmt.allRecast_withoutLine program) hm

theorem runProgram_sameWithoutLines (limits : Limits) {program program' : List Stmt}
    (hprogram : Stmt.mapTokensAll Token.withoutLine program = Stmt.mapTokensAll Token.withoutLine program')
    {m m' : Machine} (hm : m.SameButFunctions SameWithoutLines m') :
    EndAlike (fun stop stop' => stop.withoutLine = stop'.withoutLine) (Machine.SameButFunctions SameWithoutLines) m m'
      (runProgram limits program m) (runProgram limits program' m') := by
  -- both run as one program without lines does, on one machine without lines
  have hleft : m.SameButFunctions IsWithoutLines m.withoutLines :=
    ⟨rfl, rfl, rfl, fun name => Bindings.get?_map _ _ name⟩
  have hright : m'.SameButFunctions IsWithoutLines m.withoutLines :=
    ⟨hm.scope.symm, hm.input.symm, hm.clock.symm,
      fun name => (Bindings.get?_map _ _ name).trans (hm.functions name)⟩
  have hrun := runProgram_withoutLines limits program hleft
  have hrun' := runProgram_withoutLines limits program' hright
  rw [← hprogram] at hrun'
  refine hrun.join (fun hstop hstop' => hstop.symm.trans hstop') (fun h h' => ?_) hrun'
  exact ⟨h.scope.trans h'.scope.symm, h.input.trans h'.input.symm, h.clock.trans h'.clock.symm,
    fun name => (h.functions name).symm.trans (h'.functions name)⟩

/-! ## Texts that differ in trivia -/

theorem readProgram_sameWithoutLines {ts ts' : List Token}
    (h : (dropTrivia ts).map Token.withoutLine = (dropTrivia ts').map Token.withoutLine) :
    readingWithoutLine (Stmt.mapTokensAll Token.withoutLine) (readProgram ts) =
      readingWithoutLine (Stmt.mapTokensAll Token.withoutLine) (readProgram ts') := by
  rw [← readProgram_dropTrivia ts, ← readProgram_dropTrivia ts', ← readProgram_withoutLine,
    ← readProgram_withoutLine, h]

/-- **Lines are for reports only.**  Let two machines be the same but for lines in their functions.  Programs that are
the same without lines end alike on them, and so do texts whose tokens, blanks and comments aside, have the same kinds
and texts in the same order: with the same result, or stopped for the same cause, perhaps on another line.  Both have
shown the same, and the machines are again the same but for lines in their functions. -/
theorem lines_immaterial (limits : Limits) {m m' : Machine} (hm : m.SameButFunctions SameWithoutLines m') :
    (∀ program program',
      Stmt.mapTokensAll Token.withoutLine program = Stmt.mapTokensAll Token.withoutLine program' →
      EndAlike (fun stop stop' => stop.withoutLine = stop'.withoutLine) (Machine.SameButFunctions SameWithoutLines) m m'
        (runProgram limits program m) (runProgram limits program' m')) ∧
    ∀ source source' ts ts', scanText source = .ok ts → scanText source' = .ok ts' →
      (dropTrivia ts).map Token.withoutLine = (dropTrivia ts').map Token.withoutLine →
      EndAlike (fun stop stop' => stop.withoutLine = stop'.withoutLine) (Machine.SameButFunctions SameWithoutLines) m m'
        (runSource limits source m) (runSource limits source' m') := by
  refine ⟨fun program program' h => runProgram_sameWithoutLines limits h hm,
    fun source source' ts ts' hscan hscan' htokens => ?_⟩
  have hread := readProgram_sameWithoutLines htokens
  rw [runSource_eq, runSource_eq, hscan, hscan']
  simp only [bind, Except.bind]
  cases hts : readProgram ts with
  | ok program =>
    cases hts' : readProgram ts' with
    | ok program' =>
      rw [hts, hts'] at hread
      exact runProgram_sameWithoutLines limits (Except.ok.inj hread) hm
    | error f' =>
      rw [hts, hts'] at hread
      cases hread
  | error f =>
    cases hts' : readProgram ts' with
    | ok program' =>
      rw [hts, hts'] at hread
      cases hread
    | error f' =>
      rw [hts, hts'] at hread
      exact .error (congrArg Stop.fault (Except.error.inj hread)) hm (.refl m m')

/-- A machine with a function `ult` that steps `mana`, which is not there, on the given line. -/
def casting (line : Line) : Machine where
  functions := ⟨[("ult".toList, ⟨[], [.increase ⟨.identifier, "mana".toList, line⟩]⟩)]⟩

def cast : Text := "ult()".toList

/-- The same call after a comment of two lines, with blanks in it. -/
def slowCast : Text := "xX wait\nfor it Xx\tult ( )".toList

/-- What both are made of. -/
def castTokens : List Token :=
  [⟨.identifier, "ult".toList, none⟩, ⟨.leftParen, ['('], none⟩, ⟨.rightParen, [')'], none⟩, ⟨.endOfFile, [], none⟩]

/-- The call fails at the same variable, wherever it stands and wherever its function was declared. -/
theorem lines_immaterial_moved_call :
    EndAlike (fun stop stop' => stop.withoutLine = stop'.withoutLine) (Machine.SameButFunctions SameWithoutLines)
      (casting (some 3)) (casting (some 7)) (runSource .standard cast (casting (some 3)))
      (runSource .standard slowCast (casting (some 7))) := by
  have hm : (casting (some 3)).SameButFunctions SameWithoutLines (casting (some 7)) := by
    refine ⟨rfl, rfl, rfl, fun name => ?_⟩
    have hfind : ∀ line, (casting line).functions.get? name = if name = "ult".toList then
        some ⟨[], [.increase ⟨.identifier, "mana".toList, line⟩]⟩ else none := fun _ => Bindings.lookup_cons _ _ _ _
    unfold SameWithoutLines
    rw [hfind, hfind]
    split <;> rfl
  have hcast : (scanText cast).map (fun ts => (dropTrivia ts).map Token.withoutLine) = .ok castTokens := by
    decide +kernel
  have hslow : (scanText slowCast).map (fun ts => (dropTrivia ts).map Token.withoutLine) = .ok castTokens := by
    decide +kernel
  obtain ⟨ts, hscan, hts⟩ := ok_of_map_eq_ok hcast
  obtain ⟨ts', hscan', hts'⟩ := ok_of_map_eq_ok hslow
  exact (lines_immaterial .standard hm).2 cast slowCast ts ts' hscan hscan' (hts.trans hts'.symm)

end Loot
