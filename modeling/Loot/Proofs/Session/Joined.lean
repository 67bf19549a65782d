import Loot.Proofs.Session.Endings
import Loot.Proofs.Tree.Seam
/-!
# A file or two pieces

Two programs as one text, with a newline between them, are the two programs run one after the other: the text is
scanned and read as the first and then the second, further down, and where tokens stand has no part in what a
program does but for the lines of its faults (`sameButLines_parallel`).
-/
namespace Loot

/-! ## The same but for lines -/

def Token.SameButLine (s t : Token) : Prop := s.kind = t.kind ∧ s.lexeme = t.lexeme

/-- The functions are the same, token for token, but for the lines of the tokens. -/
def Function.SameButLines : Function → Function → Prop := Function.Alike Token.SameButLine True

structure Machine.SameButLines (m m' : Machine) : Prop where
  scope : m.scope = m'.scope
  input : m.input = m'.input
  clock : m.clock = m'.clock
  events : m.events = m'.events
  functions : List.Forall₂ (fun a b => a.1 = b.1 ∧ a.2.SameButLines b.2) m.functions.entries m'.functions.entries

def Stop.withoutLine : Stop → Stop
  | .fault f => .fault { f with line := none }
  | stop => stop

/-- **The outcomes are the same**, but for the line of a fault and the lines in functions. -/
inductive SameOutcome {α : Type} : EStateM.Result Stop Machine α → EStateM.Result Stop Machine α → Prop
  | ok (a : α) {m m' : Machine} : m.SameButLines m' → SameOutcome (.ok a m) (.ok a m')
  | error {stop stop' : Stop} {m m' : Machine} : stop.withoutLine = stop'.withoutLine → m.SameButLines m' →
      SameOutcome (.error stop m) (.error stop' m')

theorem Function.SameButLines.refl (f : Function) : f.SameButLines f :=
  ⟨List.forall₂_same.2 (fun _ _ => ⟨rfl, rfl⟩), Stmt.allAlike_self (fun _ _ => ⟨rfl, rfl⟩) (fun l _ => l.isMadeOf_any)⟩

theorem Machine.SameButLines.refl (m : Machine) : m.SameButLines m :=
  ⟨rfl, rfl, rfl, rfl, List.forall₂_same.2 (fun _ _ => ⟨rfl, .refl _⟩)⟩

/-! ### Tables of functions -/

section Tables

variable {R : Function → Function → Prop}

theorem lookup_forall₂ (name : Text) : ∀ {es es' : List (Text × Function)},
    List.Forall₂ (fun a b => a.1 = b.1 ∧ R a.2 b.2) es es' →
      (es.lookup name = none ∧ es'.lookup name = none) ∨
        ∃ f g, es.lookup name = some f ∧ es'.lookup name = some g ∧ R f g
  | _, _, .nil => .inl ⟨rfl, rfl⟩
  | (n, f) :: _, (n', g) :: _, .cons ⟨hname, hR⟩ hrest => by
    cases hname
    rw [Bindings.lookup_cons, Bindings.lookup_cons]
    by_cases hn : name = n
    · rw [if_pos hn, if_pos hn]
      exact .inr ⟨f, g, rfl, rfl, hR⟩
    · rw [if_neg hn, if_neg hn]
      exact lookup_forall₂ name hrest

theorem setIn_forall₂ (name : Text) {f g : Function} (hfg : R f g) {es es' : List (Text × Function)}
    (hes : List.Forall₂ (fun a b => a.1 = b.1 ∧ R a.2 b.2) es es') :
    List.Forall₂ (fun a b => a.1 = b.1 ∧ R a.2 b.2) (Bindings.setIn name f es) (Bindings.setIn name g es') := by
  induction hes with
  | nil => exact .cons ⟨rfl, hfg⟩ .nil
  | @cons a b as bs hab hrest ih =>
    rw [Bindings.setIn, Bindings.setIn, ← hab.1]
    by_cases hn : a.1 = name
    · rw [if_pos hn, if_pos hn]
      exact .cons ⟨rfl, hfg⟩ hrest
    · rw [if_neg hn, if_neg hn]
      exact .cons ⟨rfl, hab.2⟩ ih

end Tables

/-! ### Runs -/

/-- The actions have the same outcome on machines that are the same but for lines. -/
def Run.SameButLines {α : Type} (x y : Run α) : Prop :=
  ∀ m m' : Machine, m.SameButLines m' → SameOutcome (x m) (y m')

theorem Run.SameButLines.bind {α β : Type} {x y : Run α} {f g : α → Run β} (hxy : x.SameButLines y)
    (hfg : ∀ a, (f a).SameButLines (g a)) : (x >>= f).SameButLines (y >>= g) := by
  intro m m' hm
  have h := hxy m m' hm
  simp only [Bind.bind, EStateM.bind]
  generalize x m = r, y m' = r' at h
  cases h with
  | ok a hm₁ => exact hfg a _ _ hm₁
  | error hstop hm₁ => exact .error hstop hm₁

theorem Run.SameButLines.rolledBack {α : Type} {x y : Run α} (hxy : x.SameButLines y) :
    (Run.rolledBack x).SameButLines (Run.rolledBack y) := by
  intro m m' hm
  have h := hxy { m with scope := m.scope.push } { m' with scope := m'.scope.push }
    ⟨by rw [hm.scope], hm.input, hm.clock, hm.events, hm.functions⟩
  have hback : ∀ {m₁ m₁' : Machine}, m₁.SameButLines m₁' → m₁.back.SameButLines m₁'.back := fun hm₁ =>
    ⟨by simp only [Machine.back, hm₁.scope], hm₁.input, hm₁.clock, hm₁.events, hm₁.functions⟩
  unfold Run.rolledBack
  generalize x _ = r, y _ = r' at h
  cases h with
  | ok a hm₁ => exact .ok a (hback hm₁)
  | error hstop hm₁ => exact .error hstop (hback hm₁)

theorem sameButLines_readLine : Run.readLine.SameButLines Run.readLine := by
  intro m m' hm
  unfold Run.readLine
  simp only [get_bind_apply]
  rw [← hm.input]
  cases m.input with
  | none => exact .ok _ hm
  | some text =>
    cases text with
    | nil => exact .ok _ hm
    | cons c cs => exact .ok _ ⟨hm.scope, rfl, hm.clock, hm.events, hm.functions⟩

theorem sameButLines_lookup {s t : Token} (hst : s.SameButLine t) : (Run.lookup s).SameButLines (Run.lookup t) := by
  intro m m' hm
  unfold Run.lookup Scope.get
  simp only [get_bind_apply]
  rw [← hst.2, ← hm.scope]
  cases m.scope.vars.get? s.lexeme with
  | some v => exact .ok v hm
  | none => exact .error rfl hm

theorem Raised.withoutLine {K : Token → Token → Prop} {loops : Prop} {stop stop' : Stop}
    (h : Raised K loops stop stop') : stop.withoutLine = stop'.withoutLine := by
  cases h <;> rfl

/-- **Where tokens stand has no part in what a program does**, but for the lines of faults. -/
theorem sameButLines_parallel : Parallel Token.SameButLine True (fun _ x y => x.SameButLines y) where
  same h := h
  pure a _ _ hm := .ok a hm
  bind hxy hfg := hxy.bind hfg
  stop h _ _ hm := .error h.withoutLine hm
  emit e m m' hm := .ok () ⟨hm.scope, hm.input, hm.clock, congrArg (e :: ·) hm.events, hm.functions⟩
  readLine := sameButLines_readLine
  lookup h := sameButLines_lookup h
  assign {s t} v h m m' hm := by
    have hscope : m.scope.set s.lexeme v = m'.scope.set t.lexeme v := by rw [hm.scope, h.2]
    exact .ok () ⟨hscope, hm.input, hm.clock, hm.events, hm.functions⟩
  define {s t f g} h hfg m m' hm := by
    refine .ok () ⟨hm.scope, hm.input, hm.clock, hm.events, ?_⟩
    rw [← h.2]
    exact setIn_forall₂ s.lexeme hfg hm.functions
  find {α s t F G} h _ hnone hsome m m' hm := by
    simp only [get_bind_apply, Bindings.get?]
    rw [← h.2]
    rcases lookup_forall₂ s.lexeme hm.functions with ⟨hf, hg⟩ | ⟨f, g, hf, hg, hfg⟩
    · rw [hf, hg]
      exact hnone m m' hm
    · rw [hf, hg]
      exact hsome f g hfg m m' hm
  clock {α F G} hFG m m' hm := by
    simp only [get_bind_apply]
    rw [← hm.clock]
    exact hFG m.clock m m' hm
  rolledBack hxy := hxy.rolledBack

/-! ## Programs in a row -/

theorem Stmt.execAll_append (c : Caller) (rounds : Nat) (ss' ss : List Stmt) (m : Machine) :
    Stmt.execAll c rounds (ss ++ ss') m = match Stmt.execAll c rounds ss m with
      | .ok .normal m₁ => Stmt.execAll c rounds ss' m₁
      | ended => ended := by
  rw [Stmt.execAll_append_bind]
  simp only [bind, EStateM.bind]
  cases Stmt.execAll c rounds ss m with
  | error stop m₁ => rfl
  | ok flow m₁ => cases flow <;> rfl

/-- What marks the end of a program does nothing. -/
theorem Stmt.execAll_dropFinish (c : Caller) (rounds : Nat) (ss : List Stmt) :
    Stmt.execAll c rounds (dropFinish ss) = Stmt.execAll c rounds ss := by
  induction ss with
  | nil => rfl
  | cons s ss ih =>
    cases hs : s.isFinish with
    | true =>
      have hdrop : dropFinish (s :: ss) = dropFinish ss := List.filter_cons_of_neg (by simp [hs])
      cases s with
      | finish eof => rw [hdrop, ih, Stmt.execAll, Stmt.exec, pure_bind]
      | _ => cases hs
    | false =>
      have hdrop : dropFinish (s :: ss) = s :: dropFinish ss := List.filter_cons_of_pos (by simp [hs])
      rw [hdrop, Stmt.execAll, Stmt.execAll, ih]

theorem Stmt.isFinish_mapTokens (f : Token → Token) (s : Stmt) : (s.mapTokens f).isFinish = s.isFinish := by
  match s with
  | .declare name none | .declare name (some e) | .give name none | .give name (some e) => rw [Stmt.mapTokens]; rfl
  | .expression _ | .block _ | .branch _ _ _ | .loop _ _ | .define _ _ _ | .assign _ _ | .increase _ | .decrease _
  | .finish _ => rw [Stmt.mapTokens]; rfl

theorem dropFinish_mapTokensAll (f : Token → Token) (ss : List Stmt) :
    dropFinish (Stmt.mapTokensAll f ss) = (dropFinish ss).map (Stmt.mapTokens f) := by
  induction ss with
  | nil =>
    rw [Stmt.mapTokensAll]
    rfl
  | cons s ss ih =>
    unfold dropFinish at ih ⊢
    rw [Stmt.mapTokensAll, List.filter_cons, List.filter_cons, Stmt.isFinish_mapTokens, ih]
    split
    · rw [List.map_cons]
    · rfl

/-- The text of two programs is read as the one and then the other, further down. -/
theorem readProgram_joined {source source' : Text} {program program' : List Stmt}
    (h : scanText source >>= readProgram = .ok program) (h' : scanText source' >>= readProgram = .ok program')
    (hwhole : Stmt.allWhole program = true) :
    ∃ joined, scanText (source ++ '\n' :: source') >>= readProgram = .ok joined ∧ dropFinish joined =
      dropFinish program ++ dropFinish (Stmt.mapTokensAll (Token.moved (1 + source.newlines)) program') := by
  obtain ⟨body, eof, hscan, hscanned, hreads⟩ := source_ok h
  obtain ⟨body', eof', hscan', hscanned', hreads'⟩ := source_ok h'
  obtain ⟨nl, hnl, hkind⟩ : ∃ nl : Token, scanText (source ++ '\n' :: source') = .ok (body ++ nl ::
      body'.map (Token.moved (1 + source.newlines)) ++ [eof'.moved (1 + source.newlines)]) ∧ nl.kind = .newline := by
    refine ⟨⟨.newline, ['\n'], some ((1 + source.newlines : Nat) : Int)⟩, ?_, rfl⟩
    rw [scanText_joined hscan hscan']
    simp
  rw [hnl]
  exact readProgram_tokens_joined (Token.moved_kind _) hkind hscanned.kind_body hscanned'.kind_body hscanned'.kind_eof
    hreads hreads' hwhole

/-- A program further down runs as it does where it is, but for lines. -/
theorem execAll_moved (limits : Limits) (room k : Nat) (program : List Stmt) (m : Machine) :
    SameOutcome (Stmt.execAll (caller limits room) limits.rounds program m)
      (Stmt.execAll (caller limits room) limits.rounds (Stmt.mapTokensAll (Token.moved k) program) m) := by
  have halike : Stmt.AllAlike Token.SameButLine True program (Stmt.mapTokensAll (Token.moved k) program) :=
    Stmt.allAlike_relabel (fun _ _ => ⟨rfl, rfl⟩) program (fun l _ => l.isMadeOf_any)
  exact sameButLines_parallel.runWith limits room halike m m (.refl m)

/-- **Two programs as one text are the two programs run one after the other.**  Let each of two texts be a program, the
first without a missing body.  With a newline between them they are a program, which but for the marks of the end
consists of the first and the second, its tokens moved down by the lines of the first.  From every machine, with any
bounds, it runs as the first and then, if that completes normally, the second: with the same outcome, variables, input
left and events, and but for lines the same functions. -/
theorem runSource_joined {source source' : Text} {program program' : List Stmt}
    (h : scanText source >>= readProgram = .ok program) (h' : scanText source' >>= readProgram = .ok program')
    (hwhole : Stmt.allWhole program = true) :
    (∃ joined, scanText (source ++ '\n' :: source') >>= readProgram = .ok joined ∧ dropFinish joined =
      dropFinish program ++ (dropFinish program').map (Stmt.mapTokens (Token.moved (1 + source.newlines)))) ∧
    ∀ (limits : Limits) (m : Machine),
      (∀ m₁, runSource limits source m = .ok .normal m₁ →
        SameOutcome (runSource limits source' m₁) (runSource limits (source ++ '\n' :: source') m)) ∧
      ((∀ m₁, runSource limits source m ≠ .ok .normal m₁) →
        runSource limits (source ++ '\n' :: source') m = runSource limits source m) := by
  obtain ⟨joined, hread, hdrop⟩ := readProgram_joined h h' hwhole
  refine ⟨⟨joined, hread, by rw [hdrop, dropFinish_mapTokensAll]⟩, fun limits m => ?_⟩
  rw [runSource_of_read hread, ← Stmt.execAll_dropFinish, hdrop, Stmt.execAll_append, Stmt.execAll_dropFinish,
    ← runSource_of_read h]
  constructor
  · intro m₁ hfirst
    have hlevel := keeps_runSource_levelled limits source m
    have hdepth : m₁.scope.depth = m.scope.depth := by
      unfold Run.left at hlevel
      rw [hfirst] at hlevel
      exact congrArg List.length hlevel.saved
    rw [hfirst, Stmt.execAll_dropFinish, runSource_of_read h', hdepth]
    exact execAll_moved limits _ _ program' m₁
  · intro hended
    cases hfirst : runSource limits source m with
    | error stop m₁ => rfl
    | ok flow m₁ =>
      cases flow with
      | returned v => rfl
      | normal => exact absurd hfirst (hended m₁)

theorem ok_of_map_eq_ok {ε α β : Type} {x : Except ε α} {g : α → β} {b : β} (h : x.map g = .ok b) :
    ∃ a, x = .ok a ∧ g a = b := by
  cases x with
  | error e => cases h
  | ok a =>
    cases h
    exact ⟨a, rfl, rfl⟩

/-- Does the outcome complete normally? -/
def isNormal : EStateM.Result Stop Machine Flow → Bool
  | .ok .normal _ => true
  | _ => false

def evaded : Text := "clutch nerfed f()".toList

def healed : Text := "spawn hp".toList

/-- A choice that ended with its text ends with the newline now, and what follows is no part of it. -/
theorem runSource_joined_open_choice :
    (∃ joined, scanText (evaded ++ '\n' :: healed) >>= readProgram = .ok joined ∧ (dropFinish joined).length = 2) ∧
    ∃ m₁, runSource .standard evaded {} = .ok .normal m₁ ∧
      SameOutcome (runSource .standard healed m₁) (runSource .standard (evaded ++ '\n' :: healed) {}) := by
  have hfirst : (scanText evaded >>= readProgram).map (fun p => (Stmt.allWhole p, (dropFinish p).length)) =
      .ok (true, 1) := by decide +kernel
  have hsecond : (scanText healed >>= readProgram).map (fun p => (dropFinish p).length) = .ok 1 := by decide +kernel
  have hnormal : isNormal (runSource .standard evaded {}) = true := by decide +kernel
  obtain ⟨program, h, hprogram⟩ := ok_of_map_eq_ok hfirst
  obtain ⟨program', h', hprogram'⟩ := ok_of_map_eq_ok hsecond
  obtain ⟨hwhole, hlength⟩ := Prod.mk.inj hprogram
  obtain ⟨⟨joined, hread, hdrop⟩, hrun⟩ := runSource_joined h h' hwhole
  refine ⟨⟨joined, hread, ?_⟩, ?_⟩
  · rw [hdrop, List.length_append, List.length_map, hlength, hprogram']
  · obtain ⟨m₁, hm₁⟩ : ∃ m₁, runSource .standard evaded {} = .ok .normal m₁ := by
      revert hnormal
      generalize runSource .standard evaded {} = r
      intro hnormal
      match r, hnormal with
      | .ok .normal m₁, _ => exact ⟨m₁, rfl⟩
    exact ⟨m₁, hm₁, (hrun .standard {}).1 m₁ hm₁⟩

end Loot
