import Loot.Proofs.Machine.Guarded
import Loot.Proofs.Token.Places
/-!
# Numbers in programs and numbers in strings

A number comes out of a text in two ways: as a literal, which the scanner has to find, and as a string that is made a
number while the program runs.  The scanner takes digits of more kinds than a numeral may have, and the string may have
blanks around it; apart from that both go by the same grammar (`Numeral.WrittenAs`).  So every literal may also stand in
a string and means the same number there, and what the scanner refuses as a number is refused in a string too
(`numbers_read_alike`).
-/
namespace Loot

/-! ## Strings -/

/-- **A string is made the number that it denotes without the blanks around it.** -/
theorem asNumber_eq_ok_iff (s : Text) (line : Line) (x : Float) :
    (Value.string s).asNumber line = .ok x ↔ ∃ n : Numeral, n.WrittenAs s.strip ∧ n.toFloat = x := by
  simp only [← Numeral.ofText?_eq_some_iff]
  rw [asNumber_string]
  cases Numeral.ofText? s.strip with
  | none => simp
  | some n => simp

theorem asNumber_eq_error {s : Text} (h : ¬ ∃ n : Numeral, n.WrittenAs s.strip) (line : Line) :
    (Value.string s).asNumber line = .error (notNumber s line) := by
  rw [asNumber_string]
  cases hread : Numeral.ofText? s.strip with
  | none => rfl
  | some n => exact absurd ⟨n, (Numeral.ofText?_eq_some_iff _ n).1 hread⟩ h

/-! ## Digits and points -/

theorem not_isBlank_of_isNumberPart {c : Char} (h : isDigit c = true ∨ c = '.') : isBlank c = false := by
  rcases h with hdigit | rfl
  · refine Bool.eq_false_iff.2 fun hblank => ?_
    rw [(isAlphanumeric_of_isBlank hblank).2] at hdigit
    cases hdigit
  · decide

/-- There is nothing to strip off digits and points. -/
theorem strip_of_numberParts {t : Text} (h : ∀ c ∈ t, isDigit c = true ∨ c = '.') : t.strip = t :=
  Text.strip_of_no_blanks fun c hc => not_isBlank_of_isNumberPart (h c hc)

/-! ## Literals -/

/-- What the lexeme of a number is like: digits and points that a numeral is written as. -/
theorem Spells.number_parts {text : Text} (h : Spells .number text) :
    (∀ c ∈ text, isDigit c = true ∨ c = '.') ∧ ∃ n : Numeral, n.WrittenAs text := by
  generalize hk : Kind.number = kind at h
  cases h with
  | fixed h => subst hk; cases h
  | blank _ => cases hk
  | @word c cs _ _ _ =>
    have := wordKind_growsBy (c :: cs) 'a'
    rw [← hk] at this
    exact absurd this (by decide)
  | @number c cs hdigit hparts hnum =>
    refine ⟨List.forall_mem_cons.2 ⟨.inl hdigit, hparts⟩, ?_⟩
    obtain ⟨n, hn⟩ := Option.isSome_iff_exists.1 hnum
    exact ⟨n, (Numeral.ofText?_eq_some_iff _ n).1 hn⟩
  | string _ => cases hk
  | comment _ => cases hk

theorem scanText_number {source : Text} {ts : List Token} (h : scanText source = .ok ts) {t : Token} (ht : t ∈ ts)
    (hk : t.kind = .number) : Spells .number t.lexeme := by
  obtain ⟨ps, hcut, -, rfl⟩ := (scanText_eq_ok_iff source ts).1 h
  obtain ⟨body, last, htokens, hmap, hshown⟩ := tokensOf_spec ps 1 hcut
  rw [htokens, List.mem_append, List.mem_singleton] at ht
  rcases ht with ht | rfl
  · have hspells : Spells t.kind t.written := hcut.spells _ (hmap ▸ List.mem_map.2 ⟨t, ht, rfl⟩)
    have hwritten : t.written = t.lexeme := if_neg (by rw [hk]; simp)
    rwa [hk, hwritten] at hspells
  · cases hk

/-- A literal of a number evaluates to the number that it denotes. -/
theorem eval_literal {t : Token} (hk : t.kind = .number) {n : Numeral} (hn : n.WrittenAs t.lexeme) (call : Caller)
    (m : Machine) : (Expr.literal t).eval call m = .ok (.number n.toFloat) m := by
  rw [Expr.eval, literalValue_number hk hn]
  rfl

/-- A call of `stat` evaluates its argument and makes a number of it. -/
theorem eval_stat {limits : Limits} {room : Nat} {e : Expr} {m m' : Machine} {v : Value} {line : Line} {x : Float}
    (he : e.eval (caller limits room) m = .ok v m') (hv : v.asNumber line = .ok x) :
    (Expr.call ⟨.identifier, "stat".toList, line⟩ [e]).eval (caller limits room) m = .ok (.number x) m' := by
  have hname : Builtin.ofName? "stat".toList = some .stat := rfl
  have hargs : Expr.evals (caller limits room) [e] = [e.eval (caller limits room)] := by rw [Expr.evals, Expr.evals]
  rw [Expr.eval, hargs]
  generalize e.eval (caller limits room) = arg at he
  rw [caller, callWith_of_builtin _ hname, Builtin.run, Builtin.number_eq, Builtin.required_eq]
  simp only [List.getElem?_cons_zero, bind, EStateM.bind, he, hv, Run.ofExcept, pure, EStateM.pure]

/-! ## What is no number -/

/-- The text at which the scanner found no number is made of digits and points and is no numeral. -/
theorem scanFrom_invalidNumber (line pending : Nat) (done : List Token) (t : Text) {f : Fault} {text : Text}
    (h : scanFrom line pending done t = .error f) (hcause : f.cause = .invalidNumber text) :
    (∀ c ∈ text, isDigit c = true ∨ c = '.') ∧ Numeral.ofText? text = none := by
  fun_induction scanFrom line pending done t with
  | case1 => cases h
  | case2 _ _ _ _ _ ih => exact ih h
  | case3 _ _ _ _ _ hnext =>
    cases h
    have hstuck := stuck_of_nextToken_error hnext
    cases hcause
    cases hstuck with
    | number hdigit hparts _ hnone => exact ⟨List.forall_mem_cons.2 ⟨.inl hdigit, hparts⟩, hnone⟩
  | case4 _ _ _ _ _ _ _ _ ih => exact ih h

/-- **Numbers are read alike in programs and in strings.**  A string is made a number exactly if it is written as a
numeral, blanks around it aside, and otherwise there is a fault on the line given.  The lexeme of every number that is
scanned is written as a numeral, and the literal evaluates to the same number as `stat` of anything that evaluates to
the lexeme as a string.  Digits and points that the scanner refuses as a number are refused in a string too. -/
theorem numbers_read_alike :
    (∀ (s : Text) (line : Line),
      (∀ x, (Value.string s).asNumber line = .ok x ↔ ∃ n : Numeral, n.WrittenAs s.strip ∧ n.toFloat = x) ∧
      ((¬ ∃ n : Numeral, n.WrittenAs s.strip) → (Value.string s).asNumber line = .error (notNumber s line))) ∧
    (∀ (source : Text) (ts : List Token), scanText source = .ok ts → ∀ t ∈ ts, t.kind = .number →
      ∃ n : Numeral, n.WrittenAs t.lexeme ∧ ∀ (limits : Limits) (room : Nat) (m : Machine),
        (Expr.literal t).eval (caller limits room) m = .ok (.number n.toFloat) m ∧
        ∀ (e : Expr) (m' : Machine) (line : Line), e.eval (caller limits room) m = .ok (.string t.lexeme) m' →
          (Expr.call ⟨.identifier, "stat".toList, line⟩ [e]).eval (caller limits room) m =
            .ok (.number n.toFloat) m') ∧
    ∀ (source : Text) (f : Fault) (text : Text), scanText source = .error f → f.cause = .invalidNumber text →
      ∀ line : Line, (Value.string text).asNumber line = .error (notNumber text line) := by
  refine ⟨fun s line => ⟨asNumber_eq_ok_iff s line, fun h => asNumber_eq_error h line⟩, ?_, ?_⟩
  · intro source ts hscan t ht hk
    obtain ⟨hparts, n, hn⟩ := (scanText_number hscan ht hk).number_parts
    refine ⟨n, hn, fun limits room m => ⟨eval_literal hk hn _ m, fun e m' line he => ?_⟩⟩
    refine eval_stat he ((asNumber_eq_ok_iff _ _ _).2 ⟨n, ?_, rfl⟩)
    rwa [strip_of_numberParts hparts]
  · intro source f text hscan hcause line
    obtain ⟨hparts, hnone⟩ := scanFrom_invalidNumber _ _ _ _ hscan hcause
    refine asNumber_eq_error ?_ line
    rw [strip_of_numberParts hparts]
    rintro ⟨n, hn⟩
    cases hnone.symm.trans ((Numeral.ofText?_eq_some_iff _ n).2 hn)

/-- The tokens of `spawn 2.50`. -/
def potionTokens : List Token :=
  [⟨.spawn, "spawn".toList, some 1⟩, ⟨.blank, [' '], some 1⟩, ⟨.number, "2.50".toList, some 1⟩,
    ⟨.endOfFile, [], some 1⟩]

/-- A digit of another script in a string with blanks around it, a literal and a string of the same text, and a
superscript, which is a digit to the scanner only. -/
theorem numbers_read_alike_other_digits :
    (∃ n : Numeral, n.WrittenAs "٣.5E+1".toList ∧ (Value.string " ٣.5E+1\n".toList).asNumber none = .ok n.toFloat) ∧
    (scanText "spawn 2.50".toList = .ok potionTokens ∧
      ∃ n : Numeral, n.WrittenAs "2.50".toList ∧ ∀ (limits : Limits) (room : Nat) (m : Machine),
        (Expr.literal ⟨.number, "2.50".toList, some 1⟩).eval (caller limits room) m = .ok (.number n.toFloat) m ∧
        (Expr.call ⟨.identifier, "stat".toList, some 2⟩ [.literal ⟨.string, "\"2.50\"".toList, some 2⟩]).eval
          (caller limits room) m = .ok (.number n.toFloat) m) ∧
    ∃ f, scanText "٣².".toList = .error f ∧ f.cause = .invalidNumber "٣².".toList ∧
      (Value.string "٣².".toList).asNumber none = .error (notNumber "٣².".toList none) := by
  obtain ⟨hstrings, hliterals, hrefused⟩ := numbers_read_alike
  refine ⟨?_, ?_, ?_⟩
  · have hread : ((Value.string " ٣.5E+1\n".toList).asNumber none).toBool = true := by decide +kernel
    cases h : (Value.string " ٣.5E+1\n".toList).asNumber none with
    | error f =>
      rw [h] at hread
      cases hread
    | ok x =>
      obtain ⟨n, hn, rfl⟩ := ((hstrings _ none).1 x).1 h
      exact ⟨n, hn, rfl⟩
  · have hscan : scanText "spawn 2.50".toList = .ok potionTokens := by rfl
    refine ⟨hscan, ?_⟩
    obtain ⟨n, hn, heval⟩ := hliterals _ _ hscan ⟨.number, "2.50".toList, some 1⟩ (by decide) rfl
    exact ⟨n, hn, fun limits room m => ⟨(heval limits room m).1, (heval limits room m).2 _ m _ rfl⟩⟩
  · have hscan : scanText "٣².".toList = .error { cause := .invalidNumber "٣².".toList, line := some 1 } := by rfl
    exact ⟨_, hscan, rfl, hrefused _ _ _ hscan rfl none⟩

end Loot
