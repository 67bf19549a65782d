import Loot.Machine.Exec
import Loot.Proofs.Number.Partial
/-!
# Guards that hold

In front of each partial operation of the system stands a check, and with the check the operation is total: divisions,
numbers read from strings, arguments taken by their place and built-in functions by their name.  So a run of them comes
to a value or to a fault of the program, and never to a failure of the system.
-/
namespace Loot

/-! ## Values -/

theorem asNumber_string (s : Text) (line : Line) : (Value.string s).asNumber line =
    match Numeral.ofText? s.strip with
    | some n => .ok n.toFloat
    | none => .error (notNumber s line) := by
  simp only [Value.asNumber, readNumber?]
  cases Numeral.ofText? s.strip with
  | none => rfl
  | some n => rfl

namespace Run

theorem toNumber_eq (line : Line) (v : Value) : toNumber line v = ofExcept (v.asNumber line) := by
  cases v with
  | string s =>
    rw [toNumber, asNumber_string]
    cases hread : Numeral.ofText? s.strip with
    | none => rfl
    | some n =>
      rw [Binary64.read_eq ((Numeral.ofText?_eq_some_iff _ n).1 hread)]
      rfl
  | null => rfl
  | boolean b => rfl
  | number x => rfl

theorem operate_eq (op : Kind) (l r : Value) (line : Line) :
    operate op l r line = ofExcept (Value.operate op l r line) := by
  unfold operate
  split
  · rw [Binary64.quotient_eq]
    rfl
  · rfl

end Run

theorem literalValue_number {t : Token} (hk : t.kind = .number) {n : Numeral} (hn : n.WrittenAs t.lexeme) :
    literalValue t = pure (.number n.toFloat) := by
  rw [literalValue, hk]
  simp only [Binary64.read_eq hn]
  rfl

/-! ## Built-in functions -/

namespace Builtin

theorem required_eq (name : Token) (args : List (Run Value)) (i : Nat) : required name args i =
    match args[i]? with
    | some arg => arg
    | none => Run.fault (.arity name.lexeme (i + 1) args.length) name.line := by
  unfold required argument
  by_cases hi : i < args.length
  · rw [if_pos hi, List.getElem?_eq_getElem hi]
  · rw [if_neg hi, List.getElem?_eq_none (Nat.le_of_not_lt hi)]

theorem optional_eq (args : List (Run Value)) (i : Nat) (default : Value) :
    optional args i default = (args[i]?).getD (pure default) := by
  unfold optional argument
  by_cases hi : i < args.length
  · rw [if_pos hi, List.getElem?_eq_getElem hi]
    rfl
  · rw [if_neg hi, List.getElem?_eq_none (Nat.le_of_not_lt hi)]
    rfl

theorem number_eq (name : Token) (args : List (Run Value)) :
    number name args = (do let v ← required name args 0; Run.ofExcept (v.asNumber name.line)) := by
  unfold number
  simp only [Run.toNumber_eq]

theorem isName_eq (name : Text) : isName name = (ofName? name).isSome := by
  unfold isName ofName?
  induction table with
  | nil => rfl
  | cons entry rest ih =>
    obtain ⟨key, b⟩ := entry
    rw [List.any_cons, ih, List.lookup_cons]
    by_cases hkey : name = key
    · simp [hkey]
    · simp [beq_false_of_ne hkey, beq_false_of_ne (Ne.symm hkey)]

end Builtin

/-! ## Calls -/

section Calls

variable (enter : Token → Function → List Value → Run Value) {name : Token}

theorem callWith_of_builtin {b : Builtin} (h : Builtin.ofName? name.lexeme = some b) (args : List (Run Value)) :
    callWith enter name args = b.run name args := by
  unfold callWith Builtin.named
  rw [Builtin.isName_eq, h]
  rfl

/-- What a call does with the function that it found under its name. -/
def callFound (name : Token) (args : List (Run Value)) : Option Function → Run Value
  | none => Run.fault (.undefinedFunction name.lexeme) name.line
  | some f =>
    if args.length < f.params.length then
      Run.fault (.arity name.lexeme f.params.length args.length) name.line
    else do
      let values ← inOrder args
      enter name f values

theorem callWith_of_not_builtin (h : Builtin.ofName? name.lexeme = none) (args : List (Run Value)) :
    callWith enter name args = (do callFound enter name args ((← get).functions.get? name.lexeme)) := by
  unfold callWith
  rw [Builtin.isName_eq, h]
  rfl

end Calls

end Loot
