import Loot.Number.Partial
import Loot.Proofs.Number.Grammar
import Loot.Proofs.Text.Blanks
import Loot.Proofs.Token.Lines
import Mathlib
/-!
# Operations that do not fail

The check in front of a division leaves no zero to divide by, and the quotient that stands in for one by zero is the one
of the arithmetic (`Binary64.quotient_eq`).  The system reads from a numeral what the numeral denotes
(`Binary64.read_eq`).  Above the index of infinity there is no number (`Binary64.isNaN_iff`).
-/
namespace Loot

namespace Binary64

/-! ## Division -/

open Float.Model

/-- The sign of a number, as the arithmetic has it. -/
def sign (x : Float) : UnpackedFloat.Sign := if isNegative x then .negative else .positive

theorem sign_eq (x : Float) :
    UnpackedFloat.Sign.ofBitVec (@UnpackedFloat.unpackSign .binary64 x.toBits.toBitVec) = sign x := by
  have hlt : x.toBits.toNat < 2 * signBit := x.toBits.toNat_lt
  have hbit : @UnpackedFloat.unpackSign .binary64 x.toBits.toBitVec = 0#1 ↔ x.toBits.toNat / signBit % 2 = 0 := by
    rw [UnpackedFloat.unpackSign_def, ← BitVec.toNat_inj, BitVec.extractLsb'_toNat, Nat.shiftRight_eq_div_pow]
    rfl
  unfold UnpackedFloat.Sign.ofBitVec sign isNegative
  unfold signBit at *
  by_cases h : 0x8000000000000000 ≤ x.toBits.toNat
  · rw [if_neg (by rw [hbit]; omega), decide_eq_true h]
    rfl
  · rw [if_pos (by rw [hbit]; omega), decide_eq_false h]
    rfl

theorem unpack_forms (spec : Format) (b : BitVec spec.numBits) :
    let s := UnpackedFloat.Sign.ofBitVec (UnpackedFloat.unpackSign b)
    let u := UnpackedFloat.unpack spec b
    u = .notANumber ∨ u = .infinity s ∨ u = .zero s ∨ ∃ m e h, u = .finite s m e h := by
  fun_cases UnpackedFloat.unpack with
  | case1 => exact .inr (.inl rfl)
  | case2 => exact .inl rfl
  | case3 => exact .inr (.inr (.inl rfl))
  | case4 => exact .inr (.inr (.inr ⟨_, _, by simp [BitVec.toNat_pos, BitVec.pos_iff_ne_zero, *], rfl⟩))
  | case5 => exact .inr (.inr (.inr ⟨_, _, by simp, rfl⟩))

/-- **A number has one of four forms**, and three of them have its sign. -/
theorem unpack_cases (x : Float) : x.toModel.unpack = .notANumber ∨ x.toModel.unpack = .infinity (sign x) ∨
    x.toModel.unpack = .zero (sign x) ∨ ∃ m e h, x.toModel.unpack = .finite (sign x) m e h :=
  sign_eq x ▸ unpack_forms .binary64 x.toBits.toBitVec

theorem div_eq (x y : Float) : x / y = .ofModel (.pack (.div .binary64 x.toModel.unpack y.toModel.unpack)) := rfl

theorem isNaN_eq (x : Float) : x.isNaN = x.toModel.unpack.isNaN := rfl

theorem beq_zero (x : Float) : (x == 0) = true ↔ x.toModel.unpack = .zero (sign x) := by
  have hbeq : (x == 0) = x.toModel.unpack.beq (.zero .positive) := rfl
  rw [hbeq, UnpackedFloat.beq]
  rcases unpack_cases x with h | h | h | ⟨m, e, hm, h⟩ <;> rw [h] <;> cases sign x <;> simp [UnpackedFloat.compare]

theorem nan_eq : nan = .ofModel (.pack .notANumber) := by decide +kernel

theorem signedInfinity_eq (x y : Float) : withSignOf (ofIndex false infinity) x * withSignOf 1 y =
    .ofModel (.pack (.infinity (sign x / sign y))) := by
  unfold withSignOf sign
  cases isNegative x <;> cases isNegative y <;> decide +kernel

/-- **There is a quotient by every number**, and it is the one of the arithmetic. -/
theorem quotient_eq (x y : Float) : quotient x y = .ok (x / y) := by
  unfold quotient
  split
  · rename_i hy
    rw [div_eq, (beq_zero y).1 hy, nan_eq, signedInfinity_eq]
    rcases unpack_cases x with h | h | h | ⟨m, e, hm, h⟩
    · have hx : (x == 0 || x.isNaN) = true := by
        rw [isNaN_eq, h]
        exact Bool.or_true _
      rw [if_pos hx, h]
      rfl
    · have hx : ¬ (x == 0 || x.isNaN) = true := by
        rw [Bool.or_eq_true, beq_zero, isNaN_eq, h]
        simp [UnpackedFloat.isNaN]
      rw [if_neg hx, h]
      rfl
    · have hx : (x == 0 || x.isNaN) = true := by
        rw [(beq_zero x).2 h]
        rfl
      rw [if_pos hx, h]
      rfl
    · have hx : ¬ (x == 0 || x.isNaN) = true := by
        rw [Bool.or_eq_true, beq_zero, isNaN_eq, h]
        simp [UnpackedFloat.isNaN]
      rw [if_neg hx, h]
      rfl
  · rename_i hy
    exact if_neg hy

/-! ## What is not finite -/

/-- What is not finite has all bits of its exponent set, and only infinity has none in its mantissa. -/
theorem unpack_kinds (spec : Format) (b : BitVec spec.numBits) :
    ((UnpackedFloat.unpack spec b).isFinite = true ↔ UnpackedFloat.unpackExponent b ≠ -1#_) ∧
    ((UnpackedFloat.unpack spec b).isInf = true ↔
      UnpackedFloat.unpackExponent b = -1#_ ∧ UnpackedFloat.unpackMantissa b = 0#_) ∧
    ((UnpackedFloat.unpack spec b).isNaN = true ↔
      UnpackedFloat.unpackExponent b = -1#_ ∧ UnpackedFloat.unpackMantissa b ≠ 0#_) := by
  have hno : ¬ false = true := Bool.false_ne_true
  fun_cases UnpackedFloat.unpack with
  | case1 mantissa exponent signBits sign hset hzero =>
    exact ⟨iff_of_false hno (not_not_intro hset), iff_of_true rfl ⟨hset, hzero⟩, iff_of_false hno fun h => h.2 hzero⟩
  | case2 mantissa exponent hset hzero =>
    exact ⟨iff_of_false hno (not_not_intro hset), iff_of_false hno fun h => hzero h.2, iff_of_true rfl ⟨hset, hzero⟩⟩
  | case3 mantissa exponent signBits sign hset =>
    exact ⟨iff_of_true rfl hset, iff_of_false hno fun h => hset h.1, iff_of_false hno fun h => hset h.1⟩
  | case4 mantissa exponent _ signBits sign hset =>
    exact ⟨iff_of_true rfl hset, iff_of_false hno fun h => hset h.1, iff_of_false hno fun h => hset h.1⟩
  | case5 mantissa exponent _ signBits sign hset =>
    exact ⟨iff_of_true rfl hset, iff_of_false hno fun h => hset h.1, iff_of_false hno fun h => hset h.1⟩

theorem exponent_set_iff (x : Float) : @UnpackedFloat.unpackExponent .binary64 x.toBits.toBitVec = -1#11 ↔
    infinity ≤ index x := by
  have hbits : @UnpackedFloat.unpackExponent .binary64 x.toBits.toBitVec = -1#11 ↔
      x.toBits.toNat / 2 ^ 52 % 2048 = 2047 := by
    rw [UnpackedFloat.unpackExponent_def, ← BitVec.toNat_inj, BitVec.extractLsb'_toNat, Nat.shiftRight_eq_div_pow]
    rfl
  have hlt : x.toBits.toNat < 2 * signBit := x.toBits.toNat_lt
  rw [hbits, index]
  unfold infinity
  unfold signBit at *
  omega

theorem mantissa_zero_iff (x : Float) : @UnpackedFloat.unpackMantissa .binary64 x.toBits.toBitVec = 0#52 ↔
    index x % binade = 0 := by
  have hbits : @UnpackedFloat.unpackMantissa .binary64 x.toBits.toBitVec = 0#52 ↔ x.toBits.toNat % 2 ^ 52 = 0 := by
    rw [UnpackedFloat.unpackMantissa_def, ← BitVec.toNat_inj, BitVec.extractLsb'_toNat]
    rfl
  rw [hbits, index]
  unfold binade signBit
  omega

/-- **The finite numbers are those below infinity.** -/
theorem isFinite_iff (x : Float) : x.isFinite = true ↔ index x < infinity :=
  (unpack_kinds .binary64 x.toBits.toBitVec).1.trans ((not_congr (exponent_set_iff x)).trans Nat.not_le)

theorem isNaN_iff (x : Float) : x.isNaN = true ↔ infinity < index x := by
  refine (unpack_kinds .binary64 x.toBits.toBitVec).2.2.trans ?_
  refine (and_congr (exponent_set_iff x) (not_congr (mantissa_zero_iff x))).trans ?_
  have hlt : index x < signBit := Nat.mod_lt _ (by decide)
  unfold infinity binade signBit at *
  omega

theorem isInf_iff (x : Float) : x.isInf = true ↔ index x = infinity := by
  refine (unpack_kinds .binary64 x.toBits.toBitVec).2.1.trans ?_
  refine (and_congr (exponent_set_iff x) (mantissa_zero_iff x)).trans ?_
  have hlt : index x < signBit := Nat.mod_lt _ (by decide)
  unfold infinity binade signBit at *
  omega

end Binary64

/-! ## Texts of numbers -/

namespace Numeral

/-- What a numeral is written with. -/
def IsPart (c : Char) : Prop := isDecimal c = true ∨ c ∈ ['+', '-', '.', 'e', 'E']

theorem WrittenSign.parts {negative : Bool} {t : Text} (h : WrittenSign negative t) : ∀ c ∈ t, IsPart c := by
  cases h with
  | without => exact List.forall_mem_nil _
  | plus => exact List.forall_mem_singleton.2 (.inr (by decide))
  | minus => exact List.forall_mem_singleton.2 (.inr (by decide))

theorem WrittenDigits.parts {digits : List Nat} {places : Nat} {t : Text} (h : WrittenDigits digits places t) :
    ∀ c ∈ t, IsPart c := by
  have hdigits : ∀ {ds : Text}, AreDigits ds → ∀ c ∈ ds, IsPart c := fun hds c hc => .inl (hds c hc)
  have hpoint : IsPart '.' := .inr (by decide)
  cases h with
  | whole _ hds => exact hdigits hds
  | point _ hds hes =>
    exact List.forall_mem_append.2 ⟨hdigits hds, List.forall_mem_cons.2 ⟨hpoint, hdigits hes⟩⟩
  | fraction _ hes => exact List.forall_mem_cons.2 ⟨hpoint, hdigits hes⟩

theorem WrittenExponent.parts {e : Int} {t : Text} (h : WrittenExponent e t) : ∀ c ∈ t, IsPart c := by
  cases h with
  | without => exact List.forall_mem_nil _
  | marked hmark hsign _ hds =>
    refine List.forall_mem_cons.2 ⟨.inr ?_, List.forall_mem_append.2 ⟨hsign.parts, fun c hc => .inl (hds c hc)⟩⟩
    rcases hmark with rfl | rfl <;> decide

theorem WrittenAs.parts {n : Numeral} {t : Text} (h : WrittenAs n t) : ∀ c ∈ t, IsPart c := by
  obtain ⟨hsign, hdigits, hexponent⟩ := h
  exact List.forall_mem_append.2 ⟨hsign.parts, List.forall_mem_append.2 ⟨hdigits.parts, hexponent.parts⟩⟩

theorem IsPart.not_isBlank {c : Char} (h : IsPart c) : isBlank c = false := by
  rcases h with hdecimal | hmark
  · refine Bool.eq_false_iff.2 fun hblank => ?_
    have hdigit := (isAlphanumeric_of_isBlank hblank).2
    rw [isDigit, Bool.or_eq_false_iff] at hdigit
    cases hdigit.1.symm.trans hdecimal
  · simp only [List.mem_cons, List.not_mem_nil, or_false] at hmark
    rcases hmark with rfl | rfl | rfl | rfl | rfl <;> decide

theorem IsPart.ne_underscore {c : Char} (h : IsPart c) : c ≠ '_' := by
  rintro rfl
  rcases h with hdecimal | hmark
  · exact absurd hdecimal (by decide)
  · exact absurd hmark (by decide)

end Numeral

namespace Binary64

theorem dropUnderscores_eq : ∀ (afterDigit : Bool) {t : Text}, (∀ c ∈ t, c ≠ '_') →
    dropUnderscores afterDigit t = some t
  | _, [], _ => rfl
  | _, c :: cs, h => by
    obtain ⟨hc, hcs⟩ := List.forall_mem_cons.1 h
    rw [dropUnderscores, if_neg hc, dropUnderscores_eq _ hcs]
    rfl

/-- **The system reads a numeral as what it denotes**: there is nothing in it that is read in another way. -/
theorem read_eq {t : Text} {n : Numeral} (h : n.WrittenAs t) : read t = .ok n.toFloat := by
  have hstrip : t.strip = t := Text.strip_of_no_blanks fun c hc => (h.parts c hc).not_isBlank
  have hread : readNumber? t = some n.toFloat := by
    rw [readNumber?, (Numeral.ofText?_eq_some_iff t n).2 h]
    rfl
  rw [read, hstrip, dropUnderscores_eq false fun c hc => (h.parts c hc).ne_underscore]
  simp only [Option.bind_some, hread, Option.some_or]

end Binary64

end Loot
