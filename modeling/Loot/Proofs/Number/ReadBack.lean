import Loot.Proofs.Machine.Numerals
import Loot.Proofs.Number.Layout
import Mathlib
/-!
# Numbers survive the trip through text

A finite number made a text and read again is the number, whichever of its written forms the text has; only the sign of
zero is lost (`number_text_round_trip`).  The texts of the other numbers are words that are no numerals.
-/
namespace Loot

namespace Binary64

/-! ## Numbers and their indices -/

theorem toNat_toBits (x : Float) :
    (if isNegative x then signBit + index x else index x) = x.toBits.toNat := by
  have hlt : x.toBits.toNat < 2 * signBit := x.toBits.toNat_lt
  unfold isNegative index
  rcases Nat.lt_or_ge x.toBits.toNat signBit with h | h
  · rw [decide_eq_false (Nat.not_le_of_lt h), Nat.mod_eq_of_lt h]
    rfl
  · rw [decide_eq_true h, if_pos rfl, Nat.mod_eq_sub_mod h, Nat.mod_eq_of_lt (by omega)]
    omega

/-- **A number is known by its sign and its index.** -/
theorem ofIndex_index (x : Float) : ofIndex (isNegative x) (index x) = x := by
  rw [ofIndex, toNat_toBits, UInt64.ofNat_toNat, Float.ofBits_toBits]

end Binary64

/-! ## The text of a number -/

/-- **The text of a finite number is a numeral for it**, or for zero without its sign. -/
theorem numberText_written {x : Float} (h : Binary64.index x < Binary64.infinity) : ∃ n : Numeral,
    n.WrittenAs (numberText x) ∧
      n.toFloat = Binary64.ofIndex (Binary64.isNegative x && Binary64.index x != 0) (Binary64.index x) := by
  have hreads := Binary64.magnitudeText_reads h
  unfold numberText
  simp only
  rw [if_neg (Nat.not_lt_of_gt h)]
  split
  · rename_i hsign
    rw [hsign]
    exact hreads.writtenAs .minus
  · rename_i hsign
    rw [Bool.eq_false_iff.2 hsign]
    exact hreads.writtenAs .without

/-- What is not finite is written as a word. -/
theorem numberText_word {x : Float} (h : Binary64.infinity ≤ Binary64.index x) :
    numberText x ∈ ["nan".toList, "inf".toList, "-inf".toList] := by
  unfold numberText
  simp only
  split
  · exact List.mem_cons_self
  · rename_i hnan
    have hinf : Binary64.index x = Binary64.infinity := Nat.le_antisymm (Nat.le_of_not_lt hnan) h
    have hword : Binary64.magnitudeText Binary64.infinity = "inf".toList := if_pos rfl
    rw [hinf, hword]
    split
    · exact List.mem_cons_of_mem _ (List.mem_cons_of_mem _ List.mem_cons_self)
    · exact List.mem_cons_of_mem _ List.mem_cons_self

/-- A whole number below 10^16 is written as an integer. -/
theorem numberText_whole {x : Float} (h : Binary64.index x < Binary64.infinity)
    (hwhole : Binary64.isShortWhole (Binary64.index x) = true) : numberText x = Text.ofInt (Binary64.truncated x) := by
  have hmagnitude : Binary64.magnitudeText (Binary64.index x) =
      Text.ofNat (Binary64.scaled (Binary64.index x) / Binary64.unitScale) := by
    rw [Binary64.magnitudeText, if_neg (Nat.ne_of_lt h), if_pos hwhole]
  unfold numberText Binary64.truncated
  simp only
  rw [if_neg (Nat.not_lt_of_gt h), hmagnitude]
  cases hsign : Binary64.isNegative x with
  | false => rfl
  | true =>
    by_cases hzero : Binary64.index x = 0
    · rw [hzero, Binary64.scaled_of_lt (by decide), Nat.zero_div]
      rfl
    · -- the quotient is not zero, because nothing is lost in it
      obtain ⟨k, hk⟩ : ∃ k, Binary64.scaled (Binary64.index x) / Binary64.unitScale = k + 1 := by
        rw [Binary64.isShortWhole, decide_eq_true_eq] at hwhole
        refine Nat.exists_eq_add_one.2 (Nat.pos_of_ne_zero fun hquotient => hzero ?_)
        rw [← Binary64.floorIndex_scaled (Binary64.index x),
          ← Nat.div_mul_cancel (Nat.dvd_of_mod_eq_zero hwhole.1), hquotient, Nat.zero_mul]
        rfl
      rw [hk, if_pos (by simp [hzero])]
      rfl

/-- There are no blanks in a numeral. -/
theorem Numeral.WrittenAs.strip_eq {n : Numeral} {t : Text} (h : n.WrittenAs t) : t.strip = t := by
  have hdigits : ∀ {ds : Text}, Numeral.AreDigits ds → ∀ c ∈ ds, isBlank c = false := fun hds c hc =>
    not_isBlank_of_isNumberPart (.inl (by rw [isDigit, show (digitValue? c).isSome = true from hds c hc]; rfl))
  have hsign : ∀ {negative sign}, Numeral.WrittenSign negative sign → ∀ c ∈ sign, isBlank c = false := by
    intro negative sign hs
    cases hs with
    | without => exact List.forall_mem_nil _
    | plus => exact List.forall_mem_singleton.2 (by decide)
    | minus => exact List.forall_mem_singleton.2 (by decide)
  have hmark : ∀ {mark : Char}, mark = 'e' ∨ mark = 'E' → isBlank mark = false := by
    rintro _ (rfl | rfl) <;> decide
  refine Text.strip_of_no_blanks ?_
  obtain ⟨hs, hbody, htail⟩ := h
  refine List.forall_mem_append.2 ⟨hsign hs, List.forall_mem_append.2 ⟨?_, ?_⟩⟩
  · cases hbody with
    | whole _ hds => exact hdigits hds
    | point _ hds hes =>
      exact List.forall_mem_append.2 ⟨hdigits hds, List.forall_mem_cons.2 ⟨by decide, hdigits hes⟩⟩
    | fraction _ hes => exact List.forall_mem_cons.2 ⟨by decide, hdigits hes⟩
  · cases htail with
    | without => exact List.forall_mem_nil _
    | marked hm hs _ hds =>
      exact List.forall_mem_cons.2 ⟨hmark hm, List.forall_mem_append.2 ⟨hsign hs, hdigits hds⟩⟩

/-! ## There and back -/

/-- The two zeros are equal as numbers, and only their signs tell them apart. -/
theorem eq_zero_of_index {x : Float} (h : Binary64.index x = 0) : x = 0.0 ∨ x = -0.0 := by
  rw [← Binary64.ofIndex_index x, h]
  cases Binary64.isNegative x with
  | false => exact .inl (by decide)
  | true => exact .inr (by decide)

theorem ofIndex_unsigned (x : Float) :
    Binary64.ofIndex (Binary64.isNegative x && Binary64.index x != 0) (Binary64.index x) =
      if x = -0.0 then 0.0 else x := by
  by_cases hzero : Binary64.index x = 0
  · rcases eq_zero_of_index hzero with rfl | rfl
    · decide
    · decide
  · have hne : x ≠ -0.0 := by
      rintro rfl
      exact hzero (by decide)
    have hsign : (Binary64.isNegative x && Binary64.index x != 0) = Binary64.isNegative x := by simp [hzero]
    rw [hsign, Binary64.ofIndex_index, if_neg hne]

theorem asNumber_numberText {x : Float} (h : x.isFinite = true) (line : Line) :
    (Value.string (numberText x)).asNumber line = .ok (if x = -0.0 then 0.0 else x) := by
  obtain ⟨n, hn, hfloat⟩ := numberText_written ((Binary64.isFinite_iff x).1 h)
  refine (asNumber_eq_ok_iff _ _ _).2 ⟨n, by rwa [hn.strip_eq], ?_⟩
  rw [hfloat, ofIndex_unsigned]

/-- Finite numbers are equal to themselves. -/
theorem beq_self_of_isFinite {x : Float} (h : x.isFinite = true) : (x == x) = true := by
  rw [Float.beq_self_iff]
  rintro rfl
  cases h

theorem beq_of_unsigned_eq {x x' : Float} (h : x.isFinite = true) (heq : (if x = -0.0 then 0.0 else x) = x') :
    (x' == x) = true := by
  split at heq
  · rename_i hzero
    rw [← heq, hzero]
    decide
  · rw [← heq]
    exact beq_self_of_isFinite h

/-- **Numbers survive the trip through text.**  A finite number made a text and then a number again is the number,
except that the negative zero comes back as zero, which is equal to it.  So finite numbers with the same text are equal.
A whole number below 10^16 goes through the text of an integer.  What is not finite comes back as a fault. -/
theorem number_text_round_trip (x : Float) (line : Line) :
    (x.isFinite = true → ∃ y, (Value.string (Value.number x).text).asNumber line = .ok y ∧ (y == x) = true ∧
      (x ≠ -0.0 → y = x) ∧ (x = -0.0 → y = 0.0)) ∧
    (x.isFinite = true → Binary64.isShortWhole (Binary64.index x) = true →
      (Value.number x).text = Text.ofInt (Binary64.truncated x)) ∧
    (x.isFinite = true → ∀ x' : Float, x'.isFinite = true → (Value.number x).text = (Value.number x').text →
      (x == x') = true) ∧
    (x.isFinite = false → (Value.string (Value.number x).text).asNumber line =
      .error (notNumber (Value.number x).text line)) := by
  refine ⟨fun h => ?_, fun h => ?_, fun h x' h' htext => ?_, fun h => ?_⟩
  · exact ⟨_, asNumber_numberText h line, beq_of_unsigned_eq h rfl, fun hne => if_neg hne, fun heq => if_pos heq⟩
  · exact numberText_whole ((Binary64.isFinite_iff x).1 h)
  · -- both texts are read as one number, which is equal to either
    have hread := asNumber_numberText h line
    rw [show numberText x = numberText x' from htext, asNumber_numberText h' line, Except.ok.injEq] at hread
    exact BEq.trans (BEq.symm (beq_of_unsigned_eq h rfl)) (beq_of_unsigned_eq h' hread)
  · have hword : numberText x ∈ ["nan".toList, "inf".toList, "-inf".toList] := by
      refine numberText_word (Nat.le_of_not_lt fun hlt => ?_)
      rw [(Binary64.isFinite_iff x).2 hlt] at h
      cases h
    have hnone : ∀ t ∈ ["nan".toList, "inf".toList, "-inf".toList], Numeral.ofText? (Text.strip t) = none := by decide
    change (Value.string (numberText x)).asNumber line = .error (notNumber (numberText x) line)
    rw [asNumber_string, hnone _ hword]

/-- A number with an exponent, the negative zero, a whole number that takes all bits of a mantissa, the two zeros, and
what is no number. -/
theorem number_text_round_trip_special_forms :
    ((Value.number 1e-5).text = "1e-05".toList ∧
      ∃ y, (Value.string "1e-05".toList).asNumber (some 1) = .ok y ∧ (y == 1e-5) = true ∧ y = 1e-5) ∧
    (∃ y, (Value.string (Value.number (-0.0)).text).asNumber (some 1) = .ok y ∧ y = 0.0) ∧
    Text.ofInt (Binary64.truncated 9007199254740994.0) = "9007199254740994".toList ∧
    ((0.0 : Float) == -0.0) = true ∧
    (Value.string "nan".toList).asNumber (some 1) = .error (notNumber "nan".toList (some 1)) := by
  have hdust : (Value.number 1e-5).text = "1e-05".toList := by decide +kernel
  obtain ⟨y, hread, heq, hsame, -⟩ := (number_text_round_trip 1e-5 (some 1)).1 (by decide)
  obtain ⟨z, hread', -, -, hzero⟩ := (number_text_round_trip (-0.0) (some 1)).1 (by decide)
  have hwhole := (number_text_round_trip 9007199254740994.0 (some 1)).2.1 (by decide) (by decide +kernel)
  have hzeros := (number_text_round_trip 0.0 (some 1)).2.2.1 (by decide) (-0.0) (by decide) (by decide +kernel)
  have hnan : (Value.number (0.0 / 0.0)).text = "nan".toList := by decide +kernel
  have hfault := (number_text_round_trip (0.0 / 0.0) (some 1)).2.2.2 (by decide)
  rw [hnan] at hfault
  rw [hdust] at hread
  exact ⟨⟨hdust, y, hread, heq, hsame (by decide)⟩, ⟨z, hread', hzero rfl⟩, hwhole.symm.trans (by decide +kernel),
    hzeros, hfault⟩

end Loot
