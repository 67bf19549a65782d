import Loot.Number.Written
import Loot.Proofs.Number.Grammar
import Loot.Proofs.Number.Nearest
/-!
# The text of a number is a numeral

However the digits of a number are laid out, with a point among them, with zeros before or after them, or with an
exponent, the text is a numeral, and its decimal fraction is the one that was laid out.  So the text of a finite number
reads as the index of the number (`magnitudeText_reads`).
-/
namespace Loot

open Numeral

/-! ## Plain digits -/

/-- The text is made of the digits from 0 to 9.  It may be empty. -/
def ArePlain (t : Text) : Prop := ∀ c ∈ t, c.isDigit = true

/-- The number that plain digits stand for. -/
def plainValue (t : Text) : Nat := Nat.ofDigitChars 10 t 0

theorem ArePlain.append {t u : Text} (ht : ArePlain t) (hu : ArePlain u) : ArePlain (t ++ u) :=
  List.forall_mem_append.2 ⟨ht, hu⟩

theorem ArePlain.left {t u : Text} (h : ArePlain (t ++ u)) : ArePlain t := (List.forall_mem_append.1 h).1

theorem arePlain_zeros (k : Nat) : ArePlain (List.replicate k '0') := by
  intro c hc
  rw [List.eq_of_mem_replicate hc]
  decide

theorem arePlain_toDigits (n : Nat) : ArePlain (Nat.toDigits 10 n) := fun _ hc =>
  Nat.isDigit_of_mem_toDigits (by decide) (by decide) hc

theorem digitValue?_plain {c : Char} (h : c.isDigit = true) : digitValue? c = some (c.toNat - '0'.toNat) := by
  have hrange : 48 ≤ c.toNat ∧ c.toNat ≤ 57 := by
    rw [Char.isDigit, Bool.and_eq_true, decide_eq_true_eq, decide_eq_true_eq] at h
    exact h
  rw [digitValue?, decimalZeros, digitValueIn, if_neg (by omega), if_pos (by omega)]
  rfl

theorem ArePlain.areDigits {t : Text} (h : ArePlain t) : AreDigits t := fun c hc => by
  rw [isDecimal, digitValue?_plain (h c hc)]
  rfl

theorem digitValues_append (t u : Text) : digitValues (t ++ u) = digitValues t ++ digitValues u :=
  List.filterMap_append

theorem foldl_digitValues : ∀ {t : Text}, ArePlain t → ∀ n,
    (digitValues t).foldl (fun n d => 10 * n + d) n = Nat.ofDigitChars 10 t n
  | [], _, _ => rfl
  | c :: t, h, n => by
    obtain ⟨hc, ht⟩ := List.forall_mem_cons.1 h
    rw [digitValues, List.filterMap_cons_some (digitValue?_plain hc), List.foldl_cons, Nat.ofDigitChars_cons]
    exact foldl_digitValues ht _

/-- **Plain digits are read as the number that they stand for.** -/
theorem ArePlain.valueOf_eq {t : Text} (h : ArePlain t) : valueOf (digitValues t) = plainValue t :=
  foldl_digitValues h 0

theorem plainValue_toDigits (n : Nat) : plainValue (Nat.toDigits 10 n) = n := Nat.ofDigitChars_ten_toDigits

theorem plainValue_zeros_append (k : Nat) (t : Text) : plainValue (List.replicate k '0' ++ t) = plainValue t := by
  rw [plainValue, Nat.ofDigitChars_append, Nat.ofDigitChars_replicate_zero, Nat.mul_zero, plainValue]

theorem plainValue_append_zeros (t : Text) (k : Nat) :
    plainValue (t ++ List.replicate k '0') = plainValue t * tenTo k := by
  rw [plainValue, Nat.ofDigitChars_append, Nat.ofDigitChars_replicate_zero, Nat.mul_comm]
  rfl

theorem digitValueIn_lt {n d : Nat} : ∀ {zs : List Nat}, digitValueIn zs n = some d → d < 10
  | [], h => nomatch h
  | z :: zs, h => by
    rw [digitValueIn] at h
    split at h
    · cases h
    · split at h
      · cases h
        omega
      · exact digitValueIn_lt h

theorem digitValues_lt {t : Text} : ∀ d ∈ digitValues t, d < 10 := by
  intro d hd
  obtain ⟨c, -, hc⟩ := List.mem_filterMap.1 hd
  exact digitValueIn_lt hc

theorem Numeral.WrittenDigits.lt_ten {digits : List Nat} {places : Nat} {t : Text} (h : WrittenDigits digits places t) :
    ∀ d ∈ digits, d < 10 := by
  cases h with
  | whole _ _ => exact digitValues_lt
  | point _ _ _ =>
    rw [← digitValues_append]
    exact digitValues_lt
  | fraction _ _ => exact digitValues_lt

/-! ## Texts that read as an index -/

/-- The text is a numeral without a sign, and the number at the index is nearest to it. -/
def ReadsAs (t : Text) (b : Nat) : Prop :=
  ∃ digits places exponent body tail, t = body ++ tail ∧ WrittenDigits digits places body ∧
    WrittenExponent exponent tail ∧ (⟨valueOf digits, exponent - places⟩ : Decimal).index = b

/-- **A text that reads as an index is read as the number there**, with the sign that stands before it. -/
theorem ReadsAs.writtenAs {t : Text} {b : Nat} (h : ReadsAs t b) {negative : Bool} {sign : Text}
    (hsign : WrittenSign negative sign) :
    ∃ n : Numeral, n.WrittenAs (sign ++ t) ∧ n.toFloat = Binary64.ofIndex negative b := by
  obtain ⟨digits, places, exponent, body, tail, rfl, hdigits, hexponent, rfl⟩ := h
  refine ⟨_, .mk hsign hdigits hexponent, ?_⟩
  rw [Numeral.toFloat, Numeral.index_eq _ hdigits.lt_ten]

/-- Digits without a point and without an exponent. -/
theorem readsAs_whole {t : Text} (hne : t ≠ []) (ht : ArePlain t) : ReadsAs t (⟨plainValue t, 0⟩ : Decimal).index :=
  ⟨_, _, _, t, [], (List.append_nil t).symm, .whole hne ht.areDigits, .without, by rw [ht.valueOf_eq]; rfl⟩

/-- Digits with a point among them. -/
theorem readsAs_point {whole fraction tail : Text} {exponent : Int} (hne : whole ≠ []) (hwhole : ArePlain whole)
    (hfraction : ArePlain fraction) (htail : WrittenExponent exponent tail) :
    ReadsAs (whole ++ '.' :: fraction ++ tail)
      (⟨plainValue (whole ++ fraction), exponent - fraction.length⟩ : Decimal).index := by
  refine ⟨_, _, _, _, tail, rfl, .point hne hwhole.areDigits hfraction.areDigits, htail, ?_⟩
  rw [← digitValues_append, (hwhole.append hfraction).valueOf_eq]

/-! ## Layouts -/

/-- **Digits with the point at a place** are a numeral for the fraction with the point at that place. -/
theorem positional_reads {ds : Text} (hne : ds ≠ []) (hds : ArePlain ds) (point : Int) :
    ReadsAs (Decimal.positional ds point) (⟨plainValue ds, point - ds.length⟩ : Decimal).index := by
  unfold Decimal.positional
  split
  · rename_i hpoint
    have hfraction := (arePlain_zeros (-point).toNat).append hds
    have hreads := readsAs_point (List.cons_ne_nil '0' []) (arePlain_zeros 1) hfraction .without
    have hvalue : plainValue (['0'] ++ (List.replicate (-point).toNat '0' ++ ds)) = plainValue ds :=
      (plainValue_zeros_append 1 _).trans (plainValue_zeros_append _ ds)
    have hexponent : (0 : Int) - (List.replicate (-point).toNat '0' ++ ds).length = point - ds.length := by
      rw [List.length_append, List.length_replicate]
      omega
    rw [hvalue, hexponent, List.append_nil] at hreads
    exact hreads
  · split
    · rename_i hpoint hdrop
      -- all digits stand before the point, and zeros fill the places up to it
      have hlength : ds.length ≤ point.toNat := List.drop_eq_nil_iff.1 hdrop
      have hreads := readsAs_whole (List.append_ne_nil_of_left_ne_nil hne _)
        (hds.append (arePlain_zeros (point.toNat - ds.length)))
      have hexponent : (0 : Int) + ((point.toNat - ds.length : Nat) : Int) = point - ds.length := by omega
      rwa [plainValue_append_zeros, Decimal.index_shift, hexponent] at hreads
    · rename_i hpoint fraction hdrop
      have hsplit := List.take_append_drop point.toNat ds
      have hlength : point.toNat < ds.length := by
        refine Nat.lt_of_not_le fun hle => hdrop ?_
        exact List.drop_eq_nil_iff.2 hle
      have htake : ds.take point.toNat ≠ [] := by
        rw [← List.length_pos_iff, List.length_take]
        omega
      have hwhole : ArePlain (ds.take point.toNat) := fun c hc => hds c (List.mem_of_mem_take hc)
      have hfraction : ArePlain (ds.drop point.toNat) := fun c hc => hds c (List.mem_of_mem_drop hc)
      have hreads := readsAs_point htake hwhole hfraction .without
      have hexponent : (0 : Int) - (ds.drop point.toNat).length = point - ds.length := by
        rw [List.length_drop]
        omega
      rwa [hsplit, hexponent, List.append_nil] at hreads

theorem writtenExponent_text (e : Int) : WrittenExponent e (Decimal.exponentText e) := by
  have hplain := (arePlain_zeros (2 - (Nat.toDigits 10 e.natAbs).length)).append (arePlain_toDigits e.natAbs)
  have hne : List.replicate (2 - (Nat.toDigits 10 e.natAbs).length) '0' ++ Nat.toDigits 10 e.natAbs ≠ [] :=
    List.append_ne_nil_of_right_ne_nil _ Nat.toDigits_ne_nil
  have hvalue : valueOf (digitValues (List.replicate (2 - (Nat.toDigits 10 e.natAbs).length) '0' ++
      Nat.toDigits 10 e.natAbs)) = e.natAbs := by
    rw [hplain.valueOf_eq, plainValue_zeros_append, plainValue_toDigits]
  unfold Decimal.exponentText
  by_cases he : e < 0
  · have hwritten := WrittenExponent.marked (.inl rfl) .minus hne hplain.areDigits
    rw [hvalue, if_pos rfl, show -((e.natAbs : Nat) : Int) = e by omega] at hwritten
    simpa [he] using hwritten
  · have hwritten := WrittenExponent.marked (.inl rfl) .plus hne hplain.areDigits
    rw [hvalue, if_neg (by decide), show ((e.natAbs : Nat) : Int) = e by omega] at hwritten
    simpa [he] using hwritten

/-- **Digits with an exponent** are a numeral for the same fraction. -/
theorem scientific_reads {ds : Text} (hne : ds ≠ []) (hds : ArePlain ds) (point : Int) :
    ReadsAs (Decimal.scientific ds point) (⟨plainValue ds, point - ds.length⟩ : Decimal).index := by
  have htail := writtenExponent_text (point - 1)
  match ds, hne with
  | [d], _ =>
    refine ⟨_, _, _, [d], _, rfl, .whole (List.cons_ne_nil d []) hds.areDigits, htail, ?_⟩
    rw [hds.valueOf_eq]
    have hexponent : point - 1 - ((0 : Nat) : Int) = point - ([d] : Text).length := by simp
    rw [hexponent]
  | d :: d' :: more, _ =>
    obtain ⟨hd, hrest⟩ := List.forall_mem_cons.1 hds
    have hreads := readsAs_point (List.cons_ne_nil d []) (List.forall_mem_singleton.2 hd) hrest htail
    have hexponent : point - 1 - ((d' :: more).length : Int) = point - (d :: d' :: more).length := by
      simp only [List.length_cons]
      omega
    rw [hexponent] at hreads
    exact hreads

/-! ## The digits of a decimal fraction -/

/-- A text of digits is what is left of it without the zeros at its end, and these zeros. -/
theorem exists_zeros (t : Text) : ∃ k, t = (t.reverse.dropWhile (· == '0')).reverse ++ List.replicate k '0' := by
  have hsplit := List.takeWhile_append_dropWhile (p := (· == '0')) (l := t.reverse)
  have hzeros : ∀ c ∈ t.reverse.takeWhile (· == '0'), c = '0' := fun c hc => by
    simpa using List.all_eq_true.1 List.all_takeWhile c hc
  obtain ⟨k, hk⟩ : ∃ k, t.reverse.takeWhile (· == '0') = List.replicate k '0' :=
    ⟨_, List.eq_replicate_iff.2 ⟨rfl, hzeros⟩⟩
  refine ⟨k, ?_⟩
  calc t = (List.replicate k '0' ++ t.reverse.dropWhile (· == '0')).reverse := by
        rw [← hk, hsplit, List.reverse_reverse]
    _ = (t.reverse.dropWhile (· == '0')).reverse ++ List.replicate k '0' := by
        rw [List.reverse_append, List.reverse_replicate]

/-- **The text of a decimal fraction reads as the index of the fraction.** -/
theorem Decimal.toText_reads (d : Decimal) (hpos : 0 < d.digits) : ReadsAs d.toText d.index := by
  obtain ⟨k, hzeros⟩ := exists_zeros (Nat.toDigits 10 d.digits)
  have hplain := arePlain_toDigits d.digits
  have hvalue := plainValue_toDigits d.digits
  have hlaid : d.laidOut = (((Nat.toDigits 10 d.digits).reverse.dropWhile (· == '0')).reverse,
      ((Nat.toDigits 10 d.digits).length : Int) + d.exponent) := rfl
  generalize ((Nat.toDigits 10 d.digits).reverse.dropWhile (· == '0')).reverse = ds at hzeros hlaid
  rw [hzeros] at hplain hvalue hlaid
  have hds := hplain.left
  rw [plainValue_append_zeros] at hvalue
  have hne : ds ≠ [] := by
    rintro rfl
    rw [show plainValue [] = 0 from rfl, Nat.zero_mul] at hvalue
    omega
  -- the zeros at the end of the digits belong to the exponent
  have hindex : d.index = (⟨plainValue ds, d.exponent + k⟩ : Decimal).index := by
    rw [← Decimal.index_shift, hvalue]
  have hexponent : ((ds ++ List.replicate k '0').length : Int) + d.exponent - ds.length = d.exponent + k := by
    rw [List.length_append, List.length_replicate]
    omega
  unfold Decimal.toText
  rw [hlaid, hindex, ← hexponent]
  simp only
  split
  · exact positional_reads hne hds _
  · exact scientific_reads hne hds _

/-- **The text of a finite number without its sign reads as the index of the number.** -/
theorem Binary64.magnitudeText_reads {b : Nat} (hb : b < infinity) : ReadsAs (magnitudeText b) b := by
  have hle := Nat.le_of_lt hb
  unfold magnitudeText
  rw [if_neg (Nat.ne_of_lt hb)]
  split
  · rename_i hwhole
    rw [isShortWhole, decide_eq_true_eq] at hwhole
    have hone : tenTo 0 = 1 := rfl
    have hexact : scaled b / unitScale * tenTo 0 * unitScale = scaled b * tenTo 0 := by
      rw [hone, Nat.mul_one, Nat.mul_one, Nat.div_mul_cancel (Nat.dvd_of_mod_eq_zero hwhole.1)]
    have hindex : (⟨scaled b / unitScale, 0⟩ : Decimal).index = b :=
      (Decimal.index_of_unit _ 0 0).trans (nearest_exact hle (tenTo_pos 0) hexact)
    have hreads := readsAs_whole Nat.toDigits_ne_nil (arePlain_toDigits (scaled b / unitScale))
    rwa [plainValue_toDigits, hindex] at hreads
  · rename_i hwhole
    have hne : b ≠ 0 := by
      rintro rfl
      refine hwhole (decide_eq_true ?_)
      rw [scaled_of_lt (by decide)]
      exact ⟨Nat.zero_mod _, Nat.mul_pos (tenTo_pos 16) (twoTo_pos 1074)⟩
    have hreads := (shortest b).toText_reads (shortest_digits_pos hle hne)
    rwa [shortest_index hle] at hreads

end Loot
