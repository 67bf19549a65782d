import Loot.Number.Numeral
import Loot.Number.Shortest
import Mathlib.Tactic.Ring
/-!
# Numbers and fractions near them

The values at the indices ascend, so rounding gives the index of a value back when it is handed the value itself
(`nearest_exact`), and it sees the fraction and not the terms in which it is written (`nearest_congr`).  A decimal
fraction has an index (`Decimal.index`), which does not change when zeros move between its digits and its exponent
(`Decimal.index_shift`).  A numeral has the index of its decimal fraction, however far its exponent goes
(`Numeral.index_eq`), and the fewest digits of a number have the index of the number (`shortest_index`).
-/
namespace Loot

theorem tenTo_pos (k : Nat) : 0 < tenTo k := Nat.pow_pos (by decide)

theorem tenTo_add (j k : Nat) : tenTo (j + k) = tenTo j * tenTo k := Nat.pow_add 10 j k

theorem tenTo_le {j k : Nat} (h : j ≤ k) : tenTo j ≤ tenTo k := Nat.pow_le_pow_right (by decide) h

theorem tenTo_eq (k : Nat) : tenTo k = fiveTo k * twoTo k := Nat.mul_pow 5 2 k

theorem twoTo_eq (k : Nat) : twoTo k = 2 ^ k := rfl

theorem twoTo_pos (k : Nat) : 0 < twoTo k := Nat.pow_pos (by decide)

theorem twoTo_add (j k : Nat) : twoTo (j + k) = twoTo j * twoTo k := Nat.pow_add 2 j k

namespace Binary64

/-! ## The values at the indices -/

theorem scaled_of_lt {b : Nat} (h : b < binade) : scaled b = b := if_pos h

/-- The values with a full mantissa, by their exponent and the rest of their mantissa. -/
theorem scaled_binade (k : Nat) {r : Nat} (hr : r < binade) :
    scaled ((k + 1) * binade + r) = (binade + r) * twoTo k := by
  have hpos : 0 < binade := by decide
  have hge : ¬ (k + 1) * binade + r < binade := by
    rw [Nat.succ_mul]
    omega
  have hdiv : ((k + 1) * binade + r) / binade = k + 1 := by
    rw [Nat.add_comm, Nat.add_mul_div_right _ _ hpos, Nat.div_eq_of_lt hr, Nat.zero_add]
  have hmod : ((k + 1) * binade + r) % binade = r := by
    rw [Nat.add_comm, Nat.add_mul_mod_self_right, Nat.mod_eq_of_lt hr]
  rw [scaled, if_neg hge, hdiv, hmod, Nat.add_sub_cancel]

/-- An index is in the first binade, or has an exponent and the rest of a mantissa. -/
theorem index_cases (b : Nat) : b < binade ∨ ∃ k r, r < binade ∧ b = (k + 1) * binade + r := by
  rcases Nat.lt_or_ge b binade with h | h
  · exact .inl h
  · have hpos : 0 < binade := by decide
    have hdiv : b / binade - 1 + 1 = b / binade := Nat.sub_add_cancel (Nat.div_pos h hpos)
    refine .inr ⟨b / binade - 1, b % binade, Nat.mod_lt b hpos, ?_⟩
    rw [hdiv, Nat.mul_comm, Nat.div_add_mod]

theorem log2_mantissa (k : Nat) {r : Nat} (hr : r < binade) : ((binade + r) * twoTo k).log2 = 52 + k := by
  have hbinade : binade = 2 ^ 52 := by decide
  have hpos := twoTo_pos k
  have hne : (binade + r) * twoTo k ≠ 0 := Nat.mul_ne_zero (by rw [hbinade]; omega) (Nat.ne_of_gt hpos)
  rw [Nat.log2_eq_iff hne, Nat.pow_succ, Nat.pow_add, ← hbinade]
  constructor
  · exact Nat.mul_le_mul_right _ (Nat.le_add_right _ _)
  · calc (binade + r) * twoTo k < (binade + binade) * twoTo k := Nat.mul_lt_mul_of_pos_right (by omega) hpos
      _ = binade * 2 ^ k * 2 := by rw [twoTo_eq]; ring

/-- **The last index at or below a value is its own.** -/
theorem floorIndex_scaled (b : Nat) : floorIndex (scaled b) = b := by
  rcases index_cases b with h | ⟨k, r, hr, rfl⟩
  · rw [scaled_of_lt h, floorIndex, if_pos (by omega)]
  · rw [scaled_binade k hr]
    cases k with
    | zero =>
      have hone : twoTo 0 = 1 := rfl
      rw [floorIndex, hone, if_pos (by omega)]
      omega
    | succ k =>
      have htwo : 2 ≤ twoTo (k + 1) := by
        have := twoTo_pos k
        rw [twoTo_add]
        exact Nat.le_mul_of_pos_left 2 this
      have hlarge : ¬ (binade + r) * twoTo (k + 1) < 2 * binade := by
        have := Nat.mul_le_mul (Nat.le_add_right binade r) htwo
        omega
      rw [floorIndex, if_neg hlarge, log2_mantissa _ hr, Nat.add_sub_cancel_left, Nat.mul_div_cancel _ (twoTo_pos _)]
      ring

/-- **The values ascend with the indices.** -/
theorem scaled_lt_succ (b : Nat) : scaled b < scaled (b + 1) := by
  have hpos : 0 < binade := by decide
  rcases index_cases b with h | ⟨k, r, hr, rfl⟩
  · rw [scaled_of_lt h]
    rcases Nat.lt_or_ge (b + 1) binade with h' | h'
    · rw [scaled_of_lt h']
      exact Nat.lt_succ_self b
    · have hfirst := scaled_binade 0 hpos
      obtain rfl : b = binade - 1 := by omega
      rw [Nat.sub_add_cancel hpos]
      simp only [Nat.zero_add, Nat.one_mul, Nat.add_zero] at hfirst
      rw [hfirst]
      decide
  · rw [scaled_binade k hr]
    rcases Nat.lt_or_ge (r + 1) binade with h' | h'
    · rw [Nat.add_assoc, scaled_binade k h']
      exact Nat.mul_lt_mul_of_pos_right (by omega) (twoTo_pos k)
    · -- the next value begins a binade
      have hnext : (k + 1) * binade + r + 1 = (k + 1 + 1) * binade + 0 := by
        rw [Nat.succ_mul (k + 1)]
        omega
      rw [hnext, scaled_binade (k + 1) hpos, Nat.add_zero]
      calc (binade + r) * twoTo k < (binade * 2) * twoTo k := Nat.mul_lt_mul_of_pos_right (by omega) (twoTo_pos k)
        _ = binade * twoTo (k + 1) := by rw [twoTo_eq, twoTo_eq]; ring

/-! ## Rounding -/

/-- **Rounding a value gives its index.** -/
theorem nearest_exact {b num den : Nat} (hb : b ≤ infinity) (hden : 0 < den) (h : num * unitScale = scaled b * den) :
    nearest num den = b := by
  have hfloor : floorIndex (num * unitScale / den) = b := by rw [h, Nat.mul_div_cancel _ hden, floorIndex_scaled]
  have hbelow : 2 * (num * unitScale) < (scaled b + scaled (b + 1)) * den := by
    calc 2 * (num * unitScale) = (scaled b + scaled b) * den := by rw [h]; ring
      _ < (scaled b + scaled (b + 1)) * den :=
        Nat.mul_lt_mul_of_pos_right (Nat.add_lt_add_left (scaled_lt_succ b) _) hden
  simp only [nearest, hfloor]
  rw [if_pos (.inl hbelow), Nat.min_eq_left hb]

theorem nearest_zero {den : Nat} (hden : 0 < den) : nearest 0 den = 0 :=
  nearest_exact (by decide) hden (by rw [Nat.zero_mul, scaled_of_lt (by decide), Nat.zero_mul])

theorem nearest_mul (num den : Nat) {k : Nat} (hk : 0 < k) : nearest (num * k) (den * k) = nearest num den := by
  have hnum : num * k * unitScale = num * unitScale * k := Nat.mul_right_comm _ _ _
  have hfloor : num * k * unitScale / (den * k) = num * unitScale / den := by
    rw [hnum, Nat.mul_div_mul_right _ _ hk]
  have htwice : 2 * (num * k * unitScale) = 2 * (num * unitScale) * k := by ring
  have hlt : ∀ m, 2 * (num * k * unitScale) < m * (den * k) ↔ 2 * (num * unitScale) < m * den := fun m => by
    rw [htwice, ← Nat.mul_assoc m, Nat.mul_lt_mul_right hk]
  have heq : ∀ m, 2 * (num * k * unitScale) = m * (den * k) ↔ 2 * (num * unitScale) = m * den := fun m => by
    rw [htwice, ← Nat.mul_assoc m, Nat.mul_left_inj (Nat.ne_of_gt hk)]
  simp only [nearest, hfloor, hlt, heq]

/-- **Rounding sees the fraction, not its terms.** -/
theorem nearest_congr {num den num' den' : Nat} (hden : 0 < den) (hden' : 0 < den') (h : num * den' = num' * den) :
    nearest num den = nearest num' den' := by
  rw [← nearest_mul num den hden', ← nearest_mul num' den' hden, h, Nat.mul_comm den den']

/-- What is less than half of the smallest value is rounded to zero. -/
theorem nearest_of_small {num den : Nat} (h : 2 * (num * unitScale) < den) : nearest num den = 0 := by
  have hfloor : floorIndex (num * unitScale / den) = 0 := by rw [Nat.div_eq_of_lt (by omega)]; rfl
  have hfirst : scaled 0 + scaled (0 + 1) = 1 := by decide
  simp only [nearest, hfloor]
  rw [hfirst, Nat.one_mul, if_pos (.inl h), Nat.zero_min]

theorem infinity_le_floorIndex {n k : Nat} (hk : 1024 + 1074 ≤ k) (h : twoTo k ≤ n) : infinity ≤ floorIndex n := by
  have hne : n ≠ 0 := Nat.ne_of_gt (Nat.lt_of_lt_of_le (twoTo_pos _) h)
  rw [twoTo_eq] at h
  have hlog : k ≤ n.log2 := (Nat.le_log2 hne).2 h
  have hbinade : binade = 2 ^ 52 := by decide
  have hlarge : ¬ n < 2 * binade := by
    intro hlt
    have hsmall : n.log2 < 53 := (Nat.log2_lt hne).2 (by rw [hbinade] at hlt; omega)
    omega
  have hmantissa : binade ≤ n / twoTo (n.log2 - 52) := by
    rw [Nat.le_div_iff_mul_le (twoTo_pos _), hbinade, twoTo_eq, ← Nat.pow_add, Nat.add_sub_cancel' (by omega)]
    exact Nat.log2_self_le hne
  rw [floorIndex, if_neg hlarge]
  calc infinity = 2046 * binade + binade := by decide
    _ ≤ (n.log2 - 52) * binade + n / twoTo (n.log2 - 52) :=
      Nat.add_le_add (Nat.mul_le_mul_right _ (by omega)) hmantissa

/-- What is beyond all values is rounded to infinity. -/
theorem nearest_of_large {num den : Nat} (hden : 0 < den) (h : den * twoTo 1024 ≤ num) :
    nearest num den = infinity := by
  have hfloor : infinity ≤ floorIndex (num * unitScale / den) := by
    refine infinity_le_floorIndex (Nat.le_refl _) ((Nat.le_div_iff_mul_le hden).2 ?_)
    rw [twoTo_add, Nat.mul_right_comm, Nat.mul_comm (twoTo 1024)]
    exact Nat.mul_le_mul_right _ h
  simp only [nearest]
  split
  · exact Nat.min_eq_right hfloor
  · exact Nat.min_eq_right (Nat.le_succ_of_le hfloor)

end Binary64

/-! ## Decimal fractions -/

/-- The index of the number nearest to a decimal fraction. -/
def Decimal.index (d : Decimal) : Nat :=
  Binary64.nearest (d.digits * tenTo d.exponent.toNat) (tenTo (-d.exponent).toNat)

/-- A multiple of a power of ten, in units of another. -/
theorem Decimal.index_of_unit (m j k : Nat) :
    (⟨m, (j : Int) - (k : Int)⟩ : Decimal).index = Binary64.nearest (m * tenTo j) (tenTo k) := by
  refine Binary64.nearest_congr (tenTo_pos _) (tenTo_pos _) ?_
  have hexponents : ((j : Int) - (k : Int)).toNat + k = j + (-((j : Int) - (k : Int))).toNat := by omega
  rw [Nat.mul_assoc, ← tenTo_add, hexponents, tenTo_add, Nat.mul_assoc]

/-- **Zeros may move from the digits to the exponent.** -/
theorem Decimal.index_shift (m k : Nat) (e : Int) :
    (⟨m * tenTo k, e⟩ : Decimal).index = (⟨m, e + k⟩ : Decimal).index := by
  refine Binary64.nearest_congr (tenTo_pos _) (tenTo_pos _) ?_
  have hexponents : k + (e.toNat + (-(e + k)).toNat) = (e + k).toNat + (-e).toNat := by omega
  calc m * tenTo k * tenTo e.toNat * tenTo (-(e + k)).toNat
      = m * tenTo (k + (e.toNat + (-(e + k)).toNat)) := by rw [tenTo_add, tenTo_add]; ring
    _ = m * tenTo (e + k).toNat * tenTo (-e).toNat := by rw [hexponents, tenTo_add]; ring

theorem Decimal.index_of_zero (e : Int) : (⟨0, e⟩ : Decimal).index = 0 := by
  rw [Decimal.index, Nat.zero_mul, Binary64.nearest_zero (tenTo_pos _)]

namespace Numeral

theorem foldl_digits : ∀ (ds : List Nat) (n : Nat),
    ds.foldl (fun n d => 10 * n + d) n = n * tenTo ds.length + valueOf ds
  | [], n => by simp [valueOf, tenTo]
  | d :: ds, n => by
    have hvalue : valueOf (d :: ds) = ds.foldl (fun n d => 10 * n + d) (10 * 0 + d) := rfl
    rw [List.foldl_cons, foldl_digits ds, hvalue, foldl_digits ds, List.length_cons, tenTo_add]
    have hten : tenTo 1 = 10 := rfl
    rw [hten]
    ring

theorem valueOf_cons (d : Nat) (ds : List Nat) : valueOf (d :: ds) = d * tenTo ds.length + valueOf ds := by
  have hvalue : valueOf (d :: ds) = ds.foldl (fun n d => 10 * n + d) (10 * 0 + d) := rfl
  rw [hvalue, foldl_digits, Nat.mul_zero, Nat.zero_add]

theorem valueOf_lt : ∀ {ds : List Nat}, (∀ d ∈ ds, d < 10) → valueOf ds < tenTo ds.length
  | [], _ => by decide
  | d :: ds, h => by
    obtain ⟨hd, hds⟩ := List.forall_mem_cons.1 h
    have hrest := valueOf_lt hds
    have hmul : (d + 1) * tenTo ds.length ≤ 10 * tenTo ds.length := Nat.mul_le_mul_right _ hd
    have hten : tenTo (ds.length + 1) = 10 * tenTo ds.length := by rw [tenTo_add, Nat.mul_comm]; rfl
    rw [valueOf_cons, List.length_cons, hten]
    rw [Nat.succ_mul] at hmul
    omega

/-- **A numeral has the index of its decimal fraction.**  Where the exponent is not expanded the fraction is too small
or too large for all numbers. -/
theorem index_eq (n : Numeral) (hdigits : ∀ d ∈ n.digits, d < 10) :
    n.index = (⟨valueOf n.digits, n.exponent⟩ : Decimal).index := by
  rw [Numeral.index, Decimal.index]
  simp only
  split
  · rename_i hsmall
    rcases hsmall with hzero | hexponent
    · rw [hzero, Nat.zero_mul, Binary64.nearest_zero (tenTo_pos _)]
    · refine (Binary64.nearest_of_small ?_).symm
      have htoNat : n.exponent.toNat = 0 := by omega
      have hlength : n.digits.length + 400 ≤ (-n.exponent).toNat := by omega
      have hscale : 2 * Binary64.unitScale < tenTo 400 := by decide +kernel
      have hone : tenTo 0 = 1 := rfl
      rw [htoNat, hone, Nat.mul_one]
      calc 2 * (valueOf n.digits * Binary64.unitScale) = valueOf n.digits * (2 * Binary64.unitScale) := by ring
        _ ≤ tenTo n.digits.length * (2 * Binary64.unitScale) :=
          Nat.mul_le_mul_right _ (Nat.le_of_lt (valueOf_lt hdigits))
        _ < tenTo n.digits.length * tenTo 400 := Nat.mul_lt_mul_of_pos_left hscale (tenTo_pos _)
        _ = tenTo (n.digits.length + 400) := (tenTo_add _ _).symm
        _ ≤ tenTo (-n.exponent).toNat := tenTo_le hlength
  · rename_i hsmall
    split
    · refine (Binary64.nearest_of_large (tenTo_pos _) ?_).symm
      have hvalue : 1 ≤ valueOf n.digits := by omega
      have htoNat : (-n.exponent).toNat = 0 := by omega
      have hexponent : 400 ≤ n.exponent.toNat := by omega
      have hscale : twoTo 1024 ≤ tenTo 400 := by decide +kernel
      have hone : tenTo 0 = 1 := rfl
      rw [htoNat, hone, Nat.one_mul]
      calc twoTo 1024 ≤ tenTo 400 := hscale
        _ ≤ tenTo n.exponent.toNat := tenTo_le hexponent
        _ ≤ valueOf n.digits * tenTo n.exponent.toNat := Nat.le_mul_of_pos_left _ hvalue
    · rfl

end Numeral

/-! ## The fewest digits -/

namespace Binary64

theorem onGrid?_readsBack {b unit m : Nat} (h : onGrid? b unit = some m) : readsBack b m unit = true := by
  unfold onGrid? at h
  exact List.find?_some (p := (readsBack b · unit)) h

/-- **The fewest digits of a number read back as the number.** -/
theorem shortest_index {b : Nat} (hb : b ≤ infinity) : (shortest b).index = b := by
  simp only [shortest]
  generalize hgrid : (List.range 17).findSome? _ = found
  cases found with
  | none =>
    have hexact : expanded b * tenTo 0 * unitScale = scaled b * tenTo 1074 := by
      have hone : tenTo 0 = 1 := rfl
      rw [expanded, hone, Nat.mul_one, tenTo_eq, Nat.mul_assoc, unitScale]
    exact (Decimal.index_of_unit (expanded b) 0 1074).trans (nearest_exact hb (tenTo_pos 1074) hexact)
  | some d =>
    obtain ⟨i, -, hi⟩ := List.exists_of_findSome?_eq_some hgrid
    obtain ⟨m, hm, rfl⟩ := Option.map_eq_some_iff.1 hi
    have hreads := onGrid?_readsBack hm
    rw [readsBack, beq_iff_eq] at hreads
    exact (Decimal.index_of_unit m _ 1074).trans hreads

theorem shortest_digits_pos {b : Nat} (hb : b ≤ infinity) (hne : b ≠ 0) : 0 < (shortest b).digits := by
  refine Nat.pos_of_ne_zero fun hzero => hne ?_
  have hindex := shortest_index hb
  generalize shortest b = d at hzero hindex
  obtain ⟨digits, exponent⟩ := d
  obtain rfl : digits = 0 := hzero
  rw [← hindex, Decimal.index_of_zero]

end Binary64

end Loot
