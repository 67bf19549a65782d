import Loot.Number.Numeral
/-!
# How numerals are written

The texts of a numeral, said without the reader: a sign or none, digits with a point among or around them or without
one, and an exponent or none (`Numeral.WrittenAs`).  The reader takes each part as far as it goes and never goes back.
It reads a numeral from exactly the texts that the numeral is written as (`Numeral.ofText?_eq_some_iff`).
-/
namespace Loot

namespace Numeral

/-! ## The grammar -/

/-- Is the character a decimal digit, of any script? -/
def isDecimal (c : Char) : Bool := (digitValue? c).isSome

/-- The text is made of decimal digits.  It may be empty. -/
def AreDigits (t : Text) : Prop := ∀ c ∈ t, isDecimal c = true

def digitValues (t : Text) : List Nat := t.filterMap digitValue?

/-- The signs, and whether they are negative. -/
inductive WrittenSign : Bool → Text → Prop
  | without : WrittenSign false []
  | plus : WrittenSign false ['+']
  | minus : WrittenSign true ['-']

/-- Digits with a point or without, given by their values and by how many of them stand after the point. -/
inductive WrittenDigits : List Nat → Nat → Text → Prop
  | whole {ds : Text} : ds ≠ [] → AreDigits ds → WrittenDigits (digitValues ds) 0 ds
  | point {ds es : Text} : ds ≠ [] → AreDigits ds → AreDigits es →
      WrittenDigits (digitValues ds ++ digitValues es) es.length (ds ++ '.' :: es)
  | fraction {es : Text} : es ≠ [] → AreDigits es → WrittenDigits (digitValues es) es.length ('.' :: es)

/-- The exponents.  No exponent is the exponent 0. -/
inductive WrittenExponent : Int → Text → Prop
  | without : WrittenExponent 0 []
  | marked {mark : Char} {negative : Bool} {sign ds : Text} : mark = 'e' ∨ mark = 'E' → WrittenSign negative sign →
      ds ≠ [] → AreDigits ds →
      WrittenExponent (if negative then -(valueOf (digitValues ds) : Int) else valueOf (digitValues ds))
        (mark :: (sign ++ ds))

/-- **The texts that a numeral is written as.** -/
inductive WrittenAs : Numeral → Text → Prop
  | mk {negative : Bool} {digits : List Nat} {places : Nat} {exponent : Int} {sign body tail : Text} :
      WrittenSign negative sign → WrittenDigits digits places body → WrittenExponent exponent tail →
      WrittenAs ⟨negative, digits, exponent - places⟩ (sign ++ (body ++ tail))

/-! ## Digits -/

theorem takeDigits_eq : ∀ t : Text, takeDigits t = (digitValues (t.takeWhile isDecimal), t.dropWhile isDecimal)
  | [] => rfl
  | c :: cs => by
    rw [takeDigits]
    cases hc : digitValue? c with
    | none =>
      have hdecimal : ¬ isDecimal c = true := by simp [isDecimal, hc]
      rw [List.takeWhile_cons_of_neg hdecimal, List.dropWhile_cons_of_neg hdecimal]
      rfl
    | some d =>
      have hdecimal : isDecimal c = true := by simp [isDecimal, hc]
      rw [List.takeWhile_cons_of_pos hdecimal, List.dropWhile_cons_of_pos hdecimal, takeDigits_eq cs, digitValues,
        digitValues, List.filterMap_cons_some hc]

theorem areDigits_takeWhile (t : Text) : AreDigits (t.takeWhile isDecimal) := List.all_eq_true.1 List.all_takeWhile

/-- The text does not go on with a decimal digit. -/
def NoDigitNext (t : Text) : Prop := ∀ c, t.head? = some c → isDecimal c = false

theorem takeDigits_append {ds : Text} (hds : AreDigits ds) {rest : Text} (hrest : NoDigitNext rest) :
    takeDigits (ds ++ rest) = (digitValues ds, rest) := by
  have hstop : rest.takeWhile isDecimal = [] ∧ rest.dropWhile isDecimal = rest := by
    cases rest with
    | nil => exact ⟨rfl, rfl⟩
    | cons c rest =>
      have hc : ¬ isDecimal c = true := by rw [hrest c rfl]; decide
      exact ⟨List.takeWhile_cons_of_neg hc, List.dropWhile_cons_of_neg hc⟩
  rw [takeDigits_eq, List.takeWhile_append_of_pos hds, List.dropWhile_append_of_pos hds, hstop.1, hstop.2,
    List.append_nil]

theorem length_digitValues : ∀ {ds : Text}, AreDigits ds → (digitValues ds).length = ds.length
  | [], _ => rfl
  | c :: ds, h => by
    obtain ⟨hc, hds⟩ := List.forall_mem_cons.1 h
    obtain ⟨d, hd⟩ := Option.isSome_iff_exists.1 hc
    rw [digitValues, List.filterMap_cons_some hd, List.length_cons, List.length_cons, ← length_digitValues hds]
    rfl

theorem digitValues_ne_nil {ds : Text} (hne : ds ≠ []) (h : AreDigits ds) : digitValues ds ≠ [] := by
  rw [← List.length_pos_iff, length_digitValues h, List.length_pos_iff]
  exact hne

/-! ## The reader finds what was written -/

theorem isDecimal_false_of_mem {c : Char} (h : c ∈ ['+', '-', '.', 'e', 'E']) : isDecimal c = false := by
  simp only [List.mem_cons, List.not_mem_nil, or_false] at h
  rcases h with rfl | rfl | rfl | rfl | rfl <;> decide

theorem WrittenExponent.noDigitNext {e : Int} {t : Text} (h : WrittenExponent e t) : NoDigitNext t := by
  intro c hc
  cases h with
  | without => cases hc
  | marked hmark _ _ _ =>
    cases hc
    rcases hmark with rfl | rfl <;> exact isDecimal_false_of_mem (by decide)

/-- What an exponent or an empty text begins with is no point. -/
theorem WrittenExponent.takeFraction_eq {e : Int} {t : Text} (h : WrittenExponent e t) : takeFraction t = ([], t) := by
  cases h with
  | without => rfl
  | marked hmark _ _ _ => rcases hmark with rfl | rfl <;> rfl

/-- The text begins with no sign. -/
def NoSignNext (t : Text) : Prop := ∀ c, t.head? = some c → c ≠ '+' ∧ c ≠ '-'

theorem noSignNext_of_digits {ds : Text} (hne : ds ≠ []) (h : AreDigits ds) (rest : Text) :
    NoSignNext (ds ++ rest) := by
  intro c hc
  cases ds with
  | nil => exact absurd rfl hne
  | cons d ds =>
    cases hc
    have hd := h c List.mem_cons_self
    refine ⟨?_, ?_⟩ <;>
    · rintro rfl
      exact absurd hd (by decide)

theorem takeSign_append {negative : Bool} {sign : Text} (h : WrittenSign negative sign) {rest : Text}
    (hrest : NoSignNext rest) : takeSign (sign ++ rest) = (negative, rest) := by
  cases h with
  | plus => rfl
  | minus => rfl
  | without =>
    rw [List.nil_append]
    unfold takeSign
    split
    · exact absurd rfl (hrest '-' rfl).2
    · exact absurd rfl (hrest '+' rfl).1
    · rfl

theorem WrittenExponent.exponent?_eq {e : Int} {t : Text} (h : WrittenExponent e t) : exponent? t = some e := by
  cases h with
  | without => rfl
  | @marked mark negative sign ds hmark hsign hne hds =>
    have htake : takeDigits ds = (digitValues ds, []) := by
      have hstop : NoDigitNext [] := fun _ h => nomatch h
      have happend := takeDigits_append hds hstop
      rwa [List.append_nil] at happend
    have hsigned : takeSign (sign ++ ds) = (negative, ds) := by
      have happend := takeSign_append hsign (noSignNext_of_digits hne hds [])
      rwa [List.append_nil] at happend
    obtain ⟨v, vs, hvs⟩ := List.exists_cons_of_ne_nil (digitValues_ne_nil hne hds)
    rw [exponent?, if_pos hmark]
    simp only [hsigned, htake, hvs]

theorem WrittenDigits.noSignNext {digits : List Nat} {places : Nat} {body : Text} (h : WrittenDigits digits places body)
    (rest : Text) : NoSignNext (body ++ rest) := by
  cases h with
  | whole hne hds => exact noSignNext_of_digits hne hds rest
  | point hne hds _ =>
    rw [List.append_assoc]
    exact noSignNext_of_digits hne hds _
  | fraction _ _ =>
    intro c hc
    cases hc
    decide

/-- Reading a numeral part by part. -/
theorem ofText?_parts {t afterSign afterWhole tail : Text} {negative : Bool} {whole fraction : List Nat}
    (hsign : takeSign t = (negative, afterSign)) (hwhole : takeDigits afterSign = (whole, afterWhole))
    (hfraction : takeFraction afterWhole = (fraction, tail)) :
    ofText? t = if whole ++ fraction = [] then none else
      (exponent? tail).map fun e => ⟨negative, whole ++ fraction, e - fraction.length⟩ := by
  unfold ofText?
  simp only [hsign, hwhole, hfraction]
  cases whole ++ fraction with
  | nil => rfl
  | cons v vs => rw [if_neg (List.cons_ne_nil v vs)]

theorem ofText?_of_writtenAs {n : Numeral} {t : Text} (h : WrittenAs n t) : ofText? t = some n := by
  obtain ⟨hsign, hdigits, hexponent⟩ := h
  rename_i negative digits places exponent sign body tail
  have hsigned := takeSign_append hsign (hdigits.noSignNext tail)
  have hpoint : ∀ es, NoDigitNext ('.' :: es ++ tail) := by
    intro es c hc
    cases hc
    exact isDecimal_false_of_mem (by decide)
  have hfraction : ∀ {es}, AreDigits es → takeFraction ('.' :: es ++ tail) = (digitValues es, tail) :=
    fun hes => takeDigits_append hes hexponent.noDigitNext
  cases hdigits with
  | whole hne hds =>
    rw [ofText?_parts hsigned (takeDigits_append hds hexponent.noDigitNext) hexponent.takeFraction_eq,
      List.append_nil, if_neg (digitValues_ne_nil hne hds), hexponent.exponent?_eq]
    rfl
  | @point ds es hne hds hes =>
    rw [List.append_assoc] at hsigned ⊢
    rw [ofText?_parts hsigned (takeDigits_append hds (hpoint es)) (hfraction hes),
      if_neg (List.append_ne_nil_of_left_ne_nil (digitValues_ne_nil hne hds) _), hexponent.exponent?_eq,
      length_digitValues hes]
    rfl
  | @fraction es hne hes =>
    have hempty : AreDigits [] := fun _ h => nomatch h
    have hnone : takeDigits ('.' :: es ++ tail) = ([], '.' :: es ++ tail) := takeDigits_append hempty (hpoint es)
    rw [ofText?_parts hsigned hnone (hfraction hes), List.nil_append, if_neg (digitValues_ne_nil hne hes),
      hexponent.exponent?_eq, length_digitValues hes]
    rfl

/-! ## What the reader finds was written -/

theorem takeSign_cases (t : Text) : ∃ sign, t = sign ++ (takeSign t).2 ∧ WrittenSign (takeSign t).1 sign := by
  unfold takeSign
  split
  · exact ⟨['-'], rfl, .minus⟩
  · exact ⟨['+'], rfl, .plus⟩
  · exact ⟨[], rfl, .without⟩

theorem writtenExponent_of_exponent? {t : Text} {e : Int} (h : exponent? t = some e) : WrittenExponent e t := by
  cases t with
  | nil =>
    cases h
    exact .without
  | cons mark cs =>
    rw [exponent?] at h
    split at h
    · rename_i hmark
      obtain ⟨sign, hcs, hsign⟩ := takeSign_cases cs
      generalize takeSign cs = signed at h hcs hsign
      obtain ⟨negative, ds⟩ := signed
      subst hcs
      simp only [takeDigits_eq] at h
      split at h
      · cases h
      · rename_i hvalues
        cases h
        rw [Prod.mk.injEq] at hvalues
        obtain ⟨rfl, hall⟩ := hvalues
        have hds : ds.takeWhile isDecimal = ds := by
          have happend := List.takeWhile_append_dropWhile (p := isDecimal) (l := ds)
          rwa [hall, List.append_nil] at happend
        have hdigits := areDigits_takeWhile ds
        rw [hds] at hdigits ⊢
        refine .marked hmark hsign ?_ hdigits
        rintro rfl
        simp_all [digitValues]
      · cases h
    · cases h

/-- The digits at the start of a text and a point after them with more digits, or what else there is. -/
theorem writtenDigits_cases (t : Text) {whole fraction : List Nat} {afterWhole tail : Text}
    (hwhole : takeDigits t = (whole, afterWhole)) (hfraction : takeFraction afterWhole = (fraction, tail))
    (hne : whole ++ fraction ≠ []) :
    ∃ body, t = body ++ tail ∧ WrittenDigits (whole ++ fraction) fraction.length body := by
  rw [takeDigits_eq, Prod.mk.injEq] at hwhole
  obtain ⟨rfl, rfl⟩ := hwhole
  have hsplit := List.takeWhile_append_dropWhile (p := isDecimal) (l := t)
  have hds := areDigits_takeWhile t
  generalize t.takeWhile isDecimal = ds at hsplit hds hne ⊢
  generalize t.dropWhile isDecimal = rest at hsplit hfraction
  unfold takeFraction at hfraction
  split at hfraction
  · rename_i cs
    rw [takeDigits_eq, Prod.mk.injEq] at hfraction
    obtain ⟨rfl, rfl⟩ := hfraction
    have hes := areDigits_takeWhile cs
    have hlength := length_digitValues hes
    refine ⟨ds ++ '.' :: cs.takeWhile isDecimal, ?_, ?_⟩
    · rw [← hsplit, List.append_assoc, List.cons_append, List.takeWhile_append_dropWhile]
    · rw [hlength]
      by_cases hnil : ds = []
      · subst hnil
        refine .fraction ?_ hes
        intro hempty
        rw [hempty] at hne
        exact hne rfl
      · exact .point hnil hds hes
  · cases hfraction
    rw [List.append_nil] at hne ⊢
    refine ⟨ds, hsplit.symm, .whole ?_ hds⟩
    rintro rfl
    exact hne rfl

theorem writtenAs_of_ofText? {t : Text} {n : Numeral} (h : ofText? t = some n) : WrittenAs n t := by
  obtain ⟨sign, hsplit, hsign⟩ := takeSign_cases t
  generalize hsigned : takeSign t = signed at hsplit hsign
  obtain ⟨negative, rest⟩ := signed
  generalize hwhole : takeDigits rest = taken
  obtain ⟨whole, afterWhole⟩ := taken
  generalize hfraction : takeFraction afterWhole = taken
  obtain ⟨fraction, tail⟩ := taken
  rw [ofText?_parts hsigned hwhole hfraction] at h
  split at h
  · cases h
  · rename_i hne
    obtain ⟨e, he, rfl⟩ := Option.map_eq_some_iff.1 h
    obtain ⟨body, hbody, hdigits⟩ := writtenDigits_cases rest hwhole hfraction hne
    rw [hsplit, hbody]
    exact .mk hsign hdigits (writtenExponent_of_exponent? he)

/-- **A numeral is read from exactly the texts that it is written as.** -/
theorem ofText?_eq_some_iff (t : Text) (n : Numeral) : ofText? t = some n ↔ WrittenAs n t :=
  ⟨writtenAs_of_ofText?, ofText?_of_writtenAs⟩

end Numeral

end Loot
