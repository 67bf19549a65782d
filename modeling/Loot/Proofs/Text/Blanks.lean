import Loot.Text.Basic
import Mathlib.Data.List.Basic
/-!
# Blanks around a text

Stripping takes the blanks off the two ends of a text and nothing else: the text is the blanks before, what is left,
and the blanks after (`Text.strip_parts`), and what is left has no blank at its ends.  A text without blanks at its
ends is what is left of it with any blanks around it (`Text.strip_of_ends`).
-/
namespace Loot

namespace Text

/-- The blanks that stripping takes off the front. -/
def blanksBefore (t : Text) : Text := t.takeWhile isBlank

/-- The blanks that stripping takes off the end. -/
def blanksAfter (t : Text) : Text := ((t.dropWhile isBlank).reverse.takeWhile isBlank).reverse

theorem strip_parts (t : Text) : t.blanksBefore ++ (t.strip ++ t.blanksAfter) = t := by
  have hback : t.strip ++ t.blanksAfter = t.dropWhile isBlank := by
    unfold strip blanksAfter
    rw [← List.reverse_append, List.takeWhile_append_dropWhile, List.reverse_reverse]
  rw [hback, blanksBefore, List.takeWhile_append_dropWhile]

theorem isBlank_of_mem_blanksBefore {t : Text} : ∀ c ∈ t.blanksBefore, isBlank c = true :=
  List.all_eq_true.1 List.all_takeWhile

theorem isBlank_of_mem_blanksAfter {t : Text} : ∀ c ∈ t.blanksAfter, isBlank c = true := by
  intro c hc
  exact List.all_eq_true.1 List.all_takeWhile c (List.mem_reverse.1 hc)

theorem getLast?_strip {t : Text} {c : Char} (h : t.strip.getLast? = some c) : isBlank c = false := by
  have hhead := List.head?_dropWhile_not isBlank (t.dropWhile isBlank).reverse
  unfold strip at h
  rw [List.getLast?_reverse] at h
  rwa [h] at hhead

theorem head?_strip {t : Text} {c : Char} (h : t.strip.head? = some c) : isBlank c = false := by
  have hhead := List.head?_dropWhile_not isBlank t
  have hdrop : t.dropWhile isBlank = t.strip ++ t.blanksAfter := by
    have hparts := strip_parts t
    conv at hparts => rhs; rw [← List.takeWhile_append_dropWhile (p := isBlank) (l := t)]
    exact (List.append_cancel_left hparts).symm
  rw [hdrop, List.head?_append, h] at hhead
  exact hhead

theorem blanksBefore_eq_nil {t : Text} (h : ∀ c, t.head? = some c → isBlank c = false) : t.blanksBefore = [] := by
  unfold blanksBefore
  cases t with
  | nil => rfl
  | cons c cs => exact List.takeWhile_cons_of_neg (by rw [h c rfl]; decide)

/-- A text that begins with no blank begins alike when it is stripped. -/
theorem head?_strip_of_head? {t : Text} {c : Char} (h : t.head? = some c) (hc : isBlank c = false) :
    t.strip.head? = some c := by
  have hparts := strip_parts t
  rw [blanksBefore_eq_nil (fun d hd => by rw [h] at hd; cases hd; exact hc), List.nil_append] at hparts
  cases hstrip : t.strip with
  | nil =>
    rw [hstrip, List.nil_append] at hparts
    have hblank := isBlank_of_mem_blanksAfter (t := t) c (by rw [hparts]; exact List.mem_of_head? h)
    rw [hblank] at hc
    cases hc
  | cons d ds =>
    rw [hstrip] at hparts
    rw [← hparts] at h
    exact h

theorem dropWhile_isBlank {t : Text} (h : ∀ c, t.head? = some c → isBlank c = false) : t.dropWhile isBlank = t := by
  cases t with
  | nil => rfl
  | cons c cs => exact List.dropWhile_cons_of_neg (by rw [h c rfl]; decide)

/-- **What has no blank at its ends is what is left of it with blanks around it.** -/
theorem strip_of_ends (before : Text) {core : Text} (after : Text)
    (hhead : ∀ c, core.head? = some c → isBlank c = false)
    (hlast : ∀ c, core.getLast? = some c → isBlank c = false) (hbefore : ∀ c ∈ before, isBlank c = true)
    (hafter : ∀ c ∈ after, isBlank c = true) : strip (before ++ (core ++ after)) = core := by
  unfold strip
  rw [List.dropWhile_append_of_pos hbefore]
  by_cases hcore : core = []
  · subst hcore
    have hnil : after.dropWhile isBlank = [] := by
      rw [← List.append_nil after, List.dropWhile_append_of_pos hafter]
      rfl
    rw [List.nil_append, hnil]
    rfl
  · have hfront : ∀ c, (core ++ after).head? = some c → isBlank c = false := by
      intro c hc
      rw [List.head?_append_of_ne_nil core hcore] at hc
      exact hhead c hc
    have hback : ∀ c, core.reverse.head? = some c → isBlank c = false := by
      intro c hc
      rw [List.head?_reverse] at hc
      exact hlast c hc
    rw [dropWhile_isBlank hfront, List.reverse_append, List.dropWhile_append_of_pos (by simpa using hafter),
      dropWhile_isBlank hback, List.reverse_reverse]

theorem strip_of_no_blanks {t : Text} (h : ∀ c ∈ t, isBlank c = false) : t.strip = t := by
  have hstrip := strip_of_ends [] [] (fun c hc => h c (List.mem_of_head? hc))
    (fun c hc => h c (List.mem_of_getLast? hc)) (fun _ h => nomatch h) (fun _ h => nomatch h)
  rwa [List.append_nil, List.nil_append] at hstrip

theorem strip_strip (t : Text) : t.strip.strip = t.strip := by
  have h := strip_of_ends [] [] (fun c => head?_strip (t := t)) (fun c => getLast?_strip) (fun _ h => nomatch h)
    (fun _ h => nomatch h)
  rwa [List.append_nil, List.nil_append] at h

theorem strip_eq_nil_iff (t : Text) : t.strip = [] ↔ ∀ c ∈ t, isBlank c = true := by
  constructor
  · intro h c hc
    have hparts := strip_parts t
    rw [h, List.nil_append] at hparts
    rw [← hparts, List.mem_append] at hc
    rcases hc with hc | hc
    · exact isBlank_of_mem_blanksBefore c hc
    · exact isBlank_of_mem_blanksAfter c hc
  · intro h
    have hstrip := @strip_of_ends t [] [] (by simp) (by simp) h (by simp)
    rwa [List.append_nil, List.append_nil] at hstrip

end Text

end Loot
