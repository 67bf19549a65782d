import Loot.Text.Utf8
/-!
# Files that hold text

The bytes of a text in UTF-8 are decoded to the text again, whatever its characters are (`decode_utf8`).  Once the ends
of lines are made newlines there is no return left (`return_not_mem_withNewlines`).
-/
namespace Loot

/-- The bytes of a file that holds the text. -/
def Text.utf8 (t : Text) : List Nat := (t.flatMap String.utf8EncodeChar).map UInt8.toNat

namespace Utf8

/-! ## One byte -/

variable {position code missing low high b : Nat} {done : Text} {seen bs : List Nat}

theorem decodeFrom_single (hb : b < 0x80) :
    decodeFrom position none done (b :: bs) = decodeFrom (position + 1) none (Char.ofNat b :: done) bs := by
  rw [decodeFrom, if_pos hb]

theorem decodeFrom_lead {p : Partial} (hb : 0x80 ≤ b) (hp : lead? b = some p) :
    decodeFrom position none done (b :: bs) = decodeFrom (position + 1) (some p) done bs := by
  rw [decodeFrom, if_neg (by omega), hp]

theorem decodeFrom_more (hb : low ≤ b ∧ b ≤ high) :
    decodeFrom position (some ⟨code, seen, missing + 2, low, high⟩) done (b :: bs) =
      decodeFrom (position + 1) (some ⟨code * 64 + b % 64, b :: seen, missing + 1, 0x80, 0xBF⟩) done bs := by
  rw [decodeFrom]
  simp only
  rw [if_pos hb, if_neg (by omega)]
  rfl

theorem decodeFrom_last (hb : low ≤ b ∧ b ≤ high) :
    decodeFrom position (some ⟨code, seen, 1, low, high⟩) done (b :: bs) =
      decodeFrom (position + 1) none (Char.ofNat (code * 64 + b % 64) :: done) bs := by
  rw [decodeFrom]
  simp only
  rw [if_pos hb, if_pos (Nat.le_refl 1)]

/-- The first of three bytes, and the range of the second: no character is written longer than it has to be, and none
is a surrogate. -/
theorem lead?_of_three {v : Nat} (hlow : 0x7FF < v) (hhigh : v ≤ 0xFFFF) (hvalid : v < 0xD800 ∨ 0xDFFF < v) :
    ∃ low high, lead? (v / 4096 + 0xE0) = some ⟨v / 4096, [v / 4096 + 0xE0], 2, low, high⟩ ∧
      low ≤ v / 64 % 64 + 0x80 ∧ v / 64 % 64 + 0x80 ≤ high := by
  have hcode : (v / 4096 + 0xE0) % 0x10 = v / 4096 := by omega
  unfold lead?
  rw [if_neg (by omega), if_neg (by omega), hcode]
  by_cases hfirst : v / 4096 + 0xE0 = 0xE0
  · exact ⟨0xA0, 0xBF, if_pos hfirst, by omega, by omega⟩
  rw [if_neg hfirst]
  by_cases hsurrogate : v / 4096 + 0xE0 = 0xED
  · exact ⟨0x80, 0x9F, if_pos hsurrogate, by omega, by omega⟩
  rw [if_neg hsurrogate]
  exact ⟨0x80, 0xBF, if_pos (by omega), by omega, by omega⟩

/-- The first of four bytes, and the range of the second. -/
theorem lead?_of_four {v : Nat} (hlow : 0xFFFF < v) (hhigh : v < 0x110000) :
    ∃ low high, lead? (v / 262144 + 0xF0) = some ⟨v / 262144, [v / 262144 + 0xF0], 3, low, high⟩ ∧
      low ≤ v / 4096 % 64 + 0x80 ∧ v / 4096 % 64 + 0x80 ≤ high := by
  have hcode : (v / 262144 + 0xF0) % 0x08 = v / 262144 := by omega
  unfold lead?
  rw [if_neg (by omega), if_neg (by omega), if_neg (by omega), if_neg (by omega), if_neg (by omega), hcode]
  by_cases hfirst : v / 262144 + 0xF0 = 0xF0
  · exact ⟨0x90, 0xBF, if_pos hfirst, by omega, by omega⟩
  rw [if_neg hfirst]
  by_cases hlast : v / 262144 + 0xF0 = 0xF4
  · exact ⟨0x80, 0x8F, by rw [if_neg (by omega), if_pos hlast], by omega, by omega⟩
  exact ⟨0x80, 0xBF, if_pos (by omega), by omega, by omega⟩

/-! ## One character -/

/-- The bytes of the character with the given code. -/
def charBytes (v : Nat) : List Nat :=
  if v ≤ 0x7F then [v]
  else if v ≤ 0x7FF then [v / 64 + 0xC0, v % 64 + 0x80]
  else if v ≤ 0xFFFF then [v / 4096 + 0xE0, v / 64 % 64 + 0x80, v % 64 + 0x80]
  else [v / 262144 + 0xF0, v / 4096 % 64 + 0x80, v / 64 % 64 + 0x80, v % 64 + 0x80]

/-- Each of the bytes fits into a byte. -/
theorem charBytes_eq (c : Char) : (String.utf8EncodeChar c).map UInt8.toNat = charBytes c.toNat := by
  have hvalid : c.toNat < 0xD800 ∨ 0xDFFF < c.toNat ∧ c.toNat < 0x110000 := c.valid
  have hbyte : ∀ {m n : Nat}, m = n → n < 256 → (UInt8.ofNat m).toNat = n := by
    intro m n hmn hn
    rw [hmn, UInt8.toNat_ofNat', Nat.mod_eq_of_lt hn]
  have hcode : c.val.toNat = c.toNat := rfl
  unfold String.utf8EncodeChar charBytes
  simp only [hcode]
  split
  · rw [List.map_cons, hbyte rfl (by omega), List.map_nil]
  split
  · rw [List.map_cons, List.map_cons, hbyte (n := c.toNat / 64 + 0xC0) (by omega) (by omega), hbyte rfl (by omega),
      List.map_nil]
  split
  · rw [List.map_cons, List.map_cons, List.map_cons, hbyte (n := c.toNat / 4096 + 0xE0) (by omega) (by omega),
      hbyte rfl (by omega), hbyte rfl (by omega), List.map_nil]
  · rw [List.map_cons, List.map_cons, List.map_cons, List.map_cons,
      hbyte (n := c.toNat / 262144 + 0xF0) (by omega) (by omega), hbyte rfl (by omega), hbyte rfl (by omega),
      hbyte rfl (by omega), List.map_nil]

/-- **The bytes of a character are decoded to it.** -/
theorem decodeFrom_char (position : Nat) (done : Text) (c : Char) (bs : List Nat) : ∃ position',
    decodeFrom position none done (charBytes c.toNat ++ bs) = decodeFrom position' none (c :: done) bs := by
  have hvalid : c.toNat < 0xD800 ∨ 0xDFFF < c.toNat ∧ c.toNat < 0x110000 := c.valid
  have hchar : ∀ {n}, n = c.toNat → Char.ofNat n = c := fun hn => hn ▸ Char.ofNat_toNat c
  unfold charBytes
  split
  · refine ⟨position + 1, ?_⟩
    rw [List.singleton_append, decodeFrom_single (by omega), hchar rfl]
  split
  · have hlead : lead? (c.toNat / 64 + 0xC0) = some ⟨c.toNat / 64, [c.toNat / 64 + 0xC0], 1, 0x80, 0xBF⟩ := by
      rw [lead?, if_neg (by omega), if_pos (by omega), show (c.toNat / 64 + 0xC0) % 0x20 = c.toNat / 64 by omega]
    refine ⟨position + 1 + 1, ?_⟩
    rw [List.cons_append, List.singleton_append, decodeFrom_lead (by omega) hlead,
      decodeFrom_last (by omega), hchar (by omega)]
  split
  · obtain ⟨low, high, hlead, hb⟩ := lead?_of_three (v := c.toNat) (by omega) (by omega) (by omega)
    refine ⟨position + 1 + 1 + 1, ?_⟩
    rw [List.cons_append, List.cons_append, List.singleton_append, decodeFrom_lead (by omega) hlead,
      decodeFrom_more hb, decodeFrom_last (by omega), hchar (by omega)]
  · obtain ⟨low, high, hlead, hb⟩ := lead?_of_four (v := c.toNat) (by omega) (by omega)
    refine ⟨position + 1 + 1 + 1 + 1, ?_⟩
    rw [List.cons_append, List.cons_append, List.cons_append, List.singleton_append, decodeFrom_lead (by omega) hlead,
      decodeFrom_more hb, decodeFrom_more (by omega), decodeFrom_last (by omega), hchar (by omega)]

theorem decodeFrom_utf8 : ∀ (t : Text) (position : Nat) (done : Text),
    decodeFrom position none done t.utf8 = .ok (done.reverse ++ t)
  | [], position, done => by
    rw [List.append_nil]
    rfl
  | c :: cs, position, done => by
    obtain ⟨position', hchar⟩ := decodeFrom_char position done c (Text.utf8 cs)
    rw [Text.utf8, List.flatMap_cons, List.map_append, ← Text.utf8, charBytes_eq, hchar, decodeFrom_utf8 cs,
      List.reverse_cons, List.append_assoc, List.singleton_append]

/-- **A file that holds a text is decoded to it.** -/
theorem decode_utf8 (t : Text) : decode t.utf8 = .ok t := decodeFrom_utf8 t 0 []

end Utf8

/-! ## Ends of lines -/

theorem return_not_mem_newlinesFrom (done t : Text) (h : '\r' ∉ done) : '\r' ∉ Text.newlinesFrom done t := by
  fun_induction Text.newlinesFrom done t with
  | case1 done => simpa using h
  | case2 done cs ih => exact ih (List.not_mem_cons_of_ne_of_not_mem (by decide) h)
  | case3 done cs _ ih => exact ih (List.not_mem_cons_of_ne_of_not_mem (by decide) h)
  | case4 done c cs _ hreturn ih =>
    exact ih (List.not_mem_cons_of_ne_of_not_mem (fun hc => hreturn hc.symm) h)

theorem return_not_mem_withNewlines (t : Text) : '\r' ∉ t.withNewlines :=
  return_not_mem_newlinesFrom [] t (by simp)

end Loot
