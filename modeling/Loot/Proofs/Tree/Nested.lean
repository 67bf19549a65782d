import Loot.Proofs.Token.Lines
import Loot.Proofs.Tree.Leaves
import Loot.Tree.Outline
/-!
# Nested lists

What an outline is made of, whatever it outlines: tokens, and lists in parentheses with some of their parts on the
line on which they begin and the others on lines of their own.  The text is not escaped in any way, but its tokens are
spelled as the scanner wants them, and after each stands a character that none of them grows by.  So the text says
what was written, whatever follows it (`Nested.writeOnto_inj`).
-/
namespace Loot

/-! ## Tokens at the front of a text -/

/-- **A text begins with one token only**: the scanner finds it. -/
theorem Spells.unique {kind kind' : Kind} {t t' rest rest' : Text} (h : Spells kind t) (hrest : kind.EndsBefore rest)
    (h' : Spells kind' t') (hrest' : kind'.EndsBefore rest') (heq : t ++ rest = t' ++ rest') :
    kind = kind' ∧ t = t' ∧ rest = rest' := by
  obtain ⟨c, cs, rfl, hnext⟩ := nextToken_complete h hrest
  obtain ⟨c', cs', rfl, hnext'⟩ := nextToken_complete h' hrest'
  simp only [List.cons_append, List.cons.injEq] at heq
  obtain ⟨rfl, heq⟩ := heq
  rw [heq, hnext', Except.ok.injEq, Prod.mk.injEq, List.cons.injEq] at hnext
  obtain ⟨rfl, -, rfl⟩ := hnext
  exact ⟨rfl, rfl, List.append_cancel_left heq⟩

/-- The text is at its end, or goes on with a character that stands after the parts of a list. -/
def Stops (t : Text) : Prop := ∀ c, t.head? = some c → c = ' ' ∨ c = ')' ∨ c = '\n'

theorem Stops.cons {c : Char} (h : c = ' ' ∨ c = ')' ∨ c = '\n') (t : Text) : Stops (c :: t) := by
  intro d hd
  cases hd
  exact h

/-- No token grows into a text that stops. -/
theorem Stops.endsBefore {t : Text} (h : Stops t) (kind : Kind) : kind.EndsBefore t := by
  intro c hc
  rcases h c hc with rfl | rfl | rfl
  · exact kind.growsBy_of_isBlank (by decide)
  · have hword : isAlphanumeric ')' = false := by decide
    have hdigit : isDigit ')' = false := by decide
    cases kind <;> simp [Kind.growsBy, hword, hdigit]
  · exact kind.growsBy_of_isBlank (by decide)

/-- What shows in a tree does not begin with a parenthesis or a newline, which do not show. -/
theorem Spells.append_ne {kind : Kind} {t rest : Text} (h : Spells kind t) (hshown : kind.isShown = true)
    (hrest : Stops rest) {c : Char} (hc : c = '(' ∨ c = ')' ∨ c = '\n') (s : Text) : t ++ rest ≠ c :: s := by
  have hsign : ∃ sign : Kind, sign.fixedText? = some [c] ∧ (∀ d, sign.growsBy d = false) ∧ sign.isShown = false := by
    rcases hc with rfl | rfl | rfl
    · exact ⟨.leftParen, rfl, fun _ => rfl, rfl⟩
    · exact ⟨.rightParen, rfl, fun _ => rfl, rfl⟩
    · exact ⟨.newline, rfl, fun _ => rfl, rfl⟩
  obtain ⟨sign, hfixed, hgrows, hsilent⟩ := hsign
  intro heq
  obtain ⟨rfl, -, -⟩ := h.unique (hrest.endsBefore kind) (.fixed hfixed) (fun d _ => hgrows d) heq
  cases hshown.symm.trans hsilent

/-! ## Writing -/

/-- A token, or a list with parts in its heading and parts below it. -/
inductive Nested where
  | leaf (token : Token)
  | list (heading below : List Nested)

mutual

/-- A nested list at the given depth, in front of the text that follows. -/
def Nested.writeOnto (depth : Nat) : Nested → Text → Text
  | .leaf token, rest => token.lexeme ++ rest
  | .list heading below, rest =>
    '(' :: Nested.headingOnto depth heading
      (Nested.eachOnto (outlineMargin (depth + 1)) (depth + 1) below (')' :: rest))

/-- The parts of a heading, with spaces between them. -/
def Nested.headingOnto (depth : Nat) : List Nested → Text → Text
  | [], rest => rest
  | n :: ns, rest => n.writeOnto depth (Nested.eachOnto [' '] depth ns rest)

/-- Parts with the same text in front of each. -/
def Nested.eachOnto (lead : Text) (depth : Nat) : List Nested → Text → Text
  | [], rest => rest
  | n :: ns, rest => lead ++ n.writeOnto depth (Nested.eachOnto lead depth ns rest)

end

mutual

/-- Every token in it shows in a tree, is spelled right and has no line. -/
def Nested.Legible : Nested → Prop
  | .leaf token => token.kind.isShown = true ∧ Spells token.kind token.lexeme ∧ token.line = none
  | .list heading below => Nested.AllLegible heading ∧ Nested.AllLegible below

def Nested.AllLegible : List Nested → Prop
  | [] => True
  | n :: ns => n.Legible ∧ Nested.AllLegible ns

end

/-! ## What follows a part -/

theorem Nested.stops_eachOnto {lead : Text} {c : Char} (hlead : lead.head? = some c) (hc : c = ' ' ∨ c = ')' ∨ c = '\n')
    (depth : Nat) (ns : List Nested) {rest : Text} (hrest : Stops rest) :
    Stops (Nested.eachOnto lead depth ns rest) := by
  cases ns with
  | nil => rwa [Nested.eachOnto]
  | cons n ns =>
    obtain ⟨cs, rfl⟩ := List.head?_eq_some_iff.1 hlead
    rw [Nested.eachOnto, List.cons_append]
    exact .cons hc _

/-- The text goes on with what comes after a heading: a closing parenthesis, or a new line. -/
def EndsHeading (t : Text) : Prop := ∃ c s, t = c :: s ∧ (c = ')' ∨ c = '\n')

theorem EndsHeading.stops {t : Text} : EndsHeading t → Stops t
  | ⟨_, s, ht, hc⟩ => ht ▸ .cons (.inr hc) s

theorem EndsHeading.head?_ne {t : Text} : EndsHeading t → t.head? ≠ some ' '
  | ⟨_, _, ht, hc⟩ => by
    rw [ht]
    rintro heq
    cases heq
    exact absurd hc (by decide)

theorem Nested.endsHeading_below (depth : Nat) (ns : List Nested) (rest : Text) :
    EndsHeading (Nested.eachOnto (outlineMargin depth) depth ns (')' :: rest)) := by
  cases ns with
  | nil => exact ⟨')', rest, by rw [Nested.eachOnto], .inl rfl⟩
  | cons n ns => exact ⟨'\n', _, by rw [Nested.eachOnto, outlineMargin, List.cons_append], .inr rfl⟩

/-- Nothing that is written begins with the end of a heading. -/
theorem Nested.not_endsHeading {n : Nested} (hn : n.Legible) (depth : Nat) {rest : Text} (hrest : Stops rest) :
    ¬ EndsHeading (n.writeOnto depth rest) := by
  rintro ⟨c, s, heq, hc⟩
  cases n with
  | leaf token =>
    rw [Nested.Legible] at hn
    rw [Nested.writeOnto] at heq
    exact hn.2.1.append_ne hn.1 hrest (.inr hc) s heq
  | list heading below =>
    rw [Nested.writeOnto] at heq
    cases heq
    exact absurd hc (by decide)

/-! ## Reading it off the text -/

mutual

/-- **A nested list is written as no other is**, whatever follows. -/
theorem Nested.writeOnto_inj (depth : Nat) : ∀ (n n' : Nested) {rest rest' : Text}, n.Legible → n'.Legible →
    Stops rest → Stops rest' → n.writeOnto depth rest = n'.writeOnto depth rest' → n = n' ∧ rest = rest'
  | .leaf token, .leaf token', rest, rest', hn, hn', hrest, hrest', h => by
    rw [Nested.Legible] at hn hn'
    rw [Nested.writeOnto, Nested.writeOnto] at h
    obtain ⟨hkind, hlexeme, heq⟩ := hn.2.1.unique (hrest.endsBefore _) hn'.2.1 (hrest'.endsBefore _) h
    have htoken : token = token' := by
      cases token
      cases token'
      rw [Token.mk.injEq]
      exact ⟨hkind, hlexeme, hn.2.2.trans hn'.2.2.symm⟩
    rw [htoken, heq]
    exact ⟨rfl, rfl⟩
  | .leaf token, .list _ _, _, _, hn, _, hrest, _, h => by
    rw [Nested.Legible] at hn
    rw [Nested.writeOnto, Nested.writeOnto] at h
    exact absurd h (hn.2.1.append_ne hn.1 hrest (.inl rfl) _)
  | .list _ _, .leaf token', _, _, _, hn', _, hrest', h => by
    rw [Nested.Legible] at hn'
    rw [Nested.writeOnto, Nested.writeOnto] at h
    exact absurd h.symm (hn'.2.1.append_ne hn'.1 hrest' (.inl rfl) _)
  | .list heading below, .list heading' below', rest, rest', hn, hn', hrest, hrest', h => by
    rw [Nested.Legible] at hn hn'
    rw [Nested.writeOnto, Nested.writeOnto, List.cons.injEq] at h
    obtain ⟨hheading, hbelow⟩ := Nested.headingOnto_inj depth heading heading' hn.1 hn'.1
      (Nested.endsHeading_below (depth + 1) below rest) (Nested.endsHeading_below (depth + 1) below' rest') h.2
    have hmargin : (outlineMargin (depth + 1)).head? = some '\n' := rfl
    have hclose : ∀ s : Text, (')' :: s).head? ≠ some '\n' := fun s hs => by cases hs
    obtain ⟨hlists, heq⟩ := Nested.eachOnto_inj (depth + 1) hmargin (.inr (.inr rfl)) below below' hn.2 hn'.2
      (.cons (.inr (.inl rfl)) rest) (.cons (.inr (.inl rfl)) rest') (hclose rest) (hclose rest') hbelow
    rw [List.cons.injEq] at heq
    rw [hheading, hlists]
    exact ⟨rfl, heq.2⟩

theorem Nested.headingOnto_inj (depth : Nat) : ∀ (ns ns' : List Nested) {rest rest' : Text},
    Nested.AllLegible ns → Nested.AllLegible ns' → EndsHeading rest → EndsHeading rest' →
    Nested.headingOnto depth ns rest = Nested.headingOnto depth ns' rest' → ns = ns' ∧ rest = rest'
  | [], [], _, _, _, _, _, _, h => by
    rw [Nested.headingOnto, Nested.headingOnto] at h
    exact ⟨rfl, h⟩
  | [], n' :: ns', _, _, _, hns', hrest, hrest', h => by
    rw [Nested.AllLegible] at hns'
    rw [Nested.headingOnto, Nested.headingOnto] at h
    have hspace : ([' '] : Text).head? = some ' ' := rfl
    have hstops := Nested.stops_eachOnto hspace (.inl rfl) depth ns' hrest'.stops
    exact absurd (h ▸ hrest) (Nested.not_endsHeading hns'.1 depth hstops)
  | n :: ns, [], _, _, hns, _, hrest, hrest', h => by
    rw [Nested.AllLegible] at hns
    rw [Nested.headingOnto, Nested.headingOnto] at h
    have hspace : ([' '] : Text).head? = some ' ' := rfl
    have hstops := Nested.stops_eachOnto hspace (.inl rfl) depth ns hrest.stops
    exact absurd (h ▸ hrest') (Nested.not_endsHeading hns.1 depth hstops)
  | n :: ns, n' :: ns', rest, rest', hns, hns', hrest, hrest', h => by
    rw [Nested.AllLegible] at hns hns'
    rw [Nested.headingOnto, Nested.headingOnto] at h
    have hspace : ([' '] : Text).head? = some ' ' := rfl
    obtain ⟨hn, hmore⟩ := Nested.writeOnto_inj depth n n' hns.1 hns'.1
      (Nested.stops_eachOnto hspace (.inl rfl) depth ns hrest.stops)
      (Nested.stops_eachOnto hspace (.inl rfl) depth ns' hrest'.stops) h
    obtain ⟨hlists, heq⟩ := Nested.eachOnto_inj depth hspace (.inl rfl) ns ns' hns.2 hns'.2 hrest.stops hrest'.stops
      hrest.head?_ne hrest'.head?_ne hmore
    rw [hn, hlists]
    exact ⟨rfl, heq⟩

theorem Nested.eachOnto_inj {lead : Text} {c : Char} (depth : Nat) (hlead : lead.head? = some c)
    (hc : c = ' ' ∨ c = ')' ∨ c = '\n') : ∀ (ns ns' : List Nested) {rest rest' : Text}, Nested.AllLegible ns →
    Nested.AllLegible ns' → Stops rest → Stops rest' → rest.head? ≠ some c → rest'.head? ≠ some c →
    Nested.eachOnto lead depth ns rest = Nested.eachOnto lead depth ns' rest' → ns = ns' ∧ rest = rest'
  | [], [], _, _, _, _, _, _, _, _, h => by
    rw [Nested.eachOnto, Nested.eachOnto] at h
    exact ⟨rfl, h⟩
  | [], n' :: ns', _, _, _, _, _, _, hne, _, h => by
    rw [Nested.eachOnto, Nested.eachOnto] at h
    rw [h, List.head?_append, hlead] at hne
    exact absurd rfl hne
  | n :: ns, [], _, _, _, _, _, _, _, hne', h => by
    rw [Nested.eachOnto, Nested.eachOnto] at h
    rw [← h, List.head?_append, hlead] at hne'
    exact absurd rfl hne'
  | n :: ns, n' :: ns', rest, rest', hns, hns', hrest, hrest', hne, hne', h => by
    rw [Nested.AllLegible] at hns hns'
    rw [Nested.eachOnto, Nested.eachOnto] at h
    obtain ⟨hn, hmore⟩ := Nested.writeOnto_inj depth n n' hns.1 hns'.1 (Nested.stops_eachOnto hlead hc depth ns hrest)
      (Nested.stops_eachOnto hlead hc depth ns' hrest') (List.append_cancel_left h)
    obtain ⟨hlists, heq⟩ := Nested.eachOnto_inj depth hlead hc ns ns' hns.2 hns'.2 hrest hrest' hne hne' hmore
    rw [hn, hlists]
    exact ⟨rfl, heq⟩

end

end Loot
