import Loot.Tree.Parser.Statement
/-!
# The first end of file

A list of tokens may hold blanks, comments and ends of file anywhere.  It can be read if the last of its tokens that
are no trivia is an end of file (`exists_ended_iff`), and then the tokens before the first end of file are read,
whatever comes after it (`Ended.ofTokens_eq`).
-/
namespace Loot

/-- **Tokens that can be read**: without trivia they are the given tokens, the first end of file and what comes after
it, and the last of them is an end of file too. -/
structure Ended (ts body : List Token) (eof : Token) (after : List Token) : Prop where
  split : dropTrivia ts = body ++ eof :: after
  before : ∀ t ∈ body, t.kind ≠ .endOfFile
  first : eof.kind = .endOfFile
  last : ∀ t, (eof :: after).getLast? = some t → t.kind = .endOfFile

theorem exists_ended_iff (ts : List Token) : (∃ body eof after, Ended ts body eof after) ↔
    ∃ last, (dropTrivia ts).getLast? = some last ∧ last.kind = .endOfFile := by
  constructor
  · rintro ⟨body, eof, after, h⟩
    have hne : eof :: after ≠ [] := List.cons_ne_nil eof after
    refine ⟨(eof :: after).getLast hne, ?_, h.last _ (List.getLast?_eq_some_getLast hne)⟩
    rw [h.split, List.getLast?_append, List.getLast?_eq_some_getLast hne]
    rfl
  · rintro ⟨last, hlast, hkind⟩
    have hmem : last ∈ dropTrivia ts := List.mem_of_getLast? hlast
    obtain ⟨eof, heof⟩ : ∃ eof, (dropTrivia ts).find? (·.kind == .endOfFile) = some eof :=
      Option.isSome_iff_exists.1 (List.find?_isSome.2 ⟨last, hmem, by simp [hkind]⟩)
    obtain ⟨hfirst, body, after, hsplit, hbefore⟩ := List.find?_eq_some_iff_append.1 heof
    refine ⟨body, eof, after, hsplit, fun t ht => by simpa using hbefore t ht, by simpa using hfirst, fun t ht => ?_⟩
    rw [hsplit, List.getLast?_append, ht, Option.some_or, Option.some_inj] at hlast
    rw [hlast, hkind]

/-- What is read are the tokens before the first end of file. -/
theorem Ended.ofTokens_eq {ts body after : List Token} {eof : Token} (h : Ended ts body eof after) :
    Reader.ofTokens ts = .ok ⟨0, body, eof⟩ := by
  have hnot : ∀ t ∈ body, (t.kind == .endOfFile) = false := fun t ht => by simpa using h.before t ht
  have htake : (dropTrivia ts).takeWhile (fun t => !(t.kind == .endOfFile)) = body := by
    rw [h.split, List.takeWhile_append_of_pos (fun t ht => by rw [hnot t ht]; rfl)]
    simp [h.first]
  have hfind : (dropTrivia ts).find? (fun t => t.kind == .endOfFile) = some eof := by
    rw [h.split, List.find?_append, List.find?_eq_none.2 (fun t ht => by rw [hnot t ht]; decide)]
    simp [h.first]
  obtain ⟨last, hlast, hkind⟩ := (exists_ended_iff ts).1 ⟨body, eof, after, h⟩
  unfold Reader.ofTokens
  simp only [hlast, htake, hfind, hkind, beq_self_eq_true, if_true, Option.getD_some]

/-- Without an end of file at their end, tokens are refused. -/
theorem Reader.ofTokens_refused {ts : List Token} (h : ¬ ∃ body eof after, Ended ts body eof after) :
    Reader.ofTokens ts = .error { cause := .grammar "token stream must end with EOF".toList } := by
  rw [exists_ended_iff] at h
  unfold Reader.ofTokens
  cases hlast : (dropTrivia ts).getLast? with
  | none => simp only [hlast]
  | some last =>
    have hkind : (last.kind == .endOfFile) = false := by
      rw [beq_eq_false_iff_ne]
      exact fun hkind => h ⟨last, hlast, hkind⟩
    simp only [hlast, hkind, Bool.false_eq_true, if_false]

/-- Tokens with one end of file, after all others. -/
theorem ended_concat {body : List Token} {eof : Token} (hbody : ∀ t ∈ body, t.kind ≠ .endOfFile)
    (heof : eof.kind = .endOfFile) : Ended (body ++ [eof]) (dropTrivia body) eof [] where
  split := by
    unfold dropTrivia
    rw [List.filter_append, List.filter_cons_of_pos (by rw [heof]; rfl), List.filter_nil]
  before t ht := hbody t (List.mem_filter.1 ht).1
  first := heof
  last t ht := by
    cases ht
    exact heof

end Loot
