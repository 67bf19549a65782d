import Loot.Display.Highlight
/-!
# Web pages read back

A page is cut into tags, each from a `<` to the next `>`, and the characters between them (`markup`).  Whatever the
lexemes hold, the page of a program is cut into the tags that were written around them and single characters that need
no escape (`markup_webText`).  So nothing in a lexeme can pass for a tag, and without its tags the page is read back
(`readBack`) as the lexemes, one after another (`webText_read_back`).
-/
namespace Loot

/-! ## Pages in tags and characters -/

/-- A tag of a page as it is written, or a character outside of all tags. -/
inductive Markup where
  | tag (text : Text)
  | char (c : Char)
deriving DecidableEq

namespace Markup

def text : Markup → Text
  | .tag t => t
  | .char c => [c]

def tag? : Markup → Option Text
  | .tag t => some t
  | .char _ => none

end Markup

/-- Cuts a page from a place on.  If the place is in a tag, `opened` holds what was seen of it, backwards. -/
def markupFrom : (opened : Option Text) → Text → List Markup
  | none, [] => []
  | some seen, [] => [.tag seen.reverse]
  | none, c :: cs => if c = '<' then markupFrom (some ['<']) cs else .char c :: markupFrom none cs
  | some seen, c :: cs =>
    if c = '>' then .tag ('>' :: seen).reverse :: markupFrom none cs else markupFrom (some (c :: seen)) cs

/-- **The tags of a page and the characters between them**, in order. -/
def markup (page : Text) : List Markup := markupFrom none page

/-- The tags of a page, in order. -/
def tagsOf (page : Text) : List Text := (markup page).filterMap Markup.tag?

theorem markupFrom_text : ∀ (page : Text) (opened : Option Text),
    (markupFrom opened page).flatMap Markup.text = (opened.getD []).reverse ++ page
  | [], none => rfl
  | [], some seen => by simp [markupFrom, Markup.text]
  | c :: cs, none => by
    rw [markupFrom]
    split
    · rename_i hc
      rw [markupFrom_text cs (some ['<']), hc]
      rfl
    · rw [List.flatMap_cons, markupFrom_text cs none]
      rfl
  | c :: cs, some seen => by
    rw [markupFrom]
    split
    · rename_i hc
      rw [List.flatMap_cons, markupFrom_text cs none, hc]
      simp [Markup.text]
    · rw [markupFrom_text cs (some (c :: seen))]
      simp

/-- Nothing of a page is lost when it is cut. -/
theorem markup_text (page : Text) : (markup page).flatMap Markup.text = page := markupFrom_text page none

theorem markup_char {c : Char} (hc : c ≠ '<') (rest : Text) : markup (c :: rest) = .char c :: markup rest := by
  rw [markup, markupFrom, if_neg hc]
  rfl

theorem markup_chars (rest : Text) : ∀ {t : Text}, '<' ∉ t → markup (t ++ rest) = t.map Markup.char ++ markup rest
  | [], _ => rfl
  | c :: cs, h => by
    rw [List.mem_cons, not_or] at h
    rw [List.cons_append, markup_char (Ne.symm h.1), markup_chars rest h.2]
    rfl

theorem markupFrom_some (rest : Text) : ∀ (body seen : Text), '>' ∉ body →
    markupFrom (some seen) (body ++ '>' :: rest) = .tag (seen.reverse ++ body ++ ['>']) :: markup rest
  | [], seen, _ => by simp [markupFrom, markup]
  | c :: body, seen, h => by
    rw [List.mem_cons, not_or] at h
    rw [List.cons_append, markupFrom, if_neg (Ne.symm h.1), markupFrom_some rest body (c :: seen) h.2]
    simp

/-- Is the text one tag and nothing else? -/
def isTag (t : Text) : Bool := t.head? == some '<' && t.getLast? == some '>' && !t.dropLast.contains '>'

theorem markup_tag {t : Text} (ht : isTag t = true) (rest : Text) : markup (t ++ rest) = .tag t :: markup rest := by
  simp only [isTag, Bool.and_eq_true, beq_iff_eq, Bool.not_eq_true', List.contains_eq_mem, decide_eq_false_iff_not]
    at ht
  obtain ⟨⟨hhead, hlast⟩, hbody⟩ := ht
  obtain ⟨init, rfl⟩ := List.getLast?_eq_some_iff.1 hlast
  rw [List.dropLast_concat] at hbody
  cases init with
  | nil => cases hhead
  | cons c body =>
    cases hhead
    rw [List.mem_cons, not_or] at hbody
    rw [List.append_assoc, List.cons_append, markup, markupFrom, if_pos rfl, List.singleton_append,
      markupFrom_some rest body _ hbody.2]
    rfl

/-! ## What is written for a character -/

/-- The texts that stand for a character on a page. -/
def entities : List (Text × Char) :=
  [("&amp;".toList, '&'), ("&lt;".toList, '<'), ("&gt;".toList, '>'), ("&quot;".toList, '"'), ("&#x27;".toList, '\''),
   ("&nbsp;".toList, ' '), ("<br>".toList, '\n')]

/-- The characters that stand between tags only as parts of entities, or not at all. -/
def escaped : List Char := ['<', '>', ' ', '\n', '"', '\'']

/-- A character is written as its entity, and as itself if it has none. -/
theorem webChar_cases (c : Char) :
    (∃ e ∈ entities, e.2 = c ∧ webChar c = e.1) ∨ c ∉ entities.map Prod.snd ∧ webChar c = [c] := by
  by_cases hc : c ∈ entities.map Prod.snd
  · left
    obtain ⟨e, he, rfl⟩ := List.mem_map.1 hc
    refine ⟨e, he, rfl, ?_⟩
    revert e
    decide
  · refine .inr ⟨hc, ?_⟩
    unfold webChar
    split <;> simp_all [entities]

/-- What is written for a character other than a newline holds nothing that needs an escape. -/
theorem not_escaped_of_mem_webChar {c : Char} (hc : c ≠ '\n') : ∀ d ∈ webChar c, d ∉ escaped := by
  rcases webChar_cases c with ⟨e, he, rfl, hwritten⟩ | ⟨hplain, hwritten⟩
  · rw [hwritten]
    have hall : ∀ e ∈ entities, e.2 ≠ '\n' → e.1.all (· ∉ escaped) = true := by decide
    exact fun d hd => of_decide_eq_true (List.all_eq_true.1 (hall e he hc) d hd)
  · intro d hd hescaped
    rw [hwritten, List.mem_singleton] at hd
    have hall : escaped.all (· ∈ entities.map Prod.snd) = true := by decide
    exact hplain (hd ▸ of_decide_eq_true (List.all_eq_true.1 hall d hescaped))

/-- The text with each character that has the entity replaced by it. -/
def replaced (t : Text) (e : Text × Char) : Text := t.flatMap fun c => if c = e.2 then e.1 else [c]

theorem foldl_replaced_append : ∀ (es : List (Text × Char)) (s t : Text),
    es.foldl replaced (s ++ t) = es.foldl replaced s ++ es.foldl replaced t
  | [], _, _ => rfl
  | e :: es, s, t => by
    rw [List.foldl_cons, replaced, List.flatMap_append, foldl_replaced_append es]
    rfl

/-- A character without an entity is left alone. -/
theorem foldl_replaced_singleton {c : Char} : ∀ es : List (Text × Char), c ∉ es.map Prod.snd →
    es.foldl replaced [c] = [c]
  | [], _ => rfl
  | e :: es, h => by
    rw [List.map_cons, List.mem_cons, not_or] at h
    rw [List.foldl_cons, replaced, List.flatMap_singleton, if_neg h.1, foldl_replaced_singleton es h.2]

/-- Writing the characters one by one is replacing one character after another in the whole text.  The ampersand comes
first, so no replacement meets what another has put in. -/
theorem flatMap_webChar_eq_foldl : ∀ t : Text, t.flatMap webChar = entities.foldl replaced t
  | [] => rfl
  | c :: cs => by
    have hchar : webChar c = entities.foldl replaced [c] := by
      rcases webChar_cases c with ⟨e, he, rfl, hwritten⟩ | ⟨hplain, hwritten⟩
      · rw [hwritten]
        revert e
        decide
      · rw [hwritten, foldl_replaced_singleton entities hplain]
    rw [List.flatMap_cons, flatMap_webChar_eq_foldl cs, hchar, ← foldl_replaced_append]
    rfl

/-! ## The page of a program -/

/-- The cut of what is written for a character: a line break is a tag, and the other entities are none. -/
def webMarkup (c : Char) : List Markup := if c = '\n' then [.tag "<br>".toList] else (webChar c).map .char

theorem markup_webChar (c : Char) (rest : Text) : markup (webChar c ++ rest) = webMarkup c ++ markup rest := by
  unfold webMarkup
  split
  · rename_i hc
    rw [hc]
    exact markup_tag (by decide) rest
  · rename_i hc
    exact markup_chars rest fun h => not_escaped_of_mem_webChar hc '<' h (by decide)

theorem markup_lexeme (rest : Text) : ∀ t : Text,
    markup (t.flatMap webChar ++ rest) = t.flatMap webMarkup ++ markup rest
  | [] => rfl
  | c :: cs => by
    rw [List.flatMap_cons, List.append_assoc, markup_webChar, markup_lexeme rest cs, List.flatMap_cons,
      List.append_assoc]

/-- The tag that begins a page. -/
def codeTag : Text := "<code style='font-family:\"Hack-Regular\", monospace; background-color:#151718;'>".toList

/-- The tag that begins the span of a token of the kind. -/
def spanTag (kind : Kind) : Text :=
  "<span style='color:".toList ++ kind.category.webColour.toList ++ ";'>".toList

theorem isTag_spanTag (kind : Kind) : isTag (spanTag kind) = true := by
  unfold spanTag
  cases kind.category <;> rfl

def Token.markup (t : Token) : List Markup :=
  .tag (spanTag t.kind) :: t.lexeme.flatMap webMarkup ++ [.tag "</span>".toList]

theorem span_eq (t : Token) : t.span = spanTag t.kind ++ (t.lexeme.flatMap webChar ++ "</span>".toList) := by
  unfold Token.span spanTag
  simp only [List.append_assoc]

theorem markup_span (t : Token) (rest : Text) : Loot.markup (t.span ++ rest) = t.markup ++ Loot.markup rest := by
  rw [span_eq, List.append_assoc, markup_tag (isTag_spanTag t.kind), List.append_assoc, markup_lexeme,
    markup_tag (t := "</span>".toList) (by decide)]
  simp only [Token.markup, List.cons_append, List.append_assoc, List.nil_append]

theorem markup_spans (rest : Text) : ∀ ts : List Token,
    markup (ts.flatMap Token.span ++ rest) = ts.flatMap Token.markup ++ markup rest
  | [] => rfl
  | t :: ts => by
    rw [List.flatMap_cons, List.append_assoc, markup_span, markup_spans rest ts, List.flatMap_cons, List.append_assoc]

/-- The tokens that have a span on the page. -/
def spanned (ts : List Token) : List Token := ts.filter fun t => t.kind != .endOfFile

/-- **The cut of a page**: the tags that were written around the lexemes, and the lexemes character by character. -/
theorem markup_webText (ts : List Token) :
    markup (webText ts) = .tag codeTag :: ((spanned ts).flatMap Token.markup ++ [.tag "</code>".toList]) := by
  have hpage : webText ts = codeTag ++ ((spanned ts).flatMap Token.span ++ ("</code>".toList ++ [])) := by
    rw [List.append_nil, ← List.append_assoc]
    rfl
  rw [hpage, markup_tag (by decide), markup_spans, markup_tag (by decide)]
  rfl

/-! ## Reading a page -/

/-- Is the tag one of those that only give the text its looks? -/
def isStyling (tag : Text) : Bool :=
  ["<code".toList, "</code".toList, "<span".toList, "</span".toList].any (·.isPrefixOf tag)

/-- The page without the tags that only give the text its looks. -/
def unstyled (page : Text) : Text :=
  ((markup page).filter fun m => !m.tag?.any isStyling).flatMap Markup.text

/-- Reads entities back as the characters that they stand for.  The first `pending` characters belong to the entity
before. -/
def readBack : (pending : Nat) → Text → Text
  | _, [] => []
  | pending + 1, _ :: cs => readBack pending cs
  | 0, c :: cs =>
    match entities.find? fun e => e.1.isPrefixOf (c :: cs) with
    | some (written, d) => d :: readBack (written.length - 1) cs
    | none => c :: readBack 0 cs

/-- Entities are not mistaken for each other, and a character that begins none is read as itself. -/
theorem readBack_webChar (c : Char) (rest : Text) : readBack 0 (webChar c ++ rest) = c :: readBack 0 rest := by
  rcases webChar_cases c with ⟨e, he, rfl, hwritten⟩ | ⟨hplain, hwritten⟩
  · rw [hwritten]
    simp only [entities, List.mem_cons, List.not_mem_nil, or_false] at he
    rcases he with rfl | rfl | rfl | rfl | rfl | rfl | rfl <;> rfl
  · have hnone : entities.find? (fun e => e.1.isPrefixOf (c :: rest)) = none := by
      rw [List.find?_eq_none]
      intro e he hstart
      -- every entity begins with a character that has an entity itself
      have hall : ∀ e ∈ entities, (entities.map Prod.snd).any (fun d => e.1.head? == some d) = true := by decide
      obtain ⟨d, hd, hhead⟩ := List.any_eq_true.1 (hall e he)
      rw [beq_iff_eq] at hhead
      obtain ⟨cs, hcs⟩ := List.head?_eq_some_iff.1 hhead
      rw [hcs, List.isPrefixOf_cons_cons, Bool.and_eq_true, beq_iff_eq] at hstart
      exact hplain (hstart.1 ▸ hd)
    rw [hwritten, List.singleton_append, readBack, hnone]

theorem readBack_lexeme : ∀ t : Text, readBack 0 (t.flatMap webChar) = t
  | [] => rfl
  | c :: cs => by rw [List.flatMap_cons, readBack_webChar, readBack_lexeme cs]

theorem webMarkup_text (c : Char) : (webMarkup c).flatMap Markup.text = webChar c := by
  unfold webMarkup
  split
  · rename_i hc
    rw [hc]
    rfl
  · rw [List.flatMap_map]
    exact List.flatMap_singleton' _

/-- What the cut of a lexeme holds: line breaks, and characters that need no escape. -/
theorem mem_lexeme_markup {t : Text} {m : Markup} (h : m ∈ t.flatMap webMarkup) :
    m = .tag "<br>".toList ∨ ∃ d, m = .char d ∧ d ∉ escaped := by
  obtain ⟨c, -, hm⟩ := List.mem_flatMap.1 h
  unfold webMarkup at hm
  split at hm
  · exact .inl (List.mem_singleton.1 hm)
  · rename_i hc
    obtain ⟨d, hd, rfl⟩ := List.mem_map.1 hm
    exact .inr ⟨d, rfl, not_escaped_of_mem_webChar hc d hd⟩

theorem isStyling_spanTag (kind : Kind) : isStyling (spanTag kind) = true := by
  unfold spanTag
  cases kind.category <;> rfl

/-- The tags around a lexeme are taken off, and none of those in it. -/
theorem Token.markup_unstyled (t : Token) :
    t.markup.filter (fun m => !m.tag?.any isStyling) = t.lexeme.flatMap webMarkup := by
  have hkept : ∀ m ∈ t.lexeme.flatMap webMarkup, (!m.tag?.any isStyling) = true := by
    intro m hm
    rcases mem_lexeme_markup hm with rfl | ⟨d, rfl, -⟩ <;> rfl
  rw [Token.markup, List.cons_append, List.filter_cons_of_neg (by simp [Markup.tag?, isStyling_spanTag]),
    List.filter_append, List.filter_eq_self.2 hkept, List.filter_cons_of_neg (by decide), List.filter_nil,
    List.append_nil]

theorem unstyled_webText (ts : List Token) :
    unstyled (webText ts) = ((spanned ts).flatMap (·.lexeme)).flatMap webChar := by
  rw [unstyled, markup_webText, List.filter_cons_of_neg (by decide), List.filter_append,
    List.filter_cons_of_neg (by decide), List.filter_nil, List.append_nil, List.filter_flatMap]
  simp only [Token.markup_unstyled, List.flatMap_assoc, webMarkup_text]

/-- The tags around a lexeme, the line breaks in it left out. -/
theorem Token.markup_tags (t : Token) :
    (t.markup.filterMap Markup.tag?).filter (· ≠ "<br>".toList) = [spanTag t.kind, "</span>".toList] := by
  have hbreak : spanTag t.kind ≠ "<br>".toList := by
    unfold spanTag
    cases t.kind.category <;> decide
  have hnone : ((t.lexeme.flatMap webMarkup).filterMap Markup.tag?).filter (· ≠ "<br>".toList) = [] := by
    rw [List.filter_eq_nil_iff]
    intro tag htag
    obtain ⟨m, hm, hmtag⟩ := List.mem_filterMap.1 htag
    rcases mem_lexeme_markup hm with rfl | ⟨d, rfl, -⟩
    · cases hmtag
      decide
    · cases hmtag
  rw [Token.markup, List.cons_append, List.filterMap_cons_some (f := Markup.tag?) rfl,
    List.filter_cons_of_pos (by simpa using hbreak), List.filterMap_append, List.filter_append, hnone]
  rfl

theorem tagsOf_webText (ts : List Token) : (tagsOf (webText ts)).filter (· ≠ "<br>".toList) =
    codeTag :: ((spanned ts).flatMap (fun t => [spanTag t.kind, "</span>".toList]) ++ ["</code>".toList]) := by
  rw [tagsOf, markup_webText, List.filterMap_cons_some (f := Markup.tag?) rfl, List.filter_cons_of_pos (by decide),
    List.filterMap_append, List.filter_append, List.filterMap_flatMap, List.filter_flatMap]
  simp only [Token.markup_tags]
  rfl

/-- Between the tags of a page nothing needs an escape. -/
theorem not_escaped_of_mem_markup {ts : List Token} {c : Char} (h : .char c ∈ markup (webText ts)) : c ∉ escaped := by
  rw [markup_webText, List.mem_cons, List.mem_append, List.mem_singleton] at h
  rcases h with h | h | h
  · cases h
  · obtain ⟨t, -, ht⟩ := List.mem_flatMap.1 h
    rw [Token.markup, List.cons_append, List.mem_cons, List.mem_append, List.mem_singleton] at ht
    rcases ht with ht | ht | ht
    · cases ht
    · rcases mem_lexeme_markup ht with ht | ⟨d, ht, hd⟩
      · cases ht
      · cases ht
        exact hd
    · cases ht
  · cases h

theorem newline_not_mem_webText (ts : List Token) : '\n' ∉ webText ts := by
  intro h
  rw [← markup_text (webText ts)] at h
  obtain ⟨m, hm, hmem⟩ := List.mem_flatMap.1 h
  cases m with
  | char c =>
    rw [Markup.text, List.mem_singleton] at hmem
    exact not_escaped_of_mem_markup hm (hmem ▸ by decide)
  | tag text =>
    rw [Markup.text] at hmem
    have hspan : ∀ kind, '\n' ∉ spanTag kind := by
      intro kind
      unfold spanTag
      cases kind.category <;> decide
    have htag : text ∈ (tagsOf (webText ts)).filter (· ≠ "<br>".toList) := by
      refine List.mem_filter.2 ⟨List.mem_filterMap.2 ⟨_, hm, rfl⟩, ?_⟩
      rw [decide_eq_true_eq]
      rintro rfl
      exact absurd hmem (by decide)
    rw [tagsOf_webText, List.mem_cons, List.mem_append, List.mem_singleton, List.mem_flatMap] at htag
    rcases htag with rfl | ⟨t, -, ht⟩ | rfl
    · exact absurd hmem (by decide)
    · rw [List.mem_cons, List.mem_singleton] at ht
      rcases ht with rfl | rfl
      · exact hspan t.kind hmem
      · exact absurd hmem (by decide)
    · exact absurd hmem (by decide)

/-- **The page of a program shows its tokens and nothing else.**  It has a span for each token, with the entities put
in one after another.  Cut into tags and the characters between them, it has only the tags that were written around the
lexemes, and line breaks.  No character between the tags needs an escape, and there is no newline anywhere.  Without
the tags that give it its looks, the page is read back as the lexemes one after another, whatever they hold. -/
theorem webText_read_back (ts : List Token) :
    webText ts = codeTag ++ (spanned ts).flatMap (fun t =>
        spanTag t.kind ++ entities.foldl replaced t.lexeme ++ "</span>".toList) ++ "</code>".toList ∧
      (markup (webText ts)).flatMap Markup.text = webText ts ∧
      (tagsOf (webText ts)).filter (· ≠ "<br>".toList) =
        codeTag :: ((spanned ts).flatMap (fun t => [spanTag t.kind, "</span>".toList]) ++ ["</code>".toList]) ∧
      (∀ c, .char c ∈ markup (webText ts) → c ≠ '<' ∧ c ≠ '>' ∧ c ≠ ' ' ∧ c ≠ '"' ∧ c ≠ '\'') ∧
      '\n' ∉ webText ts ∧
      readBack 0 (unstyled (webText ts)) = (spanned ts).flatMap (·.lexeme) := by
  refine ⟨?_, markup_text _, tagsOf_webText ts, fun c hc => ?_, newline_not_mem_webText ts, ?_⟩
  · simp only [← flatMap_webChar_eq_foldl, List.append_assoc (spanTag _), ← span_eq]
    rfl
  · have hplain := not_escaped_of_mem_markup hc
    simp only [escaped, List.mem_cons, List.not_mem_nil, or_false, not_or] at hplain
    obtain ⟨hless, hgreater, hspace, -, hdouble, hsingle⟩ := hplain
    exact ⟨hless, hgreater, hspace, hdouble, hsingle⟩
  · rw [unstyled_webText, readBack_lexeme]

/-- A comment that looks like the markup around it. -/
example :
    let comment := "xX</span>&nbsp;<br>\n\"'Xx".toList
    readBack 0 (unstyled (webText [⟨.comment, comment, some 1⟩, ⟨.endOfFile, [], some 2⟩])) = comment := by
  decide +kernel

end Loot
