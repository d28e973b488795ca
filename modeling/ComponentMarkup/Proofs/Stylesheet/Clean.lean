import ComponentMarkup.Proofs.Stylesheet.Grammar
import ComponentMarkup.Proofs.Text.Solid

/-!
# Clean lexemes

Lexemes are clean if their text is cut into them again, comments being taken out first, and if
their white space outside strings is layout. Such lexemes can be cut apart anywhere and put
together at the separators of items. A text with no other white space than layout is read off clean
lexemes, and what clean lexemes spell is read off their text.
-/

namespace ComponentMarkup.Stylesheet

open Text

/-! ## Lexemes that are cut again -/

/-- Lexemes that their text is cut into again, where white space outside strings is layout. -/
structure IsClean (input : List Lexeme) : Prop where
  whole : ∀ lexeme ∈ input, lexeme.IsWhole
  noComment : HasNoComment input
  layout : ∀ lexeme ∈ input, lexeme.isBlank = true → lexeme.isGap = true

/-- Characters that written items are put together with. -/
def isSeparator (c : Char) : Bool :=
  c = ' ' || c = '\n' || c = ',' || c = ';' || c = '\x7b' || c = '\x7d'

section Clean

variable {a b input : List Lexeme}

theorem isClean_nil : IsClean [] := ⟨by simp, .nil, by simp⟩

theorem IsClean.of_isInfix (h : IsClean b) (hpart : a <:+: b) : IsClean a where
  whole lexeme hlexeme := h.whole lexeme (hpart.subset hlexeme)
  noComment := List.IsChain.infix h.noComment hpart
  layout lexeme hlexeme := h.layout lexeme (hpart.subset hlexeme)

theorem IsClean.append (ha : IsClean a) (hb : IsClean b)
    (hlast : ∀ lexeme ∈ a.getLast?, lexeme ≠ .plain '/') : IsClean (a ++ b) where
  whole := List.forall_mem_append.2 ⟨ha.whole, hb.whole⟩
  noComment := List.IsChain.append ha.noComment hb.noComment
    fun x hx _ _ hslash ↦ absurd hslash (hlast x hx)
  layout := List.forall_mem_append.2 ⟨ha.layout, hb.layout⟩

theorem isClean_plain {c : Char} (h : isSeparator c = true) : IsClean [.plain c] := by
  simp only [isSeparator, Bool.or_eq_true, decide_eq_true_eq] at h
  refine ⟨?_, List.isChain_singleton _, ?_⟩
  · rcases h with ((((rfl | rfl) | rfl) | rfl) | rfl) | rfl <;>
      simp [Lexeme.IsWhole, isQuote]
  · rcases h with ((((rfl | rfl) | rfl) | rfl) | rfl) | rfl <;>
      simp [Lexeme.isBlank, Lexeme.isGap, Text.isBlank, isLayout]

theorem ne_slash_of_isSeparator {c : Char} (h : isSeparator c = true) : c ≠ '/' := by
  rintro rfl
  simp [isSeparator] at h

theorem IsClean.append_plain (h : IsClean a) {c : Char} (hc : isSeparator c = true) :
    IsClean (a ++ [.plain c]) where
  whole := List.forall_mem_append.2 ⟨h.whole, (isClean_plain hc).whole⟩
  noComment := by
    refine List.IsChain.append h.noComment (List.isChain_singleton _) fun x _ y hy ↦ ?_
    obtain rfl : .plain c = y := by simpa using hy
    apply apart_of_ne
    rintro rfl
    simp [isSeparator] at hc
  layout := List.forall_mem_append.2 ⟨h.layout, (isClean_plain hc).layout⟩

/-- Between clean stretches a separator is clean. -/
theorem IsClean.join (ha : IsClean a) {c : Char} (hc : isSeparator c = true) (hb : IsClean b) :
    IsClean (a ++ .plain c :: b) := by
  rw [← List.singleton_append, ← List.append_assoc]
  apply (ha.append_plain hc).append hb
  intro lexeme hlexeme
  obtain rfl : .plain c = lexeme := by simpa using hlexeme
  simpa using ne_slash_of_isSeparator hc

theorem IsClean.cons (hb : IsClean b) {c : Char} (hc : isSeparator c = true) :
    IsClean (.plain c :: b) := isClean_nil.join hc hb

theorem IsClean.trimLexemes (h : IsClean input) : IsClean (trimLexemes input) :=
  h.of_isInfix (trimLexemes_isInfix input)

/-- Clean lexemes come back from their text. -/
theorem IsClean.lexemes_stripComments (h : IsClean input) :
    lexemes (stripComments (textOf input)) = input := by
  rw [stripComments_textOf h.whole h.noComment, lexemes_textOf h.whole]

theorem isBlank_of_isGap {lexeme : Lexeme} (h : lexeme.isGap = true) : lexeme.isBlank = true := by
  cases lexeme with
  | quoted text => simp [Lexeme.isGap] at h
  | plain c => exact isBlank_of_isLayout h

theorem isWhole_of_isBlank {lexeme : Lexeme} (h : lexeme.isBlank = true) : lexeme.IsWhole := by
  cases lexeme with
  | quoted text => simp [Lexeme.isBlank] at h
  | plain c =>
    by_contra hquote
    have hquote : isQuote c = true := by simpa [Lexeme.IsWhole] using hquote
    simp [Lexeme.isBlank, isBlank_of_isQuote hquote] at h

theorem trim_textOf_of_blank (h : ∀ lexeme ∈ input, lexeme.isBlank = true) :
    trim (textOf input) = [] := by
  rw [trim_textOf fun lexeme hlexeme ↦ isWhole_of_isBlank (h lexeme hlexeme),
    ← List.nil_append input, isTight_nil.trimLexemes_append h]
  rfl

/-- What is spelled by clean lexemes is read off their text. -/
theorem read_textOf {items : List Item} (h : Spelled false items input) (hclean : IsClean input) :
    read (textOf input) = .ok ⟨items⟩ := by
  have hends : Ends false [] := rfl
  have hread := readItems_of_spelled h hends
  rw [List.append_nil] at hread
  obtain ⟨hitems, hend⟩ := hread
  rw [dropLayout_eq, List.dropWhile_eq_nil_iff] at hend
  have hrest : trim (textOf (readItems false input).1.2) = [] :=
    trim_textOf_of_blank fun lexeme hlexeme ↦ isBlank_of_isGap (hend lexeme hlexeme)
  rw [read, hclean.lexemes_stripComments]
  simp [hrest, hitems]

end Clean

/-! ## What has been read -/

section Read

variable {inGroup : Bool} {items : List Item} {input : List Lexeme}

/-- No quote that nothing closes is part of an item. -/
theorem Spelled.isQuote_eq_false (h : Spelled inGroup items input) {c : Char}
    (hc : .plain c ∈ input) : isQuote c = false := by
  have hgapped {gap : List Lexeme} (hgap : ∀ lexeme ∈ gap, lexeme.isGap = true)
      (hc : .plain c ∈ gap) : isQuote c = false := by
    have hwhole : (Lexeme.plain c).IsWhole := isWhole_of_isBlank (isBlank_of_isGap (hgap _ hc))
    exact hwhole
  induction h with
  | nil hgap => exact hgapped hgap hc
  | statement hgap hhead _ ih =>
    simp only [List.mem_append, List.mem_cons, Lexeme.plain.injEq] at hc
    rcases hc with (hc | hc) | rfl | hc
    · exact hgapped hgap hc
    · exact isQuote_of_walk? hhead.isHead hc
    · rfl
    · exact ih hc
  | block hgap hhead _ hbody _ ih =>
    simp only [List.mem_append, List.mem_cons, Lexeme.plain.injEq] at hc
    rcases hc with ((hc | hc) | rfl | hc) | rfl | hc
    · exact hgapped hgap hc
    · exact isQuote_of_walk? hhead.isHead hc
    · rfl
    · exact isQuote_of_walk? hbody hc
    · rfl
    · exact ih hc
  | group hgap hhead _ _ _ ihInside ih =>
    simp only [List.mem_append, List.mem_cons, Lexeme.plain.injEq] at hc
    rcases hc with ((hc | hc) | rfl | hc) | rfl | hc
    · exact hgapped hgap hc
    · exact isQuote_of_walk? hhead.isHead hc
    · rfl
    · exact ihInside hc
    · rfl
    · exact ih hc
  | loose hgap hhead =>
    rcases List.mem_append.1 hc with hc | hc
    · exact hgapped hgap hc
    · exact isQuote_of_walk? hhead.isHead hc

/-- What has been read is spelled by the text without its comments. -/
theorem exists_spelled_of_read {text : Text} {sheet : Stylesheet} (h : read text = .ok sheet)
    (hlayout : ∀ c ∈ text, Text.isBlank c = true → isLayout c = true) :
    ∃ input, Spelled false sheet.items input ∧ IsClean input := by
  let input := lexemes (stripComments text)
  have hgap : ∀ lexeme ∈ input, lexeme.isBlank = true → lexeme.isGap = true := by
    intro lexeme hlexeme hblank
    cases lexeme with
    | quoted string => simp [Lexeme.isBlank] at hblank
    | plain c =>
      rcases mem_of_mem_stripComments (mem_of_plain_mem hlexeme) with rfl | hmem
      · rfl
      · exact hlayout c hmem hblank
  have hread : (readItems false input).1.1 = sheet.items ∧
      ∀ c ∈ textOf (readItems false input).1.2, Text.isBlank c = true := readItems_of_read h
  obtain ⟨hitems, hrest⟩ := hread
  obtain ⟨used, hused, hspelled⟩ := spelled_of_readItems false input
  -- What is left is white space, so none of it is left when layout is dropped.
  have hleft : ∀ lexeme ∈ dropLayout (readItems false input).1.2, lexeme.isGap = true := by
    intro lexeme hlexeme
    have hmem : lexeme ∈ input := by
      rw [hused]
      exact List.mem_append_right used hlexeme
    have hblank : ∀ c ∈ lexeme.text, Text.isBlank c = true :=
      isBlank_of_mem_dropLayout hrest hlexeme
    apply hgap lexeme hmem
    cases lexeme with
    | quoted string =>
      obtain ⟨quote, tail, hquote, rfl, -⟩ := isWhole_of_quoted_mem hmem
      have hquoteBlank := hblank quote List.mem_cons_self
      simp [isBlank_of_isQuote hquote] at hquoteBlank
    | plain c => exact hblank c (List.mem_singleton_self c)
  have hend : dropLayout (readItems false input).1.2 = [] := by
    rw [dropLayout_eq] at hleft ⊢
    rw [← List.dropWhile_idempotent]
    exact List.dropWhile_eq_nil_iff.2 hleft
  rw [hend, List.append_nil] at hused
  rw [← hused, hitems] at hspelled
  refine ⟨input, hspelled, ?_, hasNoComment_stripComments text, hgap⟩
  intro lexeme hlexeme
  cases lexeme with
  | quoted string => exact isWhole_of_quoted_mem hlexeme
  | plain c => exact hspelled.isQuote_eq_false hlexeme

end Read

end ComponentMarkup.Stylesheet
