import ComponentMarkup.Proofs.Tag.Spelling
import Mathlib.Data.Option.Basic

/-!
# Where occurrences lie

A stretch of a source has a text if it lies in the source, does not end before it begins, and both
its ends fall between characters. All stretches that a search reports have their texts. The spans
of the occurrences come one behind the other, inside each the attributes come before the inner text,
and the text of a span is the tag as it is spelled, part by part.
-/

namespace ComponentMarkup

namespace Text

/-- Cuts a text behind a number of bytes. No cut falls inside a character or behind the end. -/
def cutAt? : Text → Nat → Option (Text × Text)
  | text, 0 => some ([], text)
  | [], _ + 1 => none
  | c :: text, place + 1 =>
    if place + 1 < c.utf8Size then none
    else (cutAt? text (place + 1 - c.utf8Size)).map fun (before, behind) ↦ (c :: before, behind)

theorem cutAt?_byteLength (before behind : Text) :
    cutAt? (before ++ behind) before.byteLength = some (before, behind) := by
  induction before with
  | nil => cases behind <;> rfl
  | cons c before ih =>
    have hsize : 0 < c.utf8Size := c.utf8Size_pos
    have hplace : byteLength (c :: before) = c.utf8Size + byteLength before := rfl
    obtain ⟨place, hsucc⟩ : ∃ place, byteLength (c :: before) = place + 1 :=
      ⟨byteLength (c :: before) - 1, by omega⟩
    rw [List.cons_append, hsucc, cutAt?, ← hsucc, hplace, if_neg (by omega),
      Nat.add_sub_cancel_left, ih]
    rfl

end Text

namespace Tag

open Text

/-- What a stretch of a source covers. -/
def Span.text? (span : Span) (source : Text) : Option Text :=
  if span.stop < span.start then none
  else (cutAt? source span.start).bind fun (_, behind) ↦
    (cutAt? behind (span.stop - span.start)).map Prod.fst

theorem Span.text?_append {span : Span} {before : Text} (text behind : Text)
    (hstart : span.start = before.byteLength)
    (hstop : span.stop = before.byteLength + text.byteLength) :
    span.text? (before ++ text ++ behind) = some text := by
  have hfirst := cutAt?_byteLength before (text ++ behind)
  have hsecond := cutAt?_byteLength text behind
  rw [text?, hstart, hstop, if_neg (by omega), Nat.add_sub_cancel_left, List.append_assoc, hfirst]
  simp [hsecond]

example : (⟨1, 3⟩ : Span).text? ['a', 'é', 'b'] = some ['é'] := by decide

example : (⟨1, 2⟩ : Span).text? ['a', 'é', 'b'] = none := by decide

/-! ## What is reported of an occurrence -/

/-- What stands behind the attributes. -/
inductive Placed.EndsWith (mode : LetterCase) (name source : Text) (placed : Placed) : Text → Prop
  | selfClosing (self_closing : placed.occurrence.isSelfClosing = true)
      (no_inner : placed.innerSpan? = none) : EndsWith mode name source placed ['/', '>']
  | unclosed (not_self_closing : placed.occurrence.isSelfClosing = false)
      (no_inner : placed.innerSpan? = none) : EndsWith mode name source placed ['>']
  | closed {span : Span} {closing : Text}
      (not_self_closing : placed.occurrence.isSelfClosing = false)
      (inner_span : placed.innerSpan? = some span)
      (inner_text : span.text? source = some placed.occurrence.innerText)
      (isClosing : IsClosing mode name closing) :
      EndsWith mode name source placed ('>' :: placed.occurrence.innerText ++ closing)

/-- The stretches of an occurrence lie in each other in the order of the text, and they have texts:
together with the name and the ending these are the text of the whole. -/
structure Placed.IsReported (mode : LetterCase) (name source : Text) (placed : Placed) : Prop where
  attributes : placed.span.start < placed.attributeSpan.start ∧
    placed.attributeSpan.start ≤ placed.attributeSpan.stop ∧
    placed.attributeSpan.stop < placed.span.stop
  inner : ∀ inner ∈ placed.innerSpan?, placed.attributeSpan.stop < inner.start ∧
    inner.start ≤ inner.stop ∧ inner.stop < placed.span.stop
  attributes_text : placed.attributeSpan.text? source = some placed.occurrence.attributes
  text : ∃ gap written ending, (∀ c ∈ gap, isMarkupSpace c = true) ∧ mode.Spells name written ∧
    placed.EndsWith mode name source ending ∧ placed.span.text? source =
      some ('<' :: gap ++ written ++ placed.occurrence.attributes ++ ending)

section Reported

variable {mode : LetterCase} {name : Text} {placed : Placed}

theorem IsClosing.byteLength_pos {closing : Text} (h : IsClosing mode name closing) :
    0 < closing.byteLength := by
  obtain ⟨first, second, written, third, rfl, _⟩ := h
  have hone : Char.utf8Size '<' = 1 := rfl
  simp only [List.cons_append, byteLength, hone]
  omega

theorem Ending.byteLength_pos (ending : Ending) : 0 < ending.text.byteLength := by
  have hslash : Char.utf8Size '/' = 1 := rfl
  have hone : Char.utf8Size '>' = 1 := rfl
  cases ending <;> simp only [Ending.text, List.cons_append, byteLength, hone, hslash] <;> omega

namespace Placed

variable {before : Text}

theorem text?_span (hstart : placed.start = before.byteLength) (behind : Text) :
    placed.span.text? (before ++ placed.occurrence.text ++ behind) =
      some placed.occurrence.text := by
  apply Span.text?_append <;> simp only [span, hstart]

theorem text?_attributeSpan (hstart : placed.start = before.byteLength) (behind : Text) :
    placed.attributeSpan.text? (before ++ placed.occurrence.text ++ behind) =
      some placed.occurrence.attributes := by
  have hsource : before ++ placed.occurrence.text ++ behind =
      (before ++ placed.occurrence.front) ++ placed.occurrence.attributes ++
        (placed.occurrence.ending.text ++ behind) := by
    simp [Occurrence.text]
  rw [hsource]
  apply Span.text?_append <;> simp only [attributeSpan, byteLength_append, hstart]

/-- The span of an inner text has it as its text. -/
theorem exists_innerSpan?_eq (hstart : placed.start = before.byteLength) {inner closing : Text}
    (hending : placed.occurrence.ending = .closed inner closing) (behind : Text) :
    ∃ span, placed.innerSpan? = some span ∧
      span.text? (before ++ placed.occurrence.text ++ behind) = some inner := by
  have hone : Char.utf8Size '>' = 1 := rfl
  have hsource : before ++ placed.occurrence.text ++ behind =
      (before ++ placed.occurrence.front ++ placed.occurrence.attributes ++ ['>']) ++ inner ++
        (closing ++ behind) := by
    simp [Occurrence.text, hending, Ending.text]
  refine ⟨⟨placed.attributeSpan.stop + 1, placed.attributeSpan.stop + 1 + inner.byteLength⟩,
    by simp [innerSpan?, hending, Ending.inner?], ?_⟩
  rw [hsource]
  apply Span.text?_append <;>
    simp only [attributeSpan, byteLength_append, byteLength, hone, hstart]

end Placed

theorem endsWith_of_isSpelled (h : placed.occurrence.IsSpelled mode name) (before behind : Text)
    (hstart : placed.start = before.byteLength) :
    placed.EndsWith mode name (before ++ placed.occurrence.text ++ behind)
      placed.occurrence.ending.text := by
  cases hending : placed.occurrence.ending with
  | selfClosing =>
    exact .selfClosing (by simp [Occurrence.isSelfClosing, hending])
      (by simp [Placed.innerSpan?, hending, Ending.inner?])
  | unclosed =>
    exact .unclosed (by simp [Occurrence.isSelfClosing, hending])
      (by simp [Placed.innerSpan?, hending, Ending.inner?])
  | closed inner closing =>
    have hinner : placed.occurrence.innerText = inner := by
      simp [Occurrence.innerText, hending, Ending.inner?]
    obtain ⟨span, hspan, htext⟩ := Placed.exists_innerSpan?_eq hstart hending behind
    rw [Ending.text, ← hinner]
    refine .closed ?_ hspan ?_ (h.closing inner closing hending)
    · simp [Occurrence.isSelfClosing, hending]
    · rw [hinner, htext]

theorem isReported_of_isSpelled (h : placed.occurrence.IsSpelled mode name) (before behind : Text)
    (hstart : placed.start = before.byteLength) :
    placed.IsReported mode name (before ++ placed.occurrence.text ++ behind) := by
  have hending := placed.occurrence.ending.byteLength_pos
  have hone : Char.utf8Size '<' = 1 := rfl
  refine ⟨?_, ?_, Placed.text?_attributeSpan hstart behind, ?_⟩
  · simp only [Placed.span, Placed.attributeSpan, Occurrence.text, Occurrence.front,
      List.cons_append, byteLength, byteLength_append, hone]
    omega
  · intro span hspan
    cases hclosed : placed.occurrence.ending with
    | selfClosing => simp [Placed.innerSpan?, hclosed, Ending.inner?] at hspan
    | unclosed => simp [Placed.innerSpan?, hclosed, Ending.inner?] at hspan
    | closed inner closing =>
      have hclosing := (h.closing inner closing hclosed).byteLength_pos
      have hgreater : Char.utf8Size '>' = 1 := rfl
      simp only [Placed.innerSpan?, hclosed, Ending.inner?, Option.map_some, Option.mem_some_iff]
        at hspan
      rw [← hspan]
      simp only [Placed.span, Placed.attributeSpan, Occurrence.text, hclosed, Ending.text,
        List.cons_append, byteLength, byteLength_append, hgreater]
      omega
  · exact ⟨placed.occurrence.gap, placed.occurrence.name, placed.occurrence.ending.text, h.gap,
      h.written, endsWith_of_isSpelled h before behind hstart, Placed.text?_span hstart behind⟩

end Reported

/-! ## All occurrences -/

theorem start_le_of_mem_place {start : Nat} {found : List (Text × Occurrence)} {placed : Placed}
    (h : placed ∈ place start found) : start ≤ placed.start := by
  induction found generalizing start with
  | nil => simp [place] at h
  | cons first found ih =>
    simp only [place] at h
    rcases List.mem_cons.1 h with rfl | h
    · exact Nat.le_add_right _ _
    · have := ih h
      omega

theorem pairwise_place (start : Nat) (found : List (Text × Occurrence)) :
    (place start found).Pairwise fun a b ↦ a.span.stop ≤ b.span.start := by
  induction found generalizing start with
  | nil => exact List.Pairwise.nil
  | cons first found ih => exact List.Pairwise.cons (fun _ ↦ start_le_of_mem_place) (ih _)

/-- Every occurrence is the first one of what is left when the search comes to it. -/
theorem exists_first?_of_mem_place {mode : LetterCase} {name : Text} (before source : Text)
    {placed : Placed} (h : placed ∈ place before.byteLength (occurrencesFrom mode name source)) :
    ∃ front left passed rest, before ++ source = front ++ left ∧
      first? mode name left = some (passed, placed.occurrence, rest) ∧
      placed.start = (front ++ passed).byteLength := by
  fun_induction occurrencesFrom mode name source generalizing before with
  | case1 => simp [place] at h
  | case2 source passed occurrence rest hfirst ih =>
    simp only [place] at h
    rcases List.mem_cons.1 h with rfl | h
    · exact ⟨before, source, passed, rest, rfl, hfirst, (byteLength_append before passed).symm⟩
    · have hsource : before ++ source = before ++ passed ++ occurrence.text ++ rest := by
        rw [first?_eq hfirst]
        simp
      rw [hsource]
      apply ih
      rwa [byteLength_append, byteLength_append]

/-- The occurrences of what follows a text are reported where they lie behind it. -/
theorem isReported_of_mem_place {mode : LetterCase} {name : Text} (before source : Text)
    {placed : Placed} (h : placed ∈ place before.byteLength (occurrencesFrom mode name source)) :
    placed.IsReported mode name (before ++ source) := by
  obtain ⟨front, left, passed, rest, hsource, hfirst, hstart⟩ :=
    exists_first?_of_mem_place before source h
  have hsplit : before ++ source = (front ++ passed) ++ placed.occurrence.text ++ rest := by
    rw [hsource, first?_eq hfirst]
    simp
  rw [hsplit]
  exact isReported_of_isSpelled (isSpelled_of_first? hfirst) _ _ hstart

/-- Every search, for any name in any source, ends with occurrences whose spans come one behind the
other, and each is reported with stretches that have their texts in the source. -/
theorem pairwise_and_isReported (mode : LetterCase) (name source : Text) :
    (placedOccurrences mode name source).Pairwise
        (fun a b ↦ a.span.start < b.span.start ∧ a.span.stop ≤ b.span.start) ∧
      ∀ placed ∈ placedOccurrences mode name source, placed.IsReported mode name source := by
  have hreported : ∀ placed ∈ placedOccurrences mode name source,
      placed.IsReported mode name source := by
    intro placed hplaced
    unfold placedOccurrences scan at hplaced
    split at hplaced
    · simp [place] at hplaced
    · exact isReported_of_mem_place [] source hplaced
  refine ⟨?_, hreported⟩
  apply (pairwise_place 0 (scan mode name source)).imp_of_mem
  intro a b ha _ hstop
  have hattributes := (hreported a ha).attributes
  exact ⟨by omega, hstop⟩

end Tag

end ComponentMarkup
