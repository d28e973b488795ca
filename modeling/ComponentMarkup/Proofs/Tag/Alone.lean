import ComponentMarkup.Proofs.Tag.Quotes

/-!
# Occurrences on their own

A search looks ahead for the end of a name, the end of an opening tag and the closing tag, but never
behind the end of the occurrence that it reports. Cut out of its source, an occurrence is therefore
found again as the only one, with the same attributes and the same inner text. So the text of an
occurrence decides what it is, wherever it stands.
-/

namespace ComponentMarkup.Tag

open Text

variable {mode : LetterCase} {name source : Text}

/-! ## What is cut off -/

section Cut

variable {before rest closing : Text} {occurrence : Occurrence}

/-- An inner text goes on to a closing tag if none begins in it. -/
theorem inner?_append_closing (hname : IsFirm name) (h : IsClosing mode name closing) {inner : Text}
    (hnone : NoneBegins (IsClosing mode name) inner (closing ++ rest)) :
    inner? mode name (inner ++ (closing ++ rest)) = some (inner, closing, rest) := by
  induction inner with
  | nil =>
    have hread := closingAt?_append hname h rest
    obtain ⟨c, tail, rfl⟩ := List.exists_cons_of_ne_nil h.ne_nil
    rw [List.cons_append] at hread
    rw [List.nil_append, List.cons_append, inner?, hread]
  | cons c inner ih =>
    have hclosing : closingAt? mode name (c :: (inner ++ (closing ++ rest))) = none := by
      by_contra hsome
      obtain ⟨⟨tag, behind⟩, hread⟩ := Option.ne_none_iff_exists'.1 hsome
      apply hnone [] (c :: inner) rfl (List.cons_ne_nil _ _) tag (isClosing_of_closingAt? hread)
      exact ⟨behind, (closingAt?_eq hread).symm⟩
    rw [List.cons_append, inner?_cons_of_closingAt? hclosing, ih hnone.of_cons, Option.map_some]

/-- What ends an occurrence ends it also where nothing follows. -/
theorem exists_ending_eq (mode : LetterCase) (hname : IsFirm name) (inTag behind : Text) :
    ∃ cut, ending mode name inTag cut =
      ((ending mode name inTag behind).1, (ending mode name inTag behind).2.1, []) := by
  unfold ending
  by_cases hslash : inTag.getLast? = some '/'
  · simp only [hslash, if_true]
    exact ⟨[], rfl⟩
  · simp only [hslash, if_false]
    cases hinner : inner? mode name behind with
    -- Without a closing tag the occurrence is its opening tag, and all behind that is cut off.
    | none => exact ⟨[], rfl⟩
    | some found =>
      obtain ⟨inner, closing, rest⟩ := found
      have hnone : NoneBegins (IsClosing mode name) inner (closing ++ []) := by
        rw [List.append_nil]
        exact (noneBegins_of_inner? hname hinner).of_append
      have hcut := inner?_append_closing hname (isClosing_of_inner? hinner) hnone
      exact ⟨inner ++ (closing ++ []), by rw [hcut]⟩

/-- The first occurrence is the first one of its own text, and all of it. -/
theorem first?_text (hne : name ≠ [])
    (h : first? mode name source = some (before, occurrence, rest)) :
    first? mode name occurrence.text = some ([], occurrence, []) := by
  obtain ⟨pieces, behind, hgap, hfirm, hspells, hends, hcut, hending⟩ :=
    exists_isCut_of_first? hne h
  obtain ⟨cut, hsame⟩ :=
    exists_ending_eq mode (isFirm_of_first? hne h) (textOf pieces) behind
  rw [hending] at hsame
  have htext : occurrence.text =
      '<' :: occurrence.gap ++ occurrence.name ++ (textOf pieces ++ '>' :: cut) := by
    have hrest := ending_eq mode name (textOf pieces) cut
    rw [hsame, List.append_nil] at hrest
    rw [← hrest, Occurrence.text, Occurrence.front, List.append_assoc]
  rw [htext, first?_append_of_isCut hgap hfirm hspells hends hcut cut, hsame]

end Cut

/-! ## What is shown of an occurrence -/

/-- The texts of the stretches of an occurrence. -/
structure Report where
  text : Text
  attributes : Text
  inner : Option Text
  isSelfClosing : Bool
  deriving DecidableEq

/-- What is shown of an occurrence in a source, if all its stretches have texts there. -/
def Placed.report? (source : Text) (placed : Placed) : Option Report := do
  let text ← placed.span.text? source
  let attributes ← placed.attributeSpan.text? source
  let inner ← placed.innerSpan?.mapM (·.text? source)
  return ⟨text, attributes, inner, placed.occurrence.isSelfClosing⟩

def Occurrence.report (occurrence : Occurrence) : Report where
  text := occurrence.text
  attributes := occurrence.attributes
  inner := occurrence.ending.inner?
  isSelfClosing := occurrence.isSelfClosing

/-- A search of the text alone finds one occurrence, which is the whole text and shows the same. -/
def Report.IsFoundAlone (mode : LetterCase) (name : Text) (report : Report) : Prop :=
  ∃ alone, placedOccurrences mode name report.text = [alone] ∧
    alone.span = ⟨0, report.text.byteLength⟩ ∧ alone.report? report.text = some report

section Reported

variable {placed : Placed}

theorem Placed.report?_append {before : Text} (hstart : placed.start = before.byteLength)
    (behind : Text) :
    placed.report? (before ++ placed.occurrence.text ++ behind) =
      some placed.occurrence.report := by
  have hinner : placed.innerSpan?.mapM (·.text? (before ++ placed.occurrence.text ++ behind)) =
      some placed.occurrence.ending.inner? := by
    cases hending : placed.occurrence.ending with
    | selfClosing => simp [innerSpan?, hending, Ending.inner?]
    | unclosed => simp [innerSpan?, hending, Ending.inner?]
    | closed inner closing =>
      obtain ⟨span, hspan, htext⟩ := exists_innerSpan?_eq hstart hending behind
      rw [hspan, Option.mapM_some, htext]
      rfl
  rw [report?, text?_span hstart, text?_attributeSpan hstart, hinner]
  rfl

theorem exists_source_eq_of_mem (h : placed ∈ placedOccurrences mode name source) :
    ∃ before behind, source = before ++ placed.occurrence.text ++ behind ∧
      placed.start = before.byteLength := by
  rw [placedOccurrences_eq_place (ne_nil_of_mem_placedOccurrences h)] at h
  obtain ⟨front, left, passed, rest, hsource, hfirst, hstart⟩ :=
    exists_first?_of_mem_place [] source h
  refine ⟨front ++ passed, rest, ?_, hstart⟩
  rw [← List.nil_append source, hsource, first?_eq hfirst]
  simp

theorem text?_span_of_mem (h : placed ∈ placedOccurrences mode name source) :
    placed.span.text? source = some placed.occurrence.text := by
  obtain ⟨before, behind, hsource, hstart⟩ := exists_source_eq_of_mem h
  rw [hsource]
  exact Placed.text?_span hstart behind

/-- What is found shows what it is. -/
theorem report?_of_mem (h : placed ∈ placedOccurrences mode name source) :
    placed.report? source = some placed.occurrence.report := by
  obtain ⟨before, behind, hsource, hstart⟩ := exists_source_eq_of_mem h
  rw [hsource]
  exact Placed.report?_append hstart behind

/-- In its own text an occurrence is all that is found. -/
theorem placedOccurrences_text (h : placed ∈ placedOccurrences mode name source) :
    placedOccurrences mode name placed.occurrence.text = [⟨0, placed.occurrence⟩] := by
  have hne := ne_nil_of_mem_placedOccurrences h
  rw [placedOccurrences_eq_place hne] at h ⊢
  obtain ⟨front, left, passed, rest, _, hfirst, _⟩ := exists_first?_of_mem_place [] source h
  rw [occurrencesFrom_of_first?_eq_some (first?_text hne hfirst),
    occurrencesFrom_of_first?_eq_none rfl]
  rfl

theorem isFoundAlone_report (h : placed ∈ placedOccurrences mode name source) :
    placed.occurrence.report.IsFoundAlone mode name := by
  have halone := placedOccurrences_text h
  refine ⟨⟨0, placed.occurrence⟩, halone, ?_, ?_⟩
  · rw [Placed.span, Nat.zero_add, Occurrence.report]
  · exact report?_of_mem (halone ▸ List.mem_singleton_self _)

/-- Occurrences of one name with one text are the same, also in different sources. -/
theorem occurrence_eq_of_text_eq {other : Text} {a b : Placed}
    (ha : a ∈ placedOccurrences mode name source) (hb : b ∈ placedOccurrences mode name other)
    (htext : a.occurrence.text = b.occurrence.text) : a.occurrence = b.occurrence := by
  have hfound := placedOccurrences_text ha
  rw [htext, placedOccurrences_text hb, List.singleton_inj, Placed.mk.injEq] at hfound
  exact hfound.2.symm

end Reported

theorem map_occurrence_place (start : Nat) (found : List (Text × Occurrence)) :
    (place start found).map Placed.occurrence = found.map Prod.snd := by
  induction found generalizing start with
  | nil => rfl
  | cons first found ih => rw [place, List.map_cons, List.map_cons, ih]

/-- Where they lie is all that occurrences of one name with one text can differ in. -/
theorem eq_of_mem_occurrences_of_text_eq {other : Text} {a b : Occurrence}
    (ha : a ∈ occurrences mode name source) (hb : b ∈ occurrences mode name other)
    (htext : a.text = b.text) : a = b := by
  rw [occurrences, ← map_occurrence_place 0, List.mem_map] at ha hb
  obtain ⟨placed, hplaced, rfl⟩ := ha
  obtain ⟨twin, htwin, rfl⟩ := hb
  exact occurrence_eq_of_text_eq hplaced htwin htext

/-- Whatever is found of a name is found again alone in its own text. What is shown of it is decided
by this text: occurrences of the name with one text show the same, also in different sources. -/
theorem isFoundAlone_and_report?_eq (mode : LetterCase) (name source : Text) :
    ∀ placed ∈ placedOccurrences mode name source, ∃ report ∈ placed.report? source,
      report.IsFoundAlone mode name ∧
        ∀ other, ∀ twin ∈ placedOccurrences mode name other,
          twin.span.text? other = some report.text → twin.report? other = some report := by
  intro placed hplaced
  refine ⟨placed.occurrence.report, report?_of_mem hplaced, isFoundAlone_report hplaced, ?_⟩
  intro other twin htwin hspan
  have htext : twin.occurrence.text = placed.occurrence.text :=
    Option.some.inj ((text?_span_of_mem htwin).symm.trans hspan)
  rw [report?_of_mem htwin, occurrence_eq_of_text_eq htwin hplaced htext]

/-- An occurrence with a closing tag in a value and its own name in the inner text. -/
def cardWithCard : Placed where
  start := 8
  occurrence := {
    gap := [' ']
    name := "CARD".toList
    attributes := " a=\"</card>\"".toList
    ending := .closed "1<card b/>".toList "</ Card >".toList }

theorem cardWithCard_isFoundAlone :
    let source := "<cards/>< CARD a=\"</card>\">1<card b/></ Card ></card>".toList
    cardWithCard ∈ placedOccurrences .ignored "card".toList source ∧
      ∃ report ∈ cardWithCard.report? source, report.IsFoundAlone .ignored "card".toList := by
  have hmem : cardWithCard ∈ placedOccurrences .ignored "card".toList
      "<cards/>< CARD a=\"</card>\">1<card b/></ Card ></card>".toList := by decide +kernel
  obtain ⟨report, hreport, halone, _⟩ := isFoundAlone_and_report?_eq .ignored "card".toList _ _ hmem
  exact ⟨hmem, report, hreport, halone⟩

end ComponentMarkup.Tag
