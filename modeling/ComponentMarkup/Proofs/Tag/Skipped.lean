import ComponentMarkup.Proofs.Tag.Geometry
import ComponentMarkup.Proofs.Tag.Passing
import Mathlib.Data.List.Chain

/-!
# What a search skips

Nothing that the search is for is skipped. No opening tag of the name begins in the text in front of
the first occurrence or between two that follow each other, no closing tag of the name begins in an
inner text, and an occurrence that does not close has no closing tag anywhere behind it.
-/

namespace ComponentMarkup.Tag

open Text

/-! ## Stretches in which no tag begins -/

/-- No tag of a kind begins in this stretch of a source. -/
def Span.HasNo (IsTag : Text → Prop) (source : Text) (span : Span) : Prop :=
  ∀ front behind, source = front ++ behind → span.start ≤ front.byteLength →
    front.byteLength < span.stop → ∀ tag, IsTag tag → ¬tag <+: behind

/-- No tag of a kind begins in the first of two texts, the second standing behind it. -/
def NoneBegins (IsTag : Text → Prop) (s t : Text) : Prop :=
  ∀ front back, s = front ++ back → back ≠ [] → ∀ tag, IsTag tag → ¬tag <+: back ++ t

section Stretches

variable {IsTag : Text → Prop} {s t : Text}

theorem noneBegins_nil (IsTag : Text → Prop) (t : Text) : NoneBegins IsTag [] t := by
  intro front back hsplit hback
  exact absurd (List.append_eq_nil_iff.1 hsplit.symm).2 hback

theorem NoneBegins.cons {c : Char} (h : NoneBegins IsTag s t)
    (hfirst : ∀ tag, IsTag tag → ¬tag <+: c :: (s ++ t)) : NoneBegins IsTag (c :: s) t := by
  intro front back hsplit hback
  cases front with
  | nil =>
    obtain rfl : c :: s = back := hsplit
    exact hfirst
  | cons d front => exact h front back (List.cons.inj hsplit).2 hback

theorem NoneBegins.of_cons {c : Char} (h : NoneBegins IsTag (c :: s) t) : NoneBegins IsTag s t :=
  fun front back hsplit hback ↦ h (c :: front) back (by rw [hsplit, List.cons_append]) hback

/-- Where less stands behind a text, no more tags begin in it. -/
theorem NoneBegins.of_append {more : Text} (h : NoneBegins IsTag s (t ++ more)) :
    NoneBegins IsTag s t := by
  intro front back hsplit hback tag htag hbegins
  apply h front back hsplit hback tag htag
  rw [← List.append_assoc]
  exact hbegins.trans (List.prefix_append _ _)

theorem byteLength_pos_of_ne_nil (h : s ≠ []) : 0 < s.byteLength := by
  obtain ⟨c, s, rfl⟩ := List.exists_cons_of_ne_nil h
  exact Nat.add_pos_left c.utf8Size_pos _

/-- Of two fronts of one text the longer one goes on behind the shorter one. -/
theorem exists_append_of_byteLength_le {front behind other rest : Text}
    (h : front ++ behind = other ++ rest) (hle : other.byteLength ≤ front.byteLength) :
    ∃ between, front = other ++ between ∧ rest = between ++ behind := by
  rcases List.append_eq_append_iff.1 h with ⟨more, hother, hbehind⟩ | ⟨between, hfront, hrest⟩
  · have hmore : more = [] := by
      by_contra hne
      have hpos := byteLength_pos_of_ne_nil hne
      rw [hother, byteLength_append] at hle
      omega
    rw [hmore, List.append_nil] at hother
    rw [hmore, List.nil_append] at hbehind
    exact ⟨[], by rw [hother, List.append_nil], hbehind.symm⟩
  · exact ⟨between, hfront, hrest⟩

/-- A text in which no tag begins makes a stretch in which none begins. -/
theorem NoneBegins.hasNo {span : Span} {before : Text} (h : NoneBegins IsTag s t)
    (hstart : span.start = before.byteLength)
    (hstop : span.stop = before.byteLength + s.byteLength) :
    span.HasNo IsTag (before ++ s ++ t) := by
  intro front behind hsource hle hlt
  rw [List.append_assoc] at hsource
  obtain ⟨passed, rfl, hpassed⟩ := exists_append_of_byteLength_le hsource.symm (hstart ▸ hle)
  rw [byteLength_append] at hlt
  have hshort : passed.byteLength < s.byteLength := by omega
  obtain ⟨back, rfl, rfl⟩ := exists_append_of_byteLength_le hpassed hshort.le
  apply h passed back rfl
  rintro rfl
  simp at hshort

end Stretches

/-! ## One occurrence -/

section Occurrence

variable {mode : LetterCase} {name text source before rest : Text} {occurrence : Occurrence}

/-- Only a name that no white space begins is ever read. -/
theorem isFirm_of_opening? (hne : name ≠ []) {gap written : Text}
    (h : opening? mode name text = some (gap, written, rest)) : IsFirm name := by
  unfold opening? at h
  split at h
  · rename_i read c behind hread
    have hspells := spells_of_name? hread
    have hdrop := name?_eq hread
    split at h
    · cases read with
      | nil =>
        have hname : mode.Spells [] name := hspells.symm
        cases mode with
        | kept => exact absurd hname hne
        | ignored => exact absurd (List.map_eq_nil_iff.1 (show lower name = [] from hname)) hne
      | cons d read =>
        refine IsFirm.of_spells ⟨d, read, rfl, ?_⟩ hspells.symm
        have hhead := List.head?_dropWhile_not isMarkupSpace text
        rw [hdrop] at hhead
        simpa using hhead
    · simp at h
  · simp at h

theorem isFirm_of_first? (hne : name ≠ [])
    (h : first? mode name source = some (before, occurrence, rest)) : IsFirm name := by
  obtain ⟨_, _, _, _, hopening, _⟩ := exists_of_first? h
  exact isFirm_of_opening? hne hopening

/-- No opening tag begins in front of the first occurrence. -/
theorem noneBegins_of_first? (hne : name ≠ [])
    (h : first? mode name source = some (before, occurrence, rest)) :
    NoneBegins (IsOpening mode name) before (occurrence.text ++ rest) := by
  have hfirm := isFirm_of_first? hne h
  induction source generalizing before with
  | nil => simp [first?] at h
  | cons c source ih =>
    simp only [first?] at h
    split at h
    · simp only [Option.map_eq_some_iff, Prod.exists, Prod.mk.injEq] at h
      obtain ⟨_, _, _, rfl, _, _⟩ := h
      exact noneBegins_nil _ _
    · rename_i hopening
      simp only [Option.map_eq_some_iff, Prod.exists, Prod.mk.injEq] at h
      obtain ⟨passed, _, _, hfirst, rfl, rfl, rfl⟩ := h
      apply (ih hfirst).cons
      rw [← List.append_assoc, ← first?_eq hfirst]
      intro tag htag hbegins
      obtain ⟨gap, written, d, rfl, _⟩ := id htag
      obtain rfl : '<' = c := (List.cons_prefix_cons.1 hbegins).1
      have hsome := opening?_isSome_of_isOpening hfirm htag hbegins
      rw [if_pos rfl] at hopening
      simp [hopening] at hsome

/-- No closing tag begins where none is read. -/
theorem not_isClosing_of_closingAt? (hfirm : IsFirm name) (h : closingAt? mode name text = none) :
    ∀ tag, IsClosing mode name tag → ¬tag <+: text := by
  intro tag htag hbegins
  obtain ⟨first, second, written, third, rfl, _⟩ := id htag
  cases text with
  | nil => simp at hbegins
  | cons c text =>
    obtain rfl : '<' = c := (List.cons_prefix_cons.1 hbegins).1
    have hsome := closing?_isSome_of_isClosing hfirm htag hbegins
    rw [closingAt?, Option.map_eq_none_iff] at h
    simp [h] at hsome

/-- No closing tag begins in an inner text. -/
theorem noneBegins_of_inner? (hfirm : IsFirm name) {inner closing : Text}
    (h : inner? mode name text = some (inner, closing, rest)) :
    NoneBegins (IsClosing mode name) inner (closing ++ rest) := by
  induction text generalizing inner with
  | nil => simp [inner?] at h
  | cons c text ih =>
    simp only [inner?] at h
    split at h
    · simp only [Option.some.injEq, Prod.mk.injEq] at h
      rw [← h.1]
      exact noneBegins_nil _ _
    · rename_i hclosing
      simp only [Option.map_eq_some_iff, Prod.exists, Prod.mk.injEq] at h
      obtain ⟨_, _, _, hinner, rfl, rfl, rfl⟩ := h
      apply (ih hinner).cons
      rw [← List.append_assoc, ← inner?_eq hinner]
      exact not_isClosing_of_closingAt? hfirm hclosing

/-- Where no inner text ends, no closing tag begins. -/
theorem noneBegins_of_inner?_eq_none (hfirm : IsFirm name) (h : inner? mode name text = none) :
    NoneBegins (IsClosing mode name) text [] := by
  induction text with
  | nil => exact noneBegins_nil _ _
  | cons c text ih =>
    simp only [inner?] at h
    split at h
    · simp at h
    · rename_i hclosing
      apply (ih (Option.map_eq_none_iff.1 h)).cons
      rw [List.append_nil]
      exact not_isClosing_of_closingAt? hfirm hclosing

/-- An occurrence ends at the first closing tag, or none is left behind it. -/
structure Occurrence.EndsFirst (mode : LetterCase) (name rest : Text) (occurrence : Occurrence) :
    Prop where
  closed : ∀ inner closing, occurrence.ending = .closed inner closing →
    NoneBegins (IsClosing mode name) inner (closing ++ rest)
  unclosed : occurrence.ending = .unclosed → NoneBegins (IsClosing mode name) rest []

theorem endsFirst_of_first? (hne : name ≠ [])
    (h : first? mode name source = some (before, occurrence, rest)) :
    occurrence.EndsFirst mode name rest := by
  have hfirm := isFirm_of_first? hne h
  obtain ⟨_, _, inTag, behind, _, _, hending⟩ := exists_of_first? h
  unfold ending at hending
  split at hending
  · obtain ⟨_, hself, _⟩ := by simpa only [Prod.mk.injEq] using hending
    exact ⟨by simp [← hself], by simp [← hself]⟩
  · split at hending
    · rename_i inner closing behind hinner
      obtain ⟨_, hclosed, rfl⟩ := by simpa only [Prod.mk.injEq] using hending
      refine ⟨fun _ _ heq ↦ ?_, by simp [← hclosed]⟩
      obtain ⟨rfl, rfl⟩ := Ending.closed.inj (hclosed.trans heq)
      exact noneBegins_of_inner? hfirm hinner
    · rename_i hinner
      obtain ⟨_, hunclosed, rfl⟩ := by simpa only [Prod.mk.injEq] using hending
      exact ⟨by simp [← hunclosed], fun _ ↦ noneBegins_of_inner?_eq_none hfirm hinner⟩

end Occurrence

/-! ## All occurrences -/

/-- An occurrence with inner text is closed by the first closing tag behind its opening tag, and one
that is neither closed nor closes itself has no closing tag behind it. -/
structure Placed.ClosesFirst (mode : LetterCase) (name source : Text) (placed : Placed) : Prop where
  inner : ∀ inner ∈ placed.innerSpan?, inner.HasNo (IsClosing mode name) source
  closing : ∀ inner ∈ placed.innerSpan?, ∃ closing, IsClosing mode name closing ∧
    (⟨inner.stop, placed.span.stop⟩ : Span).text? source = some closing
  unclosed : placed.occurrence.isSelfClosing = false → placed.innerSpan? = none →
    (⟨placed.span.stop, source.byteLength⟩ : Span).HasNo (IsClosing mode name) source

/-- No opening tag begins in front of the first occurrence or between two that follow each other,
and every occurrence ends where it can first. -/
structure IsComplete (mode : LetterCase) (name source : Text) (found : List Placed) : Prop where
  first : ∀ placed ∈ found.head?,
    (⟨0, placed.span.start⟩ : Span).HasNo (IsOpening mode name) source
  between : found.IsChain fun a b ↦
    (⟨a.span.stop, b.span.start⟩ : Span).HasNo (IsOpening mode name) source
  closesFirst : ∀ placed ∈ found, placed.ClosesFirst mode name source

section Placed

variable {mode : LetterCase} {name : Text}

/-- In front of the first occurrence and between two that follow each other no opening tag begins,
wherever the search begins. -/
theorem hasNo_place (mode : LetterCase) (hne : name ≠ []) (before source : Text) :
    let found := place before.byteLength (occurrencesFrom mode name source)
    (∀ placed ∈ found.head?, (⟨before.byteLength, placed.span.start⟩ : Span).HasNo
        (IsOpening mode name) (before ++ source)) ∧
      found.IsChain fun a b ↦ (⟨a.span.stop, b.span.start⟩ : Span).HasNo
        (IsOpening mode name) (before ++ source) := by
  fun_induction occurrencesFrom mode name source generalizing before with
  | case1 => simp [place]
  | case2 source passed occurrence rest hfirst ih =>
    have hsource : before ++ source = before ++ passed ++ occurrence.text ++ rest := by
      rw [first?_eq hfirst]
      simp
    have hrest := ih (before ++ passed ++ occurrence.text)
    simp only [byteLength_append, ← hsource] at hrest
    simp only [place]
    refine ⟨?_, List.isChain_cons.2 hrest⟩
    intro placed hplaced
    obtain rfl := Option.some.inj (List.head?_cons.symm.trans hplaced)
    have hnone := noneBegins_of_first? hne hfirst
    rw [first?_eq hfirst, List.append_assoc passed, ← List.append_assoc before]
    exact hnone.hasNo rfl rfl

/-- Whatever is found closes with the first closing tag, or none follows it. -/
theorem closesFirst_of_first? {front left passed rest : Text} {placed : Placed} (hne : name ≠ [])
    (hfirst : first? mode name left = some (passed, placed.occurrence, rest))
    (hstart : placed.start = (front ++ passed).byteLength) :
    placed.ClosesFirst mode name (front ++ left) := by
  have hsource : front ++ left = (front ++ passed) ++ placed.occurrence.text ++ rest := by
    rw [first?_eq hfirst]
    simp
  have hends := endsFirst_of_first? hne hfirst
  have hone : Char.utf8Size '>' = 1 := rfl
  cases hending : placed.occurrence.ending with
  | selfClosing =>
    constructor <;> simp [Placed.innerSpan?, hending, Ending.inner?, Occurrence.isSelfClosing]
  | unclosed =>
    refine ⟨by simp [Placed.innerSpan?, hending, Ending.inner?],
      by simp [Placed.innerSpan?, hending, Ending.inner?], fun _ _ ↦ ?_⟩
    rw [hsource, ← List.append_nil (_ ++ rest)]
    apply (hends.unclosed hending).hasNo
    · simp only [Placed.span, hstart, byteLength_append]
    · rw [List.append_nil, byteLength_append]
  | closed inner closing =>
    have hspan : placed.innerSpan? = some
        ⟨placed.attributeSpan.stop + 1, placed.attributeSpan.stop + 1 + inner.byteLength⟩ := by
      simp [Placed.innerSpan?, hending, Ending.inner?]
    have hsplit : front ++ left = (front ++ passed ++ placed.occurrence.front ++
        placed.occurrence.attributes ++ ['>']) ++ inner ++ (closing ++ rest) := by
      rw [hsource]
      simp [Occurrence.text, hending, Ending.text]
    refine ⟨?_, ?_, by simp [hspan]⟩
    · rw [hspan, hsplit]
      simp only [Option.mem_some_iff, forall_eq']
      apply (hends.closed inner closing hending).hasNo <;>
        simp only [Placed.attributeSpan, hstart, byteLength_append, byteLength, hone]
    · rw [hspan, hsplit, ← List.append_assoc _ closing]
      simp only [Option.mem_some_iff, forall_eq']
      refine ⟨closing, (isSpelled_of_first? hfirst).closing inner closing hending, ?_⟩
      apply Span.text?_append
      · simp only [Placed.attributeSpan, hstart, byteLength_append, byteLength, hone]
      · simp only [Placed.span, Occurrence.text, hending, Ending.text, hstart, byteLength_append,
          List.cons_append, byteLength, hone]
        omega

end Placed

/-- A search, for any name in any source, skips no tag that it should have found. -/
theorem isComplete_placedOccurrences (mode : LetterCase) (name source : Text) :
    IsComplete mode name source (placedOccurrences mode name source) := by
  unfold placedOccurrences scan
  split
  · exact ⟨by simp [place], .nil, by simp [place]⟩
  · rename_i hname
    have hne : name ≠ [] := by simpa using hname
    have hopening := hasNo_place mode hne [] source
    refine ⟨hopening.1, hopening.2, fun placed hplaced ↦ ?_⟩
    obtain ⟨front, left, passed, rest, hsource, hfirst, hstart⟩ :=
      exists_first?_of_mem_place [] source hplaced
    rw [List.nil_append] at hsource
    rw [hsource]
    exact closesFirst_of_first? hne hfirst hstart

end ComponentMarkup.Tag
