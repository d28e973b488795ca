import ComponentMarkup.Tag.Scan
import Mathlib.Data.List.TakeWhile

/-!
# How tags are spelled

An opening tag begins with `<`, white space, the name and a character that ends names. A closing tag
is `<`, `/`, the name and `>` with white space between them. The name is written letter by letter,
or in any case of its ASCII letters. Whatever a search takes for a tag is spelled like that, for
every name that can be looked for.
-/

namespace ComponentMarkup.Tag

open Text

/-- How the letters of a name may be written. -/
def LetterCase.Spells : LetterCase → (name written : Text) → Prop
  | .kept, name, written => written = name
  | .ignored, name, written => lower written = lower name

instance (mode : LetterCase) (name written : Text) : Decidable (mode.Spells name written) :=
  match mode with
  | .kept => inferInstanceAs (Decidable (written = name))
  | .ignored => inferInstanceAs (Decidable (lower written = lower name))

/-- The beginning of an opening tag, up to the character that ends its name. -/
def IsOpening (mode : LetterCase) (name opening : Text) : Prop :=
  ∃ gap written c, opening = '<' :: gap ++ written ++ [c] ∧
    (∀ d ∈ gap, isMarkupSpace d = true) ∧ mode.Spells name written ∧ endsName c = true

/-- A whole closing tag. -/
def IsClosing (mode : LetterCase) (name closing : Text) : Prop :=
  ∃ first second written third,
    closing = '<' :: first ++ '/' :: second ++ written ++ third ++ ['>'] ∧
    (∀ d ∈ first ++ second ++ third, isMarkupSpace d = true) ∧ mode.Spells name written

theorem IsClosing.ne_nil {mode : LetterCase} {name closing : Text}
    (h : IsClosing mode name closing) : closing ≠ [] := by
  obtain ⟨first, second, written, third, rfl, _⟩ := h
  simp

/-- The parts of an occurrence are what they are said to be. -/
structure Occurrence.IsSpelled (mode : LetterCase) (name : Text) (occurrence : Occurrence) :
    Prop where
  gap : ∀ c ∈ occurrence.gap, isMarkupSpace c = true
  written : mode.Spells name occurrence.name
  closing : ∀ inner closing, occurrence.ending = .closed inner closing →
    IsClosing mode name closing

section Reading

variable {mode : LetterCase} {name text : Text}

theorem LetterCase.Spells.cons {a c : Char} {written : Text} (hc : mode.agrees a c = true)
    (h : mode.Spells name written) : mode.Spells (a :: name) (c :: written) := by
  cases mode with
  | kept =>
    have heq : a = c := by simpa [agrees] using hc
    rw [Spells, heq, h]
  | ignored =>
    have hlower : a.toLower = c.toLower := by simpa [agrees] using hc
    have hrest : written.map Char.toLower = name.map Char.toLower := h
    simp [Spells, lower, hlower, hrest]

theorem spells_of_name? {written rest : Text} (h : name? mode name text = some (written, rest)) :
    mode.Spells name written := by
  induction name generalizing text written with
  | nil =>
    simp only [name?, Option.some.injEq, Prod.mk.injEq] at h
    rw [← h.1]
    cases mode <;> rfl
  | cons a name ih =>
    cases text with
    | nil => simp [name?] at h
    | cons c text =>
      simp only [name?] at h
      split at h
      · rename_i hagrees
        simp only [Option.map_eq_some_iff, Prod.exists, Prod.mk.injEq] at h
        obtain ⟨written, _, hread, rfl, rfl⟩ := h
        exact (ih hread).cons hagrees
      · simp at h

/-- What is read behind `<` goes on to a character that ends the name. -/
theorem spelled_of_opening? {gap written rest : Text}
    (h : opening? mode name text = some (gap, written, rest)) :
    (∀ c ∈ gap, isMarkupSpace c = true) ∧ mode.Spells name written ∧
      ∃ c behind, rest = c :: behind ∧ endsName c = true := by
  unfold opening? at h
  split at h
  · rename_i read c behind hread
    split at h
    · rename_i hc
      simp only [Option.some.injEq, Prod.mk.injEq] at h
      obtain ⟨rfl, rfl, rfl⟩ := h
      exact ⟨fun c ↦ List.mem_takeWhile_imp, spells_of_name? hread, c, behind, rfl, hc⟩
    · simp at h
  · simp at h

theorem isClosing_of_closing? {closing rest : Text}
    (h : closing? mode name text = some (closing, rest)) :
    IsClosing mode name ('<' :: closing) := by
  unfold closing? at h
  split at h
  · rename_i afterSlash _
    split at h
    · rename_i written afterName hname
      split at h
      · simp only [Option.some.injEq, Prod.mk.injEq] at h
        refine ⟨text.takeWhile isMarkupSpace, afterSlash.takeWhile isMarkupSpace, written,
          afterName.takeWhile isMarkupSpace, ?_, ?_, spells_of_name? hname⟩
        · rw [← h.1]
          simp
        · simp only [List.mem_append]
          rintro c ((hc | hc) | hc) <;> exact List.mem_takeWhile_imp hc
      · simp at h
    · simp at h
  · simp at h

theorem isClosing_of_closingAt? {closing rest : Text}
    (h : closingAt? mode name text = some (closing, rest)) : IsClosing mode name closing := by
  unfold closingAt? at h
  split at h
  · simp only [Option.map_eq_some_iff, Prod.exists, Prod.mk.injEq] at h
    obtain ⟨closing, _, hread, rfl, _⟩ := h
    exact isClosing_of_closing? hread
  · simp at h

theorem isClosing_of_inner? {inner closing rest : Text}
    (h : inner? mode name text = some (inner, closing, rest)) : IsClosing mode name closing := by
  induction text generalizing inner with
  | nil => simp [inner?] at h
  | cons c text ih =>
    simp only [inner?] at h
    split at h
    · rename_i hclosing
      simp only [Option.some.injEq, Prod.mk.injEq] at h
      rw [← h.2.1]
      exact isClosing_of_closingAt? hclosing
    · simp only [Option.map_eq_some_iff, Prod.exists, Prod.mk.injEq] at h
      obtain ⟨_, _, _, hinner, _, rfl, rfl⟩ := h
      exact ih hinner

theorem isClosing_of_ending {inTag behind inner closing : Text}
    (h : (ending mode name inTag behind).2.1 = .closed inner closing) :
    IsClosing mode name closing := by
  unfold ending at h
  split at h
  · simp at h
  · split at h
    · rename_i hinner
      simp only [Ending.closed.injEq] at h
      rw [← h.2]
      exact isClosing_of_inner? hinner
    · simp at h

/-- Of the first occurrence the opening tag is read up to its end, and then what ends it. -/
theorem exists_of_first? {before rest : Text} {occurrence : Occurrence}
    (h : first? mode name text = some (before, occurrence, rest)) :
    ∃ start inside inTag behind,
      opening? mode name start = some (occurrence.gap, occurrence.name, inside) ∧
      tagEnd? .plain inside = some (inTag, behind) ∧
      ending mode name inTag behind = (occurrence.attributes, occurrence.ending, rest) := by
  induction text generalizing before with
  | nil => simp [first?] at h
  | cons c text ih =>
    simp only [first?] at h
    split at h
    · rename_i gap written inside hopening
      split at hopening
      · simp only [Option.map_eq_some_iff, Prod.exists, Prod.mk.injEq] at h
        obtain ⟨inTag, behind, hend, _, rfl, rfl⟩ := h
        exact ⟨text, inside, inTag, behind, hopening, hend, rfl⟩
      · simp at hopening
    · simp only [Option.map_eq_some_iff, Prod.exists, Prod.mk.injEq] at h
      obtain ⟨_, _, _, hfirst, _, rfl, rfl⟩ := h
      exact ih hfirst

theorem isSpelled_of_first? {before rest : Text} {occurrence : Occurrence}
    (h : first? mode name text = some (before, occurrence, rest)) :
    occurrence.IsSpelled mode name := by
  obtain ⟨_, _, inTag, behind, hopening, _, hending⟩ := exists_of_first? h
  obtain ⟨hgap, hname, _⟩ := spelled_of_opening? hopening
  refine ⟨hgap, hname, fun inner closing hclosed ↦ ?_⟩
  have hfound : (ending mode name inTag behind).2.1 = .closed inner closing := by
    rw [hending, hclosed]
  exact isClosing_of_ending hfound

end Reading

end ComponentMarkup.Tag
