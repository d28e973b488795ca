import ComponentMarkup.Text.Blank
import Mathlib.Data.List.DropRight

/-!
# Texts without white space at their ends

A text that has characters is solid if its first and its last one are no white space. Trimming takes
the white space around a solid text and nothing of the text itself. What is written one after the
other from solid texts is solid again, unless it is empty.
-/

namespace ComponentMarkup.Text

/-- Characters of a class are taken up to the first that is not of the class. -/
theorem takeWhile_append_of_head {p : Char → Bool} {s t : Text} (hs : ∀ c ∈ s, p c = true)
    (ht : ∀ c ∈ t.head?, p c = false) :
    (s ++ t).takeWhile p = s ∧ (s ++ t).dropWhile p = t := by
  rw [List.takeWhile_append_of_pos hs, List.dropWhile_append_of_pos hs]
  cases t with
  | nil => simp
  | cons c t => simp [ht c rfl]

/-- The letters by their code points. -/
theorem isAlpha_iff {c : Char} : c.isAlpha = true ↔
    65 ≤ c.toNat ∧ c.toNat ≤ 90 ∨ 97 ≤ c.toNat ∧ c.toNat ≤ 122 := by
  have h : c.isAlpha =
      (decide (c.val ≥ 65 ∧ c.val ≤ 90) || decide (c.val ≥ 97) && decide (c.val ≤ 122)) := rfl
  rw [h, Bool.or_eq_true, Bool.and_eq_true, decide_eq_true_eq, decide_eq_true_eq,
    decide_eq_true_eq]
  rfl

theorem isBlank_getLast?_trim (text : Text) : ∀ c ∈ (trim text).getLast?, isBlank c = false := by
  intro c hc
  rw [trim, trimBy, List.getLast?_reverse, Option.mem_def] at hc
  have hnot := List.head?_dropWhile_not isBlank (text.dropWhile isBlank).reverse
  simpa [hc] using hnot

theorem isBlank_head?_trim (text : Text) : ∀ c ∈ (trim text).head?, isBlank c = false := by
  intro c hc
  have hprefix : trim text <+: text.dropWhile isBlank := List.rdropWhile_prefix _ _
  obtain ⟨rest, hrest⟩ := List.head?_eq_some_iff.1 hc
  obtain ⟨more, hmore⟩ := hprefix
  rw [hrest] at hmore
  have hnot := List.head?_dropWhile_not isBlank text
  simpa [← hmore] using hnot

/-- Trimming takes white space at both ends. -/
theorem exists_blanks_trim (text : Text) :
    ∃ before after : Text, (∀ c ∈ before, isBlank c = true) ∧ (∀ c ∈ after, isBlank c = true) ∧
      text = before ++ trim text ++ after := by
  let behind := (text.dropWhile isBlank).reverse
  refine ⟨text.takeWhile isBlank, (behind.takeWhile isBlank).reverse,
    fun c hc ↦ List.mem_takeWhile_imp hc,
    fun c hc ↦ List.mem_takeWhile_imp (List.mem_reverse.1 hc), ?_⟩
  have hbehind : trim text ++ (behind.takeWhile isBlank).reverse = text.dropWhile isBlank := by
    rw [trim, trimBy, ← List.reverse_append, List.takeWhile_append_dropWhile]
    exact List.reverse_reverse _
  rw [List.append_assoc, hbehind, List.takeWhile_append_dropWhile]

/-- Trimming leaves nothing of white space, and of it alone. -/
theorem trim_eq_nil_iff {text : Text} : trim text = [] ↔ ∀ c ∈ text, isBlank c = true := by
  constructor
  · intro h
    obtain ⟨before, after, hbefore, hafter, htext⟩ := exists_blanks_trim text
    rw [h, List.append_nil] at htext
    rw [htext]
    exact List.forall_mem_append.2 ⟨hbefore, hafter⟩
  · intro h
    rw [trim, trimBy, List.dropWhile_eq_nil_iff.2 h]
    rfl

theorem isEmpty_trim (text : Text) : (trim text).isEmpty = isAllBlank text := by
  rw [Bool.eq_iff_iff, List.isEmpty_iff, trim_eq_nil_iff, isAllBlank, List.all_eq_true]

/-- A text that has characters, with no white space at its ends. -/
structure IsSolid (text : Text) : Prop where
  ne_nil : text ≠ []
  first : ∀ c ∈ text.head?, isBlank c = false
  last : ∀ c ∈ text.getLast?, isBlank c = false

namespace IsSolid

variable {s t text before after : Text}

/-- Solid texts around any text are solid with it. -/
theorem append (hs : IsSolid s) (ht : IsSolid t) (between : Text) :
    IsSolid (s ++ between ++ t) where
  ne_nil := by simp [hs.ne_nil]
  first := by
    rw [List.append_assoc, List.head?_append_of_ne_nil _ hs.ne_nil]
    exact hs.first
  last := by
    rw [List.getLast?_append_of_ne_nil _ ht.ne_nil]
    exact ht.last

theorem singleton {c : Char} (h : isBlank c = false) : IsSolid [c] where
  ne_nil := List.cons_ne_nil c []
  first := by simpa using h
  last := by simpa using h

theorem of_forall (hne : text ≠ []) (h : ∀ c ∈ text, isBlank c = false) : IsSolid text where
  ne_nil := hne
  first c hc := h c (List.mem_of_mem_head? hc)
  last c hc := h c (List.mem_of_getLast? hc)

theorem of_ends {c d : Char} (hfirst : text.head? = some c) (hlast : text.getLast? = some d)
    (hc : isBlank c = false) (hd : isBlank d = false) : IsSolid text where
  ne_nil := by
    rintro rfl
    simp at hfirst
  first := by simpa [hfirst] using hc
  last := by simpa [hlast] using hd

theorem reverse (h : IsSolid text) : IsSolid text.reverse where
  ne_nil := by simp [h.ne_nil]
  first := by
    rw [List.head?_reverse]
    exact h.last
  last := by
    rw [List.getLast?_reverse]
    exact h.first

theorem isAllBlank (h : IsSolid text) (before after : Text) :
    isAllBlank (before ++ text ++ after) = false := by
  obtain ⟨c, rest, rfl⟩ := List.exists_cons_of_ne_nil h.ne_nil
  simp [Text.isAllBlank, h.first c rfl]

theorem dropWhile (h : IsSolid text) (hbefore : ∀ c ∈ before, isBlank c = true) (rest : Text) :
    (before ++ text ++ rest).dropWhile isBlank = text ++ rest := by
  obtain ⟨c, text, rfl⟩ := List.exists_cons_of_ne_nil h.ne_nil
  rw [List.append_assoc, List.dropWhile_append_of_pos hbefore, List.cons_append,
    List.dropWhile_cons, h.first c rfl]
  rfl

/-- Trimming takes the white space around a solid text. -/
theorem trim (h : IsSolid text) (hbefore : ∀ c ∈ before, isBlank c = true)
    (hafter : ∀ c ∈ after, isBlank c = true) : trim (before ++ text ++ after) = text := by
  have hreverse : ∀ c ∈ after.reverse, isBlank c = true :=
    fun c hc ↦ hafter c (List.mem_reverse.1 hc)
  have hback := h.reverse.dropWhile hreverse []
  rw [List.append_nil, List.append_nil] at hback
  rw [Text.trim, trimBy, h.dropWhile hbefore, List.reverse_append, hback, List.reverse_reverse]

theorem trim_eq (h : IsSolid text) : Text.trim text = text := by
  have hnil : ∀ c ∈ ([] : Text), isBlank c = true := List.forall_mem_nil _
  have htrim := h.trim hnil hnil
  rwa [List.nil_append, List.append_nil] at htrim

end IsSolid

/-- Empty, or solid: what trimming leaves as it is. -/
def IsTrim (text : Text) : Prop := text = [] ∨ IsSolid text

theorem IsSolid.isTrim {text : Text} (h : IsSolid text) : IsTrim text := Or.inr h

theorem IsTrim.trim_eq {text : Text} (h : IsTrim text) : trim text = text := by
  rcases h with rfl | h
  · rfl
  · exact h.trim_eq

theorem isTrim_trim (text : Text) : IsTrim (trim text) := by
  by_cases hne : trim text = []
  · exact Or.inl hne
  · exact Or.inr ⟨hne, isBlank_head?_trim text, isBlank_getLast?_trim text⟩

theorem trim_trim (text : Text) : trim (trim text) = trim text := (isTrim_trim text).trim_eq

theorem IsTrim.append {s t : Text} (hs : IsTrim s) (ht : IsTrim t) : IsTrim (s ++ t) := by
  rcases hs with rfl | hs
  · exact ht
  · rcases ht with rfl | ht
    · rw [List.append_nil]
      exact hs.isTrim
    · have hboth := hs.append ht []
      rw [List.append_nil] at hboth
      exact hboth.isTrim

end ComponentMarkup.Text
