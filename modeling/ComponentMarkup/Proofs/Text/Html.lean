import ComponentMarkup.Proofs.Text.Solid
import ComponentMarkup.Text.Html

/-!
# Texts written as references

Five characters are written as references, all of which begin with one of the five. So a text that
has one of them is changed again each time it is written, and one that has none never is. White
space is no such character, and it makes no difference whether a text is trimmed before it is
written or behind that.
-/

namespace ComponentMarkup.Text

/-- The characters that are written as references. -/
def specialChars : Text := ['&', '<', '>', '"', '\'']

section Reference

variable {c : Char}

theorem htmlReference_of_not_mem (h : c ∉ specialChars) : htmlReference c = [c] := by
  simp only [specialChars, List.mem_cons, List.not_mem_nil, or_false, not_or] at h
  obtain ⟨hamp, hless, hgreater, hdouble, hsingle⟩ := h
  rw [htmlReference, if_neg hamp, if_neg hless, if_neg hgreater, if_neg hdouble, if_neg hsingle]

/-- A reference begins with `&` and ends with `;`. -/
theorem exists_htmlReference_eq (h : c ∈ specialChars) :
    ∃ inside, htmlReference c = '&' :: inside ++ [';'] := by
  have hends : specialChars.all (fun c ↦ (htmlReference c).head? = some '&' &&
      (htmlReference c).tail.getLast? = some ';') = true := by decide
  have hreference := List.all_eq_true.1 hends c h
  rw [Bool.and_eq_true, decide_eq_true_eq, decide_eq_true_eq] at hreference
  obtain ⟨hfirst, hlast⟩ := hreference
  obtain ⟨rest, hrest⟩ := List.head?_eq_some_iff.1 hfirst
  rw [hrest, List.tail_cons] at hlast
  obtain ⟨inside, hinside⟩ := List.getLast?_eq_some_iff.1 hlast
  exact ⟨inside, by rw [hrest, hinside, List.cons_append]⟩

theorem not_mem_specialChars_of_isBlank (h : isBlank c = true) : c ∉ specialChars := by
  intro hmem
  have hsolid : specialChars.all (fun c ↦ !isBlank c) = true := by decide
  have hnot := List.all_eq_true.1 hsolid c hmem
  rw [h] at hnot
  exact Bool.noConfusion hnot

end Reference

/-! ## Characters that are not left -/

/-- No quote and no angle bracket is left. -/
theorem not_mem_escapeHtml {d : Char} (hd : d ∈ ['<', '>', '"', '\'']) (s : Text) :
    d ∉ escapeHtml s := by
  intro hmem
  obtain ⟨c, _, hc⟩ := List.mem_flatMap.1 hmem
  by_cases hspecial : c ∈ specialChars
  · have hreferences : specialChars.all (fun c ↦ (htmlReference c).all
        (· ∉ ['<', '>', '"', '\''])) = true := by decide
    have hnot := List.all_eq_true.1 (List.all_eq_true.1 hreferences c hspecial) d hc
    exact of_decide_eq_true hnot hd
  · rw [htmlReference_of_not_mem hspecial, List.mem_singleton] at hc
    exact hspecial (hc ▸ List.mem_cons_of_mem '&' hd)

/-! ## Texts that stay as they are -/

theorem length_le_escapeHtml (s : Text) : s.length ≤ (escapeHtml s).length := by
  induction s with
  | nil => exact le_rfl
  | cons c s ih =>
    have hone : 1 ≤ (htmlReference c).length := by
      by_cases hspecial : c ∈ specialChars
      · obtain ⟨inside, hinside⟩ := exists_htmlReference_eq hspecial
        simp [hinside]
      · rw [htmlReference_of_not_mem hspecial]
        exact le_rfl
    rw [escapeHtml, List.flatMap_cons, ← escapeHtml, List.length_append, List.length_cons]
    omega

theorem escapeHtml_eq_self_iff {s : Text} : escapeHtml s = s ↔ ∀ c ∈ s, c ∉ specialChars := by
  induction s with
  | nil => simp [escapeHtml]
  | cons c s ih =>
    rw [escapeHtml, List.flatMap_cons, ← escapeHtml, List.forall_mem_cons, ← ih]
    by_cases hspecial : c ∈ specialChars
    · obtain ⟨inside, hinside⟩ := exists_htmlReference_eq hspecial
      refine ⟨fun h ↦ ?_, fun h ↦ absurd hspecial h.1⟩
      have hlength := congrArg List.length h
      have hlonger := length_le_escapeHtml s
      rw [hinside] at hlength
      simp at hlength
      omega
    · rw [htmlReference_of_not_mem hspecial]
      simp [hspecial]

/-- What is written holds a special character exactly if what it is written from does. -/
theorem forall_mem_escapeHtml_iff {s : Text} :
    (∀ c ∈ escapeHtml s, c ∉ specialChars) ↔ ∀ c ∈ s, c ∉ specialChars := by
  refine ⟨fun h c hc hspecial ↦ ?_, fun h ↦ ?_⟩
  · obtain ⟨inside, hinside⟩ := exists_htmlReference_eq hspecial
    refine h '&' (List.mem_flatMap.2 ⟨c, hc, ?_⟩) (by decide)
    rw [hinside]
    exact List.mem_cons_self
  · rwa [escapeHtml_eq_self_iff.2 h]

/-! ## White space -/

/-- Characters of a class that stay as they are can be dropped before the others are changed. -/
theorem dropWhile_flatMap {p : Char → Bool} {f : Char → Text} (hkeeps : ∀ c, p c = true → f c = [c])
    (hfirst : ∀ c, p c = false → ∃ d rest, f c = d :: rest ∧ p d = false) (s : Text) :
    (s.flatMap f).dropWhile p = (s.dropWhile p).flatMap f := by
  induction s with
  | nil => rfl
  | cons c s ih =>
    cases hc : p c with
    | true =>
      rw [List.flatMap_cons, hkeeps c hc, List.singleton_append, List.dropWhile_cons_of_pos hc, ih,
        List.dropWhile_cons_of_pos hc]
    | false =>
      obtain ⟨d, rest, hd, hnot⟩ := hfirst c hc
      rw [List.dropWhile_cons_of_neg (by simp [hc]), List.flatMap_cons, hd, List.cons_append,
        List.dropWhile_cons_of_neg (by simp [hnot])]

theorem trim_escapeHtml (s : Text) : trim (escapeHtml s) = escapeHtml (trim s) := by
  have hkeeps (c : Char) (hc : isBlank c = true) : htmlReference c = [c] :=
    htmlReference_of_not_mem (not_mem_specialChars_of_isBlank hc)
  have hfirst (c : Char) (hc : isBlank c = false) :
      ∃ d rest, htmlReference c = d :: rest ∧ isBlank d = false := by
    by_cases hspecial : c ∈ specialChars
    · obtain ⟨inside, hinside⟩ := exists_htmlReference_eq hspecial
      exact ⟨'&', _, hinside, by decide⟩
    · exact ⟨c, [], htmlReference_of_not_mem hspecial, hc⟩
  have hlast (c : Char) (hc : isBlank c = false) :
      ∃ d rest, (List.reverse ∘ htmlReference) c = d :: rest ∧ isBlank d = false := by
    by_cases hspecial : c ∈ specialChars
    · obtain ⟨inside, hinside⟩ := exists_htmlReference_eq hspecial
      refine ⟨';', ('&' :: inside).reverse, ?_, by decide⟩
      rw [Function.comp_apply, hinside, List.reverse_append, List.reverse_singleton,
        List.singleton_append]
    · refine ⟨c, [], ?_, hc⟩
      rw [Function.comp_apply, htmlReference_of_not_mem hspecial, List.reverse_singleton]
  have hkeepsBack (c : Char) (hc : isBlank c = true) :
      (List.reverse ∘ htmlReference) c = [c] := by
    rw [Function.comp_apply, hkeeps c hc, List.reverse_singleton]
  rw [trim, trimBy, trim, trimBy, escapeHtml, dropWhile_flatMap hkeeps hfirst, List.reverse_flatMap,
    dropWhile_flatMap hkeepsBack hlast, List.reverse_flatMap]
  congr 1
  funext c
  simp

/-- Written twice, a text looks as if it were written once exactly if no character of it is
special. -/
theorem trim_escapeHtml_escapeHtml_eq_iff (s : Text) :
    trim (escapeHtml (escapeHtml s)) = trim (escapeHtml s) ↔ ∀ c ∈ s, c ∉ specialChars := by
  rw [trim_escapeHtml, trim_escapeHtml, escapeHtml_eq_self_iff, forall_mem_escapeHtml_iff]
  obtain ⟨before, after, hbefore, hafter, htext⟩ := exists_blanks_trim s
  constructor
  · intro h c hc
    rw [htext, List.mem_append, List.mem_append] at hc
    rcases hc with (hc | hc) | hc
    · exact not_mem_specialChars_of_isBlank (hbefore c hc)
    · exact h c hc
    · exact not_mem_specialChars_of_isBlank (hafter c hc)
  · intro h c hc
    apply h c
    rw [htext]
    exact List.mem_append_left _ (List.mem_append_right _ hc)

end ComponentMarkup.Text
