import ComponentMarkup.Proofs.Tag.Marked
import ComponentMarkup.Proofs.Template.Children
import ComponentMarkup.Proofs.Text.Html
import ComponentMarkup.Template.Render

/-!
# Escaped values and the tags around them

An escaped value has no `<`. Where all bindings of a template are escaped and stand outside of tags,
the page is sealed around the values: whatever the values are, a search finds the same tags in the
page, in the same places of the literal text.
-/

namespace ComponentMarkup.Template

open Text Tag

/-- The page with the characters marked that were copied. -/
def fillMarked (model : Model) : List Part → Marked
  | [] => []
  | .copied c :: rest => (c, true) :: fillMarked model rest
  | .bound binding :: rest =>
    let (value, model) := binding.fill model
    value.map (·, false) ++ fillMarked model rest

/-- The characters of a template that are copied. -/
def literalText (parts : List Part) : Text :=
  parts.filterMap fun part ↦
    match part with
    | .copied c => some c
    | .bound _ => none

/-- Bindings stand outside of tags: every `<` in front of a binding is followed by a `>` in front of
it, and up to this `>` quotes stand only around whole values. -/
def BindsOutsideTags (parts : List Part) : Prop :=
  ∀ front run binding rest,
    parts = front ++ .copied '<' :: (run.map .copied ++ .bound binding :: rest) →
      ∃ inside behind, run = inside ++ '>' :: behind ∧ '>' ∉ inside ∧ IsTagText inside

section Filling

variable (model : Model)

theorem fillMarked_bound (binding : Binding) (rest : List Part) :
    fillMarked model (.bound binding :: rest) =
      (binding.fill model).1.map (·, false) ++ fillMarked (binding.fill model).2 rest := rfl

theorem text_fillMarked (parts : List Part) :
    (fillMarked model parts).text = (fillParts model parts).1 := by
  induction parts generalizing model with
  | nil => rfl
  | cons part rest ih =>
    cases part with
    | copied c => exact congrArg (c :: ·) (ih model)
    | bound binding =>
      have hvalue (value : Text) : Marked.text (value.map (·, false)) = value := by
        simp [Marked.text, Function.comp_def]
      rw [fillMarked_bound, Marked.text_append, hvalue, ih]
      rfl

theorem literal_fillMarked (parts : List Part) :
    (fillMarked model parts).literal = literalText parts := by
  induction parts generalizing model with
  | nil => rfl
  | cons part rest ih =>
    cases part with
    | copied c => exact congrArg (c :: ·) (ih model)
    | bound binding =>
      have hvalue (value : Text) : Marked.literal (value.map (·, false)) = [] := by
        simp [Marked.literal]
      rw [fillMarked_bound, Marked.literal_append, hvalue, ih]
      rfl

theorem fillMarked_map_copied_append (t : Text) (parts : List Part) :
    fillMarked model (t.map .copied ++ parts) = Marked.ofLiteral t ++ fillMarked model parts := by
  induction t with
  | nil => rfl
  | cons c t ih => exact congrArg ((c, true) :: ·) ih

theorem fillMarked_map_copied (t : Text) :
    fillMarked model (t.map .copied) = Marked.ofLiteral t := by
  have happend := fillMarked_map_copied_append model t []
  rwa [List.append_nil, fillMarked, List.append_nil] at happend

end Filling

/-! ## Where bindings stand -/

theorem BindsOutsideTags.tail {part : Part} {parts : List Part}
    (h : BindsOutsideTags (part :: parts)) : BindsOutsideTags parts :=
  fun front run binding rest hparts ↦ h (part :: front) run binding rest (by rw [hparts]; rfl)

theorem bindsOutsideTags_map_copied (t : Text) : BindsOutsideTags (t.map .copied) := by
  intro front run binding rest hparts
  have hmem : Part.bound binding ∈ t.map Part.copied := by simp [hparts]
  simp at hmem

theorem BindsOutsideTags.bound {parts : List Part} (h : BindsOutsideTags parts)
    (binding : Binding) : BindsOutsideTags (.bound binding :: parts) := by
  intro front run other rest hparts
  cases front with
  | nil => simp at hparts
  | cons part front => exact h front run other rest (List.cons.inj hparts).2

theorem BindsOutsideTags.append {parts : List Part} (h : BindsOutsideTags parts) {t : Text}
    (ht : '<' ∉ t) : BindsOutsideTags (t.map .copied ++ parts) := by
  induction t with
  | nil => exact h
  | cons c t ih =>
    rw [List.mem_cons, not_or] at ht
    intro front run binding rest hparts
    cases front with
    | nil =>
      have hc : Part.copied c = .copied '<' := (List.cons.inj hparts).1
      exact absurd (Part.copied.inj hc).symm ht.1
    | cons part front => exact ih ht.2 front run binding rest (List.cons.inj hparts).2

/-- A tag that ends in front of the bindings behind it. -/
theorem BindsOutsideTags.tag {parts : List Part} (h : BindsOutsideTags parts) {inside : Text}
    (hclose : '>' ∉ inside) (hopen : '<' ∉ inside) (hinside : IsTagText inside) :
    BindsOutsideTags (('<' :: inside ++ ['>']).map .copied ++ parts) := by
  intro front run binding rest hparts
  cases front with
  | nil =>
    have hrun : (inside ++ ['>']).map Part.copied ++ parts =
        run.map .copied ++ .bound binding :: rest := (List.cons.inj hparts).2
    have hinjective : Function.Injective Part.copied := fun _ _ h ↦ Part.copied.inj h
    rcases List.append_eq_append_iff.1 hrun with ⟨behind, hbehind, _⟩ | ⟨others, hothers, hrest⟩
    · obtain ⟨first, behind, rfl, hfirst, _⟩ := List.map_eq_append_iff.1 hbehind
      rw [List.map_injective_iff.2 hinjective hfirst]
      exact ⟨inside, behind, by simp, hclose, hinside⟩
    · -- The binding does not stand inside the tag, so the run ends with the tag.
      cases others with
      | nil =>
        rw [List.append_nil] at hothers
        rw [← List.map_injective_iff.2 hinjective hothers]
        exact ⟨inside, [], rfl, hclose, hinside⟩
      | cons other others =>
        rw [← (List.cons.inj hrest).1] at hothers
        have hmem : Part.bound binding ∈ (inside ++ ['>']).map Part.copied := by simp [hothers]
        simp at hmem
  | cons part front =>
    have hbehind : BindsOutsideTags ((inside ++ ['>']).map .copied ++ parts) :=
      h.append (by simp [hopen])
    exact hbehind front run binding rest (List.cons.inj hparts).2

/-- Parts are copied up to a binding or up to the end. -/
theorem exists_run (parts : List Part) :
    (∃ t : Text, parts = t.map .copied) ∨
      ∃ (t : Text) (binding : Binding) (rest : List Part),
        parts = t.map .copied ++ .bound binding :: rest := by
  induction parts with
  | nil => exact Or.inl ⟨[], rfl⟩
  | cons part parts ih =>
    cases part with
    | bound binding => exact Or.inr ⟨[], binding, parts, rfl⟩
    | copied c =>
      rcases ih with ⟨t, rfl⟩ | ⟨t, binding, rest, rfl⟩
      · exact Or.inl ⟨c :: t, rfl⟩
      · exact Or.inr ⟨c :: t, binding, rest, rfl⟩

theorem isSealed_append {t : Text} (ht : '<' ∉ t) {m : Marked} (hm : m.IsSealed) :
    Marked.IsSealed (t.map (·, false) ++ m) := by
  induction t with
  | nil => exact hm
  | cons c t ih =>
    rw [List.mem_cons, not_or] at ht
    exact .cons (Ne.symm ht.1) (ih ht.2)

/-- Escaped values outside of tags leave the page sealed. -/
theorem BindsOutsideTags.isSealed {parts : List Part} (h : BindsOutsideTags parts)
    (hescaped : ∀ binding, .bound binding ∈ parts → binding.isEscaped = true) (model : Model) :
    (fillMarked model parts).IsSealed := by
  induction parts generalizing model with
  | nil => exact .free []
  | cons part parts ih =>
    have hrest : ∀ binding, .bound binding ∈ parts → binding.isEscaped = true :=
      fun binding hmem ↦ hescaped binding (List.mem_cons_of_mem part hmem)
    have hparts := ih h.tail hrest
    cases part with
    | bound binding =>
      have hvalue : '<' ∉ (binding.fill model).1 := by
        have hfill : (binding.fill model).1 =
            escapeHtml (evaluate model binding.expression).1.display := by
          rw [Binding.fill, hescaped binding List.mem_cons_self]
          rfl
        rw [hfill]
        exact not_mem_escapeHtml List.mem_cons_self _
      rw [fillMarked_bound]
      exact isSealed_append hvalue (hparts _)
    | copied c =>
      by_cases hc : c = '<'
      · rw [hc] at h ⊢
        rcases exists_run parts with ⟨t, rfl⟩ | ⟨run, binding, rest, rfl⟩
        · rw [← List.map_cons, fillMarked_map_copied]
          exact .free ('<' :: t)
        · obtain ⟨inside, behind, rfl, hclose, hinside⟩ := h [] run binding rest rfl
          have hsplit : (inside ++ '>' :: behind).map Part.copied ++ .bound binding :: rest =
              (inside ++ ['>']).map .copied ++ (behind.map .copied ++ .bound binding :: rest) := by
            simp
          have hbehind := hparts model
          rw [hsplit, fillMarked_map_copied_append] at hbehind
          rw [hsplit, ← List.cons_append, ← List.map_cons, fillMarked_map_copied_append]
          exact .tag hclose hinside hbehind
      · exact .cons hc (hparts model)

/-- Whatever is put into an escaped template, its page has the same tags in the same places of the
literal text, and the same is read of them. -/
theorem samePlaces_render {input : Input} (hunscoped : input.isScoped = false)
    (hescaped : ∀ binding, .bound binding ∈ parts input.content → binding.isEscaped = true)
    (houtside : BindsOutsideTags (parts input.content)) {name : Text} (hname : IsName name)
    (mode : LetterCase) (model other : Model) :
    List.Forall₂
      (SamePlaces (fillMarked model (parts input.content)) (fillMarked other (parts input.content)))
      (placedOccurrences mode name (render model input).1)
      (placedOccurrences mode name (render other input).1) := by
  have hfirst := houtside.isSealed hescaped model
  have hsecond := houtside.isSealed hescaped other
  have hliteral := (literal_fillMarked model (parts input.content)).trans
    (literal_fillMarked other (parts input.content)).symm
  have hpage (model : Model) : (render model input).1 =
      (fillMarked model (parts input.content)).text := by
    rw [text_fillMarked, render, hunscoped]
    rfl
  rw [hpage, hpage]
  exact hfirst.forall₂_samePlaces mode hname hsecond hliteral

/-- A card around a value. -/
def cardPage : Input := ⟨[], "<card a=\"b\">\x7b\x7b t \x7d\x7d</card>".toList, [], false⟩

theorem parts_cardPage : parts cardPage.content = "<card a=\"b\">".toList.map .copied ++
    .bound ⟨true, ['t']⟩ :: "</card>".toList.map .copied := by
  have hbinding : binding? "\x7b\x7b t \x7d\x7d</card>".toList =
      some (⟨true, ['t']⟩, "</card>".toList) := rfl
  have hbehind := parts_append_of_not_mem (s := "</card>".toList) (by decide) []
  rw [List.append_nil, parts, List.append_nil] at hbehind
  show parts ("<card a=\"b\">".toList ++ "\x7b\x7b t \x7d\x7d</card>".toList) = _
  rw [parts_append_of_not_mem (by decide), parts_of_binding? hbinding, hbehind]

/-- A model with a value that would close the card and open another. -/
def hostileModel : Model := { Model.empty with data := [(['t'], .string "</card><card>".toList)] }

theorem samePlaces_cardPage :
    List.Forall₂
      (SamePlaces (fillMarked .empty (parts cardPage.content))
        (fillMarked hostileModel (parts cardPage.content)))
      (placedOccurrences .ignored "card".toList (render .empty cardPage).1)
      (placedOccurrences .ignored "card".toList (render hostileModel cardPage).1) := by
  apply samePlaces_render
  · rfl
  · rw [parts_cardPage]
    simp
  · rw [parts_cardPage]
    have hbehind : BindsOutsideTags (.bound ⟨true, ['t']⟩ :: "</card>".toList.map .copied) :=
      (bindsOutsideTags_map_copied _).bound _
    have htag : IsTagText ['c', 'a', 'r', 'd', ' ', 'a', '=', '"', 'b', '"'] :=
      .cons rfl (.cons rfl (.cons rfl (.cons rfl (.cons rfl (.cons rfl
        (.value rfl (List.forall_mem_singleton.2 rfl) .nil))))))
    exact hbehind.tag (by decide) (by decide) htag
  · decide

end ComponentMarkup.Template
