import ComponentMarkup.Component.Input
import ComponentMarkup.Proofs.Json.Overlay
import ComponentMarkup.Proofs.Template.Plain

/-!
# Templates around the children

A template without an opening brace is copied. One that shows the children of its component
between two such texts puts the inner text of the tag between them, whatever else the component is
given: the name `children` is given last.
-/

namespace ComponentMarkup

open Json Text

namespace Template

section Copied

variable (model : Model) {s : Text}

/-- A text that does not begin with two opening braces begins with no binding. -/
theorem binding?_of_not_opened {text : Text} (h : ¬ openDouble <+: text) : binding? text = none := by
  have hdouble : after? openDouble text = none := by
    rw [Option.eq_none_iff_forall_ne_some]
    intro rest hrest
    exact h ⟨rest, (after?_eq_some_iff.1 hrest).symm⟩
  have htriple : after? openTriple text = none := by
    rw [Option.eq_none_iff_forall_ne_some]
    intro rest hrest
    exact h ⟨'\x7b' :: rest, (after?_eq_some_iff.1 hrest).symm⟩
  simp [binding?, bindingWith?, hdouble, htriple]

theorem parts_cons_of_not_opened {c : Char} {t : Text} (h : ¬ openDouble <+: c :: t) :
    parts (c :: t) = .copied c :: parts t := by
  rw [parts]
  split
  · rename_i hbinding
    simp [binding?_of_not_opened h] at hbinding
  · rfl

/-- A text that opens no binding, nor does a brace at its end with what follows, is copied. -/
theorem parts_append {t : Text} (hopen : ¬ openDouble <:+: s)
    (hend : s.getLast? = some '\x7b' → t.head? ≠ some '\x7b') :
    parts (s ++ t) = s.map Part.copied ++ parts t := by
  induction s with
  | nil => rfl
  | cons c s ih =>
    have hnot : ¬ openDouble <+: c :: (s ++ t) := by
      rintro ⟨rest, hrest⟩
      simp only [openDouble, List.cons_append, List.nil_append, List.cons.injEq] at hrest
      obtain ⟨rfl, hrest⟩ := hrest
      cases s with
      | nil =>
        have hhead := congrArg List.head? hrest
        exact hend rfl hhead.symm
      | cons d s =>
        rw [List.cons_append, List.cons.injEq] at hrest
        exact hopen ⟨[], s, by rw [← hrest.1]; rfl⟩
    have htail : ¬ openDouble <:+: s := fun h ↦ hopen (h.trans (List.suffix_cons c s).isInfix)
    have hlast : s.getLast? = some '\x7b' → t.head? ≠ some '\x7b' := by
      intro hlast
      apply hend
      cases s with
      | nil => simp at hlast
      | cons d s => simpa using hlast
    rw [List.cons_append, parts_cons_of_not_opened hnot, ih htail hlast]
    rfl

theorem fillParts_copied (s : Text) (rest : List Part) :
    fillParts model (s.map Part.copied ++ rest) =
      (s ++ (fillParts model rest).1, (fillParts model rest).2) := by
  induction s with
  | nil => rfl
  | cons c s ih =>
    show ((c :: (fillParts model (s.map Part.copied ++ rest)).1),
      (fillParts model (s.map Part.copied ++ rest)).2) = _
    rw [ih]
    rfl

/-- A text without an opening brace is copied, whatever follows it. -/
theorem parts_append_of_not_mem (h : '\x7b' ∉ s) (t : Text) :
    parts (s ++ t) = s.map Part.copied ++ parts t := by
  have hopen : ¬ openDouble <:+: s := fun hpart ↦ h (hpart.subset (by simp [openDouble]))
  exact parts_append hopen fun hlast ↦ absurd (List.mem_of_getLast? hlast) h

theorem fill_append (h : '\x7b' ∉ s) (t : Text) :
    fill model (s ++ t) = (s ++ (fill model t).1, (fill model t).2) := by
  rw [fill, parts_append_of_not_mem h, fillParts_copied]
  rfl

/-- A text without an opening brace is copied. -/
theorem fill_of_not_mem (h : '\x7b' ∉ s) : fill model s = (s, model) := by
  have hnil : fill model [] = ([], model) := by simp [fill, parts, fillParts]
  have happend := fill_append model h []
  rwa [List.append_nil, hnil, List.append_nil] at happend

/-- A binding is one part. -/
theorem parts_of_binding? {text rest : Text} {binding : Binding}
    (h : binding? text = some (binding, rest)) : parts text = .bound binding :: parts rest := by
  cases text with
  | nil => exact absurd h (by simp [binding?, bindingWith?, openTriple, openDouble, after?])
  | cons c text =>
    rw [parts]
    split
    · rename_i other after hother
      rw [h, Option.some.injEq, Prod.mk.injEq] at hother
      rw [hother.1, hother.2]
    · rename_i hnone
      simp [h] at hnone

end Copied

/-- The binding that shows the children of a component. -/
def childrenTag : Text := "\x7b\x7b\x7b children \x7d\x7d\x7d".toList

theorem binding?_childrenTag (t : Text) :
    binding? (childrenTag ++ t) = some (⟨false, Component.childrenName⟩, t) := by
  rfl

theorem read?_childrenName :
    Expression.read? Component.childrenName =
      some ⟨.operand (.path [Component.childrenName]), []⟩ := by
  rfl

theorem fill_childrenTag {model : Model} (hplain : model.IsPlain) {inner : Text}
    (h : Dict.find? model.data Component.childrenName = some (.string inner)) (t : Text) :
    (fill model (childrenTag ++ t)).1 = inner ++ (fill model t).1 := by
  have hparts : parts (childrenTag ++ t) = .bound ⟨false, Component.childrenName⟩ :: parts t :=
    parts_of_binding? (binding?_childrenTag t)
  have hvalue : ((⟨false, Component.childrenName⟩ : Binding).fill model).1 = inner := by
    rw [Binding.fill, evaluate_plain hplain, read?_childrenName]
    simp [Operand.value, Data.lookup?, h, Value.display]
  rw [fill, hparts, fillParts_bound hplain, hvalue]
  rfl

/-- The children between two texts. -/
theorem fill_around_children {model : Model} (hplain : model.IsPlain) {inner : Text}
    (h : Dict.find? model.data Component.childrenName = some (.string inner))
    {before after : Text} (hbefore : '\x7b' ∉ before) (hafter : '\x7b' ∉ after) :
    (fill model (before ++ childrenTag ++ after)).1 = before ++ inner ++ after := by
  rw [List.append_assoc, fill_append model hbefore, fill_childrenTag hplain h,
    fill_of_not_mem model hafter, List.append_assoc]

end Template

namespace Component

/-- The inner text of a tag is given under the name of the children. -/
theorem find?_childData (props : List Text) (invocation : Attributes) (parent : Data)
    (attributes : Attributes) (inner : Text) :
    Dict.find? (childData props invocation parent attributes inner) childrenName =
      some (.string inner) := by
  rw [childData, Object.ofMembers, Object.overlay, List.foldl_append, List.foldl_cons,
    List.foldl_nil, Object.find?_insert, if_pos rfl]

theorem isSorted_childData (props : List Text) (invocation : Attributes) (parent : Data)
    (attributes : Attributes) (inner : Text) :
    (childData props invocation parent attributes inner).IsSorted :=
  Object.isSorted_ofMembers _

end Component

end ComponentMarkup
