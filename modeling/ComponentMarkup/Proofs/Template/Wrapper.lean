import ComponentMarkup.Proofs.Attributes.OpeningTag
import ComponentMarkup.Proofs.Attributes.Rendered
import ComponentMarkup.Template.Render
import Mathlib.Data.List.Nodup

/-!
# The element around a scoped template

A scoped template is rendered as the template without a scope inside a `div` that has the
attributes of the template and the id as its first class. The tag of the element is read as it was
rendered: whatever the values of the attributes are, none of them ends the tag or adds an attribute,
and the class stands last.
-/

namespace ComponentMarkup

open Text Tag

/-! ## Attributes rendered in a tag -/

namespace Attributes

/-- A rendered attribute can stand in a tag if its name does not end the tag. -/
theorem exists_surface_eq {entry : Text × Text} (h : IsReadName entry.1) (hclose : '>' ∉ entry.1) :
    ∃ surface : Surface, surface.text = renderPair entry ∧ surface.IsQuoted := by
  obtain ⟨form, htext, hpair, hquoted⟩ := exists_form_eq entry h
  have hname : form.name = entry.1 := congrArg Prod.fst hpair
  exact ⟨⟨form.gap, form.name, form.assignment, form.gap_ne_nil, form.name_ne_nil, form.isName,
    hname ▸ hclose⟩, htext, hquoted⟩

theorem exists_surfaces_eq {attributes : Attributes}
    (h : ∀ name ∈ Dict.keys attributes, IsReadName name ∧ '>' ∉ name) :
    ∃ surfaces, Surface.textOf surfaces = render attributes ∧
      ∀ surface ∈ surfaces, surface.IsQuoted := by
  induction attributes with
  | nil => exact ⟨[], rfl, List.forall_mem_nil _⟩
  | cons entry attributes ih =>
    obtain ⟨⟨hentry, hclose⟩, hrest⟩ := List.forall_mem_cons.1 h
    obtain ⟨surface, htext, hquoted⟩ := exists_surface_eq hentry hclose
    obtain ⟨surfaces, htexts, hquotes⟩ := ih hrest
    refine ⟨surface :: surfaces, ?_, List.forall_mem_cons.2 ⟨hquoted, hquotes⟩⟩
    rw [Surface.textOf, List.flatMap_cons, htext, ← Surface.textOf, htexts, render, render,
      List.flatMap_cons]

/-- A rendered tag ends behind its last attribute, whatever the values are. -/
theorem exists_occurrences_render {name : Text} (hname : IsName name) {attributes : Attributes}
    (h : ∀ key ∈ Dict.keys attributes, IsReadName key ∧ '>' ∉ key) (rest : Text) :
    ∃ occurrence others,
      occurrences .kept name ('<' :: name ++ render attributes ++ '>' :: rest) =
        occurrence :: others ∧ occurrence.attributes = render attributes := by
  obtain ⟨surfaces, htexts, hquoted⟩ := exists_surfaces_eq h
  let tag : OpeningTag := {
    name
    attributes := surfaces
    after := .none
    closesItself := false
    isName := hname
    after_ne_nil := by simp
    isQuoted_getLast? := fun _ surface hlast ↦ hquoted surface (List.mem_of_getLast? hlast) }
  have hinside : tag.inside = render attributes := by
    simp [tag, OpeningTag.inside, Gap.none, htexts]
  have htext : tag.text ++ rest = '<' :: name ++ render attributes ++ '>' :: rest := by
    rw [OpeningTag.text, hinside]
    simp [tag, OpeningTag.slash]
  rw [← htext, ← hinside]
  exact tag.exists_occurrences_eq rest

end Attributes

/-! ## The class of the element -/

namespace Template

open Attributes

section Scope

variable {id : Text} {attributes : Attributes}

theorem className_not_mem_keys_erase (attributes : Attributes) :
    className ∉ Dict.keys (Dict.erase attributes className) :=
  fun h ↦ (Dict.mem_keys_erase.1 h).2 rfl

/-- The class comes last, behind the other attributes in their order. -/
theorem scopeAttributes_eq (id : Text) (attributes : Attributes) :
    scopeAttributes id attributes = Dict.erase attributes className ++ [(className,
      if (trim ((Dict.find? attributes className).getD [])).isEmpty then id
      else id ++ ' ' :: trim ((Dict.find? attributes className).getD []))] :=
  Dict.insert_of_not_mem_keys _ (className_not_mem_keys_erase attributes)

theorem keys_scopeAttributes (id : Text) (attributes : Attributes) :
    Dict.keys (scopeAttributes id attributes) =
      Dict.keys (Dict.erase attributes className) ++ [className] := by
  rw [scopeAttributes_eq, Dict.keys, List.map_append]
  rfl

theorem isRead_scopeAttributes (id : Text) (h : IsRead attributes) :
    IsRead (scopeAttributes id attributes) := by
  have hclass : IsReadName className := by
    refine ⟨by decide, ?_⟩
    exact List.all_eq_true.1 rfl
  constructor
  · intro name hname
    rw [keys_scopeAttributes, List.mem_append, List.mem_singleton] at hname
    rcases hname with hname | rfl
    · exact h.isReadName name (Dict.mem_keys_erase.1 hname).1
    · exact hclass
  · have herase : (Dict.keys (Dict.erase attributes className)).Nodup :=
      h.nodup.sublist (List.filter_sublist.map Prod.fst)
    rw [keys_scopeAttributes]
    refine herase.append (List.nodup_singleton _) (List.disjoint_singleton.2 ?_)
    exact className_not_mem_keys_erase attributes

theorem escaped_scopeAttributes (hid : '"' ∉ id) (attributes : Attributes) :
    escaped (scopeAttributes id attributes) =
      escaped (Dict.erase attributes className) ++ [(className,
        if isAllBlank ((Dict.find? attributes className).getD []) then id
        else id ++ ' ' :: escapeQuotes (trim ((Dict.find? attributes className).getD [])))] := by
  rw [scopeAttributes_eq]
  generalize (Dict.find? attributes className).getD [] = value
  have hclasses : escapeQuotes (if (trim value).isEmpty then id else id ++ ' ' :: trim value) =
      if isAllBlank value then id else id ++ ' ' :: escapeQuotes (trim value) := by
    rw [isEmpty_trim]
    cases isAllBlank value with
    | true => exact escapeQuotes_of_not_mem hid
    | false =>
      have happend : escapeQuotes (id ++ ' ' :: trim value) =
          escapeQuotes id ++ ' ' :: escapeQuotes (trim value) := List.flatMap_append
      rwa [escapeQuotes_of_not_mem hid] at happend
  rw [← hclasses]
  exact List.map_append

end Scope

/-- A scoped template is the template without its scope in an element. The tag of the element ends
behind the attributes that were rendered, and they are read in their order, each double quote of a
value as a reference, and then the class: the id, and behind it the classes that the template has. -/
theorem render_scoped_and_ofTag (model : Model) {input : Input} (hscoped : input.isScoped = true)
    (hread : IsRead input.attributes) (hclose : ∀ name ∈ Dict.keys input.attributes, '>' ∉ name)
    (hid : '"' ∉ input.id) :
    ∃ attributes occurrence others,
      (render model input).1 = "<div".toList ++ attributes ++ '>' ::
        (render model { input with isScoped := false }).1 ++ "</div>".toList ∧
      occurrences .kept "div".toList (render model input).1 = occurrence :: others ∧
      occurrence.attributes = attributes ∧
      ofTag "div".toList (render model input).1 =
        escaped (Dict.erase input.attributes className) ++ [(className,
          if isAllBlank ((Dict.find? input.attributes className).getD []) then input.id
          else input.id ++
            ' ' :: escapeQuotes (trim ((Dict.find? input.attributes className).getD [])))] := by
  have hscope := isRead_scopeAttributes input.id hread
  have hkeys : ∀ name ∈ Dict.keys (scopeAttributes input.id input.attributes),
      IsReadName name ∧ '>' ∉ name := by
    intro name hname
    refine ⟨hscope.isReadName name hname, ?_⟩
    rw [keys_scopeAttributes, List.mem_append, List.mem_singleton] at hname
    rcases hname with hname | rfl
    · exact hclose name (Dict.mem_keys_erase.1 hname).1
    · decide
  have hpage : (render model input).1 = '<' :: "div".toList ++
      Attributes.render (scopeAttributes input.id input.attributes) ++ '>' ::
        ((render model { input with isScoped := false }).1 ++ "</div>".toList) := by
    rw [render, hscoped]
    simp [render, wrap]
  have hdiv : IsName "div".toList := by decide
  obtain ⟨occurrence, others, hfound, hattributes⟩ := exists_occurrences_render hdiv hkeys
    ((render model { input with isScoped := false }).1 ++ "</div>".toList)
  rw [← hpage] at hfound
  refine ⟨_, occurrence, others, ?_, hfound, hattributes, ?_⟩
  · rw [hpage]
    simp
  · rw [ofTag, hfound]
    show parse occurrence.attributes = _
    rw [hattributes, hscope.parse_render, escaped_scopeAttributes hid]

/-- A scoped template with `>`, quotes and a tag in the values of its attributes. -/
def quotedInput : Input where
  attributes := [("title".toList, "a>b\"<i/>\n".toList), (className, " x \"y ".toList),
    ("hidden".toList, [])]
  content := "\x7b\x7b t \x7d\x7d</div>".toList
  id := "rain-1".toList
  isScoped := true

theorem render_scoped_and_ofTag_quoted :
    IsRead quotedInput.attributes ∧ (∀ name ∈ Dict.keys quotedInput.attributes, '>' ∉ name) ∧
      '"' ∉ quotedInput.id ∧
      ofTag "div".toList (render ⟨[], [], [], [], []⟩ quotedInput).1 =
        [("title".toList, "a>b&quot;<i/>\n".toList), ("hidden".toList, []),
          (className, "rain-1 x &quot;y".toList)] := by
  have hread : IsRead quotedInput.attributes := ⟨by decide, by decide⟩
  have hclose : ∀ name ∈ Dict.keys quotedInput.attributes, '>' ∉ name := by decide
  have hid : '"' ∉ quotedInput.id := by decide
  obtain ⟨_, _, _, _, _, _, htag⟩ :=
    render_scoped_and_ofTag ⟨[], [], [], [], []⟩ rfl hread hclose hid
  exact ⟨hread, hclose, hid, htag.trans (by decide)⟩

end Template

end ComponentMarkup
