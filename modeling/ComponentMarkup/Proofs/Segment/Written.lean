import ComponentMarkup.Proofs.Attributes.Surface
import ComponentMarkup.Proofs.Tag.Passing
import ComponentMarkup.Segment

/-!
# Component files as they are written

A component file is written as its three segments in any order with separators around them. A
segment is an opening tag with attributes, a body and a closing tag. The body may hold any markup
but a closing tag of its own kind and an opening tag of another. The searches for the three kinds
then find each its own segment, and every segment is read as it was written.
-/

namespace ComponentMarkup

open Text Tag Attributes

namespace SegmentKind

theorem mem_all (kind : SegmentKind) : kind ∈ all := by cases kind <;> decide

theorem isName_tagName (kind : SegmentKind) : IsName kind.tagName := by cases kind <;> decide

theorem lower_tagName_ne {kind other : SegmentKind} (h : kind ≠ other) :
    lower kind.tagName ≠ lower other.tagName := by
  cases kind <;> cases other <;> first | exact absurd rfl h | decide

end SegmentKind

namespace Segment

/-- A segment of a kind as it is written. -/
structure Written (kind : SegmentKind) where
  /-- The name in the opening tag. -/
  opening : Text
  /-- The name in the closing tag. -/
  closing : Text
  attributes : List Surface
  body : Text
  opening_spells : LetterCase.ignored.Spells kind.tagName opening
  closing_spells : LetterCase.ignored.Spells kind.tagName closing
  attributes_open : '<' ∉ Surface.textOf attributes
  attributes_quoted : ∀ surface ∈ attributes, surface.IsQuoted
  body_ne_nil : body ≠ []
  body_closing : ∀ tag, IsClosing .ignored kind.tagName tag → ¬tag <:+: body
  body_opening : ∀ other, other ≠ kind → ∀ tag, IsOpening .ignored other.tagName tag →
    ¬tag <:+: body

namespace Written

variable {kind other : SegmentKind} (written : Written kind)

def text : Text :=
  '<' :: written.opening ++ Surface.textOf written.attributes ++ '>' :: written.body
    ++ closingTag written.closing

/-- The segment that is written. -/
def segment : Segment where
  content := written.body
  attributes :=
    let attributes := Dict.settled (written.attributes.map Surface.pair)
    if kind = .style then Dict.erase attributes scopedName else attributes
  isScoped := kind = .style ∧ scopedName ∈ written.attributes.map Surface.name
  source := none

/-- The segment as a search for its kind finds it. -/
def occurrence : Occurrence where
  gap := []
  name := written.opening
  attributes := Surface.textOf written.attributes
  ending := .closed written.body (closingTag written.closing)

theorem isName_opening : IsName written.opening :=
  kind.isName_tagName.of_spells written.opening_spells

theorem isName_closing : IsName written.closing :=
  kind.isName_tagName.of_spells written.closing_spells

/-- What follows the name in the opening tag ends the name. -/
theorem exists_endsName (t : Text) :
    ∃ c rest, Surface.textOf written.attributes ++ '>' :: t = c :: rest ∧ endsName c = true :=
  exists_endsName_append (Surface.isMarkupSpace_head?_textOf written.attributes)
    ⟨'>', t, rfl, by decide⟩

theorem isQuoted_getLast? : ∀ surface ∈ written.attributes.getLast?, surface.IsQuoted :=
  fun surface h ↦ written.attributes_quoted surface (List.mem_of_getLast? h)

/-- The inner text of the segment is its body. -/
theorem inner?_body_append (t : Text) :
    inner? .ignored kind.tagName (written.body ++ closingTag written.closing ++ t) =
      some (written.body, closingTag written.closing, t) := by
  have hinner := Forest.inner?_closingTag written.isName_closing written.closing_spells t
  have hbody := inner?_append_of_not_isClosing kind.isName_tagName.open_not_mem written.body_closing
    ('/' :: written.closing ++ ['>'] ++ t)
  have htext : written.body ++ closingTag written.closing ++ t =
      written.body ++ '<' :: ('/' :: written.closing ++ ['>'] ++ t) := by
    simp [closingTag]
  rw [htext, hbody]
  show (inner? .ignored kind.tagName (closingTag written.closing ++ t)).map _ = _
  rw [hinner, Option.map_some, List.append_nil]

/-- A search for the kind stops at the segment. -/
theorem first?_text_append (t : Text) :
    first? .ignored kind.tagName (written.text ++ t) = some ([], written.occurrence, t) := by
  obtain ⟨c, rest, hrest, hc⟩ :=
    written.exists_endsName (written.body ++ closingTag written.closing ++ t)
  have htext : written.text ++ t = '<' :: (written.opening ++ c :: rest) := by
    rw [← hrest]
    simp [text]
  have hopening : opening? .ignored kind.tagName (written.opening ++ c :: rest) =
      some ([], written.opening, c :: rest) :=
    opening?_of_lower written.isName_opening hc written.opening_spells
  have hend := Surface.tagEnd?_textOf written.attributes
    (written.body ++ closingTag written.closing ++ t)
  have hending : ending .ignored kind.tagName (Surface.textOf written.attributes)
      (written.body ++ closingTag written.closing ++ t) =
        (Surface.textOf written.attributes, written.occurrence.ending, t) := by
    rw [ending, if_neg (Surface.getLast?_textOf_ne_slash written.isQuoted_getLast?),
      written.inner?_body_append]
    rfl
  rw [hrest] at hend
  rw [htext, first?_of_opening? hopening hend, hending]
  rfl

/-- A search for another kind passes over the segment. -/
theorem occurrences_text_append (h : other ≠ kind) (t : Text) :
    occurrences .ignored other.tagName (written.text ++ t) =
      occurrences .ignored other.tagName t := by
  have hname := other.isName_tagName
  obtain ⟨c, rest, hrest, hc⟩ :=
    written.exists_endsName (written.body ++ closingTag written.closing ++ t)
  have hopening : opening? .ignored other.tagName (written.opening ++ c :: rest) = none := by
    apply opening?_of_lower_ne hname written.isName_opening hc
    rw [show lower written.opening = lower kind.tagName from written.opening_spells]
    exact SegmentKind.lower_tagName_ne h.symm
  have hopen : '<' ∉ written.opening ++ Surface.textOf written.attributes ++ ['>'] := by
    have hspelled : '<' ∉ written.opening :=
      fun hmem ↦ kind.isName_tagName.open_not_mem (written.opening_spells.mem (by decide) hmem)
    simp [hspelled, written.attributes_open]
  have hclosing : '<' ∉ '/' :: written.closing ++ ['>'] := by
    have hspelled : '<' ∉ written.closing :=
      fun hmem ↦ kind.isName_tagName.open_not_mem (written.closing_spells.mem (by decide) hmem)
    simp [hspelled]
  calc
    occurrences .ignored other.tagName (written.text ++ t)
    _ = occurrences .ignored other.tagName ('<' :: (written.opening ++ c :: rest)) := by
      rw [← hrest]
      simp [text]
    _ = occurrences .ignored other.tagName (written.opening ++ c :: rest) :=
      occurrences_cons hname.1 fun _ ↦ hopening
    _ = occurrences .ignored other.tagName
        (written.opening ++ Surface.textOf written.attributes ++ ['>'] ++
          (written.body ++ '<' :: ('/' :: written.closing ++ ['>'] ++ t))) := by
      rw [← hrest]
      simp [closingTag]
    _ = occurrences .ignored other.tagName
        (written.body ++ '<' :: ('/' :: written.closing ++ ['>'] ++ t)) :=
      occurrences_append hname.1 hopen _
    _ = occurrences .ignored other.tagName ('<' :: ('/' :: written.closing ++ ['>'] ++ t)) :=
      occurrences_append_of_not_isOpening hname.1 hname.open_not_mem
        (written.body_opening other h) _
    _ = occurrences .ignored other.tagName ('/' :: written.closing ++ ['>'] ++ t) :=
      occurrences_cons hname.1 fun _ ↦ opening?_slash hname
    _ = occurrences .ignored other.tagName t := occurrences_append hname.1 hclosing t

/-- The segment is read as it was written. -/
theorem load_eq (tree : FileTree) (dir : Path) :
    (let segment := load tree dir (Attributes.parse written.occurrence.attributes)
      written.occurrence.innerText
    if kind = .style then segment.markScoped else segment) = written.segment := by
  have hbody : written.body.isEmpty = false := by simpa using written.body_ne_nil
  have hload : load tree dir (Attributes.parse written.occurrence.attributes)
      written.occurrence.innerText =
        ⟨written.body, Dict.settled (written.attributes.map Surface.pair), false, none⟩ := by
    rw [occurrence, Surface.parse_textOf, load]
    show (if (!written.body.isEmpty) = true then _ else _) = _
    rw [hbody]
    rfl
  have hnames : (written.attributes.map Surface.pair).map Prod.fst =
      written.attributes.map Surface.name := by
    rw [List.map_map]
    rfl
  rw [hload, segment]
  by_cases hkind : kind = .style
  · have hkeys : scopedName ∈ Dict.keys (Dict.settled (written.attributes.map Surface.pair)) ↔
        scopedName ∈ written.attributes.map Surface.name := by
      rw [Dict.mem_keys_settled, hnames]
    by_cases hscoped : scopedName ∈ written.attributes.map Surface.name
    · have hcontains := (Dict.contains_iff_mem_keys _ _).2 (hkeys.2 hscoped)
      simp [hkind, hscoped, markScoped, hcontains]
    · have hnot := mt hkeys.1 hscoped
      have hcontains := Bool.eq_false_iff.2 (mt (Dict.contains_iff_mem_keys _ _).1 hnot)
      simp [hkind, hscoped, markScoped, hcontains, Dict.erase_of_not_mem_keys hnot]
  · simp [hkind]

end Written

end Segment

namespace Segments

/-- A component file as it is written. -/
structure Written where
  segment : (kind : SegmentKind) → Segment.Written kind
  /-- What stands in front of the first segment. -/
  before : Text
  /-- The kinds in their order, each with what stands behind its segment. -/
  order : List (SegmentKind × Text)
  order_perm : (order.map Prod.fst).Perm SegmentKind.all
  before_open : '<' ∉ before
  order_open : ∀ entry ∈ order, '<' ∉ entry.2

namespace Written

variable (written : Written)

def textOf (order : List (SegmentKind × Text)) : Text :=
  order.flatMap fun entry ↦ (written.segment entry.1).text ++ entry.2

def text : Text := written.before ++ written.textOf written.order

/-- The search for a kind finds its own segment first, wherever it stands. -/
theorem occurrences_textOf {kind : SegmentKind} {order : List (SegmentKind × Text)}
    (hopen : ∀ entry ∈ order, '<' ∉ entry.2) (hkind : kind ∈ order.map Prod.fst) :
    ∃ rest, occurrences .ignored kind.tagName (written.textOf order) =
      (written.segment kind).occurrence :: rest := by
  have hne := kind.isName_tagName.1
  induction order with
  | nil => simp at hkind
  | cons first order ih =>
    obtain ⟨other, separator⟩ := first
    obtain ⟨hseparator, hrest⟩ := List.forall_mem_cons.1 hopen
    have htext : written.textOf ((other, separator) :: order) =
        (written.segment other).text ++ (separator ++ written.textOf order) := by
      simp [textOf]
    rw [htext]
    by_cases hother : kind = other
    · rw [← hother,
        occurrences_of_first?_eq_some hne ((written.segment kind).first?_text_append _)]
      exact ⟨_, rfl⟩
    · rw [(written.segment other).occurrences_text_append hother,
        occurrences_append hne hseparator]
      exact ih hrest ((List.mem_cons.1 hkind).resolve_left hother)

theorem extract_text (tree : FileTree) (dir : Path) (kind : SegmentKind) :
    Segment.extract tree dir written.text kind = (written.segment kind).segment := by
  have hmem : kind ∈ written.order.map Prod.fst := written.order_perm.mem_iff.2 kind.mem_all
  obtain ⟨rest, hfound⟩ := written.occurrences_textOf written.order_open hmem
  rw [text, Segment.extract, occurrences_append kind.isName_tagName.1 written.before_open, hfound]
  exact (written.segment kind).load_eq tree dir

/-- Reading a component file gives the segments that were written, in whatever order they stand. -/
theorem extract_written (tree : FileTree) (dir : Path) :
    Segments.extract tree dir written.text =
      ⟨(written.segment .template).segment, (written.segment .script).segment,
        (written.segment .style).segment⟩ := by
  simp only [Segments.extract, extract_text]

end Written

/-- A scoped style in front of a template, with separators and bodies that hold other markup. -/
def styled : Written where
  segment
    | .template => {
        opening := "Template".toList
        closing := "template".toList
        attributes := [⟨.space, ['a'],
          some ⟨.none, .none, .quoted ⟨'"', ['>'], .inl rfl, by decide⟩⟩,
          by decide, by decide, List.all_eq_true.1 rfl, by decide⟩]
        body := "<template>1 < 2</style>".toList
        opening_spells := by decide
        closing_spells := by decide
        attributes_open := by decide
        attributes_quoted := by simp [Surface.IsQuoted]
        body_ne_nil := by decide
        body_closing := not_isInfix_of_closing? (SegmentKind.isName_tagName _) (by decide)
        body_opening := fun other h ↦ not_isInfix_of_opening? other.isName_tagName (by
          cases other <;> first | exact absurd rfl h | decide) }
    | .script => {
        opening := "SCRIPT".toList
        closing := "script".toList
        attributes := []
        body := "a<b".toList
        opening_spells := by decide
        closing_spells := by decide
        attributes_open := by decide
        attributes_quoted := by simp [Surface.IsQuoted]
        body_ne_nil := by decide
        body_closing := not_isInfix_of_closing? (SegmentKind.isName_tagName _) (by decide)
        body_opening := fun other h ↦ not_isInfix_of_opening? other.isName_tagName (by
          cases other <;> first | exact absurd rfl h | decide) }
    | .style => {
        opening := "style".toList
        closing := "STYLE".toList
        attributes := [⟨.space, "scoped".toList, none, by decide, by decide,
          List.all_eq_true.1 rfl, by decide⟩]
        body := "p".toList
        opening_spells := by decide
        closing_spells := by decide
        attributes_open := by decide
        attributes_quoted := by simp [Surface.IsQuoted]
        body_ne_nil := by decide
        body_closing := not_isInfix_of_closing? (SegmentKind.isName_tagName _) (by decide)
        body_opening := fun other h ↦ not_isInfix_of_opening? other.isName_tagName (by
          cases other <;> first | exact absurd rfl h | decide) }
  before := []
  order := [(.style, ['\n']), (.template, ['"']), (.script, [])]
  order_perm := by decide
  before_open := by decide
  order_open := by simp

example : styled.text =
    ("<style scoped>p</STYLE>\n<Template a=\">\"><template>1 < 2</style></template>\""
      ++ "<SCRIPT>a<b</script>").toList := by
  decide

theorem extract_styled :
    Segments.extract .empty [] styled.text =
      ⟨⟨"<template>1 < 2</style>".toList, [(['a'], ['>'])], false, none⟩,
        ⟨"a<b".toList, [], false, none⟩, ⟨['p'], [], true, none⟩⟩ :=
  styled.extract_written .empty []

end Segments

end ComponentMarkup
