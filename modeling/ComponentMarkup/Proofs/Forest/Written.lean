import ComponentMarkup.Proofs.Tag.Search
import Mathlib.Data.List.Basic

/-!
# Forests of tags

A forest is markup made of texts and of elements, each with an opening tag, an inner forest and a
closing tag. Searching a written forest for a name finds the elements of that name and nothing else,
from left to right, as long as no element stands inside one of its own name. The parts that are
found are the parts that were written.
-/

namespace ComponentMarkup

open Text Tag

/-- An attribute of an opening tag with the white space before it. -/
structure WrittenAttribute where
  gap : Text
  name : Text
  value : Text
  deriving DecidableEq, Repr

/-- Markup of texts and elements. -/
inductive Forest where
  | done
  | text (content : Text) (rest : Forest)
  | element (name : Text) (attributes : List WrittenAttribute) (inner rest : Forest)
  deriving DecidableEq, Repr

/-- A character that opens neither a tag nor a binding and closes no tag. -/
def isTextChar (c : Char) : Bool := !(c = '<' || c = '>' || c = '\x7b')

def isQuote (c : Char) : Bool := c = '"' || c = '\''

namespace WrittenAttribute

def text (a : WrittenAttribute) : Text :=
  a.gap ++ a.name ++ '=' :: '"' :: a.value ++ ['"']

/-- White space, a name, and a value without quotes. -/
def IsProper (a : WrittenAttribute) : Prop :=
  (a.gap ≠ [] ∧ ∀ c ∈ a.gap, isMarkupSpace c = true) ∧
    IsName a.name ∧
    ∀ c ∈ a.value, isTextChar c = true ∧ isQuote c = false

instance (a : WrittenAttribute) : Decidable a.IsProper :=
  have := List.decidableBAll (isMarkupSpace · = true) a.gap
  have := List.decidableBAll (fun c ↦ isTextChar c = true ∧ isQuote c = false) a.value
  inferInstanceAs (Decidable ((_ ∧ _) ∧ _ ∧ _))

end WrittenAttribute

/-- Attributes as they stand in a tag. -/
def attributesText (attributes : List WrittenAttribute) : Text :=
  attributes.flatMap WrittenAttribute.text

def closingTag (name : Text) : Text := '<' :: '/' :: name ++ ['>']

namespace Forest

def names : Forest → List Text
  | done => []
  | text _ rest => rest.names
  | element name _ inner rest => name :: inner.names ++ rest.names

def write : Forest → Text
  | done => []
  | text content rest => content ++ rest.write
  | element name attributes inner rest =>
    '<' :: name ++ attributesText attributes ++ '>' :: inner.write ++ closingTag name ++ rest.write

/-- An element as a search finds it. -/
def occurrence (name : Text) (attributes : List WrittenAttribute) (inner : Forest) : Occurrence :=
  ⟨[], name, attributesText attributes, .closed inner.write (closingTag name)⟩

/-- The elements in the order of their opening tags. -/
def elements : Forest → List Occurrence
  | done => []
  | text _ rest => rest.elements
  | element name attributes inner rest =>
    occurrence name attributes inner :: inner.elements ++ rest.elements

/-- Texts and tags are what they look like, and no element stands inside one of its own name. -/
def IsProper : Forest → Prop
  | done => True
  | text content rest => (∀ c ∈ content, isTextChar c = true) ∧ rest.IsProper
  | element name attributes inner rest =>
    (IsName name ∧ (∀ a ∈ attributes, a.IsProper) ∧
      ∀ other ∈ inner.names, lower other ≠ lower name) ∧ inner.IsProper ∧ rest.IsProper

instance decidableIsProper : (forest : Forest) → Decidable forest.IsProper
  | done => inferInstanceAs (Decidable True)
  | text content rest =>
    have := decidableIsProper rest
    have := List.decidableBAll (isTextChar · = true) content
    inferInstanceAs (Decidable (_ ∧ _))
  | element _ _ inner rest =>
    have := decidableIsProper inner
    have := decidableIsProper rest
    inferInstanceAs (Decidable ((_ ∧ _ ∧ _) ∧ _ ∧ _))

theorem write_element (name : Text) (attributes : List WrittenAttribute) (inner rest : Forest) :
    (element name attributes inner rest).write =
      (occurrence name attributes inner).text ++ rest.write := by
  simp [write, occurrence, Occurrence.text, Occurrence.front, Ending.text]

theorem name_mem_of_mem_elements {forest : Forest} {o : Occurrence} (h : o ∈ forest.elements) :
    o.name ∈ forest.names := by
  induction forest with
  | done => exact absurd h List.not_mem_nil
  | text _ rest ih => exact ih h
  | element name attributes inner rest ihInner ihRest =>
    rw [elements, List.cons_append, List.mem_cons, List.mem_append] at h
    rw [names, List.cons_append, List.mem_cons, List.mem_append]
    rcases h with rfl | h | h
    · exact Or.inl rfl
    · exact Or.inr (Or.inl (ihInner h))
    · exact Or.inr (Or.inr (ihRest h))

end Forest

/-! ## The inside of an opening tag -/

section OpeningTag

theorem isTextChar_iff {c : Char} :
    isTextChar c = true ↔ c ≠ '<' ∧ c ≠ '>' ∧ c ≠ '\x7b' := by
  simp [isTextChar, and_assoc]

theorem isTextChar_of_isNameLike {c : Char} (h : isNameLike c = true) : isTextChar c = true := by
  simp only [isNameLike, endsName, Bool.not_eq_true', Bool.or_eq_false_iff,
    decide_eq_false_iff_not] at h
  obtain ⟨⟨⟨⟨⟨⟨_, hclose⟩, hopen⟩, hbrace⟩, _⟩, _⟩, _⟩ := h
  exact isTextChar_iff.2 ⟨hopen, hclose, hbrace⟩

theorem isTextChar_of_isMarkupSpace {c : Char} (h : isMarkupSpace c = true) :
    isTextChar c = true := by
  simp only [isMarkupSpace, Bool.or_eq_true, decide_eq_true_eq] at h
  rcases h with (((rfl | rfl) | rfl) | rfl) | rfl <;> decide

theorem isQuote_of_isNameLike {c : Char} (h : isNameLike c = true) : isQuote c = false := by
  simp only [isNameLike, Bool.not_eq_true', Bool.or_eq_false_iff] at h
  simp only [isQuote, Bool.or_eq_false_iff]
  exact ⟨h.1.2, h.2⟩

theorem isQuote_of_isMarkupSpace {c : Char} (h : isMarkupSpace c = true) : isQuote c = false := by
  simp only [isMarkupSpace, Bool.or_eq_true, decide_eq_true_eq] at h
  rcases h with (((rfl | rfl) | rfl) | rfl) | rfl <;> decide

theorem IsName.isTextChar {name : Text} (h : IsName name) : ∀ c ∈ name, isTextChar c = true :=
  fun c hc ↦ isTextChar_of_isNameLike (h.2 c hc)

/-- Outside quotes only a quote can open one. -/
theorem isQuoted_next {region : Region} {c : Char} (h : region.isQuoted = false)
    (hc : isQuote c = false) : (region.next c).isQuoted = false := by
  simp only [isQuote, Bool.or_eq_false_iff, decide_eq_false_iff_not] at hc
  cases region with
  | plain =>
    rw [Region.next]
    split <;> rfl
  | value =>
    rw [Region.next, if_neg (by simp [hc.1, hc.2])]
    split <;> rfl
  | quoted quote => simp [Region.isQuoted] at h

/-- Outside quotes a value follows `=`. -/
theorem next_equals {region : Region} (h : region.isQuoted = false) : region.next '=' = .value := by
  cases region with
  | plain => rfl
  | value => rfl
  | quoted quote => simp [Region.isQuoted] at h

theorem isQuoted_foldl_next {s : Text} {region : Region} (h : region.isQuoted = false)
    (hs : ∀ c ∈ s, isQuote c = false) : (s.foldl Region.next region).isQuoted = false := by
  induction s generalizing region with
  | nil => exact h
  | cons c s ih =>
    apply ih (isQuoted_next h (hs c List.mem_cons_self))
    exact fun d hd ↦ hs d (List.mem_cons_of_mem _ hd)

theorem foldl_next_quoted {s : Text} {quote : Char} (h : quote ∉ s) :
    s.foldl Region.next (.quoted quote) = .quoted quote := by
  induction s with
  | nil => rfl
  | cons c s ih =>
    rw [List.mem_cons, not_or] at h
    rw [List.foldl_cons, Region.next, if_neg (Ne.symm h.1), ih h.2]

namespace WrittenAttribute

variable {a : WrittenAttribute} (h : a.IsProper)

include h in
theorem isTextChar_text : ∀ c ∈ a.text, isTextChar c = true := by
  obtain ⟨⟨_, hgap⟩, hname, hvalue⟩ := h
  intro c hc
  simp only [text, List.append_assoc, List.cons_append, List.mem_append, List.mem_cons,
    List.not_mem_nil, or_false] at hc
  rcases hc with hc | hc | rfl | rfl | hc | rfl
  · exact isTextChar_of_isMarkupSpace (hgap c hc)
  · exact IsName.isTextChar hname c hc
  · decide
  · decide
  · exact (hvalue c hc).1
  · decide

include h in
/-- Behind an attribute no quote is open. -/
theorem isQuoted_foldl_text {region : Region} (hregion : region.isQuoted = false) :
    (a.text.foldl Region.next region).isQuoted = false := by
  obtain ⟨⟨_, hgap⟩, hname, hvalue⟩ := h
  have hfront : ((a.gap ++ a.name).foldl Region.next region).isQuoted = false := by
    apply isQuoted_foldl_next hregion
    intro c hc
    rcases List.mem_append.1 hc with hc | hc
    · exact isQuote_of_isMarkupSpace (hgap c hc)
    · exact isQuote_of_isNameLike (hname.2 c hc)
  have hquote : '"' ∉ a.value := fun hmem ↦ by
    have := (hvalue _ hmem).2
    exact absurd this (by decide)
  have hequals := next_equals hfront
  have hopen : Region.next .value '"' = .quoted '"' := rfl
  have htext : a.text = (a.gap ++ a.name) ++ '=' :: '"' :: (a.value ++ ['"']) := by
    simp [text]
  rw [htext, List.foldl_append, List.foldl_cons, hequals, List.foldl_cons, hopen,
    List.foldl_append, foldl_next_quoted hquote]
  rfl

end WrittenAttribute

section Attributes

variable {attributes : List WrittenAttribute}
  (h : ∀ a ∈ attributes, a.IsProper)

include h in
theorem isTextChar_attributesText : ∀ c ∈ attributesText attributes, isTextChar c = true := by
  intro c hc
  obtain ⟨a, ha, hc⟩ := List.mem_flatMap.1 hc
  exact WrittenAttribute.isTextChar_text (h a ha) c hc

include h in
theorem isQuoted_foldl_attributesText {region : Region} (hregion : region.isQuoted = false) :
    ((attributesText attributes).foldl Region.next region).isQuoted = false := by
  induction attributes generalizing region with
  | nil => exact hregion
  | cons a rest ih =>
    rw [attributesText, List.flatMap_cons, List.foldl_append]
    apply ih fun other hother ↦ h other (List.mem_cons_of_mem _ hother)
    exact WrittenAttribute.isQuoted_foldl_text (h a List.mem_cons_self) hregion

include h in
/-- Attributes, or the end of the tag, end the name. -/
theorem exists_endsName_attributesText (text : Text) :
    ∃ c rest, attributesText attributes ++ '>' :: text = c :: rest ∧ endsName c = true := by
  apply exists_endsName_append _ ⟨'>', text, rfl, by decide⟩
  cases attributes with
  | nil => simp [attributesText]
  | cons a others =>
    obtain ⟨⟨hne, hgap⟩, _, _⟩ := h a List.mem_cons_self
    rw [attributesText, List.flatMap_cons, WrittenAttribute.text, List.append_assoc,
      List.append_assoc, List.append_assoc, List.head?_append_of_ne_nil _ hne]
    exact fun c hc ↦ hgap c (List.mem_of_mem_head? hc)

theorem getLast?_attributesText : (attributesText attributes).getLast? ≠ some '/' := by
  rcases List.eq_nil_or_concat attributes with rfl | ⟨front, last, rfl⟩
  · simp [attributesText]
  · rw [List.concat_eq_append, attributesText, List.flatMap_append, List.flatMap_singleton,
      WrittenAttribute.text, ← List.append_assoc, List.getLast?_append]
    simp

end Attributes

end OpeningTag

namespace Forest

/-! ## Searching a forest -/

section Search

variable {name other : Text} {attributes : List WrittenAttribute} {inner : Forest}

/-- The name and the attributes of an opening tag, with the end of the tag. -/
theorem not_mem_openingTag (hname : IsName name)
    (hattributes : ∀ a ∈ attributes, a.IsProper) :
    '<' ∉ name ++ attributesText attributes ++ ['>'] := by
  intro hmem
  rcases List.mem_append.1 hmem with hmem | hmem
  · rcases List.mem_append.1 hmem with hmem | hmem
    · exact (isTextChar_iff.1 (IsName.isTextChar hname _ hmem)).1 rfl
    · exact (isTextChar_iff.1 (isTextChar_attributesText hattributes _ hmem)).1 rfl
  · exact absurd hmem (by decide)

/-- The closing tag behind its `<`. -/
theorem not_mem_closingTag (hname : IsName name) : '<' ∉ '/' :: name ++ ['>'] := by
  intro hmem
  rw [List.cons_append, List.mem_cons, List.mem_append] at hmem
  rcases hmem with hmem | hmem | hmem
  · exact absurd hmem (by decide)
  · exact (isTextChar_iff.1 (IsName.isTextChar hname _ hmem)).1 rfl
  · exact absurd hmem (by decide)

theorem not_mem_of_isTextChar {content : Text} (h : ∀ c ∈ content, isTextChar c = true) :
    '<' ∉ content := fun hmem ↦ (isTextChar_iff.1 (h _ hmem)).1 rfl

/-- No binding opens in a written forest. -/
theorem brace_not_mem_write {forest : Forest} (h : forest.IsProper) : '\x7b' ∉ forest.write := by
  have hname {name : Text} (hname : IsName name) : '\x7b' ∉ name := fun hmem ↦
    (isTextChar_iff.1 (IsName.isTextChar hname _ hmem)).2.2 rfl
  induction forest with
  | done => exact List.not_mem_nil
  | text content rest ih =>
    rw [write, List.mem_append, not_or]
    exact ⟨fun hmem ↦ (isTextChar_iff.1 (h.1 _ hmem)).2.2 rfl, ih h.2⟩
  | element name attributes inner rest ihInner ihRest =>
    obtain ⟨⟨hown, hattributes, _⟩, hinner, hrest⟩ := h
    have hinside : '\x7b' ∉ attributesText attributes := fun hmem ↦
      (isTextChar_iff.1 (isTextChar_attributesText hattributes _ hmem)).2.2 rfl
    simp [write, closingTag, hname hown, hinside, ihInner hinner, ihRest hrest]

theorem inner?_closingTag (hname : IsName name) (h : lower name = lower other) (s : Text) :
    inner? .ignored other (closingTag name ++ s) = some ([], closingTag name, s) := by
  have hclosing := closing?_of_lower hname h s
  have hsplit : closingTag name ++ s = '<' :: ('/' :: name ++ '>' :: s) := by simp [closingTag]
  rw [hsplit, inner?, closingAt?, hclosing]
  rfl

/-- Elements of other names close nothing: the inner text goes on behind a forest. -/
theorem inner?_write (hother : IsName other) {forest : Forest} (h : forest.IsProper)
    (hnames : ∀ name ∈ forest.names, lower name ≠ lower other) (s : Text) :
    inner? .ignored other (forest.write ++ s) =
      (inner? .ignored other s).map fun found ↦ (forest.write ++ found.1, found.2) := by
  induction forest generalizing s with
  | done => simp [write]
  | text content rest ih =>
    rw [write, List.append_assoc, inner?_append (not_mem_of_isTextChar h.1), ih h.2 hnames,
      Option.map_map]
    simp only [Function.comp_def, List.append_assoc]
  | element name attributes inner rest ihInner ihRest =>
    obtain ⟨⟨hname, hattributes, _⟩, hinner, hrest⟩ := h
    simp only [names, List.cons_append, List.mem_cons, List.mem_append] at hnames
    have hlower : lower name ≠ lower other := hnames name (Or.inl rfl)
    let opening := name ++ attributesText attributes ++ ['>']
    let behind := rest.write ++ s
    have hopening : inner? .ignored other ('<' :: opening ++ (inner.write ++ closingTag name ++ behind)) =
        (inner? .ignored other (inner.write ++ closingTag name ++ behind)).map
          fun found ↦ ('<' :: opening ++ found.1, found.2) := by
      have hnone : closingAt? .ignored other
          ('<' :: (opening ++ (inner.write ++ closingTag name ++ behind))) = none := by
        simp only [opening, List.append_assoc, closingAt?, closing?_of_isName hname, Option.map_none]
      rw [List.cons_append, inner?_cons_of_closingAt? hnone,
        inner?_append (not_mem_openingTag hname hattributes), Option.map_map]
      rfl
    have hclosing : inner? .ignored other (closingTag name ++ behind) =
        (inner? .ignored other behind).map fun found ↦ (closingTag name ++ found.1, found.2) := by
      have hnone : closingAt? .ignored other ('<' :: (('/' :: name ++ ['>']) ++ behind)) = none := by
        have hne := closing?_of_lower_ne hother hname hlower behind
        rw [closingAt?, List.append_assoc]
        simpa using hne
      have hsplit : closingTag name ++ behind = '<' :: (('/' :: name ++ ['>']) ++ behind) := rfl
      rw [hsplit, inner?_cons_of_closingAt? hnone, inner?_append (not_mem_closingTag hname),
        Option.map_map]
      rfl
    have hbehind := ihRest hrest (fun n hn ↦ hnames n (Or.inr (Or.inr hn))) s
    have hinside := ihInner hinner (fun n hn ↦ hnames n (Or.inr (Or.inl hn)))
      (closingTag name ++ behind)
    have hwrite : (element name attributes inner rest).write ++ s =
        '<' :: opening ++ (inner.write ++ closingTag name ++ behind) := by
      simp [write, opening, behind]
    rw [hwrite, hopening, List.append_assoc, hinside, hclosing, hbehind]
    simp only [Option.map_map, Function.comp_def]
    congr 1
    funext found
    simp [write, opening]

/-- The first element of a name is found with the parts that it was written from. -/
theorem first?_occurrence (hname : IsName name) (hother : IsName other)
    (hattributes : ∀ a ∈ attributes, a.IsProper) (hinner : inner.IsProper)
    (hnames : ∀ n ∈ inner.names, lower n ≠ lower name) (h : lower name = lower other) (s : Text) :
    first? .ignored other ((occurrence name attributes inner).text ++ s) =
      some ([], occurrence name attributes inner, s) := by
  let behind := inner.write ++ (closingTag name ++ s)
  obtain ⟨c, rest, hcons, hc⟩ := exists_endsName_attributesText hattributes behind
  have hopening : opening? .ignored other (name ++ (attributesText attributes ++ '>' :: behind)) =
      some ([], name, attributesText attributes ++ '>' :: behind) := by
    rw [hcons]
    exact opening?_of_lower hname hc h
  have hclose : '>' ∉ attributesText attributes := fun hmem ↦
    (isTextChar_iff.1 (isTextChar_attributesText hattributes _ hmem)).2.1 rfl
  have hend : tagEnd? .plain (attributesText attributes ++ '>' :: behind) =
      some (attributesText attributes, behind) :=
    tagEnd?_of_isQuoted hclose (isQuoted_foldl_attributesText hattributes rfl) behind
  have hinside : inner? .ignored other behind = some (inner.write, closingTag name, s) := by
    rw [inner?_write hother hinner (fun n hn ↦ h ▸ hnames n hn), inner?_closingTag hname h]
    simp
  have hending : ending .ignored other (attributesText attributes) behind =
      (attributesText attributes, .closed inner.write (closingTag name), s) := by
    rw [ending, if_neg getLast?_attributesText, hinside]
  have hsplit : (occurrence name attributes inner).text ++ s =
      '<' :: (name ++ (attributesText attributes ++ '>' :: behind)) := by
    simp [occurrence, Occurrence.text, Occurrence.front, Ending.text, behind]
  rw [hsplit, first?_of_opening? hopening hend, hending]
  rfl

/-- A search passes over the opening tag of an element of another name. -/
theorem occurrences_openingTag (hname : IsName name) (hother : IsName other)
    (hattributes : ∀ a ∈ attributes, a.IsProper) (h : lower name ≠ lower other) (s : Text) :
    occurrences .ignored other ('<' :: name ++ attributesText attributes ++ '>' :: s) =
      occurrences .ignored other s := by
  obtain ⟨c, rest, hcons, hc⟩ := exists_endsName_attributesText hattributes s
  have hopening : opening? .ignored other (name ++ attributesText attributes ++ '>' :: s) = none := by
    rw [List.append_assoc, hcons]
    exact opening?_of_lower_ne hother hname hc h
  have hsplit : name ++ attributesText attributes ++ '>' :: s =
      name ++ attributesText attributes ++ ['>'] ++ s := by simp
  calc
    _ = occurrences .ignored other (name ++ attributesText attributes ++ '>' :: s) :=
      occurrences_cons hother.1 fun _ ↦ hopening
    _ = occurrences .ignored other s := by
      rw [hsplit, occurrences_append hother.1 (not_mem_openingTag hname hattributes)]

theorem occurrences_closingTag (hname : IsName name) (hother : IsName other) (s : Text) :
    occurrences .ignored other (closingTag name ++ s) = occurrences .ignored other s := by
  calc
    _ = occurrences .ignored other (('/' :: name ++ ['>']) ++ s) :=
      occurrences_cons hother.1 fun _ ↦ opening?_slash hother
    _ = occurrences .ignored other s := occurrences_append hother.1 (not_mem_closingTag hname) s

/-- No element of a name that does not stand in a forest. -/
theorem filter_elements_eq_nil {forest : Forest}
    (h : ∀ name ∈ forest.names, lower name ≠ lower other) :
    forest.elements.filter (fun o ↦ lower o.name = lower other) = [] := by
  rw [List.filter_eq_nil_iff]
  intro o ho
  simpa using h _ (name_mem_of_mem_elements ho)

/-- Searching a written forest finds the elements of a name, and then what follows. -/
theorem occurrences_write (hother : IsName other) {forest : Forest} (h : forest.IsProper)
    (s : Text) :
    occurrences .ignored other (forest.write ++ s) =
      forest.elements.filter (fun o ↦ lower o.name = lower other) ++
        occurrences .ignored other s := by
  induction forest generalizing s with
  | done => rfl
  | text content rest ih =>
    rw [write, List.append_assoc, occurrences_append hother.1 (not_mem_of_isTextChar h.1),
      ih h.2, elements]
  | element name attributes inner rest ihInner ihRest =>
    obtain ⟨⟨hname, hattributes, hnames⟩, hinner, hrest⟩ := h
    by_cases hlower : lower name = lower other
    · have hfirst := first?_occurrence hname hother hattributes hinner hnames hlower
        (rest.write ++ s)
      have hnone : inner.elements.filter (fun o ↦ lower o.name = lower other) = [] :=
        filter_elements_eq_nil fun n hn ↦ hlower ▸ hnames n hn
      rw [write_element, List.append_assoc, occurrences_of_first?_eq_some hother.1 hfirst,
        ihRest hrest, elements, List.cons_append,
        List.filter_cons_of_pos (by simp [occurrence, hlower]), List.filter_append, hnone]
      rfl
    · have hsplit : (element name attributes inner rest).write ++ s =
          '<' :: name ++ attributesText attributes ++ '>' ::
            (inner.write ++ (closingTag name ++ (rest.write ++ s))) := by
        simp [write]
      rw [hsplit, occurrences_openingTag hname hother hattributes hlower, ihInner hinner,
        occurrences_closingTag hname hother, ihRest hrest, elements, List.cons_append,
        List.filter_cons_of_neg (by simp [occurrence, hlower]), List.filter_append,
        List.append_assoc]

end Search

end Forest

end ComponentMarkup
