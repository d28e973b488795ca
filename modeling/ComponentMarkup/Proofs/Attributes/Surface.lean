import ComponentMarkup.Proofs.Attributes.Form
import ComponentMarkup.Proofs.Forest.Written

/-!
# Attributes in a tag

In a tag no name of an attribute has a `>`, since it would end the tag. Two readers meet what stands
there: one looks for the `>` that ends the tag and passes over the attributes, whatever stands
between quotes, and one takes them apart into the names and values that were written.
-/

namespace ComponentMarkup

open Text Tag

namespace Attributes

/-! ## What is written -/

/-- An attribute as it can stand in a tag: its name does not end the tag. -/
structure Surface where
  gap : Gap
  name : Text
  assignment : Option Assignment
  gap_ne_nil : gap.text ≠ []
  name_ne_nil : name ≠ []
  isName : ∀ c ∈ name, isNameChar c = true
  close_not_mem : '>' ∉ name

namespace Surface

/-- All behind the name. -/
def assigned (surface : Surface) : Text := (surface.assignment.map Assignment.text).getD []

def text (surface : Surface) : Text := surface.gap.text ++ surface.name ++ surface.assigned

/-- The name and the value; without a value the empty one. -/
def pair (surface : Surface) : Text × Text :=
  (surface.name, (surface.assignment.map (·.value.content)).getD [])

/-- A value, if there is one, stands between quotes. -/
def IsQuoted (surface : Surface) : Prop :=
  ∀ assignment ∈ surface.assignment, ∃ quoted, assignment.value = .quoted quoted

/-- Attributes one after the other. -/
def textOf (surfaces : List Surface) : Text := surfaces.flatMap text

def form (surface : Surface) : Form where
  gap := surface.gap
  name := surface.name
  assignment := surface.assignment
  gap_ne_nil := surface.gap_ne_nil
  name_ne_nil := surface.name_ne_nil
  isName := surface.isName

theorem textOf_map_form (surfaces : List Surface) :
    Form.textOf (surfaces.map form) = textOf surfaces := by
  rw [Form.textOf, List.flatMap_map]
  rfl

end Surface

/-! ## The end of the tag -/

section TagEnd

theorem Gap.isQuote (gap : Gap) : ∀ c ∈ gap.text, ComponentMarkup.isQuote c = false :=
  fun c hc ↦ isQuote_of_isMarkupSpace (gap.isSpace c hc)

theorem Gap.not_mem_close (gap : Gap) : '>' ∉ gap.text :=
  fun h ↦ absurd (gap.isSpace _ h) (by decide)

/-- A text that does not end a tag, whatever stands behind it. -/
def Passes (region : Region) (s : Text) (region' : Region) : Prop :=
  ∀ t, tagEnd? region (s ++ t) = (tagEnd? region' t).map fun found ↦ (s ++ found.1, found.2)

variable {region between last : Region} {s t : Text}

theorem Passes.nil (region : Region) : Passes region [] region := fun t ↦ by simp

theorem Passes.append (hs : Passes region s between) (ht : Passes between t last) :
    Passes region (s ++ t) last := by
  intro u
  rw [List.append_assoc, hs, ht, Option.map_map]
  simp [Function.comp_def]

theorem passes_of_not_mem (h : '>' ∉ s) : Passes region s (s.foldl Region.next region) :=
  tagEnd?_append h region

/-- Between quotes everything but the quote is passed over. -/
theorem passes_quoted {quote : Char} (h : quote ∉ s) :
    Passes (.quoted quote) s (.quoted quote) := by
  induction s with
  | nil => exact .nil _
  | cons c s ih =>
    rw [List.mem_cons, not_or] at h
    intro t
    rw [List.cons_append, tagEnd?, if_neg (by simp [Region.isQuoted]), Region.next,
      if_neg (Ne.symm h.1), ih h.2, Option.map_map]
    rfl

theorem Passes.tagEnd? (h : Passes region s last) (hlast : last.isQuoted = false) (t : Text) :
    tagEnd? region (s ++ '>' :: t) = some (s, t) := by
  rw [h, Tag.tagEnd?, if_pos (by simp [hlast]), Option.map_some, List.append_nil]

theorem Quoted.passes (quoted : Quoted) : Passes .value quoted.text .value := by
  have hquote : Region.value.next quoted.quote = .quoted quoted.quote := by
    rcases quoted.quote_eq with h | h <;> simp [h, Region.next]
  have hclose : '>' ∉ [quoted.quote] := by
    rcases quoted.quote_eq with h | h <;> simp [h]
  have hopening : Passes .value [quoted.quote] (.quoted quoted.quote) := by
    rw [← hquote]
    exact passes_of_not_mem hclose
  have hclosing : Passes (.quoted quoted.quote) [quoted.quote] .value := by
    have hnext : (Region.quoted quoted.quote).next quoted.quote = .value := if_pos rfl
    rw [← hnext]
    exact passes_of_not_mem hclose
  exact hopening.append ((passes_quoted quoted.quote_not_mem).append hclosing)

/-- A text that leads from outside quotes to outside quotes and ends no tag. -/
def StaysOutside (s : Text) : Prop :=
  ∀ region : Region, region.isQuoted = false → ∃ last, last.isQuoted = false ∧ Passes region s last

theorem StaysOutside.append (hs : StaysOutside s) (ht : StaysOutside t) :
    StaysOutside (s ++ t) := by
  intro region hregion
  obtain ⟨between, hbetween, hfirst⟩ := hs region hregion
  obtain ⟨last, hlast, hsecond⟩ := ht between hbetween
  exact ⟨last, hlast, hfirst.append hsecond⟩

theorem staysOutside_of_forall (hclose : '>' ∉ s) (hs : ∀ c ∈ s, isQuote c = false) :
    StaysOutside s :=
  fun _ hregion ↦ ⟨_, isQuoted_foldl_next hregion hs, passes_of_not_mem hclose⟩

theorem Gap.staysOutside (gap : Gap) : StaysOutside gap.text :=
  staysOutside_of_forall gap.not_mem_close gap.isQuote

/-- Behind `=`, white space does not keep a quote from opening a value. -/
theorem Gap.passes (gap : Gap) : Passes .value gap.text .value := by
  have hvalue : gap.text.foldl Region.next .value = .value := by
    have hspace := gap.isSpace
    generalize gap.text = text at hspace ⊢
    induction text with
    | nil => rfl
    | cons c text ih =>
      obtain ⟨hc, htext⟩ := List.forall_mem_cons.1 hspace
      have hquote : (decide (c = '"') || decide (c = '\'')) = false := isQuote_of_isMarkupSpace hc
      rw [List.foldl_cons, Region.next, hquote, if_neg Bool.false_ne_true, hc, Bool.or_true,
        if_pos rfl]
      exact ih htext
  have hpasses : Passes .value gap.text _ := passes_of_not_mem gap.not_mem_close
  rwa [hvalue] at hpasses

theorem Value.passes (value : Value) :
    ∃ last, last.isQuoted = false ∧ Passes .value value.text last := by
  cases value with
  | quoted quoted => exact ⟨.value, rfl, quoted.passes⟩
  | bare bare =>
    apply staysOutside_of_forall _ _ .value rfl
    · exact fun h ↦ (isBareValueChar_iff.1 (bare.isBare _ h)).2.2.2 rfl
    · intro c hc
      obtain ⟨_, hdouble, hsingle, _⟩ := isBareValueChar_iff.1 (bare.isBare c hc)
      simp [isQuote, hdouble, hsingle]

theorem Assignment.staysOutside (assignment : Assignment) : StaysOutside assignment.text := by
  intro region hregion
  obtain ⟨between, hbetween, hbefore⟩ := assignment.before.staysOutside region hregion
  obtain ⟨last, hlast, hvalue⟩ := assignment.value.passes
  have hequals : Passes between ['='] .value := by
    rw [← next_equals hbetween]
    exact passes_of_not_mem (by decide)
  have hall := ((hbefore.append hequals).append assignment.behind.passes).append hvalue
  refine ⟨last, hlast, ?_⟩
  simpa [Assignment.text] using hall

namespace Surface

theorem staysOutside_name (surface : Surface) : StaysOutside surface.name := by
  apply staysOutside_of_forall
  · exact surface.close_not_mem
  · intro c hc
    obtain ⟨_, _, hdouble, hsingle, _⟩ := isNameChar_iff.1 (surface.isName c hc)
    simp [isQuote, hdouble, hsingle]

theorem staysOutside_assigned (surface : Surface) : StaysOutside surface.assigned := by
  rw [assigned]
  cases surface.assignment with
  | none => exact fun region hregion ↦ ⟨region, hregion, .nil region⟩
  | some assignment => exact assignment.staysOutside

theorem staysOutside_textOf (surfaces : List Surface) : StaysOutside (textOf surfaces) := by
  induction surfaces with
  | nil => exact fun region hregion ↦ ⟨region, hregion, .nil region⟩
  | cons surface rest ih =>
    have hsurface := (surface.gap.staysOutside.append surface.staysOutside_name).append
      surface.staysOutside_assigned
    exact hsurface.append ih

/-- A tag ends at the first `>` behind its attributes. -/
theorem tagEnd?_textOf (surfaces : List Surface) (t : Text) :
    Tag.tagEnd? .plain (textOf surfaces ++ '>' :: t) = some (textOf surfaces, t) := by
  obtain ⟨last, hlast, hpasses⟩ := staysOutside_textOf surfaces .plain rfl
  exact hpasses.tagEnd? hlast t

/-- Only a value without quotes can end in a slash, and then the tag would close itself. -/
theorem getLast?_text_ne_slash {surface : Surface} (h : surface.IsQuoted) :
    surface.text.getLast? ≠ some '/' := by
  rw [text, assigned]
  cases hassignment : surface.assignment with
  | none =>
    rw [Option.map_none, Option.getD_none, List.append_nil,
      List.getLast?_append_of_ne_nil _ surface.name_ne_nil]
    intro hlast
    exact (isNameChar_iff.1 (surface.isName _ (List.mem_of_getLast? hlast))).2.2.2.2 rfl
  | some assignment =>
    obtain ⟨quoted, hvalue⟩ := h assignment hassignment
    have hquote : quoted.quote ≠ '/' := by
      rcases quoted.quote_eq with h | h <;> rw [h] <;> decide
    rw [Option.map_some, Option.getD_some, Assignment.text, hvalue, Value.text, Quoted.text,
      ← List.append_assoc, ← List.append_assoc, List.getLast?_concat, ne_eq, Option.some.injEq]
    exact hquote

theorem getLast?_textOf_ne_slash {surfaces : List Surface}
    (h : ∀ surface ∈ surfaces.getLast?, surface.IsQuoted) :
    (textOf surfaces).getLast? ≠ some '/' := by
  rcases List.eq_nil_or_concat surfaces with rfl | ⟨front, last, rfl⟩
  · simp [textOf]
  · have hlast := getLast?_text_ne_slash (h last (by simp))
    have hne : last.text ≠ [] := by simp [text, last.name_ne_nil]
    rwa [textOf, List.concat_eq_append, List.flatMap_append, List.flatMap_singleton,
      List.getLast?_append_of_ne_nil _ hne]

end Surface

end TagEnd

/-! ## Reading -/

namespace Surface

theorem isMarkupSpace_head?_textOf (surfaces : List Surface) :
    ∀ c ∈ (textOf surfaces).head?, isMarkupSpace c = true := by
  rw [← textOf_map_form]
  exact Form.isMarkupSpace_head?_textOf _

theorem parse_textOf_append (surfaces : List Surface) (after : Gap) :
    parse (textOf surfaces ++ after.text) = Dict.settled (surfaces.map pair) := by
  rw [← textOf_map_form, Form.parse_textOf_append, List.map_map]
  rfl

theorem parse_textOf (surfaces : List Surface) :
    parse (textOf surfaces) = Dict.settled (surfaces.map pair) := by
  have hparse := parse_textOf_append surfaces .none
  rwa [Gap.none, List.append_nil] at hparse

end Surface

end Attributes

end ComponentMarkup
