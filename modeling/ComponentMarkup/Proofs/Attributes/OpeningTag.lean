import ComponentMarkup.Proofs.Attributes.Surface
import ComponentMarkup.Proofs.Tag.Passing

/-!
# Opening tags as they are written

An opening tag is written as a name, attributes in any of their forms and `>`, with a slash before
it if the tag closes itself. The search for the end of the tag and the reading of its attributes are
two readers of one text. They agree on every tag that is written: the attributes that are read are
those that were written, whatever stands between their quotes and whatever stands behind the tag.
-/

namespace ComponentMarkup.Attributes

open Text Tag

/-- An opening tag as it is written. White space keeps a slash of the last value or of the ending
from being taken for one of the other. -/
structure OpeningTag where
  name : Text
  attributes : List Surface
  /-- White space behind the last attribute. -/
  after : Gap
  closesItself : Bool
  isName : IsName name
  after_ne_nil : closesItself = true → after.text ≠ []
  isQuoted_getLast? : after.text = [] → ∀ surface ∈ attributes.getLast?, surface.IsQuoted

namespace OpeningTag

variable (tag : OpeningTag)

/-- All between the name and the ending. -/
def inside : Text := Surface.textOf tag.attributes ++ tag.after.text

def slash : Text := if tag.closesItself then ['/'] else []

def text : Text := '<' :: tag.name ++ tag.inside ++ tag.slash ++ ['>']

/-- The names in the order of their first places, each with the value that it was given last. -/
def written : Attributes := Dict.settled (tag.attributes.map Surface.pair)

/-- What follows the name ends the name. -/
theorem exists_endsName (rest : Text) :
    ∃ c behind, tag.inside ++ tag.slash ++ '>' :: rest = c :: behind ∧ endsName c = true := by
  have hslash : ∃ c behind, tag.slash ++ '>' :: rest = c :: behind ∧ endsName c = true := by
    rw [slash]
    cases tag.closesItself with
    | false => exact ⟨'>', rest, rfl, by decide⟩
    | true => exact ⟨'/', '>' :: rest, rfl, by decide⟩
  rw [inside, List.append_assoc, List.append_assoc]
  apply exists_endsName_append (Surface.isMarkupSpace_head?_textOf tag.attributes)
  exact exists_endsName_append (fun c hc ↦ tag.after.isSpace c (List.mem_of_mem_head? hc)) hslash

/-- The tag ends at its own `>`. -/
theorem tagEnd?_inside (rest : Text) :
    tagEnd? .plain (tag.inside ++ tag.slash ++ '>' :: rest) =
      some (tag.inside ++ tag.slash, rest) := by
  have hslash : StaysOutside tag.slash := by
    rw [slash]
    cases tag.closesItself <;> exact staysOutside_of_forall (by simp) (by simp [isQuote])
  have hall := ((Surface.staysOutside_textOf tag.attributes).append tag.after.staysOutside).append
    hslash
  obtain ⟨last, hlast, hpasses⟩ := hall .plain rfl
  exact hpasses.tagEnd? hlast rest

/-- No slash of a value stands before the ending. -/
theorem getLast?_inside_ne_slash : tag.inside.getLast? ≠ some '/' := by
  rw [inside]
  by_cases hafter : tag.after.text = []
  · rw [hafter, List.append_nil]
    exact Surface.getLast?_textOf_ne_slash (tag.isQuoted_getLast? hafter)
  · rw [List.getLast?_append_of_ne_nil _ hafter]
    intro hlast
    exact absurd (tag.after.isSpace _ (List.mem_of_getLast? hlast)) (by decide)

/-- The slash of the ending does not belong to the attributes. -/
theorem ending_inside (mode : LetterCase) (name rest : Text) :
    (ending mode name (tag.inside ++ tag.slash) rest).1 = tag.inside := by
  have hslash := tag.getLast?_inside_ne_slash
  rw [ending, slash]
  cases tag.closesItself with
  | false =>
    rw [if_neg Bool.false_ne_true, List.append_nil, if_neg hslash]
    split <;> rfl
  | true => rw [if_pos rfl, if_pos List.getLast?_concat, List.dropLast_concat]

/-- A search for the name stops at the tag, and its attributes are all between name and ending. How
the occurrence ends depends on what stands behind the tag, its attributes do not. -/
theorem first?_text_append (mode : LetterCase) (rest : Text) :
    first? mode tag.name (tag.text ++ rest) =
      some ([], ⟨[], tag.name, tag.inside,
          (ending mode tag.name (tag.inside ++ tag.slash) rest).2.1⟩,
        (ending mode tag.name (tag.inside ++ tag.slash) rest).2.2) := by
  obtain ⟨c, behind, hbehind, hc⟩ := tag.exists_endsName rest
  have hopening : opening? mode tag.name (tag.name ++ c :: behind) =
      some ([], tag.name, c :: behind) := by
    have hspells : mode.Spells tag.name tag.name := by cases mode <;> rfl
    exact opening?_append tag.isName.isFirm hspells (List.forall_mem_nil _) hc behind
  have htext : tag.text ++ rest = '<' :: (tag.name ++ c :: behind) := by
    rw [← hbehind]
    simp [text]
  have hend := tag.tagEnd?_inside rest
  rw [hbehind] at hend
  rw [htext, first?_of_opening? hopening hend, tag.ending_inside]

theorem exists_occurrences_eq (rest : Text) :
    ∃ occurrence others, occurrences .kept tag.name (tag.text ++ rest) = occurrence :: others ∧
      occurrence.attributes = tag.inside :=
  ⟨_, _, occurrences_of_first?_eq_some tag.isName.1 (tag.first?_text_append .kept rest), rfl⟩

/-- An element without elements in it is one occurrence. -/
theorem occurrences_text_append_closingTag (hopen : tag.closesItself = false) {inner : Text}
    (hinner : '<' ∉ inner) :
    occurrences .ignored tag.name (tag.text ++ (inner ++ closingTag tag.name)) =
      [⟨[], tag.name, tag.inside, .closed inner (closingTag tag.name)⟩] := by
  have hinner? : inner? .ignored tag.name (inner ++ closingTag tag.name) =
      some (inner, closingTag tag.name, []) := by
    have hclosing := Forest.inner?_closingTag tag.isName rfl (s := [])
    rw [List.append_nil] at hclosing
    rw [inner?_append hinner, hclosing, Option.map_some, List.append_nil]
  have hending : ending .ignored tag.name (tag.inside ++ tag.slash) (inner ++ closingTag tag.name) =
      (tag.inside, .closed inner (closingTag tag.name), []) := by
    rw [ending, slash, hopen, if_neg Bool.false_ne_true, List.append_nil,
      if_neg tag.getLast?_inside_ne_slash, hinner?]
  have hfirst := tag.first?_text_append .ignored (inner ++ closingTag tag.name)
  rw [hending] at hfirst
  rw [occurrences_of_first?_eq_some tag.isName.1 hfirst, occurrences_nil tag.isName.1]

/-- The attributes of a tag are read as they were written, in whatever forms, and whatever stands
behind the tag. -/
theorem ofTag_text_append (rest : Text) : ofTag tag.name (tag.text ++ rest) = tag.written := by
  obtain ⟨occurrence, others, hfound, hattributes⟩ := tag.exists_occurrences_eq rest
  rw [ofTag, hfound]
  show parse occurrence.attributes = _
  rw [hattributes]
  exact Surface.parse_textOf_append tag.attributes tag.after

/-- A tag that closes itself, with slashes and `>` in values and with a name that comes again. -/
def card : OpeningTag where
  name := "card".toList
  attributes := [
    ⟨.space, ['b'], some ⟨.none, .none, .quoted ⟨'\'', "\">/".toList, .inr rfl, by decide⟩⟩,
      Gap.space_ne_nil, by decide, List.all_eq_true.1 rfl, by decide⟩,
    ⟨.space, ['c'], none, Gap.space_ne_nil, by decide, List.all_eq_true.1 rfl, by decide⟩,
    ⟨.space, ['b'], some ⟨.space, .none, .bare ⟨"/p=1/".toList, by decide, List.all_eq_true.1 rfl⟩⟩,
      Gap.space_ne_nil, by decide, List.all_eq_true.1 rfl, by decide⟩]
  after := .space
  closesItself := true
  isName := by decide
  after_ne_nil := fun _ ↦ by decide
  isQuoted_getLast? := fun h ↦ absurd h (by decide)

example : card.text = "<card b='\">/' c b =/p=1/ />".toList ∧
    card.written = [(['b'], "/p=1/".toList), (['c'], [])] := by
  decide

end OpeningTag

end ComponentMarkup.Attributes
