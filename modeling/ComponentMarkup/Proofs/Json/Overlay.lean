import ComponentMarkup.Json.Value
import Mathlib.Data.Char
import Mathlib.Data.List.Induction
import Mathlib.Data.List.Lex

/-!
# Objects laid over each other

Members that are put in one after the other stand in the order of their keys, each key once. Of two
objects that are laid over each other the upper one is looked up first.
-/

namespace ComponentMarkup.Json.Object

/-- Keys in increasing order. -/
def IsSorted (object : Object) : Prop := (Dict.keys object).Pairwise (· < ·)

theorem isSorted_singleton (key : Text) (value : Value) : IsSorted [(key, value)] :=
  List.pairwise_singleton _ key

theorem mem_keys_insert {object : Object} {key other : Text} {value : Value}
    (h : other ∈ Dict.keys (insert object key value)) : other = key ∨ other ∈ Dict.keys object := by
  induction object with
  | nil => exact Or.inl (List.mem_singleton.1 h)
  | cons member rest ih =>
    unfold insert at h
    split_ifs at h with heq hlt
    · rcases List.mem_cons.1 h with h | h
      · exact Or.inl h
      · exact Or.inr (List.mem_cons_of_mem _ h)
    · rcases List.mem_cons.1 h with h | h
      · exact Or.inr (h ▸ List.mem_cons_self)
      · exact (ih h).imp_right (List.mem_cons_of_mem _)
    · exact (List.mem_cons.1 h).imp_right id

theorem isSorted_insert {object : Object} (h : object.IsSorted) (key : Text) (value : Value) :
    (insert object key value).IsSorted := by
  induction object with
  | nil => exact List.pairwise_singleton _ _
  | cons member rest ih =>
    obtain ⟨hfirst, hrest⟩ := List.pairwise_cons.1 h
    unfold insert
    split_ifs with heq hlt
    · subst heq
      exact List.pairwise_cons.2 ⟨hfirst, hrest⟩
    · refine List.pairwise_cons.2 ⟨fun other hother ↦ ?_, ih hrest⟩
      rcases mem_keys_insert hother with rfl | hother
      · exact hlt
      · exact hfirst other hother
    · have hgt : key < member.1 :=
        ((Std.lt_trichotomy member.1 key).resolve_left hlt).resolve_left heq
      refine List.pairwise_cons.2 ⟨fun other hother ↦ ?_, h⟩
      rcases List.mem_cons.1 hother with rfl | hother
      · exact hgt
      · exact List.lt_trans hgt (hfirst other hother)

theorem isSorted_overlay {lower : Object} (h : lower.IsSorted) (upper : Object) :
    (overlay lower upper).IsSorted := by
  induction upper generalizing lower with
  | nil => exact h
  | cons member rest ih => exact ih (isSorted_insert h member.1 member.2)

theorem isSorted_ofMembers (members : List (Text × Value)) : (ofMembers members).IsSorted := by
  have hnil : IsSorted [] := List.Pairwise.nil
  exact isSorted_overlay hnil members

theorem find?_eq_none_of_lt {object : Object} {key : Text} (h : ∀ other ∈ Dict.keys object, key < other) :
    Dict.find? object key = none := by
  induction object with
  | nil => rfl
  | cons member rest ih =>
    have hlt : key < member.1 := h _ List.mem_cons_self
    have hne : member.1 ≠ key := fun heq ↦ List.lt_irrefl _ (heq ▸ hlt)
    rw [Dict.find?, if_neg hne]
    exact ih fun other hother ↦ h other (List.mem_cons_of_mem _ hother)

/-- The upper object is looked up first. -/
theorem find?_overlay {upper : Object} (h : upper.IsSorted) (lower : Object) (key : Text) :
    Dict.find? (overlay lower upper) key = (Dict.find? upper key).or (Dict.find? lower key) := by
  induction upper generalizing lower with
  | nil => rfl
  | cons member rest ih =>
    obtain ⟨hfirst, hrest⟩ := List.pairwise_cons.1 h
    have hstep : Dict.find? (overlay lower (member :: rest)) key =
        (Dict.find? rest key).or (Dict.find? (insert lower member.1 member.2) key) :=
      ih hrest (insert lower member.1 member.2)
    rw [hstep, find?_insert, Dict.find?]
    by_cases hkey : member.1 = key
    · subst hkey
      rw [find?_eq_none_of_lt hfirst, if_pos rfl, if_pos rfl]
      rfl
    · rw [if_neg hkey, if_neg hkey]

/-- Of members that are put in one after the other, the last one is looked up first. -/
theorem find?_overlay_reverse (lower : Object) (members : List (Text × Value)) (key : Text) :
    Dict.find? (overlay lower members) key =
      (Dict.find? members.reverse key).or (Dict.find? lower key) := by
  induction members using List.reverseRecOn with
  | nil => rfl
  | append_singleton members last ih =>
    rw [overlay, List.foldl_append, List.foldl_cons, List.foldl_nil, find?_insert, ← overlay, ih,
      List.reverse_append, List.reverse_singleton, List.singleton_append, Dict.find?]
    split <;> rfl

end ComponentMarkup.Json.Object
