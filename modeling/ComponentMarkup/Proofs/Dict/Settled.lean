import ComponentMarkup.Dict
import Mathlib.Data.List.Induction
import Mathlib.Data.Prod.Basic

/-!
# Dictionaries of pairs

Pairs that are put into a dictionary one after the other settle there: every key stands where it
first came and has the value that it came with last.
-/

namespace ComponentMarkup.Dict

variable {α : Type} {key other : Text} {value : α}

theorem contains_iff_mem_keys (dict : Dict α) (key : Text) :
    contains dict key = true ↔ key ∈ keys dict := by
  induction dict with
  | nil => simp [contains, find?, keys]
  | cons entry rest ih =>
    by_cases h : entry.1 = key
    · simp [contains, find?, keys, h]
    · simp only [contains, find?, keys, h, List.map_cons, List.mem_cons, Ne.symm h, false_or,
        if_false] at ih ⊢
      exact ih

theorem insert_of_not_mem_keys {dict : Dict α} (value : α) (h : key ∉ keys dict) :
    insert dict key value = dict ++ [(key, value)] := by
  induction dict with
  | nil => rfl
  | cons entry rest ih =>
    simp only [keys, List.map_cons, List.mem_cons, not_or] at h
    simp only [insert, Ne.symm h.1, if_false, List.cons_append]
    rw [ih h.2]

/-! ## Erasing -/

theorem erase_cons (entry : Text × α) (dict : Dict α) (key : Text) :
    erase (entry :: dict) key =
      if entry.1 = key then erase dict key else entry :: erase dict key := by
  rw [erase, List.filter_cons]
  by_cases h : entry.1 = key <;> simp [h, erase]

theorem erase_insert_self (dict : Dict α) : erase (insert dict key value) key = erase dict key := by
  induction dict with
  | nil => simp [insert, erase]
  | cons entry rest ih =>
    by_cases h : entry.1 = key
    · simp [insert, erase_cons, h]
    · simp [insert, erase_cons, h, ih]

theorem erase_insert_of_ne (h : key ≠ other) (dict : Dict α) :
    erase (insert dict key value) other = insert (erase dict other) key value := by
  induction dict with
  | nil => simp [insert, erase, h]
  | cons entry rest ih =>
    by_cases hkey : entry.1 = key
    · have hother : entry.1 ≠ other := hkey.trans_ne h
      simp [insert, erase_cons, hkey, h]
    · rw [insert, if_neg hkey, erase_cons, erase_cons, ih]
      by_cases hother : entry.1 = other
      · rw [if_pos hother, if_pos hother]
      · rw [if_neg hother, if_neg hother, insert, if_neg hkey]

theorem mem_keys_erase {dict : Dict α} :
    key ∈ keys (erase dict other) ↔ key ∈ keys dict ∧ key ≠ other := by
  simp only [keys, erase, List.mem_map, List.mem_filter, decide_eq_true_eq]
  constructor
  · rintro ⟨entry, ⟨hentry, hne⟩, rfl⟩
    exact ⟨⟨entry, hentry, rfl⟩, hne⟩
  · rintro ⟨⟨entry, hentry, rfl⟩, hne⟩
    exact ⟨entry, ⟨hentry, hne⟩, rfl⟩

theorem erase_of_not_mem_keys {dict : Dict α} (h : key ∉ keys dict) : erase dict key = dict := by
  rw [erase, List.filter_eq_self]
  intro entry hentry
  exact decide_eq_true fun heq ↦ h (heq ▸ List.mem_map_of_mem hentry)

/-! ## Keys that come again -/

/-- Every key at its first place, with the value that it has last. -/
def settled : List (Text × α) → Dict α
  | [] => []
  | (key, value) :: rest =>
    (key, (find? rest.reverse key).getD value) :: erase (settled rest) key

theorem settled_append (pairs : List (Text × α)) (key : Text) (value : α) :
    settled (pairs ++ [(key, value)]) = insert (settled pairs) key value := by
  induction pairs with
  | nil => rfl
  | cons first rest ih =>
    rw [List.cons_append, settled, settled, ih, List.reverse_append, List.reverse_singleton,
      List.singleton_append, find?, insert]
    by_cases h : key = first.1
    · rw [if_pos h, if_pos h.symm, h, erase_insert_self]
      rfl
    · rw [if_neg h, if_neg (Ne.symm h), erase_insert_of_ne h]

/-- Putting in pairs one after the other settles them. -/
theorem ofPairs_eq_settled (pairs : List (Text × α)) : ofPairs pairs = settled pairs := by
  induction pairs using List.reverseRecOn with
  | nil => rfl
  | append_singleton pairs last ih =>
    rw [settled_append, ← ih, ofPairs, ofPairs, List.foldl_append]
    rfl

theorem mem_keys_settled {pairs : List (Text × α)} :
    key ∈ keys (settled pairs) ↔ key ∈ pairs.map Prod.fst := by
  induction pairs with
  | nil => rfl
  | cons first rest ih =>
    have hkeys : keys (settled (first :: rest)) =
        first.1 :: keys (erase (settled rest) first.1) := rfl
    rw [hkeys, List.mem_cons, mem_keys_erase, ih, List.map_cons, List.mem_cons]
    tauto

theorem nodup_keys_settled (pairs : List (Text × α)) : (keys (settled pairs)).Nodup := by
  induction pairs with
  | nil => exact List.nodup_nil
  | cons first rest ih =>
    refine List.nodup_cons.2 ⟨fun hmem ↦ (mem_keys_erase.1 hmem).2 rfl, ?_⟩
    exact ih.sublist (List.filter_sublist.map Prod.fst)

theorem find?_of_not_mem_keys {dict : Dict α} (h : key ∉ keys dict) : find? dict key = none := by
  rw [← contains_iff_mem_keys, contains, Bool.not_eq_true, Option.isSome_eq_false_iff] at h
  exact Option.isNone_iff_eq_none.1 h

/-- Of two dictionaries one behind the other, the first one is looked up first. -/
theorem find?_append (dict others : Dict α) (key : Text) :
    find? (dict ++ others) key = (find? dict key).or (find? others key) := by
  induction dict with
  | nil => rfl
  | cons entry rest ih =>
    rw [List.cons_append, find?, find?, ih]
    split <;> rfl

/-- Where no key comes again, a key is found from either end. -/
theorem find?_reverse_of_nodup {dict : Dict α} (h : (keys dict).Nodup) (key : Text) :
    find? dict.reverse key = find? dict key := by
  induction dict with
  | nil => rfl
  | cons entry rest ih =>
    obtain ⟨hentry, hrest⟩ := List.nodup_cons.1 h
    rw [List.reverse_cons, find?_append, ih hrest, find?]
    by_cases hkey : entry.1 = key
    · rw [← hkey, find?_of_not_mem_keys hentry]
      simp [find?]
    · simp [find?, hkey]

/-- A key has the value that it came with last. -/
theorem find?_settled (pairs : List (Text × α)) (key : Text) :
    find? (settled pairs) key = find? pairs.reverse key := by
  induction pairs using List.reverseRecOn with
  | nil => rfl
  | append_singleton pairs last ih =>
    rw [settled_append, find?_insert, ih, List.reverse_append, List.reverse_singleton,
      List.singleton_append, find?]

/-- In a dictionary without repeated keys, an entry is what is found under its key. -/
theorem find?_of_mem {dict : Dict α} (h : (keys dict).Nodup) (hmem : (key, value) ∈ dict) :
    find? dict key = some value := by
  induction dict with
  | nil => exact absurd hmem List.not_mem_nil
  | cons entry rest ih =>
    obtain ⟨hentry, hrest⟩ := List.nodup_cons.1 h
    rcases List.mem_cons.1 hmem with rfl | hmem
    · exact if_pos rfl
    · have hne : entry.1 ≠ key := by
        rintro rfl
        exact hentry (List.mem_map.2 ⟨(entry.1, value), hmem, rfl⟩)
      rw [find?, if_neg hne, ih hrest hmem]

/-- Where no key comes again there is nothing to settle. -/
theorem settled_of_nodup {pairs : List (Text × α)} (h : (keys pairs).Nodup) :
    settled pairs = pairs := by
  induction pairs with
  | nil => rfl
  | cons first rest ih =>
    obtain ⟨hfirst, hrest⟩ := List.nodup_cons.1 h
    have hlast : first.1 ∉ keys rest.reverse := by
      rwa [keys, List.map_reverse, List.mem_reverse]
    rw [settled, ih hrest, erase_of_not_mem_keys hfirst, find?_of_not_mem_keys hlast,
      Option.getD_none]

end ComponentMarkup.Dict
