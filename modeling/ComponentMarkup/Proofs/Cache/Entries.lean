import ComponentMarkup.Cache.Basic
import Mathlib.Data.List.Find

/-!
# The entries of the cache

What looking up and putting in do to the list of entries: a lookup only takes entries away, an
entry that it returns is one of the cache, stands under a path with the same steps and is fresh,
and putting in adds one entry and only drops others.
-/

namespace ComponentMarkup.Cache

theorem mem_erase {cache : Cache} {path : Path} {entry : Path × Entry}
    (h : entry ∈ (cache.erase path).entries) : entry ∈ cache.entries :=
  (List.mem_filter.1 h).1

theorem mem_evict {policy : Policy} {entries : List (Path × Entry)} {entry : Path × Entry}
    (h : entry ∈ evict policy entries) : entry ∈ entries := by
  unfold evict at h
  split at h
  · exact h
  · exact List.mem_of_mem_drop h
  · split at h
    · exact absurd h List.not_mem_nil
    · exact h

theorem mem_set {cache : Cache} {path : Path} {new : Entry} {entry : Path × Entry}
    (h : entry ∈ (cache.set path new).entries) : entry ∈ cache.entries ∨ entry = (path, new) := by
  rcases List.mem_append.1 (mem_evict h) with h | h
  · exact Or.inl (mem_erase h)
  · exact Or.inr (List.mem_singleton.1 h)

section Lookup

variable {cache : Cache} {tree : FileTree} {path : Path} {modified : FileTree.Stamp}
  {fingerprint : Text}

@[simp] theorem policy_get :
    (cache.get tree path modified fingerprint).2.policy = cache.policy := by
  unfold get
  split
  · rfl
  · split <;> rfl

theorem mem_get {entry : Path × Entry}
    (h : entry ∈ (cache.get tree path modified fingerprint).2.entries) :
    entry ∈ cache.entries := by
  unfold get at h
  split at h
  · exact h
  · split at h
    · exact h
    · exact mem_erase h

/-- A hit is an entry of the cache that is fresh. -/
theorem get_eq_some {entry : Entry}
    (h : (cache.get tree path modified fingerprint).1 = some entry) :
    ∃ key, (key, entry) ∈ cache.entries ∧ Path.same key path = true ∧
      entry.isFresh tree cache.policy modified fingerprint = true := by
  unfold get at h
  split at h
  · simp at h
  · rename_i found hfound
    split at h
    · rename_i hfresh
      obtain rfl : found = entry := by simpa using h
      rw [find?, Option.map_eq_some_iff] at hfound
      obtain ⟨⟨key, value⟩, hfind, rfl⟩ := hfound
      exact ⟨key, List.mem_of_find?_eq_some hfind, by simpa using List.find?_some hfind, hfresh⟩
    · simp at h

end Lookup

/-! ## Finding entries -/

/-- The entry that was put in last is kept. -/
def Policy.KeepsLast : Policy → Prop
  | .unbounded => True
  | .entries most => most ≠ 0
  | .age _ => False

instance : DecidablePred Policy.KeepsLast
  | .unbounded => .isTrue trivial
  | .entries most => inferInstanceAs (Decidable (most ≠ 0))
  | .age _ => .isFalse id

section Find

variable (cache : Cache) (path : Path)

theorem find?_erase_self : (cache.erase path).find? path = none := by
  simp [find?, erase]

/-- What keeps the last entry keeps it behind all others. -/
theorem evict_append_of_keepsLast {policy : Policy} (h : policy.KeepsLast)
    (entries : List (Path × Entry)) (last : Path × Entry) :
    ∃ kept, evict policy (entries ++ [last]) = kept ++ [last] ∧ kept ⊆ entries := by
  cases policy with
  | unbounded => exact ⟨entries, rfl, List.Subset.refl _⟩
  | age _ => exact h.elim
  | entries most =>
    have hmost : most ≠ 0 := h
    have hroom : (entries ++ [last]).length - most ≤ entries.length := by
      rw [List.length_append, List.length_singleton]
      omega
    refine ⟨entries.drop ((entries ++ [last]).length - most), ?_, List.drop_subset _ _⟩
    rw [evict, List.drop_append_of_le_length hroom]

theorem find?_set_self (h : cache.policy.KeepsLast) (entry : Entry) :
    (cache.set path entry).find? path = some entry := by
  obtain ⟨kept, hkept, hsubset⟩ :=
    evict_append_of_keepsLast h (cache.erase path).entries (path, entry)
  have hnone : kept.find? (fun entry ↦ Path.same entry.1 path) = none := by
    rw [List.find?_eq_none]
    intro other hother
    have hmem := (List.mem_filter.1 (hsubset hother)).2
    simpa using hmem
  have hself : Path.same path path = true := decide_eq_true rfl
  rw [find?, set, hkept, List.find?_append, hnone, Option.none_or, List.find?_cons, hself]
  rfl

variable {cache path} {tree : FileTree} {modified : FileTree.Stamp} {fingerprint : Text}

theorem get_of_find?_eq_none (h : cache.find? path = none) :
    cache.get tree path modified fingerprint = (none, cache) := by
  rw [get, h]

/-- A fresh entry is found, and the cache stays as it is. -/
theorem get_of_isFresh {entry : Entry} (h : cache.find? path = some entry)
    (hfresh : entry.isFresh tree cache.policy modified fingerprint = true) :
    cache.get tree path modified fingerprint = (some entry, cache) := by
  rw [get, h]
  simp only [hfresh, if_true]

/-- An entry with a stale dependency is not used. -/
theorem get_eq_none_of_stale {entry : Entry} (h : cache.find? path = some entry)
    {dependency : Dependency} (hmem : dependency ∈ entry.dependencies)
    (hstale : tree.stamp dependency.path ≠ dependency.modified) :
    (cache.get tree path modified fingerprint).1 = none := by
  have hcurrent : entry.dependencies.all (Dependency.isCurrent tree) = false := by
    rw [List.all_eq_false]
    exact ⟨dependency, hmem, by simpa [Dependency.isCurrent] using hstale⟩
  rw [get, h]
  simp [Entry.isFresh, hcurrent]

/-- A lookup that finds nothing to use leaves nothing there. -/
theorem find?_get_of_eq_none (h : (cache.get tree path modified fingerprint).1 = none) :
    (cache.get tree path modified fingerprint).2.find? path = none := by
  unfold get at h ⊢
  split
  · rename_i hnone
    exact hnone
  · rename_i hsome
    rw [hsome] at h
    split
    · rename_i hfresh
      simp [hfresh] at h
    · exact find?_erase_self cache path

/-- A lookup that finds an entry leaves the cache as it is. -/
theorem get_snd_of_eq_some {entry : Entry}
    (h : (cache.get tree path modified fingerprint).1 = some entry) :
    (cache.get tree path modified fingerprint).2 = cache := by
  unfold get at h ⊢
  split
  · rfl
  · rename_i hsome
    rw [hsome] at h
    split
    · rfl
    · rename_i hstale
      simp [hstale] at h

/-- What a lookup finds is the entry of its path, and fresh. -/
theorem find?_of_get_eq_some {entry : Entry}
    (h : (cache.get tree path modified fingerprint).1 = some entry) :
    cache.find? path = some entry ∧
      entry.isFresh tree cache.policy modified fingerprint = true := by
  unfold get at h
  split at h
  · simp at h
  · rename_i found hfound
    split at h
    · rename_i hfresh
      obtain rfl : found = entry := by simpa using h
      exact ⟨hfound, hfresh⟩
    · simp at h

/-! ## Entries of other paths -/

variable {other : Path}

theorem find?_erase_of_not_same (h : Path.same path other = false) :
    (cache.erase other).find? path = cache.find? path := by
  have hother (entry : Path × Entry) (hsame : Path.same entry.1 path = true) :
      Path.same entry.1 other = false := by
    simp only [Path.same, decide_eq_true_eq, decide_eq_false_iff_not] at h hsame ⊢
    rwa [hsame]
  rw [find?, find?, erase, List.find?_filter]
  congr 1
  apply List.find?_congr
  intro entry _
  cases hsame : Path.same entry.1 path with
  | false => simp
  | true => simp [hother entry hsame]

theorem find?_get_of_not_same (h : Path.same path other = false) :
    (cache.get tree other modified fingerprint).2.find? path = cache.find? path := by
  unfold get
  split
  · rfl
  · split
    · rfl
    · exact find?_erase_of_not_same h

theorem find?_set_of_not_same (hpolicy : cache.policy = .unbounded)
    (h : Path.same path other = false) (entry : Entry) :
    (cache.set other entry).find? path = cache.find? path := by
  have hentries : (cache.set other entry).entries =
      (cache.erase other).entries ++ [(other, entry)] := by rw [set, hpolicy]; rfl
  have hsame : Path.same other path = false := by
    simp only [Path.same, decide_eq_false_iff_not] at h ⊢
    exact Ne.symm h
  calc
    (cache.set other entry).find? path = (cache.erase other).find? path := by
      rw [find?, find?, hentries, List.find?_append, List.find?_cons, hsame, List.find?_nil,
        Option.or_none]
    _ = cache.find? path := find?_erase_of_not_same h

end Find

end ComponentMarkup.Cache
