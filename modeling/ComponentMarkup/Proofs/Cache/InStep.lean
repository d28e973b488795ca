import ComponentMarkup.Proofs.Cache.Entries
import Mathlib.Data.List.Forall2

/-!
# Caches in step

Two caches are in step if their entries correspond one by one in their order. The second cache may
have further entries under blank paths, all of which have the empty output. What is done to both
caches under corresponding paths keeps them in step; what is done to the second one under a blank
path is not seen in the first one.

Where the number of entries is limited there are no blank paths, so that the same entries are
dropped from both caches.
-/

namespace ComponentMarkup.Cache

/-- The entries correspond one by one, apart from those under blank paths of the second cache. -/
structure InStep (related : Path × Entry → Path × Entry → Prop) (blank : Path → Bool)
    (c d : Cache) : Prop where
  policy : d.policy = c.policy
  room : c.policy = .unbounded ∨ ∀ path, blank path = false
  entries : List.Forall₂ related c.entries (d.entries.filter fun entry ↦ !blank entry.1)
  empty : ∀ entry ∈ d.entries, blank entry.1 = true → entry.2.output = []

section Lists

variable {α β : Type} {related : α → β → Prop}

/-- What is found in lists that correspond corresponds. -/
theorem find?_forall₂ {p : α → Bool} {q : β → Bool}
    (hpq : ∀ x y, related x y → p x = q y) {xs : List α} {ys : List β}
    (h : List.Forall₂ related xs ys) : Option.Rel related (xs.find? p) (ys.find? q) := by
  induction h with
  | nil => exact .none
  | @cons x y xs ys hxy _ ih =>
    rw [List.find?_cons, List.find?_cons, ← hpq x y hxy]
    cases p x with
    | true => exact .some hxy
    | false => exact ih

end Lists

section InStep

variable {related : Path × Entry → Path × Entry → Prop} {blank : Path → Bool}
  (hblank : ∀ {p q}, Path.same p q = true → blank p = blank q) {c d : Cache} {p q : Path}

/-- Paths that correspond: entries that correspond stand under both or under neither. -/
def SameKeys (related : Path × Entry → Path × Entry → Prop) (p q : Path) : Prop :=
  ∀ x y, related x y → Path.same x.1 p = Path.same y.1 q

include hblank in
theorem filter_same_of_blank (hq : blank q = true) (entries : List (Path × Entry)) :
    (entries.filter fun entry ↦ !Path.same entry.1 q).filter (fun entry ↦ !blank entry.1) =
      entries.filter fun entry ↦ !blank entry.1 := by
  rw [List.filter_filter]
  apply List.filter_congr
  intro entry _
  by_cases hsame : Path.same entry.1 q = true
  · simp [hblank hsame, hq]
  · simp [hsame]

include hblank in
theorem find?_filter_of_not_blank (hq : blank q = false) (entries : List (Path × Entry)) :
    (entries.filter fun entry ↦ !blank entry.1).find? (fun entry ↦ Path.same entry.1 q) =
      entries.find? fun entry ↦ Path.same entry.1 q := by
  rw [List.find?_filter]
  congr 1
  funext entry
  by_cases hsame : Path.same entry.1 q = true
  · simp [hblank hsame, hq]
  · simp [hsame]

/-- Entries that correspond are kept or dropped together. -/
theorem forall₂_evict {policy : Policy} (hroom : policy = .unbounded ∨ ∀ path, blank path = false)
    {xs ys : List (Path × Entry)}
    (h : List.Forall₂ related xs (ys.filter fun entry ↦ !blank entry.1)) :
    List.Forall₂ related (evict policy xs) ((evict policy ys).filter fun entry ↦ !blank entry.1) := by
  cases policy with
  | unbounded => exact h
  | age seconds =>
    by_cases hinstant : seconds = 0
    · simp [evict, hinstant]
    · simpa [evict, hinstant] using h
  | entries most =>
    have hnone := hroom.resolve_left (by simp)
    have hall (entries : List (Path × Entry)) :
        entries.filter (fun entry ↦ !blank entry.1) = entries := by simp [hnone]
    rw [hall] at h ⊢
    rw [evict, evict, h.length_eq]
    exact List.forall₂_drop _ h

/-- Both caches without what stands under paths that correspond. -/
theorem InStep.erase (h : InStep related blank c d) (hkeys : SameKeys related p q) :
    InStep related blank (c.erase p) (d.erase q) where
  policy := h.policy
  room := h.room
  entries := by
    show List.Forall₂ related (c.entries.filter _) ((d.entries.filter _).filter _)
    rw [List.filter_comm]
    refine List.rel_filter ?_ h.entries
    intro x y hxy
    show (!Path.same x.1 p) = true ↔ (!Path.same y.1 q) = true
    rw [hkeys x y hxy]
  empty entry hentry := h.empty entry (mem_erase hentry)

include hblank in
/-- What stands under a blank path is not seen in the first cache. -/
theorem InStep.erase_blank (h : InStep related blank c d) (hq : blank q = true) :
    InStep related blank c (d.erase q) where
  policy := h.policy
  room := h.room
  entries := by
    show List.Forall₂ related c.entries ((d.entries.filter _).filter _)
    rw [filter_same_of_blank hblank hq]
    exact h.entries
  empty entry hentry := h.empty entry (mem_erase hentry)

/-- Both caches with entries that correspond put in. -/
theorem InStep.set (h : InStep related blank c d) (hkeys : SameKeys related p q)
    (hq : blank q = false) {e f : Entry} (hnew : related (p, e) (q, f)) :
    InStep related blank (c.set p e) (d.set q f) where
  policy := h.policy
  room := h.room
  entries := by
    have hroom : d.policy = .unbounded ∨ ∀ path, blank path = false := by
      rw [h.policy]
      exact h.room
    show List.Forall₂ related (evict c.policy _) ((evict d.policy _).filter _)
    rw [← h.policy]
    apply forall₂_evict hroom
    rw [List.filter_append]
    have hlast : [(q, f)].filter (fun entry ↦ !blank entry.1) = [(q, f)] := by simp [hq]
    rw [hlast]
    exact List.rel_append (h.erase hkeys).entries (.cons hnew .nil)
  empty entry hentry hblank := by
    rcases mem_set hentry with hentry | rfl
    · exact h.empty entry hentry hblank
    · simp [hq] at hblank

include hblank in
/-- An entry that is put in under a blank path is not seen in the first cache. -/
theorem InStep.set_blank (h : InStep related blank c d) (hq : blank q = true) {f : Entry}
    (hempty : f.output = []) : InStep related blank c (d.set q f) where
  policy := h.policy
  room := h.room
  entries := by
    have hunbounded : d.policy = .unbounded := by
      rw [h.policy]
      refine h.room.resolve_right fun hnone ↦ ?_
      simp [hnone] at hq
    show List.Forall₂ related c.entries ((evict d.policy _).filter _)
    rw [hunbounded, evict, List.filter_append, (by simp [hq] :
      [(q, f)].filter (fun entry ↦ !blank entry.1) = []), List.append_nil]
    exact (h.erase_blank hblank hq).entries
  empty entry hentry hblank := by
    rcases mem_set hentry with hentry | rfl
    · exact h.empty entry hentry hblank
    · exact hempty

end InStep

/-! ## Looking up in caches in step -/

section Lookup

variable {related : Path × Entry → Path × Entry → Prop} {blank : Path → Bool}
  (hblank : ∀ {p q}, Path.same p q = true → blank p = blank q) {c d : Cache} {p q : Path}
  {a b : FileTree} {modified otherModified : FileTree.Stamp} {fingerprint : Text}

/-- Both lookups find entries that correspond, or neither finds one. -/
inductive LooksUp (related : Path × Entry → Path × Entry → Prop) (blank : Path → Bool)
    (c d : Cache) : Option Entry × Cache → Option Entry × Cache → Prop
  | hit {x y : Path × Entry} (h : related x y) : LooksUp related blank c d (some x.2, c) (some y.2, d)
  | miss {c' d' : Cache} (h : InStep related blank c' d') :
    LooksUp related blank c d (none, c') (none, d')

include hblank in
theorem InStep.get (h : InStep related blank c d) (hkeys : SameKeys related p q)
    (hq : blank q = false)
    (hfresh : ∀ {x y}, related x y → Path.same x.1 p = true →
      x.2.isFresh a c.policy modified fingerprint =
        y.2.isFresh b c.policy otherModified fingerprint) :
    LooksUp related blank c d (c.get a p modified fingerprint)
      (d.get b q otherModified fingerprint) := by
  have hfind := find?_forall₂ hkeys h.entries
  rw [find?_filter_of_not_blank hblank hq] at hfind
  unfold Cache.get Cache.find?
  cases hc : c.entries.find? fun entry ↦ Path.same entry.1 p with
  | none =>
    cases hd : d.entries.find? fun entry ↦ Path.same entry.1 q with
    | none => exact .miss h
    | some y => simp [hc, hd] at hfind
  | some x =>
    cases hd : d.entries.find? fun entry ↦ Path.same entry.1 q with
    | none => simp [hc, hd] at hfind
    | some y =>
      have hxy : related x y := by simpa [hc, hd] using hfind
      have hkey : Path.same x.1 p = true := by simpa using List.find?_some hc
      simp only [Option.map_some, h.policy, ← hfresh hxy hkey]
      split
      · exact .hit hxy
      · exact .miss (h.erase hkeys)

include hblank in
/-- A lookup under a blank path finds an entry with the empty output, if any, and is not seen in the
first cache. -/
theorem InStep.get_blank (h : InStep related blank c d) (hq : blank q = true) :
    (∀ entry ∈ (d.get b q modified fingerprint).1, entry.output = []) ∧
      InStep related blank c (d.get b q modified fingerprint).2 := by
  constructor
  · intro entry hentry
    obtain ⟨key, hmem, hsame, _⟩ := get_eq_some hentry
    exact h.empty _ hmem (by rw [hblank hsame, hq])
  · unfold Cache.get
    split
    · exact h
    · split
      · exact h
      · exact h.erase_blank hblank hq

end Lookup

end ComponentMarkup.Cache
