import ComponentMarkup.Proofs.Cache.Restore

/-!
# The cache over all histories

A cache that starts empty holds, after any lookups, puts, clearings and restorings in any states of
the files, the latest entry of each path that it still has, in the order in which these were put in,
and no more than there is room for. A lookup takes away its own path at most, and putting in drops
no more of the oldest entries than it has to.
-/

namespace ComponentMarkup.Cache

open FileTree

/-! ## What was put in last -/

/-- The policy of a cache with room for a number of entries, or for any number. -/
def Policy.ofRoom : Option Nat → Policy
  | none => .unbounded
  | some most => .entries most

/-- The last put of each path, in the order in which these came. -/
def latest : List (Path × Entry) → List (Path × Entry)
  | [] => []
  | put :: puts =>
    if puts.any fun later ↦ Path.same put.1 later.1 then latest puts else put :: latest puts

/-- The entries that a use puts in, one after the other. -/
def Use.puts : Use → List (Path × Entry)
  | .get .. => []
  | .set path entry => [(path, entry)]
  | .clear => []
  | .restore text => (readSnapshot? text).getD []

section Latest

/-- A put takes the place of an earlier one with the same path and comes last. -/
theorem latest_concat (puts : List (Path × Entry)) (put : Path × Entry) :
    latest (puts ++ [put]) =
      (latest puts).filter (fun other ↦ !Path.same other.1 put.1) ++ [put] := by
  induction puts with
  | nil => rfl
  | cons first puts ih =>
    rw [List.cons_append, latest, latest, List.any_append, List.any_cons, List.any_nil,
      Bool.or_false, ih]
    cases puts.any fun later ↦ Path.same first.1 later.1 with
    | true => rfl
    | false =>
      cases hsame : Path.same first.1 put.1 <;> simp [hsame]

example : latest [(['a'], ⟨none, ['1'], [], []⟩), (['b'], ⟨none, [], [], []⟩),
    (['a'], ⟨none, ['2'], [], []⟩)] =
      [(['b'], ⟨none, [], [], []⟩), (['a'], ⟨none, ['2'], [], []⟩)] := by
  decide

end Latest

/-! ## One use -/

/-- A cache holds what was put in last, once for each path and in this order, as far as there is
room. -/
structure KeepsLatest (room : Option Nat) (puts : List (Path × Entry)) (cache : Cache) : Prop where
  policy : cache.policy = .ofRoom room
  distinct : HasDistinctPaths cache.entries
  length_le : ∀ most ∈ room, cache.entries.length ≤ most
  sublist : cache.entries.Sublist (latest puts)

section Step

variable {room : Option Nat} {puts : List (Path × Entry)} {cache : Cache}

theorem length_evict_le (room : Option Nat) (entries : List (Path × Entry)) :
    ∀ most ∈ room, (evict (.ofRoom room) entries).length ≤ most := by
  rintro most rfl
  rw [Policy.ofRoom, evict, List.length_drop]
  omega

theorem keepsLatest_ofPolicy (room : Option Nat) :
    KeepsLatest room [] (Cache.ofPolicy (.ofRoom room)) where
  policy := rfl
  distinct := List.Pairwise.nil
  length_le _ _ := Nat.zero_le _
  sublist := List.Sublist.refl []

namespace KeepsLatest

/-- Taking entries away keeps the others in their order. -/
theorem of_sublist (h : KeepsLatest room puts cache) {entries : List (Path × Entry)}
    (hfewer : entries.Sublist cache.entries) :
    KeepsLatest room puts { cache with entries := entries } where
  policy := h.policy
  distinct := h.distinct.sublist hfewer
  length_le most hmost := hfewer.length_le.trans (h.length_le most hmost)
  sublist := hfewer.trans h.sublist

theorem erase (h : KeepsLatest room puts cache) (path : Path) :
    KeepsLatest room puts (cache.erase path) :=
  h.of_sublist List.filter_sublist

theorem get (h : KeepsLatest room puts cache) (tree : FileTree) (path : Path) (modified : Stamp)
    (fingerprint : Text) : KeepsLatest room puts (cache.get tree path modified fingerprint).2 := by
  unfold Cache.get
  split
  · exact h
  · split
    · exact h
    · exact h.erase path

theorem set (h : KeepsLatest room puts cache) (path : Path) (entry : Entry) :
    KeepsLatest room (puts ++ [(path, entry)]) (cache.set path entry) where
  policy := h.policy
  distinct := h.distinct.set path entry
  length_le := by
    rw [Cache.set, h.policy]
    exact length_evict_le room _
  sublist := by
    rw [latest_concat]
    exact (evict_sublist _ _).trans ((h.sublist.filter _).append_right _)

/-- Putting in one after the other keeps what was put in last. -/
theorem foldl_set (h : KeepsLatest room puts cache) (entries : List (Path × Entry)) :
    KeepsLatest room (puts ++ entries)
      (entries.foldl (fun cache entry ↦ cache.set entry.1 entry.2) cache) := by
  induction entries generalizing puts cache with
  | nil => rwa [List.append_nil]
  | cons first rest ih =>
    have hrest := ih (h.set first.1 first.2)
    rwa [List.append_assoc, List.singleton_append] at hrest

/-- Restoring puts in the entries of the snapshot, if there is one. -/
theorem run_restore (cache : Cache) (text : Text) : (Use.restore text).run cache =
    (Use.restore text).puts.foldl (fun cache entry ↦ cache.set entry.1 entry.2) cache := by
  rw [Use.run, run_restoring, restore?, Use.puts]
  cases readSnapshot? text <;> rfl

theorem use (h : KeepsLatest room puts cache) (use : Use) :
    KeepsLatest room (puts ++ use.puts) (use.run cache) := by
  cases use with
  | get tree path modified fingerprint =>
    rw [Use.puts, List.append_nil]
    exact h.get tree path modified fingerprint
  | set path entry => exact h.set path entry
  | clear =>
    rw [Use.puts, List.append_nil]
    exact h.of_sublist (List.nil_sublist _)
  | restore text =>
    rw [run_restore]
    exact h.foldl_set _

/-- Whatever is done to a cache, it holds what was put in last. -/
theorem foldl_use (h : KeepsLatest room puts cache) (uses : List Use) :
    KeepsLatest room (puts ++ uses.flatMap Use.puts) (uses.foldl Use.run cache) := by
  induction uses generalizing puts cache with
  | nil => rwa [List.flatMap_nil, List.append_nil]
  | cons use rest ih =>
    have hrest := ih (h.use use)
    rwa [List.append_assoc, ← List.flatMap_cons] at hrest

end KeepsLatest

end Step

/-! ## What a lookup gives -/

/-- The component, the data and attributes and all dependencies are what they were. -/
structure Entry.IsCurrent (entry : Entry) (tree : FileTree) (modified : Stamp)
    (fingerprint : Text) : Prop where
  modified : entry.modified = modified
  fingerprint : entry.fingerprint = fingerprint
  dependencies : ∀ dependency ∈ entry.dependencies,
    tree.stamp dependency.path = dependency.modified

/-- A lookup gives the entry of its path if it is current. Then the cache stays as it is, and else
the path is taken away. -/
structure GivesCurrent (cache : Cache) (tree : FileTree) (path : Path) (modified : Stamp)
    (fingerprint : Text) : Prop where
  hit : ∀ entry, (cache.get tree path modified fingerprint).1 = some entry ↔
    cache.find? path = some entry ∧ entry.IsCurrent tree modified fingerprint
  after_hit : (cache.get tree path modified fingerprint).1 ≠ none →
    (cache.get tree path modified fingerprint).2 = cache
  after_miss : (cache.get tree path modified fingerprint).1 = none →
    (cache.get tree path modified fingerprint).2 = cache.erase path

section LookUp

variable {cache : Cache} {tree : FileTree} {path : Path} {modified : Stamp} {fingerprint : Text}

theorem Entry.isFresh_iff_isCurrent {entry : Entry} {policy : Policy}
    (h : policy.isInstant = false) :
    entry.isFresh tree policy modified fingerprint = true ↔
      entry.IsCurrent tree modified fingerprint := by
  simp only [Entry.isFresh, h, Bool.not_false, Bool.and_true, Bool.and_eq_true, decide_eq_true_eq,
    List.all_eq_true, Dependency.isCurrent]
  constructor
  · rintro ⟨⟨hmodified, hfingerprint⟩, hall⟩
    exact ⟨hmodified, hfingerprint, hall⟩
  · intro hcurrent
    exact ⟨⟨hcurrent.modified, hcurrent.fingerprint⟩, hcurrent.dependencies⟩

theorem Policy.isInstant_ofRoom (room : Option Nat) : (Policy.ofRoom room).isInstant = false := by
  cases room <;> rfl

theorem erase_eq_of_find?_eq_none (h : cache.find? path = none) : cache.erase path = cache := by
  apply erase_eq_of_not_same
  simpa [find?, List.find?_eq_none] using h

theorem givesCurrent (hinstant : cache.policy.isInstant = false) (tree : FileTree) (path : Path)
    (modified : Stamp) (fingerprint : Text) :
    GivesCurrent cache tree path modified fingerprint := by
  cases hfound : cache.find? path with
  | none =>
    have hget : cache.get tree path modified fingerprint = (none, cache) :=
      get_of_find?_eq_none hfound
    exact ⟨by simp [hget, hfound], by simp [hget], by simp [hget, erase_eq_of_find?_eq_none hfound]⟩
  | some found =>
    have hcurrent : found.isFresh tree cache.policy modified fingerprint = true ↔
        found.IsCurrent tree modified fingerprint := Entry.isFresh_iff_isCurrent hinstant
    by_cases hfresh : found.isFresh tree cache.policy modified fingerprint = true
    · have hget := get_of_isFresh hfound hfresh
      refine ⟨fun entry ↦ ?_, by simp [hget], by simp [hget]⟩
      rw [hget, hfound]
      exact ⟨fun heq ↦ ⟨heq, Option.some.inj heq ▸ hcurrent.1 hfresh⟩, And.left⟩
    · have hget : cache.get tree path modified fingerprint = (none, cache.erase path) := by
        rw [Cache.get, hfound]
        exact if_neg hfresh
      refine ⟨fun entry ↦ ?_, by simp [hget], by simp [hget]⟩
      rw [hget, hfound]
      constructor
      · intro heq
        simp at heq
      · rintro ⟨heq, hentry⟩
        exact absurd (hcurrent.2 (Option.some.inj heq ▸ hentry)) hfresh

end LookUp

/-! ## What putting in drops -/

/-- An entry that is put in comes last, and no more of the oldest entries go than have to. If there
is room for any entry, the new one is there. -/
structure PutsIn (room : Option Nat) (cache : Cache) (path : Path) (entry : Entry) : Prop where
  entries : ∃ dropped, (cache.set path entry).entries =
      ((cache.erase path).entries ++ [(path, entry)]).drop dropped ∧
    IsLeast {count | ∀ most ∈ room,
      (((cache.erase path).entries ++ [(path, entry)]).drop count).length ≤ most} dropped
  find? : room ≠ some 0 → (cache.set path entry).find? path = some entry

section Put

/-- What goes is the shortest run of the oldest entries that makes room. -/
theorem exists_isLeast_evict (room : Option Nat) (entries : List (Path × Entry)) :
    ∃ dropped, evict (.ofRoom room) entries = entries.drop dropped ∧
      IsLeast {count | ∀ most ∈ room, (entries.drop count).length ≤ most} dropped := by
  cases room with
  | none => exact ⟨0, rfl, by simp [IsLeast, lowerBounds]⟩
  | some most =>
    refine ⟨entries.length - most, rfl, ?_, fun count hcount ↦ ?_⟩
    · exact length_evict_le (some most) entries
    · have hroom := hcount most rfl
      rw [List.length_drop] at hroom
      omega

theorem Policy.keepsLast_ofRoom {room : Option Nat} (h : room ≠ some 0) :
    (Policy.ofRoom room).KeepsLast := by
  cases room with
  | none => trivial
  | some most => exact fun hmost ↦ h (congrArg some hmost)

theorem putsIn {room : Option Nat} {cache : Cache} (hpolicy : cache.policy = .ofRoom room)
    (path : Path) (entry : Entry) : PutsIn room cache path entry where
  entries := by
    rw [Cache.set, hpolicy]
    exact exists_isLeast_evict room _
  find? hroom := find?_set_self cache path (hpolicy ▸ Policy.keepsLast_ofRoom hroom) entry

end Put

/-- After everything that can be done to a cache that starts empty, it holds what was put in last as
far as there is room, every lookup takes away its own path at most, and putting in drops no more
than it has to. -/
theorem keepsLatest_and_givesCurrent_and_putsIn (room : Option Nat) (uses : List Use) :
    let cache := uses.foldl Use.run (Cache.ofPolicy (.ofRoom room))
    KeepsLatest room (uses.flatMap Use.puts) cache ∧
      (∀ tree path modified fingerprint, GivesCurrent cache tree path modified fingerprint) ∧
      ∀ path entry, PutsIn room cache path entry := by
  intro cache
  have hkeeps : KeepsLatest room (uses.flatMap Use.puts) cache :=
    (keepsLatest_ofPolicy room).foldl_use uses
  refine ⟨hkeeps, givesCurrent ?_, putsIn hkeeps.policy⟩
  rw [hkeeps.policy]
  exact Policy.isInstant_ofRoom room

end ComponentMarkup.Cache
