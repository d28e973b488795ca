import ComponentMarkup.Proofs.Cache.Snapshot

/-!
# Snapshots restored

A cache holds its paths once, as many entries as its policy keeps, and stamps of a bounded number of
bits; every operation leaves it so. The snapshot of such a cache brings all of it back into an empty
cache of the same policy, and as many of the last entries as there is room for into a smaller one. A
text that is no snapshot is found out before anything is put in.
-/

namespace ComponentMarkup.Cache

open Json FileTree

/-! ## Putting in one after the other -/

theorem evict_sublist (policy : Policy) (entries : List (Path × Entry)) :
    (evict policy entries).Sublist entries := by
  cases policy with
  | unbounded => exact List.Sublist.refl entries
  | entries most => exact List.drop_sublist _ _
  | age seconds =>
    rw [evict]
    split
    · exact List.nil_sublist entries
    · exact List.Sublist.refl entries

@[simp] theorem evict_nil (policy : Policy) : evict policy [] = [] :=
  List.sublist_nil.1 (evict_sublist policy [])

/-- What is dropped early would be dropped later as well. -/
theorem evict_evict_append (policy : Policy) (a b : List (Path × Entry)) :
    evict policy (evict policy a ++ b) = evict policy (a ++ b) := by
  cases policy with
  | unbounded => rfl
  | age seconds =>
    simp only [evict]
    split <;> rfl
  | entries most =>
    have happend : a.drop (a.length - most) ++ b = (a ++ b).drop (a.length - most) := by
      rw [List.drop_append_of_le_length (Nat.sub_le _ _)]
    simp only [evict, happend, List.drop_drop, List.length_drop, List.length_append]
    congr 1
    omega

theorem evict_evict (policy : Policy) (entries : List (Path × Entry)) :
    evict policy (evict policy entries) = evict policy entries := by
  have happend := evict_evict_append policy entries []
  rwa [List.append_nil, List.append_nil] at happend

/-- Fewer entries than a policy keeps are kept as well. -/
theorem evict_of_sublist {policy : Policy} {fewer entries : List (Path × Entry)}
    (hkept : evict policy entries = entries) (hfewer : fewer.Sublist entries) :
    evict policy fewer = fewer := by
  cases policy with
  | unbounded => rfl
  | entries most =>
    have hlength := congrArg List.length hkept
    have hless := hfewer.length_le
    rw [evict, List.length_drop] at hlength
    have hroom : fewer.length - most = 0 := by omega
    rw [evict, hroom, List.drop_zero]
  | age seconds =>
    rw [evict] at hkept ⊢
    split at hkept
    · rw [← hkept, List.sublist_nil] at hfewer
      rw [hfewer, if_pos ‹_›]
    · rw [if_neg ‹_›]

/-- No two entries stand under the same path. -/
def HasDistinctPaths (entries : List (Path × Entry)) : Prop :=
  entries.Pairwise fun a b ↦ Path.same a.1 b.1 = false

/-- An entry that is put in takes the place of one with the same path. -/
theorem HasDistinctPaths.set {cache : Cache} (h : HasDistinctPaths cache.entries) (path : Path)
    (entry : Entry) : HasDistinctPaths (cache.set path entry).entries := by
  apply List.Pairwise.sublist (evict_sublist _ _)
  refine List.pairwise_append.2 ⟨h.sublist List.filter_sublist, List.pairwise_singleton _ _, ?_⟩
  intro other hother last hlast
  rw [List.mem_singleton.1 hlast]
  simpa using (List.mem_filter.1 hother).2

theorem erase_eq_of_not_same {cache : Cache} {path : Path}
    (h : ∀ entry ∈ cache.entries, Path.same entry.1 path = false) : cache.erase path = cache := by
  have hfilter : cache.entries.filter (fun entry ↦ !Path.same entry.1 path) = cache.entries := by
    rw [List.filter_eq_self]
    intro entry hentry
    rw [h entry hentry]
    rfl
  rw [erase, hfilter]

/-- Entries with paths of their own come to stand behind those that are there. -/
theorem foldl_set_eq {cache : Cache} {entries : List (Path × Entry)}
    (hdistinct : HasDistinctPaths (cache.entries ++ entries))
    (hkept : evict cache.policy cache.entries = cache.entries) :
    entries.foldl (fun cache entry ↦ cache.set entry.1 entry.2) cache =
      ⟨evict cache.policy (cache.entries ++ entries), cache.policy⟩ := by
  induction entries generalizing cache with
  | nil => rw [List.foldl_nil, List.append_nil, hkept]
  | cons first rest ih =>
    have hnew : ∀ entry ∈ cache.entries, Path.same entry.1 first.1 = false := by
      intro entry hentry
      exact (List.pairwise_append.1 hdistinct).2.2 entry hentry first List.mem_cons_self
    have hset : cache.set first.1 first.2 =
        ⟨evict cache.policy (cache.entries ++ [first]), cache.policy⟩ := by
      rw [set, erase_eq_of_not_same hnew]
    have hsplit : cache.entries ++ first :: rest = cache.entries ++ [first] ++ rest := by simp
    rw [hsplit] at hdistinct ⊢
    rw [List.foldl_cons, hset, ih]
    · rw [evict_evict_append]
    · exact hdistinct.sublist ((evict_sublist _ _).append_right rest)
    · exact evict_evict _ _

/-! ## What every cache is -/

/-- What a cache is that has been filled by putting in entries whose stamps fit. -/
structure IsHeld (cache : Cache) : Prop where
  distinct : HasDistinctPaths cache.entries
  kept : evict cache.policy cache.entries = cache.entries
  fits : ∀ pair ∈ cache.entries, pair.2.Fits

theorem isHeld_ofPolicy (policy : Policy) : (Cache.ofPolicy policy).IsHeld where
  distinct := List.Pairwise.nil
  kept := evict_nil policy
  fits := List.forall_mem_nil _

theorem isHeld_clear (cache : Cache) : cache.clear.IsHeld := isHeld_ofPolicy cache.policy

namespace IsHeld

variable {cache : Cache}

theorem erase (h : cache.IsHeld) (path : Path) : (cache.erase path).IsHeld where
  distinct := h.distinct.sublist List.filter_sublist
  kept := evict_of_sublist h.kept List.filter_sublist
  fits pair hpair := h.fits pair (mem_erase hpair)

theorem get (h : cache.IsHeld) (tree : FileTree) (path : Path) (modified : Stamp)
    (fingerprint : Text) : (cache.get tree path modified fingerprint).2.IsHeld := by
  unfold Cache.get
  split
  · exact h
  · split
    · exact h
    · exact h.erase path

theorem set (h : cache.IsHeld) (path : Path) {entry : Entry} (hentry : entry.Fits) :
    (cache.set path entry).IsHeld where
  distinct := h.distinct.set path entry
  kept := evict_evict _ _
  fits pair hpair := by
    rcases mem_set hpair with hpair | rfl
    · exact h.fits pair hpair
    · exact hentry

end IsHeld

/-! ## What is read from any text -/

theorem forall_of_mapM {α β : Type} {read? : α → Option β} {p : β → Prop}
    (h : ∀ a b, read? a = some b → p b) {as : List α} {bs : List β}
    (hread : as.mapM read? = some bs) : ∀ b ∈ bs, p b := by
  induction as generalizing bs with
  | nil =>
    simp only [List.mapM_nil, Option.pure_def, Option.some.injEq] at hread
    rw [← hread]
    exact List.forall_mem_nil p
  | cons a as ih =>
    simp only [List.mapM_cons, Option.bind_eq_bind, Option.bind_eq_some_iff, Option.pure_def,
      Option.some.injEq] at hread
    obtain ⟨b, hb, others, hothers, rfl⟩ := hread
    exact List.forall_mem_cons.2 ⟨h a b hb, ih hothers⟩

theorem stampFits_of_optional? {document : Document} {stamp : Stamp}
    (h : document.optional? (Document.nat? stampBound) = some stamp) : StampFits stamp := by
  unfold Document.optional? at h
  split at h
  · rw [← Option.some.inj h]
    simp [StampFits]
  · obtain ⟨n, hn, rfl⟩ := Option.map_eq_some_iff.1 h
    unfold Document.nat? at hn
    split at hn
    · obtain ⟨m, _, hm⟩ := Option.bind_eq_some_iff.1 hn
      split at hm
      · rename_i hbound
        rw [Option.some.injEq] at hm
        simpa [StampFits, ← hm] using hbound
      · simp at hm
    · simp at hn

theorem stampFits_of_readStamp? {document : Document} {field : Option Document} {stamp : Stamp}
    (h : readStamp? document field = some stamp) : StampFits stamp := by
  unfold readStamp? at h
  split at h
  · simp at h
  · cases field with
    | none =>
      rw [← Option.some.inj h]
      simp [StampFits]
    | some field => exact stampFits_of_optional? h

theorem stampFits_of_readDependency? {document : Document} {dependency : Dependency}
    (h : readDependency? document = some dependency) : StampFits dependency.modified := by
  unfold readDependency? at h
  split at h
  · simp only [Option.bind_eq_bind, Option.bind_eq_some_iff, Option.some.injEq] at h
    obtain ⟨_, _, stamp, hstamp, rfl⟩ := h
    exact stampFits_of_readStamp? hstamp
  · simp at h

theorem exists_of_field {α : Type} {read? : Document → Option α} {field : Option Document} {a : α}
    (h : Record.field read? field = some a) : ∃ document, read? document = some a := by
  cases field with
  | none => simp [Record.field] at h
  | some document => exact ⟨document, h⟩

theorem stampFits_of_readDependencies? {document : Document} {dependencies : List Dependency}
    (h : readDependencies? document = some dependencies) :
    ∀ dependency ∈ dependencies, StampFits dependency.modified := by
  obtain ⟨items, _, hread⟩ := Option.bind_eq_some_iff.1 h
  exact forall_of_mapM (fun _ _ ↦ stampFits_of_readDependency?) hread

theorem fits_of_entryOf? {document : Document} {entry : Entry}
    (h : entryOf? document = some entry) : entry.Fits := by
  unfold entryOf? at h
  split at h
  · simp only [Option.bind_eq_bind, Option.bind_eq_some_iff, Option.some.injEq] at h
    obtain ⟨stamp, hstamp, _, _, dependencies, hfield, _, _, rfl⟩ := h
    obtain ⟨items, hdependencies⟩ := exists_of_field hfield
    exact ⟨stampFits_of_readStamp? hstamp, stampFits_of_readDependencies? hdependencies⟩
  · simp at h

/-- What is read from any text fits. -/
theorem fits_of_readSnapshot? {text : Text} {entries : List (Path × Entry)}
    (h : readSnapshot? text = some entries) : ∀ pair ∈ entries, pair.2.Fits := by
  obtain ⟨document, _, hitems⟩ := Option.bind_eq_some_iff.1 h
  obtain ⟨items, _, hread⟩ := Option.bind_eq_some_iff.1 hitems
  refine forall_of_mapM (fun item pair hpair ↦ ?_) hread
  unfold readPair? at hpair
  split at hpair
  · simp only [Option.bind_eq_bind, Option.bind_eq_some_iff, Option.some.injEq] at hpair
    obtain ⟨path, _, entry, hentry, rfl⟩ := hpair
    exact fits_of_entryOf? hentry
  · simp at hpair

theorem IsHeld.restore {cache restored : Cache} (h : cache.IsHeld) {text : Text}
    (hrestored : cache.restore? text = some restored) : restored.IsHeld := by
  obtain ⟨entries, hread, rfl⟩ := Option.map_eq_some_iff.1 hrestored
  have hfits := fits_of_readSnapshot? hread
  clear hread hrestored
  induction entries generalizing cache with
  | nil => exact h
  | cons first rest ih =>
    obtain ⟨hfirst, hrest⟩ := List.forall_mem_cons.1 hfits
    exact ih (h.set first.1 hfirst) hrest

/-! ## Restoring -/

/-- Why a text cannot be restored. -/
inductive RestoreError where
  | notSnapshot

/-- A change of a cache in place that may fail: the changes made before it fails stay. -/
abbrev Restoring := ExceptT RestoreError (StateM Cache) PUnit

/-- Restores a snapshot in place, entry after entry. -/
def restoring (text : Text) : Restoring :=
  match readSnapshot? text with
  | none => throw .notSnapshot
  | some entries => entries.forM fun entry ↦ modify fun cache ↦ Cache.set cache entry.1 entry.2

theorem run_forM_set (entries : List (Path × Entry)) (cache : Cache) :
    (ExceptT.run (entries.forM fun entry ↦
        modify fun cache ↦ Cache.set cache entry.1 entry.2 : Restoring)).run cache =
      (.ok ⟨⟩, entries.foldl (fun cache entry ↦ cache.set entry.1 entry.2) cache) := by
  induction entries generalizing cache with
  | nil => rfl
  | cons first rest ih =>
    rw [List.foldl_cons, ← ih]
    rfl

/-- Restoring in place puts in all entries or none. -/
theorem run_restoring (text : Text) (cache : Cache) :
    (restoring text).run.run cache =
      match cache.restore? text with
      | none => (.error .notSnapshot, cache)
      | some restored => (.ok ⟨⟩, restored) := by
  unfold restoring restore?
  cases readSnapshot? text with
  | none => rfl
  | some entries => exact run_forM_set entries cache

/-- What is done to a cache from outside. -/
inductive Use where
  | get (tree : FileTree) (path : Path) (modified : Stamp) (fingerprint : Text)
  | set (path : Path) (entry : Entry)
  | clear
  | restore (text : Text)

/-- The cache that a use leaves behind. -/
def Use.run (cache : Cache) : Use → Cache
  | .get tree path modified fingerprint => (cache.get tree path modified fingerprint).2
  | .set path entry => Cache.set cache path entry
  | .clear => cache.clear
  | .restore text => ((restoring text).run.run cache).2

/-- No entry is put in whose stamps do not fit. -/
def Use.Fits : Use → Prop
  | .set _ entry => entry.Fits
  | _ => True

theorem IsHeld.use {cache : Cache} (h : cache.IsHeld) {use : Use} (hfits : use.Fits) :
    (use.run cache).IsHeld := by
  cases use with
  | get tree path modified fingerprint => exact h.get tree path modified fingerprint
  | set path entry => exact h.set path hfits
  | clear => exact isHeld_clear cache
  | restore text =>
    rw [Use.run, run_restoring]
    split
    · exact h
    · exact h.restore ‹_›

/-- Whatever uses lead to from a held cache is held. -/
theorem IsHeld.foldl_use {cache : Cache} (h : cache.IsHeld) {uses : List Use}
    (hfits : ∀ use ∈ uses, use.Fits) : (uses.foldl Use.run cache).IsHeld := by
  induction uses generalizing cache with
  | nil => exact h
  | cons use rest ih =>
    obtain ⟨huse, hrest⟩ := List.forall_mem_cons.1 hfits
    exact ih (h.use huse) hrest

/-- A snapshot brings back the entries of its cache in their order, all that the policy keeps. -/
theorem restore?_ofPolicy_snapshot {cache : Cache} (h : cache.IsHeld) (policy : Policy) :
    (Cache.ofPolicy policy).restore? cache.snapshot =
      some ⟨evict policy cache.entries, policy⟩ := by
  have hread := readSnapshot?_snapshot.2 ⟨rfl, h.fits⟩
  have hset : cache.entries.foldl (fun cache entry ↦ cache.set entry.1 entry.2) (ofPolicy policy) =
      ⟨evict policy cache.entries, policy⟩ := foldl_set_eq h.distinct (evict_nil policy)
  rw [restore?, hread, Option.map_some, hset]

/-- Whatever a held cache, an empty one for example, has been used for: an empty cache of the same
policy becomes the cache that a snapshot was taken of, one with room for fewer entries gets the last
of them, and a text that cannot be restored changes nothing in any cache. -/
theorem restore_snapshot {start : Cache} (hstart : start.IsHeld) {uses : List Use}
    (hfits : ∀ use ∈ uses, use.Fits) :
    let cache := uses.foldl Use.run start
    (Cache.ofPolicy cache.policy).restore? cache.snapshot = some cache ∧
      ((Cache.ofPolicy cache.policy).restore? cache.snapshot).map Cache.snapshot =
        some cache.snapshot ∧
      (∀ most, (Cache.ofPolicy (.entries most)).restore? cache.snapshot =
        some ⟨cache.entries.drop (cache.entries.length - most), .entries most⟩) ∧
      ∀ (other : Cache) (text : Text), other.restore? text = none →
        (restoring text).run.run other = (.error .notSnapshot, other) := by
  intro cache
  have h : cache.IsHeld := hstart.foldl_use hfits
  have hself : (Cache.ofPolicy cache.policy).restore? cache.snapshot = some cache := by
    rw [restore?_ofPolicy_snapshot h, h.kept]
  refine ⟨hself, ?_, fun most ↦ restore?_ofPolicy_snapshot h (.entries most), ?_⟩
  · rw [hself, Option.map_some]
  · intro other text hnone
    rw [run_restoring, hnone]

/-- A card that its page depends on, with the longest stamp and with a file that is not there. -/
def pageAndCard : Cache where
  entries := [
    ("/card.rain".toList, ⟨some (2 ^ 128 - 1), ['1'], [], ['"', '\\', '\x01', 'é']⟩),
    ("/page.rain".toList, ⟨none, ['2'],
      [⟨"/card.rain".toList, some (2 ^ 128 - 1)⟩, ⟨"/x.rain".toList, none⟩], []⟩)]
  policy := .entries 2

/-- The entries are put in one after the other. -/
def pageAndCardUses : List Use := pageAndCard.entries.map fun pair ↦ .set pair.1 pair.2

theorem fits_of_mem_pageAndCardUses : ∀ use ∈ pageAndCardUses, use.Fits := by
  have hfits : ∀ stamp ∈ [some (2 ^ 128 - 1), none], StampFits stamp := by
    simp [StampFits, stampBound]
  simp only [List.forall_mem_cons] at hfits
  intro use huse
  simp only [pageAndCardUses, pageAndCard, List.map_cons, List.map_nil, List.mem_cons,
    List.not_mem_nil, or_false] at huse
  obtain rfl | rfl := huse
  · exact ⟨hfits.1, List.forall_mem_nil _⟩
  · exact ⟨hfits.2.1, List.forall_mem_cons.2 ⟨hfits.1, List.forall_mem_cons.2
      ⟨hfits.2.1, List.forall_mem_nil _⟩⟩⟩

theorem restore_pageAndCard :
    (Cache.ofPolicy (.entries 2)).IsHeld ∧ (∀ use ∈ pageAndCardUses, use.Fits) ∧
      pageAndCardUses.foldl Use.run (.ofPolicy (.entries 2)) = pageAndCard ∧
      (Cache.ofPolicy (.entries 2)).restore? pageAndCard.snapshot = some pageAndCard ∧
      (Cache.ofPolicy (.entries 1)).restore? pageAndCard.snapshot =
        some ⟨pageAndCard.entries.drop 1, .entries 1⟩ ∧
      (restoring ['?']).run.run pageAndCard = (.error .notSnapshot, pageAndCard) := by
  have hheld := isHeld_ofPolicy (.entries 2)
  have hfilled : pageAndCardUses.foldl Use.run (.ofPolicy (.entries 2)) = pageAndCard := by rfl
  have hall := restore_snapshot hheld fits_of_mem_pageAndCardUses
  rw [hfilled] at hall
  refine ⟨hheld, fits_of_mem_pageAndCardUses, hfilled, hall.1, hall.2.2.1 1,
    hall.2.2.2 pageAndCard ['?'] ?_⟩
  decide +kernel

end ComponentMarkup.Cache
