import ComponentMarkup.Cache.Snapshot
import ComponentMarkup.Proofs.Cache.Entries
import ComponentMarkup.Proofs.Json.Spell
import Mathlib.Data.List.Forall2

/-!
# Snapshots read back

A snapshot is read as the entries that it was taken of, in their order. It cannot be read if a stamp
does not fit the bits that stamps are kept in. Restoring a snapshot brings in nothing but its
entries.
-/

namespace ComponentMarkup.Cache

open Json FileTree

section Documents

def documentOfDependency (dependency : Dependency) : Document :=
  .object [(literalOf "path".toList, .string (literalOf dependency.path)),
    (literalOf "modified".toList, documentOfOptional dependency.modified)]

def documentOfEntry (entry : Entry) : Document :=
  .object [(literalOf "modified".toList, documentOfOptional entry.modified),
    (literalOf "fingerprint".toList, .string (literalOf entry.fingerprint)),
    (literalOf "dependencies".toList, .array (entry.dependencies.map documentOfDependency)),
    (literalOf "output".toList, .string (literalOf entry.output))]

def documentOfPair (pair : Path × Entry) : Document :=
  .array [.string (literalOf pair.1), documentOfEntry pair.2]

theorem spells_renderDependency (dependency : Dependency) :
    Spells (renderDependency dependency) (documentOfDependency dependency) := by
  apply spells_render
  exact .cons ⟨rfl, spells_quote _⟩ (.cons ⟨rfl, spells_renderOptional _⟩ .nil)

theorem spells_renderEntry (entry : Entry) :
    Spells (renderEntry entry) (documentOfEntry entry) := by
  have hdependencies : List.Forall₂ Spells (entry.dependencies.map renderDependency)
      (entry.dependencies.map documentOfDependency) := by
    rw [List.forall₂_map_left_iff, List.forall₂_map_right_iff, List.forall₂_same]
    exact fun dependency _ ↦ spells_renderDependency dependency
  apply spells_render
  exact .cons ⟨rfl, spells_renderOptional _⟩ (.cons ⟨rfl, spells_quote _⟩
    (.cons ⟨rfl, spells_renderArray hdependencies⟩ (.cons ⟨rfl, spells_quote _⟩ .nil)))

theorem spells_snapshot (cache : Cache) :
    Spells cache.snapshot (.array (cache.entries.map documentOfPair)) := by
  apply spells_renderArray
  rw [List.forall₂_map_left_iff, List.forall₂_map_right_iff, List.forall₂_same]
  intro pair _
  exact spells_renderArray (.cons (spells_quote _) (.cons (spells_renderEntry _) .nil))

end Documents

/-! ## Reading -/

/-- A stamp in the bits that stamps are kept in. -/
def StampFits (stamp : Stamp) : Prop := ∀ n ∈ stamp, n < stampBound

/-- All stamps of an entry fit. -/
structure Entry.Fits (entry : Entry) : Prop where
  modified : StampFits entry.modified
  dependencies : ∀ dependency ∈ entry.dependencies, StampFits dependency.modified

/-- A list is read back, and as itself, if every item of it is. -/
theorem mapM_map_eq_some_iff {α β : Type} {write : α → β} {read? : β → Option α} {p : α → Prop}
    (h : ∀ a b, read? (write a) = some b ↔ b = a ∧ p a) {as bs : List α} :
    (as.map write).mapM read? = some bs ↔ bs = as ∧ ∀ a ∈ as, p a := by
  induction as generalizing bs with
  | nil => simp [eq_comm]
  | cons a as ih =>
    simp only [List.map_cons, List.mapM_cons, Option.bind_eq_bind, Option.bind_eq_some_iff,
      Option.pure_def, Option.some.injEq, h, ih, List.forall_mem_cons]
    constructor
    · rintro ⟨_, ⟨rfl, ha⟩, _, ⟨rfl, hrest⟩, rfl⟩
      exact ⟨rfl, ha, hrest⟩
    · rintro ⟨rfl, ha, hrest⟩
      exact ⟨a, ⟨rfl, ha⟩, as, ⟨rfl, hrest⟩, rfl⟩

theorem readStamp?_documentOfOptional {members : List (Literal × Document)} {stamp read : Stamp} :
    readStamp? (.object members) (some (documentOfOptional stamp)) = some read ↔
      read = stamp ∧ StampFits stamp := by
  cases stamp with
  | none =>
    simp [readStamp?, Record.fieldOr, documentOfOptional, Document.optional?, StampFits, eq_comm]
  | some n =>
    simp only [readStamp?, Record.fieldOr, documentOfOptional, Document.optional?, Document.nat?,
      Number.nat?_ofNat, Option.bind_some, StampFits, Option.mem_some_iff, forall_eq']
    split <;> simp_all [eq_comm]

theorem readDependency?_documentOf {dependency read : Dependency} :
    readDependency? (documentOfDependency dependency) = some read ↔
      read = dependency ∧ StampFits dependency.modified := by
  have hfields : Record.fields? dependencyNames (documentOfDependency dependency) =
      some [some (.string (literalOf dependency.path)),
        some (documentOfOptional dependency.modified)] := by
    simp only [Record.fields?, documentOfDependency, Record.fillAll?, Literal.text?_literalOf,
      Option.bind_some]
    rfl
  rw [readDependency?, hfields]
  simp only [Record.field, Document.text?, Literal.text?_literalOf, Option.bind_eq_bind,
    Option.bind_some, Option.bind_eq_some_iff, Option.some.injEq, documentOfDependency,
    readStamp?_documentOfOptional]
  constructor
  · rintro ⟨_, ⟨rfl, hstamp⟩, rfl⟩
    exact ⟨rfl, hstamp⟩
  · rintro ⟨rfl, hstamp⟩
    exact ⟨read.modified, ⟨rfl, hstamp⟩, rfl⟩

theorem entryOf?_documentOf {entry read : Entry} :
    entryOf? (documentOfEntry entry) = some read ↔ read = entry ∧ entry.Fits := by
  have hfields : Record.fields? entryNames (documentOfEntry entry) =
      some [some (documentOfOptional entry.modified),
        some (.string (literalOf entry.fingerprint)),
        some (.array (entry.dependencies.map documentOfDependency)),
        some (.string (literalOf entry.output))] := by
    simp only [Record.fields?, documentOfEntry, Record.fillAll?, Literal.text?_literalOf,
      Option.bind_some]
    rfl
  rw [entryOf?, hfields]
  simp only [Record.field, Document.text?, Literal.text?_literalOf, Option.bind_eq_bind,
    Option.bind_some, Option.bind_eq_some_iff, Option.some.injEq, readDependencies?,
    Document.items?, documentOfEntry, readStamp?_documentOfOptional,
    mapM_map_eq_some_iff fun _ _ ↦ readDependency?_documentOf]
  constructor
  · rintro ⟨_, ⟨rfl, hmodified⟩, _, ⟨rfl, hdependencies⟩, rfl⟩
    exact ⟨rfl, hmodified, hdependencies⟩
  · rintro ⟨rfl, hmodified, hdependencies⟩
    exact ⟨_, ⟨rfl, hmodified⟩, _, ⟨rfl, hdependencies⟩, rfl⟩

theorem readPair?_documentOf {pair read : Path × Entry} :
    readPair? (documentOfPair pair) = some read ↔ read = pair ∧ pair.2.Fits := by
  simp only [readPair?, documentOfPair, Document.text?, Literal.text?_literalOf,
    Option.bind_eq_bind, Option.bind_some, Option.bind_eq_some_iff, Option.some.injEq,
    entryOf?_documentOf]
  constructor
  · rintro ⟨_, ⟨rfl, hfits⟩, rfl⟩
    exact ⟨rfl, hfits⟩
  · rintro ⟨rfl, hfits⟩
    exact ⟨_, ⟨rfl, hfits⟩, rfl⟩

/-- A snapshot can be read if all stamps fit, and it is read as the entries that it was taken of. -/
theorem readSnapshot?_snapshot {cache : Cache} {entries : List (Path × Entry)} :
    readSnapshot? cache.snapshot = some entries ↔
      entries = cache.entries ∧ ∀ pair ∈ cache.entries, pair.2.Fits := by
  rw [readSnapshot?, (spells_snapshot cache).read?, Option.bind_some, Document.items?,
    Option.bind_some]
  exact mapM_map_eq_some_iff fun _ _ ↦ readPair?_documentOf

/-- What is in the cache after a snapshot has been restored was in it or in the snapshot. -/
theorem mem_restore? {cache restored old : Cache}
    (h : cache.restore? old.snapshot = some restored) {entry : Path × Entry}
    (hentry : entry ∈ restored.entries) : entry ∈ cache.entries ∨ entry ∈ old.entries := by
  obtain ⟨entries, hread, rfl⟩ := Option.map_eq_some_iff.1 h
  rw [← (readSnapshot?_snapshot.1 hread).1]
  clear hread h
  induction entries generalizing cache with
  | nil => exact Or.inl hentry
  | cons first rest ih =>
    rcases ih hentry with hentry | hentry
    · rcases mem_set hentry with hentry | rfl
      · exact Or.inl hentry
      · exact Or.inr List.mem_cons_self
    · exact Or.inr (List.mem_cons_of_mem _ hentry)

end ComponentMarkup.Cache
