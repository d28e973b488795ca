import ComponentMarkup.Cache.Basic

/-!
# Snapshots of the cache

A snapshot is a JSON array of pairs of path and entry, in the order of the entries. Restoring a
snapshot puts its entries in one after the other, so the policy decides which of them stay; a text
that is no snapshot changes nothing.
-/

namespace ComponentMarkup.Cache

open Json FileTree

/-- Stamps are kept in 128 bits. -/
def stampBound : Nat := Nat.pow 2 128

def dependencyNames : List Text := ["path".toList, "modified".toList]

def entryNames : List Text :=
  ["modified".toList, "fingerprint".toList, "dependencies".toList, "output".toList]

def renderStamp (stamp : Stamp) : Text := Record.renderOptional Record.renderNat stamp

def renderDependency (dependency : Dependency) : Text :=
  Record.render (dependencyNames.zip [quote dependency.path, renderStamp dependency.modified])

def renderEntry (entry : Entry) : Text :=
  Record.render (entryNames.zip
    [renderStamp entry.modified, quote entry.fingerprint,
      Record.renderArray (entry.dependencies.map renderDependency), quote entry.output])

/-- Writes all entries. -/
def snapshot (cache : Cache) : Text :=
  Record.renderArray (cache.entries.map fun entry =>
    Record.renderArray [quote entry.1, renderEntry entry.2])

/-- A stamp that stands in an array may not be missing; in an object it may. -/
def readStamp? (document : Document) (stamp : Option Document) : Option Stamp :=
  match document, stamp with
  | .array _, none => none
  | _, stamp => Record.fieldOr none (Document.optional? (Document.nat? stampBound)) stamp

def readDependency? (document : Document) : Option Dependency :=
  match Record.fields? dependencyNames document with
  | some [path, modified] => do
    some ⟨← Record.field Document.text? path, ← readStamp? document modified⟩
  | _ => none

def readDependencies? (document : Document) : Option (List Dependency) :=
  document.items?.bind fun items => items.mapM readDependency?

def entryOf? (document : Document) : Option Entry :=
  match Record.fields? entryNames document with
  | some [modified, fingerprint, dependencies, output] => do
    some ⟨← readStamp? document modified, ← Record.field Document.text? fingerprint,
      ← Record.field readDependencies? dependencies, ← Record.field Document.text? output⟩
  | _ => none

def readPair? : Document → Option (Path × Entry)
  | .array [path, entry] => do some (← path.text?, ← entryOf? entry)
  | _ => none

/-- Reads the entries of a snapshot. -/
def readSnapshot? (text : Text) : Option (List (Path × Entry)) :=
  (Document.read? text).bind fun document =>
    document.items?.bind fun items => items.mapM readPair?

/-- Puts the entries of a snapshot in. -/
def restore? (cache : Cache) (text : Text) : Option Cache :=
  (readSnapshot? text).map fun entries =>
    entries.foldl (fun cache entry => cache.set entry.1 entry.2) cache

end ComponentMarkup.Cache
