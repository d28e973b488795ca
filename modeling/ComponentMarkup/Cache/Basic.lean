import ComponentMarkup.Attributes
import ComponentMarkup.Digest.Sha256
import ComponentMarkup.FileTree
import ComponentMarkup.Json.Record
import ComponentMarkup.Model.Basic
import ComponentMarkup.Options

/-!
# The render cache

The cache keeps what components were rendered to. An entry may be used again as long as the
component, the data and attributes it was rendered with, and every file it depends on are what
they were; files are compared by their stamps. An entry that may not be used is dropped when it is
asked for.

Entries stand in the order in which they were last put in. Where their number is limited, the
oldest go first. Time does not pass in this account: entries limited to age zero are gone at once
and entries limited to any other age stay.
-/

namespace ComponentMarkup

open FileTree

/-- A file with the stamp that it had. -/
structure Dependency where
  path : Path
  modified : Stamp
  deriving DecidableEq, Repr

namespace Dependency

/-- A file with the stamp that it has. -/
def of (tree : FileTree) (path : Path) : Dependency := ⟨path, tree.stamp path⟩

def isCurrent (tree : FileTree) (dependency : Dependency) : Bool :=
  tree.stamp dependency.path = dependency.modified

end Dependency

namespace Cache

structure Entry where
  /-- The stamp of the component. -/
  modified : Stamp
  /-- The digest of the data and attributes. -/
  fingerprint : Text
  dependencies : List Dependency
  output : Text
  deriving DecidableEq, Repr

/-- Which entries are kept. -/
inductive Policy where
  | unbounded
  | entries (most : Nat)
  | age (seconds : Nat)
  deriving DecidableEq, Repr

end Cache

/-- A limited number of entries comes before a limited age. -/
def CacheLimits.policy (limits : CacheLimits) : Cache.Policy :=
  match limits.maxEntries, limits.maxAgeSeconds with
  | some most, _ => .entries most
  | none, some seconds => .age seconds
  | none, none => .unbounded

/-- Entries by path, in the order in which they were last put in. -/
structure Cache where
  entries : List (Path × Cache.Entry)
  policy : Cache.Policy
  deriving DecidableEq, Repr

namespace Cache

def ofPolicy (policy : Policy) : Cache := ⟨[], policy⟩

/-- Entries are gone at once. -/
def Policy.isInstant (policy : Policy) : Bool := policy = .age 0

def paths (cache : Cache) : List Path := cache.entries.map Prod.fst

def find? (cache : Cache) (path : Path) : Option Entry :=
  (cache.entries.find? fun entry => Path.same entry.1 path).map Prod.snd

def contains (cache : Cache) (path : Path) : Bool := (cache.find? path).isSome

def erase (cache : Cache) (path : Path) : Cache :=
  { cache with entries := cache.entries.filter fun entry => !Path.same entry.1 path }

def clear (cache : Cache) : Cache := { cache with entries := [] }

/-- The text whose digest is the fingerprint of data and attributes. The character between the two
occurs in neither, as control characters are escaped. -/
def inputText (data : Data) (attributes : Attributes) : Text :=
  Json.Object.render data ++ '\x00'
    :: Json.Record.render (attributes.map fun pair => (pair.1, Json.quote pair.2))

/-- The digest of the data and attributes that a component is rendered with. -/
def fingerprint (data : Data) (attributes : Attributes) : Text :=
  Digest.sha256Hex (Text.bytes (inputText data attributes))

/-- An entry that may be used again. -/
def Entry.isFresh (entry : Entry) (tree : FileTree) (policy : Policy) (modified : Stamp)
    (fingerprint : Text) : Bool :=
  entry.modified = modified && entry.fingerprint = fingerprint && !policy.isInstant
    && entry.dependencies.all (Dependency.isCurrent tree)

/-- The entry of a path, if it may be used again, and the cache without an entry that may not. -/
def get (cache : Cache) (tree : FileTree) (path : Path) (modified : Stamp) (fingerprint : Text) :
    Option Entry × Cache :=
  match cache.find? path with
  | none => (none, cache)
  | some entry =>
    if entry.isFresh tree cache.policy modified fingerprint then (some entry, cache)
    else (none, cache.erase path)

/-- Drops the oldest entries that the policy does not keep. -/
def evict (policy : Policy) (entries : List (Path × Entry)) : List (Path × Entry) :=
  match policy with
  | .unbounded => entries
  | .entries most => entries.drop (entries.length - most)
  | .age seconds => if seconds = 0 then [] else entries

/-- Puts an entry behind all others, in the place of one with the same path. -/
def set (cache : Cache) (path : Path) (entry : Entry) : Cache :=
  { cache with entries := evict cache.policy ((cache.erase path).entries ++ [(path, entry)]) }

end Cache

end ComponentMarkup
