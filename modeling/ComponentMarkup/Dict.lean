import ComponentMarkup.Text.Basic

/-!
# Ordered dictionaries

A dictionary is a list of keys with their values in the order in which the keys came. Writing a
key that is there changes its value and leaves its place. Looking up a key and erasing one do not
ask for any order, so they serve sorted lists of keys as well.
-/

namespace ComponentMarkup

/-- Keys with their values, in the order in which the keys came. -/
abbrev Dict (α : Type) := List (Text × α)

namespace Dict

variable {α : Type}

/-- The value of a key. -/
def find? : Dict α → Text → Option α
  | [], _ => none
  | (k, v) :: rest, key => if k = key then some v else find? rest key

def contains (dict : Dict α) (key : Text) : Bool := (find? dict key).isSome

/-- A key that is there keeps its place and takes the value; another comes last. -/
def insert : Dict α → Text → α → Dict α
  | [], key, value => [(key, value)]
  | (k, v) :: rest, key, value =>
    if k = key then (k, value) :: rest else (k, v) :: insert rest key value

def erase (dict : Dict α) (key : Text) : Dict α := dict.filter fun entry => entry.1 ≠ key

def ofPairs (pairs : List (Text × α)) : Dict α :=
  pairs.foldl (fun dict entry => insert dict entry.1 entry.2) []

def keys (dict : Dict α) : List Text := dict.map Prod.fst

@[simp] theorem find?_nil (key : Text) : find? ([] : Dict α) key = none := rfl

theorem find?_insert (dict : Dict α) (key other : Text) (value : α) :
    find? (insert dict key value) other =
      if key = other then some value else find? dict other := by
  induction dict with
  | nil => simp [insert, find?]
  | cons entry rest ih => grind [insert, find?]

end Dict

end ComponentMarkup
