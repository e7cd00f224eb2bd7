/-! # Ascending lists

Sets and tables whose order is that of their elements or keys. They are plain lists, kept
ascending by the operations here, so what they hold can be read off by membership.
-/

namespace WorkspaceBuild

/-- Put an element into an ascending list, once. -/
def insertAscending {α : Type} [Ord α] (x : α) : List α → List α
  | [] => [x]
  | y :: rest =>
      match compare x y with
      | .lt => x :: y :: rest
      | .eq => y :: rest
      | .gt => y :: insertAscending x rest

/-- The ascending list of the elements of a list, each once. -/
def ascending {α : Type} [Ord α] (xs : List α) : List α :=
  xs.foldl (fun set x => insertAscending x set) []

/-- A table from keys to values, ascending by key. -/
abbrev Assoc (κ α : Type) := List (κ × α)

namespace Assoc

variable {κ α β : Type}

/-- Put a value under a key, in place of the one that stands there. -/
def put [Ord κ] (key : κ) (value : α) : Assoc κ α → Assoc κ α
  | [] => [(key, value)]
  | (k, v) :: rest =>
      match compare key k with
      | .lt => (key, value) :: (k, v) :: rest
      | .eq => (key, value) :: rest
      | .gt => (k, v) :: put key value rest

def get? [BEq κ] (table : Assoc κ α) (key : κ) : Option α := table.lookup key

def has [BEq κ] (table : Assoc κ α) (key : κ) : Bool := (table.get? key).isSome

def keys (table : Assoc κ α) : List κ := table.map Prod.fst

/-- The values in the order of their keys. -/
def values (table : Assoc κ α) : List α := table.map Prod.snd

/-- The table of pairs; of several values under one key the last stays. -/
def ofPairs [Ord κ] (pairs : List (κ × α)) : Assoc κ α :=
  pairs.foldl (fun table (key, value) => table.put key value) []

def update [BEq κ] (table : Assoc κ α) (key : κ) (change : α → α) : Assoc κ α :=
  table.map fun (k, v) => if k == key then (k, change v) else (k, v)

/-- Add a value to the list under a key. -/
def push [BEq κ] [Ord κ] (table : Assoc κ (List α)) (key : κ) (value : α) : Assoc κ (List α) :=
  table.put key ((table.get? key).getD [] ++ [value])

def mapValues (table : Assoc κ α) (f : α → β) : Assoc κ β := table.map fun (k, v) => (k, f v)

end Assoc

end WorkspaceBuild
