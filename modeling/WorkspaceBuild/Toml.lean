/-! # TOML values

A settings text as tables of values. How a table came to be is kept, because it decides whether
more may be added to it.
-/

namespace WorkspaceBuild

/-- How a table came to be. -/
inductive Opening where
  /-- By a header of its own. -/
  | header
  /-- By the header of a table inside it. -/
  | implied
  /-- By a dotted key. -/
  | dotted
  /-- Written as a value; nothing is added to it. -/
  | inline
  deriving DecidableEq, Inhabited, Repr

/-- A value. -/
inductive Toml where
  | string (text : String)
  /-- A number, truth value or date as it is written. -/
  | literal (text : String)
  | array (items : List Toml)
  /-- A table with its entries in order. -/
  | table (opening : Opening) (entries : List (String × Toml))
  | tables (items : List (List (String × Toml)))
  deriving Inhabited, Repr

namespace Toml

/-- Entries of a table. -/
abbrev Entries := List (String × Toml)

/-- Put a value in place of the one under a key, or at the end. -/
def put (key : String) (value : Toml) : Entries → Entries
  | [] => [(key, value)]
  | (k, v) :: rest => if k = key then (key, value) :: rest else (k, v) :: put key value rest

/-- Change the last of several lists of entries. -/
def changeLast? (change : Entries → Option Entries) : List Entries → Option (List Entries)
  | [] => none
  | [entries] => (change entries).map ([·])
  | first :: rest => (changeLast? change rest).map (first :: ·)

/-- Add a value under a dotted key. Tables on the way are made as needed or have been made by dotted
keys; the key itself must be new, and stand in a table of dotted keys unless it has no dots. -/
def addPair (opening : Opening) (nested : Bool) (key : String) (value : Toml) :
    List String → Entries → Option Entries
  | [], entries =>
      if (opening = .dotted) = nested && (entries.lookup key).isNone then
        some (entries ++ [(key, value)])
      else none
  | step :: path, entries =>
      match entries.lookup step with
      | none =>
          (addPair .dotted nested key value path []).map fun inner =>
            entries ++ [(step, .table .dotted inner)]
      | some (.table opening inner) =>
          if opening = .dotted || opening = .implied then
            (addPair opening nested key value path inner).map fun inner =>
              put step (.table opening inner) entries
          else none
      | some (.tables items) =>
          (changeLast? (addPair .header nested key value path) items).map fun items =>
            put step (.tables items) entries
      | some _ => none

/-- A value under a dotted key. -/
structure Pair where
  /-- The key before its last part. -/
  path : List String
  /-- The last part of the key. -/
  key : String
  value : Toml
  deriving Inhabited, Repr

def addPairs (opening : Opening) (pairs : List Pair) (entries : Entries) : Option Entries :=
  pairs.foldlM (fun entries pair =>
    addPair opening (!pair.path.isEmpty) pair.key pair.value pair.path entries) entries

/-- Put a table under its last key: one that only followed from others is completed, and each table
with a shared header is one more. -/
def placeTable (shared : Bool) (pairs : List Pair) (key : String) (entries : Entries) :
    Option Entries :=
  match shared, entries.lookup key with
  | false, none =>
      (addPairs .header pairs []).map fun inner => entries ++ [(key, .table .header inner)]
  | false, some (.table .implied inner) =>
      (addPairs .header pairs inner).map fun inner => put key (.table .header inner) entries
  | true, none => (addPairs .header pairs []).map fun inner => entries ++ [(key, .tables [inner])]
  | true, some (.tables items) =>
      (addPairs .header pairs []).map fun inner => put key (.tables (items ++ [inner])) entries
  | _, _ => none

/-- Add a table under the path of its header. -/
def addTable (shared : Bool) (pairs : List Pair) : List String → Entries → Option Entries
  | [], _ => none
  | [key], entries => placeTable shared pairs key entries
  | step :: path, entries =>
      match entries.lookup step with
      | none =>
          (addTable shared pairs path []).map fun inner =>
            entries ++ [(step, .table .implied inner)]
      | some (.table opening inner) =>
          if opening = .inline then none
          else
            (addTable shared pairs path inner).map fun inner =>
              put step (.table opening inner) entries
      | some (.tables items) =>
          (changeLast? (addTable shared pairs path) items).map fun items =>
            put step (.tables items) entries
      | some _ => none

/-- A header with the values below it. -/
structure Section where
  /-- Whether tables may share the header. -/
  shared : Bool
  path : List String
  pairs : List Pair
  deriving Inhabited, Repr

/-- The entries of a text: values before any header, and then the tables. -/
def ofSections (pairs : List Pair) (sections : List Section) : Option Entries := do
  let entries ← addPairs .header pairs []
  sections.foldlM (fun entries s => addTable s.shared s.pairs s.path entries) entries

end Toml

end WorkspaceBuild
