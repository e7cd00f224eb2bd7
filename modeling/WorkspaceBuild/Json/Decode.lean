import WorkspaceBuild.Json

/-! # Decoding JSON

How values become data: nothing is converted, unknown members are passed over, a member given twice
is refused, and a structure may also be a list of its members in order.
-/

namespace WorkspaceBuild.Json

/-- What a structure asks of one of its members. -/
inductive Presence where
  | required
  /-- It may be absent, but not from the list form. -/
  | optional
  /-- It may be absent, and from the list form too when all after it are. -/
  | defaulted
  deriving DecidableEq, Repr

/-- The items of a list form matched with the members they stand for. -/
def alignItems : List (String × Presence) → List Json → Option (List (Option Json))
  | [], [] => some []
  | [], _ :: _ => none
  | (_, presence) :: rest, [] =>
      if presence = .defaulted then (alignItems rest []).map (none :: ·) else none
  | _ :: rest, item :: items => (alignItems rest items).map (some item :: ·)

/-- A member of a structure; an absent one is nothing unless it has to be there. -/
def pick? (members : List (String × Json)) (rule : String × Presence) : Option (Option Json) :=
  match members.filter (·.1 = rule.1) with
  | [] => if rule.2 = .required then none else some none
  | [(_, value)] => some (some value)
  | _ => none

/-- The members of a structure, in the order of its rules. -/
def fields? (rules : List (String × Presence)) : Json → Option (List (Option Json))
  | .object members => rules.mapM (pick? members)
  | .array items => alignItems rules items
  | _ => none

def text? : Json → Option String
  | .string text => some text
  | _ => none

def bool? : Json → Option Bool
  | .bool value => some value
  | _ => none

def natBelow? (limit : Nat) : Json → Option Nat
  | .whole (.ofNat n) => if n < limit then some n else none
  | _ => none

def list? {α : Type} (decode : Json → Option α) : Json → Option (List α)
  | .array items => items.mapM decode
  | _ => none

/-- A table by name; of several values under one name the last stays. -/
def table? {α : Type} (decode : Json → Option α) : Json → Option (Assoc String α)
  | .object members =>
      (members.mapM fun member => (decode member.2).map fun value => (member.1, value)).map
        Assoc.ofPairs
  | _ => none

def nullable? {α : Type} (decode : Json → Option α) : Json → Option (Option α)
  | .null => some none
  | value => (decode value).map some

/-- A member that may be absent or `null`. -/
def absentOr? {α : Type} (decode : Json → Option α) : Option Json → Option (Option α)
  | none => some none
  | some value => nullable? decode value

/-- A member with a default in its absence. -/
def defaulted? {α : Type} (default : α) (decode : Json → Option α) : Option Json → Option α
  | none => some default
  | some value => decode value

/-- A choice between alternatives: its name, and its content unless the name stands alone. -/
def variant? : Json → Option (String × Option Json)
  | .string name => some (name, none)
  | .object [(name, content)] => some (name, some content)
  | _ => none

/-- A choice between alternatives without content, which may also be given as `null`. -/
def choice? {α : Type} (ofName? : String → Option α) (value : Json) : Option α :=
  match variant? value with
  | some (name, none) => ofName? name
  | some (name, some .null) => ofName? name
  | _ => none

end WorkspaceBuild.Json
