import WorkspaceBuild.Assoc
import WorkspaceBuild.Double

/-! # JSON values

Values as a text spells them: members stay in their order, also when a name comes twice. What a
structure makes of that is decided where it is decoded.
-/

namespace WorkspaceBuild

/-- A value of a JSON text. -/
inductive Json where
  | null
  | bool (value : Bool)
  /-- A whole number that fits 64 bits, signed or unsigned. -/
  | whole (value : Int)
  /-- Any other number, as the nearest double. -/
  | real (value : Double)
  | string (text : String)
  | array (items : List Json)
  /-- Named members in the order of the text. -/
  | object (members : List (String × Json))
  /-- Well formed, but without a value: a number beyond the greatest double, or a text with half a
  surrogate pair. It can only be passed over. -/
  | unreadable
  deriving Inhabited, Repr, BEq

namespace Json

/-- Deepest nesting of lists and objects that is read. -/
def maxDepth : Nat := 127

mutual

/-- Whether all of a value can be read, with at most so many lists and objects around each part. -/
def isReadable (depth : Nat) : Json → Bool
  | .unreadable => false
  | .array items =>
      match depth with
      | 0 => false
      | inner + 1 => areReadable inner items
  | .object members =>
      match depth with
      | 0 => false
      | inner + 1 => membersReadable inner members
  | _ => true

/-- Whether all items of a list can be read. -/
def areReadable (depth : Nat) : List Json → Bool
  | [] => true
  | item :: rest => isReadable depth item && areReadable depth rest

/-- Whether the values of all members can be read. -/
def membersReadable (depth : Nat) : List (String × Json) → Bool
  | [] => true
  | (_, value) :: rest => isReadable depth value && membersReadable depth rest

end

mutual

/-- The value with the members of every object ascending by name, the last one of each name. -/
def settled : Json → Json
  | .array items => .array (settledItems items)
  | .object members => .object (Assoc.ofPairs (settledMembers members))
  | other => other

def settledItems : List Json → List Json
  | [] => []
  | item :: rest => settled item :: settledItems rest

/-- The members of an object with settled values. -/
def settledMembers : List (String × Json) → List (String × Json)
  | [] => []
  | (name, value) :: rest => (name, settled value) :: settledMembers rest

end

/-- A member of an object; of several with one name the first. -/
def member? (name : String) : Json → Option Json
  | .object members => members.lookup name
  | _ => none

end Json

end WorkspaceBuild
