import WorkspaceBuild.Json
import WorkspaceBuild.Path

/-! # Resolved types

Types as a running program can be told about them. A shape or managed type carries a number by
which a pointer elsewhere in the same description refers back to it.
-/

namespace WorkspaceBuild

/-- How the members of a composition combine. -/
inductive Operator where
  | and
  | or
  deriving DecidableEq, Inhabited, Repr

def Operator.name : Operator → String
  | .and => "and"
  | .or => "or"

/-- The description of a type. -/
inductive ResolvedType where
  /-- A primitive, a literal, or a type of the language's library. -/
  | literal (name : String) (value : Option String) (typeArguments : List ResolvedType)
  /-- A class, with the id of the unit that declares it. -/
  | managed (name : String) (moduleId : Option String) (typeArguments : List ResolvedType)
      (refId : Nat)
  /-- An object with the types of its fields, ascending by name. -/
  | shape (name : Option String) (fields : List (String × ResolvedType)) (mapped : Bool)
      (refId : Nat)
  | composition (operator : Operator) (subTypes : List ResolvedType) (nullable optional : Bool)
      (commonType : Option String)
  /-- A tuple, or an array of one element type. -/
  | tuple (elementTypes : List ResolvedType) (array : Bool)
  | template (patterns : List String)
  /-- A type declared outside the build. -/
  | foreign (name : String) (file : Path)
  /-- A reference back to a shape or managed type. -/
  | pointer (refId : Nat) (name : Option String)
  /-- Nothing is known of the type. -/
  | unknown
  deriving Inhabited, Repr, BEq

namespace ResolvedType

/-- The description of a type that could not be resolved. -/
def object : ResolvedType := .literal "object" none []

/-- The name of a type that has one. -/
def name? : ResolvedType → Option String
  | .literal name .. => some name
  | .managed name .. => some name
  | .foreign name _ => some name
  | .shape name .. => name
  | .pointer _ name => name
  | _ => none

def optionalText : Option String → Json
  | some text => .string text
  | none => .null

/-- A member that is left out when there is nothing to say. -/
def memberIf (present : Bool) (name : String) (value : Json) : List (String × Json) :=
  if present then [(name, value)] else []

mutual

def toJson : ResolvedType → Json
  | .literal name value arguments =>
      .object ([("kind", .string "literal"), ("name", .string name)] ++
        memberIf value.isSome "value" (optionalText value) ++
        memberIf (!arguments.isEmpty) "typeArguments" (.array (listToJson arguments)))
  | .managed name moduleId arguments refId =>
      .object ([("kind", .string "managed"), ("name", .string name),
        ("module", optionalText moduleId)] ++
        memberIf (!arguments.isEmpty) "typeArguments" (.array (listToJson arguments)) ++
        [("refId", .whole refId)])
  | .shape name fields mapped refId =>
      .object [("kind", .string "shape"), ("name", optionalText name),
        ("fieldTypes", .object (fieldsToJson fields)), ("mapped", .bool mapped),
        ("refId", .whole refId)]
  | .composition operator subTypes nullable optional commonType =>
      .object ([("kind", .string "composition"), ("operator", .string operator.name),
        ("subTypes", .array (listToJson subTypes)), ("nullable", .bool nullable),
        ("optional", .bool optional)] ++
        memberIf commonType.isSome "commonType" (optionalText commonType))
  | .tuple elementTypes array =>
      .object [("kind", .string "tuple"), ("elementTypes", .array (listToJson elementTypes)),
        ("array", .bool array)]
  | .template patterns =>
      .object [("kind", .string "template"), ("patterns", .array (patterns.map .string))]
  | .foreign name file =>
      .object [("kind", .string "foreign"), ("name", .string name), ("file", .string file.text)]
  | .pointer refId name =>
      .object [("kind", .string "pointer"), ("refId", .whole refId), ("name", optionalText name)]
  | .unknown => .object [("kind", .string "unknown")]

def listToJson : List ResolvedType → List Json
  | [] => []
  | t :: rest => toJson t :: listToJson rest

/-- The JSON forms of the types of fields. -/
def fieldsToJson : List (String × ResolvedType) → List (String × Json)
  | [] => []
  | (name, t) :: rest => (name, toJson t) :: fieldsToJson rest

end

end ResolvedType

end WorkspaceBuild
