import WorkspaceBuild.Json.Reader
import WorkspaceBuild.SourceUnit

/-! # Type tables

The checker's types: flags say what a type is, and ids lead from a type to its arguments,
properties and members. Tables may be cyclic.
-/

namespace WorkspaceBuild

/-- A set of flags, one bit each. -/
structure Flags where
  /-- The bits of the flags that are set. -/
  bits : Nat
  deriving DecidableEq, Inhabited, Repr

namespace Flags

def empty : Flags := ⟨0⟩

def bit (n : Nat) : Flags := ⟨Nat.pow 2 n⟩

def union (a b : Flags) : Flags := ⟨a.bits ||| b.bits⟩

def all (sets : List Flags) : Flags := sets.foldl union empty

def meets (a b : Flags) : Bool := (a.bits &&& b.bits) != 0

/-- Whether a set has every flag of another. -/
def covers (a b : Flags) : Bool := (a.bits &&& b.bits) = b.bits

/-- Read hexadecimal digits as bits, at most 32 of them. -/
def ofHex? (text : String) : Option Flags := do
  if text = "" then none
  let n ← text.toList.foldlM (fun n c => (Json.hexDigit? c).map (16 * n + ·)) 0
  if n < Nat.pow 2 32 then some ⟨n⟩ else none

/-- One flag by its name, or bits in hexadecimal form. -/
def one? (names : List (String × Flags)) (text : String) : Option Flags :=
  match Text.dropStart? text "0x" with
  | some digits => ofHex? digits
  | none => names.lookup text

/-- Flags by their names with bars between them; blanks around a name are ignored. -/
def ofText? (names : List (String × Flags)) (text : String) : Option Flags :=
  if (Text.trimmed text) = "" then some empty
  else ((Text.pieces '|' text).mapM fun part => one? names (Text.trimmed part)).map all

def hexText (n : Nat) : String := String.ofList (Nat.toDigits 16 n)

/-- The names of the flags in the order of their bits, with bars between them; bits without a name
follow in hexadecimal form. -/
def text (names : List (String × Flags)) (flags : Flags) : String :=
  let named := names.filter fun (_, flag) => flags.covers flag
  let rest := flags.bits - (flags.bits &&& (all (named.map Prod.snd)).bits)
  Text.joined " | " (named.map Prod.fst ++ if rest = 0 then [] else ["0x" ++ hexText rest])

end Flags

/-- Flags of types in the order of their bits. -/
def TypeFlag.names : List (String × Flags) :=
  ["ANY", "UNKNOWN", "NEVER", "STRING", "NUMBER", "BOOLEAN", "BIGINT", "STRING_LITERAL",
    "NUMBER_LITERAL", "BOOLEAN_LITERAL", "ENUM", "VOID", "UNDEFINED", "NULL", "ES_SYMBOL",
    "TEMPLATE_LITERAL", "UNION", "INTERSECTION", "OBJECT", "TYPE_PARAMETER"].zipIdx.map
    fun (name, n) => (name, Flags.bit n)

namespace TypeFlag

def any : Flags := .bit 0
def unknown : Flags := .bit 1
def never : Flags := .bit 2
def string : Flags := .bit 3
def number : Flags := .bit 4
def boolean : Flags := .bit 5
def bigint : Flags := .bit 6
def stringLiteral : Flags := .bit 7
def numberLiteral : Flags := .bit 8
def booleanLiteral : Flags := .bit 9
def enumeration : Flags := .bit 10
def void : Flags := .bit 11
def undefined : Flags := .bit 12
def null : Flags := .bit 13
def symbol : Flags := .bit 14
def templateLiteral : Flags := .bit 15
def union : Flags := .bit 16
def intersection : Flags := .bit 17
def object : Flags := .bit 18

def primitiveLike : Flags :=
  .all [string, number, boolean, bigint, stringLiteral, numberLiteral, booleanLiteral, enumeration,
    void, undefined, null, symbol]

/-- Flags of types by name, with the name for all primitive ones. -/
def byName : List (String × Flags) := names ++ [("PRIMITIVE_LIKE", primitiveLike)]

end TypeFlag

/-- Flags of object types in the order of their bits. -/
def ObjectFlag.names : List (String × Flags) :=
  ["CLASS", "INTERFACE", "REFERENCE", "TUPLE", "ANONYMOUS", "MAPPED", "OBJECT_LITERAL",
    "ARRAY"].zipIdx.map fun (name, n) => (name, Flags.bit n)

namespace ObjectFlag

def classType : Flags := .bit 0
def interface : Flags := .bit 1
def reference : Flags := .bit 2
def tuple : Flags := .bit 3
def anonymous : Flags := .bit 4
def mapped : Flags := .bit 5
def objectLiteral : Flags := .bit 6
def array : Flags := .bit 7

end ObjectFlag

/-- Where a symbol is declared. -/
structure DeclarationSite where
  file : Path
  declarationFile : Bool
  /-- Whether it belongs to the language's own library. -/
  defaultLibrary : Bool
  deriving DecidableEq, Inhabited, Repr

/-- How an interface is implemented. -/
inductive ConcreteTag where
  | target (id : TypeId)
  | generated
  deriving DecidableEq, Inhabited, Repr

/-- A symbol of the source language. -/
structure SymbolData where
  name : String
  declaration : Option DeclarationSite
  isClass : Bool := false
  /-- The type an alias stands for. -/
  aliasTarget : Option TypeId := none
  concrete : Option ConcreteTag := none
  deriving DecidableEq, Inhabited, Repr

/-- A property of an object type. -/
structure PropertyData where
  name : String
  type : TypeId
  deriving DecidableEq, Inhabited, Repr

/-- One type of a table. -/
structure TypeData where
  flags : Flags := .empty
  /-- What an object type is. -/
  objectFlags : Flags := .empty
  name : Option String := none
  literal : Option String := none
  symbol : Option SymbolData := none
  /-- Type arguments; of tuples and arrays the elements. -/
  typeArguments : List TypeId := []
  properties : List PropertyData := []
  /-- Members of a union or intersection. -/
  subTypes : List TypeId := []
  patterns : List String := []
  deriving DecidableEq, Inhabited, Repr

/-- A table of types; the id of a type is its place. -/
abbrev TypeTable := List TypeData

namespace TypeTable

def type? (table : TypeTable) (id : TypeId) : Option TypeData := table[id]?

/-- Put a type in place of another; an id outside the table changes nothing. -/
def replace (table : TypeTable) (id : TypeId) (data : TypeData) : TypeTable := table.set id data

end TypeTable

namespace TypeData

/-- A type with a name and nothing else. -/
def intrinsic (flags : Flags) (name : String) : TypeData := { flags, name := some name }

/-- A literal of a primitive, named for the primitive. -/
def ofLiteral (flags : Flags) (name value : String) : TypeData :=
  { flags, name := some name, literal := some value }

def template (patterns : List String) : TypeData :=
  { flags := TypeFlag.templateLiteral, name := some "string", patterns }

def union (members : List TypeId) : TypeData := { flags := TypeFlag.union, subTypes := members }

def intersection (members : List TypeId) : TypeData :=
  { flags := TypeFlag.intersection, subTypes := members }

def classType (name : String) (site : DeclarationSite) (properties : List PropertyData) :
    TypeData :=
  { flags := TypeFlag.object, objectFlags := ObjectFlag.classType, name := some name
    symbol := some { name, declaration := some site, isClass := true }, properties }

def interface (name : String) (site : DeclarationSite) (properties : List PropertyData) :
    TypeData :=
  { flags := TypeFlag.object, objectFlags := ObjectFlag.interface, name := some name
    symbol := some { name, declaration := some site }, properties }

def objectLiteral (properties : List PropertyData) : TypeData :=
  { flags := TypeFlag.object, objectFlags := ObjectFlag.objectLiteral, properties }

def tuple (elements : List TypeId) : TypeData :=
  { flags := TypeFlag.object, objectFlags := ObjectFlag.tuple, typeArguments := elements }

def array (element : TypeId) : TypeData :=
  { flags := TypeFlag.object, objectFlags := ObjectFlag.reference.union ObjectFlag.array
    name := some "Array", typeArguments := [element] }

end TypeData

end WorkspaceBuild
