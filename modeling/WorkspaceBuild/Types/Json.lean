import WorkspaceBuild.Types.Table

/-! # Type tables as JSON

The written form of an entry of a type table. Flags are written by name.
-/

namespace WorkspaceBuild

/-- A value that may be absent, or `null`. -/
def orNull {α : Type} (encode : α → Json) (value : Option α) : Json := (value.map encode).getD .null

def TypeId.toJson (id : TypeId) : Json := .whole id

def DeclarationSite.toJson (s : DeclarationSite) : Json :=
  .object [("file", .string s.file.text), ("declaration_file", .bool s.declarationFile),
    ("default_library", .bool s.defaultLibrary)]

/-- The mark of a concrete type as JSON. -/
def ConcreteTag.toJson : ConcreteTag → Json
  | .generated => .string "Generated"
  | .target id => .object [("Target", TypeId.toJson id)]

def SymbolData.toJson (s : SymbolData) : Json :=
  .object [("name", .string s.name), ("declaration", orNull DeclarationSite.toJson s.declaration),
    ("is_class", .bool s.isClass), ("alias_target", orNull TypeId.toJson s.aliasTarget),
    ("concrete", orNull ConcreteTag.toJson s.concrete)]

def PropertyData.toJson (p : PropertyData) : Json :=
  .object [("name", .string p.name), ("ty", TypeId.toJson p.type)]

def TypeData.toJson (t : TypeData) : Json :=
  .object [("flags", .string (t.flags.text TypeFlag.names)),
    ("object_flags", .string (t.objectFlags.text ObjectFlag.names)),
    ("name", orNull .string t.name), ("literal", orNull .string t.literal),
    ("symbol", orNull SymbolData.toJson t.symbol),
    ("type_arguments", .array (t.typeArguments.map TypeId.toJson)),
    ("properties", .array (t.properties.map PropertyData.toJson)),
    ("sub_types", .array (t.subTypes.map TypeId.toJson)),
    ("patterns", .array (t.patterns.map .string))]

end WorkspaceBuild
