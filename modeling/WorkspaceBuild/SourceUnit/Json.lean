import WorkspaceBuild.Types.Json

/-! # Source units as JSON

The form in which trees are read, written again. Each choice is an object of one member, named for
the alternative; numbers are texts, in the form in which they are printed.
-/

namespace WorkspaceBuild

def Json.choice (name : String) (content : Json) : Json := .object [(name, content)]

def Literal.toJson : Literal → Json
  | .string text => .choice "String" (.string text)
  | .number value => .choice "Number" (.string value.text)
  | .bool value => .choice "Bool" (.bool value)
  | .null => .string "Null"
  | .undefined => .string "Undefined"

mutual

def Expr.toJson : Expr → Json
  | .ident name => .choice "Ident" (.string name)
  | .literal value => .choice "Literal" value.toJson
  | .call callee args =>
      .choice "Call" (.object [("callee", callee.toJson), ("args", .array (Expr.listJson args))])
  | .member target property =>
      .choice "Member" (.object [("object", target.toJson), ("property", .string property)])
  | .object fields => .choice "Object" (.array (Expr.fieldsJson fields))
  | .array items => .choice "Array" (.array (Expr.listJson items))

def Expr.listJson : List Expr → List Json
  | [] => []
  | e :: rest => e.toJson :: Expr.listJson rest

/-- Fields as JSON: lists of a key and a value. -/
def Expr.fieldsJson : List (String × Expr) → List Json
  | [] => []
  | (key, e) :: rest => .array [.string key, e.toJson] :: Expr.fieldsJson rest

end

def Decorator.toJson (d : Decorator) : Json :=
  .object [("name", .string d.name), ("args", .array (Expr.listJson d.args))]

def WrittenType.toJson (t : WrittenType) : Json :=
  .object [("text", .string t.text), ("id", orNull TypeId.toJson t.id)]

def decoratorsJson (decorators : List Decorator) : Json := .array (decorators.map Decorator.toJson)

def Param.toJson (p : Param) : Json :=
  .object [("name", .string p.name), ("decorators", decoratorsJson p.decorators),
    ("ty", orNull WrittenType.toJson p.type)]

def paramsJson (params : List Param) : Json := .array (params.map Param.toJson)

def ImportBinding.toJson (b : ImportBinding) : Json :=
  .object [("imported", .string b.imported), ("local", .string b.localName)]

def ImportDecl.toJson (d : ImportDecl) : Json :=
  .object [("specifier", .string d.specifier),
    ("bindings", .array (d.bindings.map ImportBinding.toJson)), ("type_only", .bool d.typeOnly)]

def TypeDecl.toJson (d : TypeDecl) : Json :=
  .object [("name", .string d.name), ("exported", .bool d.exported),
    ("ty", orNull TypeId.toJson d.type)]

def VariableDecl.toJson (d : VariableDecl) : Json :=
  .object [("kind", .string d.kind.keyword), ("name", .string d.name),
    ("exported", .bool d.exported), ("ty", orNull WrittenType.toJson d.type),
    ("init", orNull Expr.toJson d.init)]

def PropertyDecl.toJson (d : PropertyDecl) : Json :=
  .object [("name", .string d.name), ("is_static", .bool d.isStatic),
    ("decorators", decoratorsJson d.decorators), ("ty", orNull WrittenType.toJson d.type),
    ("init", orNull Expr.toJson d.init)]

/-- A getter or setter with its body as JSON. -/
def AccessorHead.toJson (h : AccessorHead) (body : List Json) : Json :=
  .object [("name", .string h.name), ("decorators", decoratorsJson h.decorators),
    ("params", paramsJson h.params), ("body", .array body)]

mutual

def Statement.toJson : Statement → Json
  | .importDecl d => .choice "Import" d.toJson
  | .classDecl h members =>
      .choice "Class" (.object [("name", .string h.name), ("exported", .bool h.exported),
        ("decorators", decoratorsJson h.decorators), ("extends", orNull .string h.base),
        ("members", .array (ClassMember.listJson members))])
  | .interfaceDecl d => .choice "Interface" d.toJson
  | .aliasDecl d => .choice "TypeAlias" d.toJson
  | .functionDecl h body =>
      .choice "Function" (.object [("name", .string h.name), ("exported", .bool h.exported),
        ("params", paramsJson h.params), ("body", .array (Statement.listJson body))])
  | .variableDecl d => .choice "Variable" d.toJson
  | .expression e => .choice "Expr" e.toJson
  | .returned e => .choice "Return" (orNull Expr.toJson e)

def Statement.listJson : List Statement → List Json
  | [] => []
  | s :: rest => s.toJson :: Statement.listJson rest

def ClassMember.toJson : ClassMember → Json
  | .constructorDecl params body =>
      .choice "Constructor" (.object [("params", paramsJson params),
        ("body", .array (Statement.listJson body))])
  | .method h body =>
      .choice "Method" (.object [("name", .string h.name), ("is_static", .bool h.isStatic),
        ("decorators", decoratorsJson h.decorators), ("params", paramsJson h.params),
        ("body", .array (Statement.listJson body)),
        ("return_type", orNull WrittenType.toJson h.returnType)])
  | .property d => .choice "Property" d.toJson
  | .getter h body => .choice "Getter" (h.toJson (Statement.listJson body))
  | .setter h body => .choice "Setter" (h.toJson (Statement.listJson body))

def ClassMember.listJson : List ClassMember → List Json
  | [] => []
  | m :: rest => m.toJson :: ClassMember.listJson rest

end

def SourceUnit.toJson (u : SourceUnit) : Json :=
  .object [("path", .string u.path.text), ("statements", .array (Statement.listJson u.statements))]

end WorkspaceBuild
