import WorkspaceBuild.Json.Reader
import WorkspaceBuild.Json.Decode
import WorkspaceBuild.SourceUnit

/-! # Source units from JSON

A tree is given with each choice as an object of one member, named for the alternative. The depth
that is passed along is how many lists and objects may still be opened.
-/

namespace WorkspaceBuild

open Json (Presence)

def typeIdLimit : Nat := 4294967296

def TypeId.ofJson? : Json → Option TypeId := Json.natBelow? typeIdLimit

def Double.ofJson? : Json → Option Double
  | .whole n => some (.ofInt n)
  | .real value => some value
  | _ => none

def Literal.ofJson? (depth : Nat) (value : Json) : Option Literal :=
  match Json.variant? value with
  | some ("Null", none) => some .null
  | some ("Undefined", none) => some .undefined
  | some (name, some content) =>
      if depth = 0 then none
      else
        match name with
        | "String" => (Json.text? content).map .string
        | "Number" => (Double.ofJson? content).map .number
        | "Bool" => (Json.bool? content).map .bool
        | "Null" => if content matches .null then some .null else none
        | "Undefined" => if content matches .null then some .undefined else none
        | _ => none
  | _ => none

/-- A pair of a key and a value, given as a list of two. -/
def pairOf? {α : Type} (decode : Json → Option α) : Json → Option (String × α)
  | .array [.string key, value] => (decode value).map (key, ·)
  | _ => none

/-- Decode what lies inside one more list or object. -/
def inside? {α : Type} (depth : Nat) (decode : Nat → Option α) : Option α :=
  match depth with
  | 0 => none
  | inner + 1 => decode inner

/-- A list, each item with the depth that is left inside it. -/
def listOf? {α : Type} (depth : Nat) (decode : Nat → Json → Option α) (value : Json) :
    Option (List α) :=
  inside? depth fun inner => Json.list? (decode inner) value

/-- The members of a structure with the depth that is left inside it. -/
def structOf? {α : Type} (depth : Nat) (rules : List (String × Presence)) (value : Json)
    (decode : Nat → List (Option Json) → Option α) : Option α :=
  inside? depth fun inner => (Json.fields? rules value).bind (decode inner)

/-- An expression, in at most so many levels; each level opens at least one object, so the depth is
spent first. -/
def Expr.ofLevels? : Nat → Nat → Json → Option Expr
  | 0, _, _ => none
  | levels + 1, depth, value =>
      inside? depth fun depth => do
        let (name, content) ← Json.variant? value
        let content ← content
        match name with
        | "Ident" => (Json.text? content).map .ident
        | "Literal" => (Literal.ofJson? depth content).map .literal
        | "Call" =>
            structOf? depth [("callee", .required), ("args", .required)] content
              fun inner fields =>
                match fields with
                | [some callee, some args] => do
                    return .call (← Expr.ofLevels? levels inner callee)
                      (← listOf? inner (Expr.ofLevels? levels) args)
                | _ => none
        | "Member" =>
            structOf? depth [("object", .required), ("property", .required)] content
              fun inner fields =>
                match fields with
                | [some target, some property] => do
                    return .member (← Expr.ofLevels? levels inner target) (← Json.text? property)
                | _ => none
        | "Object" =>
            (listOf? depth (fun inner pair =>
              inside? inner fun inner => pairOf? (Expr.ofLevels? levels inner) pair) content).map
              .object
        | "Array" => (listOf? depth (Expr.ofLevels? levels) content).map .array
        | _ => none

def Expr.ofJson? (depth : Nat) (value : Json) : Option Expr :=
  Expr.ofLevels? (depth + 1) depth value

def Decorator.ofJson? (depth : Nat) (value : Json) : Option Decorator :=
  structOf? depth [("name", .required), ("args", .defaulted)] value fun inner fields =>
    match fields with
    | [some name, args] => do
        let args ← Json.defaulted? [] (listOf? inner Expr.ofJson?) args
        return ⟨← Json.text? name, args⟩
    | _ => none

def WrittenType.ofJson? (depth : Nat) (value : Json) : Option WrittenType :=
  structOf? depth [("text", .required), ("id", .optional)] value fun _ fields =>
    match fields with
    | [some text, id] => do return ⟨← Json.text? text, ← Json.absentOr? TypeId.ofJson? id⟩
    | _ => none

def Param.ofJson? (depth : Nat) (value : Json) : Option Param :=
  structOf? depth [("name", .required), ("decorators", .required), ("ty", .optional)] value
    fun inner fields =>
      match fields with
      | [some name, some decorators, type] => do
          return ⟨← Json.text? name, ← listOf? inner Decorator.ofJson? decorators,
            ← Json.absentOr? (WrittenType.ofJson? inner) type⟩
      | _ => none

def ImportBinding.ofJson? (depth : Nat) (value : Json) : Option ImportBinding :=
  structOf? depth [("imported", .required), ("local", .required)] value fun _ fields =>
    match fields with
    | [some imported, some localName] => do
        return ⟨← Json.text? imported, ← Json.text? localName⟩
    | _ => none

def ImportDecl.ofJson? (depth : Nat) (value : Json) : Option ImportDecl :=
  structOf? depth [("specifier", .required), ("bindings", .required), ("type_only", .required)]
    value fun inner fields =>
      match fields with
      | [some specifier, some bindings, some typeOnly] => do
          return ⟨← Json.text? specifier, ← listOf? inner ImportBinding.ofJson? bindings,
            ← Json.bool? typeOnly⟩
      | _ => none

def TypeDecl.ofJson? (depth : Nat) (value : Json) : Option TypeDecl :=
  structOf? depth [("name", .required), ("exported", .required), ("ty", .optional)] value
    fun _ fields =>
      match fields with
      | [some name, some exported, type] => do
          return ⟨← Json.text? name, ← Json.bool? exported, ← Json.absentOr? TypeId.ofJson? type⟩
      | _ => none

def VariableKind.ofName? : String → Option VariableKind
  | "const" => some .const
  | "let" => some .let
  | _ => none

def VariableDecl.ofJson? (depth : Nat) (value : Json) : Option VariableDecl :=
  structOf? depth
    [("kind", .required), ("name", .required), ("exported", .required), ("ty", .optional),
      ("init", .optional)] value fun inner fields =>
      match fields with
      | [some kind, some name, some exported, type, init] => do
          return ⟨← Json.choice? VariableKind.ofName? kind, ← Json.text? name,
            ← Json.bool? exported, ← Json.absentOr? (WrittenType.ofJson? inner) type,
            ← Json.absentOr? (Expr.ofJson? inner) init⟩
      | _ => none

def PropertyDecl.ofJson? (depth : Nat) (value : Json) : Option PropertyDecl :=
  structOf? depth
    [("name", .required), ("is_static", .required), ("decorators", .required), ("ty", .optional),
      ("init", .optional)] value fun inner fields =>
      match fields with
      | [some name, some isStatic, some decorators, type, init] => do
          return ⟨← Json.text? name, ← Json.bool? isStatic,
            ← listOf? inner Decorator.ofJson? decorators,
            ← Json.absentOr? (WrittenType.ofJson? inner) type,
            ← Json.absentOr? (Expr.ofJson? inner) init⟩
      | _ => none

/-- A class member, given how a body is decoded. -/
def ClassMember.ofParts? (body? : Nat → Json → Option (List Statement)) (depth : Nat)
    (value : Json) : Option ClassMember := do
  let (name, content) ← Json.variant? value
  let content ← content
  match name with
  | "Constructor" =>
      structOf? depth [("params", .required), ("body", .required)] content fun inner fields =>
        match fields with
        | [some params, some body] => do
            return .constructorDecl (← listOf? inner Param.ofJson? params) (← body? inner body)
        | _ => none
  | "Method" =>
      structOf? depth
        [("name", .required), ("is_static", .required), ("decorators", .required),
          ("params", .required), ("body", .required), ("return_type", .optional)] content
        fun inner fields =>
          match fields with
          | [some name, some isStatic, some decorators, some params, some body, type] => do
              return .method
                ⟨← Json.text? name, ← Json.bool? isStatic,
                  ← listOf? inner Decorator.ofJson? decorators, ← listOf? inner Param.ofJson? params,
                  ← Json.absentOr? (WrittenType.ofJson? inner) type⟩ (← body? inner body)
          | _ => none
  | "Property" => (PropertyDecl.ofJson? depth content).map .property
  | "Getter" => (accessor? content).map fun (head, body) => .getter head body
  | "Setter" => (accessor? content).map fun (head, body) => .setter head body
  | _ => none
where
  accessor? (content : Json) : Option (AccessorHead × List Statement) :=
    structOf? depth
      [("name", .required), ("decorators", .required), ("params", .required), ("body", .required)]
      content fun inner fields =>
        match fields with
        | [some name, some decorators, some params, some body] => do
            return (⟨← Json.text? name, ← listOf? inner Decorator.ofJson? decorators,
              ← listOf? inner Param.ofJson? params⟩, ← body? inner body)
        | _ => none

/-- A statement, in at most so many levels of bodies; each level opens several lists and objects,
so the depth is spent first. -/
def Statement.ofLevels? : Nat → Nat → Json → Option Statement
  | 0, _, _ => none
  | levels + 1, depth, value =>
      let body? := fun depth value => listOf? depth (Statement.ofLevels? levels) value
      inside? depth fun depth => do
        let (name, content) ← Json.variant? value
        let content ← content
        match name with
        | "Import" => (ImportDecl.ofJson? depth content).map .importDecl
        | "Class" =>
            structOf? depth
              [("name", .required), ("exported", .required), ("decorators", .required),
                ("extends", .optional), ("members", .required)] content fun inner fields =>
                match fields with
                | [some name, some exported, some decorators, base, some members] => do
                    let head : ClassHead :=
                      ⟨← Json.text? name, ← Json.bool? exported,
                        ← listOf? inner Decorator.ofJson? decorators,
                        ← Json.absentOr? Json.text? base⟩
                    let member? := fun depth value =>
                      inside? depth fun depth => ClassMember.ofParts? body? depth value
                    return .classDecl head (← listOf? inner member? members)
                | _ => none
        | "Interface" => (TypeDecl.ofJson? depth content).map .interfaceDecl
        | "TypeAlias" => (TypeDecl.ofJson? depth content).map .aliasDecl
        | "Function" =>
            structOf? depth
              [("name", .required), ("exported", .required), ("params", .required),
                ("body", .required)] content fun inner fields =>
                match fields with
                | [some name, some exported, some params, some body] => do
                    let head : FunctionHead :=
                      ⟨← Json.text? name, ← Json.bool? exported,
                        ← listOf? inner Param.ofJson? params⟩
                    return .functionDecl head (← body? inner body)
                | _ => none
        | "Variable" => (VariableDecl.ofJson? depth content).map .variableDecl
        | "Expr" => (Expr.ofJson? depth content).map .expression
        | "Return" => (Json.nullable? (Expr.ofJson? depth) content).map .returned
        | _ => none

def Statement.ofJson? (depth : Nat) (value : Json) : Option Statement :=
  Statement.ofLevels? (depth + 1) depth value

def ClassMember.ofJson? (depth : Nat) (value : Json) : Option ClassMember :=
  inside? depth fun depth => ClassMember.ofParts? (listOf? · Statement.ofJson?) depth value

def SourceUnit.ofJson? (depth : Nat) (value : Json) : Option SourceUnit :=
  structOf? depth [("path", .required), ("statements", .required)] value fun inner fields =>
    match fields with
    | [some path, some statements] => do
        return ⟨⟨← Json.text? path⟩, ← listOf? inner Statement.ofJson? statements⟩
    | _ => none

/-- The statements of a unit from a JSON text. -/
def Statement.listOfText? (text : String) : Option (List Statement) :=
  (Json.readLoosely? text).bind (listOf? Json.maxDepth Statement.ofJson?)

end WorkspaceBuild
