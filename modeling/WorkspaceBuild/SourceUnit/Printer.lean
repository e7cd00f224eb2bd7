import WorkspaceBuild.Json.Writer
import WorkspaceBuild.SourceUnit

/-! # Printing source units

Units are written as plain script, a line for each part. What only speaks of types is left out:
interfaces, aliases, type imports, annotations and decorators.
-/

namespace WorkspaceBuild

namespace Literal

/-- The text of a literal; texts are quoted as in JSON. -/
def chars : Literal → List Char
  | .string text => Json.quoteChars text
  | .number value => value.text.toList
  | .bool true => "true".toList
  | .bool false => "false".toList
  | .null => "null".toList
  | .undefined => "undefined".toList

end Literal

namespace Expr

mutual

def chars : Expr → List Char
  | .ident name => name.toList
  | .literal value => value.chars
  | .call callee args => callee.chars ++ '(' :: listChars args ++ [')']
  | .member target property => target.chars ++ '.' :: property.toList
  | .object [] => ['{', '}']
  | .object fields => '{' :: ' ' :: fieldChars fields ++ [' ', '}']
  | .array items => '[' :: listChars items ++ [']']

def listChars : List Expr → List Char
  | [] => []
  | [e] => e.chars
  | e :: rest => e.chars ++ ',' :: ' ' :: listChars rest

/-- Fields with commas between them; every key is quoted. -/
def fieldChars : List (String × Expr) → List Char
  | [] => []
  | [(key, e)] => Json.quoteChars key ++ ':' :: ' ' :: e.chars
  | (key, e) :: rest => Json.quoteChars key ++ ':' :: ' ' :: e.chars ++ ',' :: ' ' :: fieldChars rest

end

def text (e : Expr) : String := String.ofList e.chars

mutual

def ofJson : Json → Expr
  | .null => .literal .null
  | .bool value => .literal (.bool value)
  | .whole n => .literal (.number (Double.ofInt n))
  | .real value => .literal (.number value)
  | .string text => .literal (.string text)
  | .array items => .array (ofItems items)
  | .object members => .object (ofMembers members)
  | .unreadable => .literal .null

def ofItems : List Json → List Expr
  | [] => []
  | item :: rest => ofJson item :: ofItems rest

/-- The fields of the members of an object. -/
def ofMembers : List (String × Json) → List (String × Expr)
  | [] => []
  | (name, value) :: rest => (name, ofJson value) :: ofMembers rest

end

end Expr

namespace ImportBinding

/-- How a binding is written in an import. -/
def text (b : ImportBinding) : String :=
  if b.imported = b.localName then b.localName else b.imported ++ " as " ++ b.localName

end ImportBinding

def ImportDecl.line (decl : ImportDecl) : String :=
  let specifier := Json.quote decl.specifier
  if decl.bindings.isEmpty then "import " ++ specifier ++ ";"
  else
    "import \x7b " ++ Text.listed (decl.bindings.map ImportBinding.text) ++ " \x7d from " ++
      specifier ++ ";"

def exportMark (exported : Bool) : String := if exported then "export " else ""

def staticMark (isStatic : Bool) : String := if isStatic then "static " else ""

def paramNames (params : List Param) : String := Text.listed (params.map Param.name)

/-- A value given to a variable or property. -/
def initText : Option Expr → String
  | some value => " = " ++ value.text
  | none => ""

/-- A line at a depth of two spaces a level. -/
def indented (depth : Nat) (text : String) : String :=
  String.ofList (List.replicate (2 * depth) ' ') ++ text

/-- A head with the lines of its body between braces; an empty body stays on the line. -/
def braced (depth : Nat) (head : String) (empty : Bool) (inner : List String) : List String :=
  if empty then [indented depth (head ++ " \x7b\x7d")]
  else indented depth (head ++ " \x7b") :: inner ++ [indented depth "\x7d"]

namespace ClassHead

def text (head : ClassHead) : String :=
  exportMark head.exported ++ "class " ++ head.name ++
    (match head.base with
     | some base => " extends " ++ base
     | none => "")

end ClassHead

def FunctionHead.text (head : FunctionHead) : String :=
  exportMark head.exported ++ "function " ++ head.name ++ "(" ++ paramNames head.params ++ ")"

def MethodHead.text (head : MethodHead) : String :=
  staticMark head.isStatic ++ head.name ++ "(" ++ paramNames head.params ++ ")"

def PropertyDecl.line (decl : PropertyDecl) : String :=
  staticMark decl.isStatic ++ decl.name ++ initText decl.init ++ ";"

def VariableDecl.line (decl : VariableDecl) : String :=
  exportMark decl.exported ++ decl.kind.keyword ++ " " ++ decl.name ++ initText decl.init ++ ";"

mutual

def Statement.lines (depth : Nat) : Statement → List String
  | .importDecl decl => if decl.typeOnly then [] else [indented depth decl.line]
  | .classDecl head members =>
      braced depth head.text members.isEmpty (ClassMember.linesOf (depth + 1) members)
  | .interfaceDecl _ => []
  | .aliasDecl _ => []
  | .functionDecl head body =>
      braced depth head.text body.isEmpty (Statement.linesOf (depth + 1) body)
  | .variableDecl decl => [indented depth decl.line]
  | .expression value => [indented depth (value.text ++ ";")]
  | .returned none => [indented depth "return;"]
  | .returned (some value) => [indented depth ("return " ++ value.text ++ ";")]

def Statement.linesOf (depth : Nat) : List Statement → List String
  | [] => []
  | s :: rest => s.lines depth ++ Statement.linesOf depth rest

def ClassMember.lines (depth : Nat) : ClassMember → List String
  | .constructorDecl params body =>
      braced depth ("constructor(" ++ paramNames params ++ ")") body.isEmpty
        (Statement.linesOf (depth + 1) body)
  | .method head body => braced depth head.text body.isEmpty (Statement.linesOf (depth + 1) body)
  | .property decl => [indented depth decl.line]
  | .getter head body =>
      braced depth ("get " ++ head.name ++ "()") body.isEmpty (Statement.linesOf (depth + 1) body)
  | .setter head body =>
      braced depth ("set " ++ head.name ++ "(" ++ paramNames head.params ++ ")") body.isEmpty
        (Statement.linesOf (depth + 1) body)

def ClassMember.linesOf (depth : Nat) : List ClassMember → List String
  | [] => []
  | m :: rest => m.lines depth ++ ClassMember.linesOf depth rest

end

/-- The text of a unit: its lines, each with a line break. -/
def SourceUnit.text (unit : SourceUnit) : String :=
  String.join ((Statement.linesOf 0 unit.statements).map (· ++ "\n"))

end WorkspaceBuild
