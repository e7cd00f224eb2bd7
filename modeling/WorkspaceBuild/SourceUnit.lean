import WorkspaceBuild.Double
import WorkspaceBuild.Path

/-! # Source units

The tree of one source file: the part of the source language that a build works on. Annotations of
types carry the id that the checker gave to the type.
-/

namespace WorkspaceBuild

/-- Place of a type in the checker's table. -/
abbrev TypeId := Nat

/-- A literal value. -/
inductive Literal where
  | string (text : String)
  | number (value : Double)
  | bool (value : Bool)
  | null
  | undefined
  deriving DecidableEq, Inhabited, Repr

/-- An expression. -/
inductive Expr where
  | ident (name : String)
  | literal (value : Literal)
  | call (callee : Expr) (args : List Expr)
  | member (object : Expr) (property : String)
  /-- An object with its fields in order. -/
  | object (fields : List (String × Expr))
  | array (items : List Expr)
  deriving Inhabited, Repr, BEq

/-- A decorator written on a declaration. -/
structure Decorator where
  name : String
  args : List Expr := []
  deriving Inhabited, Repr, BEq

/-- A type as written, with the checker's type when it is known. -/
structure WrittenType where
  text : String
  id : Option TypeId
  deriving DecidableEq, Inhabited, Repr

/-- A name taken from an import: `imported as local`. The imported name is `default` or `*` for
default and namespace imports. -/
structure ImportBinding where
  imported : String
  localName : String
  deriving DecidableEq, Inhabited, Repr

/-- An import declaration. -/
structure ImportDecl where
  specifier : String
  /-- The names taken; an import without names is made for its effects. -/
  bindings : List ImportBinding
  typeOnly : Bool := false
  deriving DecidableEq, Inhabited, Repr

/-- A parameter. -/
structure Param where
  name : String
  decorators : List Decorator := []
  type : Option WrittenType := none
  deriving Inhabited, Repr, BEq

/-- What a class says before its members. -/
structure ClassHead where
  name : String
  exported : Bool
  decorators : List Decorator
  base : Option String
  deriving Inhabited, Repr, BEq

/-- What a function says before its body. -/
structure FunctionHead where
  name : String
  exported : Bool
  params : List Param
  deriving Inhabited, Repr, BEq

/-- What a method says before its body. -/
structure MethodHead where
  name : String
  /-- Whether it belongs to the class itself. -/
  isStatic : Bool
  decorators : List Decorator
  params : List Param
  returnType : Option WrittenType
  deriving Inhabited, Repr, BEq

/-- What a getter or setter says before its body. -/
structure AccessorHead where
  name : String
  decorators : List Decorator
  /-- Its parameters; a setter has one. -/
  params : List Param
  deriving Inhabited, Repr, BEq

/-- A property of a class. -/
structure PropertyDecl where
  name : String
  /-- Whether it belongs to the class itself. -/
  isStatic : Bool
  decorators : List Decorator
  type : Option WrittenType
  init : Option Expr
  deriving Inhabited, Repr, BEq

/-- An interface or a type alias. -/
structure TypeDecl where
  name : String
  exported : Bool
  type : Option TypeId
  deriving DecidableEq, Inhabited, Repr

/-- How a variable is declared. -/
inductive VariableKind where
  | const
  | let
  deriving DecidableEq, Inhabited, Repr

def VariableKind.keyword : VariableKind → String
  | .const => "const"
  | .let => "let"

/-- A variable. -/
structure VariableDecl where
  kind : VariableKind
  name : String
  exported : Bool
  type : Option WrittenType
  init : Option Expr
  deriving Inhabited, Repr, BEq

mutual

/-- A statement. -/
inductive Statement where
  | importDecl (decl : ImportDecl)
  | classDecl (head : ClassHead) (members : List ClassMember)
  | interfaceDecl (decl : TypeDecl)
  | aliasDecl (decl : TypeDecl)
  | functionDecl (head : FunctionHead) (body : List Statement)
  | variableDecl (decl : VariableDecl)
  | expression (value : Expr)
  /-- The end of a function, with a value or without. -/
  | returned (value : Option Expr)
  deriving Inhabited, Repr, BEq

/-- A member of a class. -/
inductive ClassMember where
  | constructorDecl (params : List Param) (body : List Statement)
  | method (head : MethodHead) (body : List Statement)
  | property (decl : PropertyDecl)
  | getter (head : AccessorHead) (body : List Statement)
  | setter (head : AccessorHead) (body : List Statement)
  deriving Inhabited, Repr, BEq

end

/-- One source file. -/
structure SourceUnit where
  path : Path
  statements : List Statement
  deriving Inhabited, Repr

namespace Expr

mutual

def depth : Expr → Nat
  | .call callee args => max callee.depth (depths args) + 1
  | .member target _ => target.depth + 1
  | .object fields => fieldDepths fields + 1
  | .array items => depths items + 1
  | _ => 1

/-- How deep the deepest of several expressions nests. -/
def depths : List Expr → Nat
  | [] => 0
  | e :: rest => max e.depth (depths rest)

/-- How deep the deepest value of several fields nests. -/
def fieldDepths : List (String × Expr) → Nat
  | [] => 0
  | (_, e) :: rest => max e.depth (fieldDepths rest)

end

end Expr

mutual

def Statement.depth : Statement → Nat
  | .classDecl _ members => ClassMember.depths members + 1
  | .functionDecl _ body => Statement.depths body + 1
  | _ => 1

/-- How deep the deepest of several statements nests. -/
def Statement.depths : List Statement → Nat
  | [] => 0
  | s :: rest => max s.depth (Statement.depths rest)

def ClassMember.depth : ClassMember → Nat
  | .constructorDecl _ body => Statement.depths body
  | .method _ body => Statement.depths body
  | .getter _ body => Statement.depths body
  | .setter _ body => Statement.depths body
  | .property _ => 0

/-- How deep the deepest of several class members nests. -/
def ClassMember.depths : List ClassMember → Nat
  | [] => 0
  | m :: rest => max m.depth (ClassMember.depths rest)

end

/-- A short name for the kind of a statement. -/
def Statement.kindName : Statement → String
  | .importDecl _ => "import"
  | .classDecl .. => "class"
  | .interfaceDecl _ => "interface"
  | .aliasDecl _ => "type alias"
  | .functionDecl .. => "function"
  | .variableDecl _ => "variable"
  | .expression _ => "expression statement"
  | .returned _ => "return"

/-- A short name for the kind of a class member. -/
def ClassMember.kindName : ClassMember → String
  | .constructorDecl .. => "constructor"
  | .method .. => "method"
  | .property _ => "property"
  | .getter .. => "getter"
  | .setter .. => "setter"

def ClassMember.decorators : ClassMember → List Decorator
  | .constructorDecl .. => []
  | .method head _ => head.decorators
  | .property decl => decl.decorators
  | .getter head _ => head.decorators
  | .setter head _ => head.decorators

/-- The names of the methods among the members of a class, static ones included. -/
def ClassMember.methodNames (members : List ClassMember) : List String :=
  members.filterMap fun
    | .method head _ => some head.name
    | _ => none

def SourceUnit.imports (unit : SourceUnit) : List ImportDecl :=
  unit.statements.filterMap fun
    | .importDecl decl => some decl
    | _ => none

end WorkspaceBuild
