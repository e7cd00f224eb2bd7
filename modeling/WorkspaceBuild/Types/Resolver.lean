import WorkspaceBuild.Assoc
import WorkspaceBuild.References
import WorkspaceBuild.Types.Resolved
import WorkspaceBuild.Types.Table

/-! # Resolving types

A type of the table becomes a description. A shape or class met again inside its own description
becomes a pointer, so that cyclic tables end; nesting is limited besides.
-/

namespace WorkspaceBuild

/-- Why a type could not be resolved. -/
inductive ResolveError where
  | tooNested (limit : Nat)
  /-- An id is not in the table. -/
  | unknownType (id : TypeId)
  /-- A type that needs a symbol has none. -/
  | missingSymbol (name : String)
  deriving DecidableEq, Inhabited, Repr

/-- The text of a failure to resolve a type. -/
def ResolveError.message : ResolveError → String
  | .tooNested limit => "Type nesting exceeds " ++ Text.ofNat limit ++ " levels"
  | .unknownType id => "Unknown type id " ++ Text.ofNat id
  | .missingSymbol name => "Type '" ++ name ++ "' has no symbol"

namespace TypeResolver

def maxDepth : Nat := 20

/-- The shapes and classes described so far, and the next number to hand out. -/
structure Visited where
  /-- Number and name of each described type. -/
  seen : List (TypeId × Nat × Option String) := []
  nextRef : Nat := 0
  deriving Inhabited, Repr

namespace Visited

/-- A pointer to a type that has been described. -/
def pointer? (visited : Visited) (id : TypeId) : Option ResolvedType :=
  (visited.seen.lookup id).map fun (refId, name) => .pointer refId name

def remember (visited : Visited) (id : TypeId) (name : Option String) : Nat × Visited :=
  (visited.nextRef, ⟨(id, visited.nextRef, name) :: visited.seen, visited.nextRef + 1⟩)

/-- Hand out a number that no type is known by. -/
def fresh (visited : Visited) : Nat × Visited :=
  (visited.nextRef, { visited with nextRef := visited.nextRef + 1 })

end Visited

/-- A resolution on its way: it may fail, and it remembers what has been described. -/
abbrev Resolution (α : Type) := Visited → Except ResolveError (α × Visited)

/-- What types are looked up in. -/
structure Scope where
  types : TypeTable
  references : References

/-- The name of a primitive type without a name of its own. -/
def primitiveName (flags : Flags) : String :=
  if flags.meets (.all [TypeFlag.string, TypeFlag.stringLiteral]) then "string"
  else if flags.meets (.all [TypeFlag.number, TypeFlag.numberLiteral, TypeFlag.enumeration]) then
    "number"
  else if flags.meets (.all [TypeFlag.boolean, TypeFlag.booleanLiteral]) then "boolean"
  else if flags.meets TypeFlag.bigint then "bigint"
  else if flags.meets TypeFlag.null then "null"
  else if flags.meets TypeFlag.undefined then "undefined"
  else if flags.meets TypeFlag.void then "void"
  else "symbol"

def patternsOf? : ResolvedType → Option (List String)
  | .template patterns => some patterns
  | _ => none

def literalName? : ResolvedType → Option String
  | .literal name .. => some name
  | _ => none

/-- The fields of a shape and whether it is mapped. -/
def shapeFields? : ResolvedType → Option (List (String × ResolvedType) × Bool)
  | .shape _ fields mapped _ => some (fields, mapped)
  | _ => none

/-- The name that all members carry, when all are literals of one name. -/
def commonName? (members : List ResolvedType) : Option String :=
  match members with
  | .literal name .. :: _ => if members.all (literalName? · = some name) then some name else none
  | _ => none

/-- One shape with the fields of several; of two fields with one name the later one stays. -/
def mergeShapes (shapes : List (List (String × ResolvedType) × Bool)) : Resolution ResolvedType :=
  fun visited =>
    let (refId, visited) := visited.fresh
    let fields := Assoc.ofPairs (shapes.flatMap Prod.fst)
    .ok (.shape none fields (shapes.any Prod.snd) refId, visited)

/-- A composition of resolved members: none is unknown, templates join, one stands for itself, and
shapes that all hold merge. -/
def compose (operator : Operator) (members : List ResolvedType) (nullable optional : Bool) :
    Resolution ResolvedType := fun visited =>
  match members with
  | [] => .ok (.unknown, visited)
  | _ =>
      match members.mapM patternsOf? with
      | some patterns => .ok (.template patterns.flatten, visited)
      | none =>
          match members with
          | [member] => .ok (member, visited)
          | _ =>
              match operator, members.mapM shapeFields? with
              | .and, some shapes => mergeShapes shapes visited
              | _, _ =>
                  .ok (.composition operator members nullable optional (commonName? members),
                    visited)

/-- The file of a symbol that is declared outside the build. -/
def foreignFile? (scope : Scope) (symbol : SymbolData) : Option Path :=
  match symbol.declaration with
  | some site =>
      if site.declarationFile && !site.defaultLibrary && (scope.references.idOf site.file).isNone
      then some site.file
      else none
  | none => none

def resolveAll (visit : TypeId → Resolution ResolvedType) :
    List TypeId → Resolution (List ResolvedType)
  | [], visited => .ok ([], visited)
  | id :: rest, visited => do
      let (first, visited) ← visit id visited
      let (others, visited) ← resolveAll visit rest visited
      return (first :: others, visited)

/-- Resolve properties one after the other into fields. -/
def resolveFields (visit : TypeId → Resolution ResolvedType) :
    List PropertyData → Assoc String ResolvedType → Resolution (Assoc String ResolvedType)
  | [], fields, visited => .ok (fields, visited)
  | property :: rest, fields, visited => do
      let (type, visited) ← visit property.type visited
      resolveFields visit rest (fields.put property.name type) visited

/-- Resolve the members of a composition: `null` and `undefined` only leave a mark. -/
def resolveMembers (scope : Scope) (visit : TypeId → Resolution ResolvedType) :
    List TypeId → Resolution (List ResolvedType × Bool × Bool)
  | [], visited => .ok (([], false, false), visited)
  | id :: rest, visited =>
      match scope.types.type? id with
      | none => .error (.unknownType id)
      | some data => do
          if data.flags.meets TypeFlag.null then
            let ((members, _, optional), visited) ← resolveMembers scope visit rest visited
            return ((members, true, optional), visited)
          else if data.flags.meets TypeFlag.undefined then
            let ((members, nullable, _), visited) ← resolveMembers scope visit rest visited
            return ((members, nullable, true), visited)
          else
            let (member, visited) ← visit id visited
            let ((members, nullable, optional), visited) ← resolveMembers scope visit rest visited
            return ((member :: members, nullable, optional), visited)

/-- A class under its name, or a pointer to it. -/
def managed (scope : Scope) (visit : TypeId → Resolution ResolvedType) (id : TypeId)
    (name : String) (symbol : SymbolData) (data : TypeData) : Resolution ResolvedType :=
  fun visited =>
    match visited.pointer? id with
    | some pointer => .ok (pointer, visited)
    | none => do
        let (refId, visited) := visited.remember id (some name)
        let moduleId := symbol.declaration.bind fun site => scope.references.idOf site.file
        let (arguments, visited) ← resolveAll visit data.typeArguments visited
        return (.managed name moduleId arguments refId, visited)

/-- An object by its fields, or a pointer to it. -/
def shape (visit : TypeId → Resolution ResolvedType) (id : TypeId) (data : TypeData)
    (mapped : Bool) : Resolution ResolvedType := fun visited =>
  match visited.pointer? id with
  | some pointer => .ok (pointer, visited)
  | none => do
      let name := (data.symbol.map SymbolData.name).or data.name
      let (refId, visited) := visited.remember id name
      let (fields, visited) ← resolveFields visit data.properties [] visited
      return (.shape name fields mapped refId, visited)

def composition (scope : Scope) (visit : TypeId → Resolution ResolvedType) (data : TypeData) :
    Resolution ResolvedType := fun visited => do
  let operator := if data.flags.meets TypeFlag.union then Operator.or else Operator.and
  let ((members, nullable, optional), visited) ←
    resolveMembers scope visit data.subTypes visited
  compose operator members nullable optional visited

/-- A type with a symbol: an alias leads on, library types keep their arguments, types from outside
are named, interfaces are shapes and classes managed. -/
def named (scope : Scope) (visit : TypeId → Resolution ResolvedType) (id : TypeId)
    (symbol : SymbolData) (data : TypeData) : Resolution ResolvedType := fun visited =>
  match symbol.aliasTarget with
  | some target => visit target visited
  | none =>
      if symbol.declaration.any DeclarationSite.defaultLibrary then do
        let (arguments, visited) ← resolveAll visit data.typeArguments visited
        return (.literal symbol.name none arguments, visited)
      else
        match foreignFile? scope symbol with
        | some file => .ok (.foreign symbol.name file, visited)
        | none =>
            if symbol.isClass then managed scope visit id symbol.name symbol data visited
            else shape visit id data false visited

def concrete (scope : Scope) (visit : TypeId → Resolution ResolvedType) (id : TypeId)
    (symbol : SymbolData) (data : TypeData) : ConcreteTag → Resolution ResolvedType
  | .target target, visited =>
      match scope.types.type? target with
      | none => .error (.unknownType target)
      | some targetData =>
          match targetData.symbol with
          | none => .error (.missingSymbol symbol.name)
          | some targetSymbol =>
              managed scope visit target targetSymbol.name targetSymbol targetData visited
  | .generated, visited =>
      managed scope visit id (symbol.name ++ "$Concrete") symbol data visited

/-- The form of a type that is no primitive, by its object flags. -/
def structured (scope : Scope) (visit : TypeId → Resolution ResolvedType) (id : TypeId)
    (data : TypeData) : Resolution ResolvedType := fun visited =>
  if data.objectFlags.meets ObjectFlag.anonymous then
    match data.symbol.bind fun symbol =>
        (foreignFile? scope symbol).map fun file => ResolvedType.foreign symbol.name file with
    | some foreign => .ok (foreign, visited)
    | none => shape visit id data false visited
  else if data.objectFlags.meets
      (.all [ObjectFlag.classType, ObjectFlag.interface, ObjectFlag.reference]) then
    match data.symbol with
    | none => .error (.missingSymbol (data.name.getD ""))
    | some symbol => named scope visit id symbol data visited
  else if data.objectFlags.meets ObjectFlag.tuple then do
    let (elements, visited) ← resolveAll visit data.typeArguments visited
    return (.tuple elements false, visited)
  else if data.objectFlags.meets ObjectFlag.objectLiteral then shape visit id data false visited
  else if data.objectFlags.meets ObjectFlag.mapped then
    shape visit id data (!data.properties.isEmpty) visited
  else .ok (.literal (data.name.getD "object") none [], visited)

/-- The form of a type that has no stated implementation and is no primitive. -/
def unmarked (scope : Scope) (visit : TypeId → Resolution ResolvedType) (id : TypeId)
    (data : TypeData) : Resolution ResolvedType := fun visited =>
  if data.flags.meets (.all [TypeFlag.any, TypeFlag.unknown, TypeFlag.never]) then
    .ok (.unknown, visited)
  else if data.objectFlags.meets ObjectFlag.array && data.symbol.isNone then
    match data.typeArguments with
    | [] => .ok (.tuple [.unknown] true, visited)
    | element :: _ => do
        let (element, visited) ← visit element visited
        return (.tuple [element] true, visited)
  else if data.flags.meets (.all [TypeFlag.union, TypeFlag.intersection]) then
    composition scope visit data visited
  else structured scope visit id data visited

/-- Resolve one type, given how the types it refers to are resolved. -/
def expand (scope : Scope) (visit : TypeId → Resolution ResolvedType) (id : TypeId) :
    Resolution ResolvedType := fun visited =>
  match scope.types.type? id with
  | none => .error (.unknownType id)
  | some data =>
      if data.flags.meets TypeFlag.templateLiteral then .ok (.template data.patterns, visited)
      else if data.flags.meets TypeFlag.primitiveLike then
        .ok (.literal (data.name.getD (primitiveName data.flags)) data.literal [], visited)
      else
        match data.symbol.bind fun symbol => symbol.concrete.map (symbol, ·) with
        | some (symbol, tag) => concrete scope visit id symbol data tag visited
        | none => unmarked scope visit id data visited

def visit (scope : Scope) : Nat → TypeId → Resolution ResolvedType
  | 0, _, _ => .error (.tooNested maxDepth)
  | levels + 1, id, visited => expand scope (visit scope levels) id visited

/-- The description of a type. Only nesting beyond the limit is an error; any other failure makes
the type a plain object. -/
def resolve (scope : Scope) (id : TypeId) : Except ResolveError ResolvedType :=
  match visit scope (maxDepth + 1) id {} with
  | .ok (type, _) => .ok type
  | .error (.tooNested limit) => .error (.tooNested limit)
  | .error _ => .ok .object

end TypeResolver

end WorkspaceBuild
