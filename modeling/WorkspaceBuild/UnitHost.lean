import WorkspaceBuild.Dispatch
import WorkspaceBuild.SourceUnit.Decode

/-! # Compiler hosts

A host parses the sources of a build and knows what the checker knows of them. One such host hands out
units that were parsed ahead of time.
-/

namespace WorkspaceBuild

/-- What a build asks of a compiler. -/
structure CompilerHost where
  /-- Parse the unit at a path, given its text. -/
  parse : Path → String → Except TransformError SourceUnit
  /-- The semantic model of all units that it parses. -/
  semantic : SemanticModel

/-- Units by path, with one semantic model for all. -/
structure UnitHost where
  /-- The units; of two with the same path the later one counts. -/
  units : List SourceUnit
  semantic : SemanticModel

namespace UnitHost

/-- Put a unit in, in place of one with the same path. -/
def insert (host : UnitHost) (unit : SourceUnit) : UnitHost :=
  { host with units := host.units.filter (!·.path.same unit.path) ++ [unit] }

/-- Put a unit in whose statements are given as JSON. -/
def insertText (host : UnitHost) (path : Path) (text : String) :
    Except TransformError UnitHost :=
  match Statement.listOfText? text with
  | some statements => .ok (host.insert ⟨path, statements⟩)
  | none => .error (.parse path)

def parse (host : UnitHost) (path : Path) : Except TransformError SourceUnit :=
  match host.units.find? (·.path.same path) with
  | some unit => .ok unit
  | none => .error (.unitNotFound path)

/-- The host that hands out the units, whatever the text that is read. -/
def compiler (host : UnitHost) : CompilerHost := ⟨fun path _ => host.parse path, host.semantic⟩

end UnitHost

end WorkspaceBuild
