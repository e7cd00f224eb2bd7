import WorkspaceBuild.Types.Table

/-! # What the checker knows of a unit

Annotations that decorators stand for, the type table, and which imported names exist at run time.
-/

namespace WorkspaceBuild

/-- An annotation's name within its module. -/
structure AnnotationKey where
  moduleName : String
  name : String
  deriving DecidableEq, Inhabited, Repr

def AnnotationKey.text (key : AnnotationKey) : String := key.moduleName ++ "#" ++ key.name

/-- A decorator resolved to its declaration, with the plugin targets it declares. -/
structure AnnotationUse where
  key : AnnotationKey
  targets : List AnnotationKey
  deriving DecidableEq, Inhabited, Repr

/-- Whether an annotation asks for one of several targets. -/
def AnnotationUse.targetsAny (a : AnnotationUse) (keys : List AnnotationKey) : Bool :=
  a.targets.any (keys.contains ·)

/-- What a build needs from the checker. -/
structure SemanticModel where
  types : TypeTable
  /-- The annotation a decorator of a unit stands for. -/
  annotationOf : Path → Decorator → Option AnnotationUse
  /-- Whether a name imported from a specifier exists at run time. -/
  bindingHasValue : Path → String → String → Bool

namespace SemanticModel

/-- A model that knows annotations by the name of the decorator and lists the names that are only
types. -/
def ofTables (types : TypeTable) (annotations : List (String × AnnotationUse))
    (typeOnly : List (String × String)) : SemanticModel :=
  ⟨types, fun _ decorator => annotations.lookup decorator.name,
    fun _ specifier name => !typeOnly.contains (specifier, name)⟩

def annotations (model : SemanticModel) (path : Path) (decorators : List Decorator) :
    List AnnotationUse := decorators.filterMap (model.annotationOf path)

end SemanticModel

end WorkspaceBuild
