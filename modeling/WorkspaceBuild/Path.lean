import WorkspaceBuild.Text

/-! # Paths

A path is kept as the text it was written as, and compared by its components: repeated slashes,
`.` inside a path and a slash at the end say nothing, while `..` is never folded by comparing.
-/

namespace WorkspaceBuild

/-- A path as it was written. -/
structure Path where
  /-- The text, never changed by comparing or joining. -/
  text : String
  deriving DecidableEq, Inhabited, Repr

namespace Path

/-- What a path is made of. -/
inductive Component where
  /-- The slash an absolute path starts with. -/
  | root
  /-- A `.` at the start of a relative path. -/
  | current
  | parent
  | name (text : String)
  deriving DecidableEq, Inhabited, Repr

namespace Component

def text : Component → String
  | .root => "/"
  | .current => "."
  | .parent => ".."
  | .name text => text

/-- Place of a component's kind in the order of paths. -/
def rank : Component → Nat
  | .root => 0
  | .current => 1
  | .parent => 2
  | .name _ => 3

/-- Components are ordered by kind, names by their characters. -/
def precedes (a b : Component) : Bool :=
  match a, b with
  | .name x, .name y => x < y
  | _, _ => a.rank < b.rank

end Component

def isVoid (piece : String) : Bool := piece = "" || piece = "."

/-- The component that a piece inside a path stands for. -/
def componentOf (piece : String) : Option Component :=
  if isVoid piece then none
  else if piece = ".." then some .parent
  else some (.name piece)

def isAbsolute (p : Path) : Bool :=
  match p.text.toList with
  | '/' :: _ => true
  | _ => false

/-- The leading marks of a path with its further pieces: the root, or a `.` at the start. -/
def marked (p : Path) : List Component × List String :=
  match Text.pieces '/' p.text with
  | [] => ([], [])
  | first :: rest =>
      if p.isAbsolute then ([.root], rest)
      else if first = "." then ([.current], rest)
      else ([], first :: rest)

def components (p : Path) : List Component :=
  p.marked.1 ++ p.marked.2.filterMap componentOf

/-- Paths are the same when their components are. -/
def same (p q : Path) : Bool := p.components = q.components

/-- Whether components come earlier in the order of paths. -/
def componentsPrecede : List Component → List Component → Bool
  | [], [] => false
  | [], _ :: _ => true
  | _ :: _, [] => false
  | a :: as, b :: bs => if a = b then componentsPrecede as bs else a.precedes b

def precedes (p q : Path) : Bool := componentsPrecede p.components q.components

/-- Whether a path lies at or below another. -/
def startsWith (p base : Path) : Bool := base.components.isPrefixOf p.components

/-- A path below another. An absolute path replaces the base; otherwise the text is appended after
a slash, which is not doubled. -/
def join (p : Path) (further : String) : Path :=
  if isAbsolute ⟨further⟩ then ⟨further⟩
  else if p.text = "" || Text.endsWith p.text "/" then ⟨p.text ++ further⟩
  else ⟨p.text ++ "/" ++ further⟩

/-- Write marks and pieces as a path again. -/
def ofMarked (marks : List Component) (rest : List String) : Path :=
  match marks with
  | [.root] => ⟨"/" ++ Text.joined "/" rest⟩
  | [.current] => ⟨Text.joined "/" ("." :: rest)⟩
  | _ => ⟨Text.joined "/" rest⟩

/-- The pieces up to the last one that says something. -/
def dropVoidEnd (parts : List String) : List String :=
  (parts.reverse.dropWhile isVoid).reverse

/-- The path of the folder that holds a path; none for the root and for the empty path. -/
def parent? (p : Path) : Option Path :=
  let (marks, rest) := p.marked
  match rest.reverse.dropWhile isVoid with
  | _ :: more => some (ofMarked marks (dropVoidEnd more.reverse))
  | [] => if marks = [.current] then some ⟨""⟩ else none

/-- The parents of a path, nearest first, at most as many as allowed. -/
def parents : Nat → Path → List Path
  | 0, _ => []
  | count + 1, p =>
      match p.parent? with
      | some q => q :: parents count q
      | none => []

/-- The path and everything above it, nearest first. Each parent has one component less. -/
def ancestors (p : Path) : List Path := p :: parents p.components.length p

/-- The last component, when it is a name. -/
def fileName? (p : Path) : Option String :=
  match p.components.getLast? with
  | some (.name text) => some text
  | _ => none

/-- The part of a name after its last dot; a name that only starts with a dot has none. -/
def extensionOf? (name : String) : Option String :=
  match Text.cutLast? '.' name with
  | some (stem, ending) => if stem = "" then none else some ending
  | none => none

/-- The extension of the file a path names. -/
def extension? (p : Path) : Option String := p.fileName?.bind extensionOf?

/-- The pieces left when some components have been passed. -/
def dropPieces : Nat → List String → List String
  | _, [] => []
  | 0, rest => rest
  | count + 1, piece :: rest =>
      if isVoid piece then dropPieces (count + 1) rest else dropPieces count rest

/-- The path seen from a folder it lies in, in the text it was written in. -/
def below? (p base : Path) : Option Path :=
  if p.startsWith base then
    let (marks, rest) := p.marked
    let passed := base.components.length
    if passed = 0 then some (ofMarked marks (dropVoidEnd rest))
    else
      let left := dropPieces (passed - marks.length) rest
      some ⟨Text.joined "/" (dropVoidEnd (left.dropWhile isVoid))⟩
  else none

def spelled (p : Path) : String := Text.joined "/" (p.components.map Component.text)

/-- Add one component to folded ones: `.` says nothing, and `..` takes the last one away. At the
start of a relative path, and at the root, a `..` that has nothing to take away is kept. A kept `..`
is taken away by the next one like a name. -/
def fold (done : List Component) (c : Component) : List Component :=
  match c with
  | .current => done
  | .parent =>
      match done with
      | [] => [.parent]
      | [.root] => [.parent, .root]
      | _ :: before => before
  | .root => [.root]
  | .name text => .name text :: done

/-- The path of components: the root is a slash, others stand between slashes. -/
def ofComponents : List Component → Path
  | .root :: rest => ⟨"/" ++ Text.joined "/" (rest.map Component.text)⟩
  | all => ⟨Text.joined "/" (all.map Component.text)⟩

/-- The path with `.` and `..` folded by text alone. -/
def normalize (p : Path) : Path := ofComponents (p.components.foldl fold []).reverse

/-- The order of paths, as the "not after" that sorting takes. -/
def notAfter (p q : Path) : Bool := !q.precedes p

def sortedDistinct (paths : List Path) : List Path :=
  (paths.mergeSort notAfter).foldr (fun p rest =>
    match rest with
    | q :: _ => if p.same q then p :: rest.tail else p :: rest
    | [] => [p]) []

end Path

end WorkspaceBuild
