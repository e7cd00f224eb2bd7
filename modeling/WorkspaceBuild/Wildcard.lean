import WorkspaceBuild.Disk

/-! # Wildcards

Patterns of paths. `*`, `?` and classes such as `[a-z]` and `[!a]` stand for characters inside one
component, and `**` for any number of whole components. What starts with a dot has to be written
with that dot.
-/

namespace WorkspaceBuild

namespace Wildcard

/-- What a pattern is made of. -/
inductive Token where
  | char (c : Char)
  | anyChar
  /-- A class: a character of one of the ranges, or of none when it is negated. -/
  | oneOf (negated : Bool) (ranges : List (Char × Char))
  /-- `*`: any characters inside one component. -/
  | anyText
  /-- `**`: any number of whole components. -/
  | anyDepth
  deriving DecidableEq, Inhabited, Repr

/-- The ranges between the brackets of a class; a character alone is a range of one. -/
def ranges : List Char → List (Char × Char)
  | a :: '-' :: b :: rest => (a, b) :: ranges rest
  | a :: rest => (a, a) :: ranges rest
  | [] => []

/-- A class behind its opening bracket, with what follows it. The first character of a class may be
a closing bracket. -/
def readClass? : List Char → Option (Token × List Char)
  | '!' :: c :: rest => (Text.cutChars? ']' rest).map fun (inside, after) =>
      (.oneOf true (ranges (c :: inside)), after)
  | ['!'] => none
  | c :: rest => (Text.cutChars? ']' rest).map fun (inside, after) =>
      (.oneOf false (ranges (c :: inside)), after)
  | [] => none

/-- The tokens of a pattern, of which a component starts here if asked for. Each token takes at
least one character, so as many rounds as there are characters are enough. -/
def readTokens? : Nat → Bool → List Char → Option (List Token)
  | _, _, [] => some []
  | 0, _, _ :: _ => none
  | _ + 1, _, '*' :: '*' :: '*' :: _ => none
  | rounds + 1, starts, '*' :: '*' :: rest =>
      match starts, rest with
      | true, [] => some [.anyDepth]
      | true, '/' :: rest => (readTokens? rounds true rest).map (.anyDepth :: ·)
      | _, _ => none
  | rounds + 1, _, '*' :: rest => (readTokens? rounds false rest).map (.anyText :: ·)
  | rounds + 1, _, '?' :: rest => (readTokens? rounds false rest).map (.anyChar :: ·)
  | rounds + 1, _, '[' :: rest =>
      match readClass? rest with
      | some (token, rest) => (readTokens? rounds false rest).map (token :: ·)
      | none => none
  | rounds + 1, _, c :: rest => (readTokens? rounds (c = '/') rest).map (.char c :: ·)

/-- The tokens of a pattern; none when it is not well formed. -/
def parse? (pattern : String) : Option (List Token) :=
  readTokens? pattern.length true pattern.toList

/-- Whether a token for one character stands for a given one, where a component starts if asked. A
slash, and a dot at the start, have to be written. -/
def Token.covers (starts : Bool) (c : Char) : Token → Bool
  | .char d => c = d
  | .anyChar => c ≠ '/' && !(starts && c = '.')
  | .oneOf negated ranges =>
      c ≠ '/' && !(starts && c = '.') && ranges.any (fun (a, b) => a ≤ c && c ≤ b) != negated
  | .anyText | .anyDepth => false

/-- Pass any characters inside one component, then go on. -/
def passText (next : Bool → List Char → Bool) : Bool → List Char → Bool
  | starts, [] => next starts []
  | starts, c :: text =>
      next starts (c :: text) || (c ≠ '/' && !(starts && c = '.') && passText next false text)

/-- Pass any number of whole components, then go on. What is left at the end of the text may be
part of the last one. -/
def passComponents (next : Bool → List Char → Bool) : Bool → List Char → Bool
  | starts, [] => next starts []
  | starts, c :: text =>
      (starts && next true (c :: text)) ||
        (!(starts && c = '.') && passComponents next (c = '/') text)

/-- Whether tokens stand for all of a text, at whose beginning a component starts if asked. -/
def matchesFrom : List Token → Bool → List Char → Bool
  | [], _, text => text.isEmpty
  | .anyText :: rest, starts, text => passText (matchesFrom rest) starts text
  | .anyDepth :: rest, starts, text => passComponents (matchesFrom rest) starts text
  | token :: rest, starts, text =>
      match text with
      | [] => false
      | c :: text => token.covers starts c && matchesFrom rest (c = '/') text

def covers (tokens : List Token) (text : String) : Bool := matchesFrom tokens true text.toList

/-- The pattern that stands for a text alone. -/
def escape (text : String) : String :=
  String.ofList (text.toList.flatMap fun c =>
    if c = '?' || c = '*' || c = '[' || c = ']' then ['[', c, ']'] else [c])

/-- The character of a token that stands for itself. -/
def Token.literal? : Token → Option Char
  | .char c => some c
  | _ => none

/-- The text that tokens spell, when each stands for itself. -/
def literal? (tokens : List Token) : Option String :=
  (tokens.mapM Token.literal?).map String.ofList

/-- Names that a pattern can only mean by writing their dot. -/
def isHidden (name : String) : Bool := Text.beginsWith name "."

mutual

/-- The folders of an item that are not hidden, at any depth, with their paths. -/
def foldersOf (path : Path) : Item → List Path
  | .file .. => []
  | .folder entries _ => path :: foldersIn path entries

/-- The folders among items that are not hidden, and those below them. -/
def foldersIn (path : Path) : List (String × Item) → List Path
  | [] => []
  | (name, item) :: rest =>
      (if isHidden name then [] else foldersOf (path.join name) item) ++ foldersIn path rest

end

/-- The folders at a path and below it. -/
def foldersBelow (disk : Disk) (path : Path) : List Path :=
  ((disk.item path).toOption.map (foldersOf path)).getD []

/-- The folders in a folder whose names tokens stand for. -/
def foldersNamed (disk : Disk) (tokens : List Token) (path : Path) : List Path :=
  match disk.item path with
  | .ok (.folder entries _) =>
      (entries.filter fun (name, item) =>
        item.isFolder && !isHidden name && covers tokens name).map fun (name, _) => path.join name
  | _ => []

/-- Whether a component means the folder it stands in or the one above. -/
def isSpecial (name : String) : Bool := name = "." || name = ".."

def stepWritten (disk : Disk) (name : String) (path : Path) : List Path :=
  let next := path.join name
  if (isSpecial name && disk.isFolder path) || (!isSpecial name && disk.exists? next) then [next]
  else []

/-- The special components that tokens with a written dot at the start stand for. -/
def stepSpecial (tokens : List Token) (path : Path) : List Path :=
  if tokens.head? = some (.char '.') then ([".", ".."].filter (covers tokens)).map path.join
  else []

/-- One component further, when it is not `**`. -/
def step (disk : Disk) (tokens : List Token) (path : Path) : List Path :=
  match literal? tokens with
  | some name => stepWritten disk name path
  | none =>
      if disk.isFolder path then foldersNamed disk tokens path ++ stepSpecial tokens path else []

/-- The folders that the components of a pattern lead to. A component behind `**` is only looked
for among names, also when it is written out. -/
def follow (disk : Disk) : Bool → List (List Token) → Path → List Path
  | false, [], path => if disk.isFolder path then [path] else []
  | true, [], path => (foldersBelow disk path).tail
  | deep, tokens :: rest, path =>
      if tokens = [.anyDepth] then follow disk true rest path
      else if deep then
        ((foldersBelow disk path).flatMap (foldersNamed disk tokens)).flatMap
          (follow disk false rest)
      else (step disk tokens path).flatMap (follow disk false rest)

/-- The components of a pattern that starts at the root; the last slash ends nothing. -/
def components (pattern : String) : List String :=
  let pieces := (Text.pieces '/' pattern).tail
  if pieces.getLast? = some "" then pieces.dropLast else pieces

/-- The folders that a pattern stands for; none when it is not well formed. -/
def folders? (disk : Disk) (pattern : String) : Option (List Path) := do
  let components ← (components pattern).mapM parse?
  return follow disk false components ⟨"/"⟩

end Wildcard

end WorkspaceBuild
