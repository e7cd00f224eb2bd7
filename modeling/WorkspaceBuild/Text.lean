/-! # Text

Small questions about text, answered on its characters: how it begins and ends, where it is cut,
and what counts as blank. Positions never appear, so each answer is a fact about a list.
-/

namespace WorkspaceBuild.Text

/-- The characters after a given beginning, when the list begins that way. -/
def dropStartChars? : List Char → List Char → Option (List Char)
  | [], rest => some rest
  | _ :: _, [] => none
  | c :: start, d :: rest => if c = d then dropStartChars? start rest else none

def dropStart? (text start : String) : Option String :=
  (dropStartChars? start.toList text.toList).map String.ofList

def dropEnd? (text ending : String) : Option String :=
  (dropStartChars? ending.toList.reverse text.toList.reverse).map fun rest =>
    String.ofList rest.reverse

def beginsWith (text start : String) : Bool := (dropStart? text start).isSome

def endsWith (text ending : String) : Bool := (dropEnd? text ending).isSome

/-- Whether a text occurs anywhere in a list of characters. -/
def occursIn (part : List Char) : List Char → Bool
  | [] => part.isEmpty
  | c :: rest => (dropStartChars? part (c :: rest)).isSome || occursIn part rest

def contains (text part : String) : Bool := occursIn part.toList text.toList

/-- The pieces between the occurrences of a separator; a text without one is its only piece. -/
def pieces (separator : Char) (text : String) : List String :=
  (text.toList.splitOn separator).map String.ofList

/-- The text with pieces set between a separator. -/
def joined (separator : String) (parts : List String) : String :=
  String.ofList (separator.toList.intercalate (parts.map String.toList))

/-- Cut at the first occurrence of a separator, which belongs to neither side. -/
def cutChars? (separator : Char) : List Char → Option (List Char × List Char)
  | [] => none
  | c :: rest =>
      if c = separator then some ([], rest)
      else (cutChars? separator rest).map fun (before, after) => (c :: before, after)

/-- Cut at the first occurrence of a separator. -/
def cut? (separator : Char) (text : String) : Option (String × String) :=
  (cutChars? separator text.toList).map fun (before, after) =>
    (String.ofList before, String.ofList after)

/-- Cut at the last occurrence of a separator. -/
def cutLast? (separator : Char) (text : String) : Option (String × String) :=
  (cutChars? separator text.toList.reverse).map fun (after, before) =>
    (String.ofList before.reverse, String.ofList after.reverse)

def isBlank (c : Char) : Bool :=
  let n := c.toNat
  (9 ≤ n && n ≤ 13) || n = 0x20 || n = 0x85 || n = 0xA0 || n = 0x1680 ||
    (0x2000 ≤ n && n ≤ 0x200A) || n = 0x2028 || n = 0x2029 || n = 0x202F || n = 0x205F || n = 0x3000

def trimmed (text : String) : String :=
  String.ofList (((text.toList.dropWhile isBlank).reverse.dropWhile isBlank).reverse)

/-- Remove a beginning as long as it is there. Each removal shortens the text, so as many rounds
as there are characters are enough. -/
def dropRepeated (start : List Char) : Nat → List Char → List Char
  | 0, text => text
  | rounds + 1, text =>
      match dropStartChars? start text with
      | some rest => if start.isEmpty then text else dropRepeated start rounds rest
      | none => text

/-- The text after all repetitions of a beginning. -/
def trimStart (text start : String) : String :=
  String.ofList (dropRepeated start.toList text.length text.toList)

/-- The text before all repetitions of a last character. -/
def trimEnd (text : String) (last : Char) : String :=
  String.ofList ((text.toList.reverse.dropWhile (· = last)).reverse)

def ofNat (n : Nat) : String := n.repr

/-- The text of a list of names, as `a, b, c`. -/
def listed (names : List String) : String := joined ", " names

end WorkspaceBuild.Text
