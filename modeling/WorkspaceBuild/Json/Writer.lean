import WorkspaceBuild.Json

/-! # Writing JSON

Two layouts of one value: without any white space, and with two spaces of indentation a level and
each part on a line of its own.
-/

namespace WorkspaceBuild.Json

def hexChar (n : Nat) : Char := if n < 10 then Char.ofNat (48 + n) else Char.ofNat (87 + n)

/-- A character as it stands between quotes: quotes, backslashes and control characters are
escaped, with a letter where there is one. -/
def escape (c : Char) : List Char :=
  match c with
  | '"' => ['\\', '"']
  | '\\' => ['\\', '\\']
  | '\x08' => ['\\', 'b']
  | '\x0c' => ['\\', 'f']
  | '\n' => ['\\', 'n']
  | '\r' => ['\\', 'r']
  | '\t' => ['\\', 't']
  | c =>
      if c.toNat < 0x20 then ['\\', 'u', '0', '0', hexChar (c.toNat / 16), hexChar (c.toNat % 16)]
      else [c]

def quoteChars (text : String) : List Char := '"' :: text.toList.flatMap escape ++ ['"']

def quote (text : String) : String := String.ofList (quoteChars text)

/-- A double with a point, so that it reads back as a double. -/
def realText (value : Double) : String :=
  let text := value.text
  if text.toList.contains '.' then text else text ++ ".0"

def leafChars : Json → List Char
  | .bool true => "true".toList
  | .bool false => "false".toList
  | .whole n => n.repr.toList
  | .real value => (realText value).toList
  | .string text => quoteChars text
  | _ => "null".toList

mutual

def compactChars : Json → List Char
  | .array items => '[' :: compactItems items ++ [']']
  | .object members => '{' :: compactMembers members ++ ['}']
  | leaf => leafChars leaf

def compactItems : List Json → List Char
  | [] => []
  | [item] => compactChars item
  | item :: rest => compactChars item ++ ',' :: compactItems rest

def compactMembers : List (String × Json) → List Char
  | [] => []
  | [(name, value)] => quoteChars name ++ ':' :: compactChars value
  | (name, value) :: rest =>
      quoteChars name ++ ':' :: compactChars value ++ ',' :: compactMembers rest

end

def compact (value : Json) : String := String.ofList value.compactChars

def lineBreak (depth : Nat) : List Char := '\n' :: List.replicate (2 * depth) ' '

mutual

/-- The value with each part on its own line, at a depth of indentation. -/
def prettyChars (depth : Nat) : Json → List Char
  | .array [] => ['[', ']']
  | .array items => '[' :: prettyItems (depth + 1) items ++ lineBreak depth ++ [']']
  | .object [] => ['{', '}']
  | .object members => '{' :: prettyMembers (depth + 1) members ++ lineBreak depth ++ ['}']
  | leaf => leafChars leaf

def prettyItems (depth : Nat) : List Json → List Char
  | [] => []
  | [item] => lineBreak depth ++ prettyChars depth item
  | item :: rest => lineBreak depth ++ prettyChars depth item ++ ',' :: prettyItems depth rest

def prettyMembers (depth : Nat) : List (String × Json) → List Char
  | [] => []
  | [(name, value)] => lineBreak depth ++ quoteChars name ++ ':' :: ' ' :: prettyChars depth value
  | (name, value) :: rest =>
      lineBreak depth ++ quoteChars name ++ ':' :: ' ' :: prettyChars depth value ++
        ',' :: prettyMembers depth rest

end

/-- The value with each part on its own line. -/
def pretty (value : Json) : String := String.ofList (value.prettyChars 0)

end WorkspaceBuild.Json
