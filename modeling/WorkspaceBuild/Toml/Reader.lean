import WorkspaceBuild.Json.Reader
import WorkspaceBuild.Toml
import WorkspaceBuild.Toml.Literal

/-! # Reading TOML

A text is lines of keys with values, below headers of tables. The reader goes over the characters
once; lists inside lists are bounded by the length of the text.
-/

namespace WorkspaceBuild.Toml

/-- What is left of a text after a part of it has been read. -/
abbrev Reading (α : Type) := List Char → Option (α × List Char)

def isBlank (c : Char) : Bool := c = ' ' || c = '\t'

def skipBlanks (text : List Char) : List Char := text.dropWhile isBlank

/-- Whether a character may stand in a comment or between quotes. -/
def isPrintable (c : Char) : Bool := c = '\t' || (0x20 ≤ c.toNat && c.toNat != 0x7F)

def lineBreak? : List Char → Option (List Char)
  | '\n' :: rest => some rest
  | '\r' :: '\n' :: rest => some rest
  | _ => none

/-- The text after a comment, if there is one. -/
def skipComment (text : List Char) : List Char :=
  match text with
  | '#' :: rest => rest.dropWhile isPrintable
  | _ => text

/-- The text after the end of a line: blanks, a comment, and a line break unless it is the last. -/
def endLine? (text : List Char) : Option (List Char) :=
  match skipComment (skipBlanks text) with
  | [] => some []
  | rest => lineBreak? rest

/-- The text after blanks, comments and line breaks, in at most so many lines. -/
def skipLines : Nat → List Char → List Char
  | 0, text => text
  | lines + 1, text =>
      let text := skipBlanks text
      match lineBreak? (skipComment text) with
      | some rest => skipLines lines rest
      | none => text

/-- The text after blanks, comments and line breaks. -/
def skipSpace (text : List Char) : List Char := skipLines (text.length + 1) text

/-- The character of hexadecimal digits, if it is one. -/
def scalar? (digits : List Char) : Option Char := do
  let n ← digits.foldlM (fun n c => (Json.hexDigit? c).map (16 * n + ·)) 0
  if n < 0xD800 ∨ (0xDFFF < n ∧ n < 0x110000) then some (Char.ofNat n) else none

def escaped? : Char → Option Char
  | 'b' => some '\x08'
  | 't' => some '\t'
  | 'n' => some '\n'
  | 'f' => some '\x0c'
  | 'r' => some '\r'
  | '"' => some '"'
  | '\\' => some '\\'
  | _ => none

/-- The character of an escape, after its backslash. -/
def readEscape : Reading Char
  | 'u' :: a :: b :: c :: d :: rest => (scalar? [a, b, c, d]).map (·, rest)
  | 'U' :: a :: b :: c :: d :: e :: f :: g :: h :: rest =>
      (scalar? [a, b, c, d, e, f, g, h]).map (·, rest)
  | c :: rest => (escaped? c).map (·, rest)
  | [] => none

/-- Read a text between double quotes, after the first, in at most so many steps. -/
def readBasic : Nat → Reading (List Char)
  | 0, _ => none
  | _, [] => none
  | _, '"' :: rest => some ([], rest)
  | steps + 1, '\\' :: rest => do
      let (c, rest) ← readEscape rest
      let (more, rest) ← readBasic steps rest
      return (c :: more, rest)
  | steps + 1, c :: rest =>
      if isPrintable c then do
        let (more, rest) ← readBasic steps rest
        return (c :: more, rest)
      else none

/-- Read a text between single quotes, after the first. -/
def readPlain (text : List Char) : Option (List Char × List Char) :=
  let inner := text.takeWhile fun c => isPrintable c && c != '\''
  match text.drop inner.length with
  | '\'' :: rest => some (inner, rest)
  | _ => none

/-- Read the quotes that end a text of several lines: three close it, and one or two before them
belong to it. More quotes than these five stand after the text. -/
def closing? (quote : Char) (text : List Char) : Option (List Char × List Char) :=
  let run := min (text.takeWhile (· = quote)).length 5
  if 3 ≤ run then some (List.replicate (run - 3) quote, text.drop run) else none

def skipMargin : List Char → List Char
  | ' ' :: rest => skipMargin rest
  | '\t' :: rest => skipMargin rest
  | '\n' :: rest => skipMargin rest
  | '\r' :: '\n' :: rest => skipMargin rest
  | rest => rest

/-- The text after a line break that is escaped, with the blanks and line breaks that follow. -/
def skipEscapedBreak? (text : List Char) : Option (List Char) :=
  (lineBreak? (skipBlanks text)).map skipMargin

/-- Read a text of several lines after its opening quotes, in at most so many steps. -/
def readLong (quote : Char) : Nat → Reading (List Char)
  | 0, _ => none
  | steps + 1, text =>
      match closing? quote text with
      | some result => some result
      | none =>
          match lineBreak? text with
          | some rest => do
              let (more, rest) ← readLong quote steps rest
              return ('\n' :: more, rest)
          | none =>
              match text with
              | [] => none
              | c :: rest =>
                  if c = '\\' && quote = '"' then
                    match skipEscapedBreak? rest with
                    | some rest => readLong quote steps rest
                    | none => do
                        let (c, rest) ← readEscape rest
                        let (more, rest) ← readLong quote steps rest
                        return (c :: more, rest)
                  else if isPrintable c then do
                    let (more, rest) ← readLong quote steps rest
                    return (c :: more, rest)
                  else none

/-- The text after a line break right at its start, which does not belong to it. -/
def skipFirstBreak (text : List Char) : List Char := (lineBreak? text).getD text

def readString (text : List Char) : Option (String × List Char) :=
  (match text with
   | '"' :: '"' :: '"' :: rest => readLong '"' (rest.length + 1) (skipFirstBreak rest)
   | '\'' :: '\'' :: '\'' :: rest => readLong '\'' (rest.length + 1) (skipFirstBreak rest)
   | '"' :: rest => readBasic (rest.length + 1) rest
   | '\'' :: rest => readPlain rest
   | _ => none).map fun (chars, rest) => (String.ofList chars, rest)

def isKeyChar (c : Char) : Bool := c.isAlphanum || c = '_' || c = '-'

def readKeyPart (text : List Char) : Option (String × List Char) :=
  match text with
  | '"' :: rest =>
      (readBasic (rest.length + 1) rest).map fun (chars, rest) => (String.ofList chars, rest)
  | '\'' :: rest => (readPlain rest).map fun (chars, rest) => (String.ofList chars, rest)
  | _ =>
      let key := text.takeWhile isKeyChar
      if key.isEmpty then none else some (String.ofList key, text.drop key.length)

/-- Read a key with dots between its parts, in at most so many parts. -/
def readKey : Nat → Reading (List String)
  | 0, _ => none
  | parts + 1, text => do
      let (key, rest) ← readKeyPart (skipBlanks text)
      match skipBlanks rest with
      | '.' :: rest => do
          let (keys, rest) ← readKey parts rest
          return (key :: keys, rest)
      | rest => return ([key], rest)

def isLiteralChar (c : Char) : Bool :=
  c.isAlphanum || c = '_' || c = '+' || c = '-' || c = '.' || c = ':'

/-- Read a literal. A date may be followed by a blank and a time. -/
def readLiteral (text : List Char) : Option (Toml × List Char) :=
  let word := text.takeWhile isLiteralChar
  let rest := text.drop word.length
  let (word, rest) :=
    match Literal.isDate word, rest with
    | true, ' ' :: c :: more =>
        if c.isDigit then
          let time := (c :: more).takeWhile isLiteralChar
          (word ++ ' ' :: time, (c :: more).drop time.length)
        else (word, rest)
    | _, _ => (word, rest)
  if Literal.isLiteral word then some (.literal (String.ofList word), rest) else none

def pairOf? (keys : List String) (value : Toml) : Option Pair :=
  keys.getLast?.map fun key => ⟨keys.dropLast, key, value⟩

mutual

/-- Read a value, in at most so many steps. -/
def readValue : Nat → Reading Toml
  | 0, _ => none
  | steps + 1, text =>
      match text with
      | '[' :: rest =>
          match skipSpace rest with
          | ']' :: rest => some (.array [], rest)
          | rest => (readItems steps rest).map fun (items, rest) => (.array items, rest)
      | '{' :: rest =>
          match skipBlanks rest with
          | '}' :: rest => some (.table .inline [], rest)
          | rest => do
              let (pairs, rest) ← readPairs steps rest
              return (.table .inline (← addPairs .inline pairs []), rest)
      | '"' :: _ => (readString text).map fun (s, rest) => (.string s, rest)
      | '\'' :: _ => (readString text).map fun (s, rest) => (.string s, rest)
      | _ => readLiteral text

/-- Read the items of a list up to and with its closing bracket; a comma may end them. -/
def readItems : Nat → Reading (List Toml)
  | 0, _ => none
  | steps + 1, text => do
      let (item, rest) ← readValue steps text
      match skipSpace rest with
      | ',' :: rest =>
          match skipSpace rest with
          | ']' :: rest => return ([item], rest)
          | rest => do
              let (items, rest) ← readItems steps rest
              return (item :: items, rest)
      | ']' :: rest => return ([item], rest)
      | _ => none

/-- Read the pairs of a table in braces up to and with the closing one. -/
def readPairs : Nat → Reading (List Pair)
  | 0, _ => none
  | steps + 1, text => do
      let (keys, rest) ← readKey (text.length + 1) text
      match rest with
      | '=' :: rest =>
          let (value, rest) ← readValue steps (skipBlanks rest)
          let pair ← pairOf? keys value
          match skipBlanks rest with
          | ',' :: rest => do
              let (pairs, rest) ← readPairs steps rest
              return (pair :: pairs, rest)
          | '}' :: rest => return ([pair], rest)
          | _ => none
      | _ => none

end

/-- A line of a text. -/
inductive Line where
  | header (shared : Bool) (path : List String)
  | pair (pair : Pair)
  deriving Inhabited, Repr

def readHeader (text : List Char) : Option (Line × List Char) :=
  match text with
  | '[' :: rest => do
      match ← readKey (rest.length + 1) rest with
      | (path, ']' :: ']' :: rest) => return (.header true path, rest)
      | _ => none
  | _ => do
      match ← readKey (text.length + 1) text with
      | (path, ']' :: rest) => return (.header false path, rest)
      | _ => none

def readLine (text : List Char) : Option (Line × List Char) :=
  match text with
  | '[' :: rest => readHeader rest
  | _ => do
      match ← readKey (text.length + 1) text with
      | (keys, '=' :: rest) =>
          let (value, rest) ← readValue (2 * rest.length + 2) (skipBlanks rest)
          return (.pair (← pairOf? keys value), rest)
      | _ => none

/-- Read the lines of a text, at most so many. -/
def readLines : Nat → List Char → Option (List Line)
  | 0, _ => none
  | lines + 1, text =>
      match skipSpace text with
      | [] => some []
      | text =>
          if (skipComment text).isEmpty then some []
          else do
            let (line, rest) ← readLine text
            return line :: (← readLines lines (← endLine? rest))

/-- The pairs at the start of lines, and the lines from the first header on. -/
def splitLines : List Line → List Pair × List Section
  | [] => ([], [])
  | .pair pair :: rest =>
      let (pairs, sections) := splitLines rest
      (pair :: pairs, sections)
  | .header shared path :: rest =>
      let (pairs, sections) := splitLines rest
      ([], ⟨shared, path, pairs⟩ :: sections)

/-- The entries a text spells; a byte order mark at its start is passed over. -/
def read? (text : String) : Option Entries := do
  let chars :=
    match text.toList with
    | '\uFEFF' :: rest => rest
    | chars => chars
  let (pairs, sections) := splitLines (← readLines (chars.length + 1) chars)
  ofSections pairs sections

end WorkspaceBuild.Toml
