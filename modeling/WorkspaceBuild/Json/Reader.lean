import WorkspaceBuild.Json

/-! # Reading JSON

One strict value per text: no comments, nothing after the value, no byte order mark. The reader
goes over the characters once; a bound on its steps, twice the length, never runs out.
-/

namespace WorkspaceBuild.Json

/-- White space between the parts of a JSON text. -/
def isSpace (c : Char) : Bool := c = ' ' || c = '\n' || c = '\t' || c = '\r'

def skipSpace (text : List Char) : List Char := text.dropWhile isSpace

def hexDigit? (c : Char) : Option Nat :=
  if '0' ≤ c ∧ c ≤ '9' then some (c.toNat - '0'.toNat)
  else if 'a' ≤ c ∧ c ≤ 'f' then some (c.toNat - 'a'.toNat + 10)
  else if 'A' ≤ c ∧ c ≤ 'F' then some (c.toNat - 'A'.toNat + 10)
  else none

def hexUnit? (a b c d : Char) : Option Nat := do
  return (((← hexDigit? a) * 16 + (← hexDigit? b)) * 16 + (← hexDigit? c)) * 16 + (← hexDigit? d)

/-- The character that a one-letter escape stands for. -/
def escaped? : Char → Option Char
  | '"' => some '"'
  | '\\' => some '\\'
  | '/' => some '/'
  | 'b' => some '\x08'
  | 'f' => some '\x0c'
  | 'n' => some '\n'
  | 'r' => some '\r'
  | 't' => some '\t'
  | _ => none

def isLeading (unit : Nat) : Bool := 0xD800 ≤ unit && unit < 0xDC00

def isTrailing (unit : Nat) : Bool := 0xDC00 ≤ unit && unit < 0xE000

def paired (leading trailing : Nat) : Char :=
  Char.ofNat (0x10000 + (leading - 0xD800) * 0x400 + (trailing - 0xDC00))

/-- Characters read so far put before those of the rest; nothing when half a surrogate pair stands
in the text. -/
def before (c : Char) (read : Option (List Char) × List Char) : Option (List Char) × List Char :=
  (read.1.map (c :: ·), read.2)

/-- Read a text after its opening quote, up to and with the closing one. -/
def readText : List Char → Option (Option (List Char) × List Char)
  | '"' :: rest => some (some [], rest)
  | '\\' :: 'u' :: a :: b :: c :: d :: '\\' :: 'u' :: e :: f :: g :: h :: rest => do
      let unit ← hexUnit? a b c d
      if isLeading unit then
        let next ← hexUnit? e f g h
        if isTrailing next then return before (paired unit next) (← readText rest)
        else return (none, (← readText ('\\' :: 'u' :: e :: f :: g :: h :: rest)).2)
      else if isTrailing unit then
        return (none, (← readText ('\\' :: 'u' :: e :: f :: g :: h :: rest)).2)
      else
        return before (Char.ofNat unit) (← readText ('\\' :: 'u' :: e :: f :: g :: h :: rest))
  | '\\' :: 'u' :: a :: b :: c :: d :: rest => do
      let unit ← hexUnit? a b c d
      if isLeading unit || isTrailing unit then return (none, (← readText rest).2)
      else return before (Char.ofNat unit) (← readText rest)
  | '\\' :: c :: rest => do
      let c ← escaped? c
      return before c (← readText rest)
  | c :: rest =>
      if c = '\\' || c.toNat < 0x20 then none
      else do return before c (← readText rest)
  | [] => none

def digitsValue (digits : List Char) : Nat :=
  digits.foldl (fun n c => 10 * n + (c.toNat - '0'.toNat)) 0

/-- Digits at the start of a text, and the rest. -/
def digits (text : List Char) : List Char × List Char :=
  (text.takeWhile Char.isDigit, text.dropWhile Char.isDigit)

/-- The places after a point, if there is one. -/
def readPlaces : List Char → Option (Option (List Char) × List Char)
  | '.' :: rest =>
      match digits rest with
      | ([], _) => none
      | (places, rest) => some (some places, rest)
  | rest => some (none, rest)

/-- The power of ten, if there is one. -/
def readPower (text : List Char) : Option (Option Int × List Char) :=
  match text with
  | c :: rest =>
      if c = 'e' || c = 'E' then
        let (negative, rest) :=
          match rest with
          | '+' :: rest => (false, rest)
          | '-' :: rest => (true, rest)
          | rest => (false, rest)
        match digits rest with
        | ([], _) => none
        | (power, rest) =>
            let n : Int := digitsValue power
            some (some (if negative then -n else n), rest)
      else some (none, text)
  | [] => some (none, [])

/-- The value of a double, if it is finite. -/
def ofDouble (value : Double) : Json := if value.isFinite then .real value else .unreadable

/-- The value of a whole number: exact when it fits 64 bits and is not a negative zero. -/
def ofWhole (negative : Bool) (n : Nat) : Json :=
  if negative then
    if 0 < n ∧ n ≤ Double.pow2 63 then .whole (-(n : Int))
    else ofDouble (Double.ofDecimal true n 0)
  else if n < Double.pow2 64 then .whole n
  else ofDouble (Double.ofDecimal false n 0)

/-- Read the digits of a number after its sign. A number with leading zeros ends after the first. -/
def readUnsigned (negative : Bool) (text : List Char) : Option (Json × List Char) := do
  let (units, rest) ←
    match text with
    | '0' :: rest => some (['0'], rest)
    | _ =>
        match digits text with
        | ([], _) => none
        | (units, rest) => some (units, rest)
  let (places, rest) ← readPlaces rest
  let (power, rest) ← readPower rest
  match places, power with
  | none, none => return (ofWhole negative (digitsValue units), rest)
  | _, _ =>
      let places := places.getD []
      let power := power.getD 0 - (places.length : Int)
      return (ofDouble (Double.ofDecimal negative (digitsValue (units ++ places)) power), rest)

mutual

/-- Read one value, in at most so many steps. -/
def readValue : Nat → List Char → Option (Json × List Char)
  | 0, _ => none
  | steps + 1, text =>
      match skipSpace text with
      | 'n' :: 'u' :: 'l' :: 'l' :: rest => some (.null, rest)
      | 't' :: 'r' :: 'u' :: 'e' :: rest => some (.bool true, rest)
      | 'f' :: 'a' :: 'l' :: 's' :: 'e' :: rest => some (.bool false, rest)
      | '"' :: rest =>
          match readText rest with
          | some (some chars, rest) => some (.string (String.ofList chars), rest)
          | some (none, rest) => some (.unreadable, rest)
          | none => none
      | '[' :: rest =>
          match skipSpace rest with
          | ']' :: rest => some (.array [], rest)
          | rest => (readItems steps rest).map fun (items, rest) => (.array items, rest)
      | '{' :: rest =>
          match skipSpace rest with
          | '}' :: rest => some (.object [], rest)
          | rest =>
              (readMembers steps rest).map fun (members, rest) =>
                (match members with
                 | some members => .object members
                 | none => .unreadable, rest)
      | '-' :: rest => readUnsigned true rest
      | rest => readUnsigned false rest

/-- Read the items of a list up to and with its closing bracket. -/
def readItems : Nat → List Char → Option (List Json × List Char)
  | 0, _ => none
  | steps + 1, text =>
      match readValue steps text with
      | none => none
      | some (item, rest) =>
          match skipSpace rest with
          | ',' :: rest => (readItems steps rest).map fun (items, rest) => (item :: items, rest)
          | ']' :: rest => some ([item], rest)
          | _ => none

/-- Read the members of an object up to and with its closing brace. There are none to speak of when
a name holds half a surrogate pair. -/
def readMembers : Nat → List Char → Option (Option (List (String × Json)) × List Char)
  | 0, _ => none
  | steps + 1, text =>
      match skipSpace text with
      | '"' :: rest =>
          match readText rest with
          | none => none
          | some (name, rest) =>
              match skipSpace rest with
              | ':' :: rest =>
                  match readValue steps rest with
                  | none => none
                  | some (value, rest) =>
                      let first := name.map fun chars => (String.ofList chars, value)
                      match skipSpace rest with
                      | ',' :: rest =>
                          (readMembers steps rest).map fun (members, rest) =>
                            (first.bind fun first => members.map (first :: ·), rest)
                      | '}' :: rest => some (first.map ([·]), rest)
                      | _ => none
              | _ => none
      | _ => none

end

/-- The value a text spells, with parts that can only be passed over. -/
def readLoosely? (text : String) : Option Json :=
  let chars := text.toList
  match readValue (2 * chars.length + 2) chars with
  | some (value, rest) => if (skipSpace rest).isEmpty then some value else none
  | none => none

/-- The value a text spells, all of which can be read. -/
def read? (text : String) : Option Json :=
  (readLoosely? text).filter (isReadable maxDepth)

end WorkspaceBuild.Json
