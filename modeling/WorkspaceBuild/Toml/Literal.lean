/-! # Literals of TOML

Which words are numbers, truth values, dates or times. Their values are not needed, only that they
are well formed.
-/

namespace WorkspaceBuild.Toml.Literal

/-- Whether characters are digits of a kind, with single underscores between them. -/
def spaced (isDigit : Char → Bool) : List Char → Bool
  | [] => false
  | [c] => isDigit c
  | c :: '_' :: rest => isDigit c && spaced isDigit rest
  | c :: rest => isDigit c && spaced isDigit rest

def isHexDigit (c : Char) : Bool := c.isDigit || ('a' ≤ c && c ≤ 'f') || ('A' ≤ c && c ≤ 'F')

def unsigned : List Char → List Char
  | '+' :: rest => rest
  | '-' :: rest => rest
  | rest => rest

/-- Whether characters are a decimal number without leading zeros. -/
def isDecimal (cs : List Char) : Bool :=
  match cs with
  | ['0'] => true
  | '0' :: _ => false
  | _ => spaced Char.isDigit cs

def isInteger (cs : List Char) : Bool :=
  match cs with
  | '0' :: 'x' :: rest => spaced isHexDigit rest
  | '0' :: 'o' :: rest => spaced (fun c => '0' ≤ c && c ≤ '7') rest
  | '0' :: 'b' :: rest => spaced (fun c => c = '0' || c = '1') rest
  | _ => isDecimal (unsigned cs)

/-- Whether a word is a power of ten after its mark. -/
def isPower (cs : List Char) : Bool := spaced Char.isDigit (unsigned cs)

/-- Whether a character marks a power of ten. -/
def marksPower (c : Char) : Bool := c = 'e' || c = 'E'

/-- Whether a word is a number with a point or a power of ten. -/
def isFloat (cs : List Char) : Bool :=
  let body := unsigned cs
  if body = "inf".toList || body = "nan".toList then true
  else
    let whole := body.takeWhile fun c => c != '.' && !marksPower c
    isDecimal whole &&
      match body.drop whole.length with
      | '.' :: rest =>
          let places := rest.takeWhile fun c => !marksPower c
          spaced Char.isDigit places &&
            (match rest.drop places.length with
             | [] => true
             | _ :: power => isPower power)
      | _ :: power => isPower power
      | [] => false

/-- The number that digits at given places spell. -/
def number? (cs : List Char) : Option Nat :=
  if !cs.isEmpty && cs.all Char.isDigit then
    some (cs.foldl (fun n c => 10 * n + (c.toNat - '0'.toNat)) 0)
  else none

def daysOf (year month : Nat) : Nat :=
  if month = 2 then
    if (year % 4 = 0 && year % 100 != 0) || year % 400 = 0 then 29 else 28
  else if month = 4 || month = 6 || month = 9 || month = 11 then 30
  else 31

def isDate : List Char → Bool
  | [a, b, c, d, '-', m, n, '-', x, y] =>
      match number? [a, b, c, d], number? [m, n], number? [x, y] with
      | some year, some month, some day =>
          1 ≤ month && month ≤ 12 && 1 ≤ day && day ≤ daysOf year month
      | _, _, _ => false
  | _ => false

/-- Whether two digits are a number up to a limit. -/
def upTo (limit : Nat) (a b : Char) : Bool := (number? [a, b]).any (· ≤ limit)

def afterTime? : List Char → Option (List Char)
  | a :: b :: ':' :: c :: d :: ':' :: e :: f :: rest =>
      if upTo 23 a b && upTo 59 c d && upTo 60 e f then
        match rest with
        | '.' :: digit :: more =>
            if digit.isDigit then some (more.dropWhile Char.isDigit) else none
        | '.' :: [] => none
        | rest => some rest
      else none
  | _ => none

/-- Whether characters are the distance from universal time, or nothing. -/
def isOffset : List Char → Bool
  | [] => true
  | ['Z'] => true
  | ['z'] => true
  | [sign, a, b, ':', c, d] => (sign = '+' || sign = '-') && upTo 23 a b && upTo 59 c d
  | _ => false

/-- Whether a word is a date, a time of day, or both. -/
def isMoment (cs : List Char) : Bool :=
  if isDate (cs.take 10) then
    match cs.drop 10 with
    | [] => true
    | mark :: rest =>
        (mark = 'T' || mark = 't' || mark = ' ') && ((afterTime? rest).any isOffset)
  else afterTime? cs = some []

def isLiteral (cs : List Char) : Bool :=
  cs = "true".toList || cs = "false".toList || isInteger cs || isFloat cs || isMoment cs

end WorkspaceBuild.Toml.Literal
