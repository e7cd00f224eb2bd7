import WorkspaceBuild.Double

/-! # Reading numbers

A number as text: a sign, digits with a point, a power of ten, or a name for infinity and for no
number, in letters of either case.
-/

namespace WorkspaceBuild.Double

/-- Digits at the start of a text, and the rest. -/
def leadingDigits (text : List Char) : List Char × List Char :=
  (text.takeWhile Char.isDigit, text.dropWhile Char.isDigit)

def valueOfDigits (digits : List Char) : Nat :=
  digits.foldl (fun n c => 10 * n + (c.toNat - '0'.toNat)) 0

/-- A sign at the start of a text, and the rest. -/
def leadingSign : List Char → Bool × List Char
  | '+' :: rest => (false, rest)
  | '-' :: rest => (true, rest)
  | rest => (false, rest)

/-- The power of ten that ends a text. -/
def powerOf? (text : List Char) : Option Int :=
  match text with
  | [] => some 0
  | c :: rest =>
      if c = 'e' || c = 'E' then
        let (negative, rest) := leadingSign rest
        match leadingDigits rest with
        | ([], _) => none
        | (digits, []) =>
            let n : Int := valueOfDigits digits
            some (if negative then -n else n)
        | _ => none
      else none

/-- The number that digits with a point and a power spell. -/
def ofDigits? (negative : Bool) (text : List Char) : Option Double := do
  let (whole, rest) := leadingDigits text
  let (places, rest) :=
    match rest with
    | '.' :: rest => leadingDigits rest
    | rest => ([], rest)
  if whole.isEmpty && places.isEmpty then none
  let power ← powerOf? rest
  return ofDecimal negative (valueOfDigits (whole ++ places)) (power - (places.length : Int))

def ofText? (text : String) : Option Double :=
  let (negative, rest) := leadingSign text.toList
  match String.ofList (rest.map Char.toLower) with
  | "nan" => some .nan
  | "inf" => some (.infinity negative)
  | "infinity" => some (.infinity negative)
  | _ => ofDigits? negative rest

end WorkspaceBuild.Double
