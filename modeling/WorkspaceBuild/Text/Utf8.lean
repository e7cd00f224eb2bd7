/-! # UTF-8

Bytes as text. Where bytes are no text, a replacement character stands for each longest piece that
could have begun one.
-/

namespace WorkspaceBuild.Text.Utf8

def decode? (bytes : List UInt8) : Option String := String.fromUTF8? ⟨bytes.toArray⟩

/-- The number of bytes of a character that starts with a byte, and the bounds of its second
byte. -/
def lead? (b : Nat) : Option (Nat × Nat × Nat) :=
  if b < 0x80 then some (1, 0x80, 0xBF)
  else if 0xC2 ≤ b ∧ b ≤ 0xDF then some (2, 0x80, 0xBF)
  else if b = 0xE0 then some (3, 0xA0, 0xBF)
  else if b = 0xED then some (3, 0x80, 0x9F)
  else if 0xE1 ≤ b ∧ b ≤ 0xEF then some (3, 0x80, 0xBF)
  else if b = 0xF0 then some (4, 0x90, 0xBF)
  else if 0xF1 ≤ b ∧ b ≤ 0xF3 then some (4, 0x80, 0xBF)
  else if b = 0xF4 then some (4, 0x80, 0x8F)
  else none

/-- How many of the following bytes continue a character that wants so many more, the first of them
within bounds. -/
def continuing : Nat → Nat → Nat → List UInt8 → Nat
  | 0, _, _, _ => 0
  | _, _, _, [] => 0
  | wanted + 1, low, high, b :: rest =>
      if low ≤ b.toNat ∧ b.toNat ≤ high then 1 + continuing wanted 0x80 0xBF rest else 0

def value (first : Nat) (size : Nat) (more : List UInt8) : Nat :=
  let head :=
    match size with
    | 1 => first
    | 2 => first % 32
    | 3 => first % 16
    | _ => first % 8
  more.foldl (fun n b => 64 * n + b.toNat % 64) head

/-- The characters of bytes, in at most so many steps. -/
def chars : Nat → List UInt8 → List Char
  | 0, _ => []
  | _, [] => []
  | steps + 1, b :: rest =>
      match lead? b.toNat with
      | none => '\uFFFD' :: chars steps rest
      | some (size, low, high) =>
          let count := continuing (size - 1) low high rest
          if count + 1 = size then
            Char.ofNat (value b.toNat size (rest.take count)) :: chars steps (rest.drop count)
          else '\uFFFD' :: chars steps (rest.drop count)

/-- The text that bytes spell, with replacement characters where they spell none. -/
def decodeLossy (bytes : List UInt8) : String := String.ofList (chars bytes.length bytes)

end WorkspaceBuild.Text.Utf8
