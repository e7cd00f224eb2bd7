import WorkspaceBuild.Json.Reader
import WorkspaceBuild.Json.Writer
import Mathlib.Data.List.DropRight

/-! # Texts that spell a value

A text spells a value when its parts stand in their order, with any white space between them: the
layouts that are written differ in nothing else. The reader finds the value whatever the layout, as
long as its numbers are whole, not negative and no longer than 64 bits.
-/

namespace WorkspaceBuild.Json

/-- White space and nothing else. -/
def IsBlank (text : List Char) : Prop := ∀ c ∈ text, isSpace c = true

mutual

/-- A text of a value, without white space around it. -/
inductive Spells : Json → List Char → Prop where
  | null : Spells .null (leafChars .null)
  | bool (value : Bool) : Spells (.bool value) (leafChars (.bool value))
  | whole {n : Nat} (fits : n < Double.pow2 64) : Spells (.whole n) (Nat.toDigits 10 n)
  | string (text : String) : Spells (.string text) (quoteChars text)
  | noItems : Spells (.array []) ['[', ']']
  | array {items : List Json} {text : List Char} (inside : SpellsItems items text) :
      Spells (.array items) ('[' :: text ++ [']'])
  | noMembers : Spells (.object []) ['{', '}']
  | object {members : List (String × Json)} {text : List Char}
      (inside : SpellsMembers members text) : Spells (.object members) ('{' :: text ++ ['}'])

/-- A text of the items of a list, each behind white space, with a comma before the next. -/
inductive SpellsItems : List Json → List Char → Prop where
  | last {item : Json} {front text back : List Char} (before : IsBlank front)
      (spelled : Spells item text) (after : IsBlank back) :
      SpellsItems [item] (front ++ text ++ back)
  | more {item : Json} {items : List Json} {front text others : List Char} (before : IsBlank front)
      (spelled : Spells item text) (further : SpellsItems items others) :
      SpellsItems (item :: items) (front ++ text ++ ',' :: others)

/-- A text of the members of an object, with white space before a name and before a value. -/
inductive SpellsMembers : List (String × Json) → List Char → Prop where
  | last {name : String} {value : Json} {front gap text back : List Char} (before : IsBlank front)
      (between : IsBlank gap) (spelled : Spells value text) (after : IsBlank back) :
      SpellsMembers [(name, value)] (front ++ quoteChars name ++ ':' :: gap ++ text ++ back)
  | more {name : String} {value : Json} {members : List (String × Json)}
      {front gap text others : List Char} (before : IsBlank front) (between : IsBlank gap)
      (spelled : Spells value text) (further : SpellsMembers members others) :
      SpellsMembers ((name, value) :: members)
        (front ++ quoteChars name ++ ':' :: gap ++ text ++ ',' :: others)

end

-- The equations of the reader are made here once, before the proofs ask for them side by side.
attribute [local simp] readText readValue readItems readMembers

section Spaces

theorem isBlank_nil : IsBlank [] := List.forall_mem_nil _

theorem isBlank_space : IsBlank [' '] := by simp [IsBlank, isSpace]

theorem skipSpace_cons {c : Char} (mark : isSpace c = false) (rest : List Char) :
    skipSpace (c :: rest) = c :: rest := by
  rw [skipSpace, List.dropWhile_cons_of_neg (by simp [mark])]

theorem IsBlank.skipSpace_append {front : List Char} (blank : IsBlank front) (rest : List Char) :
    skipSpace (front ++ rest) = skipSpace rest := by
  rw [skipSpace, List.dropWhile_append_of_pos blank]
  rfl

theorem skipSpace_skipSpace (text : List Char) : skipSpace (skipSpace text) = skipSpace text :=
  List.dropWhile_idempotent _ _

/-- White space before a value does not count. -/
theorem readValue_skip {left right : List Char} (same : skipSpace left = skipSpace right)
    (steps : Nat) : readValue steps left = readValue steps right := by
  cases steps with
  | zero => rw [readValue, readValue]
  | succ steps => simp only [readValue.eq_2, same]

theorem readItems_skip {left right : List Char} (same : skipSpace left = skipSpace right)
    (steps : Nat) : readItems steps left = readItems steps right := by
  cases steps with
  | zero => rw [readItems, readItems]
  | succ steps => simp only [readItems.eq_2, readValue_skip same]

theorem readMembers_skip {left right : List Char} (same : skipSpace left = skipSpace right)
    (steps : Nat) : readMembers steps left = readMembers steps right := by
  cases steps with
  | zero => rw [readMembers, readMembers]
  | succ steps => simp only [readMembers.eq_2, same]

end Spaces

section Texts

theorem hexDigit?_hexChar : ∀ n < 16, hexDigit? (hexChar n) = some n := by decide

theorem readText_letter {letter c : Char} (stands : escaped? letter = some c) (rest : List Char) :
    readText ('\\' :: letter :: rest) = (readText rest).map (before c) := by
  have noUnit : letter ≠ 'u' := by
    rintro rfl
    cases stands
  rw [readText.eq_4, stands]
  · cases readText rest <;> rfl
  · rintro _ _ _ _ _ _ _ _ _ same
    exact absurd same noUnit
  · rintro _ _ _ _ _ same
    exact absurd same noUnit

theorem readText_unit {a b c d : Char} {unit : Nat} (spells : hexUnit? a b c d = some unit)
    (noLeading : isLeading unit = false) (noTrailing : isTrailing unit = false) (rest : List Char) :
    readText ('\\' :: 'u' :: a :: b :: c :: d :: rest) =
      (readText rest).map (before (Char.ofNat unit)) := by
  by_cases again : ∃ e f g h more, rest = '\\' :: 'u' :: e :: f :: g :: h :: more
  · obtain ⟨e, f, g, h, more, rfl⟩ := again
    rw [readText.eq_2, spells]
    simp only [bind, Option.bind, noLeading, noTrailing, Bool.false_eq_true, if_false]
    cases readText ('\\' :: 'u' :: e :: f :: g :: h :: more) <;> rfl
  · rw [readText.eq_3 a b c d rest fun e f g h more same => again ⟨e, f, g, h, more, same⟩, spells]
    simp only [bind, Option.bind, noLeading, noTrailing, Bool.or_self, Bool.false_eq_true, if_false]
    cases readText rest <;> rfl

theorem readText_plain {c : Char} (noQuote : c ≠ '"') (noEscape : c ≠ '\\')
    (printed : 0x20 ≤ c.toNat) (rest : List Char) :
    readText (c :: rest) = (readText rest).map (before c) := by
  rw [readText.eq_5]
  · simp only [noEscape, Nat.not_lt.mpr printed, decide_false, Bool.or_self, Bool.false_eq_true,
      if_false]
    cases readText rest <;> rfl
  all_goals
    intros
    contradiction

theorem readText_control {c : Char} (control : c.toNat < 0x20) (rest : List Char) :
    readText ('\\' :: 'u' :: '0' :: '0' :: hexChar (c.toNat / 16) :: hexChar (c.toNat % 16) :: rest) =
      (readText rest).map (before c) := by
  have spells : hexUnit? '0' '0' (hexChar (c.toNat / 16)) (hexChar (c.toNat % 16)) =
      some c.toNat := by
    rw [hexUnit?, hexDigit?_hexChar _ (by omega), hexDigit?_hexChar _ (by omega)]
    change some (((0 * 16 + 0) * 16 + c.toNat / 16) * 16 + c.toNat % 16) = some c.toNat
    congr 1
    omega
  have noLeading : isLeading c.toNat = false := by simp [isLeading]; omega
  have noTrailing : isTrailing c.toNat = false := by simp [isTrailing]; omega
  rw [readText_unit spells noLeading noTrailing, Char.ofNat_toNat]

theorem readText_escape (c : Char) (rest : List Char) :
    readText (escape c ++ rest) = (readText rest).map (before c) := by
  unfold escape
  split
  · exact readText_letter rfl rest
  · exact readText_letter rfl rest
  · exact readText_letter rfl rest
  · exact readText_letter rfl rest
  · exact readText_letter rfl rest
  · exact readText_letter rfl rest
  · exact readText_letter rfl rest
  · rename_i noQuote noEscape _ _ _ _ _
    split
    · rename_i control
      exact readText_control control rest
    · rename_i printed
      exact readText_plain noQuote noEscape (Nat.not_lt.mp printed) rest

theorem readText_quoted (text : List Char) (rest : List Char) :
    readText (text.flatMap escape ++ '"' :: rest) = some (some text, rest) := by
  induction text with
  | nil => rw [List.flatMap_nil, List.nil_append, readText]
  | cons c text ih =>
      rw [List.flatMap_cons, List.append_assoc, readText_escape, ih]
      rfl

end Texts

section Numbers

/-- A number ends before these characters: none of them goes on with it. -/
def EndsNumber (rest : List Char) : Prop :=
  ∀ c ∈ rest.head?, c.isDigit = false ∧ c ≠ '.' ∧ c ≠ 'e' ∧ c ≠ 'E'

theorem digits_append {number rest : List Char} (all : ∀ c ∈ number, c.isDigit = true)
    (ends : EndsNumber rest) : digits (number ++ rest) = (number, rest) := by
  have none : rest.takeWhile Char.isDigit = [] ∧ rest.dropWhile Char.isDigit = rest := by
    cases rest with
    | nil => exact ⟨rfl, rfl⟩
    | cons c rest =>
        have noDigit := (ends c rfl).1
        simp [noDigit]
  rw [digits, List.takeWhile_append_of_pos all, List.dropWhile_append_of_pos all, none.1, none.2,
    List.append_nil]

theorem readPlaces_of_ends {rest : List Char} (ends : EndsNumber rest) :
    readPlaces rest = some (none, rest) := by
  cases rest with
  | nil => rfl
  | cons c rest =>
      obtain ⟨_, noPoint, _⟩ := ends c rfl
      rw [readPlaces]
      rintro _ ⟨⟩
      exact noPoint rfl

theorem readPower_of_ends {rest : List Char} (ends : EndsNumber rest) :
    readPower rest = some (none, rest) := by
  cases rest with
  | nil => rfl
  | cons c rest =>
      obtain ⟨_, _, small, great⟩ := ends c rfl
      simp [readPower, small, great]

/-- Only zero starts with a zero. -/
theorem eq_zero_of_head?_toDigits {n : Nat} (starts : (Nat.toDigits 10 n).head? = some '0') :
    n = 0 := by
  induction n using Nat.strongRecOn with
  | ind n ih =>
      rw [Nat.toDigits_eq_if (by decide)] at starts
      split at starts
      · simpa using starts
      · rename_i large
        rw [List.head?_append, Option.or_of_isSome (by simp)] at starts
        have none := ih (n / 10) (by omega) starts
        omega

theorem toDigits_starts (n : Nat) :
    ∃ c more, Nat.toDigits 10 n = c :: more ∧ c.isDigit = true := by
  obtain ⟨c, more, split⟩ := List.exists_cons_of_ne_nil (Nat.toDigits_ne_nil (b := 10) (n := n))
  refine ⟨c, more, split, Nat.isDigit_of_mem_toDigits (b := 10) (n := n) (by decide) (by decide) ?_⟩
  simp [split]

theorem isSpace_of_isDigit {c : Char} (isDigit : c.isDigit = true) : isSpace c = false := by
  rw [Bool.eq_false_iff]
  intro space
  simp only [isSpace, Bool.or_eq_true, decide_eq_true_eq] at space
  rcases space with ((rfl | rfl) | rfl) | rfl <;> cases isDigit

/-- A whole number is read from its digits. -/
theorem readUnsigned_digits (n : Nat) {rest : List Char} (ends : EndsNumber rest) :
    readUnsigned false (Nat.toDigits 10 n ++ rest) = some (ofWhole false n, rest) := by
  have all : ∀ c ∈ Nat.toDigits 10 n, c.isDigit = true := fun c member =>
    Nat.isDigit_of_mem_toDigits (by decide) (by decide) member
  have value : digitsValue (Nat.toDigits 10 n) = n := Nat.ofDigitChars_ten_toDigits
  by_cases starts : (Nat.toDigits 10 n).head? = some '0'
  · obtain rfl := eq_zero_of_head?_toDigits starts
    change readUnsigned false ('0' :: rest) = _
    rw [readUnsigned.eq_1]
    simp only [readPlaces_of_ends ends, readPower_of_ends ends, bind, Option.bind, pure]
    rfl
  · obtain ⟨c, more, split, _⟩ := toDigits_starts n
    have notZero : c ≠ '0' := by
      rintro rfl
      rw [split] at starts
      exact starts rfl
    have units := digits_append all ends
    rw [split, List.cons_append] at units ⊢
    rw [split] at value
    rw [readUnsigned.eq_2]
    · simp only [units, readPlaces_of_ends ends, readPower_of_ends ends, bind, Option.bind, pure, value]
    · rintro _ ⟨⟩
      exact notZero rfl

end Numbers

section Ends

theorem endsNumber_cons {c : Char} (ends : c.isDigit = false ∧ c ≠ '.' ∧ c ≠ 'e' ∧ c ≠ 'E')
    (rest : List Char) : EndsNumber (c :: rest) := by
  rintro _ ⟨⟩
  exact ends

/-- White space ends a number. -/
theorem IsBlank.endsNumber_append {back rest : List Char} (blank : IsBlank back)
    (ends : EndsNumber rest) : EndsNumber (back ++ rest) := by
  cases back with
  | nil => exact ends
  | cons c back =>
      have space := blank c List.mem_cons_self
      simp only [isSpace, Bool.or_eq_true, decide_eq_true_eq] at space
      rcases space with ((rfl | rfl) | rfl) | rfl <;> exact endsNumber_cons (by decide) _

end Ends

section Values

variable {steps : Nat} {text rest : List Char}

theorem readValue_string (chars : List Char) (rest : List Char) :
    readValue (steps + 1) ('"' :: chars.flatMap escape ++ '"' :: rest) =
      some (.string (String.ofList chars), rest) := by
  rw [readValue.eq_2, List.cons_append, skipSpace_cons rfl]
  simp only [readText_quoted]

/-- A list that is not empty is read by its items. -/
theorem readValue_array {items : List Json} (notEmpty : (skipSpace text).head? ≠ some ']')
    (read : readItems steps text = some (items, rest)) :
    readValue (steps + 1) ('[' :: text) = some (.array items, rest) := by
  rw [readValue.eq_2, skipSpace_cons rfl]
  have skipped : readItems steps (skipSpace text) = some (items, rest) :=
    (readItems_skip (skipSpace_skipSpace text) steps).trans read
  simp only
  split
  · rename_i after same
    rw [same] at notEmpty
    exact absurd rfl notEmpty
  · rw [skipped]
    rfl

/-- An object that is not empty is read by its members. -/
theorem readValue_object {members : List (String × Json)}
    (notEmpty : (skipSpace text).head? ≠ some '}')
    (read : readMembers steps text = some (some members, rest)) :
    readValue (steps + 1) ('{' :: text) = some (.object members, rest) := by
  rw [readValue.eq_2, skipSpace_cons rfl]
  have skipped : readMembers steps (skipSpace text) = some (some members, rest) :=
    (readMembers_skip (skipSpace_skipSpace text) steps).trans read
  simp only
  split
  · rename_i after same
    rw [same] at notEmpty
    exact absurd rfl notEmpty
  · rw [skipped]
    rfl

theorem readValue_whole {n : Nat} (fits : n < Double.pow2 64) (ends : EndsNumber rest) :
    readValue (steps + 1) (Nat.toDigits 10 n ++ rest) = some (.whole n, rest) := by
  have read := readUnsigned_digits n ends
  obtain ⟨c, more, digits, isDigit⟩ := toDigits_starts n
  have mark := isSpace_of_isDigit isDigit
  -- a digit begins no other value
  have other {d : Char} {tail : List Char} (noDigit : d.isDigit = false) :
      c :: (more ++ rest) ≠ d :: tail := by
    rintro ⟨⟩
    rw [noDigit] at isDigit
    cases isDigit
  rw [digits, List.cons_append] at read ⊢
  rw [readValue.eq_2, skipSpace_cons mark]
  split
  iterate 7
    · rename_i same
      exact absurd same (other rfl)
  rw [read, ofWhole, if_neg Bool.false_ne_true, if_pos fits]

/-- A member is read by its name and its value, and what follows says whether it is the last. -/
theorem readMembers_eq {front gap : List Char} (before : IsBlank front) (between : IsBlank gap)
    (name : String) {value : Json} {after : List Char}
    (read : readValue steps text = some (value, after)) :
    readMembers (steps + 1) (front ++ quoteChars name ++ ':' :: gap ++ text) =
      match skipSpace after with
      | ',' :: rest =>
          (readMembers steps rest).map fun (members, rest) =>
            (members.map ((name, value) :: ·), rest)
      | '}' :: rest => some (some [(name, value)], rest)
      | _ => none := by
  have spaced : readValue steps (gap ++ text) = some (value, after) :=
    (readValue_skip (between.skipSpace_append text) steps).trans read
  have named := readText_quoted name.toList (':' :: (gap ++ text))
  have written : front ++ quoteChars name ++ ':' :: gap ++ text =
      front ++ '"' :: (name.toList.flatMap escape ++ '"' :: ':' :: (gap ++ text)) := by
    simp [quoteChars]
  rw [written, readMembers.eq_2, before.skipSpace_append, skipSpace_cons rfl]
  simp only [named, skipSpace_cons (c := ':') rfl, spaced, Option.map_some, String.ofList_toList]
  rfl

end Values

section Starts

variable {text : List Char}

/-- A value begins with a mark that ends no list. -/
theorem Spells.starts {value : Json} (spelled : Spells value text) :
    ∃ c more, text = c :: more ∧ isSpace c = false ∧ c ≠ ']' := by
  cases spelled with
  | null => exact ⟨'n', _, rfl, rfl, by decide⟩
  | bool value => cases value <;> exact ⟨_, _, rfl, rfl, by decide⟩
  | string => exact ⟨'"', _, rfl, rfl, by decide⟩
  | noItems | array => exact ⟨'[', _, rfl, rfl, by decide⟩
  | noMembers | object => exact ⟨'{', _, rfl, rfl, by decide⟩
  | @whole n =>
      obtain ⟨c, more, digits, isDigit⟩ := toDigits_starts n
      refine ⟨c, more, digits, isSpace_of_isDigit isDigit, ?_⟩
      rintro rfl
      cases isDigit

/-- The items of a list begin with one of them. -/
theorem SpellsItems.starts {items : List Json} (spelled : SpellsItems items text)
    (rest : List Char) : (skipSpace (text ++ rest)).head? ≠ some ']' := by
  have begins {item : Json} {front text : List Char} (before : IsBlank front)
      (spelled : Spells item text) (rest : List Char) :
      (skipSpace (front ++ (text ++ rest))).head? ≠ some ']' := by
    obtain ⟨c, more, rfl, mark, noEnd⟩ := spelled.starts
    rw [before.skipSpace_append, List.cons_append, skipSpace_cons mark]
    simpa using noEnd
  cases spelled with
  | last before spelled => simpa only [List.append_assoc] using begins before spelled _
  | more before spelled => simpa only [List.append_assoc] using begins before spelled _

/-- The members of an object begin with the quote of a name. -/
theorem SpellsMembers.starts {members : List (String × Json)} (spelled : SpellsMembers members text)
    (rest : List Char) : (skipSpace (text ++ rest)).head? ≠ some '}' := by
  have begins {front : List Char} (before : IsBlank front) (name : String) (rest : List Char) :
      (skipSpace (front ++ (quoteChars name ++ rest))).head? ≠ some '}' := by
    rw [before.skipSpace_append, quoteChars, List.cons_append, List.cons_append, skipSpace_cons rfl]
    simp
  cases spelled with
  | last before => simpa only [List.append_assoc] using begins before _ _
  | more before => simpa only [List.append_assoc] using begins before _ _

end Starts

/-- What spells a value is read within so many steps, twice as many as it has characters. -/
structure Reads (steps : Nat) : Prop where
  value : ∀ {value text}, Spells value text → ∀ {rest}, EndsNumber rest → 2 * text.length ≤ steps →
    readValue steps (text ++ rest) = some (value, rest)
  items : ∀ {items text}, SpellsItems items text → ∀ rest, 2 * text.length + 1 ≤ steps →
    readItems steps (text ++ ']' :: rest) = some (items, rest)
  members : ∀ {members text}, SpellsMembers members text → ∀ rest, 2 * text.length + 1 ≤ steps →
    readMembers steps (text ++ '}' :: rest) = some (some members, rest)

namespace Reads

variable {steps : Nat} {text : List Char}

theorem value_succ (reads : Reads steps) {value : Json} (spelled : Spells value text)
    {rest : List Char} (ends : EndsNumber rest) (enough : 2 * text.length ≤ steps + 1) :
    readValue (steps + 1) (text ++ rest) = some (value, rest) := by
  cases spelled with
  | null => rfl
  | bool value => cases value <;> rfl
  | whole fits => exact readValue_whole fits ends
  | string text =>
      have read := @readValue_string steps text.toList rest
      rw [String.ofList_toList] at read
      rw [quoteChars, List.append_assoc]
      exact read
  | noItems => rfl
  | array inside =>
      simp only [List.length_append, List.length_cons, List.length_nil] at enough
      simp only [List.append_assoc, List.cons_append, List.nil_append]
      exact readValue_array (inside.starts _) (reads.items inside rest (by omega))
  | noMembers => rfl
  | object inside =>
      simp only [List.length_append, List.length_cons, List.length_nil] at enough
      simp only [List.append_assoc, List.cons_append, List.nil_append]
      exact readValue_object (inside.starts _) (reads.members inside rest (by omega))

theorem items_succ (reads : Reads steps) {items : List Json} (spelled : SpellsItems items text)
    (rest : List Char) (enough : 2 * text.length + 1 ≤ steps + 1) :
    readItems (steps + 1) (text ++ ']' :: rest) = some (items, rest) := by
  cases spelled with
  | @last _ _ text back before spelled after =>
      simp only [List.length_append] at enough
      have read := reads.value spelled
        (after.endsNumber_append (endsNumber_cons (c := ']') (by decide) rest)) (by omega)
      rw [readItems.eq_2, List.append_assoc, List.append_assoc,
        readValue_skip (before.skipSpace_append _), read]
      simp only [after.skipSpace_append, skipSpace_cons (c := ']') rfl]
  | @more _ _ _ text others before spelled further =>
      simp only [List.length_append, List.length_cons] at enough
      have read := reads.value spelled
        (endsNumber_cons (c := ',') (by decide) (others ++ ']' :: rest)) (by omega)
      rw [readItems.eq_2, List.append_assoc, List.append_assoc, List.cons_append,
        readValue_skip (before.skipSpace_append _), read]
      simp only [skipSpace_cons (c := ',') rfl, reads.items further rest (by omega), Option.map_some]

theorem members_succ (reads : Reads steps) {members : List (String × Json)}
    (spelled : SpellsMembers members text) (rest : List Char)
    (enough : 2 * text.length + 1 ≤ steps + 1) :
    readMembers (steps + 1) (text ++ '}' :: rest) = some (some members, rest) := by
  cases spelled with
  | @last name _ front gap text back before between spelled after =>
      simp only [List.length_append, List.length_cons] at enough
      have read := reads.value spelled
        (after.endsNumber_append (endsNumber_cons (c := '}') (by decide) rest)) (by omega)
      rw [List.append_assoc, List.append_assoc, readMembers_eq before between name read,
        after.skipSpace_append, skipSpace_cons rfl]
      rfl
  | @more name _ _ front gap text others before between spelled further =>
      simp only [List.length_append, List.length_cons] at enough
      have read := reads.value spelled
        (endsNumber_cons (c := ',') (by decide) (others ++ '}' :: rest)) (by omega)
      rw [List.append_assoc, List.append_assoc, List.cons_append,
        readMembers_eq before between name read, skipSpace_cons rfl]
      simp only [reads.members further rest (by omega), Option.map_some]

end Reads

theorem reads_all (steps : Nat) : Reads steps := by
  induction steps with
  | zero =>
      refine ⟨fun spelled _ _ enough => ?_, fun _ _ enough => ?_, fun _ _ enough => ?_⟩
      · obtain ⟨c, more, rfl, _⟩ := spelled.starts
        rw [List.length_cons] at enough
        omega
      · omega
      · omega
  | succ steps reads =>
      exact ⟨fun spelled _ ends => reads.value_succ spelled ends,
        fun spelled rest => reads.items_succ spelled rest,
        fun spelled rest => reads.members_succ spelled rest⟩

/-- A text is read as the value that it spells. -/
theorem Spells.readLoosely? {value : Json} {text : List Char} (spelled : Spells value text) :
    Json.readLoosely? (String.ofList text) = some value := by
  have ends : EndsNumber [] := by
    rintro _ ⟨⟩
  have read := (reads_all _).value spelled ends (Nat.le_add_right _ 2)
  rw [List.append_nil] at read
  rw [Json.readLoosely?]
  simp only [String.toList_ofList, read]
  rfl

end WorkspaceBuild.Json
