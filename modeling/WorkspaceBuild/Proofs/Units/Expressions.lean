import WorkspaceBuild.Proofs.Units.Names

/-! # Printed expressions

Expressions are printed without parentheses of their own, and yet no two of them look the same: what a
call or a member begins with ends where the next trailer or another mark begins. An expression that
begins a text is found there up to the trailers that follow it; lists and objects end at their mark.
-/

namespace WorkspaceBuild

namespace Expr

/-- The value that a word stands for. -/
def wordValue? : String → Option Literal
  | "true" => some (.bool true)
  | "false" => some (.bool false)
  | "null" => some .null
  | "undefined" => some .undefined
  | _ => none

/-- What a word is read as. -/
def ofWord (name : String) : Expr := ((wordValue? name).map literal).getD (ident name)

section Plain

variable (letters : Letters)

mutual

/-- Whether the names in an expression are plain and none of its values is a number. A name by itself
is none of the words that stand for values. -/
def isPlain : Expr → Bool
  | .ident name => letters.isName name && (wordValue? name).isNone
  | .literal (.number _) => false
  | .literal _ => true
  | .call callee args => callee.isPlain && arePlain args
  | .member target property => target.isPlain && letters.isName property
  | .object fields => arePlainFields fields
  | .array items => arePlain items

def arePlain : List Expr → Bool
  | [] => true
  | e :: rest => e.isPlain && arePlain rest

def arePlainFields : List (String × Expr) → Bool
  | [] => true
  | (_, e) :: rest => e.isPlain && arePlainFields rest

end

end Plain

/-- What goes on behind an expression. -/
inductive Trailer where
  | call (args : List Expr)
  | member (property : String)

namespace Trailer

def chars : Trailer → List Char
  | .call args => '(' :: listChars args ++ [')']
  | .member property => '.' :: property.toList

/-- An expression with a trailer behind it. -/
def onto (e : Expr) : Trailer → Expr
  | .call args => .call e args
  | .member property => .member e property

def isPlain (letters : Letters) : Trailer → Bool
  | .call args => arePlain letters args
  | .member property => letters.isName property

end Trailer

/-- An expression with trailers behind it. -/
def followed (e : Expr) (trailers : List Trailer) : Expr := trailers.foldl Trailer.onto e

section Followed

variable {letters : Letters} (e : Expr) (trailers : List Trailer)

@[simp] theorem followed_nil : e.followed [] = e := rfl

@[simp] theorem followed_cons (trailer : Trailer) :
    e.followed (trailer :: trailers) = (trailer.onto e).followed trailers := rfl

theorem followed_concat (trailer : Trailer) :
    e.followed (trailers ++ [trailer]) = trailer.onto (e.followed trailers) := by
  rw [followed, List.foldl_append]
  rfl

theorem chars_onto (trailer : Trailer) : (trailer.onto e).chars = e.chars ++ trailer.chars := by
  cases trailer with
  | call args => simp [Trailer.onto, chars, Trailer.chars]
  | member property => rw [Trailer.onto, chars, Trailer.chars]

theorem isPlain_onto (trailer : Trailer) :
    (trailer.onto e).isPlain letters = (e.isPlain letters && trailer.isPlain letters) := by
  cases trailer with
  | call args => rw [Trailer.onto, isPlain, Trailer.isPlain]
  | member property => rw [Trailer.onto, isPlain, Trailer.isPlain]

theorem chars_followed :
    (e.followed trailers).chars = e.chars ++ trailers.flatMap Trailer.chars := by
  induction trailers generalizing e with
  | nil => simp
  | cons trailer trailers ih => rw [followed_cons, ih, chars_onto, List.flatMap_cons, List.append_assoc]

theorem isPlain_followed :
    (e.followed trailers).isPlain letters =
      (e.isPlain letters && trailers.all (Trailer.isPlain letters)) := by
  induction trailers generalizing e with
  | nil => simp
  | cons trailer trailers ih => rw [followed_cons, ih, isPlain_onto, List.all_cons, Bool.and_assoc]

end Followed

/-- The word that an expression consists of. -/
def word? : Expr → Option String
  | .ident name => some name
  | .literal (.bool true) => some "true"
  | .literal (.bool false) => some "false"
  | .literal .null => some "null"
  | .literal .undefined => some "undefined"
  | _ => none

/-- An expression that begins with no other one. -/
inductive IsAtom : Expr → Prop where
  | word {e : Expr} {name : String} (said : e.word? = some name) : IsAtom e
  | string (text : String) : IsAtom (.literal (.string text))
  | object (fields : List (String × Expr)) : IsAtom (.object fields)
  | array (items : List Expr) : IsAtom (.array items)

section Words

variable {letters : Letters} {e : Expr} {name : String}

theorem chars_of_word? (said : e.word? = some name) : e.chars = name.toList := by
  unfold word? at said
  split at said <;> cases said <;> rfl

theorem isName_of_word? (plain : e.isPlain letters = true) (said : e.word? = some name) :
    letters.isName name = true := by
  unfold word? at said
  split at said <;> cases said
  · rw [isPlain, Bool.and_eq_true] at plain
    exact plain.1
  all_goals exact Letters.areName_of_isAlpha (by decide)

/-- A word is that of a single expression. -/
theorem eq_ofWord_of_word? (plain : e.isPlain letters = true) (said : e.word? = some name) :
    e = ofWord name := by
  unfold word? at said
  split at said <;> cases said
  · simp only [isPlain, Bool.and_eq_true, Option.isNone_iff_eq_none] at plain
    rw [ofWord, plain.2]
    rfl
  all_goals rfl

end Words

/-- The mark that an expression begins with, when this is no word. -/
def mark? : Expr → Option Char
  | .literal (.string _) => some '"'
  | .object _ => some '{'
  | .array _ => some '['
  | _ => none

section Atoms

variable {letters : Letters} {a b e : Expr} {r s : List Char}

theorem mark?_of_word? {name : String} (said : e.word? = some name) : e.mark? = none := by
  unfold word? at said
  split at said <;> cases said <;> rfl

/-- The first character of an atom tells what it is. -/
theorem IsAtom.exists_head (atom : IsAtom e) (plain : e.isPlain letters = true) :
    ∃ c more, e.chars = c :: more ∧ e.mark? = if letters.isStart c then none else some c := by
  have noStart {c : Char} (ascii : c.toNat ≤ 127)
      (mark : (c.isAlpha || c == '_' || c == '$') = false) : letters.isStart c = false :=
    (Letters.isStart_ascii ascii).trans mark
  cases atom with
  | word said =>
      obtain ⟨c, more, split, start⟩ :=
        Letters.exists_start_of_areName (isName_of_word? plain said)
      exact ⟨c, more, (chars_of_word? said).trans split, by rw [mark?_of_word? said, if_pos start]⟩
  | string text => exact ⟨'"', _, rfl, by rw [noStart (by decide) (by decide)]; rfl⟩
  | object fields =>
      have mark : (Expr.object fields).mark? = if letters.isStart '{' then none else some '{' := by
        rw [noStart (by decide) (by decide)]
        rfl
      cases fields with
      | nil => exact ⟨'{', _, rfl, mark⟩
      | cons field fields => exact ⟨'{', _, rfl, mark⟩
  | array items => exact ⟨'[', _, rfl, by rw [noStart (by decide) (by decide)]; rfl⟩

theorem IsAtom.mark?_eq (atomA : IsAtom a) (atomB : IsAtom b) (plainA : a.isPlain letters = true)
    (plainB : b.isPlain letters = true) (same : a.chars ++ r = b.chars ++ s) :
    a.mark? = b.mark? := by
  obtain ⟨c, more, charsA, markA⟩ := atomA.exists_head plainA
  obtain ⟨d, others, charsB, markB⟩ := atomB.exists_head plainB
  rw [charsA, charsB, List.cons_append, List.cons_append] at same
  rw [markA, markB, (List.cons.inj same).1]

/-- Every expression is an atom with trailers. -/
theorem exists_followed (e : Expr) (plain : e.isPlain letters = true) :
    ∃ atom trailers, IsAtom atom ∧ e = atom.followed trailers := by
  cases e with
  | ident name => exact ⟨_, [], IsAtom.word rfl, rfl⟩
  | literal value =>
      cases value with
      | string text => exact ⟨_, [], .string text, rfl⟩
      | number value => cases plain
      | bool value => cases value <;> exact ⟨_, [], IsAtom.word rfl, rfl⟩
      | null => exact ⟨_, [], IsAtom.word rfl, rfl⟩
      | undefined => exact ⟨_, [], IsAtom.word rfl, rfl⟩
  | call callee args =>
      rw [isPlain, Bool.and_eq_true] at plain
      obtain ⟨atom, trailers, isAtom, split⟩ := exists_followed callee plain.1
      exact ⟨atom, trailers ++ [.call args], isAtom, by rw [followed_concat, ← split]; rfl⟩
  | member target property =>
      rw [isPlain, Bool.and_eq_true] at plain
      obtain ⟨atom, trailers, isAtom, split⟩ := exists_followed target plain.1
      exact ⟨atom, trailers ++ [.member property], isAtom, by rw [followed_concat, ← split]; rfl⟩
  | object fields => exact ⟨_, [], .object fields, rfl⟩
  | array items => exact ⟨_, [], .array items, rfl⟩

/-- No expression begins with the mark that ends a list. -/
theorem head?_chars_ne (plain : e.isPlain letters = true) {close : Char}
    (closes : close = ')' ∨ close = ']') (rest : List Char) :
    (e.chars ++ rest).head? ≠ some close := by
  obtain ⟨atom, trailers, isAtom, rfl⟩ := exists_followed e plain
  rw [isPlain_followed, Bool.and_eq_true] at plain
  obtain ⟨c, more, split, mark⟩ := isAtom.exists_head plain.1
  rw [chars_followed, split]
  intro same
  cases same
  have noStart : letters.isStart close = false := by
    obtain rfl | rfl := closes
    · exact Letters.isStart_ascii (by decide)
    · exact Letters.isStart_ascii (by decide)
  rw [noStart] at mark
  unfold mark? at mark
  split at mark <;> cases mark <;> simp at closes

end Atoms

section Overlaps

variable (letters : Letters) (a b : Expr) (r s : List Char)

/-- Of two expressions that begin a text, one is the other with trailers, which stand in the text
behind the other. -/
def Overlap : Prop :=
  (∃ trailers, b = a.followed trailers ∧ r = trailers.flatMap Trailer.chars ++ s) ∨
    ∃ trailers, a = b.followed trailers ∧ s = trailers.flatMap Trailer.chars ++ r

/-- What else a text begins with overlaps with the expression that it begins with. -/
def Begins : Prop :=
  ∀ b r s, b.isPlain letters = true → letters.Ends r → letters.Ends s →
    a.chars ++ r = b.chars ++ s → Overlap a b r s

/-- A list is found where it begins a text, as far as the mark that closes it. -/
def ListBegins (items : List Expr) : Prop :=
  ∀ others r s close, arePlain letters others = true → close = ')' ∨ close = ']' →
    listChars items ++ close :: r = listChars others ++ close :: s → items = others ∧ r = s

/-- The fields of an object are found where they begin a text, as far as the mark that closes it. -/
def FieldsBegin (fields : List (String × Expr)) : Prop :=
  ∀ others r s, arePlainFields letters others = true →
    fieldChars fields ++ ' ' :: '}' :: r = fieldChars others ++ ' ' :: '}' :: s →
      fields = others ∧ r = s

/-- No trailer begins the text. -/
def Stops (rest : List Char) : Prop := ∀ c ∈ rest.head?, c ≠ '(' ∧ c ≠ '.'

end Overlaps

section Stops

variable {letters : Letters} {a b : Expr} {r s : List Char} {trailers : List Trailer}

theorem eq_nil_of_stops (stops : Stops (trailers.flatMap Trailer.chars ++ s)) : trailers = [] := by
  cases trailers with
  | nil => rfl
  | cons trailer trailers =>
      cases trailer with
      | call args => exact absurd rfl (stops '(' rfl).1
      | member property => exact absurd rfl (stops '.' rfl).2

theorem ends_trailers (ends : letters.Ends s) :
    letters.Ends (trailers.flatMap Trailer.chars ++ s) := by
  cases trailers with
  | nil => exact ends
  | cons trailer trailers =>
      cases trailer with
      | call args => exact Letters.ends_cons (c := '(') (by decide) (by decide)
      | member property => exact Letters.ends_cons (c := '.') (by decide) (by decide)

/-- Expressions that overlap before something else than a trailer are equal. -/
theorem Overlap.eq_of_stops (overlap : Overlap a b r s) (stopsR : Stops r) (stopsS : Stops s) :
    a = b ∧ r = s := by
  obtain ⟨trailers, rfl, rfl⟩ | ⟨trailers, rfl, rfl⟩ := overlap
  · obtain rfl := eq_nil_of_stops stopsR
    exact ⟨rfl, rfl⟩
  · obtain rfl := eq_nil_of_stops stopsS
    exact ⟨rfl, rfl⟩

end Stops

section Kinds

variable {letters : Letters}

/-- An atom is found where it is found among atoms. -/
theorem begins_of_atoms {a : Expr}
    (among : ∀ b r s, IsAtom b → b.isPlain letters = true → letters.Ends r → letters.Ends s →
      a.chars ++ r = b.chars ++ s → a = b ∧ r = s) : Begins letters a := by
  intro b r s plain endsR endsS same
  obtain ⟨atom, trailers, isAtom, rfl⟩ := exists_followed b plain
  rw [isPlain_followed, Bool.and_eq_true] at plain
  rw [chars_followed, List.append_assoc] at same
  obtain ⟨rfl, sameRest⟩ := among atom r _ isAtom plain.1 endsR (ends_trailers endsS) same
  exact .inl ⟨trailers, rfl, sameRest⟩

theorem begins_word {a : Expr} {name : String} (plain : a.isPlain letters = true)
    (said : a.word? = some name) : Begins letters a := by
  apply begins_of_atoms
  intro b r s isAtom plainB endsR endsS same
  have mark := IsAtom.mark?_eq (.word said) isAtom plain plainB same
  rw [mark?_of_word? said] at mark
  cases isAtom with
  | @word _ other saidB =>
      rw [chars_of_word? said, chars_of_word? saidB] at same
      obtain ⟨rfl, sameRest⟩ := Letters.isName_append_inj (isName_of_word? plain said)
        (isName_of_word? plainB saidB) endsR endsS same
      exact ⟨(eq_ofWord_of_word? plain said).trans (eq_ofWord_of_word? plainB saidB).symm, sameRest⟩
  | string | object | array => cases mark

theorem begins_string (text : String) : Begins letters (.literal (.string text)) := by
  apply begins_of_atoms
  intro b r s isAtom plainB endsR endsS same
  have plainA : (literal (.string text)).isPlain letters = true := rfl
  have mark := (IsAtom.string text).mark?_eq isAtom plainA plainB same
  cases isAtom with
  | word said => rw [mark?_of_word? said] at mark; cases mark
  | string other =>
      obtain ⟨rfl, sameRest⟩ := Json.quoteChars_append_inj same
      exact ⟨rfl, sameRest⟩
  | object | array => cases mark

theorem begins_array {items : List Expr} (plain : arePlain letters items = true)
    (inside : ListBegins letters items) : Begins letters (.array items) := by
  apply begins_of_atoms
  intro b r s isAtom plainB endsR endsS same
  have plainA : (array items).isPlain letters = true := plain
  have mark := (IsAtom.array items).mark?_eq isAtom plainA plainB same
  cases isAtom with
  | word said => rw [mark?_of_word? said] at mark; cases mark
  | array others =>
      simp only [chars, List.cons_append, List.append_assoc, List.nil_append,
        List.cons.injEq, true_and] at same
      obtain ⟨rfl, sameRest⟩ := inside others r s ']' plainB (.inr rfl) same
      exact ⟨rfl, sameRest⟩
  | string | object => cases mark

theorem begins_object {fields : List (String × Expr)} (plain : arePlainFields letters fields = true)
    (inside : FieldsBegin letters fields) : Begins letters (.object fields) := by
  apply begins_of_atoms
  intro b r s isAtom plainB endsR endsS same
  have plainA : (object fields).isPlain letters = true := plain
  have mark := (IsAtom.object fields).mark?_eq isAtom plainA plainB same
  cases isAtom with
  | word said => rw [mark?_of_word? said] at mark; cases mark
  | object others =>
      -- an object without fields has no blank inside
      cases fields with
      | nil =>
          cases others with
          | nil => exact ⟨rfl, by simpa [chars] using same⟩
          | cons other others => simp [chars] at same
      | cons field fields =>
          cases others with
          | nil => simp [chars] at same
          | cons other others =>
              simp only [chars, List.cons_append, List.append_assoc, List.nil_append,
                List.cons.injEq, true_and] at same
              obtain ⟨sameFields, sameRest⟩ := inside (other :: others) r s plainB same
              exact ⟨congrArg object sameFields, sameRest⟩
  | string | array => cases mark

/-- An expression with one more trailer is found where the trailer is found behind it. -/
theorem begins_onto {e : Expr} {trailer : Trailer} (before : Begins letters e)
    (ends : ∀ r, letters.Ends (trailer.chars ++ r))
    (found : ∀ other r s, other.isPlain letters = true → letters.Ends r → letters.Ends s →
      trailer.chars ++ r = other.chars ++ s → trailer = other ∧ r = s) :
    Begins letters (trailer.onto e) := by
  intro b r s plain endsR endsS same
  rw [chars_onto, List.append_assoc] at same
  obtain ⟨trailers, rfl, further⟩ | ⟨trailers, rfl, sameRest⟩ := before b _ s plain (ends r) endsS same
  · cases trailers with
    | nil => exact .inr ⟨[trailer], rfl, by simpa using further.symm⟩
    | cons other trailers =>
        rw [isPlain_followed, Bool.and_eq_true, List.all_cons, Bool.and_eq_true] at plain
        rw [List.flatMap_cons, List.append_assoc] at further
        obtain ⟨rfl, sameRest⟩ :=
          found other r _ plain.2.1 endsR (ends_trailers endsS) further
        exact .inl ⟨trailers, rfl, sameRest⟩
  · refine .inr ⟨trailers ++ [trailer], (followed_concat _ _ _).symm, ?_⟩
    rw [sameRest, List.flatMap_append, List.flatMap_singleton, List.append_assoc]

theorem begins_call {callee : Expr} {args : List Expr} (before : Begins letters callee)
    (inside : ListBegins letters args) : Begins letters (.call callee args) := by
  apply @begins_onto letters callee (.call args) before
  · intro r
    exact Letters.ends_cons (c := '(') (by decide) (by decide)
  · intro other r s plain endsR endsS same
    cases other with
    | call others =>
        simp only [Trailer.chars, List.cons_append, List.append_assoc, List.nil_append,
          List.cons.injEq, true_and] at same
        obtain ⟨rfl, sameRest⟩ := inside others r s ')' plain (.inl rfl) same
        exact ⟨rfl, sameRest⟩
    | member property => cases same

theorem begins_member {target : Expr} {property : String} (before : Begins letters target)
    (named : letters.isName property = true) : Begins letters (.member target property) := by
  apply @begins_onto letters target (.member property) before
  · intro r
    exact Letters.ends_cons (c := '.') (by decide) (by decide)
  · intro other r s plain endsR endsS same
    cases other with
    | call others => cases same
    | member other =>
        simp only [Trailer.chars, List.cons_append, List.cons.injEq, true_and] at same
        obtain ⟨rfl, sameRest⟩ := Letters.isName_append_inj named plain endsR endsS same
        exact ⟨rfl, sameRest⟩

end Kinds

section Lists

variable {letters : Letters}

/-- What stands behind the first item of a list. -/
def furtherChars : List Expr → List Char
  | [] => []
  | items => ',' :: ' ' :: listChars items

/-- What stands behind the first field of an object. -/
def furtherFieldChars : List (String × Expr) → List Char
  | [] => []
  | fields => ',' :: ' ' :: fieldChars fields

theorem listChars_cons (e : Expr) (items : List Expr) :
    listChars (e :: items) = e.chars ++ furtherChars items := by
  cases items with
  | nil => simp [listChars, furtherChars]
  | cons item items => simp [listChars, furtherChars]

theorem fieldChars_cons (key : String) (e : Expr) (fields : List (String × Expr)) :
    fieldChars ((key, e) :: fields) =
      Json.quoteChars key ++ ':' :: ' ' :: (e.chars ++ furtherFieldChars fields) := by
  cases fields with
  | nil => simp [fieldChars, furtherFieldChars]
  | cons field fields => simp [fieldChars, furtherFieldChars]

/-- A mark that is neither part of a name nor begins a trailer ends an expression. -/
theorem eq_of_begins {a b : Expr} {r s : List Char} {c d : Char} (begins : Begins letters a)
    (plain : b.isPlain letters = true) (endC : c = ',' ∨ c = ' ' ∨ c = ')' ∨ c = ']')
    (endD : d = ',' ∨ d = ' ' ∨ d = ')' ∨ d = ']')
    (same : a.chars ++ c :: r = b.chars ++ d :: s) : a = b ∧ c :: r = d :: s := by
  have ends {c : Char} (isEnd : c = ',' ∨ c = ' ' ∨ c = ')' ∨ c = ']') (rest : List Char) :
      letters.Ends (c :: rest) ∧ Stops (c :: rest) := by
    obtain rfl | rfl | rfl | rfl := isEnd
    all_goals exact ⟨Letters.ends_cons (by decide) (by decide), by rintro _ ⟨⟩; decide⟩
  obtain ⟨endsC, stopsC⟩ := ends endC r
  obtain ⟨endsD, stopsD⟩ := ends endD s
  exact (begins b _ _ plain endsC endsD same).eq_of_stops stopsC stopsD

theorem exists_further {close : Char} (closes : close = ')' ∨ close = ']') (items : List Expr)
    (rest : List Char) : ∃ c more, furtherChars items ++ close :: rest = c :: more ∧
      (c = ',' ∨ c = ' ' ∨ c = ')' ∨ c = ']') := by
  cases items with
  | nil => exact ⟨close, rest, rfl, .inr (.inr closes)⟩
  | cons item items => exact ⟨',', _, rfl, .inl rfl⟩

theorem exists_furtherField (fields : List (String × Expr)) (rest : List Char) :
    ∃ c more, furtherFieldChars fields ++ ' ' :: rest = c :: more ∧
      (c = ',' ∨ c = ' ' ∨ c = ')' ∨ c = ']') := by
  cases fields with
  | nil => exact ⟨' ', rest, rfl, .inr (.inl rfl)⟩
  | cons field fields => exact ⟨',', _, rfl, .inl rfl⟩

theorem listBegins_nil : ListBegins letters [] := by
  intro others r s close plain closes same
  cases others with
  | nil => exact ⟨rfl, by simpa [listChars] using same⟩
  | cons other others =>
      rw [arePlain, Bool.and_eq_true] at plain
      rw [listChars_cons, List.append_assoc] at same
      have starts := head?_chars_ne plain.1 closes (furtherChars others ++ close :: s)
      rw [← same] at starts
      exact absurd rfl starts

theorem ListBegins.further_inj {items others : List Expr} {r s : List Char} {close : Char}
    (inside : ListBegins letters items) (plain : arePlain letters others = true)
    (closes : close = ')' ∨ close = ']')
    (same : furtherChars items ++ close :: r = furtherChars others ++ close :: s) :
    items = others ∧ r = s := by
  have noComma : close ≠ ',' := by
    rintro rfl
    simp at closes
  cases items with
  | nil =>
      cases others with
      | nil => exact ⟨rfl, by simpa [furtherChars] using same⟩
      | cons other others => exact absurd (List.cons.inj same).1 noComma
  | cons item items =>
      cases others with
      | nil => exact absurd (List.cons.inj same).1.symm noComma
      | cons other others =>
          simp only [furtherChars, List.cons_append, List.cons.injEq, true_and] at same
          exact inside _ r s close plain closes same

theorem FieldsBegin.further_inj {fields others : List (String × Expr)} {r s : List Char}
    (inside : FieldsBegin letters fields) (plain : arePlainFields letters others = true)
    (same : furtherFieldChars fields ++ ' ' :: '}' :: r =
      furtherFieldChars others ++ ' ' :: '}' :: s) : fields = others ∧ r = s := by
  cases fields with
  | nil =>
      cases others with
      | nil => exact ⟨rfl, by simpa [furtherFieldChars] using same⟩
      | cons other others => exact absurd (List.cons.inj same).1 (by decide)
  | cons field fields =>
      cases others with
      | nil => exact absurd (List.cons.inj same).1 (by decide)
      | cons other others =>
          simp only [furtherFieldChars, List.cons_append, List.cons.injEq, true_and] at same
          exact inside _ r s plain same

theorem listBegins_cons {item : Expr} {items : List Expr} (plain : item.isPlain letters = true)
    (begins : Begins letters item) (inside : ListBegins letters items) :
    ListBegins letters (item :: items) := by
  intro others r s close plainOthers closes same
  cases others with
  | nil =>
      rw [listChars_cons, List.append_assoc] at same
      have starts := head?_chars_ne plain closes (furtherChars items ++ close :: r)
      rw [same] at starts
      exact absurd rfl starts
  | cons other others =>
      rw [arePlain, Bool.and_eq_true] at plainOthers
      rw [listChars_cons, listChars_cons, List.append_assoc, List.append_assoc] at same
      obtain ⟨c, more, further, isEnd⟩ := exists_further closes items r
      obtain ⟨d, after, furtherOther, isEndOther⟩ := exists_further closes others s
      rw [further, furtherOther] at same
      obtain ⟨rfl, sameFurther⟩ := eq_of_begins begins plainOthers.1 isEnd isEndOther same
      rw [← further, ← furtherOther] at sameFurther
      obtain ⟨rfl, sameRest⟩ := inside.further_inj plainOthers.2 closes sameFurther
      exact ⟨rfl, sameRest⟩

theorem fieldsBegin_nil : FieldsBegin letters [] := by
  intro others r s plain same
  cases others with
  | nil => exact ⟨rfl, by simpa [fieldChars] using same⟩
  | cons other others =>
      rw [fieldChars_cons] at same
      cases same

theorem fieldsBegin_cons {key : String} {value : Expr} {fields : List (String × Expr)}
    (begins : Begins letters value) (inside : FieldsBegin letters fields) :
    FieldsBegin letters ((key, value) :: fields) := by
  intro others r s plain same
  cases others with
  | nil =>
      rw [fieldChars_cons] at same
      cases same
  | cons other others =>
      obtain ⟨otherKey, other⟩ := other
      rw [arePlainFields, Bool.and_eq_true] at plain
      simp only [fieldChars_cons, List.append_assoc, List.cons_append] at same
      obtain ⟨rfl, sameValue⟩ := Json.quoteChars_append_inj same
      simp only [List.cons.injEq, true_and] at sameValue
      obtain ⟨c, more, further, isEnd⟩ := exists_furtherField fields ('}' :: r)
      obtain ⟨d, after, furtherOther, isEndOther⟩ := exists_furtherField others ('}' :: s)
      rw [further, furtherOther] at sameValue
      obtain ⟨rfl, sameFurther⟩ := eq_of_begins begins plain.1 isEnd isEndOther sameValue
      rw [← further, ← furtherOther] at sameFurther
      obtain ⟨rfl, sameRest⟩ := inside.further_inj plain.2 sameFurther
      exact ⟨rfl, sameRest⟩

end Lists

section Whole

variable {letters : Letters}

mutual

/-- Every plain expression is found where it begins a text. -/
theorem begins : ∀ e : Expr, e.isPlain letters = true → Begins letters e
  | .ident _, plain => begins_word plain rfl
  | .literal (.string text), _ => begins_string text
  | .literal (.bool true), plain => begins_word plain rfl
  | .literal (.bool false), plain => begins_word plain rfl
  | .literal .null, plain => begins_word plain rfl
  | .literal .undefined, plain => begins_word plain rfl
  | .call callee args, plain => by
      rw [isPlain, Bool.and_eq_true] at plain
      exact begins_call (begins callee plain.1) (listBegins args plain.2)
  | .member target _, plain => by
      rw [isPlain, Bool.and_eq_true] at plain
      exact begins_member (begins target plain.1) plain.2
  | .object fields, plain => begins_object plain (fieldsBegin fields plain)
  | .array items, plain => begins_array plain (listBegins items plain)

theorem listBegins : ∀ items : List Expr, arePlain letters items = true → ListBegins letters items
  | [], _ => listBegins_nil
  | item :: items, plain => by
      rw [arePlain, Bool.and_eq_true] at plain
      exact listBegins_cons plain.1 (begins item plain.1) (listBegins items plain.2)

theorem fieldsBegin :
    ∀ fields : List (String × Expr), arePlainFields letters fields = true → FieldsBegin letters fields
  | [], _ => fieldsBegin_nil
  | (_, value) :: fields, plain => by
      rw [arePlainFields, Bool.and_eq_true] at plain
      exact fieldsBegin_cons (begins value plain.1) (fieldsBegin fields plain.2)

end

/-- The text of an expression tells which expression it is. -/
theorem eq_of_text_eq {a b : Expr} (plainA : a.isPlain letters = true)
    (plainB : b.isPlain letters = true) (same : a.text = b.text) : a = b := by
  have sameChars : a.chars ++ [] = b.chars ++ [] := by
    rw [List.append_nil, List.append_nil]
    exact String.ofList_inj.mp same
  have stops : Stops [] := by
    rintro _ ⟨⟩
  have overlap := begins a plainA b [] [] plainB Letters.ends_nil Letters.ends_nil sameChars
  exact (overlap.eq_of_stops stops stops).1

/-- A call of a member, with the marks of lists and calls inside its texts. -/
theorem eq_of_text_eq_marked :
    let call := Expr.call (.member (.ident "registry") "null")
      [.literal (.string "a\"), b(["), .object [("\x7d, c: ", .array [.literal .null])], .array []]
    let trailers := [Trailer.member "null", .call
      [.literal (.string "a\"), b(["), .object [("\x7d, c: ", .array [.literal .null])], .array []]]
    call.isPlain .ascii = true ∧ ((ident "registry").followed trailers).isPlain .ascii = true ∧
      call.text = ((ident "registry").followed trailers).text ∧
      call = (ident "registry").followed trailers :=
  ⟨by decide, by decide, rfl, @eq_of_text_eq .ascii _ _ (by decide) (by decide) rfl⟩

end Whole

end Expr

end WorkspaceBuild
