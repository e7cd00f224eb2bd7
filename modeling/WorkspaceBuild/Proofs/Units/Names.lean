import WorkspaceBuild.SourceUnit.Printer
import WorkspaceBuild.Proofs.Json.Spelled

/-! # Names in printed units

A name goes on as far as it can: where the text behind it begins with another kind of character, the
name and what follows are told apart. The same holds of a text between quotes.
-/

namespace WorkspaceBuild

/-- The letters beyond ASCII that names may have, at their start and further on. -/
structure Letters where
  starts : Char → Bool
  continues : Char → Bool

namespace Letters

/-- No letters beyond ASCII. -/
def ascii : Letters where
  starts _ := false
  continues _ := false

variable (letters : Letters)

/-- Whether a name may begin with the character. -/
def isStart (c : Char) : Bool :=
  c.isAlpha || c == '_' || c == '$' || (127 < c.toNat && letters.starts c)

/-- Whether the character may stand in a name. -/
def isPart (c : Char) : Bool :=
  letters.isStart c || c.isDigit || (127 < c.toNat && letters.continues c)

def areName : List Char → Bool
  | [] => false
  | c :: rest => letters.isStart c && rest.all letters.isPart

/-- A plain name, reserved or not. -/
def isName (text : String) : Bool := letters.areName text.toList

/-- A name before these characters ends there. -/
def Ends (rest : List Char) : Prop := ∀ c ∈ rest.head?, letters.isPart c = false

end Letters

namespace Letters

variable {letters : Letters} {c : Char} {name other rest after : List Char}

theorem isPart_of_isStart (start : letters.isStart c = true) : letters.isPart c = true := by
  rw [isPart, start]
  rfl

/-- Whether a character of ASCII stands in a name does not depend on the further letters. -/
theorem isPart_ascii (ascii : c.toNat ≤ 127) :
    letters.isPart c = (c.isAlpha || c == '_' || c == '$' || c.isDigit) := by
  have none : ¬ 127 < c.toNat := by omega
  simp [isPart, isStart, none]

theorem isStart_ascii (ascii : c.toNat ≤ 127) :
    letters.isStart c = (c.isAlpha || c == '_' || c == '$') := by
  have none : ¬ 127 < c.toNat := by omega
  simp [isStart, none]

theorem ends_nil : letters.Ends [] := by
  intro c isHead
  cases isHead

/-- A mark of ASCII ends a name. -/
theorem ends_cons (ascii : c.toNat ≤ 127)
    (mark : (c.isAlpha || c == '_' || c == '$' || c.isDigit) = false) : letters.Ends (c :: rest) := by
  intro d isHead
  cases isHead
  rw [isPart_ascii ascii, mark]

theorem all_isPart_of_areName (named : letters.areName name = true) :
    ∀ c ∈ name, letters.isPart c = true := by
  cases name with
  | nil => cases named
  | cons c more =>
      simp only [areName, Bool.and_eq_true, List.all_eq_true] at named
      intro d isIn
      cases isIn with
      | head => exact isPart_of_isStart named.1
      | tail _ inMore => exact named.2 d inMore

theorem exists_start_of_areName (named : letters.areName name = true) :
    ∃ c more, name = c :: more ∧ letters.isStart c = true := by
  cases name with
  | nil => cases named
  | cons c more =>
      simp only [areName, Bool.and_eq_true] at named
      exact ⟨c, more, rfl, named.1⟩

/-- Letters of ASCII make a name. -/
theorem areName_of_isAlpha {c : Char} {more : List Char}
    (all : (c :: more).all Char.isAlpha = true) : letters.areName (c :: more) = true := by
  have start {d : Char} (isIn : d ∈ c :: more) : letters.isStart d = true := by
    simp [isStart, List.all_eq_true.mp all d isIn]
  simp only [areName, Bool.and_eq_true, List.all_eq_true]
  exact ⟨start List.mem_cons_self,
    fun d isIn => isPart_of_isStart (start (List.mem_cons_of_mem c isIn))⟩

/-- What a name is followed by is found behind its last character. -/
theorem dropWhile_append (all : ∀ c ∈ name, letters.isPart c = true) (ends : letters.Ends rest) :
    (name ++ rest).dropWhile letters.isPart = rest := by
  rw [List.dropWhile_append_of_pos all]
  cases rest with
  | nil => rfl
  | cons c rest => rw [List.dropWhile_cons_of_neg (by simp [ends c rfl])]

/-- A name is split off in one way. -/
theorem append_inj (all : ∀ c ∈ name, letters.isPart c = true)
    (allOther : ∀ c ∈ other, letters.isPart c = true) (ends : letters.Ends rest)
    (endsAfter : letters.Ends after) (same : name ++ rest = other ++ after) :
    name = other ∧ rest = after := by
  have sameRest : rest = after := by
    rw [← dropWhile_append all ends, same, dropWhile_append allOther endsAfter]
  subst sameRest
  exact ⟨List.append_cancel_right same, rfl⟩

/-- A plain name is split off in one way. -/
theorem isName_append_inj {name other : String} (named : letters.isName name = true)
    (namedOther : letters.isName other = true) (ends : letters.Ends rest)
    (endsAfter : letters.Ends after) (same : name.toList ++ rest = other.toList ++ after) :
    name = other ∧ rest = after := by
  obtain ⟨sameName, sameRest⟩ :=
    append_inj (all_isPart_of_areName named) (all_isPart_of_areName namedOther) ends endsAfter same
  exact ⟨String.toList_inj.mp sameName, sameRest⟩

end Letters

/-- A text between quotes is split off in one way. -/
theorem Json.quoteChars_append_inj {text other : String} {rest after : List Char}
    (same : quoteChars text ++ rest = quoteChars other ++ after) : text = other ∧ rest = after := by
  simp only [quoteChars, List.cons_append, List.append_assoc, List.cons.injEq, true_and,
    List.nil_append] at same
  have read := readText_quoted text.toList rest
  rw [same, readText_quoted] at read
  simp only [Option.some.injEq, Prod.mk.injEq] at read
  exact ⟨(String.toList_inj.mp read.1).symm, read.2.symm⟩

end WorkspaceBuild
