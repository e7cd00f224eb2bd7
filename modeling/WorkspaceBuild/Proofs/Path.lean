import WorkspaceBuild.Category
import Mathlib.Data.List.TakeWhile

/-! # Pieces of paths

The text of a path is cut at its slashes. A path written from pieces has these pieces again, and
what stands after the last slash has no part in the others.
-/

namespace WorkspaceBuild

namespace Text

theorem pieces_ne_nil (separator : Char) (text : String) : pieces separator text ≠ [] := by
  simp [pieces, List.splitOn_ne_nil]

theorem not_mem_of_mem_splitOn {α : Type} [BEq α] [LawfulBEq α] {separator : α} {xs piece : List α}
    (member : piece ∈ xs.splitOn separator) : separator ∉ piece := by
  induction xs generalizing piece with
  | nil =>
      obtain rfl : piece = [] := by simpa using member
      exact List.not_mem_nil
  | cons x rest ih =>
      rw [List.splitOn_cons_eq_if_modifyHead] at member
      split at member
      · rcases List.mem_cons.mp member with rfl | member
        · exact List.not_mem_nil
        · exact ih member
      · rename_i other
        cases split : rest.splitOn separator with
        | nil => exact absurd split (List.splitOn_ne_nil _ _)
        | cons first others =>
            rw [split, List.modifyHead_cons] at member
            rcases List.mem_cons.mp member with rfl | member
            · have notFirst := ih (split ▸ List.mem_cons_self)
              simp only [List.mem_cons, not_or]
              exact ⟨fun same => other (by simp [same]), notFirst⟩
            · exact ih (split ▸ List.mem_cons_of_mem _ member)

/-- Text put together from pieces is cut into these pieces. -/
theorem pieces_joined {separator : Char} {parts : List String} (some : parts ≠ [])
    (plain : ∀ part ∈ parts, separator ∉ part.toList) :
    pieces separator (joined (String.singleton separator) parts) = parts := by
  have split : (List.intercalate [separator] (parts.map String.toList)).splitOn separator =
      parts.map String.toList := by
    refine List.splitOn_intercalate separator ?_ (by simpa using some)
    intro part member
    obtain ⟨part, listed, rfl⟩ := List.mem_map.mp member
    exact plain part listed
  simp [pieces, joined, split, Function.comp_def]

theorem dropLast_splitOn_append {α : Type} [BEq α] [LawfulBEq α] {separator : α}
    (stem : List α) {ending : List α} (plain : separator ∉ ending) :
    ((stem ++ ending).splitOn separator).dropLast = (stem.splitOn separator).dropLast := by
  induction stem with
  | nil => simp [List.splitOn_eq_singleton plain]
  | cons x rest ih =>
      rw [List.cons_append, List.splitOn_cons_eq_if_modifyHead, List.splitOn_cons_eq_if_modifyHead]
      have nonempty := List.splitOn_ne_nil separator (rest ++ ending)
      have alsoNonempty := List.splitOn_ne_nil separator rest
      split
      · rw [List.dropLast_cons_of_ne_nil nonempty, List.dropLast_cons_of_ne_nil alsoNonempty, ih]
      · cases first : (rest ++ ending).splitOn separator with
        | nil => exact absurd first nonempty
        | cons a as =>
            cases second : rest.splitOn separator with
            | nil => exact absurd second alsoNonempty
            | cons b bs =>
                rw [first, second] at ih
                cases as <;> cases bs <;> simp_all

/-- Ending a text another way leaves all its pieces but the last one. -/
theorem dropLast_pieces_append {separator : Char} (stem : String) {ending : String}
    (plain : separator ∉ ending.toList) :
    (pieces separator (stem ++ ending)).dropLast = (pieces separator stem).dropLast := by
  rw [pieces, pieces, ← List.map_dropLast, ← List.map_dropLast, String.toList_append,
    dropLast_splitOn_append _ plain]

theorem eq_of_dropStartChars? {start text rest : List Char}
    (dropped : dropStartChars? start text = some rest) : text = start ++ rest := by
  induction start generalizing text with
  | nil =>
      cases dropped
      rfl
  | cons c start ih =>
      cases text with
      | nil => cases dropped
      | cons d text =>
          rw [dropStartChars?] at dropped
          split at dropped
          · rename_i same
            rw [same, ih dropped, List.cons_append]
          · cases dropped

theorem eq_of_dropEnd? {text ending stem : String} (dropped : dropEnd? text ending = some stem) :
    text = stem ++ ending := by
  obtain ⟨rest, found, rfl⟩ := Option.map_eq_some_iff.mp dropped
  have reversed := congrArg List.reverse (eq_of_dropStartChars? found)
  rw [List.reverse_reverse, List.reverse_append, List.reverse_reverse] at reversed
  rw [← String.toList_inj, reversed]
  simp

theorem not_mem_of_mem_pieces {separator : Char} {text piece : String}
    (member : piece ∈ pieces separator text) : separator ∉ piece.toList := by
  obtain ⟨chars, listed, rfl⟩ := List.mem_map.mp member
  rw [String.toList_ofList]
  exact not_mem_of_mem_splitOn listed

end Text

namespace Path

variable {path folder : Path}

/-- The text of an absolute path starts with a slash, before which there is nothing. -/
theorem pieces_of_isAbsolute (absolute : path.isAbsolute = true) :
    path.marked.1 = [.root] ∧ Text.pieces '/' path.text = "" :: path.marked.2 := by
  have starts : ∃ rest, path.text.toList = '/' :: rest := by
    rw [isAbsolute] at absolute
    split at absolute
    · rename_i rest same
      exact ⟨rest, same⟩
    · cases absolute
  obtain ⟨rest, same⟩ := starts
  have split : Text.pieces '/' path.text = "" :: (rest.splitOn '/').map String.ofList := by
    rw [Text.pieces, same, List.splitOn_cons_eq_if_modifyHead]
    rfl
  simp [marked, split, absolute]

/-- A path written after a slash has the pieces it was written from. -/
theorem pieces_rooted {parts : List String} (plain : ∀ part ∈ parts, '/' ∉ part.toList) :
    Text.pieces '/' ("/" ++ Text.joined "/" parts) =
      "" :: if parts = [] then [""] else parts := by
  have split : Text.pieces '/' ("/" ++ Text.joined "/" parts) =
      "" :: Text.pieces '/' (Text.joined "/" parts) := by
    rw [Text.pieces, String.toList_append]
    change List.map _ (('/' :: (Text.joined "/" parts).toList).splitOn '/') = _
    rw [List.splitOn_cons_eq_if_modifyHead]
    rfl
  rw [split]
  split
  · rename_i none
    subst none
    rfl
  · rename_i some
    rw [show "/" = String.singleton '/' from rfl, Text.pieces_joined some plain]

theorem dropVoidEnd_spec (parts : List String) : ∃ voids, parts = dropVoidEnd parts ++ voids ∧
    ∀ piece ∈ voids, isVoid piece = true := by
  refine ⟨(parts.reverse.takeWhile isVoid).reverse, ?_, fun piece member => ?_⟩
  · rw [dropVoidEnd, ← List.reverse_append, List.takeWhile_append_dropWhile, List.reverse_reverse]
  · exact List.mem_takeWhile_imp (List.mem_reverse.mp member)

/-- The folder of an absolute path has its pieces up to the last one that says something. -/
theorem parent?_of_isAbsolute (absolute : path.isAbsolute = true)
    (found : path.parent? = some folder) : ∃ before last voids,
      path.marked.2 = before ++ last :: voids ∧
        folder = ⟨"/" ++ Text.joined "/" (dropVoidEnd before)⟩ := by
  obtain ⟨marks, _⟩ := pieces_of_isAbsolute absolute
  have split := List.takeWhile_append_dropWhile (p := isVoid) (l := path.marked.2.reverse)
  simp only [parent?, marks] at found
  split at found
  · rename_i last more rest
    rw [rest] at split
    refine ⟨more.reverse, last, (path.marked.2.reverse.takeWhile isVoid).reverse, ?_, ?_⟩
    · rw [← List.reverse_inj, ← split]
      simp [split]
    · exact (Option.some_inj.mp found).symm
  · cases found

/-- The folder of an absolute path is absolute. -/
theorem isAbsolute_folder (absolute : path.isAbsolute = true)
    (found : path.parent? = some folder) : folder.isAbsolute = true := by
  obtain ⟨_, _, _, _, rfl⟩ := parent?_of_isAbsolute absolute found
  simp [isAbsolute]

theorem isAbsolute_append (stem : String) {ending : String} (plain : '/' ∉ ending.toList) :
    isAbsolute ⟨stem ++ ending⟩ = isAbsolute ⟨stem⟩ := by
  simp only [isAbsolute, String.toList_append]
  cases stem.toList with
  | cons c rest =>
      rw [List.cons_append]
      split <;> simp_all
  | nil =>
      cases chars : ending.toList with
      | nil => rfl
      | cons c rest =>
          have other : c ≠ '/' := by
            rintro rfl
            simp [chars] at plain
          simp only [List.nil_append]
          split <;> simp_all

/-- An ending without a slash may be written before or after joining. -/
theorem join_append (base : Path) (stem : String) {ending : String}
    (plain : '/' ∉ ending.toList) : base.join (stem ++ ending) = ⟨(base.join stem).text ++ ending⟩ := by
  simp only [join, isAbsolute_append stem plain]
  split
  · rfl
  · split
    · rw [String.append_assoc]
    · simp only [String.append_assoc]

end Path

/-- An output bears the name of its file, but for the ending. -/
theorem compiledPath_cases (path : String) (kind : FileKind) : compiledPath path kind = path ∨
    ∃ stem, ∃ pair ∈ compiledExtensions, path = stem ++ pair.1 ∧
      compiledPath path kind = stem ++ pair.2 := by
  rw [compiledPath]
  split
  · generalize found : compiledExtensions.findSome? _ = answer
    cases answer with
    | none => exact .inl rfl
    | some output =>
        obtain ⟨pair, listed, made⟩ := List.exists_of_findSome?_eq_some found
        obtain ⟨stem, dropped, rfl⟩ := Option.map_eq_some_iff.mp made
        exact .inr ⟨stem, pair, listed, Text.eq_of_dropEnd? dropped, rfl⟩
  · exact .inl rfl

theorem noSlash_of_mem_compiledExtensions {pair : String × String}
    (listed : pair ∈ compiledExtensions) : '/' ∉ pair.1.toList ∧ '/' ∉ pair.2.toList := by
  have all : ∀ pair ∈ compiledExtensions, '/' ∉ pair.1.toList ∧ '/' ∉ pair.2.toList := by decide
  exact all pair listed

end WorkspaceBuild
