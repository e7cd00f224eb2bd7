import WorkspaceBuild.Proofs.Path.Parents

/-! # Paths seen from a folder

A path below a folder has components of the folder first. Seen from the folder it has the others.
-/

namespace WorkspaceBuild.Path

variable {p base : Path} {cs : List Component} {parts : List String}

theorem filterMap_dropPieces (count : Nat) (parts : List String) :
    (dropPieces count parts).filterMap componentOf = (parts.filterMap componentOf).drop count := by
  induction parts generalizing count with
  | nil => cases count <;> rfl
  | cons piece rest ih =>
      cases count with
      | zero => rfl
      | succ count =>
          rw [dropPieces]
          split
          · rename_i void
            rw [ih, List.filterMap_cons_none (componentOf_eq_none_iff.mpr void)]
          · rename_i notVoid
            cases said : componentOf piece with
            | none => exact absurd (componentOf_eq_none_iff.mp said) notVoid
            | some c => rw [List.filterMap_cons_some said, List.drop_succ_cons, ih]

theorem dropPieces_isSuffix (count : Nat) (parts : List String) :
    dropPieces count parts <:+ parts := by
  induction parts generalizing count with
  | nil => cases count <;> exact List.suffix_rfl
  | cons piece rest ih =>
      cases count with
      | zero => exact List.suffix_rfl
      | succ count =>
          rw [dropPieces]
          split
          · exact (ih _).trans (List.suffix_cons _ _)
          · exact (ih _).trans (List.suffix_cons _ _)

/-- Pieces are written as a path of their components, once void ones are left out at both ends. -/
theorem components_written (noSlash : ∀ part ∈ parts, '/' ∉ part.toList) :
    components ⟨Text.joined "/" (dropVoidEnd (parts.dropWhile isVoid))⟩ =
      parts.filterMap componentOf := by
  have whole := List.takeWhile_append_dropWhile (p := isVoid) (l := parts)
  have voids : (parts.takeWhile isVoid).filterMap componentOf = [] :=
    filterMap_void fun piece listed => List.mem_takeWhile_imp listed
  have same : parts.filterMap componentOf = (parts.dropWhile isVoid).filterMap componentOf := by
    rw [← List.nil_append (List.filterMap componentOf (parts.dropWhile isVoid)), ← voids,
      ← List.filterMap_append, whole]
  have plain : ∀ part ∈ parts.dropWhile isVoid, '/' ∉ part.toList := fun part listed =>
    noSlash part ((List.dropWhile_sublist _).mem listed)
  rw [same]
  cases left : parts.dropWhile isVoid with
  | nil => rfl
  | cons first rest =>
      rw [left] at plain
      have notVoid : isVoid first = false := by
        have head := List.head?_dropWhile_not isVoid parts
        rw [left] at head
        simpa using head
      obtain ⟨dropped, split, _⟩ := dropVoidEnd_spec rest
      have kept : ∀ part ∈ first :: dropVoidEnd rest, '/' ∉ part.toList := by
        intro part listed
        refine plain part ?_
        rw [split, ← List.cons_append]
        exact List.mem_append_left _ listed
      rw [dropVoidEnd_cons notVoid]
      refine (components_ofMarked_nil kept notVoid).trans ?_
      rw [← dropVoidEnd_cons notVoid, filterMap_dropVoidEnd]

/-- A path below a folder is seen from there by the components that it has besides. -/
theorem exists_below? (absolute : base.isAbsolute = true) (below : p.components = base.components ++ cs) :
    ∃ q, p.below? base = some q ∧ q.components = cs := by
  obtain ⟨marks, _⟩ := pieces_of_isAbsolute absolute
  have alsoAbsolute : p.isAbsolute = true := by
    rw [← root_mem_components_iff, below]
    exact List.mem_append_left _ (root_mem_components_iff.mpr absolute)
  obtain ⟨alsoMarks, split⟩ := pieces_of_isAbsolute alsoAbsolute
  have rooted : base.components = .root :: base.marked.2.filterMap componentOf := by
    rw [components, marks]
    rfl
  have alsoRooted : p.components = .root :: p.marked.2.filterMap componentOf := by
    rw [components, alsoMarks]
    rfl
  have starts : p.startsWith base = true := by
    rw [startsWith, List.isPrefixOf_iff_prefix, below]
    exact List.prefix_append _ _
  have some : base.components.length ≠ 0 := by simp [rooted]
  have noSlash : ∀ part ∈ dropPieces (base.components.length - 1) p.marked.2, '/' ∉ part.toList := by
    intro part listed
    have inPath : part ∈ Text.pieces '/' p.text := by
      rw [split]
      exact List.mem_cons_of_mem _ ((dropPieces_isSuffix _ _).subset listed)
    exact Text.not_mem_of_mem_pieces inPath
  refine ⟨⟨Text.joined "/" (dropVoidEnd
    ((dropPieces (base.components.length - 1) p.marked.2).dropWhile isVoid))⟩, ?_, ?_⟩
  · rw [below?, if_pos starts]
    simp only [alsoMarks, if_neg some, List.length_singleton]
  · rw [components_written noSlash, filterMap_dropPieces]
    have dropped := congrArg (List.drop base.components.length) below
    rw [List.drop_left] at dropped
    rw [← dropped, alsoRooted, rooted]
    rfl

end WorkspaceBuild.Path
