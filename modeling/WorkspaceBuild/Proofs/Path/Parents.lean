import WorkspaceBuild.Proofs.Disk.Lookups
import Mathlib.Data.List.Induction

/-! # Folders above a path

A path that goes on from a folder along names has that folder among its ancestors, however it is
spelled. Nearer than it are only the folders in between.
-/

namespace WorkspaceBuild.Path

variable {p q : Path} {cs : List Component} {last : String} {names : List String}

theorem componentOf_eq_none_iff {piece : String} : componentOf piece = none ↔ isVoid piece = true := by
  rw [componentOf]
  split
  · simp [*]
  · rename_i notVoid
    split <;> simpa using notVoid

/-- The folder of an absolute path that ends in a name has its components but the last one. -/
theorem exists_parent? (absolute : p.isAbsolute = true) (named : p.components = cs ++ [.name last]) :
    ∃ folder, p.parent? = some folder ∧ folder.components = cs := by
  obtain ⟨marks, split⟩ := pieces_of_isAbsolute absolute
  have noSlash : ∀ part ∈ p.marked.2, '/' ∉ part.toList := fun part listed =>
    Text.not_mem_of_mem_pieces (split ▸ List.mem_cons_of_mem _ listed)
  rw [components, marks, List.singleton_append] at named
  obtain ⟨inner, rfl, whole⟩ : ∃ inner, cs = .root :: inner ∧
      p.marked.2.filterMap componentOf = inner ++ [.name last] := by
    cases cs with
    | nil => simp at named
    | cons c inner =>
        obtain ⟨rfl, whole⟩ := List.cons.inj named
        exact ⟨inner, rfl, whole⟩
  obtain ⟨before, rest, pieces, above, ending⟩ := List.filterMap_eq_append_iff.mp whole
  obtain ⟨voids, piece, more, rfl, void, isLast, nothing⟩ := List.filterMap_eq_cons_iff.mp ending
  have moreVoid : ∀ piece ∈ more, isVoid piece = true := fun piece listed =>
    componentOf_eq_none_iff.mp (List.filterMap_eq_nil_iff.mp nothing piece listed)
  have notVoid : ¬ isVoid piece = true := by
    rw [← componentOf_eq_none_iff, isLast]
    simp
  have reversed : p.marked.2.reverse.dropWhile isVoid = piece :: (before ++ voids).reverse := by
    rw [pieces, ← List.append_assoc, List.reverse_append, List.reverse_cons, List.append_assoc,
      List.dropWhile_append_of_pos fun piece listed => moreVoid piece (List.mem_reverse.mp listed),
      List.singleton_append, List.dropWhile_cons_of_neg notVoid]
  refine ⟨ofMarked [.root] (dropVoidEnd (before ++ voids)), ?_, ?_⟩
  · rw [parent?]
    simp only [reversed, List.reverse_reverse, marks]
  · obtain ⟨dropped, whole, _⟩ := dropVoidEnd_spec (before ++ voids)
    rw [components_ofMarked_root, filterMap_dropVoidEnd, List.filterMap_append, above,
      List.filterMap_eq_nil_iff.mpr void, List.append_nil]
    intro part listed
    refine noSlash part ?_
    have within : part ∈ before ++ voids := whole ▸ List.mem_append_left _ listed
    rw [pieces, ← List.append_assoc]
    exact List.mem_append_left _ within

/-- What starts with a piece that is not empty is not absolute. -/
theorem isAbsolute_joined {first : String} {rest : List String} (some : first ≠ "")
    (noSlash : ∀ part ∈ first :: rest, '/' ∉ part.toList) :
    isAbsolute ⟨Text.joined "/" (first :: rest)⟩ = false := by
  have pieces : Text.pieces '/' (Path.mk (Text.joined "/" (first :: rest))).text = first :: rest :=
    Text.pieces_joined (by simp) noSlash
  rw [Bool.eq_false_iff, ne_eq, isAbsolute_iff _ pieces]
  exact fun empty => some empty.1

/-- The pieces of a folder are the first ones of the path. -/
theorem dropVoidEnd_isPrefix {parts more : List String} {last : String}
    (rest : parts.reverse.dropWhile isVoid = last :: more) : dropVoidEnd more.reverse <+: parts := by
  obtain ⟨voids, whole, _⟩ := dropVoidEnd_spec more.reverse
  have split := List.takeWhile_append_dropWhile (p := isVoid) (l := parts.reverse)
  rw [rest] at split
  have same : parts = more.reverse ++ last :: (parts.reverse.takeWhile isVoid).reverse := by
    rw [← List.reverse_inj, ← split]
    simp [split]
  have front : dropVoidEnd more.reverse <+: more.reverse := ⟨voids, whole.symm⟩
  rw [same]
  exact front.trans (List.prefix_append _ _)

/-- Only an absolute path has an absolute folder. -/
theorem isAbsolute_of_parent? (found : p.parent? = some q) (absolute : q.isAbsolute = true) :
    p.isAbsolute = true := by
  by_contra notAbsolute
  have relative : p.isAbsolute = false := by simpa using notAbsolute
  cases split : Text.pieces '/' p.text with
  | nil => exact Text.pieces_ne_nil _ _ split
  | cons first rest =>
      have noSlash : ∀ part ∈ first :: rest, '/' ∉ part.toList := fun part listed =>
        Text.not_mem_of_mem_pieces (split ▸ listed)
      have isRelative : q.isAbsolute = false := by
        by_cases dot : first = "."
        · have marked : p.marked = ([.current], rest) := by
            simp [Path.marked, split, relative, dot]
          simp only [parent?, marked] at found
          split at found
          · rename_i last more reversed
            cases found
            refine isAbsolute_joined (by decide) (List.forall_mem_cons.mpr ⟨by decide, ?_⟩)
            exact fun part listed => noSlash part
              (List.mem_cons_of_mem _ ((dropVoidEnd_isPrefix reversed).subset listed))
          · cases found
            rfl
        · have marked : p.marked = ([], first :: rest) := by
            simp [Path.marked, split, relative, dot]
          simp only [parent?, marked] at found
          split at found
          · rename_i last more reversed
            cases found
            have front := dropVoidEnd_isPrefix reversed
            change isAbsolute ⟨Text.joined "/" (dropVoidEnd more.reverse)⟩ = false
            cases parts : dropVoidEnd more.reverse with
            | nil => rfl
            | cons head tail =>
                rw [parts] at front
                obtain ⟨rfl, _⟩ := List.cons_prefix_cons.mp front
                refine isAbsolute_joined ?_ fun part listed => noSlash part (front.subset listed)
                rintro rfl
                -- alone an empty piece is the empty path, which has no folder
                have alone : rest = [] := by
                  by_contra others
                  exact notAbsolute ((isAbsolute_iff p split).mpr ⟨rfl, others⟩)
                rw [alone] at reversed
                cases reversed
          · cases found
      rw [isRelative] at absolute
      cases absolute

theorem ancestors_eq (found : p.parent? = some q) (shorter : p.components.length = q.components.length + 1) :
    p.ancestors = p :: q.ancestors := by
  rw [ancestors, shorter, parents, found, ancestors]

/-- Above a path that goes on from a folder stands the folder, behind the folders on the way. -/
theorem exists_ancestors (absolute : p.isAbsolute = true)
    (below : p.components = cs ++ names.map Component.name) (rooted : .root ∈ cs) :
    ∃ nearer above further, p.ancestors = nearer ++ above :: further ∧ above.components = cs ∧
      ∀ folder ∈ nearer, ∃ way, way ≠ [] ∧ way <+: names ∧
        folder.components = cs ++ way.map Component.name := by
  induction names using List.reverseRec generalizing p with
  | nil => exact ⟨[], p, _, rfl, by simpa using below, by simp⟩
  | append_singleton names last ih =>
      rw [List.map_append, List.map_singleton, ← List.append_assoc] at below
      obtain ⟨folder, found, above⟩ := exists_parent? absolute below
      have folderAbsolute : folder.isAbsolute = true := by
        rw [← root_mem_components_iff, above]
        exact List.mem_append_left _ rooted
      obtain ⟨nearer, base, further, split, isBase, between⟩ := ih folderAbsolute above
      refine ⟨p :: nearer, base, further, ?_, isBase, List.forall_mem_cons.mpr ⟨?_, ?_⟩⟩
      · rw [ancestors_eq found (by rw [below, above, List.length_append]; rfl), split]
        rfl
      · refine ⟨names ++ [last], by simp, List.prefix_refl _, ?_⟩
        rw [below, List.map_append, List.map_singleton, List.append_assoc]
      · intro other listed
        obtain ⟨way, some, start, place⟩ := between other listed
        exact ⟨way, some, start.trans (List.prefix_append _ _), place⟩

/-- The steps of a relative text are its components, but for a dot at the start. -/
theorem steps_eq_filter {further : String} (relative : isAbsolute ⟨further⟩ = false) :
    steps further = (components ⟨further⟩).filter (· ≠ .current) := by
  have kept (parts : List String) :
      (parts.filterMap componentOf).filter (· ≠ .current) = parts.filterMap componentOf := by
    rw [List.filter_eq_self]
    intro c listed
    obtain ⟨piece, _, same⟩ := List.mem_filterMap.mp listed
    rw [componentOf] at same
    split at same
    · cases same
    · split at same <;> cases same <;> rfl
  cases split : Text.pieces '/' further with
  | nil => exact absurd split (Text.pieces_ne_nil _ _)
  | cons first rest =>
      rw [steps_eq split, components_eq ⟨further⟩ split, relative, List.filter_append, kept, leadOf,
        if_neg Bool.false_ne_true]
      split
      · rename_i dot
        subst dot
        rfl
      · have alone := kept [first]
        rw [List.filterMap_cons, List.filterMap_nil] at alone
        cases component : componentOf first with
        | none => rfl
        | some c =>
            rw [component] at alone
            rw [Option.toList_some, alone]

theorem isAbsolute_congr (same : p.components = q.components) : p.isAbsolute = q.isAbsolute := by
  rw [Bool.eq_iff_iff, ← root_mem_components_iff, ← root_mem_components_iff, same]

/-- Joining goes by components. -/
theorem components_join_congr {base other : Path} (absolute : base.isAbsolute = true)
    (same : base.components = other.components) (alike : p.components = q.components) :
    (base.join p.text).components = (other.join q.text).components := by
  have alsoAbsolute : other.isAbsolute = true := isAbsolute_congr same ▸ absolute
  cases whole : p.isAbsolute with
  | true =>
      have alsoWhole : q.isAbsolute = true := isAbsolute_congr alike ▸ whole
      simpa [join, whole, alsoWhole] using alike
  | false =>
      have alsoPart : q.isAbsolute = false := isAbsolute_congr alike ▸ whole
      rw [components_join whole (text_ne_empty absolute),
        components_join alsoPart (text_ne_empty alsoAbsolute), steps_eq_filter whole,
        steps_eq_filter alsoPart, same]
      exact congrArg (other.components ++ List.filter _ ·) alike

end WorkspaceBuild.Path
