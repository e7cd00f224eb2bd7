import WorkspaceBuild.Proofs.Builder.Removals

/-! # What is out of sight

A module does not see what is outside of its folder, behind a name that scans skip, or in a folder
that its scan does not enter. The files that it lists it has seen.
-/

namespace WorkspaceBuild

namespace Scan

variable {scope : Scope} {before : List String} {entries : List (String × Item)} {names : Place}

/-- A scan looks at nothing behind a name that it skips. -/
theorem LooksIn.not_skipped {folder : String} (looks : LooksIn scope folder entries names) :
    ∀ name ∈ names, isSkipped name = false := by
  induction names generalizing folder entries with
  | nil => exact List.forall_mem_nil _
  | cons name rest ih =>
      obtain ⟨seen, rfl | rfl | ⟨_, later⟩⟩ := looks
      · exact List.forall_mem_singleton.mpr seen
      · exact List.forall_mem_cons.mpr ⟨seen, List.forall_mem_singleton.mpr (by decide)⟩
      · exact List.forall_mem_cons.mpr ⟨seen, ih later⟩

/-- A scan enters the folders on the way to what it looks at, but for one whose descriptor keeps it
out. -/
theorem LooksIn.enters {folders rest : Place} {name : String}
    (looks : LooksIn scope (Path.spell before) entries (folders ++ name :: rest))
    (plain : ∀ other ∈ before ++ folders, Path.IsPlain other) (below : rest ≠ [])
    (other : rest ≠ [descriptorFile]) :
    scope.enters (Path.spell (before ++ folders ++ [name])) name
      (Disk.heldAt entries (folders ++ [name])) = true := by
  induction folders generalizing before entries with
  | nil =>
      obtain ⟨_, none | alone | ⟨entered, _⟩⟩ := looks
      · exact absurd none below
      · exact absurd alone other
      · rw [List.append_nil] at plain ⊢
        rwa [below_spell plain] at entered
  | cons first folders ih =>
      have plainBefore : ∀ other ∈ before, Path.IsPlain other := fun other listed =>
        plain other (List.mem_append_left _ listed)
      obtain ⟨_, none | alone | ⟨_, later⟩⟩ := looks
      · exact absurd none (by simp)
      · refine absurd (List.append_eq_singleton_iff.mp alone) ?_
        simp [below]
      · rw [below_spell plainBefore] at later
        have entered := ih later (by simpa using plain)
        rwa [List.append_assoc before [first] folders] at entered

theorem Admits.looksIn (admits : Admits scope before entries names)
    (plain : ∀ name ∈ before ++ names, Path.IsPlain name) (some : names ≠ []) :
    LooksIn scope (Path.spell before) entries names := by
  induction names generalizing before entries with
  | nil => exact absurd rfl some
  | cons name rest ih =>
      cases rest with
      | nil => exact ⟨admits_singleton.mp admits, .inl rfl⟩
      | cons next rest =>
          have plainBefore : ∀ other ∈ before, Path.IsPlain other := fun other listed =>
            plain other (List.mem_append_left _ listed)
          obtain ⟨seen, entered, later⟩ := admits_cons.mp admits
          refine ⟨seen, .inr (.inr ?_)⟩
          rw [below_spell plainBefore]
          exact ⟨entered, ih later (by simpa using plain) (List.cons_ne_nil _ _)⟩

end Scan

namespace Module

variable {m : Module} {disk : Disk} {settings : Settings} {full : Bool} {place : Place}

/-- A module does not see what is at a place: it is not in the module's folder, or behind a name that
scans skip, or in a folder that the module's scan leaves out. Of such a folder the descriptor is
seen. -/
inductive Misses (m : Module) (disk : Disk) (settings : Settings) (full : Bool) (place : Place) :
    Prop where
  | outside (apart : ¬ m.source.target <+: place) : Misses m disk settings full place
  | skipped {front rest : Place} {name : String}
      (same : place = m.source.target ++ front ++ name :: rest)
      (skipped : Scan.isSkipped name = true) : Misses m disk settings full place
  | leftOut {way rest : Place} (same : place = m.source.target ++ way ++ rest) (some : way ≠ [])
      (below : rest ≠ []) (other : rest ≠ [descriptorFile])
      (left : m.LeavesOut disk settings full way) : Misses m disk settings full place

/-- What a module does not see its scan does not look at. -/
theorem Misses.not_looksAt (h : m.Misses disk settings full place)
    (plain : ∀ name ∈ place, Path.IsPlain name)
    {entries : List (String × Item)} {modified : Nat}
    (there : disk.item m.source = .ok (.folder entries modified)) :
    ¬ (m.scope settings full).LooksAt disk place := by
  have here := (Disk.item_eq_ok_iff.mp there).2
  rintro (rfl | ⟨others, otherModified, names, found, looks, rfl⟩)
  · cases h with
    | outside apart => exact apart List.prefix_rfl
    | skipped same => simp [scope] at same
    | leftOut same some => simp [scope, some] at same
  · change disk.itemAt? m.source.target = _ at found
    cases here.symm.trans found
    cases h with
    | outside apart => exact apart (List.prefix_append _ _)
    | @skipped front rest name same skipped =>
        obtain rfl : names = front ++ name :: rest := by simpa [scope] using same
        exact Bool.false_ne_true ((looks.not_skipped name (by simp)).symm.trans skipped)
    | @leftOut way rest same some below other left =>
        obtain rfl : names = way ++ rest := by simpa [scope] using same
        obtain ⟨folders, name, rfl⟩ := List.eq_nil_or_concat way |>.resolve_left some
        rw [List.concat_eq_append] at *
        have plainWay : ∀ other ∈ folders ++ [name], Path.IsPlain other := fun other listed =>
          plain other (List.mem_append_right _ (List.mem_append_left _ listed))
        rw [List.append_assoc, List.singleton_append] at looks
        have atHome : Scan.LooksIn (m.scope settings full) (Path.spell []) entries
            (folders ++ name :: rest) := looks
        have entered := atHome.enters
          (fun other listed => plainWay other (List.mem_append_left _ listed)) below other
        rw [List.nil_append] at entered
        rw [← enters_eq_false_iff there plainWay, entered] at left
        cases left

/-- A module has looked at the files that it lists. -/
theorem IsCurrent.looksAt (h : m.IsCurrent disk settings full) (proper : disk.IsProper)
    {category : Category} {entry : FileEntry} (listed : (category, entry) ∈ m.entries) :
    (m.scope settings full).LooksAt disk (m.sourcePath entry).target := by
  obtain ⟨entries, modified, there, ordered, plain⟩ := h.exists_entries proper
  obtain ⟨names, path, found, admits⟩ :=
    (h.mem_entries_iff there ordered plain).mp ⟨category, entry, listed, rfl⟩
  have plainNames := Disk.isPlain_of_fileIn? plain found
  have some : names ≠ [] := by
    rintro rfl
    cases found
  obtain ⟨reaches, here⟩ := Disk.item_eq_ok_iff.mp there
  refine .inr ⟨entries, modified, names, here, admits.looksIn plainNames some, ?_⟩
  rw [sourcePath, path]
  exact Path.target_of_below reaches.1 (Path.components_join_spell m.source plainNames)

end Module

end WorkspaceBuild
