import WorkspaceBuild.Proofs.Disk.Spellings
import WorkspaceBuild.Proofs.Looks.Scans

/-! # What scans find

A scan finds a file just when no name on the way to it is one to skip and every folder on the way is
one to enter.
-/

namespace WorkspaceBuild

theorem Path.spell_injective {names others : List String} (plain : ∀ name ∈ names, IsPlain name)
    (alsoPlain : ∀ name ∈ others, IsPlain name) (same : spell names = spell others) :
    names = others := by
  have alike := congrArg (fun text => components ⟨text⟩) same
  rw [components_spell plain, components_spell alsoPlain] at alike
  exact map_name_injective alike

/-- Names spell the last of them when no folder is before it. -/
theorem Path.spell_append_singleton_eq_iff {folders : List String} {name : String}
    (plain : ∀ other ∈ folders ++ [name], IsPlain other) :
    spell (folders ++ [name]) = name ↔ folders = [] := by
  constructor
  · intro same
    have plainName : ∀ other ∈ [name], IsPlain other := fun other listed =>
      plain other (List.mem_append_right _ listed)
    simpa using spell_injective plain plainName (same.trans (spell_singleton name).symm)
  · rintro rfl
    exact spell_singleton name

namespace Item

theorem mem_flatMap_iff_given {β : Type} {f : String → Item → List β} {entries : List (String × Item)}
    (ascending : NamesAscend entries) {b : β} :
    b ∈ entries.flatMap (fun pair => f pair.1 pair.2) ↔ ∃ name, b ∈ given f entries name := by
  have nodup : (Assoc.keys entries).Nodup := ascending.imp ne_of_lt
  rw [List.mem_flatMap]
  constructor
  · rintro ⟨⟨name, item⟩, listed, member⟩
    have found : child? entries name = some item := Assoc.get?_of_mem nodup listed
    exact ⟨name, by rwa [given, found]⟩
  · rintro ⟨name, member⟩
    rw [given] at member
    cases found : child? entries name with
    | none =>
        rw [found] at member
        cases member
    | some item =>
        rw [found] at member
        exact ⟨(name, item), Assoc.mem_of_get? found, member⟩

end Item

namespace Disk

variable {entries : List (String × Item)} {name next : String} {rest names : Place} {item : Item}

/-- What a folder holds at a place below it. -/
def heldAt (entries : List (String × Item)) : Place → List (String × Item)
  | [] => entries
  | name :: rest => heldAt (heldIn entries name) rest

theorem isFile_of_fileIn? (found : fileIn? entries names = some item) :
    ∃ contents time, item = .file contents time := by
  have file := (Option.filter_eq_some_iff.mp found).2
  cases item with
  | file contents time => exact ⟨contents, time, rfl⟩
  | folder entries time => cases file

theorem fileIn?_empty (names : Place) : fileIn? [] names = none := by
  induction names with
  | nil => rfl
  | cons name rest ih =>
      cases rest with
      | nil => rfl
      | cons next rest =>
          rw [fileIn?_cons]
          exact ih

/-- Nothing is held under the name of a file. -/
theorem heldIn_of_fileIn? (found : (fileIn? entries [name]).isSome) : heldIn entries name = [] := by
  rw [fileIn?_singleton] at found
  rw [heldIn]
  cases held : Item.child? entries name with
  | none => rfl
  | some item =>
      rw [held] at found
      cases item with
      | file contents time => rfl
      | folder inner time => cases found

theorem fileIn?_of_held (found : (fileIn? (heldIn entries name) names).isSome) :
    fileIn? entries [name] = none := by
  by_contra some
  rw [heldIn_of_fileIn? (Option.isSome_iff_ne_none.mpr some), fileIn?_empty] at found
  cases found

theorem isPlain_of_fileIn? (plain : Item.HavePlainNames entries)
    (found : (fileIn? entries names).isSome) : ∀ name ∈ names, Path.IsPlain name := by
  induction names generalizing entries with
  | nil => simp
  | cons name rest ih =>
      cases child : Item.child? entries name with
      | none =>
          have nothing : fileIn? entries (name :: rest) = none := by
            cases rest with
            | nil => rw [fileIn?_singleton, child]; rfl
            | cons next rest =>
                rw [fileIn?_cons, heldIn, child]
                exact fileIn?_empty _
          rw [nothing] at found
          cases found
      | some item =>
          have listed : (name, item) ∈ entries := Assoc.mem_of_get? child
          refine List.forall_mem_cons.mpr ⟨(Item.havePlainNames_iff.mp plain _ listed).1, ?_⟩
          cases rest with
          | nil => simp
          | cons next rest =>
              rw [fileIn?_cons] at found
              refine ih ?_ found
              rw [heldIn, child]
              cases item with
              | file contents time => trivial
              | folder inner time => exact hasPlainNames_of_child? plain child

theorem havePlainNames_heldIn (plain : Item.HavePlainNames entries) (name : String) :
    Item.HavePlainNames (heldIn entries name) := by
  rw [heldIn]
  cases child : Item.child? entries name with
  | none => trivial
  | some item =>
      cases item with
      | file contents time => trivial
      | folder inner time => exact hasPlainNames_of_child? plain child

theorem fileIn?_heldAt (folders : Place) (some : names ≠ []) :
    fileIn? (heldAt entries folders) names = fileIn? entries (folders ++ names) := by
  induction folders generalizing entries with
  | nil => rfl
  | cons name folders ih =>
      rw [heldAt, ih]
      obtain ⟨next, rest, split⟩ := List.exists_cons_of_ne_nil (List.append_ne_nil_of_right_ne_nil folders some)
      rw [List.cons_append, split, fileIn?_cons]

end Disk

namespace Scan

variable {scope : Scope} {before : List String} {entries : List (String × Item)}

/-- A scan goes along names, from a folder at some names before them, to what they lead to: it skips
none of them, and enters every folder on the way. -/
structure Admits (scope : Scope) (before : List String) (entries : List (String × Item))
    (names : Place) : Prop where
  seen : ∀ name ∈ names, isSkipped name = false
  enters : ∀ folders name rest, names = folders ++ name :: rest → rest ≠ [] →
    scope.enters (Path.spell (before ++ folders ++ [name])) name
      (Disk.heldAt entries (folders ++ [name])) = true

/-- A scan enters a folder that settings do not leave out, that holds no package of its own, and that
is not passed over. -/
theorem enters_iff {folders : Place} {name : String}
    (plain : ∀ other ∈ folders ++ [name], Path.IsPlain other) :
    scope.enters (Path.spell (folders ++ [name])) name (Disk.heldAt entries (folders ++ [name])) =
        true ↔
      (∀ e ∈ scope.excluded, (scope.folder.join (Path.spell (folders ++ [name]))).same
          (scope.folder.join e.text) = false) ∧
        Disk.fileIn? entries (folders ++ [name] ++ [descriptorFile]) = none ∧
        (scope.full = true ∨ folders ≠ [] ∨ name ∈ partialFolders) := by
  rw [Scope.enters, holdsPackage_eq, Disk.fileIn?_heldAt _ (by simp)]
  simp [Path.spell_append_singleton_eq_iff plain, and_assoc, or_assoc]

theorem admits_singleton {name : String} :
    Admits scope before entries [name] ↔ isSkipped name = false := by
  refine ⟨fun admits => admits.seen name List.mem_cons_self, fun seen => ⟨by simpa, ?_⟩⟩
  intro folders other rest split some
  have short := congrArg List.length split
  simp only [List.length_append, List.length_cons, List.length_nil] at short
  exact absurd (List.eq_nil_of_length_eq_zero (by omega)) some

theorem admits_cons {name next : String} {rest : Place} :
    Admits scope before entries (name :: next :: rest) ↔ isSkipped name = false ∧
      scope.enters (Path.spell (before ++ [name])) name (Disk.heldIn entries name) = true ∧
        Admits scope (before ++ [name]) (Disk.heldIn entries name) (next :: rest) := by
  constructor
  · intro admits
    obtain ⟨here, later⟩ := List.forall_mem_cons.mp admits.seen
    refine ⟨here, ?_, later, fun folders other more split some => ?_⟩
    · have entered := admits.enters [] name (next :: rest) rfl (List.cons_ne_nil _ _)
      rwa [List.append_nil] at entered
    · rw [List.append_assoc before [name] folders]
      exact admits.enters (name :: folders) other more (by rw [split]; rfl) some
  · rintro ⟨here, entered, later⟩
    refine ⟨List.forall_mem_cons.mpr ⟨here, later.seen⟩, fun folders other more split some => ?_⟩
    cases folders with
    | nil =>
        cases split
        rw [List.append_nil]
        exact entered
    | cons first folders =>
        obtain ⟨rfl, inner⟩ := List.cons.inj split
        have within := later.enters folders other more inner some
        rwa [List.append_assoc before [name] folders] at within

/-- The files that a scan finds in a folder. -/
theorem mem_filesIn_iff {entries : List (String × Item)} {before : List String} (ordered : Item.InOrder entries) (plain : Item.HavePlainNames entries)
    (plainBefore : ∀ name ∈ before, Path.IsPlain name) {path : String} {time : Nat} :
    (path, time) ∈ filesIn scope (Path.spell before) entries ↔ ∃ names contents,
      path = Path.spell (before ++ names) ∧
        Disk.fileIn? entries names = some (.file contents time) ∧ Admits scope before entries names := by
  have deeper {name : String} (plainName : Path.IsPlain name)
      (smaller : sizeOf (Disk.heldIn entries name) < sizeOf entries) :
      (path, time) ∈ filesIn scope (Path.spell (before ++ [name])) (Disk.heldIn entries name) ↔
        ∃ names contents, path = Path.spell (before ++ [name] ++ names) ∧
          Disk.fileIn? (Disk.heldIn entries name) names = some (.file contents time) ∧
            Admits scope (before ++ [name]) (Disk.heldIn entries name) names :=
    mem_filesIn_iff (Disk.inOrder_heldIn ordered name) (Disk.havePlainNames_heldIn plain name)
      (by simpa [or_imp, forall_and] using And.intro plainBefore plainName)
  have plainChild {name : String} (held : Disk.heldIn entries name ≠ []) : Path.IsPlain name := by
    rw [Disk.heldIn] at held
    cases child : Item.child? entries name with
    | none => simp [child] at held
    | some item =>
        have listed : (name, item) ∈ entries := Assoc.mem_of_get? child
        exact (Item.havePlainNames_iff.mp plain _ listed).1
  rw [filesIn_eq_flatMap, Item.mem_flatMap_iff_given ordered.1]
  constructor
  · rintro ⟨name, member⟩
    rw [given_filesUnder] at member
    split at member
    · cases member
    · rename_i seen
      rw [Bool.not_eq_true] at seen
      split at member
      · rename_i file found
        obtain ⟨contents, modified, rfl⟩ := Disk.isFile_of_fileIn? found
        rw [List.mem_singleton, Prod.mk.injEq] at member
        obtain ⟨rfl, rfl⟩ := member
        exact ⟨[name], contents, below_spell plainBefore name, found, admits_singleton.mpr seen⟩
      · split at member
        · rename_i entered
          have some : Disk.heldIn entries name ≠ [] := by
            intro none
            rw [none, filesIn] at member
            cases member
          have smaller := (sizeOf_heldIn entries name).resolve_left some
          rw [below_spell plainBefore] at member entered
          obtain ⟨names, contents, rfl, found, admits⟩ := (deeper (plainChild some) smaller).mp member
          cases names with
          | nil => cases found
          | cons next rest =>
              refine ⟨name :: next :: rest, contents, by simp, ?_, admits_cons.mpr ⟨seen, entered, admits⟩⟩
              rw [Disk.fileIn?_cons, found]
        · cases member
  · rintro ⟨names, contents, rfl, found, admits⟩
    obtain _ | ⟨name, _ | ⟨next, rest⟩⟩ := names
    · cases found
    · refine ⟨name, ?_⟩
      rw [given_filesUnder, admits_singleton.mp admits, if_neg Bool.false_ne_true, found,
        below_spell plainBefore]
      exact List.mem_cons_self
    · obtain ⟨seen, entered, admits⟩ := admits_cons.mp admits
      rw [Disk.fileIn?_cons] at found
      have held : (Disk.fileIn? (Disk.heldIn entries name) (next :: rest)).isSome := by
        rw [found]
        rfl
      have some : Disk.heldIn entries name ≠ [] := by
        intro none
        rw [none, Disk.fileIn?_empty] at held
        cases held
      refine ⟨name, ?_⟩
      rw [given_filesUnder, seen, if_neg Bool.false_ne_true, Disk.fileIn?_of_held held]
      simp only [below_spell plainBefore, entered, if_true]
      refine (deeper (plainChild some) ((sizeOf_heldIn entries name).resolve_left some)).mpr ?_
      exact ⟨next :: rest, contents, by simp, found, admits⟩
termination_by sizeOf entries

/-- No folder on the way to a file that a scan finds holds a package, nor does the file. -/
theorem Admits.noPackage {names way : Place} (admits : Admits scope [] entries names)
    (found : (Disk.fileIn? entries names).isSome) (some : way ≠ []) (start : way <+: names) :
    Disk.fileIn? entries (way ++ [descriptorFile]) = none := by
  obtain ⟨rest, rfl⟩ := start
  obtain ⟨folders, last, rfl⟩ := List.eq_nil_or_concat way |>.resolve_left some
  rw [List.concat_eq_append] at *
  cases rest with
  | nil =>
      rw [List.append_nil, ← Disk.fileIn?_heldAt folders (List.cons_ne_nil _ _)] at found
      rw [List.append_assoc, ← Disk.fileIn?_heldAt folders (by simp), List.singleton_append,
        Disk.fileIn?_cons, Disk.heldIn_of_fileIn? found, Disk.fileIn?_empty]
  | cons next rest =>
      have entered := admits.enters folders last (next :: rest) (by simp) (List.cons_ne_nil _ _)
      simp only [Scope.enters, Bool.and_eq_true, Bool.not_eq_true'] at entered
      have none := entered.1.2
      rw [holdsPackage_eq, Option.isSome_eq_false_iff, Option.isNone_iff_eq_none,
        Disk.fileIn?_heldAt (folders ++ [last]) (by simp)] at none
      exact none

theorem classified_eq_ok_iff {moduleName path : String} {time : Nat} {file : ScannedFile} :
    classified moduleName path time = .ok file ↔
      file.path = path ∧ file.updated = time ∧
        classify path = some (file.category, file.role) ∧ file.kind = fileKind path file.category := by
  rw [classified]
  split
  · rename_i category role said
    rw [said]
    constructor
    · rintro ⟨⟩
      exact ⟨rfl, rfl, rfl, rfl⟩
    · rintro ⟨rfl, rfl, ⟨⟩, kind⟩
      rw [← kind]
  · rename_i said
    simp [said]

/-- What a scan answers with is what it finds. -/
theorem found_of_run {disk : Disk} {moduleName : String} {modified : Nat} {files : List ScannedFile}
    (there : disk.item scope.folder = .ok (.folder entries modified))
    (found : run disk moduleName scope = .ok files) :
    files.map (fun file => (file.path, file.updated)) = filesIn scope (Path.spell []) entries := by
  have kept (listed : List (String × Nat)) (files : List ScannedFile)
      (found : (listed.mapM fun pair => classified moduleName pair.1 pair.2) = .ok files) :
      files.map (fun file => (file.path, file.updated)) = listed := by
    induction listed generalizing files with
    | nil =>
        cases found
        rfl
    | cons first rest ih =>
        obtain ⟨file, others, here, later, rfl⟩ := mapM_cons_eq_ok.mp found
        obtain ⟨path, updated, _⟩ := classified_eq_ok_iff.mp here
        rw [List.map_cons, ih others later, path, updated]
  rw [run, there] at found
  exact kept _ files found

end Scan

end WorkspaceBuild
