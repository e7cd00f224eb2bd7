import Mathlib.Data.List.Sort
import WorkspaceBuild.Proofs.Extensions
import WorkspaceBuild.Proofs.Looks.Finds

/-! # What a scan lists

What a scan lists can be told without following it: it is the files that lead through no folder that
is left out, name by name in order. The first of them with an unknown folder in front is what it
complains of. A partial scan finds what a full one finds in the module's own folder and in those that
other modules need.
-/

namespace WorkspaceBuild

namespace Scan

variable {scope : Scope}

mutual

/-- The files of an item come by the names that lead to them. -/
theorem exists_listedOf {item : Item} {before : List String} (ordered : item.IsOrdered)
    (plain : item.HasPlainNames) (plainBefore : ∀ name ∈ before, Path.IsPlain name) :
    ∃ listed : List (Place × Nat),
      filesOf scope (Path.spell before) item =
          listed.map (fun file => (Path.spell (before ++ file.1), file.2)) ∧
        (listed.map Prod.fst).Pairwise (· < ·) ∧
        ∀ file ∈ listed, ∀ name ∈ file.1, Path.IsPlain name := by
  cases item with
  | file contents time => exact ⟨[([], time)], by simp [filesOf], by simp, by simp⟩
  | folder entries time =>
      obtain ⟨listed, found, sorted, named⟩ := exists_listedIn ordered plain plainBefore
      exact ⟨listed, found, sorted, fun file member => (named file member).1⟩

/-- So do the files of a folder, each by a name of one of its items first. -/
theorem exists_listedIn {entries : List (String × Item)} {before : List String}
    (ordered : Item.InOrder entries) (plain : Item.HavePlainNames entries)
    (plainBefore : ∀ name ∈ before, Path.IsPlain name) :
    ∃ listed : List (Place × Nat),
      filesIn scope (Path.spell before) entries =
          listed.map (fun file => (Path.spell (before ++ file.1), file.2)) ∧
        (listed.map Prod.fst).Pairwise (· < ·) ∧
        ∀ file ∈ listed, (∀ name ∈ file.1, Path.IsPlain name) ∧
          ∃ first rest, file.1 = first :: rest ∧ first ∈ Assoc.keys entries := by
  cases entries with
  | nil => exact ⟨[], rfl, .nil, by simp⟩
  | cons entry rest =>
      obtain ⟨name, item⟩ := entry
      obtain ⟨plainName, plainItem, plainRest⟩ := plain
      obtain ⟨ascending, orderedItem, orderedRest⟩ := ordered
      obtain ⟨lower, tail⟩ := List.pairwise_cons.mp ascending
      obtain ⟨later, found, sorted, named⟩ :=
        exists_listedIn ⟨tail, orderedRest⟩ plainRest plainBefore
      have namedHere : ∀ file ∈ later, (∀ name ∈ file.1, Path.IsPlain name) ∧
          ∃ first more, file.1 = first :: more ∧ first ∈ Assoc.keys ((name, item) :: rest) := by
        intro file member
        obtain ⟨plainNames, first, more, split, known⟩ := named file member
        exact ⟨plainNames, first, more, split, List.mem_cons_of_mem _ known⟩
      rw [filesIn, below_spell plainBefore, found]
      split
      · have plainAll : ∀ other ∈ before ++ [name], Path.IsPlain other := by
          simpa [or_imp, forall_and] using And.intro plainBefore plainName
        obtain ⟨inner, foundInner, sortedInner, plainInner⟩ :=
          exists_listedOf orderedItem plainItem plainAll
        refine ⟨inner.map (fun file => (name :: file.1, file.2)) ++ later, ?_, ?_, ?_⟩
        · rw [foundInner]
          simp
        · rw [List.map_append, List.pairwise_append]
          refine ⟨?_, sorted, ?_⟩
          · simp only [List.map_map, List.pairwise_map] at sortedInner ⊢
            exact sortedInner.imp fun less => List.cons_lt_cons_iff.mpr (.inr ⟨rfl, less⟩)
          · -- the files of the item go on with its name, those of the rest with later ones
            intro here member other behind
            obtain ⟨file, among, rfl⟩ := List.mem_map.mp behind
            obtain ⟨_, first, more, split, known⟩ := named file among
            obtain ⟨file, listed, rfl⟩ := List.mem_map.mp member
            obtain ⟨own, _, rfl⟩ := List.mem_map.mp listed
            rw [split]
            exact List.cons_lt_cons_iff.mpr (.inl (lower first known))
        · intro file member
          rcases List.mem_append.mp member with here | behind
          · obtain ⟨own, listed, rfl⟩ := List.mem_map.mp here
            exact ⟨List.forall_mem_cons.mpr ⟨plainName, plainInner own listed⟩, name, own.1, rfl,
              List.mem_cons_self⟩
          · exact namedHere file behind
      · exact ⟨later, rfl, sorted, namedHere⟩

end

/-- A file stands at names below a scanned folder, and no folder on the way to it is left out. -/
structure Scope.KeepsFile (scope : Scope) (entries : List (String × Item)) (names : Place)
    (time : Nat) : Prop where
  file : ∃ contents, Disk.fileIn? entries names = some (.file contents time)
  visible : ∀ name ∈ names, Text.beginsWith name "." = false ∧ name ≠ "node_modules"
  /-- Settings leave out none of the folders on the way, which lies below the scanned one. -/
  notExcluded : ∀ way rest, names = way ++ rest → way ≠ [] → rest ≠ [] → ∀ e ∈ scope.excluded,
    (scope.folder.join (Path.spell way)).same (scope.folder.join e.text) = false
  /-- None of these folders holds a package of its own. -/
  noPackage : ∀ way rest, names = way ++ rest → way ≠ [] → rest ≠ [] →
    Disk.fileIn? entries (way ++ [descriptorFile]) = none
  /-- A partial scan keeps to the scanned folder itself and to some of its folders. -/
  inPart : scope.full = true ∨ names.length = 1 ∨ ∃ first ∈ partialFolders, names.head? = some first

variable {entries : List (String × Item)}

/-- What is kept is what a scan goes to. -/
theorem keepsFile_iff {names : Place} {time : Nat} (plain : ∀ name ∈ names, Path.IsPlain name) :
    scope.KeepsFile entries names time ↔
      (∃ contents, Disk.fileIn? entries names = some (.file contents time)) ∧
        Admits scope [] entries names := by
  have enters {folders rest : Place} {name : String} (split : names = folders ++ name :: rest) :=
    @enters_iff scope entries folders name
      fun other listed => plain other (by
        rw [split, List.mem_append, List.mem_cons]
        rcases List.mem_append.mp listed with front | last
        · exact .inl front
        · exact .inr (.inl (List.mem_singleton.mp last)))
  have split {folders rest : Place} {name : String} (parts : names = folders ++ name :: rest) :
      names = folders ++ [name] ++ rest := by simpa using parts
  constructor
  · rintro ⟨file, visible, notExcluded, noPackage, inPart⟩
    refine ⟨file, fun name listed => by simpa [isSkipped] using visible name listed, ?_⟩
    intro folders name rest parts more
    refine (enters parts).mpr ⟨notExcluded _ rest (split parts) (by simp) more,
      noPackage _ rest (split parts) (by simp) more, ?_⟩
    rcases inPart with full | alone | ⟨first, known, head⟩
    · exact .inl full
    · have longer := List.length_pos_of_ne_nil more
      simp only [parts, List.length_append, List.length_cons] at alone
      omega
    · cases folders with
      | nil =>
          rw [parts] at head
          cases head
          exact .inr (.inr known)
      | cons => exact .inr (.inl (List.cons_ne_nil _ _))
  · rintro ⟨file, admits⟩
    have entered {way rest : Place} (parts : names = way ++ rest) (some : way ≠ []) (more : rest ≠ []) :
        (∀ e ∈ scope.excluded, (scope.folder.join (Path.spell way)).same
          (scope.folder.join e.text) = false) ∧ Disk.fileIn? entries (way ++ [descriptorFile]) = none := by
      obtain ⟨folders, name, rfl⟩ := List.eq_nil_or_concat way |>.resolve_left some
      rw [List.concat_eq_append] at *
      rw [List.append_assoc] at parts
      obtain ⟨notExcluded, noPackage, _⟩ := (enters parts).mp (admits.enters folders name rest parts more)
      exact ⟨notExcluded, noPackage⟩
    refine ⟨file, fun name listed => by simpa [isSkipped] using admits.seen name listed,
      fun way rest parts some more => (entered parts some more).1,
      fun way rest parts some more => (entered parts some more).2, ?_⟩
    obtain ⟨contents, found⟩ := file
    obtain _ | ⟨first, _ | ⟨next, rest⟩⟩ := names
    · cases found
    · exact .inr (.inl rfl)
    · have start := admits.enters [] first (next :: rest) rfl (List.cons_ne_nil _ _)
      rcases ((enters rfl).mp start).2.2 with full | front | known
      · exact .inl full
      · exact absurd rfl front
      · exact .inr (.inr ⟨first, known, rfl⟩)

theorem Scope.KeepsFile.isPlain {names : Place} {time : Nat} (kept : scope.KeepsFile entries names time)
    (plain : Item.HavePlainNames entries) : ∀ name ∈ names, Path.IsPlain name := by
  obtain ⟨contents, found⟩ := kept.file
  exact Disk.isPlain_of_fileIn? plain (Option.isSome_of_eq_some found)

theorem Scope.KeepsFile.ne_nil {names : Place} {time : Nat} (kept : scope.KeepsFile entries names time) :
    names ≠ [] := by
  rintro rfl
  obtain ⟨contents, found⟩ := kept.file
  cases found

/-- All files that a scan keeps, each once and in the order of names. -/
structure Scope.Keeps (scope : Scope) (entries : List (String × Item)) (kept : List (Place × Nat)) :
    Prop where
  sorted : (kept.map Prod.fst).Pairwise (· < ·)
  mem_iff : ∀ names time, (names, time) ∈ kept ↔ scope.KeepsFile entries names time

/-- A scan finds the files it keeps, in order. -/
theorem exists_keeps (scope : Scope) (ordered : Item.InOrder entries) (plain : Item.HavePlainNames entries) :
    ∃ kept, scope.Keeps entries kept ∧
      filesIn scope (Path.spell []) entries = kept.map fun file => (Path.spell file.1, file.2) := by
  obtain ⟨kept, found, sorted, named⟩ :=
    @exists_listedIn scope entries [] ordered plain (by simp)
  refine ⟨kept, ⟨sorted, fun names time => ⟨fun member => ?_, fun keeps => ?_⟩⟩, found⟩
  · have plainNames := (named _ member).1
    have listed : (Path.spell names, time) ∈ filesIn scope (Path.spell []) entries :=
      found ▸ List.mem_map_of_mem member
    obtain ⟨others, contents, same, file, admits⟩ := (mem_filesIn_iff ordered plain (by simp)).mp listed
    have plainOthers := Disk.isPlain_of_fileIn? plain (Option.isSome_of_eq_some file)
    cases Path.spell_injective plainNames plainOthers same
    exact (keepsFile_iff plainNames).mpr ⟨⟨contents, file⟩, admits⟩
  · have plainNames := keeps.isPlain plain
    obtain ⟨⟨contents, file⟩, admits⟩ := (keepsFile_iff plainNames).mp keeps
    have listed : (Path.spell names, time) ∈ filesIn scope (Path.spell []) entries :=
      (mem_filesIn_iff ordered plain (by simp)).mpr ⟨names, contents, rfl, file, admits⟩
    rw [found] at listed
    obtain ⟨⟨others, since⟩, member, same⟩ := List.mem_map.mp listed
    obtain ⟨spelled, rfl⟩ := Prod.mk.inj same
    cases Path.spell_injective (named _ member).1 plainNames spelled
    exact member

/-- A scan finds each file once. -/
theorem nodup_filesIn (ordered : Item.InOrder entries) (plain : Item.HavePlainNames entries) :
    ((filesIn scope (Path.spell []) entries).map Prod.fst).Nodup := by
  obtain ⟨kept, keeps, found⟩ := exists_keeps scope ordered plain
  have plainNames {names : Place} (member : names ∈ kept.map Prod.fst) :
      ∀ name ∈ names, Path.IsPlain name := by
    obtain ⟨⟨names, time⟩, listed, rfl⟩ := List.mem_map.mp member
    exact ((keeps.mem_iff names time).mp listed).isPlain plain
  have spelled : (filesIn scope (Path.spell []) entries).map Prod.fst =
      (kept.map Prod.fst).map Path.spell := by
    rw [found, List.map_map, List.map_map]
    rfl
  have once : (kept.map Prod.fst).Nodup := keeps.sorted.imp ne_of_lt
  rw [spelled]
  exact once.map_on fun first member second memberToo same =>
    Path.spell_injective (plainNames member) (plainNames memberToo) same

/-- There is one list of the files that a scan keeps. -/
theorem Scope.Keeps.eq {kept others : List (Place × Nat)} (keeps : scope.Keeps entries kept)
    (also : scope.Keeps entries others) : kept = others := by
  let Precedes (file other : Place × Nat) : Prop := file.1 < other.1
  have : Std.Irrefl Precedes := ⟨fun file => lt_irrefl file.1⟩
  have : Std.Antisymm Precedes := ⟨fun _ _ less more => absurd (less.trans more) (lt_irrefl _)⟩
  refine List.Pairwise.eq_of_mem_iff (r := Precedes) (List.pairwise_map.mp keeps.sorted)
    (List.pairwise_map.mp also.sorted) fun ⟨names, time⟩ => ?_
  rw [keeps.mem_iff, also.mem_iff]

end Scan

namespace Text

/-- Text that begins with a folder is cut behind that folder. -/
theorem cut?_folder {folder : String} (plain : '/' ∉ folder.toList) (rest : String) :
    cut? '/' (folder ++ "/" ++ rest) = some (folder, rest) := by
  simp [cut?, cutChars?_append plain]

theorem exists_of_beginsWith {text start : String} (begins : beginsWith text start = true) :
    ∃ rest, text = start ++ rest := by
  obtain ⟨rest, dropped⟩ := Option.isSome_iff_exists.mp begins
  obtain ⟨chars, found, rfl⟩ := Option.map_eq_some_iff.mp dropped
  refine ⟨String.ofList chars, ?_⟩
  rw [← String.toList_inj, eq_of_dropStartChars? found]
  simp

end Text

namespace Scan

/-- The folders of a module that files may stand in. -/
def knownFolders : List String := ["src", "bin", "support", "resources", "test", "doc"]

theorem folderCategory?_eq_none_iff {folder : String} :
    folderCategory? folder = none ↔ folder ∉ knownFolders := by
  unfold folderCategory?
  split <;> simp_all [knownFolders]

/-- Registrations of plugins stand in a known folder. -/
theorem folder_of_registrationRole? {path first more : String} {role : Role}
    (cut : Text.cut? '/' path = some (first, more)) (found : registrationRole? path = some role) :
    first = "support" := by
  obtain ⟨name, _, here⟩ := List.exists_of_findSome?_eq_some found
  cases dropped : Text.dropStart? path ("support/" ++ name ++ ".plugins") with
  | none => simp [dropped] at here
  | some rest =>
      obtain ⟨rest, rfl⟩ := Text.exists_of_beginsWith (Option.isSome_of_eq_some dropped)
      have split : "support/" ++ name ++ ".plugins" ++ rest =
          "support" ++ "/" ++ (name ++ ".plugins" ++ rest) := by
        simp only [String.append_assoc]
        rfl
      rw [split, Text.cut?_folder (by decide)] at cut
      cases cut
      rfl

/-- A path has no category where it starts with an unknown folder. -/
theorem classify_eq_none_iff {path : String} : classify path = none ↔
    ∃ first more, Text.cut? '/' path = some (first, more) ∧ first ∉ knownFolders := by
  have known (folder start : String) {first more : String} (cut : Text.cut? '/' path = some (first, more))
      (begins : Text.beginsWith path (folder ++ "/" ++ start) = true)
      (plain : '/' ∉ folder.toList) : first = folder := by
    obtain ⟨rest, rfl⟩ := Text.exists_of_beginsWith begins
    rw [String.append_assoc, Text.cut?_folder plain] at cut
    cases cut
    rfl
  unfold classify
  split
  · rename_i descriptor
    have uncut : Text.cut? '/' descriptorFile = none := by decide
    simp [descriptor, uncut]
  · split
    · rename_i uncut
      split <;> simp [uncut]
    · rename_i first more cut
      have only : (∃ front rest, some (first, more) = some (front, rest) ∧ front ∉ knownFolders) ↔
          first ∉ knownFolders := by
        simp
      rw [cut, only]
      split
      · rename_i begins
        cases known "test" "fixtures/" cut begins (by decide)
        simp [knownFolders]
      · split
        · rename_i begins
          cases known "support" "fixtures/" cut begins (by decide)
          simp [knownFolders]
        · split
          · rename_i begins
            cases known "support" "resources/" cut begins (by decide)
            simp [knownFolders]
          · split
            · rename_i found
              cases folder_of_registrationRole? cut found
              simp [knownFolders]
            · exact folderCategory?_eq_none_iff

/-- A file stands in the module's own folder or in a known one. -/
def IsKnown (names : Place) : Prop :=
  names.length = 1 ∨ ∃ first ∈ knownFolders, names.head? = some first

theorem cut?_spell_singleton {name : String} (plain : Path.IsPlain name) :
    Text.cut? '/' (Path.spell [name]) = none := by
  rw [Path.spell_singleton, Option.eq_none_iff_forall_ne_some]
  rintro ⟨first, more⟩ cut
  obtain ⟨⟨front, behind⟩, found, _⟩ := Option.map_eq_some_iff.mp cut
  have slash : '/' ∈ name.toList := by simp [Text.eq_of_cutChars? found]
  exact plain.noSlash slash

theorem cut?_spell_cons {first next : String} {rest : Place} (plain : Path.IsPlain first) :
    Text.cut? '/' (Path.spell (first :: next :: rest)) = some (first, Path.spell (next :: rest)) := by
  have split : Path.spell (first :: next :: rest) = first ++ "/" ++ Path.spell (next :: rest) := by
    rw [← String.toList_inj]
    simp [Path.spell, Text.joined, List.intercalate_cons_cons]
  rw [split, Text.cut?_folder plain.noSlash]

/-- What a kept file is listed as. -/
structure Describes (file : Place × Nat) (scanned : ScannedFile) : Prop where
  path : scanned.path = Path.spell file.1
  updated : scanned.updated = file.2
  filed : classify scanned.path = some (scanned.category, scanned.role)
  kind : scanned.kind = fileKind scanned.path scanned.category

/-- The answer of a scan, told by the files it keeps. -/
structure Answers (moduleName : String) (kept : List (Place × Nat))
    (answer : Except BuildError (List ScannedFile)) : Prop where
  /-- It lists the kept files in their order. -/
  ok_iff : ∀ files, answer = .ok files ↔ List.Forall₂ Describes kept files
  succeeds_iff : (∃ files, answer = .ok files) ↔ ∀ file ∈ kept, IsKnown file.1
  /-- It complains of the first of them that stands in an unknown folder. -/
  error_iff : ∀ e, answer = .error e ↔ ∃ before first next rest time behind,
    kept = before ++ (first :: next :: rest, time) :: behind ∧ (∀ file ∈ before, IsKnown file.1) ∧
      first ∉ knownFolders ∧
        e = .unexpectedFolder moduleName first (Path.spell (first :: next :: rest))

section

variable {names : Place} {moduleName : String} {time : Nat}

/-- The folder at the start of a path, for a file that stands in one. -/
theorem cut?_spell_eq_some_iff (nonempty : names ≠ []) (plain : ∀ name ∈ names, Path.IsPlain name)
    {first more : String} : Text.cut? '/' (Path.spell names) = some (first, more) ↔
      ∃ next rest, names = first :: next :: rest ∧ more = Path.spell (next :: rest) := by
  obtain _ | ⟨name, _ | ⟨next, rest⟩⟩ := names
  · exact absurd rfl nonempty
  · simp [cut?_spell_singleton (plain name List.mem_cons_self)]
  · rw [cut?_spell_cons (plain name List.mem_cons_self)]
    constructor
    · rintro ⟨⟩
      exact ⟨next, rest, rfl, rfl⟩
    · rintro ⟨_, _, ⟨⟩, rfl⟩
      rfl

theorem classified_spell_eq_ok_iff {scanned : ScannedFile} :
    classified moduleName (Path.spell names) time = .ok scanned ↔ Describes (names, time) scanned := by
  rw [classified_eq_ok_iff]
  constructor
  · rintro ⟨path, updated, filed, kind⟩
    exact ⟨path, updated, path ▸ filed, path ▸ kind⟩
  · rintro ⟨path, updated, filed, kind⟩
    exact ⟨path, updated, path ▸ filed, path ▸ kind⟩

/-- A file that stands in an unknown folder is complained of. -/
theorem classified_spell_eq_error_iff (nonempty : names ≠ [])
    (plain : ∀ name ∈ names, Path.IsPlain name) {e : BuildError} :
    classified moduleName (Path.spell names) time = .error e ↔
      ∃ first next rest, names = first :: next :: rest ∧ first ∉ knownFolders ∧
        e = .unexpectedFolder moduleName first (Path.spell names) := by
  rw [classified]
  split
  · rename_i category role said
    have known : ¬ ∃ first more, Text.cut? '/' (Path.spell names) = some (first, more) ∧
        first ∉ knownFolders := by
      rw [← classify_eq_none_iff, said]
      simp
    simp only [reduceCtorEq, false_iff]
    rintro ⟨first, next, rest, split, unknown, _⟩
    exact known ⟨first, _, (cut?_spell_eq_some_iff nonempty plain).mpr ⟨next, rest, split, rfl⟩, unknown⟩
  · rename_i unsaid
    obtain ⟨first, more, cut, unknown⟩ := classify_eq_none_iff.mp unsaid
    obtain ⟨next, rest, rfl, rfl⟩ := (cut?_spell_eq_some_iff nonempty plain).mp cut
    rw [cut]
    constructor
    · rintro ⟨⟩
      exact ⟨first, next, rest, rfl, unknown, rfl⟩
    · rintro ⟨_, _, _, ⟨⟩, _, rfl⟩
      rfl

/-- No other file is complained of. -/
theorem exists_classified_iff (nonempty : names ≠ []) (plain : ∀ name ∈ names, Path.IsPlain name) :
    (∃ scanned, classified moduleName (Path.spell names) time = .ok scanned) ↔ IsKnown names := by
  have stuck (e : BuildError) : classified moduleName (Path.spell names) time = .error e ↔ _ :=
    classified_spell_eq_error_iff nonempty plain
  have unknown : (∃ e, classified moduleName (Path.spell names) time = .error e) ↔ ¬ IsKnown names := by
    simp only [stuck]
    obtain _ | ⟨name, _ | ⟨next, rest⟩⟩ := names
    · exact absurd rfl nonempty
    · simp [IsKnown]
    · simp [IsKnown]
  rw [← not_iff_not, ← unknown]
  cases classified moduleName (Path.spell names) time <;> simp

theorem answers_mapM {kept : List (Place × Nat)}
    (named : ∀ file ∈ kept, file.1 ≠ [] ∧ ∀ name ∈ file.1, Path.IsPlain name) :
    Answers moduleName kept
      (kept.mapM fun file => classified moduleName (Path.spell file.1) file.2) := by
  have known (file : Place × Nat) (member : file ∈ kept) :
      (∃ scanned, classified moduleName (Path.spell file.1) file.2 = .ok scanned) ↔
        IsKnown file.1 :=
    exists_classified_iff (named file member).1 (named file member).2
  constructor
  · intro files
    rw [mapM_eq_ok_iff]
    simp only [classified_spell_eq_ok_iff]
  · rw [exists_mapM_eq_ok_iff]
    exact forall₂_congr known
  · intro e
    rw [mapM_eq_error_iff_first]
    constructor
    · rintro ⟨before, ⟨names, time⟩, behind, split, fine, stuck⟩
      have member : (names, time) ∈ kept := by simp [split]
      obtain ⟨nonempty, plain⟩ := named _ member
      obtain ⟨first, next, rest, rfl, unknown, rfl⟩ :=
        (classified_spell_eq_error_iff nonempty plain).mp stuck
      refine ⟨before, first, next, rest, time, behind, split, fun file early => ?_, unknown, rfl⟩
      exact (known file (by simp [split, early])).mp (fine file early)
    · rintro ⟨before, first, next, rest, time, behind, split, fine, unknown, rfl⟩
      have member : (first :: next :: rest, time) ∈ kept := by simp [split]
      obtain ⟨nonempty, plain⟩ := named _ member
      refine ⟨before, (first :: next :: rest, time), behind, split, fun file early => ?_,
        (classified_spell_eq_error_iff nonempty plain).mpr ⟨first, next, rest, rfl, unknown, rfl⟩⟩
      exact (known file (by simp [split, early])).mpr (fine file early)

end

variable {scope : Scope} {entries : List (String × Item)}

/-- Whether a path leads to a file of the module's own folder or of one that a partial scan enters. -/
def isInPart (path : String) : Bool :=
  (Text.cut? '/' path).elim true fun pieces => partialFolders.contains pieces.1

theorem isInPart_spell_iff {names : Place} (nonempty : names ≠ [])
    (plain : ∀ name ∈ names, Path.IsPlain name) : isInPart (Path.spell names) = true ↔
      names.length = 1 ∨ ∃ first ∈ partialFolders, names.head? = some first := by
  obtain _ | ⟨name, _ | ⟨next, rest⟩⟩ := names
  · exact absurd rfl nonempty
  · simp [isInPart, cut?_spell_singleton (plain name List.mem_cons_self)]
  · simp [isInPart, cut?_spell_cons (plain name List.mem_cons_self)]

/-- The same scan of the whole folder. -/
def Scope.whole (scope : Scope) : Scope := { scope with full := true }

/-- A partial scan keeps what a full one keeps in a part of the module. -/
theorem Scope.KeepsFile.whole_iff {names : Place} {time : Nat} (part : scope.full = false) :
    scope.KeepsFile entries names time ↔ scope.whole.KeepsFile entries names time ∧
      (names.length = 1 ∨ ∃ first ∈ partialFolders, names.head? = some first) := by
  constructor
  · rintro ⟨file, visible, notExcluded, noPackage, inPart⟩
    exact ⟨⟨file, visible, notExcluded, noPackage, .inl rfl⟩, inPart.resolve_left (by simp [part])⟩
  · rintro ⟨⟨file, visible, notExcluded, noPackage, _⟩, inPart⟩
    exact ⟨file, visible, notExcluded, noPackage, .inr inPart⟩

/-- The same files in order, those outside of the part left out. -/
theorem Scope.Keeps.filter_whole {kept : List (Place × Nat)} (plain : Item.HavePlainNames entries)
    (part : scope.full = false) (keeps : scope.whole.Keeps entries kept) :
    scope.Keeps entries (kept.filter fun file => isInPart (Path.spell file.1)) := by
  constructor
  · exact keeps.sorted.sublist (List.filter_sublist.map Prod.fst)
  · intro names time
    rw [List.mem_filter, keeps.mem_iff, KeepsFile.whole_iff part]
    exact and_congr_right fun whole => isInPart_spell_iff whole.ne_nil (whole.isPlain plain)

/-- What a scan answers is told by the files it keeps, and a partial scan answers with a part of what
a full one does. -/
structure IsExact (disk : Disk) (moduleName : String) (scope : Scope) (kept : List (Place × Nat)) :
    Prop where
  answers : Answers moduleName kept (run disk moduleName scope)
  succeeds : scope.full = false → ∃ files, run disk moduleName scope = .ok files
  part : scope.full = false → ∀ files, run disk moduleName scope.whole = .ok files →
    run disk moduleName scope = .ok (files.filter fun file => isInPart file.path)

theorem run_eq_mapM {disk : Disk} {moduleName : String} {modified : Nat} {kept : List (Place × Nat)}
    (there : disk.item scope.folder = .ok (.folder entries modified))
    (found : filesIn scope (Path.spell []) entries =
      kept.map fun file => (Path.spell file.1, file.2)) :
    run disk moduleName scope =
      kept.mapM fun file => classified moduleName (Path.spell file.1) file.2 := by
  rw [run, there]
  change (filesIn scope (Path.spell []) entries).mapM _ = _
  rw [found, mapM_map]

/-- A scan of a folder is exact. -/
theorem run_isExact {disk : Disk} {modified : Nat} (proper : disk.IsProper)
    (there : disk.item scope.folder = .ok (.folder entries modified)) (moduleName : String) :
    ∃ kept, scope.Keeps entries kept ∧ IsExact disk moduleName scope kept := by
  have plain : Item.HavePlainNames entries := proper.hasPlainNames there
  have ordered : Item.InOrder entries :=
    Disk.inOrder_itemAt? proper.ordered (Disk.item_eq_ok_iff.mp there).2
  have answered (scope : Scope) (there : disk.item scope.folder = .ok (.folder entries modified)) :
      ∃ kept, scope.Keeps entries kept ∧ Answers moduleName kept (run disk moduleName scope) := by
    obtain ⟨kept, keeps, found⟩ := exists_keeps scope ordered plain
    refine ⟨kept, keeps, ?_⟩
    rw [run_eq_mapM there found]
    refine answers_mapM fun file member => ?_
    have keepsFile := (keeps.mem_iff file.1 file.2).mp member
    exact ⟨keepsFile.ne_nil, keepsFile.isPlain plain⟩
  obtain ⟨kept, keeps, answers⟩ := answered scope there
  refine ⟨kept, keeps, answers, fun part => ?_, fun part files whole => ?_⟩
  · refine answers.succeeds_iff.mpr fun file member => ?_
    have keepsFile := (keeps.mem_iff file.1 file.2).mp member
    have known : ∀ folder ∈ partialFolders, folder ∈ knownFolders := by decide
    exact ((Scope.KeepsFile.whole_iff part).mp keepsFile).2.imp_right fun ⟨first, listed, head⟩ =>
      ⟨first, known first listed, head⟩
  · obtain ⟨all, keepsAll, answersAll⟩ := answered scope.whole there
    rw [keeps.eq (keepsAll.filter_whole plain part)] at answers
    refine (answers.ok_iff _).mpr (List.rel_filter ?_ ((answersAll.ok_iff files).mp whole))
    intro file scanned describes
    change isInPart (Path.spell file.1) = true ↔ isInPart scanned.path = true
    rw [describes.path]

/-- A full scan of a module with pictures in a folder of their own, which is unknown. -/
theorem run_isExact_pictures :
    let source : Item := .folder [("a.ts", .file (.text "") 5)] 1
    let entries : List (String × Item) :=
      [("node_modules", source), ("pictures", source), ("readme.md", .file (.text "") 3), ("src", source)]
    let disk : Disk := ⟨[("m", .folder entries 1)]⟩
    let scope : Scope := ⟨⟨"/m"⟩, true, []⟩
    disk.IsProper ∧ disk.item scope.folder = .ok (.folder entries 1) ∧
      ∃ kept, scope.Keeps entries kept ∧ IsExact disk "m" scope kept := by
  intro source entries disk scope
  have proper : disk.IsProper := by decide
  have leads : disk.place scope.folder = .ok ["m"] := eq_ok_of_toOption (by decide)
  have there : disk.item scope.folder = .ok (.folder entries 1) := by
    rw [Disk.item, leads]
    rfl
  exact ⟨proper, there, run_isExact proper there "m"⟩

end Scan

end WorkspaceBuild
