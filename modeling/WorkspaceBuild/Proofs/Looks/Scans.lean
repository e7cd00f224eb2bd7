import WorkspaceBuild.Proofs.Disk.Changes
import WorkspaceBuild.Proofs.Scan

/-! # What scans look at

A scan looks at files alone: at those it lists, and at the descriptors that keep it out of folders.
Where these are the same, it finds the same, whatever else a disk holds.
-/

namespace WorkspaceBuild

namespace Item

section Ascending

variable {β : Type} {left right : List (String × Item)} {f g : String → Item → List β}

/-- What the item of a name gives; nothing when there is none. -/
def given (f : String → Item → List β) (entries : List (String × Item)) (name : String) : List β :=
  (child? entries name).elim [] (f name)

theorem given_cons (first : String) (item : Item) (rest : List (String × Item)) (name : String) :
    given f ((first, item) :: rest) name = if name = first then f name item else given f rest name := by
  rw [given, child?_cons]
  split <;> rfl

theorem given_of_lt {name : String} (above : ∀ other ∈ Assoc.keys left, name < other) :
    given f left name = [] := by
  rw [given, child?_eq_none above]
  rfl

theorem flatMap_eq_nil_of_given (ascending : NamesAscend left)
    (nothing : ∀ name, given f left name = []) :
    left.flatMap (fun pair => f pair.1 pair.2) = [] := by
  rw [List.flatMap_eq_nil_iff]
  intro pair listed
  have nodup : (Assoc.keys left).Nodup := ascending.imp ne_of_lt
  have found : child? left pair.1 = some pair.2 := Assoc.get?_of_mem nodup listed
  have gives := nothing pair.1
  rwa [given, found] at gives

/-- Items ascending by name give the same in turn when those of each name do. -/
theorem flatMap_congr_of_given (ascending : NamesAscend left) (alsoAscending : NamesAscend right)
    (same : ∀ name, given f left name = given g right name) :
    left.flatMap (fun pair => f pair.1 pair.2) = right.flatMap (fun pair => g pair.1 pair.2) := by
  induction left generalizing right with
  | nil => exact (flatMap_eq_nil_of_given alsoAscending fun name => (same name).symm).symm
  | cons first rest ih =>
      obtain ⟨n, i⟩ := first
      obtain ⟨lower, tail⟩ := List.pairwise_cons.mp ascending
      induction right with
      | nil => exact flatMap_eq_nil_of_given ascending same
      | cons second others ihRight =>
          obtain ⟨m, j⟩ := second
          obtain ⟨alsoLower, alsoTail⟩ := List.pairwise_cons.mp alsoAscending
          rcases lt_trichotomy n m with less | rfl | greater
          · -- the first name stands on the left alone
            have below : ∀ other ∈ Assoc.keys ((m, j) :: others), n < other :=
              List.forall_mem_cons.mpr ⟨less, fun other listed => less.trans (alsoLower other listed)⟩
            have nothing : f n i = [] := by
              have gives := same n
              rwa [given_cons, if_pos rfl, given_of_lt below] at gives
            rw [List.flatMap_cons, nothing, List.nil_append]
            refine ih tail alsoAscending fun name => ?_
            by_cases here : name = n
            · rw [here, given_of_lt lower, given_of_lt below]
            · rw [← same, given_cons, if_neg here]
          · have gives := same n
            rw [given_cons, given_cons, if_pos rfl, if_pos rfl] at gives
            rw [List.flatMap_cons, List.flatMap_cons, gives]
            refine congrArg (g n j ++ ·) (ih tail alsoTail fun name => ?_)
            by_cases here : name = n
            · rw [here, given_of_lt lower, given_of_lt alsoLower]
            · have others := same name
              rwa [given_cons, given_cons, if_neg here, if_neg here] at others
          · have below : ∀ other ∈ Assoc.keys ((n, i) :: rest), m < other :=
              List.forall_mem_cons.mpr ⟨greater, fun other listed => greater.trans (lower other listed)⟩
            have nothing : g m j = [] := by
              have gives := same m
              rw [given_of_lt below, given_cons, if_pos rfl] at gives
              exact gives.symm
            refine (ihRight alsoTail fun name => ?_).trans ?_
            · by_cases here : name = m
              · rw [here, given_of_lt below, given_of_lt alsoLower]
              · rw [same, given_cons, if_neg here]
            · rw [List.flatMap_cons, nothing, List.nil_append]

end Ascending

end Item

namespace Scan

variable {scope : Scope}

/-- A scan of what a folder holds looks at a file, by the names that lead to it. Of a folder that it
does not enter it looks at the descriptor alone. -/
def LooksIn (scope : Scope) (folder : String) (entries : List (String × Item)) : Place → Prop
  | [] => False
  | name :: rest =>
      isSkipped name = false ∧
        (rest = [] ∨ rest = [descriptorFile] ∨
          scope.enters (below folder name) name (Disk.heldIn entries name) = true ∧
            LooksIn scope (below folder name) (Disk.heldIn entries name) rest)

/-- A scan looks at the file at a place: the one it is asked for, or one below. -/
def Scope.LooksAt (scope : Scope) (disk : Disk) (place : Place) : Prop :=
  place = scope.folder.target ∨
    ∃ entries modified names, disk.itemAt? scope.folder.target = some (.folder entries modified) ∧
      LooksIn scope "" entries names ∧ place = scope.folder.target ++ names

/-- The files that an item gives to a scan. -/
def filesUnder (scope : Scope) (folder name : String) (item : Item) : List (String × Nat) :=
  if scope.keeps (below folder name) name item then filesOf scope (below folder name) item else []

theorem filesIn_eq_flatMap (scope : Scope) (folder : String) (entries : List (String × Item)) :
    filesIn scope folder entries =
      entries.flatMap fun pair => filesUnder scope folder pair.1 pair.2 := by
  induction entries with
  | nil => rfl
  | cons pair rest ih => rw [filesIn, List.flatMap_cons, ih, filesUnder]

theorem holdsPackage_eq (entries : List (String × Item)) :
    holdsPackage entries = (Disk.fileIn? entries [descriptorFile]).isSome := by
  rw [holdsPackage, Disk.fileIn?_singleton]
  cases Item.child? entries descriptorFile with
  | none => rfl
  | some item => cases item <;> rfl

/-- What a name gives to a scan, told by its file and by what is held under it. -/
theorem given_filesUnder (scope : Scope) (folder : String) (entries : List (String × Item))
    (name : String) : Item.given (filesUnder scope folder) entries name =
      if isSkipped name then []
      else
        match Disk.fileIn? entries [name] with
        | some file => [(below folder name, file.modified)]
        | none =>
            if scope.enters (below folder name) name (Disk.heldIn entries name) then
              filesIn scope (below folder name) (Disk.heldIn entries name)
            else [] := by
  rw [Item.given, Disk.fileIn?_singleton, Disk.heldIn]
  cases Item.child? entries name with
  | none => simp [filesIn]
  | some item =>
      cases item with
      | file contents modified =>
          have isFile : (some (Item.file contents modified)).filter Item.isFile =
              some (.file contents modified) := rfl
          cases skipped : isSkipped name <;>
            simp [filesUnder, Scope.keeps, skipped, filesOf, isFile, Item.modified]
      | folder inner modified =>
          have noFile : (some (Item.folder inner modified)).filter Item.isFile = none := rfl
          cases skipped : isSkipped name with
          | true => simp [filesUnder, Scope.keeps, skipped]
          | false =>
              simp only [filesUnder, Scope.keeps, skipped, filesOf, noFile, Item.entriesOf,
                Option.elim_some, Option.map_some, Option.getD_some, Bool.not_false, Bool.true_and,
                Bool.false_eq_true, if_false]
              rfl

theorem sizeOf_heldIn (entries : List (String × Item)) (name : String) :
    Disk.heldIn entries name = [] ∨ sizeOf (Disk.heldIn entries name) < sizeOf entries := by
  rw [Disk.heldIn]
  cases found : Item.child? entries name with
  | none => exact .inl rfl
  | some item =>
      cases item with
      | file contents modified => exact .inl rfl
      | folder inner modified =>
          have member : (name, Item.folder inner modified) ∈ entries := Assoc.mem_of_get? found
          have smaller := List.sizeOf_lt_of_mem member
          simp only [Prod.mk.sizeOf_spec, Item.folder.sizeOf_spec] at smaller
          refine .inr ?_
          simp only [Option.map_some, Option.getD_some, Item.entriesOf]
          omega

theorem sizeOf_heldIn_add {left right : List (String × Item)} {name : String}
    (some : ¬ (Disk.heldIn left name = [] ∧ Disk.heldIn right name = [])) :
    sizeOf (Disk.heldIn left name) + sizeOf (Disk.heldIn right name) <
      sizeOf left + sizeOf right := by
  have least (entries : List (String × Item)) : 1 ≤ sizeOf entries := by
    cases entries with
    | nil => simp
    | cons pair rest =>
        simp only [List.cons.sizeOf_spec]
        omega
  have empty : sizeOf ([] : List (String × Item)) = 1 := rfl
  have leastLeft := least left
  have leastRight := least right
  rcases sizeOf_heldIn left name with none | smaller
  · rcases sizeOf_heldIn right name with alsoNone | alsoSmaller
    · exact absurd ⟨none, alsoNone⟩ some
    · rw [none, empty]
      omega
  · rcases sizeOf_heldIn right name with alsoNone | alsoSmaller
    · rw [alsoNone, empty]
      omega
    · omega

/-- A scan finds the same where the files that it looks at are the same. -/
theorem filesIn_congr {left right : List (String × Item)} {folder : String}
    (ordered : Item.InOrder left) (alsoOrdered : Item.InOrder right)
    (same : ∀ names, LooksIn scope folder left names →
      Disk.fileIn? right names = Disk.fileIn? left names) :
    filesIn scope folder right = filesIn scope folder left := by
  rw [filesIn_eq_flatMap, filesIn_eq_flatMap]
  refine Item.flatMap_congr_of_given alsoOrdered.1 ordered.1 fun name => ?_
  rw [given_filesUnder, given_filesUnder]
  cases kept : isSkipped name with
  | true => rfl
  | false =>
      have file : Disk.fileIn? right [name] = Disk.fileIn? left [name] :=
        same [name] ⟨kept, .inl rfl⟩
      have package : holdsPackage (Disk.heldIn right name) = holdsPackage (Disk.heldIn left name) := by
        rw [holdsPackage_eq, holdsPackage_eq, ← Disk.fileIn?_cons, ← Disk.fileIn?_cons,
          same [name, descriptorFile] ⟨kept, .inr (.inl rfl)⟩]
      have enters : scope.enters (below folder name) name (Disk.heldIn right name) =
          scope.enters (below folder name) name (Disk.heldIn left name) := by
        rw [Scope.enters, Scope.enters, package]
      rw [file, enters]
      cases entered : scope.enters (below folder name) name (Disk.heldIn left name) with
      | false => rfl
      | true =>
          have inside : filesIn scope (below folder name) (Disk.heldIn right name) =
              filesIn scope (below folder name) (Disk.heldIn left name) := by
            by_cases nothing : Disk.heldIn left name = [] ∧ Disk.heldIn right name = []
            · rw [nothing.1, nothing.2]
            · have smaller := sizeOf_heldIn_add nothing
              refine filesIn_congr (Disk.inOrder_heldIn ordered name)
                (Disk.inOrder_heldIn alsoOrdered name) fun names looks => ?_
              cases names with
              | nil => cases looks
              | cons next rest =>
                  have looked : LooksIn scope folder left (name :: next :: rest) :=
                    ⟨kept, .inr (.inr ⟨entered, looks⟩)⟩
                  rw [← Disk.fileIn?_cons, ← Disk.fileIn?_cons, same _ looked]
          rw [inside]
termination_by sizeOf left + sizeOf right

/-- A scan that succeeds does so again where the files that it looks at are the same. -/
theorem run_congr {before after : Disk} {moduleName : String} {files : List ScannedFile}
    (ordered : before.IsOrdered) (alsoOrdered : after.IsOrdered)
    (folders : Disk.KeepsFolders before after)
    (same : ∀ place, scope.LooksAt before place → after.fileAt? place = before.fileAt? place)
    (found : run before moduleName scope = .ok files) : run after moduleName scope = .ok files := by
  rw [run] at found ⊢
  cases present : before.item scope.folder with
  | error fault =>
      rw [present] at found
      cases found
  | ok item =>
      rw [present] at found
      obtain ⟨reaches, there⟩ := Disk.item_eq_ok_iff.mp present
      have reachesAfter := folders.reaches reaches
      have alike : ∃ other, after.itemAt? scope.folder.target = some other ∧
          filesOf scope "" other = filesOf scope "" item := by
        cases item with
        | file contents modified =>
            have file := same scope.folder.target (.inl rfl)
            rw [Disk.fileAt?_eq_some_iff.mpr there] at file
            exact ⟨_, Disk.fileAt?_eq_some_iff.mp file, rfl⟩
        | folder entries modified =>
            obtain ⟨others, alsoModified, thereAfter⟩ := Disk.holdsFolder_iff.mp
              (folders _ (Disk.holdsFolder_iff.mpr ⟨entries, modified, there⟩))
            refine ⟨_, thereAfter, ?_⟩
            refine filesIn_congr (Disk.inOrder_itemAt? ordered there)
              (Disk.inOrder_itemAt? alsoOrdered thereAfter) fun names looks => ?_
            have some : names ≠ [] := by
              rintro rfl
              exact looks
            have looked : scope.LooksAt before (scope.folder.target ++ names) :=
              .inr ⟨entries, modified, names, there, looks, rfl⟩
            have file := same _ looked
            rwa [Disk.fileAt?_append thereAfter some, Disk.fileAt?_append there some] at file
      obtain ⟨other, thereAfter, sameFiles⟩ := alike
      rw [Disk.item_eq_ok_iff.mpr ⟨reachesAfter, thereAfter⟩]
      simp only [sameFiles]
      exact found

end Scan

end WorkspaceBuild
