import WorkspaceBuild.Proofs.Builder.Steps
import WorkspaceBuild.Proofs.Graph.Settled
import WorkspaceBuild.Proofs.Manifests.Text

/-! # Manifests kept in files

A manifest that was written to a file is read from it as it was. Its sets and tables are ascending,
and its times take 64 bits: no more is asked of names, paths and texts.
-/

namespace WorkspaceBuild

/-- The sets and tables of a module are in order. -/
structure Module.IsOrderly (m : Module) : Prop where
  roles : IsAscending m.roles
  parents : IsAscending m.parents
  files : IsAscending m.files.keys

theorem Module.IsOrderly.asRead_eq {m : Module} (orderly : m.IsOrderly) : m.asRead = m := by
  rw [asRead, orderly.roles.ascending_eq, orderly.parents.ascending_eq]

namespace Manifest

/-- The sets and tables of a manifest are in order. -/
structure IsOrderly (m : Manifest) : Prop where
  modules : IsAscending m.modules.keys
  each : ∀ pair ∈ m.modules, pair.2.IsOrderly

variable {m : Manifest} {disk next : Disk} {path : Path} {time : Nat}

theorem IsOrderly.asRead_eq (orderly : m.IsOrderly) : m.asRead = m := by
  have same : m.modules.mapValues Module.asRead = m.modules := by
    rw [Assoc.mapValues]
    refine (List.map_congr_left fun pair listed => ?_).trans (List.map_id m.modules)
    exact Prod.ext rfl (orderly.each pair listed).asRead_eq
  rw [asRead, same]

/-- The text of a manifest says all of it. -/
theorem ofText_text_of_isOrderly (current : m.version = currentVersion) (fits : m.FitsWords)
    (orderly : m.IsOrderly) : ofText m.text = .ok m := by
  rw [ofText_text current fits orderly.modules fun pair listed => (orderly.each pair listed).files,
    orderly.asRead_eq]

/-- A file that was written for a manifest holds its text. -/
theorem item_of_save (ordered : disk.IsOrdered) (saved : save disk m path time = (next, .ok ())) :
    next.item path = .ok (.file (.text m.text) time) := by
  obtain ⟨middle, made, replaced⟩ := save_eq_ok_iff.mp saved
  have reaches := (Disk.eq_setAt_of_replaceFile replaced).1
  obtain ⟨⟨_, _, folders⟩, _⟩ := makeFolderOf_adds ordered reaches.1 (congrArg Prod.fst made)
  have adds := Disk.replaceFile_adds folders.ordered replaced
  have file := (Disk.replaceFile_files folders.ordered replaced).2
  exact Disk.item_eq_ok_iff.mpr
    ⟨adds.keepsFolders.reaches reaches, Disk.fileAt?_eq_some_iff.mp file⟩

/-- Where a file holds the text of a manifest, this manifest is loaded. -/
theorem load_of_text {read : Manifest} (said : ofText m.text = .ok read)
    (kept : disk.item path = .ok (.file (.text m.text) time)) :
    load disk path = .ok read ∧ loadPrevious? disk path = some read := by
  have text : disk.readText path = .ok m.text := by
    rw [Disk.readText, Disk.read, kept]
    rfl
  have loaded : load disk path = .ok read := by
    rw [load, text]
    simp only [said]
    rfl
  have isFile : disk.isFile path = true := by
    rw [Disk.isFile, kept]
    rfl
  refine ⟨loaded, ?_⟩
  rw [loadPrevious?, if_pos isFile, loaded]
  rfl

/-- A manifest is read back from its text. Once it is written to a file, it is loaded from there, as
the manifest of the build before and into a new index. -/
theorem readsBack (current : m.version = currentVersion) (fits : m.FitsWords)
    (orderly : m.IsOrderly) : ofText m.text = .ok m ∧
      ∀ (disk next : Disk) (path : Path) (time : Nat), disk.IsOrdered →
        save disk m path time = (next, .ok ()) →
          load next path = .ok m ∧ loadPrevious? next path = some m ∧
            ManifestIndex.load next path = .ok (.ofManifest path m) := by
  refine ⟨ofText_text_of_isOrderly current fits orderly, fun disk next path time ordered saved => ?_⟩
  obtain ⟨loaded, previous⟩ :=
    load_of_text (ofText_text_of_isOrderly current fits orderly) (item_of_save ordered saved)
  refine ⟨loaded, previous, ?_⟩
  rw [ManifestIndex.load, loaded]
  rfl

/-- A manifest with a module whose texts have to be escaped, at the greatest time. -/
def quotedSample : Manifest where
  version := currentVersion
  workspace := ⟨⟨"/ws"⟩, "app \"one\"", true, .pnpm⟩
  paths := ⟨⟨"/ws/.loom/tsc"⟩, ⟨"/ws/.loom/out"⟩, ⟨".loom"⟩, ⟨"/ws/.loom/types"⟩,
    some "http://localhost"⟩
  main := ⟨"app \"one\"", "1.0\n", ⟨"/ws"⟩⟩
  generated := wordLimit - 1
  modules := [("app \"one\"", {
    name := "app \"one\"", version := "1.0\n", source := ⟨"/ws"⟩, output := ⟨"/ws/.loom/out/é\\"⟩,
    main := true, workspace := true, internal := false, prod := true, roles := [.standard, .doc],
    parents := [], profiles := [],
    files := [(.src, [⟨"src/a.ts", .source, wordLimit - 1, none, []⟩]),
      (.supportFixtures, [⟨"support/fixtures/b", .fixture, 0, some .compile, ["x", ""]⟩])] })]

theorem isOrderly_quotedSample : quotedSample.IsOrderly := by
  refine ⟨by decide, fun pair listed => ?_⟩
  obtain rfl := List.mem_singleton.mp listed
  exact ⟨by decide, by decide, by decide⟩

theorem fitsWords_quotedSample : quotedSample.FitsWords := by
  refine ⟨by decide, fun pair listed => ?_⟩
  obtain rfl := List.mem_singleton.mp listed
  unfold filesFit
  decide

theorem save_quotedSample :
    ∃ next, save .empty quotedSample ⟨"/ws/manifest.json"⟩ 7 = (next, .ok ()) := by
  have made : makeFolderOf .empty ⟨"/ws/manifest.json"⟩ 7 = (⟨[("ws", .folder [] 7)]⟩, .ok ()) := by
    have parent : Path.parent? ⟨"/ws/manifest.json"⟩ = some ⟨"/ws"⟩ := by decide +kernel
    rw [makeFolderOf, parent]
    rfl
  rw [save, made]
  generalize Contents.text quotedSample.text = contents
  exact ⟨_, rfl⟩

theorem readsBack_quotedSample : quotedSample.version = currentVersion ∧ quotedSample.FitsWords ∧
    quotedSample.IsOrderly ∧ ofText quotedSample.text = .ok quotedSample ∧
      Disk.empty.IsOrdered ∧ ∃ next, save .empty quotedSample ⟨"/ws/manifest.json"⟩ 7 = (next, .ok ()) ∧
        load next ⟨"/ws/manifest.json"⟩ = .ok quotedSample ∧
          loadPrevious? next ⟨"/ws/manifest.json"⟩ = some quotedSample ∧
            ManifestIndex.load next ⟨"/ws/manifest.json"⟩ =
              .ok (.ofManifest ⟨"/ws/manifest.json"⟩ quotedSample) := by
  have ordered : Disk.empty.IsOrdered := by decide
  obtain ⟨text, file⟩ := readsBack rfl fitsWords_quotedSample isOrderly_quotedSample
  obtain ⟨next, saved⟩ := save_quotedSample
  exact ⟨rfl, fitsWords_quotedSample, isOrderly_quotedSample, text, ordered, next, saved,
    file _ _ _ _ ordered saved⟩

end Manifest

end WorkspaceBuild
