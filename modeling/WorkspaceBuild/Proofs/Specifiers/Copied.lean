import WorkspaceBuild.Proofs.Specifiers

/-! # Specifiers of copied files

A file that is no source is copied under its own name, but a specifier that resolves to a file always
gets the extension of an output. It stays right just when it had that extension already.
-/

namespace WorkspaceBuild

/-! ## Endings -/

theorem Path.extensionOf?_eq_some_iff {name extension : String} (noDot : '.' ∉ extension.toList)
    (visible : Scan.isSkipped name = false) :
    extensionOf? name = some extension ↔ Text.endsWith name ("." ++ extension) = true := by
  have ends : Text.endsWith name ("." ++ extension) = true ↔
      ∃ stem, name = stem ++ "." ++ extension := by
    simp only [Text.endsWith, Option.isSome_iff_exists, Text.dropEnd?_eq_some_iff,
      ← String.append_assoc]
  rw [ends]
  constructor
  · intro said
    rw [extensionOf?] at said
    split at said
    · rename_i stem ending cut
      split at said
      · cases said
      · cases said
        have whole := Text.eq_of_cutLast? cut
        exact ⟨stem, whole⟩
    · cases said
  · rintro ⟨stem, rfl⟩
    have cut : Text.cutLast? '.' (stem ++ "." ++ extension) = some (stem, extension) :=
      Text.cutLast?_append noDot stem
    have front : stem ≠ "" := by
      rintro rfl
      simp [Scan.isSkipped, Text.beginsWith, Text.dropStart?, Text.dropStartChars?] at visible
    rw [extensionOf?, cut]
    exact if_neg front

/-- The extensions with which a copied file keeps its name in specifiers. -/
def keptExtensions : List String := ["js", "mjs", "cjs"]

variable {path other : Path} {name specifier : String}

theorem outputExtension_congr (same : path.components = other.components) :
    outputExtension path = outputExtension other := by
  rw [outputExtension, outputExtension, Path.extension?, Path.extension?, Path.fileName?,
    Path.fileName?, same]

theorem mem_codeExtensions_outputExtension (path : Path) :
    outputExtension path ∈ Specifier.codeExtensions := by
  unfold outputExtension
  split <;> decide

/-- A name ends in the extension that outputs have, if it has it itself. -/
theorem endsWith_outputExtension_iff (named : path.fileName? = some name)
    (visible : Scan.isSkipped name = false) :
    Text.endsWith name (outputExtension path) = true ↔
      ∃ extension ∈ keptExtensions, path.extension? = some extension := by
  have own : path.extension? = Path.extensionOf? name := by
    rw [Path.extension?, named, Option.bind_some]
  have ends {extension : String} (noDot : '.' ∉ extension.toList) :
      Text.endsWith name ("." ++ extension) = true ↔ path.extension? = some extension := by
    rw [own, Path.extensionOf?_eq_some_iff noDot visible]
  have js := ends (show '.' ∉ "js".toList by decide)
  have mjs := ends (show '.' ∉ "mjs".toList by decide)
  have cjs := ends (show '.' ∉ "cjs".toList by decide)
  simp only [keptExtensions, List.mem_cons, List.not_mem_nil, or_false, exists_eq_or_imp,
    exists_eq_left]
  unfold outputExtension
  split
  all_goals rename_i said
  · exact mjs.trans (by simp [said])
  · exact mjs.trans (by simp [said])
  · exact cjs.trans (by simp [said])
  · exact cjs.trans (by simp [said])
  · exact js.trans (by simp_all)

theorem withExtension_eq_self_iff {extension : String}
    (listed : extension ∈ Specifier.codeExtensions) :
    withExtension name extension = name ↔ Text.endsWith name extension = true := by
  change Specifier.codeStem name ++ extension = name ↔ _
  rw [Text.endsWith, Option.isSome_iff_exists]
  constructor
  · intro same
    exact ⟨_, Text.dropEnd?_eq_some_iff.mpr same.symm⟩
  · rintro ⟨stem, dropped⟩
    obtain rfl := Text.eq_of_dropEnd? dropped
    rw [Specifier.codeStem_append listed]

/-! ## Specifiers that name a file -/

/-- A specifier that leads from some folders of a module to a name in others, by its segments. -/
structure Path.Spells (specifier : String) (dirs before folders : List String) (name : String) :
    Prop where
  text : specifier = spell (before ++ [name])
  noSlash : ∀ part ∈ before, '/' ∉ part.toList
  relative : isAbsolute ⟨specifier⟩ = false
  leads : descend? dirs.reverse (before.filterMap componentOf) = some folders.reverse
  plain : ∀ part ∈ folders ++ [name], IsPlain part

namespace IndexedFile

variable {u t : IndexedFile} {m : Module} {folder out : Path}
variable {dirs before folders : List String}

/-- A file that is copied, by its names below the folders of its module. -/
structure IsCopyAt (file : IndexedFile) (m : Module) (folders : List String) (name : String) :
    Prop where
  plain : ∀ part ∈ folders ++ [name], Path.IsPlain part
  visible : Scan.isSkipped name = false
  source : file.source = m.source.join (Path.spell (folders ++ [name]))
  output : file.output = m.output.join (Path.spell (folders ++ [name]))

/-- A relative specifier of a unit stays in the module and names a file by its own name. -/
structure Names (u t : IndexedFile) (specifier : String) : Prop where
  relative : isRelative specifier = true
  inside : ManifestIndex.staysBelow u.entry.path specifier = true
  named : Path.EndsInName ⟨specifier⟩
  leads : ((u.source.parent?.getD ⟨""⟩).join specifier).normalize = t.source.normalize

theorem IsCopyAt.fileName? (copy : t.IsCopyAt m folders name) : t.source.fileName? = some name := by
  rw [Path.fileName?, copy.source, Path.components_join_spell m.source copy.plain, List.map_append,
    List.map_singleton, ← List.append_assoc, List.getLast?_concat]

theorem Names.exists_spells (names : u.Names t specifier) (stands : u.StandsIn m dirs folder out)
    (copy : t.IsCopyAt m folders name) : ∃ before, Path.Spells specifier dirs before folders name := by
  obtain ⟨before, last, rfl, plainLast, noSlash⟩ := names.named.exists_segments
  have noSlashBefore : ∀ part ∈ before, '/' ∉ part.toList := fun part listed =>
    noSlash part (List.mem_append_left _ listed)
  have absolute := not_isAbsolute_of_isRelative names.relative
  obtain ⟨target, inside⟩ := Option.isSome_iff_exists.mp names.inside
  rw [stands.above, Path.steps_spell_append noSlash, Path.descend?_append] at inside
  obtain ⟨mid, toFolder, _⟩ := Option.bind_eq_some_iff.mp inside
  have same := congrArg Path.components names.leads
  rw [stands.parent, Option.getD_some, Path.components_normalize, Path.components_normalize,
    Path.folded_join_segments stands.below noSlashBefore absolute toFolder plainLast, copy.source,
    Path.folded_join_spell m.source copy.plain] at same
  have names := List.map_injective_iff.mpr (fun _ _ => Path.Component.name.inj)
    (List.append_cancel_left same)
  obtain ⟨inFolders, rfl⟩ := List.append_singleton_inj.mp names
  refine ⟨before, rfl, noSlashBefore, absolute, ?_, copy.plain⟩
  rw [toFolder, ← inFolders, List.reverse_reverse]

/-- Beside the outputs, segments before a name lead to the folder of the copy. -/
theorem IsCopyAt.folded_eq_iff (copy : t.IsCopyAt m folders name)
    (spells : Path.Spells specifier dirs before folders name) (stands : u.StandsIn m dirs folder out)
    {other : String} (plain : Path.IsPlain other) :
    (out.join (Path.spell (before ++ [other]))).folded = t.output.folded ↔ other = name := by
  have relative : Path.isAbsolute ⟨Path.spell (before ++ [other])⟩ = false := by
    rw [Path.isAbsolute_spell_append plain.noSlash (copy.plain name (by simp)).noSlash, ← spells.text]
    exact spells.relative
  rw [copy.output, Path.folded_join_spell m.output copy.plain,
    Path.folded_join_segments stands.beside spells.noSlash relative spells.leads plain,
    List.reverse_reverse]
  simp

/-- A specifier that is rewritten as that of a file stays right just when it had the extension. -/
theorem IsCopyAt.folded_file_iff (copy : t.IsCopyAt m folders name)
    (spells : Path.Spells specifier dirs before folders name) (stands : u.StandsIn m dirs folder out)
    (path : Path) : (out.join (withExtension specifier (outputExtension path))).folded =
      t.output.folded ↔ Text.endsWith name (outputExtension path) = true := by
  have listed := mem_codeExtensions_outputExtension path
  have sound : ∀ extension ∈ Specifier.codeExtensions,
      '/' ∉ extension.toList ∧ 3 ≤ extension.length := by decide
  have plain := isPlain_withExtension (copy.plain name (by simp)) (sound _ listed).1 (sound _ listed).2
  rw [spells.text, Path.withExtension_spell, copy.folded_eq_iff spells stands plain,
    withExtension_eq_self_iff listed]

/-- A specifier that is rewritten as that of a folder leads below where the copy is. -/
theorem IsCopyAt.folded_directory_ne (copy : t.IsCopyAt m folders name)
    (spells : Path.Spells specifier dirs before folders name) (stands : u.StandsIn m dirs folder out)
    (relative : isRelative specifier = true) (path : Path) :
    (out.join (Text.trimEnd specifier '/' ++ "/index" ++ outputExtension path)).folded ≠
      t.output.folded := by
  have plain := isPlain_index (mem_codeExtensions_outputExtension path)
  have noSlash : ∀ part ∈ before ++ [name], '/' ∉ part.toList := by
    simpa [or_imp, forall_and] using ⟨spells.noSlash, (copy.plain name (by simp)).noSlash⟩
  have onwards : Path.descend? dirs.reverse (Path.steps (Text.trimEnd specifier '/' ++ "/" ++
      ("index" ++ outputExtension path))) =
        some (("index" ++ outputExtension path) :: name :: folders.reverse) := by
    rw [Path.steps_append_slash _ plain, Path.steps_trimEnd, spells.text,
      Path.steps_spell_append noSlash, (copy.plain name (by simp)).componentOf, Path.descend?_append,
      Path.descend?_append, spells.leads]
    simp [Path.descend?_name, Path.descend?]
  have stays := not_isAbsolute_trimEnd relative ("/" ++ ("index" ++ outputExtension path))
  rw [← String.append_assoc] at stays
  rw [append_index, Path.folded_join_of_descend? stands.beside stays onwards, copy.output,
    Path.folded_join_spell m.output copy.plain]
  intro same
  have longer := congrArg List.length same
  simp at longer

end IndexedFile

namespace Module

variable {m : Module} {category : Category} {entry : FileEntry}

theorem exists_isCopyAt (seen : Scan.IsSeenPath entry.path) (copied : entry.kind ≠ .source)
    (category : Category) :
    ∃ folders name, (IndexedFile.ofEntry m category entry).IsCopyAt m folders name := by
  obtain ⟨names, some, path, seen⟩ := seen
  rcases List.eq_nil_or_concat names with rfl | ⟨folders, name, rfl⟩
  · exact absurd rfl some
  · rw [List.concat_eq_append] at seen path
    have output : entry.outputPath = entry.path := if_neg copied
    refine ⟨folders, name, fun part listed => (seen part listed).toIsPlain,
      (seen name (by simp)).notSkipped, congrArg m.source.join path, ?_⟩
    exact congrArg m.output.join (output.trans path)

end Module

/-- A unit and a copied file of its module, by their places. -/
theorem Manifest.IsTaken.exists_isCopyAt {manifest : Manifest} (taken : manifest.IsTaken)
    {u t : IndexedFile} (known : u ∈ manifest.indexedFiles) (alsoKnown : t ∈ manifest.indexedFiles)
    (together : t.moduleName = u.moduleName) (isUnit : u.isSource = true)
    (copied : t.isSource = false) : ∃ m dirs folder out folders name,
      u.StandsIn m dirs folder out ∧ t.IsCopyAt m folders name := by
  obtain ⟨m, category, entry, category', entry', _, scanned, member, rfl, member', rfl⟩ :=
    taken.exists_entries known alsoKnown together
  have source : entry.kind = .source := of_decide_eq_true isUnit
  have notSource : entry'.kind ≠ .source := of_decide_eq_false copied
  obtain ⟨dirs, folder, out, stands⟩ := Module.exists_standsIn (m := m)
    (scanned.below_of_source member source member) category
  obtain ⟨folders, name, copy⟩ := Module.exists_isCopyAt (m := m)
    (scanned.below_of_source member source member') notSource category'
  exact ⟨m, dirs, folder, out, folders, name, stands, copy⟩

/-! ## What becomes of them -/

namespace ManifestIndex

variable {index : ManifestIndex} {u t : IndexedFile}

/-- What a specifier of a unit is rewritten to leads from its output to that of another file. -/
def Relinks (index : ManifestIndex) (u t : IndexedFile) (specifier : String) : Prop :=
  ∃ out, u.output.parent? = some out ∧
    (out.join (outputSpecifier index.references u.source specifier)).normalize = t.output.normalize

/-- A path that is spelled as the source of a file resolves to a file with that source. -/
theorem exists_resolvePath? (known : t ∈ index.files) (same : path.components = t.source.components) :
    ∃ file, index.resolvePath? path = some (.file, file) ∧
      file.source.components = t.source.components := by
  have listed : t ∈ index.files.filter fun file => file.source.same path :=
    List.mem_filter.mpr ⟨known, by simp [Path.same, same]⟩
  obtain ⟨file, found⟩ : ∃ file, index.bySource? path = some file :=
    Option.isSome_iff_exists.mp (List.getLast?_isSome.mpr (List.ne_nil_of_mem listed))
  refine ⟨file, ?_, (same_of_bySource? found).2.trans same⟩
  rw [resolvePath?, found, Option.some_or]

variable {m : Module} {dirs before folders : List String} {folder out : Path}

theorem relinks_iff_folded (stands : u.StandsIn m dirs folder out) :
    index.Relinks u t specifier ↔
      (out.join (outputSpecifier index.references u.source specifier)).folded = t.output.folded := by
  constructor
  · rintro ⟨_, parent, same⟩
    cases stands.outParent.symm.trans parent
    simpa only [Path.components_normalize] using congrArg Path.components same
  · intro same
    exact ⟨out, stands.outParent, congrArg Path.ofComponents same⟩

/-- Rewriting does not lead elsewhere where nothing is found, or where a file is found and the name
has the extension of its output. -/
theorem relinks_iff_of_spells (copy : t.IsCopyAt m folders name)
    (spells : Path.Spells specifier dirs before folders name) (stands : u.StandsIn m dirs folder out)
    (relative : isRelative specifier = true) :
    index.Relinks u t specifier ↔ ∀ reference, index.resolve? u.source specifier = some reference →
      reference.kind = .file ∧ Text.endsWith name (outputExtension reference.path) = true := by
  rw [relinks_iff_folded stands]
  cases resolved : index.resolve? u.source specifier with
  | none =>
      have asWritten : outputSpecifier index.references u.source specifier = specifier := by
        rw [outputSpecifier, show index.references.resolve u.source specifier = none from resolved]
      have right := (copy.folded_eq_iff spells stands (copy.plain name (by simp))).mpr rfl
      rw [← spells.text] at right
      simp [asWritten, right]
  | some reference =>
      obtain ⟨path, kind, project⟩ := reference
      have asked : index.references.resolve u.source specifier = some ⟨path, kind, project⟩ := resolved
      rw [outputSpecifier_of_resolve relative asked]
      cases kind with
      | file => simp [Specifier.rewritten, copy.folded_file_iff spells stands path]
      | directory => simp [Specifier.rewritten, copy.folded_directory_ne spells stands relative path]

theorem endsWith_of_spells (spells : Path.Spells specifier dirs before folders name) {ending : String}
    (noSlash : '/' ∉ ending.toList) : Text.endsWith specifier ending = Text.endsWith name ending := by
  obtain ⟨front, isFront, exchanged⟩ := Path.exists_front_spell before
  rw [spells.text, exchanged, Text.endsWith, Text.endsWith, Path.dropEnd?_front isFront name noSlash]
  exact Option.isSome_map

/-- What a specifier that names a file of its module by its own name is rewritten to leads to the
file's copy just when it resolves to nothing, or to a file and has the extension of that file's
output already. When the source of the file is in normal form, that is when the name has one of the
extensions of outputs. -/
theorem relinks_iff (index : ManifestIndex) (taken : index.manifest.IsTaken)
    (known : u ∈ index.files) (alsoKnown : t ∈ index.files) (together : t.moduleName = u.moduleName)
    (isUnit : u.isSource = true) (copied : t.isSource = false) (names : u.Names t specifier) :
    (index.Relinks u t specifier ↔ ∀ reference, index.resolve? u.source specifier = some reference →
      reference.kind = .file ∧
        Text.endsWith specifier (outputExtension reference.path) = true) ∧
    (t.source.folded = t.source.components →
      (index.Relinks u t specifier ↔
        ∃ extension ∈ keptExtensions, t.source.extension? = some extension)) := by
  obtain ⟨m, dirs, folder, out, folders, name, stands, copy⟩ :=
    taken.exists_isCopyAt (index.files_eq ▸ known) (index.files_eq ▸ alsoKnown) together isUnit copied
  obtain ⟨before, spells⟩ := names.exists_spells stands copy
  have leads : index.Relinks u t specifier ↔ _ :=
    relinks_iff_of_spells copy spells stands names.relative
  have noSlash (path : Path) : '/' ∉ (outputExtension path).toList := by
    have all : ∀ extension ∈ Specifier.codeExtensions, '/' ∉ extension.toList := by decide
    exact all _ (mem_codeExtensions_outputExtension path)
  refine ⟨by simpa only [endsWith_of_spells spells (noSlash _)] using leads, fun folded => ?_⟩
  have same := congrArg Path.components names.leads
  rw [Path.components_normalize t.source, folded] at same
  obtain ⟨file, found, sameSource⟩ := exists_resolvePath? alsoKnown same
  have resolved : index.resolve? u.source specifier =
      some ⟨file.source, .file, some file.moduleName⟩ := by
    rw [resolve?, if_pos names.relative, found]
    rfl
  have extension := outputExtension_congr sameSource
  rw [leads, resolved, ← endsWith_outputExtension_iff copy.fileName? copy.visible]
  simp [extension]

/-! A module in which `src/app/a.ts` imports files of `src/lib` that are copied. -/

section Copied

def copiedDisk : Disk :=
  let file (name : String) : String × Item := (name, .file (.text "") 5)
  let folder (name : String) (entries : List (String × Item)) : String × Item :=
    (name, .folder entries 5)
  ⟨[folder "w" [folder "src" [folder "app" [file "a.ts"],
    folder "lib" [file "data.json", file "old.cjs"]]]]⟩

def copiedModule : Module :=
  { linkedModule with
    files := [(.src, [⟨"src/app/a.ts", .source, 5, none, []⟩,
      ⟨"src/lib/data.json", .json, 5, none, []⟩, ⟨"src/lib/old.cjs", .compiled, 5, none, []⟩])] }

def copiedIndex : ManifestIndex :=
  .ofManifest ⟨"/m"⟩ { linkedManifest with modules := [("w", copiedModule)] }

def copiedFile (path : String) (kind : FileKind) : IndexedFile :=
  .ofEntry copiedModule .src ⟨path, kind, 5, none, []⟩

theorem isTaken_copied : copiedIndex.manifest.IsTaken := by
  have taken : (Snapshot.take copiedDisk linkedSettings true 9
      (.single { name := "w", dir := ⟨"/w"⟩, main := true, workspace := true }) .empty).2 =
        .ok copiedIndex.manifest := eq_ok_of_toOption (by decide +kernel)
  exact ⟨_, _, _, _, _, _, by decide, .empty, taken⟩

end Copied

/-- The import of `old.cjs` still names its copy, and that of `data.json` names no file. -/
theorem relinks_copied :
    let u := copiedFile "src/app/a.ts" .source
    let data := copiedFile "src/lib/data.json" .json
    let old := copiedFile "src/lib/old.cjs" .compiled
    copiedIndex.manifest.IsTaken ∧ (∀ file ∈ [u, data, old], file ∈ copiedIndex.files) ∧
      u.Names data "../lib/data.json" ∧ u.Names old "../lib/./old.cjs" ∧
      outputSpecifier copiedIndex.references u.source "../lib/data.json" = "../lib/data.json.js" ∧
      ¬ copiedIndex.Relinks u data "../lib/data.json" ∧
      copiedIndex.Relinks u old "../lib/./old.cjs" := by
  intro u data old
  have known : ∀ file ∈ [u, data, old], file ∈ copiedIndex.files := by decide +kernel
  have inData : u.Names data "../lib/data.json" :=
    ⟨rfl, by decide, ⟨"data.json", by decide⟩, by decide +kernel⟩
  have inOld : u.Names old "../lib/./old.cjs" :=
    ⟨rfl, by decide, ⟨"old.cjs", by decide⟩, by decide +kernel⟩
  obtain ⟨_, ofData⟩ := relinks_iff copiedIndex isTaken_copied (known u (by simp))
    (known data (by simp)) rfl rfl rfl inData
  obtain ⟨_, ofOld⟩ := relinks_iff copiedIndex isTaken_copied (known u (by simp))
    (known old (by simp)) rfl rfl rfl inOld
  exact ⟨isTaken_copied, known, inData, inOld, by decide +kernel,
    mt (ofData (by decide)).mp (by decide), (ofOld (by decide)).mpr (by decide)⟩

end ManifestIndex

end WorkspaceBuild
