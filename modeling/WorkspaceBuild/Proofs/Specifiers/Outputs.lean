import WorkspaceBuild.Proofs.Specifiers.Exact

/-! # Bare specifiers beside the outputs

The outputs of modules stand by their names in one folder, and there a bare specifier of a source has
to lead to its output. Rewriting exchanges an extension or goes on to the index file of a folder. Which
of them is asked for it tells from the text, and some texts tell it wrong.
-/

namespace WorkspaceBuild

namespace Path

variable {p root : Path} {name further : String} {names others : List String}

theorem steps_append (text further : String) :
    steps (text ++ "/" ++ further) = steps text ++ steps further := by
  rw [steps, Text.pieces_append_slash, List.filterMap_append, steps, steps]

theorem components_append_slash (some : p.text ≠ "") (further : String) :
    components ⟨p.text ++ "/" ++ further⟩ = p.components ++ steps further := by
  have absolute := isAbsolute_append_of_ne some ("/" ++ further)
  rw [← String.append_assoc] at absolute
  cases split : Text.pieces '/' p.text with
  | nil => exact absurd split (Text.pieces_ne_nil _ _)
  | cons first rest =>
      have longer : Text.pieces '/' (p.text ++ "/" ++ further) =
          first :: (rest ++ Text.pieces '/' further) := by
        rw [Text.pieces_append_slash, split, List.cons_append]
      rw [components_eq _ split, components_eq ⟨p.text ++ "/" ++ further⟩ longer, absolute,
        List.filterMap_append, List.append_assoc, steps]

/-- Joining a name and what follows leads on from joining the name. -/
theorem components_join_slash (some : p.text ≠ "") (named : name ≠ "") (further : String) :
    (p.join (name ++ "/" ++ further)).components = (p.join name).components ++ steps further := by
  have absolute := isAbsolute_append_of_ne (p := ⟨name⟩) named ("/" ++ further)
  rw [← String.append_assoc] at absolute
  cases rooted : isAbsolute ⟨name⟩ with
  | true =>
      rw [rooted] at absolute
      rw [join, join, if_pos absolute, if_pos rooted]
      exact components_append_slash (p := ⟨name⟩) named further
  | false =>
      rw [rooted] at absolute
      rw [components_join absolute some, components_join rooted some, steps_append, List.append_assoc]

/-- In the folder of all outputs, a specifier leads below the output of its module when the module
has a name at all. -/
theorem same_moduleOutput_iff (plain : ∀ part ∈ names, IsPlain part)
    (alsoPlain : ∀ part ∈ others, IsPlain part) (longer : names.length ≤ others.length) :
    ((root.join "node_modules").join (Specifier.qualified name (spell names))).same
        ((moduleOutput root name).join (spell others)) = true ↔ name ≠ "" ∧ names = others := by
  have plainFolder : IsPlain "node_modules" := ⟨by decide, by decide, by decide⟩
  have folder := components_join_plain root plainFolder
  rw [same, decide_eq_true_iff, components_join_spell _ alsoPlain, moduleOutput]
  by_cases empty : name = ""
  · have rooted : ((root.join "node_modules").join (Specifier.qualified name (spell names))).components =
        .root :: names.map Component.name := by
      have text : Specifier.qualified name (spell names) = (ofMarked [.root] names).text := by
        rw [empty]
        rfl
      have absolute : isAbsolute ⟨Specifier.qualified name (spell names)⟩ = true := by
        rw [isAbsolute, Specifier.toList_qualified, empty]
        rfl
      rw [join, if_pos absolute, text, components_ofMarked_root fun part listed => (plain part listed).noSlash,
        filterMap_plain plain]
    have above : ((root.join "node_modules").join name).components =
        root.components ++ [.name "node_modules"] := by
      have nothing : ∀ part ∈ ([] : List String), IsPlain part := by simp
      rw [empty, ← folder]
      exact (components_join_spell (root.join "node_modules") nothing).trans (List.append_nil _)
    rw [rooted, above]
    simp only [empty, ne_eq, not_true_eq_false, false_and, iff_false]
    intro same
    have lengths := congrArg List.length same
    simp only [List.length_append, List.length_cons, List.length_map, List.length_nil] at lengths
    have none : root.components = [] := List.length_eq_zero_iff.mp (by omega)
    rw [none] at same
    cases same
  · have text : (root.join "node_modules").text ≠ "" := by
      intro void
      rw [show root.join "node_modules" = ⟨""⟩ from by rw [← void], components_empty] at folder
      simp at folder
    rw [Specifier.qualified, components_join_slash text empty, steps_spell plain,
      List.append_cancel_left_eq]
    simp only [ne_eq, empty, not_false_eq_true, true_and]
    exact ⟨fun same => map_name_injective same, congrArg _⟩

end Path

namespace Text

theorem trimEnd_append {last : String} (some : last ≠ "") (noSlash : '/' ∉ last.toList) (front : String) :
    trimEnd (front ++ last) '/' = front ++ last := by
  have nonempty : last.toList ≠ [] := fun empty => some (String.toList_inj.mp empty)
  obtain ⟨more, c, ends⟩ := (List.eq_nil_or_concat last.toList).resolve_left nonempty
  have other : c ≠ '/' := by
    rintro rfl
    exact noSlash (by simp [ends])
  rw [← String.toList_inj, trimEnd, String.toList_append, ends]
  simp [other]

end Text

namespace Specifier

variable {text name last extension : String} {names : List String}

/-- Whether a text ends in an extension that rewriting takes for that of its target. -/
def HasExtension (text : String) : Prop :=
  ∃ extension ∈ knownExtensions, Text.endsWith text extension = true

theorem codeStem_eq_self_iff : codeStem text = text ↔ ¬ HasExtension text := by
  constructor
  · rintro kept ⟨extension, listed, ends⟩
    obtain ⟨start, rfl⟩ := Text.endsWith_iff.mp ends
    rw [codeStem_append listed] at kept
    have some : ∀ extension ∈ knownExtensions, 0 < extension.length := by decide
    have lengths := congrArg String.length kept
    rw [String.length_append] at lengths
    have long := some extension listed
    omega
  · intro bare
    cases found : dropEnding? codeExtensions text with
    | none => rw [codeStem, found, Option.getD_none]
    | some start =>
        obtain ⟨extension, listed, dropped⟩ := List.exists_of_findSome?_eq_some found
        exact absurd ⟨extension, listed, Option.isSome_of_eq_some dropped⟩ bare

theorem exists_front_qualified (name : String) (names : List String) : ∃ front, Path.IsFront front ∧
    ∀ last, qualified name (Path.spell (names ++ [last])) = front ++ last := by
  obtain ⟨front, isFront, exchanged⟩ := Path.exists_front_spell names
  refine ⟨name ++ "/" ++ front, .inr ?_, fun last => ?_⟩
  · rcases isFront with rfl | ⟨before, rfl⟩
    · exact ⟨name, String.append_empty⟩
    · exact ⟨name ++ "/" ++ before, (String.append_assoc).symm⟩
  · rw [exchanged, qualified, String.append_assoc, String.append_assoc, String.append_assoc]

theorem hasExtension_qualified :
    HasExtension (qualified name (Path.spell (names ++ [last]))) ↔ HasExtension last := by
  obtain ⟨front, isFront, exchanged⟩ := exists_front_qualified name names
  have plain : ∀ extension ∈ knownExtensions, '/' ∉ extension.toList := by decide
  refine exists_congr fun extension => and_congr_right fun listed => ?_
  rw [exchanged, Text.endsWith, Path.dropEnd?_front isFront last (plain extension listed),
    Option.isSome_map, Text.endsWith]

theorem withExtension_qualified (name : String) (names : List String) (last extension : String) :
    withExtension (qualified name (Path.spell (names ++ [last]))) extension =
      qualified name (Path.spell (names ++ [codeStem last ++ extension])) := by
  obtain ⟨front, isFront, exchanged⟩ := exists_front_qualified name names
  rw [exchanged, exchanged, withExtension_front isFront]
  rfl

theorem qualified_inj_iff {p q : String} : qualified name p = qualified name q ↔ p = q :=
  ⟨fun same => (qualified_inj (.inl rfl) same).2, congrArg _⟩

end Specifier

namespace IndexedFile

open Specifier

variable {t : IndexedFile} {m : Module} {folders : List String} {stem ending specifier : String}

/-- A source by the names that its path is made of, with those of its stem and of its output. -/
structure IsSpelled (t : IndexedFile) (folders : List String) (stem ending : String) : Prop where
  isSource : ending ∈ sourceExtensions
  plain : ∀ part ∈ folders ++ [stem ++ ending], Path.IsPlain part
  plainStem : Path.IsPlain stem
  path : t.entry.path = Path.spell (folders ++ [stem ++ ending])
  bare : Specifier.stem t.entry.path = Path.spell (folders ++ [stem])
  output : t.entry.outputPath = Path.spell (folders ++ [stem ++ outputEnding ending])
  named : t.source.fileName? = some (stem ++ ending)
  extension : outputExtension t.source = outputEnding ending

end IndexedFile

theorem not_isTypings_of_source {path : String} {category : Category}
    (source : fileKind path category = .source) : isTypings path = false := by
  unfold fileKind at source
  split at source
  iterate 4 cases source
  · split at source
    · cases source
    · rename_i notTypings
      exact Bool.eq_false_iff.mpr notTypings

namespace Module

variable {m : Module} {category : Category} {entry : FileEntry}

theorem IsScanned.exists_isSpelled (scanned : m.IsScanned) (listed : (category, entry) ∈ m.entries)
    (source : entry.kind = .source) : ∃ folders stem ending,
      (IndexedFile.ofEntry m category entry).IsSpelled folders stem ending := by
  obtain ⟨folders, stem, ending, place⟩ := scanned.exists_isSourceAt listed source
  have kind := (scanned.filed category entry listed).2
  have seen := scanned.below_of_source listed source listed
  obtain ⟨names, _, path, seenNames⟩ := id seen
  have plainNames : ∀ name ∈ names, Path.IsPlain name := fun name listed => (seenNames name listed).toIsPlain
  have same := place.place
  change (m.source.join entry.path).components = _ at same
  rw [path, Path.components_join_spell _ plainNames] at same
  obtain rfl := Path.map_name_injective (List.append_cancel_left same)
  have notTypings := not_isTypings_of_source (kind.symm.trans source)
  obtain ⟨front, isFront, exchanged⟩ := Path.exists_front_spell folders
  rw [path, exchanged] at notTypings
  have bareName : Specifier.stem (stem ++ ending) = stem := by
    have short := Specifier.stem_front (.inl rfl : Path.IsFront "") notTypings isFront
    rwa [String.empty_append, String.empty_append,
      Specifier.codeStem_append (mem_codeExtensions place.isSource)] at short
  refine ⟨folders, stem, ending, place.isSource, place.plain, ?_, path, ?_, ?_, ?_, place.extension⟩
  · have plainStem := Specifier.isPlain_stem (seenNames (stem ++ ending) (by simp))
    rwa [bareName] at plainStem
  · change Specifier.stem entry.path = _
    rw [path, Specifier.stem_spell, bareName]
  · change compiledPath entry.path entry.kind = _
    rw [path, source, Path.compiledPath_spell, compiledPath_append place.isSource]
  · rw [Path.fileName?, place.place, List.map_append, List.map_singleton, ← List.append_assoc,
      List.getLast?_concat]

end Module

namespace IndexedFile

open Specifier

variable {t : IndexedFile} {folders : List String} {stem ending specifier : String}

theorem IsSpelled.plain_append (spelled : t.IsSpelled folders stem ending) {name : String}
    (plain : Path.IsPlain name) : ∀ part ∈ folders ++ [name], Path.IsPlain part := by
  intro part listed
  rcases List.mem_append.mp listed with above | last
  · exact spelled.plain part (List.mem_append_left _ above)
  · rwa [List.mem_singleton.mp last]

/-- The forms of a specifier that names a source without its folder standing for it. -/
theorem IsSpelled.exists_more (spelled : t.IsSpelled folders stem ending)
    (listed : specifier ∈ t.specifiers) (other : specifier ∉ t.folderSpecifier) :
    ∃ more, (more = "" ∨ more = ending ∨ more = outputEnding ending) ∧
      specifier = qualified t.moduleName (Path.spell (folders ++ [stem ++ more])) := by
  rcases mem_specifiers_iff.mp listed with exact | ⟨_, bare | output | folder⟩
  · exact ⟨_, .inr (.inl rfl), spelled.path ▸ exact⟩
  · exact ⟨"", .inl rfl, by rw [String.append_empty, ← spelled.bare, bare]⟩
  · exact ⟨_, .inr (.inr rfl), spelled.output ▸ output⟩
  · exact absurd folder other

/-- A folder stands for its index file. -/
theorem IsSpelled.exists_folder (spelled : t.IsSpelled folders stem ending)
    (listed : specifier ∈ t.folderSpecifier) (other : specifier ≠ t.moduleName) :
    stem = "index" ∧ ∃ above last, folders = above ++ [last] ∧
      specifier = qualified t.moduleName (Path.spell folders) := by
  obtain ⟨front, index, rfl⟩ := exists_of_mem_folderSpecifier listed other
  have pieces := congrArg (Text.pieces '/') index
  rw [spelled.bare, Path.pieces_spell (by simp) (spelled.plain_append spelled.plainStem),
    Text.pieces_append_index] at pieces
  obtain ⟨rfl, named⟩ := List.append_singleton_inj.mp pieces
  obtain ⟨above, last, split⟩ :=
    (List.eq_nil_or_concat (Text.pieces '/' front)).resolve_left (Text.pieces_ne_nil _ _)
  rw [List.concat_eq_append] at split
  exact ⟨named, above, last, split, congrArg _ (Text.joined_pieces '/' front).symm⟩

/-- A source is reached as a folder where its folder stands for it, unless the text reads as naming
an index file. -/
theorem IsSpelled.reachesFolder_iff (spelled : t.IsSpelled folders stem ending) {index : ManifestIndex}
    (listed : specifier ∈ t.specifiers) (unnamed : specifier ∉ index.manifest.modules.keys)
    (other : specifier ≠ t.moduleName) : index.reachesFolder specifier t = true ↔
      specifier ∈ t.folderSpecifier ∧ ¬ NamesIndex specifier := by
  rw [ManifestIndex.reachesFolder_iff unnamed]
  refine and_congr_left fun named => ⟨fun ⟨front, index⟩ => ?_, fun folder => ?_⟩
  · by_contra inFile
    obtain ⟨more, ending, rfl⟩ := spelled.exists_more listed inFile
    obtain ⟨before, _, exchanged⟩ := Path.exists_front_spell folders
    rw [spelled.bare, exchanged] at index
    have dotted : ∀ ending ∈ sourceExtensions, ending.toList.head? = some '.' ∧
        (outputEnding ending).toList.head? = some '.' := by decide
    have extra : IsExtra more := by
      rcases ending with rfl | rfl | rfl
      · exact .inl rfl
      · exact isExtra_of_head? (dotted _ spelled.isSource).1
      · exact isExtra_of_head? (dotted _ spelled.isSource).2
    have whole : Path.spell (folders ++ [stem ++ more]) = front ++ "/index" ++ more := by
      rw [exchanged, ← String.append_assoc, index]
    exact named (namesIndex_qualified extra whole)
  · obtain ⟨rfl, above, last, rfl, _⟩ := spelled.exists_folder folder other
    refine ⟨Path.spell (above ++ [last]), ?_⟩
    rw [spelled.bare, Path.spell, Text.joined_append_singleton (by simp), String.append_assoc]
    rfl

theorem IsSpelled.plainOutput (spelled : t.IsSpelled folders stem ending) :
    ∀ part ∈ folders ++ [stem ++ outputEnding ending], Path.IsPlain part := by
  refine spelled.plain_append ?_
  rw [← compiledPath_append spelled.isSource]
  exact isPlain_compiledPath (spelled.plain _ (by simp)) .source

/-- Exchanging the extension leads to the output of a source just when that is what its own names
become. -/
theorem IsSpelled.same_withExtension_iff (spelled : t.IsSpelled folders stem ending) {root : Path}
    (lies : t.output = (moduleOutput root t.moduleName).join t.entry.outputPath)
    {names : List String} {last : String} (plain : ∀ part ∈ names ++ [last], Path.IsPlain part)
    (fewer : names.length ≤ folders.length) :
    ((root.join "node_modules").join (withExtension
        (qualified t.moduleName (Path.spell (names ++ [last]))) (outputExtension t.source))).same
          t.output = true ↔
      t.moduleName ≠ "" ∧ names = folders ∧ codeStem last = stem := by
  obtain ⟨noSlash, long⟩ := sound_outputEnding ending
  have plainLast := isPlain_withExtension (plain last (by simp)) noSlash long
  have plainNames : ∀ part ∈ names ++ [codeStem last ++ outputEnding ending], Path.IsPlain part := by
    intro part listed
    rcases List.mem_append.mp listed with above | isLast
    · exact plain part (List.mem_append_left _ above)
    · rwa [List.mem_singleton.mp isLast]
  rw [withExtension_qualified, lies, spelled.output, spelled.extension,
    Path.same_moduleOutput_iff plainNames spelled.plainOutput (by simpa using fewer)]
  refine and_congr_right fun _ => ?_
  rw [List.append_singleton_inj, String.append_left_inj]

/-- Going on to the index file of its folder leads to the output of an index file. -/
theorem IsSpelled.same_index_iff {above : List String} {last : String}
    (spelled : t.IsSpelled (above ++ [last]) "index" ending) {root : Path}
    (lies : t.output = (moduleOutput root t.moduleName).join t.entry.outputPath) :
    ((root.join "node_modules").join (Text.trimEnd
        (qualified t.moduleName (Path.spell (above ++ [last]))) '/' ++ "/index" ++
          outputExtension t.source)).same t.output = true ↔ t.moduleName ≠ "" := by
  obtain ⟨front, _, exchanged⟩ := exists_front_qualified t.moduleName above
  have plainLast := spelled.plain last (by simp)
  have some : above ++ [last] ≠ [] := by simp
  have text : Text.trimEnd (qualified t.moduleName (Path.spell (above ++ [last]))) '/' ++ "/index" ++
      outputEnding ending = qualified t.moduleName
        (Path.spell (above ++ [last] ++ ["index" ++ outputEnding ending])) := by
    rw [exchanged, Text.trimEnd_append plainLast.ne_empty plainLast.noSlash, ← exchanged, append_index,
      qualified, qualified, Path.spell, Path.spell, Text.joined_append_singleton some]
    simp only [String.append_assoc]
  rw [spelled.extension, text, lies, spelled.output,
    Path.same_moduleOutput_iff spelled.plainOutput spelled.plainOutput le_rfl]
  exact and_iff_left rfl

end IndexedFile

namespace Manifest

variable {manifest : Manifest} {t file : IndexedFile}

/-- The outputs of a module lie below a folder of its name. -/
theorem IsTaken.output_eq (taken : manifest.IsTaken) (known : t ∈ manifest.indexedFiles) :
    t.output = (moduleOutput manifest.paths.output t.moduleName).join t.entry.outputPath := by
  obtain ⟨_, m, category, entry, named, _, rfl⟩ := (mem_indexedFiles taken.ascending).mp known
  obtain ⟨_, settings, node, _, _, root, rfl⟩ :=
    taken.exists_files Scan.isFound_of_run named
  rw [root]
  rfl

theorem IsTaken.exists_isSpelled (taken : manifest.IsTaken) (known : t ∈ manifest.indexedFiles)
    (isSource : t.isSource = true) :
    ∃ folders stem ending, t.IsSpelled folders stem ending ∧ t.moduleName ∈ manifest.modules.keys := by
  obtain ⟨m, category, entry, _, _, named, scanned, member, rfl, _⟩ :=
    taken.exists_entries known known rfl
  obtain ⟨folders, stem, ending, spelled⟩ :=
    scanned.exists_isSpelled member (of_decide_eq_true isSource)
  exact ⟨folders, stem, ending, spelled, Assoc.mem_keys_of_get? named⟩

/-- A source is told apart from the other files of its module by where it is. -/
theorem IsTaken.eq_of_source (taken : manifest.IsTaken) (known : t ∈ manifest.indexedFiles)
    (alsoKnown : file ∈ manifest.indexedFiles) (isSource : t.isSource = true)
    (together : file.moduleName = t.moduleName) (same : file.source = t.source) : file = t := by
  obtain ⟨m, category, entry, category', entry', named, scanned, member, rfl, member', rfl⟩ :=
    taken.exists_entries known alsoKnown together
  have source : entry.kind = .source := of_decide_eq_true isSource
  obtain ⟨names, _, path, seen⟩ := scanned.below_of_source member source member
  obtain ⟨names', _, path', seen'⟩ := scanned.below_of_source member source member'
  have places := congrArg Path.components same
  change (m.source.join entry'.path).components = (m.source.join entry.path).components at places
  rw [path, path', Path.components_join_spell _ fun part listed => (seen part listed).toIsPlain,
    Path.components_join_spell _ fun part listed => (seen' part listed).toIsPlain] at places
  have paths : entry'.path = entry.path := by
    rw [path, path', Path.map_name_injective (List.append_cancel_left places)]
  cases (taken.isInOrder named).eq_of_path member' member paths
  rfl

end Manifest

namespace ManifestIndex

open Specifier

variable {index : ManifestIndex} {t : IndexedFile} {kind : ReferenceKind} {specifier : String}

/-- A bare specifier of a source that is no name of a module is rewritten so that, from the folder of
all outputs, it leads to the output of the source, unless the module has no name, or the specifier is
the path without its extension but still ends like code, or it is the source's folder but reads as
naming an index file. -/
theorem same_outputSpecifier_iff (index : ManifestIndex) (taken : index.manifest.IsTaken)
    (known : t ∈ index.files) (isSource : t.isSource = true) (bare : isRelative specifier = false)
    (unnamed : specifier ∉ index.manifest.modules.keys) (u : Path)
    (resolved : index.resolve? u specifier = some ⟨t.source, kind, some t.moduleName⟩) :
    ((index.manifest.paths.output.join "node_modules").join
        (outputSpecifier index.references u specifier)).same t.output = true ↔
      t.moduleName ≠ "" ∧
      (specifier = qualified t.moduleName (stem t.entry.path) → ¬ HasExtension specifier) ∧
      (specifier ∈ t.folderSpecifier → ¬ NamesIndex specifier) := by
  obtain ⟨file, first, same⟩ := (resolve?_bare_iff bare).mp resolved
  obtain ⟨goes, _, _, split, _⟩ := bySpecifier?_eq_some_iff.mp first
  obtain ⟨sources, kinds, modules⟩ := ResolvedReference.mk.inj same
  have listed : file ∈ index.files := by simp [split]
  rw [index.files_eq] at known listed
  obtain rfl := taken.eq_of_source known listed isSource (Option.some_inj.mp modules).symm sources.symm
  obtain ⟨folders, base, ending, spelled, key⟩ := taken.exists_isSpelled known isSource
  have lies := taken.output_eq known
  have other : specifier ≠ file.moduleName := fun same => unnamed (same ▸ key)
  have folder := spelled.reachesFolder_iff goes unnamed other
  have asked : index.references.resolve u specifier = some ⟨_, _, _⟩ := resolved
  have rewritten := outputSpecifier_of_named asked other
  have plainBase := spelled.plain_append spelled.plainStem
  have isBare {names : List String} (plain : ∀ part ∈ names, Path.IsPlain part) :
      qualified file.moduleName (Path.spell names) = qualified file.moduleName (stem file.entry.path) ↔
        names = folders ++ [base] := by
    rw [spelled.bare, qualified_inj_iff]
    exact ⟨Path.spell_injective plain plainBase, congrArg _⟩
  by_cases inFolder : specifier ∈ file.folderSpecifier
  · obtain ⟨rfl, above, last, rfl, rfl⟩ := spelled.exists_folder inFolder other
    have plainFolders : ∀ part ∈ above ++ [last], Path.IsPlain part := fun part listed =>
      spelled.plain part (List.mem_append_left _ listed)
    have notBare := mt (isBare plainFolders).mp (by simp)
    rw [rewritten, kinds]
    by_cases reads : NamesIndex (qualified file.moduleName (Path.spell (above ++ [last])))
    · rw [if_neg (mt folder.mp fun inside => inside.2 reads), Specifier.rewritten]
      simp [spelled.same_withExtension_iff lies plainFolders (by simp), inFolder, reads]
    · rw [if_pos (folder.mpr ⟨inFolder, reads⟩), Specifier.rewritten]
      simp [spelled.same_index_iff lies, notBare, reads]
  · obtain ⟨more, form, rfl⟩ := spelled.exists_more goes inFolder
    have plainMore : Path.IsPlain (base ++ more) := by
      rcases form with rfl | rfl | rfl
      · rw [String.append_empty]
        exact spelled.plainStem
      · exact spelled.plain _ (by simp)
      · exact spelled.plainOutput _ (by simp)
    have plainNames := spelled.plain_append plainMore
    rw [rewritten, kinds, if_neg (mt folder.mp fun inside => inFolder inside.1), Specifier.rewritten,
      spelled.same_withExtension_iff lies plainNames le_rfl, isBare plainNames, hasExtension_qualified]
    refine and_congr_right fun _ => ?_
    simp only [inFolder, false_imp_iff, and_true, true_and, List.append_cancel_left_eq, List.cons.injEq]
    have coded : more = "" ∨ more ∈ codeExtensions := by
      rcases form with rfl | rfl | rfl
      · exact .inl rfl
      · exact .inr (mem_codeExtensions spelled.isSource)
      · exact .inr (mem_codeExtensions_outputEnding ending)
    rcases coded with rfl | listed
    · simp [codeStem_eq_self_iff]
    · have some : ∀ extension ∈ codeExtensions, extension ≠ "" := by decide
      simp [codeStem_append listed, some more listed]

/-- The folder `index` is taken for its index file, while `a.ts` is found by all its names. -/
theorem same_outputSpecifier_siblings :
    let a : IndexedFile := .ofEntry siblingsModule .src ⟨"src/a.ts", .source, 5, none, []⟩
    let inner : IndexedFile := .ofEntry siblingsModule .src ⟨"src/index/index.ts", .source, 5, none, []⟩
    let modules := siblingsIndex.manifest.paths.output.join "node_modules"
    let rewritten := outputSpecifier siblingsIndex.references a.source
    siblingsIndex.manifest.IsTaken ∧ (∀ file ∈ [a, inner], file ∈ siblingsIndex.files) ∧
      (modules.join (rewritten "w/src/a.ts")).same a.output = true ∧
      siblingsIndex.resolve? a.source "w/src/index" = some ⟨inner.source, .file, some "w"⟩ ∧
      rewritten "w/src/index" = "w/src/index.js" ∧
      (modules.join (rewritten "w/src/index")).same inner.output = false := by
  intro a inner modules rewritten
  have all : (∀ file ∈ [a, inner], file ∈ siblingsIndex.files) ∧
      siblingsIndex.resolve? a.source "w/src/a.ts" = some ⟨a.source, .file, some a.moduleName⟩ ∧
      siblingsIndex.resolve? a.source "w/src/index" = some ⟨inner.source, .file, some inner.moduleName⟩ ∧
      "w/src/a.ts" ∉ siblingsIndex.manifest.modules.keys ∧
      "w/src/index" ∉ siblingsIndex.manifest.modules.keys ∧ "w/src/a.ts" ∉ a.folderSpecifier ∧
      "w/src/index" ∈ inner.folderSpecifier ∧ "w/src/a.ts" ≠ qualified a.moduleName (stem a.entry.path) ∧
      rewritten "w/src/index" = "w/src/index.js" := by
    decide +kernel
  obtain ⟨known, foundA, foundInner, unnamedA, unnamedInner, notFolder, folder, notBare, becomes⟩ := all
  have ofA := same_outputSpecifier_iff siblingsIndex isTaken_siblings (known a (by simp)) rfl
    (by decide) unnamedA a.source foundA
  have ofInner := same_outputSpecifier_iff siblingsIndex isTaken_siblings (known inner (by simp)) rfl
    (by decide) unnamedInner a.source foundInner
  have reads : NamesIndex "w/src/index" := .inl (by decide)
  exact ⟨isTaken_siblings, known,
    ofA.mpr ⟨by decide, fun same => absurd same notBare, fun inside => absurd inside notFolder⟩,
    foundInner, becomes,
    Bool.eq_false_iff.mpr (mt ofInner.mp fun ⟨_, _, unread⟩ => unread folder reads)⟩

end ManifestIndex

end WorkspaceBuild
