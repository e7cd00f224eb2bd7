import WorkspaceBuild.Proofs.Manifests.Ordered
import WorkspaceBuild.Proofs.Specifiers.Bare

/-! # Two spellings of a path

A file can be imported by its path, as a relative specifier, or under the name of its module, as a
bare one. The first looks for sources in a fixed order of extensions, the second takes the first file
by the order of names. Both lead to one file where only one stands for the path.
-/

namespace WorkspaceBuild

namespace Specifier

variable {ending : String}

/-- With the extension of a source, a text has a stem that it starts with itself. -/
theorem exists_extra_of_source (listed : ending ∈ sourceExtensions) (text : String) :
    ∃ more, IsExtra more ∧ text = stem (text ++ ending) ++ more := by
  cases typings : dropEnding? typingsExtensions (text ++ ending) with
  | none =>
      refine ⟨"", .inl rfl, ?_⟩
      have code : stem (text ++ ending) = codeStem (text ++ ending) := by
        rw [stem, typings, Option.getD_none, codeStem]
      rw [code, codeStem_append (mem_codeExtensions listed), String.append_empty]
  | some bare =>
      obtain ⟨other, alsoListed, dropped⟩ := List.exists_of_findSome?_eq_some typings
      rw [stem, typings, Option.getD_some]
      have whole := congrArg String.toList (Text.eq_of_dropEnd? dropped)
      rw [String.toList_append, String.toList_append] at whole
      have shorter : ∀ ending ∈ sourceExtensions, ∀ other ∈ typingsExtensions,
          ending.toList.length < other.toList.length ∧ other.toList.head? = some '.' := by decide
      obtain ⟨less, dotted⟩ := shorter _ listed _ alsoListed
      rcases List.append_eq_append_iff.mp whole with ⟨more, _, rest⟩ | ⟨more, before, rest⟩
      · rw [rest, List.length_append] at less
        omega
      · refine ⟨String.ofList more, ?_, ?_⟩
        · cases more with
          | nil => exact .inl String.ofList_nil
          | cons c later =>
              rw [rest, List.cons_append, List.head?_cons, Option.some_inj] at dotted
              subst dotted
              exact .inr ⟨String.ofList later, String.ofList_cons⟩
        · rw [← String.toList_inj, before, String.toList_append, String.toList_ofList]

end Specifier

/-! ## What a relative specifier reaches -/

/-- Where a path is looked for: as written, with the extension of a source, and as a folder. -/
inductive Specifier.Probed (p : String) : ReferenceKind → String → Prop
  | exact : Probed p .file p
  | extended {ending : String} (listed : ending ∈ sourceExtensions) :
      Probed p .file (stem p ++ ending)
  | index {ending : String} (listed : ending ∈ sourceExtensions) :
      Probed p .directory (p ++ "/index" ++ ending)

namespace Path

variable {cs more : List Component} {last ending : String} {path : Path}

theorem isFolded_of_append (folded : IsFolded (cs ++ more)) : IsFolded cs := by
  obtain ⟨lead, isLead, names, whole, plain⟩ := folded
  rcases List.append_eq_append_iff.mp whole with ⟨rest, split, _⟩ | ⟨rest, split, later⟩
  · -- what a lead starts with is a lead
    have shorter : ∀ lead ∈ leads, lead.length ≤ 2 ∧ ∀ count ≤ 2, lead.take count ∈ leads := by
      decide
    obtain ⟨short, starts⟩ := shorter lead isLead
    rw [split, List.length_append] at short
    have isStart := starts cs.length (by omega)
    rw [split, List.take_left' rfl] at isStart
    exact ⟨cs, isStart, [], (List.append_nil cs).symm, by simp⟩
  · obtain ⟨front, back, rfl, rfl, _⟩ := List.map_eq_append_iff.mp later
    exact ⟨lead, isLead, front, split, fun name listed => plain name (List.mem_append_left _ listed)⟩

/-- With another extension a folded path has the same folder. -/
theorem components_stem_append (leads : path.folded = cs ++ [.name last])
    (plain : IsPlain (Specifier.stem last ++ ending)) :
    (Path.mk (Specifier.stem path.normalize.text ++ ending)).components =
      cs ++ [.name (Specifier.stem last ++ ending)] := by
  have folder : IsFolded cs := isFolded_of_append (leads ▸ path.isFolded_folded)
  have folded : IsFolded (cs ++ [Specifier.stem last ++ ending].map Component.name) :=
    isFolded_append folder (by simpa using plain)
  obtain ⟨front, isFront, exchanged⟩ := exists_front_ofComponents cs
  have same : Specifier.stem path.normalize.text ++ ending =
      (ofComponents (cs ++ [.name (Specifier.stem last ++ ending)])).text := by
    rw [normalize_eq, leads, exchanged, exchanged, Specifier.stem_of_front isFront,
      String.append_assoc]
  rw [same]
  exact components_ofComponents folded

end Path

namespace ManifestIndex

open Specifier

variable {index : ManifestIndex} {m : Module} {path : Path} {kind : ReferenceKind}
variable {file : IndexedFile} {dirs : List String} {last : String}

/-- A folded path below the folder of a module reaches files of plain names. -/
theorem exists_probed (plain : ∀ part ∈ dirs ++ [last], Path.IsPlain part)
    (leads : path.folded = m.source.components ++ (dirs ++ [last]).map Path.Component.name)
    (found : index.resolvePath? path.normalize = some (kind, file)) :
    ∃ above name, Probed (Path.spell (dirs ++ [last])) kind (Path.spell (above ++ [name])) ∧
      (∀ part ∈ above ++ [name], Path.IsPlain part) ∧
      file.source.components = m.source.components ++ (above ++ [name]).map Path.Component.name := by
  obtain ⟨plainDirs, plainLast⟩ := List.forall_mem_append.mp plain
  have split (name : String) : m.source.components ++ (dirs ++ [name]).map Path.Component.name =
      (m.source.components ++ dirs.map Path.Component.name) ++ [.name name] := by
    simp
  rcases resolvePath?_cases found with
    ⟨rfl, exact | ⟨ending, listed, other⟩⟩ | ⟨rfl, ending, listed, inside⟩
  · exact ⟨_, _, .exact, plain, by rw [exact, Path.components_normalize, leads]⟩
  · have plainOther := Path.isPlain_stem_append (plainLast last (by simp)).noSlash listed
    refine ⟨dirs, stem last ++ ending, ?_, ?_, ?_⟩
    · have extended : Probed (Path.spell (dirs ++ [last])) .file _ := .extended listed
      obtain ⟨front, _, exchanged⟩ := Path.exists_front_spell dirs
      have same : stem (Path.spell (dirs ++ [last])) ++ ending =
          Path.spell (dirs ++ [stem last ++ ending]) := by
        rw [stem_spell, exchanged, exchanged, String.append_assoc]
      exact same ▸ extended
    · exact List.forall_mem_append.mpr ⟨plainDirs, by simpa using plainOther⟩
    · rw [split] at leads ⊢
      rw [other, Path.components_stem_append leads plainOther]
  · have plainIndex := isPlain_index (mem_codeExtensions listed)
    refine ⟨dirs ++ [last], "index" ++ ending, ?_, ?_, ?_⟩
    · have folder : Probed (Path.spell (dirs ++ [last])) .directory _ := .index listed
      have same : Path.spell (dirs ++ [last]) ++ "/index" ++ ending =
          Path.spell (dirs ++ [last] ++ ["index" ++ ending]) := by
        have some : dirs ++ [last] ≠ [] := by simp
        rw [append_index, Path.spell, Path.spell, Text.joined_append_singleton some]
      exact same ▸ folder
    · exact List.forall_mem_append.mpr ⟨plain, by simpa using plainIndex⟩
    · rw [inside, Path.components_join_plain _ plainIndex,
        Path.components_normalize, leads]
      simp

end ManifestIndex

namespace Specifier

variable {p path name : String}

/-- An index file that is reached as a file is named. -/
theorem Probed.namesIndex {front : String} (probed : Probed p .file path)
    (index : qualified name (stem path) = front ++ "/index") : NamesIndex (qualified name p) := by
  have named {more : String} (extra : IsExtra more) (whole : p = stem path ++ more) :
      NamesIndex (qualified name p) := by
    have split : qualified name p = front ++ "/index" ++ more := by
      rw [← index, whole, qualified, qualified]
      simp only [String.append_assoc]
    exact split ▸ extra.names_index front
  cases probed with
  | exact =>
      obtain ⟨more, extra, _, whole⟩ := exists_extra p
      exact named extra whole
  | extended listed =>
      obtain ⟨more, extra, _, whole⟩ := exists_extra p
      obtain ⟨between, alsoExtra, short⟩ := exists_extra_of_source listed (stem p)
      exact named (alsoExtra.append extra) (by rw [← String.append_assoc, ← short, ← whole])

/-- A file that is reached as a folder is an index file. -/
theorem Probed.eq_index {above : List String} {last : String}
    (probed : Probed p .directory (Path.spell (above ++ [last])))
    (plain : ∀ part ∈ above ++ [last], Path.IsPlain part) :
    ∃ ending ∈ sourceExtensions, last = "index" ++ ending := by
  generalize path : Path.spell (above ++ [last]) = text at probed
  cases probed with
  | index listed =>
      have pieces := Path.pieces_spell (by simp) plain
      have single := Text.pieces_eq_singleton (isPlain_index (mem_codeExtensions listed)).noSlash
      rw [path, append_index, Text.pieces_append_slash, single] at pieces
      exact ⟨_, listed, (List.append_singleton_inj.mp pieces).2.symm⟩

theorem stem_index {ending : String} (listed : ending ∈ sourceExtensions) :
    stem ("index" ++ ending) = "index" := by
  have bare : ∀ ending ∈ sourceExtensions, stem ("index" ++ ending) = "index" := by decide
  exact bare ending listed

/-- Below a module, what is called `index` stands behind a slash. -/
theorem exists_front_index (name : String) (above : List String) :
    ∃ front, qualified name (Path.spell (above ++ ["index"])) = front ++ "/index" := by
  obtain ⟨front, isFront, exchanged⟩ := Path.exists_front_spell above
  rw [exchanged, qualified]
  rcases isFront with rfl | ⟨folder, rfl⟩
  · exact ⟨name, by rw [String.empty_append, String.append_assoc]; rfl⟩
  · exact ⟨name ++ "/" ++ folder, by simp only [String.append_assoc]; rfl⟩

theorem namesIndex_of_index {more : String} (extra : IsExtra more) (name : String) :
    NamesIndex (qualified name ("index" ++ more)) := by
  rw [qualified, ← append_index]
  exact extra.names_index name

/-- An index file in the folder of its module is named by all that it goes by but the module's name. -/
theorem namesIndex_of_goes {file : IndexedFile} {ending specifier : String}
    (listed : ending ∈ sourceExtensions) (path : file.entry.path = "index" ++ ending)
    (goes : specifier ∈ file.specifiers) (other : specifier ≠ file.moduleName) :
    NamesIndex specifier := by
  have dotted : ∀ ending ∈ codeExtensions, ending.toList.head? = some '.' := by decide
  have code {more : String} (listed : more ∈ codeExtensions) :
      NamesIndex (qualified file.moduleName ("index" ++ more)) :=
    namesIndex_of_index (isExtra_of_head? (dotted more listed)) _
  have outputs : ∀ kind, ∀ ending ∈ sourceExtensions, ∃ more ∈ codeExtensions,
      compiledPath ("index" ++ ending) kind = "index" ++ more := by
    intro kind
    cases kind <;> decide
  rcases IndexedFile.mem_specifiers_iff.mp goes with rfl | ⟨_, rfl | rfl | folder⟩
  · rw [path]
    exact code (mem_codeExtensions listed)
  · rw [path, stem_index listed, ← @String.append_empty "index"]
    exact namesIndex_of_index (.inl rfl) _
  · obtain ⟨more, code', compiled⟩ := outputs file.entry.kind ending listed
    rw [FileEntry.outputPath, path, compiled]
    exact code code'
  · obtain ⟨front, index, _⟩ := IndexedFile.exists_of_mem_folderSpecifier folder other
    have shorter := congrArg String.length index
    rw [path, stem_index listed, String.length_append, show "/index".length = 6 by decide,
      show "index".length = 5 by decide] at shorter
    omega

end Specifier

/-! ## What a bare specifier reaches -/

namespace IndexedFile

/-- Whether a path below a module can mean a file: the file goes by its specifier, or lies where the
path is looked for. -/
def StandsFor (file : IndexedFile) (m : Module) (p : String) : Prop :=
  Specifier.qualified m.name p ∈ file.specifiers ∨
    ∃ kind path, Specifier.Probed p kind path ∧ file.source.same (m.source.join path) = true

end IndexedFile

namespace IndexedFile

variable {m : Module} {category : Category} {entry : FileEntry} {name p : String}

/-- A module that is a file itself has no name for it that goes on below the module's. -/
theorem not_goes_of_alone (kind : entry.kind = fileKind entry.path category) (path : entry.path = "")
    (plain : ∀ part ∈ Text.pieces '/' p, Path.IsPlain part) :
    Specifier.qualified name p ∉ (ofEntry m category entry).specifiers := by
  have other : isCode (fileKind "" category) = false := by
    cases category <;> decide
  intro goes
  rcases mem_specifiers_iff.mp goes with same | ⟨code, _⟩
  · have pieces := congrArg (Text.pieces '/') same
    rw [show (ofEntry m category entry).entry.path = entry.path from rfl, path,
      Specifier.qualified, Specifier.qualified, Text.pieces_append_slash, Text.pieces_append_slash]
      at pieces
    obtain ⟨before, last, whole⟩ :=
      (List.eq_nil_or_concat (Text.pieces '/' p)).resolve_left (Text.pieces_ne_nil '/' p)
    rw [List.concat_eq_append] at whole
    rw [whole, ← List.append_assoc, Text.pieces_eq_singleton (show '/' ∉ "".toList by decide)] at pieces
    have empty : last = "" := (List.append_singleton_inj.mp pieces).2
    exact absurd (plain last (by simp [whole])).notVoid (by simp [empty, Path.isVoid])
  · rw [show (ofEntry m category entry).entry.kind = entry.kind from rfl, kind, path, other] at code
    cases code

end IndexedFile

/-- A file comes before another: its module does by its name, or its category, or the names that lead
to it. -/
def IndexedFile.Precedes (file other : IndexedFile) : Prop :=
  file.moduleName < other.moduleName ∨ file.moduleName = other.moduleName ∧
    (compare file.category other.category = .lt ∨ file.category = other.category ∧
      Text.pieces '/' file.entry.path < Text.pieces '/' other.entry.path)

theorem IndexedFile.Precedes.asymm {file other : IndexedFile} (first : file.Precedes other)
    (last : other.Precedes file) : False := by
  rcases first with less | ⟨modules, first⟩ <;> rcases last with more | ⟨modules', last⟩
  · exact String.lt_asymm less more
  · exact String.lt_irrefl _ (modules' ▸ less)
  · exact String.lt_irrefl _ (modules ▸ more)
  · rcases first with less | ⟨category, first⟩ <;> rcases last with more | ⟨category', last⟩
    · rw [Std.OrientedCmp.gt_of_lt less] at more
      cases more
    · simp [category', Std.ReflCmp.compare_self] at less
    · simp [category, Std.ReflCmp.compare_self] at more
    · exact lt_asymm first last

namespace ManifestIndex

open Specifier

variable {index : ManifestIndex} {m : Module} {name p specifier : String} {source : Path}
  {near far : ResolvedReference} {file : IndexedFile}

/-- A source is that of a file that goes by a specifier, and comes before all others that do. -/
def IsForemost (index : ManifestIndex) (specifier : String) (source : Path) : Prop :=
  ∃ file ∈ index.files, source.same file.source = true ∧ specifier ∈ file.specifiers ∧
    ∀ other ∈ index.files, specifier ∈ other.specifiers → other = file ∨ file.Precedes other

/-- The files of an index come in order. -/
theorem pairwise_precedes (taken : index.manifest.IsTaken) :
    index.files.Pairwise IndexedFile.Precedes := by
  obtain ⟨ascending, modules⟩ := taken.modules
  have named {pair : String × Module} (listed : pair ∈ index.manifest.modules) :
      index.manifest.module? pair.1 = some pair.2 := Assoc.get?_of_mem ascending.nodup listed
  rw [index.files_eq, Manifest.indexedFiles, List.pairwise_flatMap, Assoc.values, List.pairwise_map]
  constructor
  · intro m member
    obtain ⟨pair, listed, rfl⟩ := List.mem_map.mp member
    rw [List.pairwise_map]
    exact (taken.isInOrder (named listed)).imp fun precedes => .inr ⟨rfl, precedes.order⟩
  · refine (List.pairwise_map.mp ascending).imp_of_mem
      fun {first second} listed also less file here other there => .inl ?_
    obtain ⟨_, _, rfl⟩ := List.mem_map.mp here
    obtain ⟨_, _, rfl⟩ := List.mem_map.mp there
    change first.2.name < second.2.name
    rw [(modules _ _ (named listed)).1, (modules _ _ (named also)).1]
    exact compareOfLessAndEq_eq_lt.mp less

theorem isForemost_iff (taken : index.manifest.IsTaken)
    (found : index.bySpecifier? specifier = some file) (source : Path) :
    index.IsForemost specifier source ↔ source.same file.source = true := by
  obtain ⟨goes, before, after, split, first⟩ := bySpecifier?_eq_some_iff.mp found
  have listed : file ∈ index.files := by simp [split]
  have ordered := pairwise_precedes taken
  have foremost (other : IndexedFile) (member : other ∈ index.files)
      (also : specifier ∈ other.specifiers) : other = file ∨ file.Precedes other := by
    rw [split] at member ordered
    rcases List.mem_append.mp member with early | late
    · exact absurd also (first other early)
    · exact (List.mem_cons.mp late).imp id
        ((List.pairwise_cons.mp (List.pairwise_append.mp ordered).2.1).1 other)
  constructor
  · rintro ⟨other, member, same, also, least⟩
    rcases foremost other member also with rfl | here
    · exact same
    · rcases least file listed goes with rfl | there
      · exact same
      · exact (here.asymm there).elim
  · exact fun same => ⟨file, listed, same, goes, foremost⟩

theorem bySpecifier?_of_resolve? (bare : isRelative specifier = false)
    (resolved : index.resolve? source specifier = some far) :
    ∃ file, index.bySpecifier? specifier = some file ∧ file.source = far.path ∧
      far.kind = if index.reachesFolder specifier file then .directory else .file := by
  obtain ⟨file, first, rfl⟩ := (resolve?_bare_iff bare).mp resolved
  exact ⟨file, first, rfl, rfl⟩

theorem mem_of_resolvePath? {path : Path} {kind : ReferenceKind} {file : IndexedFile}
    (found : index.resolvePath? path = some (kind, file)) : file ∈ index.files := by
  simp only [resolvePath?] at found
  split at found
  · rename_i reached
    cases found
    rcases Option.or_eq_some_iff.mp reached with exact | ⟨_, other⟩
    · exact (same_of_bySource? exact).1
    · obtain ⟨_, _, found⟩ := List.exists_of_findSome?_eq_some other
      exact (same_of_bySource? found).1
  · obtain ⟨_, other, same⟩ := Option.map_eq_some_iff.mp found
    cases same
    obtain ⟨_, _, found⟩ := List.exists_of_findSome?_eq_some other
    exact (same_of_bySource? found).1

/-- What a bare specifier for plain names means is a folder if it is the name of a module, or if it is
the folder of an index file that it does not read as naming. -/
theorem reachesFolder_qualified_iff (taken : index.manifest.IsTaken) (listed : file ∈ index.files)
    (plain : ∀ part ∈ Text.pieces '/' p, Path.IsPlain part)
    (goes : qualified name p ∈ file.specifiers) {kind : ReferenceKind} {above : List String}
    {last : String} (probed : Probed p kind (Path.spell (above ++ [last])))
    (plainNames : ∀ part ∈ above ++ [last], Path.IsPlain part)
    (lies : file.source.components =
      m.source.components ++ (above ++ [last]).map Path.Component.name) :
    index.reachesFolder (qualified name p) file = true ↔
      qualified name p ∈ index.manifest.modules.keys ∨
        kind = .directory ∧ ¬ NamesIndex (qualified name p) := by
  by_cases key : qualified name p ∈ index.manifest.modules.keys
  · simp [reachesFolder, Assoc.has_iff.mpr key, key]
  rw [reachesFolder_iff key, or_iff_right key]
  refine and_congr_left fun unread => ?_
  obtain ⟨ascending, modules⟩ := taken.modules
  rw [index.files_eq, Manifest.mem_indexedFiles ascending] at listed
  obtain ⟨_, m', category, entry, named, member, rfl⟩ := listed
  obtain ⟨rfl, scanned⟩ := modules _ _ named
  have other : qualified name p ≠ m'.name := fun same => key (same ▸ Assoc.mem_keys_of_get? named)
  obtain ⟨dirs, path, seen⟩ : ∃ dirs, entry.path = Path.spell (dirs ++ [last]) ∧
      ∀ part ∈ dirs ++ [last], Scan.IsSeen part := by
    rcases scanned.below with below | alone
    · obtain ⟨names, some, path, seen⟩ := below category entry member
      obtain ⟨dirs, own, rfl⟩ := (List.eq_nil_or_concat names).resolve_left some
      rw [List.concat_eq_append] at path seen
      have place : m'.source.components ++ (dirs ++ [own]).map Path.Component.name =
          m.source.components ++ (above ++ [last]).map Path.Component.name := by
        rw [← lies, ← Path.components_join_spell m'.source fun part listed =>
          (seen part listed).toIsPlain, ← path]
        rfl
      rw [List.map_append, List.map_append, ← List.append_assoc, ← List.append_assoc] at place
      cases (List.append_singleton_inj.mp place).2
      exact ⟨dirs, path, seen⟩
    · exact absurd goes (IndexedFile.not_goes_of_alone (scanned.filed category entry member).2
        (alone category entry member) plain)
  have stems : stem entry.path = Path.spell (dirs ++ [stem last]) := path ▸ stem_spell dirs last
  have plainStem : ∀ part ∈ dirs ++ [stem last], Path.IsPlain part := by
    refine List.forall_mem_append.mpr ⟨fun part listed => ?_, ?_⟩
    · exact (seen part (List.mem_append_left _ listed)).toIsPlain
    · exact List.forall_mem_singleton.mpr (isPlain_stem (seen last (by simp)))
  change (∃ front, stem entry.path = front ++ "/index") ↔ _
  constructor
  · rintro ⟨front, isIndex⟩
    cases kind with
    | directory => rfl
    | file =>
        -- the name of the file is that of an index file, wherever its module is
        have pieces := Path.pieces_spell (by simp) plainStem
        rw [← stems, isIndex, Text.pieces_append_index] at pieces
        have bare : stem last = "index" := (List.append_singleton_inj.mp pieces).2.symm
        obtain ⟨front', named⟩ := exists_front_index name above
        exact absurd (probed.namesIndex (by rw [stem_spell, bare, named])) unread
  · rintro rfl
    obtain ⟨ending, isSource, rfl⟩ := probed.eq_index plainNames
    rw [stems, stem_index isSource]
    by_cases alone : dirs = []
    · refine absurd (namesIndex_of_goes isSource ?_ goes other) unread
      rw [show (IndexedFile.ofEntry m' category entry).entry.path = entry.path from rfl, path, alone]
      exact Path.spell_singleton _
    · refine ⟨Path.spell dirs, ?_⟩
      rw [Path.spell, Text.joined_append_singleton alone, String.append_assoc]
      rfl

/-- A relative and a bare specifier for the same path below a module reach the same file exactly
when the one that is found at the path comes before all others that go by the bare specifier, and so
where only one file stands for the path. Both then tell files from folders alike, unless the bare
specifier is the name of a module where the relative one reaches a file, or is no such name and reads
as naming an index file where the relative one reaches a folder. -/
theorem resolve_qualified (index : ManifestIndex) (taken : index.manifest.IsTaken)
    (named : index.manifest.module? name = some m)
    (plain : ∀ part ∈ Text.pieces '/' p, Path.IsPlain part) (relative : isRelative specifier = true)
    (leads : ((source.parent?.getD ⟨""⟩).join specifier).normalize.same (m.source.join p) = true)
    (bare : isRelative (qualified name p) = false)
    (reached : index.resolve? source specifier = some near)
    (found : index.resolve? source (qualified name p) = some far) :
    (near.path.same far.path = true ↔ index.IsForemost (qualified name p) near.path) ∧
    ((∀ file ∈ index.files, ∀ other ∈ index.files, file.StandsFor m p → other.StandsFor m p →
      file.source.same other.source = true) → near.path.same far.path = true) ∧
    (near.path.same far.path = true → (near.kind = far.kind ↔
      if near.kind = .directory then
        qualified name p ∈ index.manifest.modules.keys ∨ ¬ NamesIndex (qualified name p)
      else qualified name p ∉ index.manifest.modules.keys)) := by
  obtain ⟨_, modules⟩ := taken.modules
  obtain ⟨rfl, _⟩ := modules _ _ named
  obtain ⟨file, first, isFar, farKind⟩ := bySpecifier?_of_resolve? bare found
  obtain ⟨goes, _, _, split, _⟩ := bySpecifier?_eq_some_iff.mp first
  have listed : file ∈ index.files := by simp [split]
  obtain ⟨other, hit, isNear⟩ := resolvePath?_of_resolve? relative reached
  obtain ⟨dirs, last, pieces⟩ :=
    (List.eq_nil_or_concat (Text.pieces '/' p)).resolve_left (Text.pieces_ne_nil '/' p)
  rw [List.concat_eq_append] at pieces
  have path : p = Path.spell (dirs ++ [last]) := pieces ▸ (Text.joined_pieces '/' p).symm
  have folded := of_decide_eq_true leads
  rw [Path.components_normalize, path, Path.components_join_spell _ (pieces ▸ plain)] at folded
  obtain ⟨above, name, probed, plainNames, place⟩ := exists_probed (pieces ▸ plain) folded hit
  rw [← path] at probed
  refine ⟨?_, ?_, ?_⟩
  · rw [isForemost_iff taken first, isFar]
  · intro alone
    rw [← isNear, ← isFar]
    refine alone other (mem_of_resolvePath? hit) _ listed (.inr ⟨_, _, probed, ?_⟩) (.inl goes)
    exact decide_eq_true (by rw [place, Path.components_join_spell _ plainNames])
  · intro same
    have lies := (of_decide_eq_true (isNear ▸ isFar ▸ same) :
      other.source.components = file.source.components).symm.trans place
    have folder := reachesFolder_qualified_iff taken listed plain goes probed plainNames lies
    rw [farKind]
    by_cases key : qualified m.name p ∈ index.manifest.modules.keys
    · simp [folder.mpr (.inl key), key]
    · rw [or_iff_right key] at folder
      cases kind : near.kind with
      | file =>
          have isFile : ¬ index.reachesFolder (qualified m.name p) file = true := fun holds => by
            have there := (folder.mp holds).1
            rw [kind] at there
            cases there
          simp [isFile, key]
      | directory =>
          rw [kind, and_iff_right rfl] at folder
          simp [folder, key]

theorem resolve_qualified_linked :
    let u := linkedFile "src/app/a.ts"
    let core : ResolvedReference := ⟨(linkedFile "src/lib/core.mts").source, .file, some "w"⟩
    linkedIndex.manifest.IsTaken ∧ u ∈ linkedIndex.files ∧
      linkedIndex.resolve? u.source "../lib/core" = some core ∧
      linkedIndex.resolve? u.source (qualified "w" "src/lib/core") = some core ∧
      linkedIndex.IsForemost (qualified "w" "src/lib/core") core.path ∧
      qualified "w" "src/lib/core" ∉ linkedIndex.manifest.modules.keys := by
  intro u core
  have all : u ∈ linkedIndex.files ∧ linkedIndex.resolve? u.source "../lib/core" = some core ∧
      linkedIndex.resolve? u.source (qualified "w" "src/lib/core") = some core ∧
      (((u.source.parent?.getD ⟨""⟩).join "../lib/core").normalize.same
        (linkedModule.source.join "src/lib/core") = true ∧
      isRelative "../lib/core" = true ∧ isRelative (qualified "w" "src/lib/core") = false) := by
    decide +kernel
  obtain ⟨known, reached, found, leads, relative, bare⟩ := all
  have both := resolve_qualified linkedIndex isTaken_linked rfl (by decide) relative leads bare
    reached found
  have same : core.path.same core.path = true := decide_eq_true rfl
  exact ⟨isTaken_linked, known, reached, found, both.1.mp same, (both.2.2 same).mp rfl⟩

/-- Both spellings of a path can lead to siblings, or tell a folder from a file otherwise. -/
theorem not_resolve_qualified_siblings :
    let u := siblingsModule.source.join "src/a.ts"
    siblingsIndex.manifest.IsTaken ∧ siblingsIndex.manifest.module? "w" = some siblingsModule ∧
    (siblingsIndex.bySource? u).map IndexedFile.moduleName = some "w" ∧
    ((u.parent?.getD ⟨""⟩).join "./a").normalize.same (siblingsModule.source.join "src/a") = true ∧
    siblingsIndex.resolve? u "./a" = some ⟨⟨"/w/src/a.ts"⟩, .file, some "w"⟩ ∧
    siblingsIndex.resolve? u (qualified "w" "src/a") = some ⟨⟨"/w/src/a.js"⟩, .file, some "w"⟩ ∧
    ((u.parent?.getD ⟨""⟩).join "./index").normalize.same
      (siblingsModule.source.join "src/index") = true ∧
    siblingsIndex.resolve? u "./index" =
      some ⟨⟨"/w/src/index/index.ts"⟩, .directory, some "w"⟩ ∧
    siblingsIndex.resolve? u (qualified "w" "src/index") =
      some ⟨⟨"/w/src/index/index.ts"⟩, .file, some "w"⟩ :=
  ⟨isTaken_siblings, by decide +kernel⟩

end ManifestIndex

end WorkspaceBuild
