import WorkspaceBuild.Proofs.Disk.Trails
import WorkspaceBuild.Proofs.Extensions
import WorkspaceBuild.Proofs.Manifests

/-! # Rewritten specifiers

A relative specifier that resolves to a source of its own module is rewritten for the outputs. Taken
from the folder of the importing output, what it is rewritten to means the output of the source.
-/

namespace WorkspaceBuild

namespace Text

theorem trimEnd_eq (text : String) (last : Char) :
    ∃ count, text = trimEnd text last ++ String.ofList (List.replicate count last) := by
  have cut := List.takeWhile_append_dropWhile (p := (· = last)) (l := text.toList.reverse)
  have same : text.toList.reverse.takeWhile (· = last) =
      List.replicate (text.toList.reverse.takeWhile (· = last)).length last :=
    List.eq_replicate_of_mem fun c listed => by simpa using List.mem_takeWhile_imp listed
  refine ⟨(text.toList.reverse.takeWhile (· = last)).length, ?_⟩
  rw [← String.toList_inj, trimEnd, String.toList_append, String.toList_ofList,
    String.toList_ofList, ← List.reverse_inj]
  rw [List.reverse_append, List.reverse_reverse, List.reverse_replicate, ← same, cut]

theorem pieces_append_slashes (text : String) (count : Nat) :
    pieces '/' (text ++ String.ofList (List.replicate count '/')) =
      pieces '/' text ++ List.replicate count "" := by
  induction count with
  | zero => simp
  | succ count ih =>
      have longer : text ++ String.ofList (List.replicate (count + 1) '/') =
          text ++ String.ofList (List.replicate count '/') ++ "/" ++ "" := by
        rw [List.replicate_succ', String.ofList_append, String.append_empty, String.append_assoc]
      have nothing : pieces '/' "" = [""] := rfl
      rw [longer, pieces_append_slash, ih, nothing, List.append_assoc, ← List.replicate_succ']

end Text

namespace Path

variable {p : Path} {last further : String} {names parts before : List String}
variable {cs : List Component}

/-- A text is what its segments spell. -/
theorem exists_segments (text : String) : ∃ before last, text = spell (before ++ [last]) ∧
    ∀ part ∈ before ++ [last], '/' ∉ part.toList := by
  have whole : text = spell (Text.pieces '/' text) := (Text.joined_pieces '/' text).symm
  rcases List.eq_nil_or_concat (Text.pieces '/' text) with none | ⟨before, last, split⟩
  · exact absurd none (Text.pieces_ne_nil _ _)
  · rw [List.concat_eq_append] at split
    exact ⟨before, last, split ▸ whole, fun part listed =>
      Text.not_mem_of_mem_pieces (split ▸ listed)⟩

/-- A text that ends in a name is spelled by segments and the name. -/
theorem EndsInName.exists_segments {text : String} (named : EndsInName ⟨text⟩) :
    ∃ before last, text = spell (before ++ [last]) ∧ IsPlain last ∧
      ∀ part ∈ before ++ [last], '/' ∉ part.toList := by
  obtain ⟨before, last, rfl, noSlash⟩ := Path.exists_segments text
  obtain ⟨piece, isLast, notVoid, notParent⟩ := named
  have split : Text.pieces '/' (spell (before ++ [last])) = before ++ [last] :=
    Text.pieces_joined (by simp) noSlash
  rw [pieces, split, List.getLast?_concat] at isLast
  cases isLast
  exact ⟨before, last, rfl, ⟨notVoid, notParent, noSlash last (by simp)⟩, noSlash⟩

theorem steps_spell_append (noSlash : ∀ part ∈ before ++ [last], '/' ∉ part.toList) :
    steps (spell (before ++ [last])) =
      before.filterMap componentOf ++ (componentOf last).toList := by
  have split : Text.pieces '/' (spell (before ++ [last])) = before ++ [last] :=
    Text.pieces_joined (by simp) noSlash
  rw [steps, split, List.filterMap_append]
  cases component : componentOf last <;> simp [component]

theorem isAbsolute_spell_append (noSlash : '/' ∉ last.toList) {name : String}
    (alsoNoSlash : '/' ∉ name.toList) :
    isAbsolute ⟨spell (before ++ [last])⟩ = isAbsolute ⟨spell (before ++ [name])⟩ := by
  obtain ⟨front, _, exchanged⟩ := exists_front_spell before
  rw [exchanged, exchanged, isAbsolute_append front noSlash, isAbsolute_append front alsoNoSlash]

theorem steps_append_slashes (text : String) (count : Nat) :
    steps (text ++ String.ofList (List.replicate count '/')) = steps text := by
  have void : ∀ piece ∈ List.replicate count "", isVoid piece = true := fun piece listed =>
    (List.eq_of_mem_replicate listed) ▸ rfl
  rw [steps, Text.pieces_append_slashes, List.filterMap_append, filterMap_void void, List.append_nil, steps]

theorem steps_trimEnd (text : String) : steps (Text.trimEnd text '/') = steps text := by
  obtain ⟨count, whole⟩ := Text.trimEnd_eq text '/'
  have longer := steps_append_slashes (Text.trimEnd text '/') count
  rw [← whole] at longer
  exact longer.symm

theorem steps_append_slash (text : String) (plain : IsPlain last) :
    steps (text ++ "/" ++ last) = steps text ++ [.name last] := by
  rw [steps, Text.pieces_append_slash, List.filterMap_append,
    Text.pieces_eq_singleton plain.noSlash, List.filterMap_cons_some plain.componentOf]
  rfl

theorem components_join_plain (p : Path) (plain : IsPlain last) :
    (p.join last).components = p.components ++ [.name last] := by
  have joined : (p.join (spell [last])).components = _ :=
    components_join_spell p (by simpa using plain)
  rwa [spell_singleton] at joined

theorem compiledPath_spell (before : List String) (last : String) (kind : FileKind) :
    compiledPath (spell (before ++ [last])) kind = spell (before ++ [compiledPath last kind]) := by
  obtain ⟨front, isFront, exchanged⟩ := exists_front_spell before
  rw [exchanged, exchanged, compiledPath_front isFront]

theorem withExtension_spell (before : List String) (last extension : String) :
    withExtension (spell (before ++ [last])) extension =
      spell (before ++ [withExtension last extension]) := by
  obtain ⟨front, isFront, exchanged⟩ := exists_front_spell before
  rw [exchanged, exchanged, withExtension_front isFront]

/-- Resolution looks for another extension of the last name that a specifier leads to. -/
theorem ofComponents_withExtension {text : String} (alsoFront : IsFront text)
    (notTypings : isTypings (text ++ last) = false) (cs : List Component) (extension : String) :
    Path.mk (Specifier.stem (ofComponents (cs ++ [.name last])).text ++ extension) =
      ofComponents (cs ++ [.name (withExtension last extension)]) := by
  obtain ⟨front, isFront, exchanged⟩ := exists_front_ofComponents cs
  have stem := Specifier.stem_front isFront notTypings alsoFront
  have same : (ofComponents (cs ++ [.name (withExtension last extension)])).text =
      Specifier.stem (ofComponents (cs ++ [.name last])).text ++ extension := by
    rw [exchanged, exchanged, stem, String.append_assoc]
    rfl
  rw [← same]

/-- Segments below a folder of a path end at the same place as names below the path. -/
theorem folded_join_segments {folder : Path} {mid : List String} {name : String}
    (below : folder.components = p.components ++ names.map Component.name)
    (noSlash : ∀ part ∈ before, '/' ∉ part.toList)
    (relative : isAbsolute ⟨spell (before ++ [name])⟩ = false)
    (found : descend? names.reverse (before.filterMap componentOf) = some mid)
    (plain : IsPlain name) :
    (folder.join (spell (before ++ [name]))).folded =
      p.folded ++ (mid.reverse ++ [name]).map Component.name := by
  have all : ∀ part ∈ before ++ [name], '/' ∉ part.toList := by
    simpa [or_imp, forall_and] using ⟨noSlash, plain.noSlash⟩
  have further : descend? names.reverse (steps (spell (before ++ [name]))) = some (name :: mid) := by
    rw [steps_spell_append all, plain.componentOf, descend?_append, found, Option.bind_some,
      Option.toList_some, descend?_name]
    cases mid <;> rfl
  rw [folded_join_of_descend? below relative further, List.reverse_cons]

end Path

/-- A relative specifier starts with a dot. -/
theorem exists_of_isRelative {specifier : String} (relative : isRelative specifier = true) :
    ∃ rest, specifier.toList = '.' :: rest := by
  have starts {start : String} (begins : Text.beginsWith specifier start = true) :
      ∃ rest, specifier.toList = start.toList ++ rest := by
    obtain ⟨_, dropped⟩ := Option.isSome_iff_exists.mp begins
    obtain ⟨rest, found, _⟩ := Option.map_eq_some_iff.mp dropped
    exact ⟨rest, Text.eq_of_dropStartChars? found⟩
  simp only [isRelative, Bool.or_eq_true, decide_eq_true_eq] at relative
  obtain ((rfl | rfl) | begins) | begins := relative
  · exact ⟨[], rfl⟩
  · exact ⟨['.'], rfl⟩
  · obtain ⟨rest, same⟩ := starts begins
    exact ⟨_, same⟩
  · obtain ⟨rest, same⟩ := starts begins
    exact ⟨_, same⟩

theorem not_isAbsolute_of_isRelative {specifier : String} (relative : isRelative specifier = true) :
    Path.isAbsolute ⟨specifier⟩ = false := by
  obtain ⟨rest, same⟩ := exists_of_isRelative relative
  simp [Path.isAbsolute, same]

theorem not_isAbsolute_trimEnd {specifier : String} (relative : isRelative specifier = true)
    (more : String) : Path.isAbsolute ⟨Text.trimEnd specifier '/' ++ more⟩ = false := by
  obtain ⟨count, whole⟩ := Text.trimEnd_eq specifier '/'
  have some : Text.trimEnd specifier '/' ≠ "" := by
    intro empty
    obtain ⟨rest, same⟩ := exists_of_isRelative relative
    have slashes : '.' ∈ List.replicate count '/' := by
      rw [empty, String.empty_append] at whole
      rw [whole, String.toList_ofList] at same
      simp [same]
    exact absurd (List.eq_of_mem_replicate slashes) (by decide)
  have kept (more : String) : Path.isAbsolute ⟨Text.trimEnd specifier '/' ++ more⟩ =
      Path.isAbsolute ⟨Text.trimEnd specifier '/'⟩ :=
    Path.isAbsolute_append_of_ne (p := ⟨Text.trimEnd specifier '/'⟩) some more
  have absolute := not_isAbsolute_of_isRelative relative
  rw [whole, kept] at absolute
  rw [kept, absolute]

/-! ## Files of one module -/

namespace IndexedFile

/-- A path reaches a file under its name, or under its name with another extension. -/
def IsReached (file : IndexedFile) (path : Path) : Prop :=
  file.source.components = path.components ∨
    ∃ ending ∈ Specifier.sourceExtensions, file.source.components =
      (Path.mk (Specifier.stem path.text ++ ending)).components

/-- A source by its names below the folders of its module. -/
structure IsSourceAt (file : IndexedFile) (m : Module) (folders : List String)
    (stem ending : String) : Prop where
  isSource : ending ∈ Specifier.sourceExtensions
  plain : ∀ part ∈ folders ++ [stem ++ ending], Path.IsPlain part
  place : file.source.components =
    m.source.components ++ (folders ++ [stem ++ ending]).map Path.Component.name
  output : file.output = m.output.join (Path.spell (folders ++ [stem ++ outputEnding ending]))
  extension : outputExtension file.source = outputEnding ending

/-- The folders of a file and of its output, by their names below those of its module. -/
structure StandsIn (file : IndexedFile) (m : Module) (dirs : List String)
    (folder out : Path) : Prop where
  above : (Text.pieces '/' file.entry.path).dropLast = dirs
  plain : ∀ part ∈ dirs, Path.IsPlain part
  parent : file.source.parent? = some folder
  below : folder.components = m.source.components ++ dirs.map Path.Component.name
  outParent : file.output.parent? = some out
  beside : out.components = m.output.components ++ dirs.map Path.Component.name

end IndexedFile

theorem Scan.IsSeenPath.exists_names {path : String} (seen : IsSeenPath path) :
    ∃ folders name, path = Path.spell (folders ++ [name]) ∧
      ∀ part ∈ folders ++ [name], Path.IsPlain part := by
  obtain ⟨names, some, rfl, seen⟩ := seen
  rcases List.eq_nil_or_concat names with rfl | ⟨folders, name, rfl⟩
  · exact absurd rfl some
  · rw [List.concat_eq_append] at seen ⊢
    exact ⟨folders, name, rfl, fun part listed => (seen part listed).toIsPlain⟩

namespace Module

variable {m : Module} {category : Category} {entry : FileEntry}

/-- A module with a source is a folder, so that all its files lie below it. -/
theorem IsScanned.below_of_source (scanned : m.IsScanned) (listed : (category, entry) ∈ m.entries)
    (source : entry.kind = .source) {other : Category × FileEntry} (member : other ∈ m.entries) :
    Scan.IsSeenPath other.2.path := by
  rcases scanned.below with below | alone
  · exact below other.1 other.2 member
  · have kind := (scanned.filed category entry listed).2
    rw [alone category entry listed, source] at kind
    obtain ⟨bare, said, _⟩ := kindOfExtension_eq_source (kindOfExtension_of_source kind.symm)
    cases said

theorem IsScanned.exists_isSourceAt (scanned : m.IsScanned)
    (listed : (category, entry) ∈ m.entries) (source : entry.kind = .source) :
    ∃ folders stem ending,
      (IndexedFile.ofEntry m category entry).IsSourceAt m folders stem ending := by
  obtain ⟨folders, name, path, plain⟩ := (scanned.below_of_source listed source listed).exists_names
  have kind := (scanned.filed category entry listed).2
  have named : Path.fileName? ⟨entry.path⟩ = some name := by
    rw [path, Path.fileName?, Path.components_spell plain, List.map_append, List.map_singleton,
      List.getLast?_concat]
  obtain ⟨stem, ending, isSource, visible, rfl⟩ := exists_of_source named (kind.symm.trans source)
  have place : (IndexedFile.ofEntry m category entry).source.components =
      m.source.components ++ (folders ++ [stem ++ ending]).map Path.Component.name := by
    rw [← Path.components_join_spell m.source plain, ← path]
    rfl
  refine ⟨folders, stem, ending, isSource, plain, place, ?_, outputExtension_eq ?_ isSource visible⟩
  · rw [← compiledPath_append isSource, ← Path.compiledPath_spell, ← path, ← source]
    rfl
  · rw [Path.fileName?, place, List.map_append, List.map_singleton, ← List.append_assoc,
      List.getLast?_concat]

theorem exists_standsIn (seen : Scan.IsSeenPath entry.path) (category : Category) :
    ∃ dirs folder out, (IndexedFile.ofEntry m category entry).StandsIn m dirs folder out := by
  obtain ⟨dirs, name, path, plain⟩ := seen.exists_names
  have plainDirs : ∀ part ∈ dirs, Path.IsPlain part := fun part listed =>
    plain part (List.mem_append_left _ listed)
  have plainName := plain name (by simp)
  obtain ⟨folder, parent, below⟩ := Path.exists_parent?_join m.source plainDirs plainName
  obtain ⟨out, outParent, beside⟩ :=
    Path.exists_parent?_join m.output plainDirs (isPlain_compiledPath plainName entry.kind)
  rw [← path] at parent
  rw [← Path.compiledPath_spell, ← path] at outParent
  refine ⟨dirs, folder, out, ?_, plainDirs, parent, below, outParent, beside⟩
  change (Text.pieces '/' entry.path).dropLast = dirs
  rw [path, Path.pieces_spell (by simp) plain, List.dropLast_concat]

end Module

/-! ## Resolution -/

namespace ManifestIndex

variable {index : ManifestIndex} {source path : Path} {file : IndexedFile} {kind : ReferenceKind}

theorem same_of_bySource? (found : index.bySource? source = some file) :
    file ∈ index.files ∧ file.source.components = source.components := by
  have listed := List.mem_of_getLast? found
  obtain ⟨known, same⟩ := List.mem_filter.mp listed
  exact ⟨known, of_decide_eq_true same⟩

/-- The spellings under which a path reaches a file. -/
theorem resolvePath?_cases (found : index.resolvePath? path = some (kind, file)) :
    (kind = .file ∧ file.IsReached path) ∨
    (kind = .directory ∧ ∃ ending ∈ Specifier.sourceExtensions,
      file.source.components = (path.join ("index" ++ ending)).components) := by
  simp only [resolvePath?] at found
  split at found
  · rename_i reached
    cases found
    refine .inl ⟨rfl, ?_⟩
    rcases Option.or_eq_some_iff.mp reached with exact | ⟨_, other⟩
    · exact .inl (same_of_bySource? exact).2
    · obtain ⟨ending, listed, found⟩ := List.exists_of_findSome?_eq_some other
      exact .inr ⟨ending, listed, (same_of_bySource? found).2⟩
  · obtain ⟨reached, other, same⟩ := Option.map_eq_some_iff.mp found
    cases same
    obtain ⟨ending, listed, found⟩ := List.exists_of_findSome?_eq_some other
    exact .inr ⟨rfl, ending, listed, (same_of_bySource? found).2⟩

end ManifestIndex

/-! ## Rewriting -/

namespace IndexedFile

variable {u t : IndexedFile} {m : Module} {folder out : Path}
variable {dirs folders before mid target : List String} {specifier last stem ending : String}

/-- A specifier that reaches a source leads to its folder, and its last name has the stem of the
source. -/
theorem IsSourceAt.names_of_reached (place : t.IsSourceAt m folders stem ending) {path : Path}
    {front : String} (isFront : Path.IsFront front)
    (notTypings : isTypings (front ++ last) = false)
    (plainMid : ∀ name ∈ mid, Path.IsPlain name) (plainLast : Path.IsPlain last)
    (leads : path.folded = m.source.folded ++ (mid.reverse ++ [last]).map Path.Component.name)
    (reached : t.IsReached path.normalize) :
    folders = mid.reverse ∧ stem = Specifier.codeStem last := by
  -- whichever spelling reaches the file, its last name has the stem that the specifier has
  have named : ∃ x, Specifier.codeStem x = Specifier.codeStem last ∧
      t.source.components =
        m.source.folded ++ (mid.reverse ++ [x]).map Path.Component.name := by
    rcases reached with exact | ⟨other, listed, shorter⟩
    · exact ⟨last, rfl, by rw [exact, Path.components_normalize, leads]⟩
    · have sound : ∀ ending ∈ Specifier.sourceExtensions,
          '/' ∉ ending.toList ∧ 3 ≤ ending.length := by decide
      have plainOther := isPlain_withExtension plainLast (sound other listed).1 (sound other listed).2
      have folded : Path.IsFolded (m.source.folded ++
          (mid.reverse ++ [withExtension last other]).map Path.Component.name) := by
        refine Path.isFolded_append m.source.isFolded_folded ?_
        simpa [or_imp, forall_and] using ⟨plainMid, plainOther⟩
      refine ⟨_, Specifier.codeStem_append (mem_codeExtensions listed) _, ?_⟩
      rw [shorter, Path.normalize_eq, leads, List.map_append, List.map_singleton,
        ← List.append_assoc, Path.ofComponents_withExtension isFront notTypings,
        List.append_assoc, ← List.map_singleton, ← List.map_append,
        Path.components_ofComponents folded]
      rfl
  obtain ⟨x, sameStem, names⟩ := named
  have same := Path.names_eq_of_folded (place.place.symm.trans names)
  obtain ⟨rfl, rfl⟩ := List.append_singleton_inj.mp same
  rw [Specifier.codeStem_append (mem_codeExtensions place.isSource)] at sameStem
  exact ⟨rfl, sameStem⟩

theorem IsSourceAt.folded_output (place : t.IsSourceAt m folders stem ending) :
    t.output.folded =
      m.output.folded ++ (folders ++ [stem ++ outputEnding ending]).map Path.Component.name := by
  have plainName : Path.IsPlain (stem ++ outputEnding ending) := by
    rw [← compiledPath_append place.isSource]
    exact isPlain_compiledPath (place.plain _ (by simp)) .source
  rw [place.output, Path.folded_join_spell]
  intro name listed
  rcases List.mem_append.mp listed with inFolders | isName
  · exact place.plain name (List.mem_append_left _ inFolders)
  · rwa [List.mem_singleton.mp isName]

/-- A specifier that reaches a source is rewritten to the place of its output. -/
theorem IsSourceAt.folded_file (place : t.IsSourceAt m folders stem ending)
    (stands : u.StandsIn m dirs folder out) (relative : isRelative specifier = true)
    (inside : Path.descend? dirs.reverse (Path.steps specifier) = some target)
    (named : Path.EndsInName ⟨specifier⟩) (notTypings : isTypings specifier = false)
    (reached : t.IsReached (folder.join specifier).normalize) :
    (out.join (withExtension specifier (outputExtension t.source))).folded = t.output.folded := by
  obtain ⟨before, last, rfl, plainLast, noSlash⟩ := named.exists_segments
  have noSlashBefore : ∀ part ∈ before, '/' ∉ part.toList := fun part listed =>
    noSlash part (List.mem_append_left _ listed)
  have absolute := not_isAbsolute_of_isRelative relative
  rw [Path.steps_spell_append noSlash, Path.descend?_append] at inside
  obtain ⟨mid, toFolder, _⟩ := Option.bind_eq_some_iff.mp inside
  have plainMid := Path.plain_of_descend? (by simpa using stands.plain)
    (fun name => Path.plain_of_mem_filterMap noSlashBefore) toFolder
  have leads := Path.folded_join_segments stands.below noSlashBefore absolute toFolder plainLast
  obtain ⟨front, isFront, exchanged⟩ := Path.exists_front_spell before
  rw [exchanged] at notTypings
  obtain ⟨rfl, rfl⟩ := place.names_of_reached isFront notTypings plainMid plainLast leads reached
  obtain ⟨noSlashEnding, long⟩ := sound_outputEnding ending
  have plainName := isPlain_withExtension plainLast noSlashEnding long
  rw [Path.isAbsolute_spell_append plainLast.noSlash plainName.noSlash] at absolute
  rw [place.extension, Path.withExtension_spell, place.folded_output,
    Path.folded_join_segments stands.beside noSlashBefore absolute toFolder plainName]
  rfl

/-- A specifier that reaches a folder is rewritten to the place of its index file's output. -/
theorem IsSourceAt.folded_directory (place : t.IsSourceAt m folders stem ending)
    (stands : u.StandsIn m dirs folder out) (relative : isRelative specifier = true)
    (inside : Path.descend? dirs.reverse (Path.steps specifier) = some target)
    {other : String} (alsoSource : other ∈ Specifier.sourceExtensions)
    (reached : t.source.components =
      ((folder.join specifier).normalize.join ("index" ++ other)).components) :
    (out.join (Text.trimEnd specifier '/' ++ "/index" ++ outputExtension t.source)).folded =
      t.output.folded := by
  have absolute := not_isAbsolute_of_isRelative relative
  have names : t.source.components =
      m.source.folded ++ (target.reverse ++ ["index" ++ other]).map Path.Component.name := by
    rw [reached, Path.components_join_plain _ (isPlain_index (mem_codeExtensions alsoSource)),
      Path.components_normalize, Path.folded_join_of_descend? stands.below absolute inside]
    simp
  have same := Path.names_eq_of_folded (place.place.symm.trans names)
  obtain ⟨rfl, isIndex⟩ := List.append_singleton_inj.mp same
  obtain ⟨rfl, rfl⟩ := Specifier.eq_of_append_eq Specifier.areApart_codeExtensions
    (mem_codeExtensions place.isSource) (mem_codeExtensions alsoSource) isIndex
  have onwards : Path.descend? dirs.reverse (Path.steps (Text.trimEnd specifier '/' ++ "/" ++
      ("index" ++ outputEnding ending))) = some (("index" ++ outputEnding ending) :: target) := by
    rw [Path.steps_append_slash _ (isPlain_index (mem_codeExtensions_outputEnding ending)),
      Path.steps_trimEnd, Path.descend?_append, inside, Option.bind_some, Path.descend?_name]
    cases target <;> rfl
  have stays := not_isAbsolute_trimEnd relative ("/" ++ ("index" ++ outputEnding ending))
  rw [← String.append_assoc] at stays
  rw [place.extension, append_index, Path.folded_join_of_descend? stands.beside stays onwards,
    List.reverse_cons, place.folded_output]

end IndexedFile

/-- What a specifier is rewritten to by how it reaches its target. -/
def Specifier.rewritten (specifier : String) (target : Path) : ReferenceKind → String
  | .directory => Text.trimEnd specifier '/' ++ "/index" ++ outputExtension target
  | .file => withExtension specifier (outputExtension target)

namespace ManifestIndex

variable {index : ManifestIndex} {u t : IndexedFile} {kind : ReferenceKind} {specifier : String}

theorem resolvePath?_of_resolve? {source : Path} {reference : ResolvedReference}
    (relative : isRelative specifier = true)
    (resolved : index.resolve? source specifier = some reference) :
    ∃ file, index.resolvePath? ((source.parent?.getD ⟨""⟩).join specifier).normalize =
      some (reference.kind, file) ∧ file.source = reference.path := by
  obtain ⟨⟨kind, file⟩, found, rfl⟩ := Option.map_eq_some_iff.mp resolved
  rw [relative, if_pos rfl] at found
  exact ⟨file, found, rfl⟩

theorem outputSpecifier_of_resolve {references : References} {source path : Path}
    {project : Option String} (relative : isRelative specifier = true)
    (resolved : references.resolve source specifier = some ⟨path, kind, project⟩) :
    outputSpecifier references source specifier =
      Specifier.rewritten specifier path kind := by
  cases kind <;> simp [outputSpecifier, resolved, relative, Specifier.rewritten]

/-- What is found under another text than the name of its module is rewritten. -/
theorem outputSpecifier_of_named {references : References} {source path : Path} {name : String}
    (resolved : references.resolve source specifier = some ⟨path, kind, some name⟩)
    (other : specifier ≠ name) :
    outputSpecifier references source specifier = Specifier.rewritten specifier path kind := by
  cases kind <;> simp [outputSpecifier, resolved, Ne.symm other, Specifier.rewritten]

/-- Going on along a specifier from the folder of a file never leaves the folder that the file's
path is seen from. -/
def staysBelow (path specifier : String) : Bool :=
  (Path.descend? (Text.pieces '/' path).dropLast.reverse (Path.steps specifier)).isSome

/-- A relative specifier that stays in its module and resolves to a source of the module is
rewritten to the place of the source's output, seen from the folder of the importing output. A
specifier that names a file has to end in the name, and not in the extension of a declaration. -/
theorem normalize_outputSpecifier (index : ManifestIndex) (taken : index.manifest.IsTaken)
    (known : u ∈ index.files) (alsoKnown : t ∈ index.files) (together : t.moduleName = u.moduleName)
    (isSource : t.isSource = true) (relative : isRelative specifier = true)
    (inside : staysBelow u.entry.path specifier = true)
    (resolved : index.resolve? u.source specifier = some ⟨t.source, kind, some t.moduleName⟩)
    (spelled : kind = .file → Path.EndsInName ⟨specifier⟩ ∧ isTypings specifier = false) :
    ∃ out, u.output.parent? = some out ∧
      (out.join (outputSpecifier index.references u.source specifier)).normalize =
        t.output.normalize := by
  obtain ⟨ascending, modules⟩ := taken.modules
  rw [index.files_eq, Manifest.mem_indexedFiles ascending] at known alsoKnown
  obtain ⟨_, m, category, entry, named, member, rfl⟩ := known
  obtain ⟨_, m', category', entry', named', member', rfl⟩ := alsoKnown
  obtain ⟨rfl, scanned⟩ := modules _ _ named
  obtain ⟨rfl, _⟩ := modules _ _ named'
  obtain rfl : m = m' := by
    rw [show m'.name = m.name from together, named] at named'
    exact Option.some_inj.mp named'
  have source : entry'.kind = .source := of_decide_eq_true isSource
  obtain ⟨folders, stem, ending, place⟩ := scanned.exists_isSourceAt member' source
  obtain ⟨dirs, folder, out, stands⟩ :=
    Module.exists_standsIn (scanned.below_of_source member' source member) category
  obtain ⟨target, stays⟩ := Option.isSome_iff_exists.mp inside
  rw [stands.above] at stays
  obtain ⟨file, found, same⟩ := resolvePath?_of_resolve? relative resolved
  rw [stands.parent, Option.getD_some] at found
  refine ⟨out, stands.outParent, ?_⟩
  have asked : index.references.resolve (IndexedFile.ofEntry m category entry).source specifier =
      some ⟨(IndexedFile.ofEntry m category' entry').source, kind, _⟩ := resolved
  rw [outputSpecifier_of_resolve relative asked, Path.normalize_eq, Path.normalize_eq]
  refine congrArg Path.ofComponents ?_
  rcases resolvePath?_cases found with ⟨rfl, reached⟩ | ⟨rfl, other, alsoSource, reached⟩
  · obtain ⟨named, notTypings⟩ := spelled rfl
    rw [IndexedFile.IsReached, same] at reached
    exact place.folded_file stands relative stays named notTypings reached
  · rw [same] at reached
    exact place.folded_directory stands relative stays alsoSource reached

/-! A module in which `src/app/a.ts` imports `src/lib/core.mts` as if it were compiled. -/

section Linked

def linkedDisk : Disk :=
  let file (name : String) : String × Item := (name, .file (.text "") 5)
  let folder (name : String) (entries : List (String × Item)) : String × Item :=
    (name, .folder entries 5)
  ⟨[folder "w" [folder "src" [folder "app" [file "a.ts"], folder "lib" [file "core.mts"]]]]⟩

def linkedSettings : Settings where
  workspaceRoot := ⟨"/w"⟩
  toolFolder := ⟨"/w/.t"⟩
  outputRoot := ⟨"/o"⟩
  compilerOutput := ⟨"/c"⟩
  typesOutput := ⟨"/t"⟩
  manifestPath := ⟨"/m"⟩
  profiles := []
  excluded := []
  compilerUrl := none

def linkedModule : Module where
  name := "w"
  version := "0.0.0"
  source := ⟨"/w"⟩
  output := ⟨"/o/node_modules/w"⟩
  main := true
  workspace := true
  internal := false
  prod := false
  roles := []
  parents := []
  profiles := []
  files := [(.src, [⟨"src/app/a.ts", .source, 5, none, []⟩, ⟨"src/lib/core.mts", .source, 5, none, []⟩])]

def linkedManifest : Manifest where
  version := 1
  workspace := ⟨⟨"/w"⟩, "w", false, .npm⟩
  paths := ⟨⟨"/c"⟩, ⟨"/o"⟩, ⟨".t"⟩, ⟨"/t"⟩, none⟩
  main := ⟨"w", "0.0.0", ⟨"/w"⟩⟩
  generated := 9
  modules := [("w", linkedModule)]

theorem isTaken_linked : linkedManifest.IsTaken := by
  have taken : (Snapshot.take linkedDisk linkedSettings true 9
      (.single { name := "w", dir := ⟨"/w"⟩, main := true, workspace := true }) .empty).2 =
        .ok linkedManifest := eq_ok_of_toOption (by decide +kernel)
  exact ⟨_, _, _, _, _, _, by decide, .empty, taken⟩

def linkedIndex : ManifestIndex := .ofManifest ⟨"/m"⟩ linkedManifest

def linkedFile (path : String) : IndexedFile :=
  .ofEntry linkedModule .src ⟨path, .source, 5, none, []⟩

end Linked

theorem normalize_outputSpecifier_linked :
    let u := linkedFile "src/app/a.ts"
    let t := linkedFile "src/lib/core.mts"
    linkedIndex.manifest.IsTaken ∧ u ∈ linkedIndex.files ∧ t ∈ linkedIndex.files ∧
      outputSpecifier linkedIndex.references u.source "../lib/./core.js" = "../lib/./core.mjs" ∧
      ∃ out, u.output.parent? = some out ∧
        (out.join (outputSpecifier linkedIndex.references u.source "../lib/./core.js")).normalize =
          t.output.normalize := by
  have known : linkedFile "src/app/a.ts" ∈ linkedIndex.files := by decide +kernel
  have alsoKnown : linkedFile "src/lib/core.mts" ∈ linkedIndex.files := by decide +kernel
  have resolved : linkedIndex.resolve? (linkedFile "src/app/a.ts").source "../lib/./core.js" =
      some ⟨(linkedFile "src/lib/core.mts").source, .file, some "w"⟩ := by decide +kernel
  have named : Path.EndsInName ⟨"../lib/./core.js"⟩ := ⟨"core.js", by decide +kernel⟩
  exact ⟨isTaken_linked, known, alsoKnown, by decide +kernel,
    normalize_outputSpecifier linkedIndex isTaken_linked known alsoKnown rfl rfl (by decide +kernel)
      (by decide +kernel) resolved fun _ => ⟨named, by decide +kernel⟩⟩

end ManifestIndex

end WorkspaceBuild
