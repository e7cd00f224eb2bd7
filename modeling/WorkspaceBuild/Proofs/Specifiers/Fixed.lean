import WorkspaceBuild.Proofs.Specifiers.Copied
import WorkspaceBuild.Proofs.Specifiers.Outputs
import WorkspaceBuild.Proofs.Specifiers.Spellings

/-! # Rewriting twice

What a specifier was rewritten to has the extension of an output, and resolves through other files
than the specifier did. It is rewritten to itself just when what it resolves to then has an output
with that extension, too.
-/

namespace WorkspaceBuild

theorem findSome?_congr {α β : Type} {f g : α → Option β} {xs : List α} (same : ∀ x ∈ xs, f x = g x) :
    xs.findSome? f = xs.findSome? g := by
  induction xs with
  | nil => rfl
  | cons x rest ih =>
      obtain ⟨here, later⟩ := List.forall_mem_cons.mp same
      rw [List.findSome?_cons, List.findSome?_cons, here, ih later]

namespace Text

theorem head?_pieces_append (text more : String) :
    (pieces '/' (text ++ "/" ++ more)).head? = (pieces '/' text).head? := by
  rw [pieces_append_slash, List.head?_append_of_ne_nil _ (pieces_ne_nil _ _)]

theorem head?_pieces_trimEnd (text : String) :
    (pieces '/' (trimEnd text '/')).head? = (pieces '/' text).head? := by
  obtain ⟨count, whole⟩ := trimEnd_eq text '/'
  have same := congrArg List.head? (pieces_append_slashes (trimEnd text '/') count)
  rw [← whole, List.head?_append_of_ne_nil _ (pieces_ne_nil _ _)] at same
  exact same.symm

end Text

/-- Whether a specifier is relative is told by its first piece. -/
theorem isRelative_iff {specifier : String} : isRelative specifier = true ↔
    (Text.pieces '/' specifier).head? = some "." ∨ (Text.pieces '/' specifier).head? = some ".." := by
  have alone : Text.pieces '/' "." = ["."] ∧ Text.pieces '/' ".." = [".."] := by decide
  simp only [isRelative, Bool.or_eq_true, decide_eq_true_eq]
  constructor
  · rintro (((rfl | rfl) | begins) | begins)
    · exact .inl (by rw [alone.1, List.head?_cons])
    · exact .inr (by rw [alone.2, List.head?_cons])
    · obtain ⟨rest, rfl⟩ := Text.exists_of_beginsWith begins
      exact .inl (by rw [show "./" = "." ++ "/" from rfl, Text.head?_pieces_append, alone.1, List.head?_cons])
    · obtain ⟨rest, rfl⟩ := Text.exists_of_beginsWith begins
      exact .inr (by rw [show "../" = ".." ++ "/" from rfl, Text.head?_pieces_append, alone.2, List.head?_cons])
  · have starts {first : String} (head : (Text.pieces '/' specifier).head? = some first) :
        specifier = first ∨ Text.beginsWith specifier (first ++ "/") = true := by
      obtain ⟨rest, split⟩ := List.head?_eq_some_iff.mp head
      have whole : Path.spell (first :: rest) = specifier := by
        rw [← split]
        exact Text.joined_pieces '/' specifier
      cases rest with
      | nil => exact .inl (by rw [← whole, Path.spell_singleton])
      | cons next rest =>
          refine .inr (Text.beginsWith_iff.mpr ⟨Path.spell (next :: rest), ?_⟩)
          rw [← whole, ← String.toList_inj]
          simp [Path.spell, Text.joined, List.intercalate_cons_cons]
    rintro (head | head)
    · rcases starts head with same | begins
      · exact .inl (.inl (.inl same))
      · exact .inl (.inr begins)
    · rcases starts head with same | begins
      · exact .inl (.inl (.inr same))
      · exact .inr begins

theorem isRelative_congr {specifier other : String}
    (same : (Text.pieces '/' specifier).head? = (Text.pieces '/' other).head?) :
    isRelative specifier = isRelative other := by
  rw [Bool.eq_iff_iff, isRelative_iff, isRelative_iff, same]

theorem isRelative_append (folder name : String) : isRelative (folder ++ "/" ++ name) = isRelative folder :=
  isRelative_congr (Text.head?_pieces_append folder name)

theorem isRelative_trimEnd (specifier : String) :
    isRelative (Text.trimEnd specifier '/') = isRelative specifier :=
  isRelative_congr (Text.head?_pieces_trimEnd specifier)

namespace Path

variable {dir : Path} {folder name : String}

/-- A relative specifier that ends in a name leads to a folder first. -/
theorem EndsInName.exists_folder {specifier : String} (named : EndsInName ⟨specifier⟩)
    (relative : isRelative specifier = true) :
    ∃ folder name, specifier = folder ++ "/" ++ name ∧ IsPlain name ∧ isRelative folder = true := by
  obtain ⟨before, name, rfl, plain, noSlash⟩ := named.exists_segments
  cases before with
  | nil =>
      rw [List.nil_append, spell_singleton, isRelative_iff, Text.pieces_eq_singleton plain.noSlash] at relative
      rcases relative with dot | dots
      · exact absurd (Option.some_inj.mp dot) plain.ne_dot
      · exact absurd (Option.some_inj.mp dots) plain.notParent
  | cons first rest =>
      have split : spell (first :: rest ++ [name]) = spell (first :: rest) ++ "/" ++ name :=
        Text.joined_append_singleton (by simp) "/" name
      exact ⟨spell (first :: rest), name, split, plain, by rwa [split, isRelative_append] at relative⟩

/-- A name behind a relative specifier leads into the folder that this one leads to. -/
theorem folded_join_slash (relative : isRelative folder = true) (plain : IsPlain name) (dir : Path) :
    (dir.join (folder ++ "/" ++ name)).folded = (dir.join folder).folded ++ [.name name] := by
  have above := not_isAbsolute_of_isRelative relative
  have onwards := not_isAbsolute_of_isRelative ((isRelative_append folder name).trans relative)
  rw [folded, folded, foldl_join onwards, foldl_join above, steps_append_slash _ plain, List.foldl_append]
  exact List.reverse_cons

theorem folded_join_trimEnd {specifier : String} (relative : isRelative specifier = true) (dir : Path) :
    (dir.join (Text.trimEnd specifier '/')).folded = (dir.join specifier).folded := by
  have short := not_isAbsolute_of_isRelative ((isRelative_trimEnd specifier).trans relative)
  rw [folded, folded, foldl_join short, foldl_join (not_isAbsolute_of_isRelative relative), steps_trimEnd]

end Path

namespace Specifier

/-- Resolution takes the extension of an output off, and nothing more. -/
theorem stem_append_output {extension : String} (listed : extension ∈ outputExtensions) (text : String) :
    stem (text ++ extension) = text := by
  have apart : ∀ extension ∈ outputExtensions, extension ∈ codeExtensions ∧
      ∀ ending ∈ typingsExtensions, ¬ extension.toList <:+ ending.toList ∧
        ¬ ending.toList <:+ extension.toList := by decide
  obtain ⟨isCode, notTypings⟩ := apart extension listed
  have none : dropEnding? typingsExtensions (text ++ extension) = none := by
    rw [dropEnding?, List.findSome?_eq_none_iff]
    intro ending typings
    rw [Option.eq_none_iff_forall_ne_some]
    intro before dropped
    have whole : ending.toList <:+ (text ++ extension).toList := by
      rw [Text.eq_of_dropEnd? dropped, String.toList_append]
      exact List.suffix_append _ _
    have own : extension.toList <:+ (text ++ extension).toList := by
      rw [String.toList_append]
      exact List.suffix_append _ _
    rcases List.suffix_or_suffix_of_suffix own whole with inside | inside
    · exact (notTypings ending typings).1 inside
    · exact (notTypings ending typings).2 inside
  rw [stem, none, Option.getD_none]
  exact codeStem_append isCode text

variable {specifier start : String} {near far : Path} {kind : ReferenceKind}

theorem exists_rewritten (specifier : String) (target : Path) (kind : ReferenceKind) :
    ∃ start, rewritten specifier target kind = start ++ outputExtension target := by
  cases kind <;> exact ⟨_, rfl⟩

theorem sound_outputExtension (path : Path) :
    outputExtension path ≠ "" ∧ '/' ∉ (outputExtension path).toList := by
  have all : ∀ extension ∈ codeExtensions, extension ≠ "" ∧ '/' ∉ extension.toList := by decide
  exact all _ (mem_codeExtensions_outputExtension path)

/-- With the extension of an output, a specifier stays as it is just when it reaches a file that has
an output with the same extension. -/
theorem rewritten_eq_self_iff (ends : specifier = start ++ outputExtension near) :
    rewritten specifier far kind = specifier ↔
      kind = .file ∧ outputExtension far = outputExtension near := by
  have listed := mem_codeExtensions_outputExtension far
  cases kind with
  | file =>
      simp only [rewritten, withExtension_eq_self_iff listed, true_and]
      rw [Text.endsWith_iff]
      constructor
      · rintro ⟨front, also⟩
        have same := also.symm.trans ends
        exact (eq_of_append_eq areApart_codeExtensions listed
          (mem_codeExtensions_outputExtension near) same).2
      · intro same
        exact ⟨start, by rw [ends, same]⟩
  | directory =>
      obtain ⟨some, noSlash⟩ := sound_outputExtension near
      simp only [rewritten, reduceCtorEq, false_and, iff_false]
      intro same
      have lengths := congrArg String.length same
      rw [ends, Text.trimEnd_append some noSlash, String.length_append, String.length_append,
        show "/index".length = 6 from rfl] at lengths
      omega

end Specifier

namespace ManifestIndex

open Specifier

variable {index : ManifestIndex} {u : Path} {specifier : String} {near far : ResolvedReference}

/-- What a specifier is rewritten to is rewritten to itself. -/
def IsFixed (index : ManifestIndex) (u : Path) (specifier : String) : Prop :=
  let rewritten := outputSpecifier index.references u specifier
  outputSpecifier index.references u rewritten = rewritten

/-- A target that keeps a specifier as it is: the module of that name, or a file that has an output
with a given extension. -/
def Keeps (far : ResolvedReference) (specifier extension : String) : Prop :=
  (isRelative specifier = false ∧ far.project = some specifier) ∨
    (far.kind = .file ∧ outputExtension far.path = extension)

/-- A found specifier is rewritten unless it is the name of the target's module. -/
theorem outputSpecifier_of_resolve? (resolved : index.resolve? u specifier = some near) :
    outputSpecifier index.references u specifier =
      if isRelative specifier = false ∧ near.project = some specifier then specifier
      else rewritten specifier near.path near.kind := by
  obtain ⟨⟨kind, file⟩, _, rfl⟩ := Option.map_eq_some_iff.mp resolved
  have asked : index.references.resolve u specifier = some _ := resolved
  rw [outputSpecifier, asked]
  simp only [Option.isNone_some, Bool.false_or, Bool.and_eq_true, Bool.not_eq_true', decide_eq_true_eq]
  split
  · rfl
  · cases kind <;> rfl

/-- A rewritten specifier is fixed just when what it resolves to keeps it. -/
theorem isFixed_iff_of_rewritten {target : Path} {kind : ReferenceKind}
    (same : outputSpecifier index.references u specifier = rewritten specifier target kind) :
    index.IsFixed u specifier ↔ ∀ far,
      index.resolve? u (outputSpecifier index.references u specifier) = some far →
        Keeps far (outputSpecifier index.references u specifier) (outputExtension target) := by
  obtain ⟨start, ends⟩ := exists_rewritten specifier target kind
  rw [← same] at ends
  rw [IsFixed]
  generalize outputSpecifier index.references u specifier = once at ends ⊢
  cases again : index.resolve? u once with
  | none =>
      have asked : index.references.resolve u once = none := again
      simp [outputSpecifier, asked]
  | some far =>
      rw [outputSpecifier_of_resolve? again]
      simp only [Option.some.injEq, forall_eq', Keeps]
      split
      · rename_i own
        simp [own]
      · rename_i other
        rw [rewritten_eq_self_iff ends]
        simp [other]

/-- A specifier is fixed just when it is not rewritten, or what it is rewritten to resolves to nothing
or to what keeps it. -/
theorem isFixed_iff (index : ManifestIndex) (u : Path) (specifier : String) :
    index.IsFixed u specifier ↔
      (outputSpecifier index.references u specifier ≠ specifier → ∀ near far,
        index.resolve? u specifier = some near →
        index.resolve? u (outputSpecifier index.references u specifier) = some far →
        Keeps far (outputSpecifier index.references u specifier) (outputExtension near.path)) := by
  by_cases kept : outputSpecifier index.references u specifier = specifier
  · simp [IsFixed, kept]
  · cases resolved : index.resolve? u specifier with
    | none =>
        have asked : index.references.resolve u specifier = none := resolved
        exact absurd (by simp [outputSpecifier, asked]) kept
    | some near =>
        have same := outputSpecifier_of_resolve? resolved
        split at same
        · exact absurd same kept
        · rw [isFixed_iff_of_rewritten same]
          constructor
          · rintro keeps _ _ far ⟨⟩ again
            exact keeps far again
          · exact fun keeps far again => keeps kept near far rfl again

/-! ## Relative specifiers -/

variable {path : Path} {file : IndexedFile} {folder name : String}

theorem bySource?_congr (index : ManifestIndex) {other : Path} (same : path.components = other.components) :
    index.bySource? path = index.bySource? other := by
  simp only [bySource?, Path.same, same]

/-- The file that a path means as written or with the extension of a source. -/
def probe? (index : ManifestIndex) (path : Path) : Option IndexedFile :=
  (index.bySource? path).or
    (sourceExtensions.findSome? fun ending => index.bySource? ⟨stem path.text ++ ending⟩)

theorem resolvePath?_file_iff :
    index.resolvePath? path = some (.file, file) ↔ index.probe? path = some file := by
  rw [resolvePath?, ← probe?]
  cases index.probe? path with
  | some reached => simp
  | none => simp only [Option.map_eq_some_iff, Prod.mk.injEq, reduceCtorEq, false_and, and_false, exists_false]

theorem resolvePath?_directory_iff : index.resolvePath? path = some (.directory, file) ↔
    index.probe? path = none ∧
      (sourceExtensions.findSome? fun ending => index.bySource? (path.join ("index" ++ ending))) =
        some file := by
  rw [resolvePath?, ← probe?]
  cases index.probe? path with
  | some reached => simp
  | none => simp only [Option.map_eq_some_iff, Prod.mk.injEq, true_and, exists_eq_right]

theorem resolve?_relative_iff (relative : isRelative specifier = true) :
    index.resolve? u specifier = some far ↔ ∃ kind file,
      index.resolvePath? ((u.parent?.getD ⟨""⟩).join specifier).normalize = some (kind, file) ∧
        far = ⟨file.source, kind, some file.moduleName⟩ := by
  simp only [resolve?, relative, if_true, Option.map_eq_some_iff, Prod.exists]
  exact exists_congr fun kind => exists_congr fun file => and_congr_right fun _ => eq_comm

/-- The file that a relative specifier of a unit leads to as it is written. -/
def fileAt? (index : ManifestIndex) (u : Path) (specifier : String) : Option IndexedFile :=
  index.bySource? ((u.parent?.getD ⟨""⟩).join specifier).normalize

/-- A name in a folder means the file of that name, or one with its stem and the extension of a
source. -/
theorem probe?_slash (index : ManifestIndex) (u : Path) (relative : isRelative folder = true)
    (plain : Path.IsPlain name) :
    index.probe? ((u.parent?.getD ⟨""⟩).join (folder ++ "/" ++ name)).normalize =
      (index.fileAt? u (folder ++ "/" ++ name)).or (sourceExtensions.findSome? fun ending =>
        index.fileAt? u (folder ++ "/" ++ (stem name ++ ending))) := by
  have leads := Path.folded_join_slash relative plain (u.parent?.getD ⟨""⟩)
  have others : sourceExtensions.findSome? (fun ending => index.bySource?
        ⟨stem ((u.parent?.getD ⟨""⟩).join (folder ++ "/" ++ name)).normalize.text ++ ending⟩) =
      sourceExtensions.findSome? fun ending => index.fileAt? u (folder ++ "/" ++ (stem name ++ ending)) := by
    refine findSome?_congr fun ending listed => ?_
    have plainOther := Path.isPlain_stem_append plain.noSlash listed
    refine index.bySource?_congr ?_
    rw [Path.components_stem_append leads plainOther, Path.components_normalize,
      Path.folded_join_slash relative plainOther]
  rw [probe?, others, fileAt?]

theorem fileName?_of_fileAt? (relative : isRelative folder = true) (plain : Path.IsPlain name)
    (found : index.fileAt? u (folder ++ "/" ++ name) = some file) : file.source.fileName? = some name := by
  rw [Path.fileName?, (same_of_bySource? found).2, Path.components_normalize,
    Path.folded_join_slash relative plain, List.getLast?_concat]

/-- A relative specifier that is rewritten to a name beside some sources with its stem is fixed just
when a file has this name, or the first of the sources has an output with its extension. -/
theorem isFixed_iff_of_first {base : String} {target : Path} {kind : ReferenceKind} {first : IndexedFile}
    (relative : isRelative folder = true) (visible : base ≠ "")
    (plain : Path.IsPlain (base ++ outputExtension target))
    (same : outputSpecifier index.references u specifier = rewritten specifier target kind)
    (text : rewritten specifier target kind = folder ++ "/" ++ (base ++ outputExtension target))
    (found : (sourceExtensions.findSome? fun ending =>
      index.fileAt? u (folder ++ "/" ++ (base ++ ending))) = some first) :
    index.IsFixed u specifier ↔
      (index.fileAt? u (outputSpecifier index.references u specifier)).isSome = true ∨
        outputExtension first.source = outputExtension target := by
  have isOutput := mem_outputExtensions target
  have stays : isRelative (folder ++ "/" ++ (base ++ outputExtension target)) = true :=
    (isRelative_append _ _).trans relative
  have probed := index.probe?_slash u relative plain
  rw [stem_append_output isOutput, found] at probed
  rw [isFixed_iff_of_rewritten same, same, text]
  -- as one of the sources is found, the name means a file
  obtain ⟨file, means, which⟩ : ∃ file,
      index.probe? ((u.parent?.getD ⟨""⟩).join
        (folder ++ "/" ++ (base ++ outputExtension target))).normalize = some file ∧
      (outputExtension file.source = outputExtension target ↔
        (index.fileAt? u (folder ++ "/" ++ (base ++ outputExtension target))).isSome = true ∨
          outputExtension first.source = outputExtension target) := by
    cases named : index.fileAt? u (folder ++ "/" ++ (base ++ outputExtension target)) with
    | none =>
        rw [named, Option.none_or] at probed
        exact ⟨first, probed, by simp⟩
    | some file =>
        rw [named, Option.some_or] at probed
        have ends := outputExtension_of_output (fileName?_of_fileAt? relative plain named) isOutput visible
        exact ⟨file, probed, by simp [ends]⟩
  have resolved : index.resolve? u (folder ++ "/" ++ (base ++ outputExtension target)) =
      some ⟨file.source, .file, some file.moduleName⟩ :=
    (resolve?_relative_iff stays).mpr ⟨.file, file, resolvePath?_file_iff.mpr means, rfl⟩
  rw [resolved, ← which]
  simp [Keeps, stays]

/-- A relative specifier of a folder is fixed. -/
theorem isFixed_of_directory (relative : isRelative specifier = true)
    (resolved : index.resolve? u specifier = some near) (directory : near.kind = .directory) :
    index.IsFixed u specifier := by
  obtain ⟨kind, file, found, rfl⟩ := (resolve?_relative_iff relative).mp resolved
  obtain rfl : kind = .directory := directory
  obtain ⟨_, inner⟩ := resolvePath?_directory_iff.mp found
  have same := outputSpecifier_of_resolve? resolved
  rw [if_neg (by simp [relative])] at same
  have above : isRelative (Text.trimEnd specifier '/') = true := (isRelative_trimEnd specifier).trans relative
  have text : rewritten specifier file.source .directory =
      Text.trimEnd specifier '/' ++ "/" ++ ("index" ++ outputExtension file.source) :=
    append_index _ _
  have plain := isPlain_index (mem_codeExtensions_outputExtension file.source)
  refine (isFixed_iff_of_first above (by decide) plain same text ?_).mpr (.inr rfl)
  rw [← inner]
  refine findSome?_congr fun ending listed => index.bySource?_congr ?_
  have plainEnding := isPlain_index (mem_codeExtensions listed)
  rw [Path.components_normalize, Path.folded_join_slash above plainEnding, Path.folded_join_trimEnd relative,
    Path.components_join_plain _ plainEnding, Path.components_normalize]

/-- A relative specifier of a source is fixed just when what it is rewritten to names a file, or the
first source with the stem that it names has an output with the extension of its own one. -/
theorem isFixed_iff_of_file (taken : index.manifest.IsTaken) {t : IndexedFile} (known : t ∈ index.files)
    (isSource : t.isSource = true) (relative : isRelative specifier = true)
    (named : Path.EndsInName ⟨specifier⟩) (notTypings : isTypings specifier = false)
    (resolved : index.resolve? u specifier = some near) (file : near.kind = .file)
    (target : near.path = t.source) : index.IsFixed u specifier ↔
      (index.fileAt? u (outputSpecifier index.references u specifier)).isSome = true ∨
        ∃ first, (sourceExtensions.findSome? fun ending =>
            index.fileAt? u (withExtension specifier ending)) = some first ∧
          outputExtension first.source = outputExtension t.source := by
  obtain ⟨folder, name, rfl, plain, above⟩ := named.exists_folder relative
  have isFront : Path.IsFront (folder ++ "/") := .inr ⟨folder, rfl⟩
  have exchanged (extension : String) :
      withExtension (folder ++ "/" ++ name) extension = folder ++ "/" ++ (codeStem name ++ extension) :=
    withExtension_front isFront name extension
  have bare : stem name = codeStem name := by
    have short := stem_front (.inl rfl : Path.IsFront "") notTypings isFront
    rwa [String.empty_append, String.empty_append] at short
  obtain ⟨kind, reached, found, rfl⟩ := (resolve?_relative_iff relative).mp resolved
  obtain rfl : kind = .file := file
  obtain ⟨_, base, ending, spelled, _⟩ := taken.exists_isSpelled (index.files_eq ▸ known) isSource
  have ownName : reached.source.fileName? = some (base ++ ending) :=
    (congrArg Path.fileName? target).trans spelled.named
  have probed := (index.probe?_slash u above plain).symm.trans (resolvePath?_file_iff.mp found)
  rw [bare] at probed
  obtain ⟨sameStem, some⟩ : codeStem name = base ∧ (sourceExtensions.findSome? fun ending =>
      index.fileAt? u (folder ++ "/" ++ (codeStem name ++ ending))).isSome = true := by
    rcases Option.or_eq_some_iff.mp probed with exact | ⟨_, other⟩
    · have sameName := (fileName?_of_fileAt? above plain exact).symm.trans ownName
      obtain rfl := Option.some_inj.mp sameName
      rw [codeStem_append (mem_codeExtensions spelled.isSource), List.findSome?_isSome_iff]
      exact ⟨rfl, ending, spelled.isSource, Option.isSome_of_eq_some exact⟩
    · obtain ⟨extension, listed, at_⟩ := List.exists_of_findSome?_eq_some other
      have plainOther := Path.isPlain_stem_append plain.noSlash listed
      rw [bare] at plainOther
      have sameName := (fileName?_of_fileAt? above plainOther at_).symm.trans ownName
      exact ⟨(eq_of_append_eq areApart_codeExtensions (mem_codeExtensions listed)
        (mem_codeExtensions spelled.isSource) (Option.some_inj.mp sameName)).1,
        Option.isSome_of_eq_some other⟩
  obtain ⟨first, isFirst⟩ := Option.isSome_iff_exists.mp some
  have same := outputSpecifier_of_resolve? resolved
  rw [if_neg (by simp [relative])] at same
  have plainOutput : Path.IsPlain (codeStem name ++ outputExtension t.source) := by
    rw [sameStem, spelled.extension]
    exact spelled.plainOutput _ (by simp)
  change outputSpecifier index.references u _ = rewritten _ reached.source .file at same
  rw [show reached.source = t.source from target] at same
  rw [isFixed_iff_of_first above (sameStem ▸ spelled.plainStem.ne_empty) plainOutput same
    (exchanged _) isFirst]
  simp only [exchanged, isFirst, Option.some_inj, exists_eq_left']

end ManifestIndex

/-! ## Bare specifiers -/

namespace IndexedFile

open Specifier

variable {file : IndexedFile} {index : ManifestIndex} {specifier start : String} {target : Path}

theorem exists_qualified (listed : specifier ∈ file.specifiers) (other : specifier ≠ file.moduleName) :
    ∃ path, specifier = qualified file.moduleName path := by
  rcases mem_specifiers_iff.mp listed with exact | ⟨_, bare | output | folder⟩
  · exact ⟨_, exact⟩
  · exact ⟨_, bare⟩
  · exact ⟨_, output⟩
  · obtain ⟨front, _, same⟩ := exists_of_mem_folderSpecifier folder other
    exact ⟨front, same⟩

/-- A file that goes by a text with the extension of an output, and neither by its stem nor through its
folder, has an output with this extension. -/
theorem IsSpelled.outputExtension_eq {folders : List String} {stem ending : String}
    (spelled : file.IsSpelled folders stem ending) (listed : specifier ∈ file.specifiers)
    (ends : specifier = start ++ outputExtension target)
    (notBare : specifier ≠ qualified file.moduleName (Specifier.stem file.entry.path))
    (notFolder : specifier ∉ file.folderSpecifier) :
    outputExtension file.source = outputExtension target := by
  obtain ⟨more, form, rfl⟩ := spelled.exists_more listed notFolder
  obtain ⟨front, _, exchanged⟩ := exists_front_qualified file.moduleName folders
  rw [exchanged, ← String.append_assoc] at ends
  have isCode := mem_codeExtensions_outputExtension target
  have outputs : ∀ ending ∈ sourceExtensions, ending ∉ outputExtensions ∧
      outputEnding ending ∈ codeExtensions := by decide
  obtain ⟨notOutput, alsoCode⟩ := outputs ending spelled.isSource
  rcases form with rfl | rfl | rfl
  · rw [String.append_empty, ← spelled.bare] at notBare
    exact absurd rfl notBare
  · have same := (eq_of_append_eq areApart_codeExtensions (mem_codeExtensions spelled.isSource) isCode ends).2
    exact absurd (mem_outputExtensions target) (same ▸ notOutput)
  · rw [spelled.extension]
    exact (eq_of_append_eq areApart_codeExtensions alsoCode isCode ends).2

theorem eq_of_copied (copied : file.isSource = false) (listed : specifier ∈ file.specifiers)
    (alone : isCode file.entry.kind = true →
      specifier ≠ qualified file.moduleName (Specifier.stem file.entry.path) ∧
        specifier ∉ file.folderSpecifier) :
    specifier = qualified file.moduleName file.entry.path := by
  rcases mem_specifiers_iff.mp listed with exact | ⟨code, bare | output | folder⟩
  · exact exact
  · exact absurd bare (alone code).1
  · rwa [show file.entry.outputPath = file.entry.path from if_neg (of_decide_eq_false copied)] at output
  · exact absurd folder (alone code).2

/-- A file whose path has the extension of an output has an output with it. -/
theorem outputExtension_of_qualified {m : Module} {category : Category} {entry : FileEntry}
    (seen : Scan.IsSeenPath entry.path)
    (ends : qualified m.name entry.path = start ++ outputExtension target) :
    outputExtension (ofEntry m category entry).source = outputExtension target := by
  obtain ⟨names, some, path, seenNames⟩ := seen
  obtain ⟨folders, name, rfl⟩ := (List.eq_nil_or_concat names).resolve_left some
  rw [List.concat_eq_append] at path seenNames
  obtain ⟨front, isFront, exchanged⟩ := exists_front_qualified m.name folders
  have noSlash := (sound_outputExtension target).2
  have nameEnds : Text.endsWith name (outputExtension target) = true := by
    have whole := Text.endsWith_iff.mpr ⟨start, ends⟩
    rwa [path, exchanged, Text.endsWith, Path.dropEnd?_front isFront name noSlash, Option.isSome_map] at whole
  obtain ⟨stem, rfl⟩ := Text.endsWith_iff.mp nameEnds
  have hidden : ∀ extension ∈ outputExtensions, Scan.isSkipped extension = true := by decide
  have visible : stem ≠ "" := by
    rintro rfl
    have seen := (seenNames _ (List.mem_append_right _ List.mem_cons_self)).notSkipped
    rw [String.empty_append, hidden _ (mem_outputExtensions target)] at seen
    cases seen
  refine outputExtension_of_output ?_ (mem_outputExtensions target) visible
  change (m.source.join entry.path).fileName? = _
  rw [path, Path.fileName?, Path.components_join_spell _ fun part listed => (seenNames part listed).toIsPlain,
    List.map_append, List.map_singleton, ← List.append_assoc, List.getLast?_concat]

end IndexedFile

namespace Specifier

theorem isRelative_rewritten (folder name : String) (target : Path) (kind : ReferenceKind) :
    isRelative (rewritten (folder ++ "/" ++ name) target kind) = isRelative folder := by
  cases kind with
  | file =>
      rw [rewritten, withExtension_front (.inr ⟨folder, rfl⟩), isRelative_append]
  | directory =>
      rw [rewritten, append_index, isRelative_append, isRelative_trimEnd, isRelative_append]

end Specifier

theorem Module.IsScanned.isSeenPath_of_ends {m : Module} (scanned : m.IsScanned) {category : Category}
    {entry : FileEntry} (member : (category, entry) ∈ m.entries) {start : String} {target : Path}
    (ends : Specifier.qualified m.name entry.path = start ++ outputExtension target) :
    Scan.IsSeenPath entry.path := by
  rcases scanned.below with below | alone
  · exact below category entry member
  · have noSlash := (Specifier.sound_outputExtension target).2
    have isFront : Path.IsFront (m.name ++ "/") := .inr ⟨m.name, rfl⟩
    have never : ∀ extension ∈ outputExtensions, Text.endsWith "" extension = false := by decide
    have whole := Text.endsWith_iff.mpr ⟨start, ends⟩
    rw [alone category entry member, Specifier.qualified, Text.endsWith,
      Path.dropEnd?_front isFront "" noSlash, Option.isSome_map] at whole
    cases whole.symm.trans (never _ (mem_outputExtensions target))

namespace ManifestIndex

open Specifier

variable {index : ManifestIndex} {u : Path} {specifier : String}

/-- A bare specifier is fixed where what it is rewritten to is no name of a module, and no code goes by
it without its extension or through its folder. -/
theorem isFixed_of_bare (taken : index.manifest.IsTaken) (bare : isRelative specifier = false)
    (unnamed : outputSpecifier index.references u specifier ∉ index.manifest.modules.keys)
    (alone : ∀ file ∈ index.files, IndexedFile.isCode file.entry.kind = true →
      outputSpecifier index.references u specifier ≠
          qualified file.moduleName (stem file.entry.path) ∧
        outputSpecifier index.references u specifier ∉ file.folderSpecifier) :
    index.IsFixed u specifier := by
  rw [isFixed_iff]
  intro changed near far resolved again
  obtain ⟨file, first, rfl⟩ := (resolve?_bare_iff bare).mp resolved
  have other : specifier ≠ file.moduleName := by
    intro own
    rw [outputSpecifier_of_resolve? resolved, if_pos ⟨bare, congrArg some own.symm⟩] at changed
    exact changed rfl
  have asked : index.references.resolve u specifier = some ⟨_, _, _⟩ := resolved
  have same := outputSpecifier_of_named asked other
  obtain ⟨path, rfl⟩ := IndexedFile.exists_qualified (bySpecifier?_eq_some_iff.mp first).1 other
  obtain ⟨start, ends⟩ := exists_rewritten (qualified file.moduleName path) file.source
    (if index.reachesFolder (qualified file.moduleName path) file then .directory else .file)
  rw [← same] at ends
  have stillBare : isRelative (outputSpecifier index.references u (qualified file.moduleName path)) = false := by
    rw [qualified, isRelative_append] at bare
    rw [same, qualified, isRelative_rewritten, bare]
  generalize outputSpecifier index.references u (qualified file.moduleName path) = once at *
  obtain ⟨reached, second, rfl⟩ := (resolve?_bare_iff stillBare).mp again
  obtain ⟨goes, _, _, split, _⟩ := bySpecifier?_eq_some_iff.mp second
  have listed : reached ∈ index.files := by simp [split]
  have apart := alone reached listed
  suffices keeps : ¬ index.reachesFolder once reached = true ∧
      outputExtension reached.source = outputExtension file.source from
    .inr ⟨if_neg keeps.1, keeps.2⟩
  rw [index.files_eq] at listed
  cases isSource : reached.isSource with
  | true =>
      obtain ⟨folders, base, ending, spelled, key⟩ := taken.exists_isSpelled listed isSource
      have code : IndexedFile.isCode reached.entry.kind = true := by
        rw [of_decide_eq_true isSource]
        rfl
      obtain ⟨notBare, notFolder⟩ := apart code
      have folder := spelled.reachesFolder_iff goes unnamed fun own => unnamed (own ▸ key)
      exact ⟨fun reaches => notFolder (folder.mp reaches).1,
        spelled.outputExtension_eq goes ends notBare notFolder⟩
  | false =>
      have exact := IndexedFile.eq_of_copied isSource goes apart
      obtain ⟨m, category, entry, _, _, _, scanned, member, rfl, _⟩ :=
        taken.exists_entries listed listed rfl
      rw [exact] at ends
      refine ⟨fun reaches => ?_,
        IndexedFile.outputExtension_of_qualified (scanned.isSeenPath_of_ends member ends) ends⟩
      obtain ⟨⟨front, index⟩, unread⟩ := (reachesFolder_iff unnamed _).mp reaches
      obtain ⟨more, extra, _, whole⟩ := exists_extra entry.path
      have named : entry.path = front ++ "/index" ++ more := whole.trans (congrArg (· ++ more) index)
      rw [exact] at unread
      exact unread (namesIndex_qualified extra named)

/-- When a specifier of a unit is fixed. -/
structure Fixes (index : ManifestIndex) (u : Path) (specifier : String) : Prop where
  /-- It is not rewritten, or what it is rewritten to resolves to nothing or to what keeps it. -/
  iff : index.IsFixed u specifier ↔
    (outputSpecifier index.references u specifier ≠ specifier → ∀ near far,
      index.resolve? u specifier = some near →
      index.resolve? u (outputSpecifier index.references u specifier) = some far →
      Keeps far (outputSpecifier index.references u specifier) (outputExtension near.path))
  /-- Folders are fixed. -/
  directory : isRelative specifier = true → ∀ near, index.resolve? u specifier = some near →
    near.kind = .directory → index.IsFixed u specifier
  /-- Sources are fixed unless one of their siblings with an output of another extension stands in
  for what they are rewritten to. -/
  file : isRelative specifier = true → Path.EndsInName ⟨specifier⟩ → isTypings specifier = false →
    ∀ near, index.resolve? u specifier = some near → near.kind = .file →
    ∀ t ∈ index.files, t.isSource = true → near.path = t.source →
      (index.IsFixed u specifier ↔
        (index.fileAt? u (outputSpecifier index.references u specifier)).isSome = true ∨
          ∃ first, (sourceExtensions.findSome? fun ending =>
              index.fileAt? u (withExtension specifier ending)) = some first ∧
            outputExtension first.source = outputExtension t.source)
  /-- Bare specifiers are fixed unless a module, or code without its extension or through its folder,
  goes by what they are rewritten to. -/
  bare : isRelative specifier = false →
    outputSpecifier index.references u specifier ∉ index.manifest.modules.keys →
    (∀ file ∈ index.files, IndexedFile.isCode file.entry.kind = true →
      outputSpecifier index.references u specifier ≠
          qualified file.moduleName (stem file.entry.path) ∧
        outputSpecifier index.references u specifier ∉ file.folderSpecifier) →
    index.IsFixed u specifier

/-- In the manifest of a snapshot it can be told of every specifier whether rewriting it twice is
rewriting it once. -/
theorem outputSpecifier_fixes (index : ManifestIndex) (taken : index.manifest.IsTaken) (u : Path)
    (specifier : String) : index.Fixes u specifier where
  iff := isFixed_iff index u specifier
  directory := fun relative _ resolved => isFixed_of_directory relative resolved
  file := fun relative named notTypings _ resolved file _ known isSource =>
    isFixed_iff_of_file taken known isSource relative named notTypings resolved file
  bare := isFixed_of_bare taken

/-! A module in which `a.mts` stands beside `a.ts`. -/

section Twins

def twinsDisk : Disk :=
  let file (name : String) : String × Item := (name, .file (.text "") 5)
  let folder (name : String) (entries : List (String × Item)) : String × Item :=
    (name, .folder entries 5)
  ⟨[folder "w" [folder "src" [file "a.mts", file "a.ts", file "u.ts"]]]⟩

def twinsModule : Module :=
  { linkedModule with files := [(.src, [⟨"src/a.mts", .source, 5, none, []⟩,
      ⟨"src/a.ts", .source, 5, none, []⟩, ⟨"src/u.ts", .source, 5, none, []⟩])] }

def twinsIndex : ManifestIndex :=
  .ofManifest ⟨"/m"⟩ { linkedManifest with modules := [("w", twinsModule)] }

theorem isTaken_twins : twinsIndex.manifest.IsTaken := by
  have taken : (Snapshot.take twinsDisk linkedSettings true 9
      (.single { name := "w", dir := ⟨"/w"⟩, main := true, workspace := true }) .empty).2 =
        .ok twinsIndex.manifest := eq_ok_of_toOption (by decide +kernel)
  exact ⟨_, _, _, _, _, _, by decide, .empty, taken⟩

end Twins

/-- The import of `a.ts` is fixed, and that of `a.mts` becomes one of the output of `a.ts`. -/
theorem outputSpecifier_fixes_twins :
    let u : Path := ⟨"/w/src/u.ts"⟩
    let rewritten := outputSpecifier twinsIndex.references u
    twinsIndex.manifest.IsTaken ∧ (twinsIndex.bySource? u).isSome = true ∧
      twinsIndex.IsFixed u "./a" ∧ ¬ twinsIndex.IsFixed u "./a.mts" ∧
      rewritten "./a.mts" = "./a.mjs" ∧ rewritten "./a.mjs" = "./a.js" := by
  intro u rewritten
  let plain : IndexedFile := .ofEntry twinsModule .src ⟨"src/a.ts", .source, 5, none, []⟩
  let twin : IndexedFile := .ofEntry twinsModule .src ⟨"src/a.mts", .source, 5, none, []⟩
  have all : (∀ file ∈ [plain, twin], file ∈ twinsIndex.files) ∧
      (twinsIndex.bySource? u).isSome = true ∧
      twinsIndex.resolve? u "./a" = some ⟨plain.source, .file, some "w"⟩ ∧
      twinsIndex.resolve? u "./a.mts" = some ⟨twin.source, .file, some "w"⟩ ∧
      (∀ specifier ∈ ["./a", "./a.mts"],
        (sourceExtensions.findSome? fun ending =>
            twinsIndex.fileAt? u (withExtension specifier ending)) = some plain ∧
          twinsIndex.fileAt? u (rewritten specifier) = none) ∧
      rewritten "./a.mts" = "./a.mjs" ∧ rewritten "./a.mjs" = "./a.js" := by
    decide +kernel
  obtain ⟨known, isUnit, found, foundTwin, first, becomes⟩ := all
  obtain ⟨isFirst, _⟩ := first "./a" (by simp)
  obtain ⟨isFirstToo, nowhere⟩ := first "./a.mts" (by simp)
  have ofPlain := (outputSpecifier_fixes twinsIndex isTaken_twins u "./a").file (by decide)
    ⟨"a", by decide⟩ (by decide) _ found rfl plain (known plain (by simp)) rfl rfl
  have ofTwin := (outputSpecifier_fixes twinsIndex isTaken_twins u "./a.mts").file (by decide)
    ⟨"a.mts", by decide⟩ (by decide) _ foundTwin rfl twin (known twin (by simp)) rfl rfl
  refine ⟨isTaken_twins, isUnit, ofPlain.mpr (.inr ⟨plain, isFirst, rfl⟩), ?_, becomes⟩
  rw [ofTwin, isFirstToo, nowhere]
  rintro (none | ⟨other, same, extension⟩)
  · cases none
  · cases same
    exact absurd extension (by decide)

end ManifestIndex

end WorkspaceBuild
