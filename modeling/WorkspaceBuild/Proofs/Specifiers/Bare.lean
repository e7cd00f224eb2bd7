import WorkspaceBuild.Proofs.Specifiers

/-! # Bare specifiers

A bare specifier names a module and one of its files. A file goes by its path, code also by its path
without extension, by its output and, as the index file of a folder, by this. A specifier reaches the
first file that goes by it.
-/

namespace WorkspaceBuild

namespace Text

theorem occursIn_append (part before after : List Char) :
    occursIn part (before ++ (part ++ after)) = true := by
  induction before with
  | nil =>
      cases part with
      | nil => cases after <;> simp [occursIn, dropStartChars?]
      | cons c rest =>
          rw [List.nil_append, List.cons_append, occursIn, ← List.cons_append,
            dropStartChars?_append]
          rfl
  | cons c before ih => rw [List.cons_append, occursIn, ih, Bool.or_true]

theorem contains_append (before part after : String) :
    contains (before ++ (part ++ after)) part = true := by
  rw [contains, String.toList_append, String.toList_append]
  exact occursIn_append _ _ _

theorem pieces_append_index (folder : String) :
    pieces '/' (folder ++ "/index") = pieces '/' folder ++ ["index"] := by
  have single : pieces '/' "index" = ["index"] := pieces_eq_singleton (by decide)
  rw [show "/index" = "/" ++ "index" from rfl, ← String.append_assoc, pieces_append_slash, single]

end Text

/-- What may stand after the stem of a name: nothing, or text that starts with a dot. -/
def IsExtra (text : String) : Prop := text = "" ∨ ∃ rest, text = "." ++ rest

theorem isExtra_of_head? {text : String} (dot : text.toList.head? = some '.') : IsExtra text := by
  obtain ⟨rest, same⟩ := List.head?_eq_some_iff.mp dot
  refine .inr ⟨String.ofList rest, ?_⟩
  rw [← String.toList_inj, same, String.toList_append, @String.toList_ofList rest]
  rfl

theorem IsExtra.append {left right : String} (first : IsExtra left) (second : IsExtra right) :
    IsExtra (left ++ right) := by
  rcases first with rfl | ⟨rest, rfl⟩
  · rwa [String.empty_append]
  · exact .inr ⟨rest ++ right, String.append_assoc⟩

/-- What stands after the name of an index file tells that it is named. -/
theorem IsExtra.names_index {more : String} (extra : IsExtra more) (front : String) :
    Text.endsWith (front ++ "/index" ++ more) "/index" = true ∨
      Text.contains (front ++ "/index" ++ more) "/index." = true := by
  rcases extra with rfl | ⟨rest, rfl⟩
  · exact .inl (Text.endsWith_iff.mpr ⟨front, String.append_empty⟩)
  · have split : front ++ "/index" ++ ("." ++ rest) = front ++ ("/index." ++ rest) := by
      rw [String.append_assoc, show "/index." = "/index" ++ "." from rfl, String.append_assoc]
    exact .inr (split ▸ Text.contains_append _ _ _)

namespace Specifier

variable {front ending text : String}

theorem stem_of_front (isFront : Path.IsFront front) (name : String) :
    stem (front ++ name) = front ++ stem name := by
  rw [stem, stem, Path.dropEnding?_front isFront name (by decide),
    Path.dropEnding?_front isFront name (by decide)]
  cases dropEnding? typingsExtensions name with
  | some bare => rfl
  | none => cases dropEnding? codeExtensions name <;> rfl

theorem stem_spell (dirs : List String) (last : String) :
    stem (Path.spell (dirs ++ [last])) = Path.spell (dirs ++ [stem last]) := by
  obtain ⟨front, isFront, exchanged⟩ := Path.exists_front_spell dirs
  rw [exchanged, exchanged, stem_of_front isFront]

theorem eq_or_exists_ending (text : String) : text = stem text ∨
    ∃ ending ∈ typingsExtensions ++ codeExtensions, text = stem text ++ ending := by
  cases typings : dropEnding? typingsExtensions text with
  | some bare =>
      obtain ⟨ending, listed, dropped⟩ := List.exists_of_findSome?_eq_some typings
      refine .inr ⟨ending, List.mem_append_left _ listed, ?_⟩
      rw [stem, typings, Option.getD_some, ← Text.eq_of_dropEnd? dropped]
  | none =>
      cases code : dropEnding? codeExtensions text with
      | some bare =>
          obtain ⟨ending, listed, dropped⟩ := List.exists_of_findSome?_eq_some code
          refine .inr ⟨ending, List.mem_append_right _ listed, ?_⟩
          rw [stem, typings, code, Option.getD_none, Option.getD_some, ← Text.eq_of_dropEnd? dropped]
      | none => exact .inl (by rw [stem, typings, code, Option.getD_none, Option.getD_none])

/-- An extension starts with a dot. -/
theorem exists_extra (text : String) :
    ∃ more, IsExtra more ∧ '/' ∉ more.toList ∧ text = stem text ++ more := by
  have dotted : ∀ ending ∈ typingsExtensions ++ codeExtensions,
      '/' ∉ ending.toList ∧ ending.toList.head? = some '.' := by decide
  rcases eq_or_exists_ending text with bare | ⟨ending, listed, whole⟩
  · exact ⟨"", .inl rfl, by decide, by rw [← bare, String.append_empty]⟩
  · obtain ⟨plain, dot⟩ := dotted ending listed
    exact ⟨ending, isExtra_of_head? dot, plain, whole⟩

end Specifier

theorem Path.isPlain_stem_append {last ending : String} (noSlash : '/' ∉ last.toList)
    (listed : ending ∈ Specifier.sourceExtensions) : Path.IsPlain (Specifier.stem last ++ ending) := by
  have sound : ∀ ending ∈ Specifier.sourceExtensions,
      '/' ∉ ending.toList ∧ 3 ≤ ending.length := by decide
  refine Path.isPlain_append ?_ (sound ending listed).2
  obtain ⟨more, _, _, whole⟩ := Specifier.exists_extra last
  rw [whole, String.toList_append, List.mem_append, not_or] at noSlash
  rw [String.toList_append, List.mem_append, not_or]
  exact ⟨noSlash.1, (sound ending listed).1⟩

/-! ## Names of modules -/

/-- Neither of two module names leads to the other one. -/
structure AreNamedApart (name other : String) : Prop where
  notAbove : Text.beginsWith other (name ++ "/") = false
  notBelow : Text.beginsWith name (other ++ "/") = false

namespace Specifier

variable {name other p path : String}

theorem toList_qualified (name path : String) :
    (qualified name path).toList = name.toList ++ ('/' :: path.toList) := by
  rw [qualified, String.append_assoc, String.toList_append, String.toList_append]
  exact congrArg (name.toList ++ ·) List.singleton_append

theorem begins_of_toList {more : List Char} (same : other.toList = name.toList ++ ('/' :: more)) :
    Text.beginsWith other (name ++ "/") = true := by
  have whole : other = name ++ "/" ++ String.ofList more := by
    rw [← String.toList_inj, same, String.append_assoc, String.toList_append, String.toList_append,
      @String.toList_ofList more]
    rfl
  exact whole ▸ Text.beginsWith_append _ _

/-- What module and which of its files a bare specifier names is told where names lead apart. -/
theorem qualified_inj (apart : name = other ∨ AreNamedApart name other)
    (same : qualified name p = qualified other path) : name = other ∧ p = path := by
  have whole := congrArg String.toList same
  rw [toList_qualified, toList_qualified] at whole
  have onwards (names : name = other) : name = other ∧ p = path := by
    subst names
    have later := List.append_cancel_left whole
    exact ⟨rfl, String.toList_inj.mp (List.cons.inj later).2⟩
  rcases apart with names | ⟨notAbove, notBelow⟩
  · exact onwards names
  rcases List.append_eq_append_iff.mp whole with ⟨more, longer, rest⟩ | ⟨more, longer, rest⟩
  · cases more with
    | nil => exact onwards (String.toList_inj.mp (by rw [longer, List.append_nil]))
    | cons c more =>
        obtain ⟨rfl, _⟩ := List.cons.inj rest
        rw [begins_of_toList longer] at notAbove
        cases notAbove
  · cases more with
    | nil => exact onwards (String.toList_inj.mp (by rw [longer, List.append_nil]))
    | cons c more =>
        obtain ⟨rfl, _⟩ := List.cons.inj rest
        rw [begins_of_toList longer] at notBelow
        cases notBelow

theorem qualified_ne (apart : name = other ∨ AreNamedApart name other) :
    qualified name p ≠ other := by
  intro same
  have whole := (congrArg String.toList same).symm
  rw [toList_qualified] at whole
  rcases apart with rfl | apart
  · have longer := congrArg List.length whole
    rw [List.length_append, List.length_cons] at longer
    omega
  · have begins := begins_of_toList whole
    rw [apart.notAbove] at begins
    cases begins

end Specifier

/-! ## What a bare specifier reaches -/

namespace Specifier

variable {path p name : String} {kind : ReferenceKind}

/-- The texts that, below its module, a file at a path goes by. -/
inductive Keyed (path : String) : String → Prop
  | exact : Keyed path path
  | stem : Keyed path (stem path)
  | output (kind : FileKind) : Keyed path (compiledPath path kind)
  | folder {p : String} (index : Specifier.stem path = p ++ "/index") : Keyed path p

/-- Without its extension the name of a scanned file is a name still, as it is not hidden. -/
theorem isPlain_stem (seen : Scan.IsSeen name) : Path.IsPlain (stem name) := by
  obtain ⟨more, extra, _, whole⟩ := exists_extra name
  have visible (rest : String) : name ≠ "." ++ rest := by
    rintro rfl
    have kept := seen.notSkipped
    rw [Scan.isSkipped, Text.beginsWith_append] at kept
    cases kept
  have noSlash := seen.noSlash
  rw [whole, String.toList_append, List.mem_append, not_or] at noSlash
  refine ⟨?_, ?_, noSlash.1⟩
  · rw [Path.isVoid, Bool.or_eq_false_iff, decide_eq_false_iff_not, decide_eq_false_iff_not]
    refine ⟨fun empty => ?_, fun dot => ?_⟩
    · rw [empty, String.empty_append] at whole
      rcases extra with rfl | ⟨rest, rfl⟩
      · exact seen.ne_empty whole
      · exact visible rest whole
    · rw [dot] at whole
      exact visible more whole
  · intro dots
    rw [dots, show ".." = "." ++ "." from rfl, String.append_assoc] at whole
    exact visible _ whole

end Specifier

namespace IndexedFile

variable {m : Module} {category : Category} {entry : FileEntry} {name p : String}

theorem mem_specifiers_iff {file : IndexedFile} {specifier : String} : specifier ∈ file.specifiers ↔
    specifier = Specifier.qualified file.moduleName file.entry.path ∨
      isCode file.entry.kind = true ∧
        (specifier = Specifier.qualified file.moduleName (Specifier.stem file.entry.path) ∨
          specifier = Specifier.qualified file.moduleName file.entry.outputPath ∨
          specifier ∈ file.folderSpecifier) := by
  rw [specifiers, List.mem_cons]
  refine or_congr_right ?_
  split
  · rename_i code
    simp [code]
  · rename_i other
    simp [other]

/-- Apart from the name of its module, an index file goes by the path of its folder. -/
theorem exists_of_mem_folderSpecifier {file : IndexedFile} {specifier : String}
    (listed : specifier ∈ file.folderSpecifier) (other : specifier ≠ file.moduleName) :
    ∃ front, Specifier.stem file.entry.path = front ++ "/index" ∧
      specifier = Specifier.qualified file.moduleName front := by
  rw [folderSpecifier] at listed
  split at listed
  · exact absurd (List.mem_singleton.mp listed) other
  · rw [Option.mem_toList, Option.map_eq_some_iff] at listed
    obtain ⟨front, dropped, same⟩ := listed
    exact ⟨front, Text.eq_of_dropEnd? dropped, same.symm⟩

theorem keyed_of_mem_specifiers (apart : name = m.name ∨ AreNamedApart name m.name)
    (listed : Specifier.qualified name p ∈ (ofEntry m category entry).specifiers) :
    name = m.name ∧ Specifier.Keyed entry.path p := by
  have below {path : String} (same : Specifier.qualified name p = Specifier.qualified m.name path)
      (keyed : Specifier.Keyed entry.path path) : name = m.name ∧ Specifier.Keyed entry.path p := by
    obtain ⟨names, rfl⟩ := Specifier.qualified_inj apart same
    exact ⟨names, keyed⟩
  rcases mem_specifiers_iff.mp listed with exact | ⟨_, stem | output | folder⟩
  · exact below exact .exact
  · exact below stem .stem
  · exact below output (.output _)
  · obtain ⟨front, index, same⟩ := exists_of_mem_folderSpecifier folder (Specifier.qualified_ne apart)
    exact below same (.folder index)

end IndexedFile

/-! ## Which file it is -/

/-- Whether a specifier names an index file. -/
def Specifier.NamesIndex (specifier : String) : Prop :=
  Text.endsWith specifier "/index" = true ∨ Text.contains specifier "/index." = true

namespace Specifier

variable {p path name : String}

theorem namesIndex_qualified {front more : String} (extra : IsExtra more)
    (same : p = front ++ "/index" ++ more) : NamesIndex (qualified name p) := by
  have whole : qualified name p = qualified name front ++ "/index" ++ more := by
    rw [same, qualified, qualified]
    simp only [String.append_assoc]
  exact whole ▸ extra.names_index _

end Specifier

namespace ManifestIndex

open Specifier

variable {index : ManifestIndex} {specifier : String} {source : Path} {far : ResolvedReference}

theorem bySpecifier?_eq_some_iff {file : IndexedFile} : index.bySpecifier? specifier = some file ↔
    specifier ∈ file.specifiers ∧ ∃ before after, index.files = before ++ file :: after ∧
      ∀ other ∈ before, specifier ∉ other.specifiers := by
  rw [bySpecifier?, List.find?_eq_some_iff_append]
  simp

/-- What a bare specifier means is the first file that goes by it. -/
theorem resolve?_bare_iff (bare : isRelative specifier = false) :
    index.resolve? source specifier = some far ↔ ∃ file, index.bySpecifier? specifier = some file ∧
      far = ⟨file.source, if index.reachesFolder specifier file then .directory else .file,
        some file.moduleName⟩ := by
  simp only [resolve?, bare, Bool.false_eq_true, if_false, resolveBare?, Option.map_map,
    Option.map_eq_some_iff]
  exact exists_congr fun file => and_congr_right fun _ => eq_comm

theorem reachesFolder_iff (unnamed : specifier ∉ index.manifest.modules.keys) (file : IndexedFile) :
    index.reachesFolder specifier file = true ↔
      (∃ front, stem file.entry.path = front ++ "/index") ∧ ¬ NamesIndex specifier := by
  have absent : Assoc.has index.manifest.modules specifier = false := by
    rwa [Bool.eq_false_iff, ne_eq, Assoc.has_iff]
  rw [reachesFolder, absent, Bool.false_or, NamesIndex, ← Text.endsWith_iff]
  simp [and_assoc]

/-! A module in which `a.js` stands beside `a.ts`, and a folder `index` has an index file. -/

section Siblings

def siblingsDisk : Disk :=
  let file (name : String) : String × Item := (name, .file (.text "") 5)
  let folder (name : String) (entries : List (String × Item)) : String × Item :=
    (name, .folder entries 5)
  ⟨[folder "w" [folder "src" [file "a.js", file "a.ts", folder "index" [file "index.ts"]]]]⟩

def siblingsModule : Module :=
  { linkedModule with files := [(.src, [⟨"src/a.js", .compiled, 5, none, []⟩,
      ⟨"src/a.ts", .source, 5, none, []⟩, ⟨"src/index/index.ts", .source, 5, none, []⟩])] }

def siblingsManifest : Manifest := { linkedManifest with modules := [("w", siblingsModule)] }

theorem isTaken_siblings : siblingsManifest.IsTaken := by
  have taken : (Snapshot.take siblingsDisk linkedSettings true 9
      (.single { name := "w", dir := ⟨"/w"⟩, main := true, workspace := true }) .empty).2 =
        .ok siblingsManifest := eq_ok_of_toOption (by decide +kernel)
  exact ⟨_, _, _, _, _, _, by decide, .empty, taken⟩

def siblingsIndex : ManifestIndex := .ofManifest ⟨"/m"⟩ siblingsManifest

end Siblings

end ManifestIndex

end WorkspaceBuild
