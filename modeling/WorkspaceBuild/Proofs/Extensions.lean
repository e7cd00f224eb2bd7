import WorkspaceBuild.Imports
import WorkspaceBuild.ManifestIndex
import WorkspaceBuild.Proofs.Path.Folding

/-! # Extensions

Resolution strips extensions from paths, outputs exchange them, and specifiers are rewritten with
those of outputs. What each does to a name depends on the name alone, not on the folders before it,
and for sources all three agree.
-/

namespace WorkspaceBuild

namespace Text

theorem dropStartChars?_append (start rest : List Char) :
    dropStartChars? start (start ++ rest) = some rest := by
  induction start with
  | nil => rfl
  | cons c start ih => simp [dropStartChars?, ih]

theorem dropEnd?_eq_some_iff {text ending stem : String} :
    dropEnd? text ending = some stem ↔ text = stem ++ ending := by
  refine ⟨eq_of_dropEnd?, ?_⟩
  rintro rfl
  simp [dropEnd?, dropStartChars?_append]

theorem beginsWith_append (start rest : String) : beginsWith (start ++ rest) start = true := by
  simp [beginsWith, dropStart?, dropStartChars?_append]

theorem endsWith_iff {text ending : String} :
    endsWith text ending = true ↔ ∃ start, text = start ++ ending := by
  rw [endsWith, Option.isSome_iff_exists]
  exact exists_congr fun start => dropEnd?_eq_some_iff

theorem cutChars?_append {separator : Char} {before : List Char} (plain : separator ∉ before)
    (after : List Char) : cutChars? separator (before ++ separator :: after) = some (before, after) := by
  induction before with
  | nil => simp [cutChars?]
  | cons c before ih =>
      obtain ⟨other, later⟩ := not_or.mp (mt List.mem_cons.mpr plain)
      simp [cutChars?, Ne.symm other, ih later]

theorem eq_of_cutChars? {separator : Char} {text before after : List Char}
    (cut : cutChars? separator text = some (before, after)) :
    text = before ++ separator :: after := by
  induction text generalizing before with
  | nil => cases cut
  | cons c rest ih =>
      rw [cutChars?] at cut
      split at cut
      · rename_i same
        cases cut
        simp [same]
      · obtain ⟨⟨first, last⟩, inner, same⟩ := Option.map_eq_some_iff.mp cut
        cases same
        simp [ih inner]

theorem eq_of_cutLast? {separator : Char} {text before after : String}
    (cut : cutLast? separator text = some (before, after)) :
    text = before ++ String.singleton separator ++ after := by
  obtain ⟨⟨behind, front⟩, inner, same⟩ := Option.map_eq_some_iff.mp cut
  cases same
  have reversed := congrArg List.reverse (eq_of_cutChars? inner)
  rw [List.reverse_reverse] at reversed
  rw [← String.toList_inj, reversed]
  simp

theorem cutLast?_append {separator : Char} {after : String} (plain : separator ∉ after.toList)
    (before : String) :
    cutLast? separator (before ++ String.singleton separator ++ after) = some (before, after) := by
  have cut : cutChars? separator (after.toList.reverse ++ separator :: before.toList.reverse) = _ :=
    cutChars?_append (by simpa using plain) _
  simp [cutLast?, cut]

theorem joined_pieces (separator : Char) (text : String) :
    joined (String.singleton separator) (pieces separator text) = text := by
  rw [← String.toList_inj]
  simp [joined, pieces, Function.comp_def, List.intercalate_splitOn]

end Text

namespace Path

/-- What stands before a name in a path: nothing, or text up to a slash. -/
def IsFront (front : String) : Prop := front = "" ∨ ∃ before, front = before ++ "/"

variable {front name last ending : String}

/-- An ending without a slash is found in the last name or not at all. -/
theorem dropEnd?_front (isFront : IsFront front) (name : String) (plain : '/' ∉ ending.toList) :
    Text.dropEnd? (front ++ name) ending = (Text.dropEnd? name ending).map (front ++ ·) := by
  cases found : Text.dropEnd? name ending with
  | some stem =>
      rw [Option.map_some, Text.dropEnd?_eq_some_iff, Text.eq_of_dropEnd? found,
        String.append_assoc]
  | none =>
      rw [Option.map_none, Option.eq_none_iff_forall_ne_some]
      intro stem dropped
      have whole := congrArg String.toList (Text.eq_of_dropEnd? dropped)
      rw [String.toList_append, String.toList_append] at whole
      have shorter (more : List Char) : name.toList ≠ more ++ ending.toList := by
        intro same
        have ends : name = String.ofList more ++ ending := by
          rw [← String.toList_inj, same]
          simp
        rw [Text.dropEnd?_eq_some_iff.mpr ends] at found
        cases found
      rcases List.append_eq_append_iff.mp whole with ⟨more, _, rest⟩ | ⟨more, before, rest⟩
      · exact shorter more rest
      · -- the ending begins in the front, which ends with a slash
        rcases List.eq_nil_or_concat more with rfl | ⟨others, c, rfl⟩
        · exact shorter [] rest.symm
        · rcases isFront with rfl | ⟨text, rfl⟩
          · simp at before
          · obtain rfl : '/' = c := by simpa using congrArg List.getLast? before
            exact plain (by simp [rest])

theorem dropEnding?_front (isFront : IsFront front) (name : String) {endings : List String}
    (plain : ∀ ending ∈ endings, '/' ∉ ending.toList) :
    Specifier.dropEnding? endings (front ++ name) =
      (Specifier.dropEnding? endings name).map (front ++ ·) := by
  induction endings with
  | nil => rfl
  | cons ending rest ih =>
      obtain ⟨here, later⟩ := List.forall_mem_cons.mp plain
      have tail := ih later
      rw [Specifier.dropEnding?] at tail ⊢
      rw [Specifier.dropEnding?, List.findSome?_cons, List.findSome?_cons,
        dropEnd?_front isFront name here]
      cases Text.dropEnd? name ending with
      | some stem => rfl
      | none => exact tail

/-- The last name of a path can be exchanged. -/
theorem exists_front_spell (parts : List String) :
    ∃ front, IsFront front ∧ ∀ last, spell (parts ++ [last]) = front ++ last := by
  cases parts with
  | nil => exact ⟨"", .inl rfl, fun last => by simp [spell, Text.joined]⟩
  | cons first rest =>
      exact ⟨spell (first :: rest) ++ "/", .inr ⟨_, rfl⟩, fun last =>
        Text.joined_append_singleton (by simp) "/" last⟩

theorem exists_front_ofComponents (before : List Component) :
    ∃ front, IsFront front ∧
      ∀ last, (ofComponents (before ++ [.name last])).text = front ++ last := by
  have named (all : List Component) (last : String) :
      (all ++ [Component.name last]).map Component.text = all.map Component.text ++ [last] := by
    simp [Component.text]
  obtain ⟨front, isFront, exchanged⟩ := exists_front_spell (before.map Component.text)
  cases before with
  | nil => exact ⟨front, isFront, exchanged⟩
  | cons first rest =>
      cases first with
      | root =>
          obtain ⟨front, isFront, exchanged⟩ := exists_front_spell (rest.map Component.text)
          refine ⟨"/" ++ front, .inr ?_, fun last => ?_⟩
          · rcases isFront with rfl | ⟨text, rfl⟩
            · exact ⟨"", rfl⟩
            · exact ⟨"/" ++ text, by rw [String.append_assoc]⟩
          · change "/" ++ Text.joined "/" ((rest ++ [Component.name last]).map Component.text) = _
            rw [named, String.append_assoc]
            exact congrArg ("/" ++ ·) (exchanged last)
      | current | parent | name =>
          refine ⟨front, isFront, fun last => ?_⟩
          rw [← exchanged last, ← named]
          rfl

/-- What ends in an extension is plain. -/
theorem isPlain_append {stem : String} (noSlash : '/' ∉ (stem ++ ending).toList)
    (long : 3 ≤ ending.length) : IsPlain (stem ++ ending) := by
  have longer (short : String) (fewer : short.length < 3) : stem ++ ending ≠ short := by
    rintro rfl
    rw [String.length_append] at fewer
    omega
  have notVoid : isVoid (stem ++ ending) = false := by
    simp [isVoid, longer "" (by decide), longer "." (by decide)]
  exact ⟨notVoid, longer ".." (by decide), noSlash⟩

end Path

namespace Specifier

variable {endings : List String} {front last ending stem text : String}

/-- No ending is the end of another one. -/
def AreApart (endings : List String) : Prop :=
  ∀ a ∈ endings, ∀ b ∈ endings, a.toList <:+ b.toList → a = b

theorem eq_of_append_eq (apart : AreApart endings) (listed : ending ∈ endings) {answer other : String}
    (alsoListed : other ∈ endings) (same : stem ++ ending = answer ++ other) :
    stem = answer ∧ ending = other := by
  have ends : ending = other := by
    have below : ending.toList <:+ (answer ++ other).toList :=
      ⟨stem.toList, by rw [← same, String.toList_append]⟩
    have alsoBelow : other.toList <:+ (answer ++ other).toList := ⟨answer.toList, by simp⟩
    rcases List.suffix_or_suffix_of_suffix below alsoBelow with inside | inside
    · exact apart _ listed _ alsoListed inside
    · exact (apart _ alsoListed _ listed inside).symm
  subst ends
  exact ⟨String.append_left_inj ending |>.mp same, rfl⟩

theorem dropEnding?_append (apart : AreApart endings) (listed : ending ∈ endings) (stem : String) :
    dropEnding? endings (stem ++ ending) = some stem := by
  have found : (dropEnding? endings (stem ++ ending)).isSome := by
    rw [dropEnding?, List.findSome?_isSome_iff]
    exact ⟨ending, listed, by rw [Text.dropEnd?_eq_some_iff.mpr rfl]; rfl⟩
  obtain ⟨answer, said⟩ := Option.isSome_iff_exists.mp found
  obtain ⟨other, alsoListed, dropped⟩ := List.exists_of_findSome?_eq_some said
  rw [said, (eq_of_append_eq apart listed alsoListed (Text.eq_of_dropEnd? dropped)).1]

theorem areApart_codeExtensions : AreApart codeExtensions := by
  unfold AreApart
  decide

/-- A text without the extension of code. -/
def codeStem (text : String) : String := (dropEnding? codeExtensions text).getD text

theorem codeStem_append (listed : ending ∈ codeExtensions) (stem : String) :
    codeStem (stem ++ ending) = stem := by
  rw [codeStem, dropEnding?_append areApart_codeExtensions listed, Option.getD_some]

theorem codeStem_front (isFront : Path.IsFront front) (name : String) :
    codeStem (front ++ name) = front ++ codeStem name := by
  rw [codeStem, codeStem, Path.dropEnding?_front isFront name (by decide)]
  cases dropEnding? codeExtensions name <;> rfl

/-- Without its extension a text keeps its beginning. -/
theorem exists_ending (text : String) :
    ∃ ending, '/' ∉ ending.toList ∧ text = codeStem text ++ ending := by
  cases found : dropEnding? codeExtensions text with
  | none => exact ⟨"", by decide, by rw [codeStem, found, Option.getD_none, String.append_empty]⟩
  | some stem =>
      obtain ⟨ending, listed, dropped⟩ := List.exists_of_findSome?_eq_some found
      have plain : ∀ ending ∈ codeExtensions, '/' ∉ ending.toList := by decide
      refine ⟨ending, plain _ listed, ?_⟩
      rw [codeStem, found, Option.getD_some, ← Text.eq_of_dropEnd? dropped]

theorem dropEnding?_typings (notTypings : isTypings text = false) :
    dropEnding? typingsExtensions text = none := by
  simp only [isTypings, Text.endsWith, Bool.or_eq_false_iff, Option.isSome_eq_false_iff,
    Option.isNone_iff_eq_none] at notTypings
  simp [dropEnding?, typingsExtensions, notTypings]

/-- Of what is not a declaration, resolution leaves out what rewriting exchanges. -/
theorem stem_front (isFront : Path.IsFront front) {before : String}
    (notTypings : isTypings (before ++ last) = false) (alsoFront : Path.IsFront before) :
    Specifier.stem (front ++ last) = front ++ codeStem last := by
  have plain : ∀ ending ∈ typingsExtensions, '/' ∉ ending.toList := by decide
  have none : dropEnding? typingsExtensions last = none := by
    have whole := dropEnding?_typings notTypings
    rwa [Path.dropEnding?_front alsoFront last plain, Option.map_eq_none_iff] at whole
  rw [Specifier.stem, Path.dropEnding?_front isFront last plain, none, Option.map_none, Option.getD_none]
  exact codeStem_front isFront last

end Specifier

/-! ## Outputs -/

/-- The extension that outputs have in place of an extension of sources. -/
def outputEnding : String → String
  | ".mts" => ".mjs"
  | ".cts" => ".cjs"
  | _ => ".js"

section

open Specifier

variable {front last stem ending : String} {path : Path}

theorem mem_codeExtensions (listed : ending ∈ sourceExtensions) : ending ∈ codeExtensions := by
  have all : ∀ ending ∈ sourceExtensions, ending ∈ codeExtensions := by decide
  exact all _ listed

theorem mem_codeExtensions_outputEnding (ending : String) : outputEnding ending ∈ codeExtensions := by
  unfold outputEnding
  split <;> decide

theorem isPlain_index (listed : ending ∈ codeExtensions) : Path.IsPlain ("index" ++ ending) := by
  have all : ∀ ending ∈ codeExtensions, '/' ∉ ("index" ++ ending).toList ∧ 3 ≤ ending.length := by decide
  obtain ⟨noSlash, long⟩ := all _ listed
  exact Path.isPlain_append noSlash long

/-- The index file of a folder stands in it by its name. -/
theorem append_index (folder ending : String) :
    folder ++ "/index" ++ ending = folder ++ "/" ++ ("index" ++ ending) := by
  rw [show "/index" = "/" ++ "index" from rfl]
  simp only [String.append_assoc]

theorem sound_outputEnding (ending : String) :
    '/' ∉ (outputEnding ending).toList ∧ 3 ≤ (outputEnding ending).length := by
  unfold outputEnding
  split <;> decide

theorem compiledPath_append (listed : ending ∈ sourceExtensions) (stem : String) :
    compiledPath (stem ++ ending) .source = stem ++ outputEnding ending := by
  have exchanged : ∀ pair ∈ compiledExtensions,
      pair.1 ∈ sourceExtensions ∧ pair.2 = outputEnding pair.1 := by decide
  have complete : ∀ ending ∈ sourceExtensions, (ending, outputEnding ending) ∈ compiledExtensions := by
    decide
  rw [compiledPath, if_pos rfl]
  generalize said : compiledExtensions.findSome? _ = answer
  cases answer with
  | none =>
      have missed := List.findSome?_eq_none_iff.mp said _ (complete _ listed)
      rw [Option.map_eq_none_iff, Text.dropEnd?_eq_some_iff.mpr rfl] at missed
      cases missed
  | some output =>
      obtain ⟨pair, member, made⟩ := List.exists_of_findSome?_eq_some said
      obtain ⟨answer, dropped, rfl⟩ := Option.map_eq_some_iff.mp made
      obtain ⟨isSource, compiled⟩ := exchanged pair member
      obtain ⟨rfl, rfl⟩ := eq_of_append_eq areApart_codeExtensions (mem_codeExtensions listed)
        (mem_codeExtensions isSource) (Text.eq_of_dropEnd? dropped)
      rw [Option.getD_some, compiled]

theorem compiledPath_front (isFront : Path.IsFront front) (name : String) (kind : FileKind) :
    compiledPath (front ++ name) kind = front ++ compiledPath name kind := by
  have plain : ∀ pair ∈ compiledExtensions, '/' ∉ pair.1.toList := by decide
  rw [compiledPath, compiledPath]
  split
  · revert plain
    induction compiledExtensions with
    | nil => exact fun _ => rfl
    | cons pair rest ih =>
        intro plain
        obtain ⟨here, later⟩ := List.forall_mem_cons.mp plain
        simp only [List.findSome?_cons, Path.dropEnd?_front isFront name here]
        cases Text.dropEnd? name pair.1 with
        | some stem => exact String.append_assoc
        | none => exact ih later
  · rfl

theorem isPlain_compiledPath {name : String} (plain : Path.IsPlain name) (kind : FileKind) :
    Path.IsPlain (compiledPath name kind) := by
  rcases compiledPath_cases name kind with same | ⟨stem, pair, listed, rfl, output⟩
  · rwa [same]
  · have long : ∀ pair ∈ compiledExtensions, 3 ≤ pair.2.length := by decide
    rw [output]
    refine Path.isPlain_append ?_ (long pair listed)
    have noSlash := plain.noSlash
    simp only [String.toList_append, List.mem_append, not_or] at noSlash ⊢
    exact ⟨noSlash.1, (noSlash_of_mem_compiledExtensions listed).2⟩

theorem isPlain_withExtension {name extension : String} (plain : Path.IsPlain name)
    (noSlash : '/' ∉ extension.toList) (long : 3 ≤ extension.length) :
    Path.IsPlain (withExtension name extension) := by
  obtain ⟨ending, _, whole⟩ := exists_ending name
  have stem : '/' ∉ (codeStem name).toList := by
    have noSlashName := plain.noSlash
    rw [whole, String.toList_append, List.mem_append, not_or] at noSlashName
    exact noSlashName.1
  have all : '/' ∉ (codeStem name ++ extension).toList := by
    rw [String.toList_append, List.mem_append, not_or]
    exact ⟨stem, noSlash⟩
  exact Path.isPlain_append all long

theorem extension?_of_fileName? {bare : String} (named : path.fileName? = some (stem ++ ending))
    (visible : stem ≠ "") (plain : '.' ∉ bare.toList) (same : ending = "." ++ bare) :
    path.extension? = some bare := by
  have cut := Text.cutLast?_append plain stem
  rw [String.append_assoc, show String.singleton '.' ++ bare = ending from same.symm] at cut
  rw [Path.extension?, named, Option.bind_some, Path.extensionOf?, cut]
  exact if_neg visible

theorem outputExtension_eq (named : path.fileName? = some (stem ++ ending))
    (listed : ending ∈ sourceExtensions) (visible : stem ≠ "") :
    outputExtension path = outputEnding ending := by
  have extension (bare : String) (plain : '.' ∉ bare.toList) (same : ending = "." ++ bare) :
      path.extension? = some bare := extension?_of_fileName? named visible plain same
  simp only [sourceExtensions, List.mem_cons, List.not_mem_nil, or_false] at listed
  rcases listed with rfl | rfl | rfl | rfl
  · rw [outputExtension, extension "ts" (by decide) rfl]
    rfl
  · rw [outputExtension, extension "tsx" (by decide) rfl]
    rfl
  · rw [outputExtension, extension "mts" (by decide) rfl]
    rfl
  · rw [outputExtension, extension "cts" (by decide) rfl]
    rfl

/-- The extensions that outputs can have. -/
def outputExtensions : List String := [".js", ".mjs", ".cjs"]

theorem mem_outputExtensions (path : Path) : outputExtension path ∈ outputExtensions := by
  unfold outputExtension
  split <;> decide

/-- What has the extension of an output already keeps it. -/
theorem outputExtension_of_output (named : path.fileName? = some (stem ++ ending))
    (listed : ending ∈ outputExtensions) (visible : stem ≠ "") : outputExtension path = ending := by
  have extension (bare : String) (plain : '.' ∉ bare.toList) (same : ending = "." ++ bare) :
      path.extension? = some bare := extension?_of_fileName? named visible plain same
  simp only [outputExtensions, List.mem_cons, List.not_mem_nil, or_false] at listed
  rcases listed with rfl | rfl | rfl
  · rw [outputExtension, extension "js" (by decide) rfl]
    rfl
  · rw [outputExtension, extension "mjs" (by decide) rfl]
    rfl
  · rw [outputExtension, extension "cjs" (by decide) rfl]
    rfl

theorem withExtension_front (isFront : Path.IsFront front) (name extension : String) :
    withExtension (front ++ name) extension = front ++ withExtension name extension := by
  change codeStem (front ++ name) ++ extension = front ++ (codeStem name ++ extension)
  rw [codeStem_front isFront, String.append_assoc]

theorem kindOfExtension_eq_source {extension : Option String}
    (source : kindOfExtension extension = .source) :
    ∃ bare, extension = some bare ∧ "." ++ bare ∈ sourceExtensions := by
  unfold kindOfExtension at source
  split at source
  · exact ⟨"ts", rfl, by decide⟩
  · exact ⟨"tsx", rfl, by decide⟩
  · exact ⟨"mts", rfl, by decide⟩
  · exact ⟨"cts", rfl, by decide⟩
  all_goals cases source

theorem kindOfExtension_of_source {path : String} {category : Category}
    (source : fileKind path category = .source) :
    kindOfExtension (Path.extension? ⟨path⟩) = .source := by
  unfold fileKind at source
  split at source
  iterate 4 cases source
  · split at source
    · cases source
    · exact source

/-- Sources are told by their extension. -/
theorem exists_of_source {path name : String} {category : Category}
    (named : Path.fileName? ⟨path⟩ = some name) (source : fileKind path category = .source) :
    ∃ stem, ∃ ending ∈ sourceExtensions, stem ≠ "" ∧ name = stem ++ ending := by
  obtain ⟨bare, said, listed⟩ := kindOfExtension_eq_source (kindOfExtension_of_source source)
  rw [Path.extension?, named, Option.bind_some, Path.extensionOf?] at said
  split at said
  · rename_i stem ending cut
    split at said
    · cases said
    · rename_i visible
      cases said
      refine ⟨stem, _, listed, visible, ?_⟩
      rw [Text.eq_of_cutLast? cut, String.append_assoc]
      rfl
  · cases said

end

end WorkspaceBuild
