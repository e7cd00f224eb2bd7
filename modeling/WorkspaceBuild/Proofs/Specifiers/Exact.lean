import WorkspaceBuild.Proofs.Categories
import WorkspaceBuild.Proofs.Manifests.Ordered
import WorkspaceBuild.Proofs.Specifiers.Bare

/-! # Exact specifiers

Several files can go by one specifier, and the first of them is what it reaches. The path of a file
reaches the file itself: those that go by it under another name have an extension that comes later,
or the file would have to be a folder. Only the descriptor of a module, which stands in a later
category than its sources, can be taken for one of them.
-/

namespace WorkspaceBuild

namespace Path

/-- Exchanging the end of a text for a later one brings a path later. -/
theorem pieces_append_lt {first second : String} (stem : String) (plain : '/' ∉ first.toList)
    (alsoPlain : '/' ∉ second.toList) (less : first < second) :
    Text.pieces '/' (stem ++ first) < Text.pieces '/' (stem ++ second) := by
  obtain ⟨before, last, rfl, noSlash⟩ := exists_segments stem
  obtain ⟨front, _, exchanged⟩ := exists_front_spell before
  have pieces {more : String} (plain : '/' ∉ more.toList) :
      Text.pieces '/' (spell (before ++ [last]) ++ more) = before ++ [last ++ more] := by
    rw [exchanged, String.append_assoc, ← exchanged]
    refine Text.pieces_joined (by simp) fun part listed => ?_
    rcases List.mem_append.mp listed with above | end_
    · exact noSlash part (List.mem_append_left _ above)
    · rw [List.mem_singleton.mp end_, String.toList_append, List.mem_append, not_or]
      exact ⟨noSlash last (by simp), plain⟩
  have lastLess : last ++ first < last ++ second := by
    rw [String.lt_iff_toList_lt, String.toList_append, String.toList_append]
    exact List.append_left_lt (String.lt_iff_toList_lt.mp less)
  rw [pieces plain, pieces alsoPlain]
  exact List.append_left_lt (List.cons_lt_cons_iff.mpr (.inl lastLess))

end Path

namespace Module

variable {first second : Category × FileEntry} {text ending other : String}

/-- Of files with one stem that with the later ending does not come first, unless the other one is
the descriptor of the module. -/
theorem not_precedes_of_lt (listed : ending ∈ "" :: codeEndings) (alsoListed : other ∈ codeEndings)
    (less : ending < other) (path : second.2.path = text ++ ending)
    (alsoPath : first.2.path = text ++ other) (notDescriptor : second.2.path ≠ descriptorFile)
    (filed : (classify second.2.path).map Prod.fst = some second.1)
    (alsoFiled : (classify first.2.path).map Prod.fst = some first.1) : ¬ Precedes first second := by
  intro precedes
  rw [path] at filed notDescriptor
  rw [alsoPath] at alsoFiled
  obtain ⟨⟨category, role⟩, said, same⟩ := Option.map_eq_some_iff.mp filed
  obtain ⟨⟨later, otherRole⟩, alsoSaid, alsoSame⟩ := Option.map_eq_some_iff.mp alsoFiled
  rcases precedes.order with earlier | ⟨_, earlier⟩
  · have notLater := isLE_of_classify listed alsoListed notDescriptor said alsoSaid
    rw [show category = second.1 from same, show later = first.1 from alsoSame,
      ← Std.OrientedCmp.isGE_iff_isLE, earlier] at notLater
    cases notLater
  · rw [path, alsoPath] at earlier
    exact absurd earlier (lt_asymm (Path.pieces_append_lt text (noSlash_of_mem_codeEndings listed)
      (noSlash_of_mem_codeEndings (List.mem_cons_of_mem _ alsoListed)) less))

/-- No file that comes before another goes by its path. -/
theorem Precedes.not_keyed (precedes : Precedes first second)
    (notDescriptor : second.2.path ≠ descriptorFile)
    (filed : (classify second.2.path).map Prod.fst = some second.1)
    (alsoFiled : (classify first.2.path).map Prod.fst = some first.1) :
    ¬ Specifier.Keyed first.2.path second.2.path := by
  have later {text ending other : String} (listed : ending ∈ "" :: codeEndings)
      (alsoListed : other ∈ codeEndings) (less : ending < other)
      (path : second.2.path = text ++ ending) (alsoPath : first.2.path = text ++ other) : False :=
    not_precedes_of_lt listed alsoListed less path alsoPath notDescriptor filed alsoFiled precedes
  have same (path : second.2.path = first.2.path) : False :=
    precedes.apart.notThrough (path ▸ List.prefix_refl _)
  have longer : ∀ ending ∈ codeEndings, "" < ending := by decide
  have compiled : ∀ pair ∈ compiledExtensions,
      pair.1 ∈ codeEndings ∧ pair.2 ∈ codeEndings ∧ pair.2 < pair.1 := by decide
  intro keyed
  generalize path : second.2.path = p at keyed
  cases keyed with
  | exact => exact same path
  | stem =>
      rcases Specifier.eq_or_exists_ending first.2.path with bare | ⟨ending, listed, whole⟩
      · exact same (path.trans bare.symm)
      · exact later List.mem_cons_self listed (longer ending listed)
          (path.trans String.append_empty.symm) whole
  | output kind =>
      rcases compiledPath_cases first.2.path kind with kept | ⟨stem, pair, listed, whole, output⟩
      · exact same (path.trans kept)
      · obtain ⟨isSource, isOutput, less⟩ := compiled pair listed
        exact later (List.mem_cons_of_mem _ isOutput) isSource less (path.trans output) whole
  | folder index =>
      -- the file would stand where the folder of the index file does
      obtain ⟨more, _, _, whole⟩ := Specifier.exists_extra first.2.path
      refine precedes.apart.notBehind ?_
      rw [path, whole, index, append_index]
      exact Path.pieces_prefix_append _ _

end Module

namespace ManifestIndex

variable {index : ManifestIndex} {f : IndexedFile}

/-- No file that comes before another one goes by its path, unless that one is the descriptor of its
module. -/
theorem pairwise_files (taken : index.manifest.IsTaken)
    (apart : ∀ name ∈ index.manifest.modules.keys, ∀ other ∈ index.manifest.modules.keys,
      name = other ∨ AreNamedApart name other) :
    index.files.Pairwise fun first second => second.entry.path ≠ descriptorFile →
      Specifier.qualified second.moduleName second.entry.path ∉ first.specifiers := by
  obtain ⟨ascending, modules⟩ := taken.modules
  have named {pair : String × Module} (listed : pair ∈ index.manifest.modules) :
      index.manifest.module? pair.1 = some pair.2 := Assoc.get?_of_mem ascending.nodup listed
  have key {pair : String × Module} (listed : pair ∈ index.manifest.modules) :
      pair.2.name = pair.1 := (modules _ _ (named listed)).1
  rw [index.files_eq, Manifest.indexedFiles, List.pairwise_flatMap, Assoc.values, List.pairwise_map]
  constructor
  · intro m member
    obtain ⟨pair, listed, rfl⟩ := List.mem_map.mp member
    obtain ⟨_, scanned⟩ := modules _ _ (named listed)
    rw [List.pairwise_map]
    refine (taken.isInOrder (named listed)).imp_of_mem
      fun {first second} member also precedes notDescriptor goes => ?_
    obtain ⟨_, keyed⟩ := IndexedFile.keyed_of_mem_specifiers (.inl rfl) goes
    exact precedes.not_keyed notDescriptor (scanned.filed _ _ also).1 (scanned.filed _ _ member).1 keyed
  · refine (List.pairwise_map.mp ascending.nodup).imp_of_mem
      fun {first second} listed also different file here other there _ goes => ?_
    obtain ⟨⟨category, entry⟩, _, rfl⟩ := List.mem_map.mp here
    obtain ⟨⟨otherCategory, otherEntry⟩, _, rfl⟩ := List.mem_map.mp there
    have names := apart _ (List.mem_map_of_mem also) _ (List.mem_map_of_mem listed)
    rw [← key listed, ← key also] at names
    obtain ⟨same, _⟩ := IndexedFile.keyed_of_mem_specifiers names goes
    exact different (by rw [← key listed, ← key also, same])

/-- Where the names of modules lead apart, the name of a module and the path of a file in it reach
that file, whatever else goes by this text, unless the file is the descriptor of the module. -/
theorem bySpecifier?_qualified (index : ManifestIndex) (taken : index.manifest.IsTaken)
    (apart : ∀ name ∈ index.manifest.modules.keys, ∀ other ∈ index.manifest.modules.keys,
      name = other ∨ AreNamedApart name other)
    (known : f ∈ index.files) (notDescriptor : f.entry.path ≠ descriptorFile) :
    index.bySpecifier? (Specifier.qualified f.moduleName f.entry.path) = some f := by
  obtain ⟨before, after, split⟩ := List.append_of_mem known
  have inOrder := pairwise_files taken apart
  rw [split, List.pairwise_append] at inOrder
  refine bySpecifier?_eq_some_iff.mpr ⟨List.mem_cons_self, before, after, split, fun other early => ?_⟩
  exact inOrder.2.2 other early f List.mem_cons_self notDescriptor

/-- The output of `a.ts` goes by the path of `a.js`, which reaches `a.js` still. -/
theorem bySpecifier?_qualified_siblings :
    let source : IndexedFile := .ofEntry siblingsModule .src ⟨"src/a.ts", .source, 5, none, []⟩
    let compiled : IndexedFile := .ofEntry siblingsModule .src ⟨"src/a.js", .compiled, 5, none, []⟩
    siblingsIndex.manifest.IsTaken ∧ (∀ file ∈ [source, compiled], file ∈ siblingsIndex.files) ∧
      (∀ file ∈ [source, compiled], "w/src/a.js" ∈ file.specifiers) ∧
      siblingsIndex.bySpecifier? "w/src/a.js" = some compiled ∧
      siblingsIndex.bySpecifier? "w/src/a.ts" = some source := by
  intro source compiled
  have known : ∀ file ∈ [source, compiled], file ∈ siblingsIndex.files := by decide +kernel
  have alone : ∀ name ∈ siblingsIndex.manifest.modules.keys, name = "w" := by decide +kernel
  have apart : ∀ name ∈ siblingsIndex.manifest.modules.keys,
      ∀ other ∈ siblingsIndex.manifest.modules.keys, name = other ∨ AreNamedApart name other :=
    fun name listed other also => .inl ((alone name listed).trans (alone other also).symm)
  exact ⟨isTaken_siblings, known, by decide +kernel,
    bySpecifier?_qualified siblingsIndex isTaken_siblings apart (known compiled (by simp)) (by decide),
    bySpecifier?_qualified siblingsIndex isTaken_siblings apart (known source (by simp)) (by decide)⟩

end ManifestIndex

end WorkspaceBuild
