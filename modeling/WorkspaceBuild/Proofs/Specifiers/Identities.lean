import WorkspaceBuild.Proofs.Dispatch.Scopes
import WorkspaceBuild.Proofs.Specifiers.Fixed

/-! # Identities

The id of a file is its name seen from outside its module, without the extension of code and with a
colon for the last slash. It is shared by the files that differ in nothing but that extension, and by
those whose own colons imitate the one that was put in. Classes are told apart by the id of their unit
and their name.
-/

namespace WorkspaceBuild

namespace Specifier

variable {name other folder last : String}

/-- A name with a colon for its last slash. -/
def withColon (name : String) : String :=
  match Text.cutLast? '/' name with
  | some (before, after) => before ++ ":" ++ after
  | none => name

/-- One name has a colon in its last part where the other one has its last slash. -/
def Imitates (name other : String) : Prop :=
  ∃ folder part last, '/' ∉ part.toList ∧ '/' ∉ last.toList ∧
    name = folder ++ "/" ++ (part ++ ":" ++ last) ∧ other = folder ++ ":" ++ part ++ "/" ++ last

theorem withColon_append (plain : '/' ∉ last.toList) (folder : String) :
    withColon (folder ++ "/" ++ last) = folder ++ ":" ++ last := by
  have cut : Text.cutLast? '/' (folder ++ "/" ++ last) = some (folder, last) :=
    Text.cutLast?_append plain folder
  rw [withColon, cut]

theorem exists_last (slash : '/' ∈ name.toList) :
    ∃ folder last, '/' ∉ last.toList ∧ name = folder ++ "/" ++ last := by
  obtain ⟨behind, front, split, plain⟩ :=
    List.eq_append_cons_of_mem (List.mem_reverse.mpr slash)
  refine ⟨String.ofList front.reverse, String.ofList behind.reverse, by simpa using plain, ?_⟩
  have whole := congrArg List.reverse split
  rw [← String.toList_inj]
  simpa using whole

/-- Of two colons in a text, one is the other or stands behind it. -/
theorem colon_cases {folder' last' : String}
    (same : folder ++ ":" ++ last = folder' ++ ":" ++ last') :
    (folder = folder' ∧ last = last') ∨
      (∃ part, last = part ++ ":" ++ last' ∧ folder' = folder ++ ":" ++ part) ∨
      ∃ part, last' = part ++ ":" ++ last ∧ folder = folder' ++ ":" ++ part := by
  have chars := congrArg String.toList same
  simp only [String.toList_append, List.append_assoc, show ":".toList = [':'] from rfl,
    List.singleton_append] at chars
  -- what stands between the colons is cut out of both texts
  have between {front back front' back' : String} {more : List Char}
      (longer : front'.toList = front.toList ++ more)
      (rest : ':' :: back.toList = more ++ ':' :: back'.toList) :
      (front = front' ∧ back = back') ∨
        ∃ part, back = part ++ ":" ++ back' ∧ front' = front ++ ":" ++ part := by
    cases more with
    | nil =>
        rw [List.append_nil] at longer
        exact .inl ⟨(String.toList_inj.mp longer).symm, String.toList_inj.mp (List.cons.inj rest).2⟩
    | cons c more =>
        obtain ⟨rfl, further⟩ := List.cons.inj rest
        refine .inr ⟨String.ofList more, ?_, ?_⟩
        · rw [← String.toList_inj, further]
          simp
        · rw [← String.toList_inj, longer]
          simp
  obtain ⟨more, longer, rest⟩ | ⟨more, longer, rest⟩ := List.append_eq_append_iff.mp chars
  · obtain equal | apart := between longer rest
    · exact .inl equal
    · exact .inr (.inl apart)
  · obtain ⟨folders, lasts⟩ | apart := between longer rest
    · exact .inl ⟨folders.symm, lasts.symm⟩
    · exact .inr (.inr apart)

/-- Names share the text with a colon when they are equal or one imitates the other. -/
theorem withColon_eq_iff (slash : '/' ∈ name.toList) (slashOther : '/' ∈ other.toList) :
    withColon name = withColon other ↔
      name = other ∨ Imitates name other ∨ Imitates other name := by
  have imitated {name other : String} (imitates : Imitates name other) :
      withColon name = withColon other := by
    obtain ⟨folder, part, last, plainPart, plain, rfl, rfl⟩ := imitates
    have plainWhole : '/' ∉ (part ++ ":" ++ last).toList := by
      simp [plainPart, plain]
    rw [withColon_append plainWhole, withColon_append plain]
    simp only [String.append_assoc]
  constructor
  · intro same
    obtain ⟨folder, last, plain, rfl⟩ := exists_last slash
    obtain ⟨folder', last', plain', rfl⟩ := exists_last slashOther
    rw [withColon_append plain, withColon_append plain'] at same
    obtain ⟨rfl, rfl⟩ | ⟨part, rfl, rfl⟩ | ⟨part, rfl, rfl⟩ := colon_cases same
    · exact .inl rfl
    · have plainPart : '/' ∉ part.toList := by
        simp only [String.toList_append, List.mem_append, not_or] at plain
        exact plain.1.1
      exact .inr (.inl ⟨folder, part, last', plainPart, plain', rfl, rfl⟩)
    · have plainPart : '/' ∉ part.toList := by
        simp only [String.toList_append, List.mem_append, not_or] at plain'
        exact plain'.1.1
      exact .inr (.inr ⟨folder', part, last, plainPart, plain, rfl, rfl⟩)
  · rintro (rfl | imitates | imitates)
    · rfl
    · exact imitated imitates
    · exact (imitated imitates).symm

theorem slash_mem_qualified (name path : String) : '/' ∈ (qualified name path).toList := by
  rw [toList_qualified]
  exact List.mem_append_right _ List.mem_cons_self

end Specifier

namespace IndexedFile

open Specifier

/-- The name of a file seen from outside its module, without the extension of code. -/
def bareName (file : IndexedFile) : String := qualified file.moduleName (codeStem file.entry.path)

theorem slash_mem_bareName (file : IndexedFile) : '/' ∈ file.bareName.toList :=
  slash_mem_qualified _ _

theorem id_ofEntry (m : Module) (category : Category) (entry : FileEntry) :
    (ofEntry m category entry).id = withColon (ofEntry m category entry).bareName := rfl

theorem IsSpelled.codeStem_eq {t : IndexedFile} {folders : List String} {stem ending : String}
    (spelled : t.IsSpelled folders stem ending) :
    t.entry.path = codeStem t.entry.path ++ ending := by
  obtain ⟨front, isFront, exchanged⟩ := Path.exists_front_spell folders
  rw [spelled.path, exchanged, codeStem_front isFront,
    codeStem_append (mem_codeExtensions spelled.isSource), String.append_assoc]

end IndexedFile

namespace Registrations

variable {semantic : SemanticModel} {references : References} {levels : Nat} {u : SourceUnit}
  {name id : String}

/-- The id that a call of the registry gives to a class. -/
def registeredId? : Statement → Option String
  | .expression (.call _ [_, .literal (.string id), _]) => some id
  | _ => none

/-- Transformed by the built-in plugins, the unit registers a class of the name under the id. -/
def Registers (semantic : SemanticModel) (references : References) (u : SourceUnit)
    (name id : String) : Prop :=
  ∃ levels out placed head members call,
    (Dispatcher.transform ⟨builtin, semantic, references, levels⟩ u ()).1 = .ok out ∧
      Places semantic references u out placed ∧ (some (.identity head members), call) ∈ placed ∧
      head.name = name ∧ registeredId? call = some id

theorem IsTrace.call_eq {annotated : List Decorator → Bool} {unitId : String}
    {types : TypeResolver.Scope} {statements : List Statement} {trace : List Traced}
    (traces : IsTrace annotated unitId types statements trace) {r : Registration} {s : Statement}
    (listed : (some r, s) ∈ trace) : r.call unitId types = .ok s := by
  induction traces with
  | nil => cases listed
  | cons owed made later ih =>
      rw [List.cons_append, List.mem_cons, List.mem_append] at listed
      obtain isFirst | here | there := listed
      · cases isFirst
      · exact made r s here
      · exact ih there

/-- A class is registered under the id of its unit and its name. -/
theorem Registers.id_eq (registers : Registers semantic references u name id) :
    id = (references.idOf u.path).getD u.path.text ++ ":" ++ name := by
  obtain ⟨levels, out, placed, head, members, call, _, places, listed, rfl, known⟩ := registers
  obtain ⟨trace, traces, same⟩ := places.trace
  have notImport : call.isImport = false := by
    cases isImport : call.isImport with
    | false => rfl
    | true => cases places.added _ listed isImport
  have traced : (some (.identity head members), call) ∈ trace := by
    have kept : (some (Registration.identity head members), call) ∈
        placed.filter (!·.2.isImport) := List.mem_filter.mpr ⟨listed, by simp [notImport]⟩
    rw [same] at kept
    exact (List.mem_filter.mp kept).1
  cases traces.call_eq traced
  cases known
  rfl

/-- The result of a transformation says which registration each statement was added for. -/
theorem exists_places (seen : Dispatcher.isPassthrough references u.path = false) {out : SourceUnit}
    (made : (Dispatcher.transform ⟨builtin, semantic, references, levels⟩ u ()).1 = .ok out) :
    ∃ placed trace, Places semantic references u out placed ∧
      IsTrace (isAnnotated semantic u.path) ((references.idOf u.path).getD u.path.text)
        ⟨semantic.types, references⟩ u.statements trace ∧
      placed.filter (!·.2.isImport) = trace.filter (!·.2.isImport) := by
  rw [transform_eq semantic references levels u () seen] at made
  cases passed : onePass semantic references u with
  | error e =>
      rw [passed] at made
      cases made
  | ok groups =>
      rw [passed] at made
      obtain rfl : woven semantic references u groups = out := Except.ok.inj made
      obtain ⟨trace, whole, traces⟩ := exists_isTrace passed
      have same : notImports (woven semantic references u groups).statements =
          (trace.filter (!·.2.isImport)).map Prod.snd := by
        rw [woven, Imports.notImports_finalize, notImports, ← whole, List.filter_map]
        rfl
      have noImports : ∀ entry ∈ trace.filter (!·.2.isImport), entry.2.isImport = false := by
        intro entry listed
        simpa using (List.mem_filter.mp listed).2
      obtain ⟨placed, all, filtered, added⟩ := exists_traced noImports same
      exact ⟨placed, trace, ⟨all, added, trace, traces, filtered⟩, traces, filtered⟩

theorem IsTrace.exists_call {annotated : List Decorator → Bool} {unitId : String}
    {types : TypeResolver.Scope} {statements : List Statement} {trace : List Traced}
    (traces : IsTrace annotated unitId types statements trace) {s : Statement} {r : Registration}
    (listed : s ∈ statements) (among : r ∈ ofStatement annotated s) :
    ∃ call, (some r, call) ∈ trace := by
  induction traces with
  | nil => cases listed
  | @cons first rest calls trace owed made later ih =>
      obtain rfl | there := List.mem_cons.mp listed
      · have owedToo : some r ∈ calls.map Prod.fst := by
          rw [owed]
          exact List.mem_map_of_mem among
        obtain ⟨⟨mark, call⟩, isCall, rfl⟩ := List.mem_map.mp owedToo
        exact ⟨call, List.mem_cons_of_mem _ (List.mem_append_left _ isCall)⟩
      · obtain ⟨call, isTraced⟩ := ih there
        exact ⟨call, List.mem_cons_of_mem _ (List.mem_append_right _ isTraced)⟩

/-- Every class of a unit is registered, at whatever depth it is declared. -/
theorem registers_of_mem (seen : Dispatcher.isPassthrough references u.path = false)
    {out : SourceUnit}
    (made : (Dispatcher.transform ⟨builtin, semantic, references, levels⟩ u ()).1 = .ok out)
    {s : Statement} {head : ClassHead} {members : List ClassMember} (listed : s ∈ u.statements)
    (declared : .identity head members ∈ ofStatement (isAnnotated semantic u.path) s) :
    Registers semantic references u head.name
      ((references.idOf u.path).getD u.path.text ++ ":" ++ head.name) := by
  obtain ⟨placed, trace, places, traces, filtered⟩ := exists_places seen made
  obtain ⟨call, traced⟩ := traces.exists_call listed declared
  have called := traces.call_eq traced
  have kept : (some (Registration.identity head members), call) ∈
      trace.filter (!·.2.isImport) :=
    List.mem_filter.mpr ⟨traced, by simp [(className?_of_call called).2]⟩
  rw [← filtered] at kept
  cases called
  exact ⟨levels, out, placed, head, members, _, made, places, (List.mem_filter.mp kept).1, rfl, rfl⟩

end Registrations

namespace ManifestIndex

open Specifier

variable {index : ManifestIndex} {file : IndexedFile}

theorem byId?_eq_some_iff {id : String} : index.byId? id = some file ↔
    file.id = id ∧ ∃ before after, index.files = before ++ file :: after ∧ ∀ g ∈ after, g.id ≠ id := by
  rw [byId?, lastFile?, List.getLast?_filter, List.find?_eq_some_iff_append, decide_eq_true_eq]
  apply and_congr_right
  intro same
  constructor
  · rintro ⟨after, before, split, others⟩
    refine ⟨before.reverse, after.reverse, ?_, ?_⟩
    · have whole := congrArg List.reverse split
      simpa using whole
    · intro g listed
      simpa using others g (List.mem_reverse.mp listed)
  · rintro ⟨before, after, split, others⟩
    refine ⟨after.reverse, before.reverse, by simp [split], ?_⟩
    intro g listed
    simpa using others g (List.mem_reverse.mp listed)

/-- A colon before a name without one is found in one way. -/
theorem colon_inj {unit unit' name name' : String} (plain : ':' ∉ name.toList)
    (plain' : ':' ∉ name'.toList) :
    unit ++ ":" ++ name = unit' ++ ":" ++ name' ↔ unit = unit' ∧ name = name' := by
  constructor
  · intro same
    obtain equal | ⟨part, rfl, _⟩ | ⟨part, rfl, _⟩ := colon_cases same
    · exact equal
    · simp at plain
    · simp at plain'
  · rintro ⟨rfl, rfl⟩
    rfl

/-- What the identities of an index tell apart. -/
structure HasIdentities (index : ManifestIndex) : Prop where
  same_iff : ∀ f ∈ index.files, ∀ g ∈ index.files, f.id = g.id ↔
    (f.moduleName = g.moduleName ∧ codeStem f.entry.path = codeStem g.entry.path) ∨
      Imitates f.bareName g.bareName ∨ Imitates g.bareName f.bareName
  source : ∀ f ∈ index.files, f.isSource = true →
    ∃ ending ∈ sourceExtensions, f.entry.path = codeStem f.entry.path ++ ending
  found_iff : ∀ f ∈ index.files, index.byId? f.id = some f ↔
    ∃ before after, index.files = before ++ f :: after ∧ ∀ g ∈ after, g.id ≠ f.id
  classes_iff : ∀ (semantic semantic' : SemanticModel) (u u' : SourceUnit) (f g : IndexedFile),
    index.bySource? u.path = some f → index.bySource? u'.path = some g →
      ∀ name name' id id', Registrations.Registers semantic index.references u name id →
        Registrations.Registers semantic' index.references u' name' id' →
          ':' ∉ name.toList → ':' ∉ name'.toList → (id = id' ↔ f.id = g.id ∧ name = name')

theorem id_eq_withColon (listed : file ∈ index.files) : file.id = withColon file.bareName := by
  rw [index.files_eq, Manifest.indexedFiles, List.mem_flatMap] at listed
  obtain ⟨m, _, among⟩ := listed
  obtain ⟨⟨category, entry⟩, _, rfl⟩ := List.mem_map.mp among
  exact IndexedFile.id_ofEntry m category entry

/-- Files share their id when they share their path without extension, or when a colon in the name of
one imitates that of the other. -/
theorem hasIdentities (index : ManifestIndex) (taken : index.manifest.IsTaken)
    (apart : ∀ name ∈ index.manifest.modules.keys, ∀ other ∈ index.manifest.modules.keys,
      name = other ∨ AreNamedApart name other) : index.HasIdentities where
  same_iff := by
    intro f known g alsoKnown
    rw [id_eq_withColon known, id_eq_withColon alsoKnown,
      withColon_eq_iff f.slash_mem_bareName g.slash_mem_bareName]
    apply or_congr_left
    have key {file : IndexedFile} (known : file ∈ index.files) :
        file.moduleName ∈ index.manifest.modules.keys := by
      rw [index.files_eq] at known
      obtain ⟨m, _, _, _, _, named, _, _, rfl, _⟩ := taken.exists_entries known known rfl
      exact Assoc.mem_keys_of_get? named
    constructor
    · exact qualified_inj (apart _ (key known) _ (key alsoKnown))
    · rintro ⟨sameModule, sameStem⟩
      rw [IndexedFile.bareName, IndexedFile.bareName, sameModule, sameStem]
  source := by
    intro f known isSource
    rw [index.files_eq] at known
    obtain ⟨folders, stem, ending, spelled, _⟩ := taken.exists_isSpelled known isSource
    exact ⟨ending, spelled.isSource, spelled.codeStem_eq⟩
  found_iff := by
    intro f _
    rw [byId?_eq_some_iff, and_iff_right rfl]
  classes_iff := by
    intro semantic semantic' u u' f g found foundToo name name' id id' registers registersToo
      plain plain'
    have idOf {path : Path} {file : IndexedFile} (found : index.bySource? path = some file) :
        (index.references.idOf path).getD path.text = file.id := by
      change ((index.bySource? path).map IndexedFile.id).getD path.text = file.id
      rw [found]
      rfl
    rw [registers.id_eq, registersToo.id_eq, idOf found, idOf foundToo, colon_inj plain plain']

/-! Sources of one stem. -/

section Twins

def plainTwin : IndexedFile := .ofEntry twinsModule .src ⟨"src/a.ts", .source, 5, none, []⟩

def otherTwin : IndexedFile := .ofEntry twinsModule .src ⟨"src/a.mts", .source, 5, none, []⟩

/-- A unit that declares one class. -/
def unitAt (path : Path) : SourceUnit := ⟨path, [.classDecl ⟨"A", true, [], none⟩ []]⟩

theorem mem_files_twins : otherTwin ∈ twinsIndex.files ∧ plainTwin ∈ twinsIndex.files := by
  decide +kernel

theorem areNamedApart_twins : ∀ name ∈ twinsIndex.manifest.modules.keys,
    ∀ other ∈ twinsIndex.manifest.modules.keys, name = other ∨ AreNamedApart name other := by
  have alone : ∀ name ∈ twinsIndex.manifest.modules.keys, name = "w" := by decide
  intro name listed other also
  exact .inl ((alone name listed).trans (alone other also).symm)

theorem registers_twins : ∀ file ∈ [otherTwin, plainTwin],
    Registrations.Registers (.ofTables [] [] []) twinsIndex.references (unitAt file.source) "A"
      "w/src:a:A" := by
  intro file listed
  have known : Dispatcher.isPassthrough twinsIndex.references (unitAt file.source).path = false ∧
      (twinsIndex.references.idOf file.source).getD file.source.text = "w/src:a" := by
    revert file
    decide +kernel
  have made := Registrations.transform_eq (.ofTables [] [] []) twinsIndex.references 0
    (unitAt file.source) () known.1
  have declared : .identity ⟨"A", true, [], none⟩ [] ∈ Registrations.ofStatement
      (Registrations.isAnnotated (.ofTables [] [] []) (unitAt file.source).path)
      (.classDecl ⟨"A", true, [], none⟩ []) := List.mem_cons_self
  have registers := Registrations.registers_of_mem known.1 (congrArg Prod.fst made)
    List.mem_cons_self declared
  rw [show (unitAt file.source).path = file.source from rfl, known.2] at registers
  exact registers

/-- Two sources of one stem have one id, which finds the last of them, and register classes of one
name under one id. -/
theorem not_byId?_twins : twinsIndex.manifest.IsTaken ∧
    (∀ name ∈ twinsIndex.manifest.modules.keys, ∀ other ∈ twinsIndex.manifest.modules.keys,
      name = other ∨ AreNamedApart name other) ∧
    (otherTwin ∈ twinsIndex.files ∧ plainTwin ∈ twinsIndex.files) ∧
    otherTwin.isSource = true ∧ plainTwin.isSource = true ∧ otherTwin ≠ plainTwin ∧
    otherTwin.id = plainTwin.id ∧ twinsIndex.byId? otherTwin.id ≠ some otherTwin ∧
    ∀ file ∈ [otherTwin, plainTwin],
      Registrations.Registers (.ofTables [] [] []) twinsIndex.references (unitAt file.source) "A"
        "w/src:a:A" := by
  have found : twinsIndex.byId? otherTwin.id = some plainTwin := by decide +kernel
  have differ : otherTwin ≠ plainTwin := by
    intro equal
    exact absurd (congrArg (·.entry.path) equal) (by decide)
  have same : otherTwin.id = plainTwin.id := by decide +kernel
  refine ⟨isTaken_twins, areNamedApart_twins, mem_files_twins, rfl, rfl, differ, same, ?_,
    registers_twins⟩
  rw [found]
  intro equal
  exact differ (Option.some_inj.mp equal).symm

theorem hasIdentities_twins : twinsIndex.manifest.IsTaken ∧
    (∀ name ∈ twinsIndex.manifest.modules.keys, ∀ other ∈ twinsIndex.manifest.modules.keys,
      name = other ∨ AreNamedApart name other) ∧ twinsIndex.HasIdentities ∧
    twinsIndex.byId? plainTwin.id = some plainTwin := by
  have tells := hasIdentities twinsIndex isTaken_twins areNamedApart_twins
  have last : ∃ before after, twinsIndex.files = before ++ plainTwin :: after ∧
      ∀ g ∈ after, g.id ≠ plainTwin.id :=
    ⟨[otherTwin], [.ofEntry twinsModule .src ⟨"src/u.ts", .source, 5, none, []⟩], rfl, by decide +kernel⟩
  exact ⟨isTaken_twins, areNamedApart_twins, tells,
    (tells.found_iff plainTwin mem_files_twins.2).mpr last⟩

end Twins

end ManifestIndex

end WorkspaceBuild
