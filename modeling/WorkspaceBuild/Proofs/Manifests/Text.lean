import WorkspaceBuild.Manifest.Json
import WorkspaceBuild.Proofs.Json.Decoded
import WorkspaceBuild.Proofs.Snapshot

/-! # The text of a manifest

A manifest is read back from its text, if its tables are in order and its times take 64 bits. What
is a set, the roles and the parents of a module, comes back ascending.
-/

namespace WorkspaceBuild

namespace Json

section Lists

variable {α : Type} {decode : Json → Option α} {encode : α → Json} {items : List α}

theorem mapM_map_eq_some (back : ∀ item ∈ items, decode (encode item) = some item) :
    (items.map encode).mapM decode = some items := by
  induction items with
  | nil => rfl
  | cons item rest ih =>
      obtain ⟨here, later⟩ := List.forall_mem_cons.mp back
      rw [List.map_cons, List.mapM_cons, here, ih later]
      rfl

theorem list?_settled (back : ∀ item ∈ items, decode (settled (encode item)) = some item) :
    list? decode (settled (.array (items.map encode))) = some items := by
  rw [settled, settledItems_eq, List.map_map]
  exact mapM_map_eq_some back

theorem isKept_list {depth : Nat} (kept : ∀ item ∈ items, IsKept depth (encode item)) :
    IsKept (depth + 1) (.array (items.map encode)) := by
  refine isKept_array fun value listed => ?_
  obtain ⟨item, member, rfl⟩ := List.mem_map.mp listed
  exact kept item member

end Lists

theorem mapM_eq_filterMap {α β : Type} {f : α → Option β} {xs : List α}
    (all : ∀ x ∈ xs, (f x).isSome) : xs.mapM f = some (xs.filterMap f) := by
  induction xs with
  | nil => rfl
  | cons x rest ih =>
      obtain ⟨here, later⟩ := List.forall_mem_cons.mp all
      obtain ⟨y, found⟩ := Option.isSome_iff_exists.mp here
      rw [List.mapM_cons, found, ih later, List.filterMap_cons_some found]
      rfl

/-- Reading a table member by member gives back the table that was written, in whatever order its
members came to stand when they were settled. -/
theorem ofPairs_mapM_settled {κ α β : Type} [Ord κ] [Std.LawfulEqOrd κ] [Std.TransOrd κ]
    [DecidableEq κ] {table : Assoc κ α} {write : κ × α → String × Json}
    {decode : String × Json → Option (κ × β)} (change : κ × α → κ × β)
    (distinct : (Assoc.keys (table.map write)).Nodup)
    (ascending : IsAscending (Assoc.keys (table.map change)))
    (back : ∀ pair ∈ table, decode ((write pair).1, settled (write pair).2) = some (change pair)) :
    ((Assoc.ofPairs (settledMembers (table.map write))).mapM decode).map Assoc.ofPairs =
      some (table.map change) := by
  have members (member : String × Json) :
      member ∈ Assoc.ofPairs (settledMembers (table.map write)) ↔
        ∃ pair ∈ table, ((write pair).1, settled (write pair).2) = member := by
    rw [settledMembers_eq, Assoc.mem_ofPairs (by rwa [Assoc.keys_mapValues]), Assoc.mapValues,
      List.map_map, List.mem_map]
    rfl
  have all : ∀ member ∈ Assoc.ofPairs (settledMembers (table.map write)),
      (decode member).isSome := by
    intro member listed
    obtain ⟨pair, present, rfl⟩ := (members member).mp listed
    rw [back pair present]
    rfl
  rw [mapM_eq_filterMap all, Option.map_some]
  refine congrArg some (Assoc.ofPairs_eq_of_mem ascending fun pair => ?_)
  rw [List.mem_filterMap, List.mem_map]
  constructor
  · rintro ⟨member, listed, decoded⟩
    obtain ⟨source, present, rfl⟩ := (members member).mp listed
    rw [back source present] at decoded
    exact ⟨source, present, Option.some_inj.mp decoded⟩
  · rintro ⟨source, present, rfl⟩
    exact ⟨_, (members _).mpr ⟨source, present, rfl⟩, back source present⟩

theorem choice?_name {α : Type} {ofName? : String → Option α} (name : String) :
    choice? ofName? (.string name) = ofName? name := rfl

end Json

open Json

theorem textsOfJson?_settled (texts : List String) :
    textsOfJson? (settled (.array (texts.map .string))) = some texts :=
  list?_settled fun _ _ => rfl

theorem isKept_texts {depth : Nat} (texts : List String) :
    IsKept (depth + 1) (.array (texts.map .string)) :=
  isKept_list fun text _ => isKept_string text

/-- An optional list is absent when it is empty. -/
theorem defaulted?_listMember (name : String) (texts : List String) :
    defaulted? [] textsOfJson? ((Assoc.get? (listMember name texts) name).map settled) =
      some texts := by
  rw [listMember]
  cases texts with
  | nil => rfl
  | cons text rest =>
      rw [List.isEmpty_cons, if_neg Bool.false_ne_true, Assoc.get?_cons, if_pos (beq_self_eq_true name)]
      exact textsOfJson?_settled (text :: rest)

theorem isKept_listMember {depth : Nat} (name : String) (texts : List String) :
    ∀ member ∈ listMember name texts, IsKept (depth + 1) member.2 := by
  rw [listMember]
  split
  · simp
  · simpa using isKept_texts texts

namespace FileEntry

variable {entry : FileEntry}

theorem isKept_toJson (fits : entry.updated < wordLimit) (depth : Nat) :
    IsKept (depth + 2) entry.toJson := by
  refine isKept_object fun member listed => ?_
  rw [List.append_assoc, List.mem_append, List.mem_append] at listed
  rcases listed with fixed | role | profiles
  · simp only [List.mem_cons, List.not_mem_nil, or_false] at fixed
    rcases fixed with rfl | rfl | rfl
    · exact isKept_string _
    · exact isKept_string _
    · exact isKept_whole fits
  · split at role
    · obtain rfl := List.mem_singleton.mp role
      exact isKept_string _
    · cases role
  · exact isKept_listMember "profiles" entry.profiles member profiles

theorem ofJson?_toJson (fits : entry.updated < wordLimit) :
    ofJson? (settled entry.toJson) = some entry := by
  obtain ⟨path, kind, updated, role, profiles⟩ := entry
  have updatedBack : natBelow? wordLimit (.whole updated) = some updated := by
    simpa [natBelow?] using fits
  have roleBack : absentOr? (choice? Role.ofName?)
      ((role.map fun role => Json.string role.name).map settled) = some role := by
    cases role with
    | none => rfl
    | some role => exact congrArg (Option.map some) (Role.ofName?_name role)
  have fields : fields? [("path", .required), ("type", .required), ("updated", .required),
      ("role", .defaulted), ("profiles", .defaulted)]
      (toJson ⟨path, kind, updated, role, profiles⟩) =
        some [some (.string path), some (.string kind.name), some (.whole updated),
          role.map fun role => .string role.name,
          Assoc.get? (listMember "profiles" profiles) "profiles"] := by
    cases role <;> cases profiles <;> rfl
  rw [ofJson?, toJson, fields?_settled]
  · rw [toJson] at fields
    rw [fields]
    simp only [Option.map_some, List.map_cons, List.map_nil, settled, bind, Option.bind, text?,
      choice?_name, FileKind.ofName?_name, updatedBack, roleBack, defaulted?_listMember]
    rfl
  · cases role <;> cases profiles <;> simp [Assoc.keys, listMember]

end FileEntry

section Files

variable {files : Assoc Category (List FileEntry)}

theorem Category.name_injective : Function.Injective Category.name := by
  intro first second same
  have answers := congrArg Category.ofName? same
  rw [Category.ofName?_name, Category.ofName?_name] at answers
  exact Option.some_inj.mp answers

/-- The times of all files take 64 bits. -/
def filesFit (files : Assoc Category (List FileEntry)) : Prop :=
  ∀ pair ∈ files, ∀ entry ∈ pair.2, entry.updated < wordLimit

theorem isKept_filesToJson (fit : filesFit files) (depth : Nat) :
    IsKept (depth + 4) (filesToJson files) := by
  refine isKept_object fun member listed => ?_
  obtain ⟨pair, present, rfl⟩ := List.mem_map.mp listed
  exact isKept_list fun entry there => FileEntry.isKept_toJson (fit pair present entry there) depth

/-- The files of a module are read back, ordered by the names of categories in between. -/
theorem filesOfJson?_settled (ascending : IsAscending files.keys) (fit : filesFit files) :
    filesOfJson? (settled (filesToJson files)) = some files := by
  have distinct : (Assoc.keys (files.map fun pair =>
      (pair.1.name, Json.array (pair.2.map FileEntry.toJson)))).Nodup := by
    have names := ascending.nodup.map Category.name_injective
    rwa [Assoc.keys, List.map_map] at names ⊢
  have kept : IsAscending (Assoc.keys (files.map id)) := by rwa [List.map_id]
  refine (ofPairs_mapM_settled id distinct kept fun pair listed => ?_).trans
    (congrArg some (List.map_id files))
  have entries : list? FileEntry.ofJson? (settled (.array (pair.2.map FileEntry.toJson))) =
      some pair.2 :=
    list?_settled fun entry there => FileEntry.ofJson?_toJson (fit pair listed entry there)
  simp only [Category.ofName?_name, entries]
  rfl

end Files

namespace Module

/-- The module with its roles and parents as sets. -/
def asRead (m : Module) : Module :=
  { m with roles := WorkspaceBuild.ascending m.roles, parents := WorkspaceBuild.ascending m.parents }

variable {m : Module}

theorem isKept_toJson (fit : filesFit m.files) (depth : Nat) : IsKept (depth + 5) m.toJson := by
  refine isKept_object fun member listed => ?_
  rw [List.append_assoc, List.mem_append, List.mem_append, List.mem_singleton] at listed
  rcases listed with fixed | profiles | rfl
  · simp only [List.mem_cons, List.not_mem_nil, or_false] at fixed
    rcases fixed with rfl | rfl | rfl | rfl | rfl | rfl | rfl | rfl | rfl | rfl
    · exact isKept_string _
    · exact isKept_string _
    · exact isKept_string _
    · exact isKept_string _
    · exact isKept_bool _
    · exact isKept_bool _
    · exact isKept_bool _
    · exact isKept_bool _
    · exact isKept_list fun role _ => isKept_string role.name
    · exact isKept_texts m.parents
  · exact isKept_listMember "profiles" m.profiles member profiles
  · exact isKept_filesToJson fit depth

theorem ofJson?_toJson (ascending : IsAscending m.files.keys) (fit : filesFit m.files) :
    ofJson? (settled m.toJson) = some m.asRead := by
  obtain ⟨name, version, source, output, main, workspace, internal, prod, roles, parents, profiles,
    files⟩ := m
  have rolesBack : list? (choice? Role.ofName?)
      (settled (.array (roles.map fun role => .string role.name))) = some roles :=
    list?_settled fun role _ => Role.ofName?_name role
  have fields : fields? [("name", .required), ("version", .required), ("source", .required),
      ("output", .required), ("main", .required), ("workspace", .required),
      ("internal", .required), ("prod", .required), ("roles", .required), ("parents", .required),
      ("profiles", .defaulted), ("files", .required)]
      (toJson ⟨name, version, source, output, main, workspace, internal, prod, roles, parents,
        profiles, files⟩) =
        some [some (.string name), some (.string version), some source.toJson, some output.toJson,
          some (.bool main), some (.bool workspace), some (.bool internal), some (.bool prod),
          some (.array (roles.map fun role => .string role.name)),
          some (.array (parents.map .string)),
          Assoc.get? (listMember "profiles" profiles) "profiles", some (filesToJson files)] := by
    cases profiles <;> rfl
  rw [ofJson?, toJson, fields?_settled]
  · rw [toJson] at fields
    rw [fields]
    simp only [Option.map_some, List.map_cons, List.map_nil, bind, Option.bind, Path.toJson, rolesBack,
      textsOfJson?_settled, defaulted?_listMember, filesOfJson?_settled ascending fit]
    rfl
  · cases profiles <;> simp [Assoc.keys, listMember]

end Module

namespace WorkspaceInfo

theorem isKept_toJson (info : WorkspaceInfo) (depth : Nat) : IsKept (depth + 1) info.toJson := by
  refine isKept_object fun member listed => ?_
  simp only [List.mem_cons, List.not_mem_nil, or_false] at listed
  rcases listed with rfl | rfl | rfl | rfl
  · exact isKept_string _
  · exact isKept_string _
  · exact isKept_bool _
  · exact isKept_string _

theorem ofJson?_toJson (info : WorkspaceInfo) : ofJson? (settled info.toJson) = some info := by
  rw [ofJson?, toJson, fields?_settled (by simp [Assoc.keys])]
  have fields : fields? [("path", .required), ("name", .required), ("monorepo", .required),
      ("packageManager", .required)] info.toJson =
        some [some info.path.toJson, some (.string info.name), some (.bool info.monorepo),
          some (.string info.packageManager.name)] := rfl
  rw [toJson] at fields
  rw [fields]
  simp only [Option.map_some, List.map_cons, List.map_nil, bind, Option.bind, settled, choice?_name,
    PackageManager.ofName?_name]
  rfl

end WorkspaceInfo

namespace BuildPaths

theorem isKept_toJson (paths : BuildPaths) (depth : Nat) : IsKept (depth + 1) paths.toJson := by
  refine isKept_object fun member listed => ?_
  rw [List.mem_append] at listed
  rcases listed with fixed | url
  · simp only [List.mem_cons, List.not_mem_nil, or_false] at fixed
    rcases fixed with rfl | rfl | rfl | rfl <;> exact isKept_string _
  · split at url
    · obtain rfl := List.mem_singleton.mp url
      exact isKept_string _
    · cases url

theorem ofJson?_toJson (paths : BuildPaths) : ofJson? (settled paths.toJson) = some paths := by
  obtain ⟨compilerOutput, output, tool, types, url⟩ := paths
  cases url with
  | none =>
      rw [ofJson?, toJson, fields?_settled (by simp [Assoc.keys])]
      rfl
  | some url =>
      rw [ofJson?, toJson, fields?_settled (by simp [Assoc.keys])]
      rfl

end BuildPaths

namespace MainModule

theorem isKept_toJson (main : MainModule) (depth : Nat) : IsKept (depth + 1) main.toJson := by
  refine isKept_object fun member listed => ?_
  simp only [List.mem_cons, List.not_mem_nil, or_false] at listed
  rcases listed with rfl | rfl | rfl <;> exact isKept_string _

theorem ofJson?_toJson (main : MainModule) : ofJson? (settled main.toJson) = some main := by
  rw [ofJson?, toJson, fields?_settled (by simp [Assoc.keys])]
  rfl

end MainModule

namespace Manifest

/-- The manifest with the roles and parents of its modules as sets. -/
def asRead (m : Manifest) : Manifest := { m with modules := m.modules.mapValues Module.asRead }

/-- All times of a manifest take 64 bits. -/
structure FitsWords (m : Manifest) : Prop where
  generated : m.generated < wordLimit
  updated : ∀ pair ∈ m.modules, filesFit pair.2.files

variable {m : Manifest}

theorem isKept_toJson (current : m.version = currentVersion) (fits : m.FitsWords) (depth : Nat) :
    IsKept (depth + 7) m.toJson := by
  refine isKept_object fun member listed => ?_
  simp only [List.mem_cons, List.not_mem_nil, or_false] at listed
  rcases listed with rfl | rfl | rfl | rfl | rfl | rfl
  · exact isKept_whole (current ▸ by decide)
  · exact m.workspace.isKept_toJson _
  · exact m.paths.isKept_toJson _
  · exact m.main.isKept_toJson _
  · exact isKept_whole fits.generated
  · refine isKept_object fun member listed => ?_
    obtain ⟨pair, present, rfl⟩ := List.mem_map.mp listed
    exact Module.isKept_toJson (fits.updated pair present) depth

theorem modulesOfJson?_settled (fits : m.FitsWords) (named : IsAscending m.modules.keys)
    (filed : ∀ pair ∈ m.modules, IsAscending pair.2.files.keys) :
    table? Module.ofJson?
        (settled (.object (m.modules.map fun (name, entry) => (name, entry.toJson)))) =
      some (m.modules.mapValues Module.asRead) := by
  refine ofPairs_mapM_settled (fun pair : String × Module => (pair.1, pair.2.asRead)) ?_ ?_
    fun pair listed => ?_
  · have once := named.nodup
    rwa [← Assoc.keys_mapValues m.modules Module.toJson] at once
  · have once := named
    rwa [← Assoc.keys_mapValues m.modules Module.asRead] at once
  · simp only [Module.ofJson?_toJson (filed pair listed) (fits.updated pair listed)]
    rfl

theorem ofJson?_toJson (current : m.version = currentVersion) (fits : m.FitsWords)
    (named : IsAscending m.modules.keys)
    (filed : ∀ pair ∈ m.modules, IsAscending pair.2.files.keys) :
    ofJson? (settled m.toJson) = some m.asRead := by
  have version : natBelow? versionLimit (.whole m.version) = some m.version := by
    rw [current]
    rfl
  have generated : natBelow? wordLimit (.whole m.generated) = some m.generated := by
    simpa [natBelow?] using fits.generated
  have fields : fields? [("version", .required), ("workspace", .required), ("paths", .required),
      ("main", .required), ("generated", .required), ("modules", .required)] m.toJson =
        some [some (.whole m.version), some m.workspace.toJson, some m.paths.toJson,
          some m.main.toJson, some (.whole m.generated),
          some (.object (m.modules.map fun (name, entry) => (name, entry.toJson)))] := rfl
  rw [ofJson?, toJson, fields?_settled (by simp [Assoc.keys])]
  rw [toJson] at fields
  rw [fields]
  simp only [Option.map_some, List.map_cons, List.map_nil, bind, Option.bind,
    m.workspace.ofJson?_toJson, m.paths.ofJson?_toJson, m.main.ofJson?_toJson,
    modulesOfJson?_settled fits named filed]
  simp only [settled, version, generated]
  rfl

theorem statedVersion_toJson (current : m.version = currentVersion) :
    statedVersion (settled m.toJson) = currentVersion := by
  have found : member? "version" (settled m.toJson) = some (.whole m.version) := by
    rw [toJson, settled, settledMembers_eq]
    refine (Assoc.get?_ofPairs_of_nodup ?_ "version").trans rfl
    rw [Assoc.keys_mapValues]
    simp [Assoc.keys]
  rw [statedVersion, found, current]
  rfl

/-- A manifest is read back from its text. -/
theorem ofText_text (current : m.version = currentVersion) (fits : m.FitsWords)
    (named : IsAscending m.modules.keys)
    (filed : ∀ pair ∈ m.modules, IsAscending pair.2.files.keys) : ofText m.text = .ok m.asRead := by
  have kept : IsKept maxDepth m.toJson := isKept_toJson current fits 120
  rw [ofText, text, kept.read?]
  simp only [statedVersion_toJson current, ofJson?_toJson current fits named filed, if_true]

end Manifest

end WorkspaceBuild
