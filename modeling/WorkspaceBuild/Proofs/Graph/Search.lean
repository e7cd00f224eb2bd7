import WorkspaceBuild.Package.Discovery
import Mathlib.Data.List.Sort

/-! # Searching in depth

A recursive search comes to a package, adds it, and searches all that it depends on before it goes on.
Modules are kept in the order in which they are added. The search is told here of descriptors, folders
and lists of modules alone, and it comes to one end.
-/

namespace WorkspaceBuild

namespace Descriptor

/-- A package depends on another in a way that counts: for production, as a peer, or for its
development if it is the workspace's own. -/
inductive DependsOn (descriptor : Descriptor) (main : Bool) : Edge → Prop where
  | production {name : String} (listed : name ∈ descriptor.dependencies.keys) :
      DependsOn descriptor main ⟨name, .production⟩
  | peer {name : String} (listed : name ∈ descriptor.peerDependencies.keys) :
      DependsOn descriptor main ⟨name, .peer⟩
  | development {name : String} (own : main = true)
      (listed : name ∈ descriptor.devDependencies.keys) :
      DependsOn descriptor main ⟨name, .development⟩

end Descriptor

/-- Dependencies are visited by name, and by kind under one name. -/
def Edge.IsBefore (a b : Edge) : Prop :=
  a.name < b.name ∨ (a.name = b.name ∧ compare a.kind b.kind = .lt)

/-- All that a package depends on, in the order in which it is visited. -/
structure Descriptor.Lists (descriptor : Descriptor) (main : Bool) (edges : List Edge) : Prop where
  mem_iff : ∀ edge, edge ∈ edges ↔ descriptor.DependsOn main edge
  ordered : edges.Pairwise Edge.IsBefore

namespace Workspace

/-- The folder in which a package finds another: that of a member of the workspace, or else the
nearest installed one with a descriptor, going upwards. -/
inductive LeadsTo (w : Workspace) (disk : Disk) (folder : Path) (name : String) : Path → Prop where
  | member {home : Path} (listed : w.members.get? name = some home) :
      LeadsTo w disk folder name home
  | installed {nearer further : List Path} {holder : Path} (foreign : w.members.get? name = none)
      (upwards : folder.ancestors = nearer ++ holder :: further)
      (passed : ∀ other ∈ nearer,
        disk.isFile (((other.join "node_modules").join name).join "package.json") = false)
      (there : disk.isFile (((holder.join "node_modules").join name).join "package.json") = true) :
      LeadsTo w disk folder name ((holder.join "node_modules").join name)

/-- The visits that a module calls for, by what it depends on and the roles that it holds. What is not
installed is passed over. Roles flow along dependencies, but what only development depends on is for
tests. -/
inductive CallsFor (w : Workspace) (disk : Disk) (folder : Path) (name : String) (roles : List Role) :
    List Edge → List Visit → Prop where
  | nil : CallsFor w disk folder name roles [] []
  | found {edge : Edge} {edges : List Edge} {home : Path} {visits : List Visit}
      (leads : w.LeadsTo disk folder edge.name home)
      (later : CallsFor w disk folder name roles edges visits) :
      CallsFor w disk folder name roles (edge :: edges)
        (⟨home, name, edge.kind, if edge.kind = .development then [.test] else roles⟩ :: visits)
  | missing {edge : Edge} {edges : List Edge} {visits : List Visit}
      (nowhere : ∀ home, ¬ w.LeadsTo disk folder edge.name home)
      (later : CallsFor w disk folder name roles edges visits) :
      CallsFor w disk folder name roles (edge :: edges) visits

/-- A package goes by the name that it gives itself, or else by that of its folder. -/
def packageName (descriptor : Descriptor) (folder : Path) : String :=
  descriptor.name.getD (folder.fileName?.getD "root")

/-- The module that a package is, with some roles. -/
def moduleOf (w : Workspace) (descriptor : Descriptor) (folder : Path) (main : Bool)
    (roles : List Role) : GraphNode :=
  let name := packageName descriptor folder
  let data := descriptor.framework.getD {}
  { name
    version := descriptor.version.getD "0.0.0"
    dir := folder
    main
    workspace := main || w.members.containsFolder folder
    internal := data.internal || Text.beginsWith name "@loom/"
    prod := false
    roles
    declaredRoles := data.roles
    inheritRoles := data.inheritRoles
    roleRoot := main || w.members.containsFolder folder || data.roleRoot
    parents := []
    dependencies := []
    profiles := data.profiles
    fileProfiles := data.fileProfiles }

/-- The roles that a module holds on being added. Where their flow starts anew it is the standard one,
else those that it declares and, if it inherits roles, those that reach it. -/
def rolesOnAdding (node : GraphNode) (inherited : List Role) : List Role :=
  let roles :=
    if node.inheritRoles then unionRoles node.declaredRoles inherited else node.declaredRoles
  if node.roleRoot = true ∨ roles = [] then [.standard] else roles

/-- The dependencies of a module with one more. Of two on one module a production one counts, or else
the first. -/
def withDependency (child : String) (kind : DependencyKind) (dependencies : List Edge) : List Edge :=
  if child ∈ dependencies.map Edge.name then
    dependencies.map fun edge =>
      if edge.name = child ∧ kind = .production then ⟨child, .production⟩ else edge
  else dependencies ++ [⟨child, kind⟩]

/-- Modules, once it is noted with both that one depends on another. None depends on itself. -/
def linked (parent child : String) (kind : DependencyKind) (modules : List GraphNode) :
    List GraphNode :=
  if parent = child then modules
  else
    modules.map fun node =>
      if node.name = parent then
        { node with dependencies := withDependency child kind node.dependencies }
      else if node.name = child then { node with parents := insertAscending parent node.parents }
      else node

/-- Modules, once roles have reached one of them in one more way. -/
def reachedBy (name : String) (inherited : List Role) (modules : List GraphNode) : List GraphNode :=
  modules.map fun node =>
    if node.name = name ∧ node.inheritRoles = true ∧ node.roleRoot = false then
      { node with roles := unionRoles node.roles inherited }
    else node

/-- What a search has found: the modules in the order in which they were added, and the packages that
are left out. -/
structure Discovery where
  modules : List GraphNode
  pruned : List String
  deriving DecidableEq, Inhabited, Repr

def Discovery.names (found : Discovery) : List String := found.modules.map GraphNode.name

/-- What comes of a visit, by the descriptor that it finds: what has been found then, the package
itself if it is added, and what is to be visited for it. -/
inductive Comes (w : Workspace) (disk : Disk) (found : Discovery) (visit : Visit)
    (descriptor : Descriptor) : Discovery → List String → List Visit → Prop where
  | again {name : String} (named : name = packageName descriptor visit.folder)
      (known : name ∈ found.names) :
      Comes w disk found visit descriptor
        ⟨reachedBy name visit.inherited (linked visit.parent name visit.kind found.modules),
          found.pruned⟩ [] []
  | passed {name : String} (named : name = packageName descriptor visit.folder)
      (fresh : name ∉ found.names) (left : name ∈ found.pruned) :
      Comes w disk found visit descriptor found [] []
  /-- Only members of the workspace and packages that speak to the framework are added. -/
  | refused {name : String} (named : name = packageName descriptor visit.folder)
      (fresh : name ∉ found.names) (kept : name ∉ found.pruned)
      (foreign : ¬ (w.members.containsFolder visit.folder = true ∨ descriptor.framework ≠ none)) :
      Comes w disk found visit descriptor ⟨found.modules, name :: found.pruned⟩ [] []
  | added {node : GraphNode} {roles : List Role} {edges : List Edge} {visits : List Visit}
      (package : node = w.moduleOf descriptor visit.folder false roles)
      (holds : roles = rolesOnAdding node visit.inherited)
      (fresh : node.name ∉ found.names) (kept : node.name ∉ found.pruned)
      (accepted : w.members.containsFolder visit.folder = true ∨ descriptor.framework ≠ none)
      (lists : descriptor.Lists false edges)
      (calls : w.CallsFor disk visit.folder node.name roles edges visits) :
      Comes w disk found visit descriptor
        ⟨linked visit.parent node.name visit.kind (found.modules ++ [node]), found.pruned⟩
        [node.name] visits

/-- A recursive search: what a new module depends on is searched before the search goes on. It fails
where a package has no readable descriptor. It tells the packages whose dependencies it looked for, in
their order. -/
inductive Explores (w : Workspace) (disk : Disk) :
    Discovery → List Visit → List String → Except PackageError Discovery → Prop where
  | done (found : Discovery) : Explores w disk found [] [] (.ok found)
  | fails {found : Discovery} {visit : Visit} {rest : List Visit} {e : PackageError}
      (unread : Descriptor.load disk visit.folder = .error e) :
      Explores w disk found (visit :: rest) [] (.error e)
  | failsWithin {found next : Discovery} {visit : Visit} {rest visits : List Visit}
      {descriptor : Descriptor} {names within : List String} {e : PackageError}
      (loaded : Descriptor.load disk visit.folder = .ok descriptor)
      (comes : w.Comes disk found visit descriptor next names visits)
      (inner : Explores w disk next visits within (.error e)) :
      Explores w disk found (visit :: rest) (names ++ within) (.error e)
  | goesOn {found next after : Discovery} {visit : Visit} {rest visits : List Visit}
      {descriptor : Descriptor} {names within later : List String}
      {result : Except PackageError Discovery}
      (loaded : Descriptor.load disk visit.folder = .ok descriptor)
      (comes : w.Comes disk found visit descriptor next names visits)
      (inner : Explores w disk next visits within (.ok after))
      (outer : Explores w disk after rest later result) :
      Explores w disk found (visit :: rest) (names ++ (within ++ later)) result

/-- The search from a workspace. It starts with the workspace's own module, which holds the standard
role, and visits what this depends on, for its development too. -/
def Searches (w : Workspace) (disk : Disk) (expanded : List String)
    (result : Except PackageError Discovery) : Prop :=
  ∃ edges visits,
    let own := w.moduleOf w.descriptor w.root true [.standard]
    w.descriptor.Lists true edges ∧ w.CallsFor disk w.root own.name own.roles edges visits ∧
      w.Explores disk ⟨[own], []⟩ visits expanded result

end Workspace

/-! ## There is one search -/

instance : Std.Irrefl Edge.IsBefore where
  irrefl edge := by
    rintro (less | ⟨_, less⟩)
    · exact String.lt_irrefl _ less
    · revert less
      cases edge.kind <;> decide

theorem Edge.IsBefore.asymm {a b : Edge} (ab : a.IsBefore b) (ba : b.IsBefore a) : False := by
  rcases ab with less | ⟨same, kinds⟩ <;> rcases ba with more | ⟨same', kinds'⟩
  · exact String.lt_asymm less more
  · exact String.lt_irrefl _ (same' ▸ less)
  · exact String.lt_irrefl _ (same ▸ more)
  · revert kinds kinds'
    cases a.kind <;> cases b.kind <;> decide

instance : Std.Antisymm Edge.IsBefore where
  antisymm _ _ ab ba := (ab.asymm ba).elim

theorem Descriptor.Lists.unique {descriptor : Descriptor} {main : Bool} {edges others : List Edge}
    (lists : descriptor.Lists main edges) (alsoLists : descriptor.Lists main others) :
    others = edges :=
  alsoLists.ordered.eq_of_mem_iff lists.ordered fun edge =>
    (alsoLists.mem_iff edge).trans (lists.mem_iff edge).symm

namespace Workspace

section Unique

variable {w : Workspace} {disk : Disk} {descriptor : Descriptor} {folder home other : Path}
  {name : String} {main : Bool} {roles : List Role} {edges others : List Edge}
  {visits alsoVisits rest : List Visit} {found next also : Discovery} {visit : Visit}
  {names alsoNames expanded : List String} {result : Except PackageError Discovery}

theorem leadsTo_iff : w.LeadsTo disk folder name home ↔ w.folderOf? disk folder name = some home := by
  rw [folderOf?]
  constructor
  · rintro (listed | ⟨foreign, upwards, passed, there⟩)
    · rw [listed, Option.some_or]
    · rw [foreign, Option.none_or, upwards, List.map_append, List.map_cons,
        List.find?_eq_some_iff_append]
      refine ⟨there, _, _, rfl, fun candidate listed => ?_⟩
      obtain ⟨nearer, member, rfl⟩ := List.mem_map.mp listed
      rw [Bool.not_eq_true', ← passed nearer member]
      rfl
  · intro found
    cases listed : w.members.get? name with
    | some member =>
        rw [listed, Option.some_or] at found
        cases found
        exact .member listed
    | none =>
        rw [listed, Option.none_or, List.find?_eq_some_iff_append] at found
        obtain ⟨there, nearer, further, split, passed⟩ := found
        obtain ⟨before, after, upwards, rfl, tail⟩ := List.map_eq_append_iff.mp split
        obtain ⟨holder, above, rfl, rfl, rfl⟩ := List.map_eq_cons_iff.mp tail
        refine .installed listed upwards (fun other member => ?_) there
        exact (Bool.not_eq_true' _).mp (passed _ (List.mem_map_of_mem member))

/-- A package's dependencies lead to one folder each. -/
theorem LeadsTo.unique (here : w.LeadsTo disk folder name home)
    (there : w.LeadsTo disk folder name other) : other = home :=
  Option.some.inj ((leadsTo_iff.mp there).symm.trans (leadsTo_iff.mp here))

theorem CallsFor.unique (calls : w.CallsFor disk folder name roles edges visits)
    (alsoCalls : w.CallsFor disk folder name roles edges alsoVisits) : alsoVisits = visits := by
  induction calls generalizing alsoVisits with
  | nil =>
      cases alsoCalls
      rfl
  | found leads later ih =>
      cases alsoCalls with
      | found leadsToo laterToo => rw [leads.unique leadsToo, ih laterToo]
      | missing nowhere laterToo => exact absurd leads (nowhere _)
  | missing nowhere later ih =>
      cases alsoCalls with
      | found leads laterToo => exact absurd leads (nowhere _)
      | missing alsoNowhere laterToo => exact ih laterToo

/-- What comes of a visit depends on nothing but what it finds. -/
theorem Comes.unique (comes : w.Comes disk found visit descriptor next names visits)
    (alsoComes : w.Comes disk found visit descriptor also alsoNames alsoVisits) :
    also = next ∧ alsoNames = names ∧ alsoVisits = visits := by
  cases comes with
  | again named known =>
      cases named
      cases alsoComes with
      | again named _ =>
          cases named
          exact ⟨rfl, rfl, rfl⟩
      | passed named fresh _ | refused named fresh _ _ =>
          cases named
          exact absurd known fresh
      | added package _ fresh _ _ _ _ =>
          cases package
          exact absurd known fresh
  | passed named fresh left =>
      cases named
      cases alsoComes with
      | again named known =>
          cases named
          exact absurd known fresh
      | passed => exact ⟨rfl, rfl, rfl⟩
      | refused named _ kept _ =>
          cases named
          exact absurd left kept
      | added package _ _ kept _ _ _ =>
          cases package
          exact absurd left kept
  | refused named fresh kept foreign =>
      cases named
      cases alsoComes with
      | again named known =>
          cases named
          exact absurd known fresh
      | passed named _ left =>
          cases named
          exact absurd left kept
      | refused named =>
          cases named
          exact ⟨rfl, rfl, rfl⟩
      | added _ _ _ _ accepted => exact absurd accepted foreign
  | added package holds fresh kept accepted lists calls =>
      cases package
      cases alsoComes with
      | again named known =>
          cases named
          exact absurd known fresh
      | passed named _ left =>
          cases named
          exact absurd left kept
      | refused _ _ _ foreign => exact absurd accepted foreign
      | added package holdsToo _ _ _ listsToo callsToo =>
          cases package
          cases holds.trans holdsToo.symm
          cases lists.unique listsToo
          exact ⟨rfl, rfl, calls.unique callsToo⟩

theorem Explores.unique {others : List String} {outcome : Except PackageError Discovery}
    (search : w.Explores disk found visits expanded result)
    (alsoSearch : w.Explores disk found visits others outcome) :
    others = expanded ∧ outcome = result := by
  induction search generalizing others outcome with
  | done found =>
      cases alsoSearch
      exact ⟨rfl, rfl⟩
  | fails unread =>
      cases alsoSearch with
      | fails unreadToo =>
          cases unread.symm.trans unreadToo
          exact ⟨rfl, rfl⟩
      | failsWithin loaded | goesOn loaded => cases unread.symm.trans loaded
  | failsWithin loaded comes inner ih =>
      cases alsoSearch with
      | fails unread => cases unread.symm.trans loaded
      | failsWithin loadedToo comesToo innerToo =>
          cases loaded.symm.trans loadedToo
          obtain ⟨rfl, rfl, rfl⟩ := comes.unique comesToo
          obtain ⟨rfl, same⟩ := ih innerToo
          exact ⟨rfl, same⟩
      | goesOn loadedToo comesToo innerToo _ =>
          cases loaded.symm.trans loadedToo
          obtain ⟨rfl, rfl, rfl⟩ := comes.unique comesToo
          cases (ih innerToo).2
  | goesOn loaded comes inner outer ihInner ihOuter =>
      cases alsoSearch with
      | fails unread => cases unread.symm.trans loaded
      | failsWithin loadedToo comesToo innerToo =>
          cases loaded.symm.trans loadedToo
          obtain ⟨rfl, rfl, rfl⟩ := comes.unique comesToo
          cases (ihInner innerToo).2
      | goesOn loadedToo comesToo innerToo outerToo =>
          cases loaded.symm.trans loadedToo
          obtain ⟨rfl, rfl, rfl⟩ := comes.unique comesToo
          obtain ⟨rfl, same⟩ := ihInner innerToo
          cases same
          obtain ⟨rfl, rfl⟩ := ihOuter outerToo
          exact ⟨rfl, rfl⟩

/-- There is one search from a workspace. -/
theorem Searches.unique {others : List String} {outcome : Except PackageError Discovery}
    (search : w.Searches disk expanded result) (alsoSearch : w.Searches disk others outcome) :
    others = expanded ∧ outcome = result := by
  obtain ⟨edges, visits, lists, calls, explores⟩ := search
  obtain ⟨_, _, listsToo, callsToo, exploresToo⟩ := alsoSearch
  cases lists.unique listsToo
  cases calls.unique callsToo
  exact explores.unique exploresToo

/-- A search through two lists fails in the first, or goes through it to the second. -/
theorem Explores.of_append (search : w.Explores disk found (visits ++ rest) expanded result) :
    (∃ e, result = .error e ∧ w.Explores disk found visits expanded (.error e)) ∨
      ∃ after within later, expanded = within ++ later ∧
        w.Explores disk found visits within (.ok after) ∧
          w.Explores disk after rest later result := by
  induction visits generalizing found expanded with
  | nil => exact .inr ⟨found, [], expanded, rfl, .done found, search⟩
  | cons visit visits ih =>
      cases search with
      | fails unread => exact .inl ⟨_, rfl, .fails unread⟩
      | failsWithin loaded comes inner => exact .inl ⟨_, rfl, .failsWithin loaded comes inner⟩
      | goesOn loaded comes inner outer =>
          rcases ih outer with ⟨e, rfl, failed⟩ | ⟨after, within, later, rfl, first, second⟩
          · exact .inl ⟨e, rfl, .goesOn loaded comes inner failed⟩
          · refine .inr ⟨after, _, later, ?_, .goesOn loaded comes inner first, second⟩
            simp only [List.append_assoc]

end Unique

end Workspace

end WorkspaceBuild
