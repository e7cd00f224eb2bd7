import WorkspaceBuild.Proofs.Graph.Calls
import WorkspaceBuild.Proofs.Graph.Search
import WorkspaceBuild.Proofs.Graph.Walks
import WorkspaceBuild.Proofs.Snapshot

/-! # The walk is a search in depth

The walk finds what the recursive search finds: the same modules in the same order, with the same
dependencies and roles, or the same error.
-/

namespace WorkspaceBuild

open Relation

namespace Descriptor

variable {disk : Disk} {folder : Path} {descriptor : Descriptor} {main : Bool}

/-- A descriptor names what its package depends on once. -/
structure IsDistinct (descriptor : Descriptor) : Prop where
  dependencies : descriptor.dependencies.keys.Nodup
  development : descriptor.devDependencies.keys.Nodup
  peer : descriptor.peerDependencies.keys.Nodup

theorem nodup_of_defaulted? {field : Option Json} {table : Assoc String String}
    (decoded : Json.defaulted? [] (Json.table? Json.text?) field = some table) :
    table.keys.Nodup := by
  cases field with
  | none =>
      cases decoded
      exact List.nodup_nil
  | some value => exact (Json.isAscending_of_table? decoded).nodup

theorem isDistinct_of_load (loaded : load disk folder = .ok descriptor) :
    descriptor.IsDistinct := by
  rw [load] at loaded
  split at loaded
  · split at loaded
    · rw [parse] at loaded
      split at loaded
      · rename_i found decoded
        cases loaded
        obtain ⟨value, _, decoded⟩ := Option.bind_eq_some_iff.mp decoded
        simp only [ofJson?, Option.bind_eq_bind, Option.bind_eq_some_iff] at decoded
        obtain ⟨fields, _, decoded⟩ := decoded
        split at decoded
        · simp only [Option.bind_eq_some_iff] at decoded
          obtain ⟨_, _, _, _, _, dependencies, _, development, _, peer, _, _, _, _, same⟩ := decoded
          cases same
          exact ⟨nodup_of_defaulted? dependencies, nodup_of_defaulted? development,
            nodup_of_defaulted? peer⟩
        · cases decoded
      · cases loaded
    · cases loaded
  · cases loaded

end Descriptor

namespace Workspace

variable {w : Workspace} {disk : Disk} {descriptor : Descriptor} {folder : Path} {name : String}
  {main : Bool} {roles : List Role}

theorem nodup_dependenciesOf (distinct : descriptor.IsDistinct) (main : Bool) :
    (dependenciesOf descriptor main).Nodup := by
  have named {table : Assoc String String} (once : table.keys.Nodup) (kind : DependencyKind) :
      (table.keys.map fun name => (⟨name, kind⟩ : Edge)).Nodup :=
    once.map fun a b same => congrArg Edge.name same
  have apart {table : Assoc String String} {kind : DependencyKind} {edge : Edge}
      (listed : edge ∈ table.keys.map fun name => (⟨name, kind⟩ : Edge)) : edge.kind = kind := by
    obtain ⟨_, _, rfl⟩ := List.mem_map.mp listed
    rfl
  rw [dependenciesOf, (List.mergeSort_perm _ _).nodup_iff]
  refine (((named distinct.dependencies .production).append (named distinct.peer .peer)
    fun edge here there => ?_).append (by
      split
      · exact named distinct.development .development
      · exact List.nodup_nil) fun edge here there => ?_)
  · exact absurd ((apart here).symm.trans (apart there)) (by decide)
  · split at there
    · rcases List.mem_append.mp here with here | here
      · exact absurd ((apart here).symm.trans (apart there)) (by decide)
      · exact absurd ((apart here).symm.trans (apart there)) (by decide)
    · cases there

/-- The walk visits all that a package depends on, in its order. -/
theorem lists_dependenciesOf (distinct : descriptor.IsDistinct) (main : Bool) :
    descriptor.Lists main (dependenciesOf descriptor main) where
  mem_iff edge := by
    rw [mem_dependenciesOf_iff]
    obtain ⟨name, kind⟩ := edge
    constructor
    · rintro (⟨rfl, listed⟩ | ⟨rfl, listed⟩ | ⟨own, rfl, listed⟩)
      · exact .production listed
      · exact .peer listed
      · exact .development own listed
    · rintro (listed | listed | ⟨own, listed⟩)
      · exact .inl ⟨rfl, listed⟩
      · exact .inr (.inl ⟨rfl, listed⟩)
      · exact .inr (.inr ⟨own, rfl, listed⟩)
  ordered := by
    have strict (a b : DependencyKind) : (compare a b).isLE = true → a ≠ b → compare a b = .lt := by
      cases a <;> cases b <;> decide
    have both := (pairwise_dependenciesOf descriptor main).and (nodup_dependenciesOf distinct main)
    refine both.imp fun {a b} ⟨ordered, other⟩ => ordered.imp id fun ⟨same, le⟩ => ⟨same, ?_⟩
    refine strict a.kind b.kind le fun alike => other ?_
    rw [Edge.mk.injEq]
    exact ⟨same, alike⟩

theorem callsFor_iff {edges : List Edge} {visits : List Visit} :
    w.CallsFor disk folder name roles edges visits ↔
      visits = edges.filterMap fun edge => (w.folderOf? disk folder edge.name).map fun child =>
        ⟨child, name, edge.kind, edgeRoles roles edge.kind⟩ := by
  have flow (kind : DependencyKind) :
      (if kind = .development then [.test] else roles) = edgeRoles roles kind := by
    cases kind <;> rfl
  constructor
  · intro calls
    induction calls with
    | nil => rfl
    | found leads later ih =>
        rw [List.filterMap_cons, leadsTo_iff.mp leads, ih, flow]
        rfl
    | missing nowhere later ih =>
        have nothing : w.folderOf? disk folder _ = none :=
          Option.eq_none_iff_forall_ne_some.mpr fun home found => nowhere home (leadsTo_iff.mpr found)
        rw [List.filterMap_cons, nothing, ih]
        rfl
  · rintro rfl
    induction edges with
    | nil => exact .nil
    | cons edge edges ih =>
        rw [List.filterMap_cons]
        cases found : w.folderOf? disk folder edge.name with
        | none => exact .missing (fun home leads => by simp [leadsTo_iff.mp leads] at found) ih
        | some home =>
            rw [Option.map_some, ← flow]
            exact .found (leadsTo_iff.mpr found) ih

end Workspace

namespace ModuleGraph

variable {g next : ModuleGraph}

theorem inOrder_of_change {change : GraphNode → GraphNode} (order : next.order = g.order)
    (changed : ∀ name, next.get? name = (g.get? name).map change) :
    next.inOrder = g.inOrder.map change := by
  rw [inOrder, inOrder, order, List.map_filterMap]
  exact List.filterMap_congr fun name _ => changed name

theorem inOrder_single (node : GraphNode) : (single node).inOrder = [node] := by
  simp [inOrder, single, get?, Assoc.get?]

theorem mergeEdge_eq_withDependency {child : String} {kind : DependencyKind} {edges : List Edge}
    (once : (edges.map Edge.name).Nodup) :
    mergeEdge child kind edges = Workspace.withDependency child kind edges := by
  induction edges with
  | nil => rfl
  | cons edge rest ih =>
      obtain ⟨fresh, distinct⟩ := List.nodup_cons.mp once
      by_cases same : edge.name = child
      · subst same
        -- no later dependency is on the same module
        have others : rest.map (fun other =>
            if other.name = edge.name ∧ kind = .production then ⟨edge.name, .production⟩ else other) =
              rest := by
          conv_rhs => rw [← List.map_id rest]
          refine List.map_congr_left fun other listed => if_neg fun ⟨same, _⟩ => fresh ?_
          exact same ▸ List.mem_map_of_mem listed
        rw [mergeEdge, if_pos rfl, Workspace.withDependency, List.map_cons, List.map_cons, others,
          if_pos List.mem_cons_self]
        by_cases production : kind = .production <;> simp [production]
      · have known : child ∈ (edge :: rest).map Edge.name ↔ child ∈ rest.map Edge.name := by
          rw [List.map_cons, List.mem_cons, or_iff_right (Ne.symm same)]
        rw [mergeEdge, if_neg same, ih distinct, Workspace.withDependency, Workspace.withDependency]
        simp only [known]
        split
        · rw [List.map_cons, if_neg fun both => same both.1]
        · rfl

theorem inOrder_addEdge (consistent : g.Consistent) {parent child : String} {kind : DependencyKind}
    (added : g.addEdge parent child kind = .ok next) :
    next.inOrder = Workspace.linked parent child kind g.inOrder := by
  rw [Workspace.linked]
  split
  · rename_i same
    rw [addEdge, if_pos same] at added
    cases added
    rfl
  · rename_i distinct
    obtain ⟨_, _, _, lookup⟩ := get?_addEdge added distinct
    refine inOrder_of_change (order_addEdge added) fun name => ?_
    rw [lookup]
    cases found : g.get? name with
    | none => simp
    | some node =>
        have once := consistent.once name node found
        simp only [Option.map_some, consistent.named name node found,
          ← mergeEdge_eq_withDependency once]
        by_cases isChild : name = child
        · have other : name ≠ parent := fun same => distinct (same.symm.trans isChild)
          rw [if_pos isChild, if_neg other, if_pos isChild]
        · by_cases isParent : name = parent
          · rw [if_neg isChild, if_pos isParent, if_pos isParent]
          · rw [if_neg isChild, if_neg isParent, if_neg isParent, if_neg isChild]

theorem inOrder_addNode {node : GraphNode} (listed : g.IsListed)
    (fresh : g.contains node.name = false) :
    (g.addNode node).2.inOrder = g.inOrder ++ [node] := by
  have lookup := get?_addNode fresh
  have order : (g.addNode node).2.order = g.order ++ [node.name] := by
    rw [addNode, if_neg (by simp [fresh])]
  rw [inOrder, order, List.filterMap_append, inOrder]
  congr 1
  · refine List.filterMap_congr fun name member => ?_
    have other : name ≠ node.name := by
      rintro rfl
      rw [(listed.listed _).mp member] at fresh
      cases fresh
    rw [lookup, if_neg other]
  · rw [List.filterMap_cons, lookup, if_pos rfl]
    rfl

theorem inOrder_inherit (consistent : g.Consistent) (name : String) (inherited : List Role) :
    (g.update name (Workspace.inherit inherited)).inOrder =
      Workspace.reachedBy name inherited g.inOrder := by
  refine inOrder_of_change rfl fun other => ?_
  rw [get?_update]
  cases found : g.get? other with
  | none => simp
  | some node =>
      simp only [Option.map_some, consistent.named other node found, Workspace.inherit]
      by_cases same : other = name <;> simp [same]

end ModuleGraph

namespace Workspace

variable {w : Workspace} {disk : Disk} {descriptor : Descriptor} {own : String} {found next : Found}
  {visit : Visit} {rest pending visits : List Visit} {names expanded : List String}
  {result : Except PackageError Found}

/-- What a walk has found, as a list of modules. -/
def Found.seen (found : Found) : Discovery := ⟨found.graph.inOrder, found.pruned⟩

theorem accepts_iff : w.accepts descriptor visit.folder = true ↔
    w.members.containsFolder visit.folder = true ∨ descriptor.framework ≠ none := by
  rw [accepts, Bool.or_eq_true, Descriptor.isFrameworkPackage, Option.isSome_iff_ne_none]

theorem rolesWhenFound_eq (node : GraphNode) (inherited : List Role) :
    rolesWhenFound node inherited = rolesOnAdding node inherited := by
  rw [rolesWhenFound, rolesOnAdding]
  cases node.roleRoot <;> simp

theorem of_expand {graph after : ModuleGraph}
    (expanded : w.expand disk graph visit descriptor = .ok (after, visits)) :
    let roles := rolesWhenFound (w.nodeOf descriptor visit.folder false) visit.inherited
    (graph.addNode (w.moduleOf descriptor visit.folder false roles)).2.addEdge visit.parent
        (descriptor.nameOr visit.folder) visit.kind = .ok after ∧
      w.visitsOf disk descriptor visit.folder (descriptor.nameOr visit.folder) false roles = visits := by
  obtain ⟨linked, added, same⟩ := bind_eq_ok.mp expanded
  cases same
  exact ⟨added, rfl⟩

/-- What comes of a visit of the walk is what comes of it in the search. -/
theorem Meets.comes (h : IsUnderway own found.graph (visit :: rest))
    (listed : found.graph.IsListed) (loaded : Descriptor.load disk visit.folder = .ok descriptor)
    (meets : w.Meets disk found visit descriptor next names visits) :
    w.Comes disk found.seen visit descriptor next.seen names visits := by
  have known_iff : descriptor.nameOr visit.folder ∈ found.seen.names ↔
      found.graph.contains (descriptor.nameOr visit.folder) = true := by
    rw [Discovery.names, Found.seen, listed.names, listed.listed]
  have isNew (fresh : found.graph.contains (descriptor.nameOr visit.folder) = false) :
      descriptor.nameOr visit.folder ∉ found.seen.names := by
    rw [known_iff, fresh]
    exact Bool.false_ne_true
  have notPruned (kept : found.pruned.contains (descriptor.nameOr visit.folder) = false) :
      descriptor.nameOr visit.folder ∉ found.pruned := fun left => by
    rw [List.contains_iff_mem.mpr left] at kept
    cases kept
  cases meets with
  | again known revisited =>
      obtain ⟨linked, added, same⟩ := bind_eq_ok.mp revisited
      cases same
      unfold Found.seen
      rw [ModuleGraph.inOrder_inherit (h.consistent.addEdge added),
        ModuleGraph.inOrder_addEdge h.consistent added]
      exact .again rfl (known_iff.mpr known)
  | passed fresh left => exact .passed rfl (isNew fresh) (List.contains_iff_mem.mp left)
  | refused fresh kept foreign =>
      refine .refused rfl (isNew fresh) (notPruned kept) fun welcome => ?_
      rw [accepts_iff.mpr welcome] at foreign
      cases foreign
  | joined fresh kept accepted expanded =>
      obtain ⟨added, rfl⟩ := of_expand expanded
      have consistent := h.consistent.addNode (w.moduleOf descriptor visit.folder false
        (rolesWhenFound (w.nodeOf descriptor visit.folder false) visit.inherited)) rfl rfl
      unfold Found.seen
      rw [ModuleGraph.inOrder_addEdge consistent added, ModuleGraph.inOrder_addNode listed fresh]
      exact .added rfl (rolesWhenFound_eq _ _) (isNew fresh) (notPruned kept)
        (accepts_iff.mp accepted) (lists_dependenciesOf (Descriptor.isDistinct_of_load loaded) false)
        (callsFor_iff.mpr rfl)

/-- A walk with a list is a search. -/
theorem Stacked.explores (h : IsUnderway own found.graph pending) (listed : found.graph.IsListed)
    (run : w.Stacked disk found pending expanded result) :
    w.Explores disk found.seen pending expanded (result.map Found.seen) := by
  induction run with
  | done found => exact .done found.seen
  | fails met => exact .fails (h.load_of_fails met)
  | step met run ih =>
      obtain ⟨underway, order, contains, distinct, fresh⟩ := h.after_meet met
      obtain ⟨descriptor, loaded, meets⟩ := meet_eq_ok_iff.mp met
      have comes := meets.comes h listed loaded
      have kept := listed.append underway.consistent.named order contains distinct fresh
      rcases (ih underway kept).of_append with
        ⟨e, failed, search⟩ | ⟨after, within, later, rfl, inner, outer⟩
      · rw [failed]
        exact .failsWithin loaded comes search
      · exact .goesOn loaded comes inner outer

/-- What the walk from a workspace is: the search ends, in one way, and the walk has its result. -/
structure IsInDepth (w : Workspace) (disk : Disk) (expanded : List String)
    (result : Except PackageError Discovery) : Prop where
  searched : ∀ others outcome,
    w.Searches disk others outcome ↔ others = expanded ∧ outcome = result
  walked : (w.walk disk).map ModuleGraph.inOrder = result.map Discovery.modules
  found : ∀ graph, w.walk disk = .ok graph → ∀ name node,
    graph.get? name = some node ↔ node ∈ graph.inOrder ∧ node.name = name
  once : (w.descriptor.nameOr w.root :: expanded).Nodup
  known : ∀ name, w.walk disk ≠ .error (.unknownModule name)
  order : ∀ graph, w.walk disk = .ok graph →
    graph.order = w.descriptor.nameOr w.root :: expanded
  listed : ∀ graph, w.walk disk = .ok graph → graph.IsListed
  reached : ∀ graph, w.walk disk = .ok graph →
    ∀ name, graph.contains name = true → ReflTransGen graph.Leads (w.descriptor.nameOr w.root) name

theorem isListed_start (w : Workspace) (disk : Disk) : (w.start disk).graph.IsListed where
  named := (isUnderway_start w disk).consistent.named
  listed _ := List.mem_singleton.trans (contains_start w disk).symm
  once := List.nodup_singleton _

theorem seen_start (w : Workspace) (disk : Disk) :
    (Found.start w disk).seen = ⟨[w.moduleOf w.descriptor w.root true [.standard]], []⟩ := by
  rw [Found.seen, Found.start, start, ModuleGraph.inOrder_single]
  rfl

theorem Stacked.searches (loaded : Descriptor.load disk w.root = .ok w.descriptor)
    (run : w.Stacked disk (.start w disk) (w.start disk).pending expanded result) :
    w.Searches disk expanded (result.map Found.seen) :=
  ⟨_, (w.start disk).pending, lists_dependenciesOf (Descriptor.isDistinct_of_load loaded) true,
    callsFor_iff.mpr rfl,
    seen_start w disk ▸ run.explores (isUnderway_start w disk) (isListed_start w disk)⟩

/-- The walk from a workspace ends, and is the recursive search: it finds the same modules with the
same dependencies and roles in the same order, or the same error. It looks for the dependencies of
no package twice, and all that it finds is reached from the workspace's own module. -/
theorem walk_isInDepth {root : Path} (loaded : load disk root = .ok w) :
    ∃ expanded result, w.IsInDepth disk expanded result := by
  obtain ⟨rfl, own, _⟩ := load_eq_ok_iff.mp loaded
  obtain ⟨expanded, result, run, walked⟩ := exists_stacked_start own
  have ends : Ends (w.descriptor.nameOr w.root) _ expanded result :=
    run.ends (isUnderway_start w disk)
  have search := run.searches own
  have found {graph : ModuleGraph} (done : w.walk disk = .ok graph) :
      ∃ last, result = .ok last ∧ last.graph = graph := map_eq_ok.mp (walked.symm.trans done)
  have once : (w.descriptor.nameOr w.root :: expanded).Nodup := by
    refine List.nodup_cons.mpr ⟨fun again => ?_, ends.once⟩
    have new := ends.new _ again
    exact Bool.false_ne_true (new.symm.trans ((contains_start w disk).mpr rfl))
  have listed {graph : ModuleGraph} (done : w.walk disk = .ok graph) : graph.IsListed := by
    obtain ⟨last, same, rfl⟩ := found done
    exact (isListed_start w disk).append (ends.underway last same).consistent.named
      (ends.order last same) (ends.contains last same) ends.once ends.new
  exact ⟨expanded, result.map Found.seen,
    { searched := fun others outcome =>
        ⟨search.unique, fun same => same.1 ▸ same.2 ▸ search⟩
      walked := by
        rw [walked]
        cases result <;> rfl
      found := fun graph done name node => by
        rw [(listed done).mem_inOrder]
        constructor
        · intro there
          have named := (listed done).named name node there
          exact ⟨by rw [named, there], named⟩
        · rintro ⟨there, rfl⟩
          exact there
      once
      known := fun name failed => ends.known name (map_eq_error.mp (walked.symm.trans failed))
      order := fun graph done => by
        obtain ⟨last, same, rfl⟩ := found done
        exact ends.order last same
      listed := fun graph done => listed done
      reached := fun graph done name known => by
        obtain ⟨last, same, rfl⟩ := found done
        exact (ends.underway last same).reached name known }⟩

section Ring

/-- Two packages that depend on each other. The workspace depends on the one, and for its development
on the other. -/
def ringDisk : Disk :=
  ⟨[("w", .folder [("node_modules", .folder [
      ("b", .folder [("package.json", .file (.text
        "\x7b\"name\":\"b\",\"loom\":\x7b\x7d,\"dependencies\":\x7b\"c\":\"1\"\x7d\x7d") 5)] 5),
      ("c", .folder [("package.json", .file (.text
        "\x7b\"name\":\"c\",\"loom\":\x7b\x7d,\"peerDependencies\":\x7b\"b\":\"1\"\x7d\x7d") 5)]
        5)] 5),
    ("package.json", .file (.text
      "\x7b\"name\":\"w\",\"dependencies\":\x7b\"b\":\"1\"\x7d,\"devDependencies\":\x7b\"c\":\"1\"\x7d\x7d")
      5)] 5)]⟩

def ringWorkspace : Workspace where
  root := ⟨"/w"⟩
  descriptor := { name := some "w", dependencies := [("b", "1")], devDependencies := [("c", "1")] }
  members := ⟨[]⟩

/-- The modules of the ring, in the order in which they are found. -/
def ringModules : List GraphNode :=
  [{ name := "w", dir := ⟨"/w"⟩, main := true, workspace := true, roles := [.standard]
     roleRoot := true, dependencies := [⟨"b", .production⟩, ⟨"c", .development⟩] },
    { name := "b", dir := ⟨"/w/node_modules/b"⟩, roles := [.standard], parents := ["c", "w"]
      dependencies := [⟨"c", .production⟩] },
    { name := "c", dir := ⟨"/w/node_modules/c"⟩, roles := [.standard, .test], parents := ["b", "w"]
      dependencies := [⟨"b", .peer⟩] }]

set_option maxRecDepth 4000

/-- Development brings a module that is there already the role of tests. -/
theorem searches_ring
    (read : Descriptor.load ringDisk ringWorkspace.root = .ok ringWorkspace.descriptor) :
    ringWorkspace.Searches ringDisk ["b", "c"] (.ok ⟨ringModules, []⟩) := by
  have sorted : dependenciesOf ringWorkspace.descriptor true =
      [⟨"b", .production⟩, ⟨"c", .development⟩] := List.mergeSort_of_pairwise (by decide)
  have lists := lists_dependenciesOf (Descriptor.isDistinct_of_load read) true
  let descriptorB : Descriptor :=
    { name := some "b", dependencies := [("c", "1")], framework := some {} }
  let descriptorC : Descriptor :=
    { name := some "c", peerDependencies := [("b", "1")], framework := some {} }
  have readB : Descriptor.load ringDisk ⟨"/w/node_modules/b"⟩ = .ok descriptorB :=
    eq_ok_of_toOption (by decide +kernel)
  have readC : Descriptor.load ringDisk ⟨"/w/node_modules/c"⟩ = .ok descriptorC :=
    eq_ok_of_toOption (by decide +kernel)
  have listsB := lists_dependenciesOf (Descriptor.isDistinct_of_load readB) false
  have listsC := lists_dependenciesOf (Descriptor.isDistinct_of_load readC) false
  rw [show dependenciesOf descriptorB false = [⟨"c", .production⟩] by decide +kernel] at listsB
  rw [show dependenciesOf descriptorC false = [⟨"b", .peer⟩] by decide +kernel] at listsC
  let own := ringWorkspace.moduleOf ringWorkspace.descriptor ⟨"/w"⟩ true [.standard]
  let b := ringWorkspace.moduleOf descriptorB ⟨"/w/node_modules/b"⟩ false [.standard]
  let c := ringWorkspace.moduleOf descriptorC ⟨"/w/node_modules/c"⟩ false [.standard]
  let withB := linked "w" b.name .production ([own] ++ [b])
  let withC := linked b.name c.name .production (withB ++ [c])
  let ring := reachedBy b.name [.standard] (linked c.name b.name .peer withC)
  let last := reachedBy c.name [.test] (linked "w" c.name .development ring)
  have addsB : ringWorkspace.Comes ringDisk ⟨[own], []⟩
      ⟨⟨"/w/node_modules/b"⟩, "w", .production, [.standard]⟩ descriptorB ⟨withB, []⟩ ["b"]
        [⟨⟨"/w/node_modules/c"⟩, "b", .production, [.standard]⟩] :=
    .added rfl (by decide +kernel) (by decide +kernel) (by decide) (by decide +kernel) listsB
      (callsFor_iff.mpr (by decide +kernel))
  have addsC : ringWorkspace.Comes ringDisk ⟨withB, []⟩
      ⟨⟨"/w/node_modules/c"⟩, "b", .production, [.standard]⟩ descriptorC ⟨withC, []⟩ ["c"]
        [⟨⟨"/w/node_modules/b"⟩, "c", .peer, [.standard]⟩] :=
    .added rfl (by decide +kernel) (by decide +kernel) (by decide) (by decide +kernel) listsC
      (callsFor_iff.mpr (by decide +kernel))
  have closes : ringWorkspace.Comes ringDisk ⟨withC, []⟩
      ⟨⟨"/w/node_modules/b"⟩, "c", .peer, [.standard]⟩ descriptorB ⟨ring, []⟩ [] [] :=
    .again rfl (by decide +kernel)
  have tests : ringWorkspace.Comes ringDisk ⟨ring, []⟩
      ⟨⟨"/w/node_modules/c"⟩, "w", .development, [.test]⟩ descriptorC ⟨last, []⟩ [] [] :=
    .again rfl (by decide +kernel)
  have calls : ringWorkspace.CallsFor ringDisk ⟨"/w"⟩ own.name own.roles
      [⟨"b", .production⟩, ⟨"c", .development⟩]
      [⟨⟨"/w/node_modules/b"⟩, "w", .production, [.standard]⟩,
        ⟨⟨"/w/node_modules/c"⟩, "w", .development, [.test]⟩] := callsFor_iff.mpr (by decide +kernel)
  have same : last = ringModules := by decide +kernel
  rw [← same]
  have around : ringWorkspace.Explores ringDisk ⟨withC, []⟩
      [⟨⟨"/w/node_modules/b"⟩, "c", .peer, [.standard]⟩] [] (.ok ⟨ring, []⟩) := by
    refine .goesOn ?_ closes (.done _) (.done _)
    exact readB
  have inner : ringWorkspace.Explores ringDisk ⟨withB, []⟩
      [⟨⟨"/w/node_modules/c"⟩, "b", .production, [.standard]⟩] ["c"] (.ok ⟨ring, []⟩) := by
    refine .goesOn ?_ addsC around (.done _)
    exact readC
  have outer : ringWorkspace.Explores ringDisk ⟨ring, []⟩
      [⟨⟨"/w/node_modules/c"⟩, "w", .development, [.test]⟩] [] (.ok ⟨last, []⟩) := by
    refine .goesOn ?_ tests (.done _) (.done _)
    exact readC
  rw [sorted] at lists
  refine ⟨_, _, lists, calls, .goesOn ?_ addsB inner outer⟩
  exact readB

theorem walk_isInDepth_ring : load ringDisk ⟨"/w"⟩ = .ok ringWorkspace ∧
    ringWorkspace.IsInDepth ringDisk ["b", "c"] (.ok ⟨ringModules, []⟩) := by
  have loaded : load ringDisk ⟨"/w"⟩ = .ok ringWorkspace := eq_ok_of_toOption (by decide +kernel)
  obtain ⟨expanded, result, h⟩ := walk_isInDepth loaded
  obtain ⟨rfl, rfl⟩ := (h.searched _ _).mp (searches_ring (load_eq_ok_iff.mp loaded).2.1)
  exact ⟨loaded, h⟩

end Ring

end Workspace

end WorkspaceBuild
