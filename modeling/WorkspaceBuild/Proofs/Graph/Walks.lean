import WorkspaceBuild.Proofs.Graph.Sizes
import Mathlib.Logic.Relation

/-! # The walk, visit by visit

The walk keeps what is still to be visited in a list. Each visit comes to a package, and what it does
to the graph does not depend on the rest of the list. Whatever is pending is what a module depends on,
so that a walk fails at a package without a readable descriptor only.
-/

namespace WorkspaceBuild

open Relation

theorem map_eq_error {α β ε : Type} {f : α → β} {result : Except ε α} {e : ε} :
    result.map f = .error e ↔ result = .error e := by
  cases result with
  | ok x => simp [Except.map]
  | error e => simp [Except.map]

namespace ModuleGraph

variable {g next : ModuleGraph}

/-- A module depends on another in some way. -/
def Leads (g : ModuleGraph) (parent child : String) : Prop := ∃ kind, g.HasEdge parent child kind

theorem Leads.addNode {node : GraphNode} (fresh : g.contains node.name = false)
    {parent child : String} (leads : g.Leads parent child) :
    (g.addNode node).2.Leads parent child := by
  obtain ⟨kind, edge⟩ := leads
  have other : parent ≠ node.name := by
    rintro rfl
    rw [edge.contains] at fresh
    cases fresh
  obtain ⟨found, there, member⟩ := edge
  exact ⟨kind, found, by rw [get?_addNode fresh, if_neg other, there], member⟩

theorem Leads.addEdge {parent child : String} {kind : DependencyKind}
    (added : g.addEdge parent child kind = .ok next) {source target : String}
    (leads : g.Leads source target) : next.Leads source target := by
  by_cases same : parent = child
  · rw [ModuleGraph.addEdge, if_pos same] at added
    cases added
    exact leads
  · exact (Consistent.hasEdge_addEdge added same).mpr (.inr leads)

theorem leads_of_addEdge {parent child : String} {kind : DependencyKind}
    (added : g.addEdge parent child kind = .ok next) (distinct : parent ≠ child) :
    next.Leads parent child :=
  (Consistent.hasEdge_addEdge added distinct).mpr (.inl ⟨rfl, rfl⟩)

/-- A dependency of one module on another can be recorded. -/
theorem exists_addEdge {parent child : String} (kind : DependencyKind)
    (hasParent : g.contains parent = true) (hasChild : g.contains child = true) :
    ∃ next, g.addEdge parent child kind = .ok next := by
  by_cases same : parent = child
  · exact ⟨g, by rw [addEdge, if_pos same]⟩
  · exact ⟨_, by rw [addEdge, if_neg same, hasChild, hasParent]; rfl⟩

end ModuleGraph

/-- Reading a descriptor does not look at modules. -/
theorem Descriptor.load_ne_unknownModule {disk : Disk} {folder : Path} (name : String) :
    Descriptor.load disk folder ≠ .error (.unknownModule name) := by
  intro failed
  rw [load] at failed
  split at failed
  · split at failed
    · rw [parse] at failed
      split at failed <;> cases failed
    · cases failed
  · cases failed

namespace Workspace

variable {w : Workspace} {disk : Disk}

/-- What a walk has found so far: the modules, and the packages that it leaves out. -/
structure Found where
  graph : ModuleGraph
  pruned : List String
  deriving DecidableEq, Inhabited, Repr

/-- Come to a package: what is found then, the package itself where its dependencies are looked for
now, and the visits to these. -/
def meet (w : Workspace) (disk : Disk) (found : Found) (visit : Visit) :
    Except PackageError (Found × List String × List Visit) :=
  match Descriptor.load disk visit.folder with
  | .error e => .error e
  | .ok descriptor =>
      let name := descriptor.nameOr visit.folder
      if found.graph.contains name then
        (revisit found.graph visit name).map fun graph => (⟨graph, found.pruned⟩, [], [])
      else if found.pruned.contains name then .ok (found, [], [])
      else if !w.accepts descriptor visit.folder then
        .ok (⟨found.graph, name :: found.pruned⟩, [], [])
      else
        (w.expand disk found.graph visit descriptor).map fun (graph, visits) =>
          (⟨graph, found.pruned⟩, [name], visits)

/-- The ways in which one comes to a package, once its descriptor is read. -/
inductive Meets (w : Workspace) (disk : Disk) (found : Found) (visit : Visit)
    (descriptor : Descriptor) : Found → List String → List Visit → Prop where
  | again {graph : ModuleGraph}
      (known : found.graph.contains (descriptor.nameOr visit.folder) = true)
      (revisited : revisit found.graph visit (descriptor.nameOr visit.folder) = .ok graph) :
      Meets w disk found visit descriptor ⟨graph, found.pruned⟩ [] []
  | passed (fresh : found.graph.contains (descriptor.nameOr visit.folder) = false)
      (left : found.pruned.contains (descriptor.nameOr visit.folder) = true) :
      Meets w disk found visit descriptor found [] []
  | refused (fresh : found.graph.contains (descriptor.nameOr visit.folder) = false)
      (kept : found.pruned.contains (descriptor.nameOr visit.folder) = false)
      (foreign : w.accepts descriptor visit.folder = false) :
      Meets w disk found visit descriptor
        ⟨found.graph, descriptor.nameOr visit.folder :: found.pruned⟩ [] []
  | joined {graph : ModuleGraph} {visits : List Visit}
      (fresh : found.graph.contains (descriptor.nameOr visit.folder) = false)
      (kept : found.pruned.contains (descriptor.nameOr visit.folder) = false)
      (accepted : w.accepts descriptor visit.folder = true)
      (expanded : w.expand disk found.graph visit descriptor = .ok (graph, visits)) :
      Meets w disk found visit descriptor ⟨graph, found.pruned⟩
        [descriptor.nameOr visit.folder] visits

variable {found next : Found} {visit : Visit} {rest pending visits : List Visit}
  {names expanded : List String} {result : Except PackageError Found}

theorem meet_eq_ok_iff : w.meet disk found visit = .ok (next, names, visits) ↔
    ∃ descriptor, Descriptor.load disk visit.folder = .ok descriptor ∧
      w.Meets disk found visit descriptor next names visits := by
  constructor
  · intro met
    unfold meet at met
    split at met
    · cases met
    · rename_i descriptor loaded
      refine ⟨descriptor, loaded, ?_⟩
      simp only [Bool.not_eq_true'] at met
      split at met
      · rename_i known
        obtain ⟨graph, revisited, same⟩ := map_eq_ok.mp met
        cases same
        exact .again known revisited
      · rename_i fresh
        rw [Bool.not_eq_true] at fresh
        split at met
        · rename_i left
          cases met
          exact .passed fresh left
        · rename_i kept
          rw [Bool.not_eq_true] at kept
          split at met
          · rename_i foreign
            cases met
            exact .refused fresh kept foreign
          · rename_i accepted
            obtain ⟨⟨graph, more⟩, expanded, same⟩ := map_eq_ok.mp met
            cases same
            exact .joined fresh kept (by simpa using accepted) expanded
  · rintro ⟨descriptor, loaded, meets⟩
    unfold meet
    rw [loaded]
    cases meets with
    | again known revisited => simp only [known, revisited, if_true, Except.map]
    | passed fresh left => simp only [fresh, left, Bool.false_eq_true, if_false, if_true]
    | refused fresh kept foreign =>
        simp only [fresh, kept, foreign, Bool.not_false, Bool.false_eq_true, if_false, if_true]
    | joined fresh kept accepted expanded =>
        simp only [fresh, kept, accepted, expanded, Bool.not_true, Bool.false_eq_true, if_false,
          Except.map]

/-- One cannot come to a package that has no descriptor, or where its dependency is not recorded. -/
theorem meet_eq_error_iff {e : PackageError} : w.meet disk found visit = .error e ↔
    Descriptor.load disk visit.folder = .error e ∨
      ∃ descriptor, Descriptor.load disk visit.folder = .ok descriptor ∧
        ((found.graph.contains (descriptor.nameOr visit.folder) = true ∧
            revisit found.graph visit (descriptor.nameOr visit.folder) = .error e) ∨
          (found.graph.contains (descriptor.nameOr visit.folder) = false ∧
            found.pruned.contains (descriptor.nameOr visit.folder) = false ∧
            w.accepts descriptor visit.folder = true ∧
            w.expand disk found.graph visit descriptor = .error e)) := by
  unfold meet
  cases Descriptor.load disk visit.folder with
  | error cause => simp
  | ok descriptor =>
      simp only [reduceCtorEq, Except.ok.injEq, exists_eq_left', false_or]
      cases found.graph.contains (descriptor.nameOr visit.folder) with
      | true =>
          cases revisit found.graph visit (descriptor.nameOr visit.folder) <;> simp [Except.map]
      | false =>
          cases found.pruned.contains (descriptor.nameOr visit.folder) <;>
            cases w.accepts descriptor visit.folder <;>
              cases w.expand disk found.graph visit descriptor <;> simp [Except.map]

/-- A walk with a list of what is to be visited: what a new module depends on is put before the
rest. It tells the packages whose dependencies it looked for, in their order. -/
inductive Stacked (w : Workspace) (disk : Disk) :
    Found → List Visit → List String → Except PackageError Found → Prop where
  | done (found : Found) : Stacked w disk found [] [] (.ok found)
  | fails {found : Found} {visit : Visit} {rest : List Visit} {e : PackageError}
      (met : w.meet disk found visit = .error e) :
      Stacked w disk found (visit :: rest) [] (.error e)
  | step {found next : Found} {visit : Visit} {rest visits : List Visit}
      {names expanded : List String} {result : Except PackageError Found}
      (met : w.meet disk found visit = .ok (next, names, visits))
      (run : Stacked w disk next (visits ++ rest) expanded result) :
      Stacked w disk found (visit :: rest) (names ++ expanded) result

theorem Stacked.unique {others : List String} {outcome : Except PackageError Found}
    (run : w.Stacked disk found pending expanded result)
    (other : w.Stacked disk found pending others outcome) :
    others = expanded ∧ outcome = result := by
  induction run generalizing others outcome with
  | done found =>
      cases other
      exact ⟨rfl, rfl⟩
  | fails met =>
      cases other with
      | fails alsoMet =>
          cases met.symm.trans alsoMet
          exact ⟨rfl, rfl⟩
      | step alsoMet run => cases met.symm.trans alsoMet
  | step met run ih =>
      cases other with
      | fails alsoMet => cases met.symm.trans alsoMet
      | step alsoMet more =>
          cases met.symm.trans alsoMet
          obtain ⟨rfl, rfl⟩ := ih more
          exact ⟨rfl, rfl⟩

/-- A walk that is not cut off comes to its end. -/
theorem exists_stacked {allowed : Nat} {graph : ModuleGraph} {pruned : List String}
    (whole : ∀ walk, w.walkOn disk allowed graph pruned pending = .ok walk → walk.pending = []) :
    ∃ expanded, w.Stacked disk ⟨graph, pruned⟩ pending expanded
      ((w.walkOn disk allowed graph pruned pending).map fun walk => ⟨walk.graph, walk.pruned⟩) := by
  fun_induction walkOn w disk allowed graph pruned pending with
  | case1 allowed graph pruned => exact ⟨[], .done _⟩
  | case2 allowed graph pruned visit rest e failed =>
      exact ⟨[], .fails (meet_eq_error_iff.mpr (.inl failed))⟩
  | case3 allowed graph pruned visit rest descriptor loaded name known e failed =>
      exact ⟨[], .fails (meet_eq_error_iff.mpr (.inr ⟨_, loaded, .inl ⟨known, failed⟩⟩))⟩
  | case4 allowed graph pruned visit rest descriptor loaded name known next revisited ih =>
      obtain ⟨expanded, run⟩ := ih whole
      exact ⟨_, .step (meet_eq_ok_iff.mpr ⟨_, loaded, .again known revisited⟩) run⟩
  | case5 allowed graph pruned visit rest descriptor loaded name fresh left ih =>
      obtain ⟨expanded, run⟩ := ih whole
      exact ⟨_, .step (meet_eq_ok_iff.mpr ⟨_, loaded, .passed (by simpa using fresh) left⟩) run⟩
  | case6 allowed graph pruned visit rest descriptor loaded name fresh kept refused ih =>
      obtain ⟨expanded, run⟩ := ih whole
      exact ⟨_, .step (meet_eq_ok_iff.mpr ⟨_, loaded,
        .refused (by simpa using fresh) (by simpa using kept) (by simpa using refused)⟩) run⟩
  | case7 =>
      have left := whole _ rfl
      cases left
  | case8 graph pruned visit rest descriptor loaded name fresh kept accepted allowed e failed =>
      exact ⟨[], .fails (meet_eq_error_iff.mpr (.inr ⟨_, loaded, .inr
        ⟨by simpa using fresh, by simpa using kept, by simpa using accepted, failed⟩⟩))⟩
  | case9 graph pruned visit rest descriptor loaded name fresh kept accepted allowed next visits
      expanded ih =>
      obtain ⟨later, run⟩ := ih whole
      exact ⟨_, .step (meet_eq_ok_iff.mpr ⟨_, loaded,
        .joined (by simpa using fresh) (by simpa using kept) (by simpa using accepted) expanded⟩) run⟩

/-- What a walk starts from. -/
def Found.start (w : Workspace) (disk : Disk) : Found :=
  ⟨(w.start disk).graph, (w.start disk).pruned⟩

theorem exists_stacked_start (own : Descriptor.load disk w.root = .ok w.descriptor) :
    ∃ expanded result, w.Stacked disk (.start w disk) (w.start disk).pending expanded result ∧
      w.walk disk = result.map Found.graph := by
  obtain ⟨expanded, run⟩ := exists_stacked fun walk walked => pending_of_start own walked
  refine ⟨expanded, _, run, ?_⟩
  rw [walk]
  cases w.walkOn disk (mostModules disk) (w.start disk).graph (w.start disk).pruned
    (w.start disk).pending <;> rfl

theorem Stacked.walk_eq (own : Descriptor.load disk w.root = .ok w.descriptor)
    (run : w.Stacked disk (.start w disk) (w.start disk).pending expanded result) :
    w.walk disk = result.map Found.graph := by
  obtain ⟨others, outcome, other, walked⟩ := exists_stacked_start own
  rw [walked, (run.unique other).2]

/-- What a walk has found, before it visits what is pending: whatever is to be visited is what a
module depends on, and all modules are reached from the workspace's own. -/
structure IsUnderway (own : String) (graph : ModuleGraph) (pending : List Visit) : Prop where
  consistent : graph.Consistent
  parents : ∀ visit ∈ pending, graph.contains visit.parent = true
  reached : ∀ name, graph.contains name = true → ReflTransGen graph.Leads own name

section Underway

variable {own : String} {graph after : ModuleGraph} {descriptor : Descriptor}

theorem contains_start (w : Workspace) (disk : Disk) {name : String} :
    (w.start disk).graph.contains name = true ↔ name = w.descriptor.nameOr w.root := by
  rw [ModuleGraph.contains, Assoc.has_iff]
  exact List.mem_singleton

theorem isUnderway_start (w : Workspace) (disk : Disk) :
    IsUnderway (w.descriptor.nameOr w.root) (w.start disk).graph (w.start disk).pending := by
  refine ⟨.single _ rfl rfl, fun visit listed => ?_, fun name known => ?_⟩
  · obtain ⟨edge, _, found⟩ := List.mem_filterMap.mp listed
    obtain ⟨folder, _, rfl⟩ := Option.map_eq_some_iff.mp found
    exact (contains_start w disk).mpr rfl
  · rw [(contains_start w disk).mp known]

/-- To come again to a module records that one more module depends on it. -/
theorem leads_revisit {name : String} (revisited : revisit graph visit name = .ok after) :
    (∀ source target, graph.Leads source target → after.Leads source target) ∧
      (visit.parent ≠ name → after.Leads visit.parent name) ∧ after.order = graph.order ∧
        ∀ other, after.contains other = graph.contains other := by
  obtain ⟨linked, added, same⟩ := bind_eq_ok.mp revisited
  cases same
  have shape := sameShape_inherit linked name visit.inherited
  have kept {source target : String} (leads : linked.Leads source target) :
      (linked.update name (inherit visit.inherited)).Leads source target := by
    obtain ⟨kind, edge⟩ := leads
    exact ⟨kind, shape.hasEdge edge⟩
  refine ⟨fun source target leads => kept (.addEdge added leads),
    fun distinct => kept (ModuleGraph.leads_of_addEdge added distinct),
    shape.order.trans (ModuleGraph.order_addEdge added), fun other => ?_⟩
  exact (shape.contains other).trans
    (ModuleGraph.contains_of_keys (ModuleGraph.Grows.addEdge added).2 other)

theorem consistent_revisit {name : String} (consistent : graph.Consistent)
    (revisited : revisit graph visit name = .ok after) : after.Consistent := by
  obtain ⟨linked, added, same⟩ := bind_eq_ok.mp revisited
  cases same
  exact (sameShape_inherit linked name visit.inherited).consistent (consistent.addEdge added)

/-- A package that becomes a module is what the module depends on that it was found from. -/
theorem leads_expand (fresh : graph.contains (descriptor.nameOr visit.folder) = false)
    (expanded : w.expand disk graph visit descriptor = .ok (after, visits)) :
    (∀ source target, graph.Leads source target → after.Leads source target) ∧
      (visit.parent ≠ descriptor.nameOr visit.folder →
        after.Leads visit.parent (descriptor.nameOr visit.folder)) ∧
      after.order = graph.order ++ [descriptor.nameOr visit.folder] ∧
        ∀ other, after.contains other = true ↔
          graph.contains other = true ∨ other = descriptor.nameOr visit.folder := by
  obtain ⟨linked, added, same⟩ := bind_eq_ok.mp expanded
  cases same
  generalize node_eq : ({ w.nodeOf descriptor visit.folder false with
    roles := rolesWhenFound (w.nodeOf descriptor visit.folder false) visit.inherited } : GraphNode) =
      node at added
  have name : node.name = descriptor.nameOr visit.folder := node_eq ▸ rfl
  rw [← name] at fresh ⊢
  refine ⟨fun source target leads => .addEdge added (.addNode fresh leads),
    ModuleGraph.leads_of_addEdge added, ?_, fun other => ?_⟩
  · rw [ModuleGraph.order_addEdge added, ModuleGraph.addNode, if_neg (by simp [fresh])]
  · rw [ModuleGraph.contains_of_keys (ModuleGraph.Grows.addEdge added).2]
    exact ModuleGraph.contains_addNode fresh

theorem consistent_expand (consistent : graph.Consistent)
    (expanded : w.expand disk graph visit descriptor = .ok (after, visits)) :
    after.Consistent ∧ ∀ next ∈ visits, next.parent = descriptor.nameOr visit.folder := by
  obtain ⟨linked, added, same⟩ := bind_eq_ok.mp expanded
  cases same
  refine ⟨(consistent.addNode _ rfl rfl).addEdge added, fun next listed => ?_⟩
  obtain ⟨edge, _, there⟩ := List.mem_filterMap.mp listed
  obtain ⟨folder, _, rfl⟩ := Option.map_eq_some_iff.mp there
  rfl

theorem IsUnderway.after_revisit {name : String} (h : IsUnderway own graph (visit :: rest))
    (revisited : revisit graph visit name = .ok after) : IsUnderway own after rest := by
  obtain ⟨leads, _, _, contains⟩ := leads_revisit revisited
  refine ⟨consistent_revisit h.consistent revisited, fun next listed => ?_, fun other known => ?_⟩
  · rw [contains]
    exact h.parents next (List.mem_cons_of_mem _ listed)
  · rw [contains] at known
    exact ReflTransGen.mono leads _ _ (h.reached other known)

theorem IsUnderway.after_expand (h : IsUnderway own graph (visit :: rest))
    (fresh : graph.contains (descriptor.nameOr visit.folder) = false)
    (expanded : w.expand disk graph visit descriptor = .ok (after, visits)) :
    IsUnderway own after (visits ++ rest) := by
  obtain ⟨leads, link, _, contains⟩ := leads_expand fresh expanded
  obtain ⟨consistent, asked⟩ := consistent_expand h.consistent expanded
  have known : graph.contains visit.parent = true := h.parents visit List.mem_cons_self
  refine ⟨consistent, fun next listed => ?_, fun other holds => ?_⟩
  · rcases List.mem_append.mp listed with new | old
    · exact (contains _).mpr (.inr (asked next new))
    · exact (contains _).mpr (.inl (h.parents next (List.mem_cons_of_mem _ old)))
  · rcases (contains other).mp holds with old | rfl
    · exact ReflTransGen.mono leads _ _ (h.reached other old)
    · have distinct : visit.parent ≠ descriptor.nameOr visit.folder := fun same => by
        rw [same, fresh] at known
        cases known
      exact (ReflTransGen.mono leads _ _ (h.reached _ known)).tail (link distinct)

/-- What is pending can be visited: the dependency is one of a module. -/
theorem IsUnderway.exists_revisit {name : String} (h : IsUnderway own graph (visit :: rest))
    (known : graph.contains name = true) : ∃ after, revisit graph visit name = .ok after := by
  obtain ⟨linked, added⟩ :=
    ModuleGraph.exists_addEdge visit.kind (h.parents visit List.mem_cons_self) known
  exact ⟨_, bind_eq_ok.mpr ⟨linked, added, rfl⟩⟩

theorem IsUnderway.exists_expand (h : IsUnderway own graph (visit :: rest))
    (fresh : graph.contains (descriptor.nameOr visit.folder) = false) :
    ∃ after, w.expand disk graph visit descriptor = .ok after := by
  let node : GraphNode := { w.nodeOf descriptor visit.folder false with
    roles := rolesWhenFound (w.nodeOf descriptor visit.folder false) visit.inherited }
  have contains (other : String) : (graph.addNode node).2.contains other = true ↔
      graph.contains other = true ∨ other = node.name := ModuleGraph.contains_addNode fresh
  obtain ⟨linked, added⟩ := ModuleGraph.exists_addEdge visit.kind
    ((contains _).mpr (.inl (h.parents visit List.mem_cons_self))) ((contains _).mpr (.inr rfl))
  exact ⟨_, bind_eq_ok.mpr ⟨linked, added, rfl⟩⟩

/-- A walk fails where there is a package without a readable descriptor, and nowhere else. -/
theorem IsUnderway.load_of_fails {e : PackageError}
    (h : IsUnderway own found.graph (visit :: rest)) (failed : w.meet disk found visit = .error e) :
    Descriptor.load disk visit.folder = .error e := by
  rcases meet_eq_error_iff.mp failed with unread | ⟨descriptor, _, ⟨known, failed⟩ | fails⟩
  · exact unread
  · obtain ⟨after, done⟩ := h.exists_revisit known
    cases done.symm.trans failed
  · obtain ⟨fresh, _, _, failed⟩ := fails
    have done : ∃ after, w.expand disk found.graph visit descriptor = .ok after :=
      h.exists_expand fresh
    rw [failed] at done
    obtain ⟨_, same⟩ := done
    cases same

/-- What one visit does to a walk. -/
theorem IsUnderway.after_meet (h : IsUnderway own found.graph (visit :: rest))
    (met : w.meet disk found visit = .ok (next, names, visits)) :
    IsUnderway own next.graph (visits ++ rest) ∧ next.graph.order = found.graph.order ++ names ∧
      (∀ name, next.graph.contains name = true ↔
        found.graph.contains name = true ∨ name ∈ names) ∧
      names.Nodup ∧ ∀ name ∈ names, found.graph.contains name = false := by
  have passed : IsUnderway own found.graph rest :=
    ⟨h.consistent, fun visit listed => h.parents visit (List.mem_cons_of_mem _ listed), h.reached⟩
  obtain ⟨descriptor, _, meets⟩ := meet_eq_ok_iff.mp met
  cases meets with
  | again known revisited =>
      obtain ⟨_, _, order, contains⟩ := leads_revisit revisited
      exact ⟨h.after_revisit revisited, by rw [order, List.append_nil], by simp [contains],
        List.nodup_nil, by simp⟩
  | passed fresh left => exact ⟨passed, by simp, by simp, List.nodup_nil, by simp⟩
  | refused fresh kept foreign => exact ⟨passed, by simp, by simp, List.nodup_nil, by simp⟩
  | joined fresh kept accepted expanded =>
      obtain ⟨_, _, order, contains⟩ := leads_expand fresh expanded
      exact ⟨h.after_expand fresh expanded, order, by simpa using contains, List.nodup_singleton _,
        by simpa using fresh⟩

/-- What a whole walk comes to, from what it has found and what it tells. -/
structure Ends (own : String) (found : Found) (expanded : List String)
    (result : Except PackageError Found) : Prop where
  once : expanded.Nodup
  new : ∀ name ∈ expanded, found.graph.contains name = false
  known : ∀ name, result ≠ .error (.unknownModule name)
  underway : ∀ last, result = .ok last → IsUnderway own last.graph []
  order : ∀ last, result = .ok last → last.graph.order = found.graph.order ++ expanded
  contains : ∀ last, result = .ok last → ∀ name, last.graph.contains name = true ↔
    found.graph.contains name = true ∨ name ∈ expanded

theorem Stacked.ends (h : IsUnderway own found.graph pending)
    (run : w.Stacked disk found pending expanded result) : Ends own found expanded result := by
  induction run with
  | done found =>
      exact
        { once := List.nodup_nil
          new := by simp
          known := fun name same => by cases same
          underway := fun last same => Except.ok.inj same ▸ h
          order := fun last same => by rw [← Except.ok.inj same, List.append_nil]
          contains := fun last same name => by simp [← Except.ok.inj same] }
  | fails met =>
      have unread := h.load_of_fails met
      exact
        { once := List.nodup_nil
          new := by simp
          known := fun name same => by
            rw [Except.error.inj same] at unread
            exact Descriptor.load_ne_unknownModule name unread
          underway := fun last same => by cases same
          order := fun last same => by cases same
          contains := fun last same => by cases same }
  | step met run ih =>
      obtain ⟨underway, order, contains, distinct, fresh⟩ := h.after_meet met
      have ends := ih underway
      have later {name : String} (listed : name ∈ _) :=
        (not_congr (contains name)).mp (by simpa using ends.new name listed)
      exact
        { once := List.nodup_append'.mpr ⟨distinct, ends.once, fun name here there =>
            later there (.inr here)⟩
          new := fun name listed => (List.mem_append.mp listed).elim (fresh name) fun there => by
            simpa using fun known => later there (.inl known)
          known := ends.known
          underway := ends.underway
          order := fun last same => by rw [ends.order last same, order, List.append_assoc]
          contains := fun last same name => by
            rw [ends.contains last same, contains, List.mem_append, or_assoc] }

end Underway

theorem mem_dependenciesOf_iff {descriptor : Descriptor} {main : Bool} {edge : Edge} :
    edge ∈ dependenciesOf descriptor main ↔
      (edge.kind = .production ∧ edge.name ∈ descriptor.dependencies.keys) ∨
      (edge.kind = .peer ∧ edge.name ∈ descriptor.peerDependencies.keys) ∨
      (main = true ∧ edge.kind = .development ∧ edge.name ∈ descriptor.devDependencies.keys) := by
  have named (table : Assoc String String) (kind : DependencyKind) :
      edge ∈ table.keys.map (fun name => (⟨name, kind⟩ : Edge)) ↔
        edge.kind = kind ∧ edge.name ∈ table.keys := by
    rw [List.mem_map]
    constructor
    · rintro ⟨name, listed, rfl⟩
      exact ⟨rfl, listed⟩
    · rintro ⟨rfl, listed⟩
      exact ⟨edge.name, listed, rfl⟩
  rw [dependenciesOf, List.mem_mergeSort, List.mem_append, List.mem_append, named, named, or_assoc]
  cases main with
  | true => rw [if_pos rfl, named, and_iff_right rfl]
  | false => simp

/-- What a package depends on is visited by name, and by kind under one name. -/
theorem pairwise_dependenciesOf (descriptor : Descriptor) (main : Bool) :
    (dependenciesOf descriptor main).Pairwise fun a b =>
      a.name < b.name ∨ (a.name = b.name ∧ (compare a.kind b.kind).isLE = true) := by
  have notAfter (a b : Edge) : edgeNotAfter a b = true ↔
      a.name < b.name ∨ (a.name = b.name ∧ (compare a.kind b.kind).isLE = true) := by
    rw [edgeNotAfter, Bool.or_eq_true, Bool.and_eq_true, decide_eq_true_iff, decide_eq_true_iff]
  have kinds (a b c : DependencyKind) : (compare a b).isLE = true → (compare b c).isLE = true →
      (compare a c).isLE = true := by
    cases a <;> cases b <;> cases c <;> decide
  have total (a b : DependencyKind) : (compare a b).isLE = true ∨ (compare b a).isLE = true := by
    cases a <;> cases b <;> decide
  refine (List.pairwise_mergeSort (fun a b c first second => ?_) (fun a b => ?_) _).imp
    fun {a b} ordered => (notAfter a b).mp ordered
  · rw [notAfter] at *
    rcases first with less | ⟨same, le⟩ <;> rcases second with lessToo | ⟨sameToo, leToo⟩
    · exact .inl (String.lt_trans less lessToo)
    · exact .inl (sameToo ▸ less)
    · exact .inl (same ▸ lessToo)
    · exact .inr ⟨same.trans sameToo, kinds _ _ _ le leToo⟩
  · rw [Bool.or_eq_true, notAfter, notAfter]
    rcases lt_trichotomy a.name b.name with less | same | more
    · exact .inl (.inl less)
    · exact (total a.kind b.kind).imp (fun le => .inr ⟨same, le⟩) fun le => .inr ⟨same.symm, le⟩
    · exact .inr (.inl more)

end Workspace

end WorkspaceBuild
