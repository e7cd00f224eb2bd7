import WorkspaceBuild.Proofs.Types.Plans

/-! # Back references of resolved types

A pointer is written where a shape or class is met again, and names the number handed out when it was
first met. The node of this number is in the description as long as nothing is lost from it on the
way: two things lose nodes, the merging of shapes that an intersection combines, and a second
property of one name. Where a table has neither, no pointer dangles.
-/

namespace WorkspaceBuild

namespace ResolvedType

mutual

/-- The numbers of the shapes and classes that a description is made of. -/
def numbers : ResolvedType → List Nat
  | .literal _ _ arguments => listNumbers arguments
  | .managed _ _ arguments refId => refId :: listNumbers arguments
  | .shape _ fields _ refId => refId :: fieldNumbers fields
  | .composition _ subTypes _ _ _ => listNumbers subTypes
  | .tuple elementTypes _ => listNumbers elementTypes
  | .template _ => []
  | .foreign _ _ => []
  | .pointer _ _ => []
  | .unknown => []

def listNumbers : List ResolvedType → List Nat
  | [] => []
  | t :: rest => numbers t ++ listNumbers rest

/-- The numbers in the types of fields. -/
def fieldNumbers : List (String × ResolvedType) → List Nat
  | [] => []
  | (_, t) :: rest => numbers t ++ fieldNumbers rest

end

mutual

/-- The numbers that the pointers of a description name. -/
def pointers : ResolvedType → List Nat
  | .literal _ _ arguments => listPointers arguments
  | .managed _ _ arguments _ => listPointers arguments
  | .shape _ fields _ _ => fieldPointers fields
  | .composition _ subTypes _ _ _ => listPointers subTypes
  | .tuple elementTypes _ => listPointers elementTypes
  | .template _ => []
  | .foreign _ _ => []
  | .pointer refId _ => [refId]
  | .unknown => []

def listPointers : List ResolvedType → List Nat
  | [] => []
  | t :: rest => pointers t ++ listPointers rest

/-- The numbers named by pointers in the types of fields. -/
def fieldPointers : List (String × ResolvedType) → List Nat
  | [] => []
  | (_, t) :: rest => pointers t ++ fieldPointers rest

end

/-- Every pointer names the number of a shape or class of the same description. -/
def IsClosed (t : ResolvedType) : Prop := ∀ n ∈ t.pointers, n ∈ t.numbers

instance (t : ResolvedType) : Decidable t.IsClosed :=
  inferInstanceAs (Decidable (∀ n ∈ t.pointers, n ∈ t.numbers))

theorem mem_fieldNumbers {fields : List (String × ResolvedType)} {n : Nat} :
    n ∈ fieldNumbers fields ↔ ∃ field ∈ fields, n ∈ field.2.numbers := by
  induction fields with
  | nil => simp [fieldNumbers]
  | cons field rest ih => simp [fieldNumbers, ih]

theorem mem_fieldPointers {fields : List (String × ResolvedType)} {n : Nat} :
    n ∈ fieldPointers fields ↔ ∃ field ∈ fields, n ∈ field.2.pointers := by
  induction fields with
  | nil => simp [fieldPointers]
  | cons field rest ih => simp [fieldPointers, ih]

end ResolvedType

namespace TypeResolver

open ResolvedType

/-- The numbers of the types described so far. -/
def Visited.numbers (visited : Visited) : List Nat := visited.seen.map fun entry => entry.2.1

/-- A part of a description, given by its numbers and those its pointers name, that loses none of the
types described on the way to it. -/
structure Keeps (numbers pointers : List Nat) (before after : Visited) : Prop where
  grows : ∀ n ∈ before.numbers, n ∈ after.numbers
  known : ∀ n ∈ pointers, n ∈ after.numbers
  kept : ∀ n ∈ after.numbers, n ∈ before.numbers ∨ n ∈ numbers

namespace Keeps

variable {first second pointers more : List Nat} {before middle after : Visited}

theorem idle (before : Visited) : Keeps [] [] before before :=
  ⟨fun _ h => h, by simp, fun _ h => .inl h⟩

theorem trans (left : Keeps first pointers before middle) (right : Keeps second more middle after) :
    Keeps (first ++ second) (pointers ++ more) before after where
  grows n h := right.grows n (left.grows n h)
  known n h := by
    rcases List.mem_append.mp h with h | h
    · exact right.grows n (left.known n h)
    · exact right.known n h
  kept n h := by
    rcases right.kept n h with h | h
    · rcases left.kept n h with h | h
      · exact .inl h
      · exact .inr (List.mem_append_left _ h)
    · exact .inr (List.mem_append_right _ h)

/-- Parts may be put together in any way that keeps all their numbers and adds no pointer. -/
theorem mono (h : Keeps first pointers before after) (all : ∀ n ∈ first, n ∈ second)
    (named : ∀ n ∈ more, n ∈ pointers) : Keeps second more before after :=
  ⟨h.grows, fun n m => h.known n (named n m), fun n m => (h.kept n m).imp_right (all n)⟩

/-- A number handed out to a type has to be that of the node made for it. -/
theorem remember {id : TypeId} {name : Option String}
    (h : Keeps first pointers (before.remember id name).2 after) :
    Keeps (before.nextRef :: first) pointers before after where
  grows n m := h.grows n (List.mem_cons_of_mem _ m)
  known := h.known
  kept n m := by
    rcases h.kept n m with m | m
    · rcases List.mem_cons.mp m with rfl | m
      · exact .inr List.mem_cons_self
      · exact .inl m
    · exact .inr (List.mem_cons_of_mem _ m)

/-- A description that is complete by itself loses nothing, so its pointers lead to it. -/
theorem isClosed {t : ResolvedType} (h : Keeps t.numbers t.pointers {} after) : t.IsClosed := by
  intro n named
  have handedOut := h.kept n (h.known n named)
  simpa [Visited.numbers] using handedOut

end Keeps

/-- A resolution of types whose results keep all that is described on the way. -/
def KeepsAll (run : Resolution ResolvedType) : Prop :=
  ∀ before t after, run before = .ok (t, after) → Keeps t.numbers t.pointers before after

section Parts

variable {scope : Scope} {visit : TypeId → Resolution ResolvedType} {before after : Visited}

/-- A pointer names a type described before. -/
theorem keeps_pointer {id : TypeId} {label : Nat × Option String}
    (listed : (id, label) ∈ before.seen) : Keeps [] [label.1] before before where
  grows _ h := h
  known := List.forall_mem_singleton.mpr (List.mem_map_of_mem listed)
  kept _ h := .inl h

theorem keeps_resolveAll (each : ∀ id, KeepsAll (visit id)) {ids : List TypeId}
    {types : List ResolvedType} (resolved : resolveAll visit ids before = .ok (types, after)) :
    Keeps (listNumbers types) (listPointers types) before after := by
  induction ids generalizing before types with
  | nil =>
      cases resolved
      exact .idle _
  | cons id rest ih =>
      obtain ⟨first, middle, others, visited, later, rfl⟩ := resolveAll_cons_eq_ok.mp resolved
      exact (each id _ _ _ visited).trans (ih later)

/-- Fields put into a table under new names stay in it. -/
theorem keeps_resolveFields (each : ∀ id, KeepsAll (visit id)) {properties : List PropertyData}
    {fields result : Assoc String ResolvedType} (once : (properties.map PropertyData.name).Nodup)
    (new : ∀ property ∈ properties, property.name ∉ fields.keys)
    (resolved : resolveFields visit properties fields before = .ok (result, after)) :
    (∀ field ∈ fields, field ∈ result) ∧
      ∃ added, (∀ field, field ∈ result ↔ field ∈ fields ∨ field ∈ added) ∧
        Keeps (fieldNumbers added) (fieldPointers added) before after := by
  induction properties generalizing fields before with
  | nil =>
      cases resolved
      exact ⟨fun _ h => h, [], by simp, .idle _⟩
  | cons property rest ih =>
      obtain ⟨type, middle, visited, later⟩ := resolveFields_cons_eq_ok.mp resolved
      rw [List.map_cons, List.nodup_cons] at once
      have absent := new property List.mem_cons_self
      have stillNew : ∀ other ∈ rest, other.name ∉ (fields.put property.name type).keys := by
        intro other member
        rw [Assoc.mem_keys_put, not_or]
        refine ⟨fun same => once.1 ?_, new other (List.mem_cons_of_mem _ member)⟩
        rw [← same]
        exact List.mem_map_of_mem member
      obtain ⟨stay, added, all, keeps⟩ := ih once.2 stillNew later
      simp only [Assoc.mem_put_of_not_mem absent] at all stay
      refine ⟨fun field h => stay field (.inr h), (property.name, type) :: added, fun field => ?_, ?_⟩
      · rw [all, List.mem_cons]
        tauto
      · exact (each _ _ _ _ visited).trans keeps

/-- Templates are made of texts alone. -/
theorem parts_of_templates {members : List ResolvedType} {patterns : List (List String)}
    (templates : members.mapM patternsOf? = some patterns) :
    listNumbers members = [] ∧ listPointers members = [] := by
  induction members generalizing patterns with
  | nil => exact ⟨rfl, rfl⟩
  | cons member rest ih =>
      simp only [List.mapM_cons, Option.bind_eq_bind, Option.bind_eq_some_iff] at templates
      obtain ⟨first, isTemplate, others, later, _⟩ := templates
      cases member <;> simp [patternsOf?] at isTemplate
      simpa [listNumbers, listPointers, ResolvedType.numbers, ResolvedType.pointers] using ih later

/-- The shapes that members of an intersection resolve to become one. -/
def Merges (operator : Operator) (members : List ResolvedType) : Prop :=
  operator = .and ∧ 2 ≤ members.length ∧ (members.mapM shapeFields?).isSome

/-- A composition that merges no shapes is made of all parts of its members. -/
theorem keeps_compose {operator : Operator} {members : List ResolvedType} {nullable optional : Bool}
    {t : ResolvedType} (apart : ¬ Merges operator members)
    (keeps : Keeps (listNumbers members) (listPointers members) before after) {last : Visited}
    (resolved : compose operator members nullable optional after = .ok (t, last)) :
    Keeps t.numbers t.pointers before last := by
  unfold compose at resolved
  split at resolved
  · cases resolved
    exact keeps
  rename_i some
  split at resolved
  · rename_i patterns templates
    obtain ⟨none, nothing⟩ := parts_of_templates templates
    rw [none, nothing] at keeps
    cases resolved
    exact keeps
  split at resolved
  · rename_i member
    cases resolved
    simpa [listNumbers, listPointers] using keeps
  rename_i several
  split at resolved
  · rename_i shapes all
    have atLeastTwo : 2 ≤ members.length := by
      match members, some, several with
      | [], some, _ => exact absurd rfl some
      | [member], _, several => exact absurd rfl (several member)
      | _ :: _ :: _, _, _ => simp
    exact absurd ⟨rfl, atLeastTwo, by simp [all]⟩ apart
  · cases resolved
    exact keeps

/-- What comes of a plan keeps all that is described on the way, when its properties are named once and
its members do not merge. -/
theorem Plan.Yields.keeps {p : Plan} {t : ResolvedType} (yields : p.Yields scope visit before t after)
    (each : ∀ id, KeepsAll (visit id))
    (once : ∀ id name properties mapped, p = .shape id name properties mapped →
      (properties.map PropertyData.name).Nodup)
    (apart : ∀ operator ids, p = .compose operator ids → ∀ before members marks after,
      resolveMembers scope visit ids before = .ok ((members, marks), after) →
        ¬ Merges operator members) : Keeps t.numbers t.pointers before after := by
  cases yields with
  | answer =>
      rename_i isLeaf
      cases isLeaf <;> exact .idle _
  | bareArray => exact .idle _
  | follow visited => exact each _ before t after visited
  | library all => exact keeps_resolveAll each all
  | tuple all => exact keeps_resolveAll each all
  | pointer own listed => exact keeps_pointer listed
  | managed all => exact (keeps_resolveAll each all).remember
  | shape all =>
      obtain ⟨_, added, exact, keeps⟩ :=
        keeps_resolveFields each (once _ _ _ _ rfl) (by simp) all
      refine (keeps.mono ?_ ?_).remember
      · intro n named
        obtain ⟨field, member, named⟩ := mem_fieldNumbers.mp named
        exact mem_fieldNumbers.mpr ⟨field, (exact field).mpr (.inr member), named⟩
      · intro n named
        obtain ⟨field, member, named⟩ := mem_fieldPointers.mp named
        have isAdded : field ∈ added := by simpa [exact] using member
        exact mem_fieldPointers.mpr ⟨field, isAdded, named⟩
  | compose all composed =>
      obtain ⟨kept, resolved⟩ := exists_resolveAll all
      exact keeps_compose (apart _ _ rfl _ _ _ _ all) (keeps_resolveAll each resolved) composed

end Parts

/-- Nothing is lost when the types of a table are resolved: a type names each property once, and the
members of an intersection do not all resolve to shapes, unless there is only one. -/
structure Scope.IsLossless (scope : Scope) : Prop where
  once : ∀ data ∈ scope.types, (data.properties.map PropertyData.name).Nodup
  apart : ∀ data ∈ scope.types, data.flags.meets TypeFlag.union = false →
    ∀ levels before members marks after,
      resolveMembers scope (visit scope levels) data.subTypes before =
        .ok ((members, marks), after) → ¬ Merges .and members

section Whole

variable {scope : Scope}

/-- A plan for a type of a table in which nothing is lost names its properties once. -/
theorem Scope.IsLossless.once_of_plan (lossless : scope.IsLossless) {id own : TypeId}
    {name : Option String} {properties : List PropertyData} {mapped : Bool}
    (isShape : plan scope id = .shape own name properties mapped) :
    (properties.map PropertyData.name).Nodup := by
  obtain ⟨e, fails⟩ | ⟨data, listed, isOf⟩ := exists_isOf_plan scope id
  · rw [isShape] at fails
    cases fails
  · rw [isShape] at isOf
    cases isOf
    exact lossless.once data listed

/-- The members that such a plan combines do not merge. -/
theorem Scope.IsLossless.apart_of_plan (lossless : scope.IsLossless) {levels : Nat} {id : TypeId}
    {operator : Operator} {ids : List TypeId} (isComposition : plan scope id = .compose operator ids)
    {before after : Visited} {members : List ResolvedType} {marks : Bool × Bool}
    (resolved : resolveMembers scope (visit scope levels) ids before = .ok ((members, marks), after)) :
    ¬ Merges operator members := by
  obtain ⟨e, fails⟩ | ⟨data, listed, isOf⟩ := exists_isOf_plan scope id
  · rw [isComposition] at fails
    cases fails
  · rw [isComposition] at isOf
    obtain ⟨rfl, rfl⟩ := isOf
    cases union : data.flags.meets TypeFlag.union with
    | true => simp [Merges]
    | false => simpa using lossless.apart data listed union levels _ _ _ _ resolved

theorem keepsAll_visit (lossless : scope.IsLossless) (levels : Nat) (id : TypeId) :
    KeepsAll (visit scope levels id) := by
  induction levels generalizing id with
  | zero =>
      intro before t after resolved
      cases resolved
  | succ levels ih =>
      intro before t after resolved
      apply (yields_of_visit resolved).keeps ih
      · intro own name properties mapped isShape
        exact lossless.once_of_plan isShape
      · intro operator ids isComposition before members marks after all
        exact lossless.apart_of_plan isComposition all

end Whole

/-- Where nothing is lost on the way, every pointer of a description leads to a node of it. -/
theorem resolve_isClosed {scope : Scope} (lossless : scope.IsLossless) {id : TypeId}
    {t : ResolvedType} (resolved : resolve scope id = .ok t) : t.IsClosed := by
  unfold resolve at resolved
  split at resolved
  · rename_i visited
    cases resolved
    exact (keepsAll_visit lossless _ id _ _ _ visited).isClosed
  · cases resolved
  · cases resolved
    decide

/-- What the first member is resolved to stands first, unless the member is only a mark. -/
theorem head_of_resolveMembers {scope : Scope} {visit : TypeId → Resolution ResolvedType}
    {id : TypeId} {rest : List TypeId} {before after : Visited} {members : List ResolvedType}
    {marks : Bool × Bool} {data : TypeData} (found : scope.types.type? id = some data)
    (notNull : data.flags.meets TypeFlag.null = false)
    (notUndefined : data.flags.meets TypeFlag.undefined = false)
    (resolved : resolveMembers scope visit (id :: rest) before = .ok ((members, marks), after)) :
    ∃ member middle others,
      visit id before = .ok (member, middle) ∧ members = member :: others := by
  simp only [resolveMembers, found, notNull, notUndefined, Bool.false_eq_true, if_false,
    bind_eq_ok, pure_eq_ok] at resolved
  obtain ⟨⟨member, middle⟩, visited, ⟨⟨others, _⟩, _⟩, _, same⟩ := resolved
  cases same
  exact ⟨member, middle, others, visited, rfl⟩

/-- A tree node that refers to itself, with a tag that is a text and a shape at once, and a pair. -/
def sampleScope : Scope where
  types :=
    [.interface "TreeNode" ⟨⟨"/ws/src/tree.ts"⟩, false, false⟩ [⟨"next", 0⟩, ⟨"tag", 2⟩],
      .intrinsic TypeFlag.string "string", .intersection [1, 3], .objectLiteral [⟨"brand", 1⟩],
      .tuple [0, 0]]
  references := .none

theorem isLossless_sampleScope : sampleScope.IsLossless where
  once := by decide
  apart := by
    intro data listed _ levels before members marks after resolved merges
    simp only [sampleScope, List.mem_cons, List.not_mem_nil, or_false] at listed
    rcases listed with rfl | rfl | rfl | rfl | rfl
    case inr.inr.inl =>
      -- the first member is a text, so there is nothing to merge
      cases levels with
      | zero => cases resolved
      | succ levels =>
          have found : sampleScope.types.type? 1 = some (.intrinsic TypeFlag.string "string") := rfl
          obtain ⟨member, middle, others, text, rfl⟩ :=
            head_of_resolveMembers found (by decide) (by decide) resolved
          cases text
          cases merges.2.2
    all_goals
      cases resolved
      exact absurd merges.2.1 (by decide)

theorem resolve_isClosed_sample : sampleScope.IsLossless ∧
    ∃ t, resolve sampleScope 4 = .ok t ∧ t.pointers = [0, 0] ∧ t.IsClosed := by
  have resolved : resolve sampleScope 4 = .ok (.tuple
      [.shape (some "TreeNode")
        [("next", .pointer 0 (some "TreeNode")),
          ("tag", .composition .and
            [.literal "string" none [], .shape none [("brand", .literal "string" none [])] false 1]
            false false none)] false 0,
        .pointer 0 (some "TreeNode")] false) := rfl
  exact ⟨isLossless_sampleScope, _, resolved, rfl, resolve_isClosed isLossless_sampleScope resolved⟩

/-- A shape that refers to itself, combined with another one, and a shape with two properties of one
name. -/
def lossyScope : Scope where
  types :=
    [.objectLiteral [⟨"next", 0⟩], .objectLiteral [], .intersection [0, 1],
      .objectLiteral [⟨"x", 1⟩, ⟨"x", 1⟩]]
  references := .none

/-- The merged shape has a number of its own, and the pointer keeps that of the shape merged; the
second property is a pointer to the first, whose place it takes. -/
theorem not_isClosed_lossyScope :
    (∃ t, resolve lossyScope 2 = .ok t ∧ ¬ t.IsClosed) ∧
      ∃ t, resolve lossyScope 3 = .ok t ∧ ¬ t.IsClosed := by
  have merged : resolve lossyScope 2 = .ok (.shape none [("next", .pointer 0 none)] false 2) := rfl
  have replaced : resolve lossyScope 3 = .ok (.shape none [("x", .pointer 1 none)] false 0) := rfl
  exact ⟨⟨_, merged, by decide⟩, _, replaced, by decide⟩

end TypeResolver

end WorkspaceBuild
