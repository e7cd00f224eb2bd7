import WorkspaceBuild.Proofs.Types.Plans

/-! # The form of resolved types

Whatever the table, a description is nested no deeper than resolutions go, and the fields of its shapes
ascend by name: properties are put in their places one by one, and merged shapes are put in order
again.
-/

namespace WorkspaceBuild

/-- A description nested at most so many levels, with the fields of each shape ascending by name. -/
inductive ResolvedType.IsOrdered : Nat → ResolvedType → Prop where
  | literal {levels : Nat} {name : String} {value : Option String} {arguments : List ResolvedType}
      (all : ∀ t ∈ arguments, IsOrdered levels t) :
      IsOrdered (levels + 1) (.literal name value arguments)
  | managed {levels : Nat} {name : String} {moduleId : Option String}
      {arguments : List ResolvedType} {refId : Nat} (all : ∀ t ∈ arguments, IsOrdered levels t) :
      IsOrdered (levels + 1) (.managed name moduleId arguments refId)
  | shape {levels : Nat} {name : Option String} {fields : List (String × ResolvedType)}
      {mapped : Bool} {refId : Nat} (ascending : IsAscending (Assoc.keys fields))
      (all : ∀ field ∈ fields, IsOrdered levels field.2) :
      IsOrdered (levels + 1) (.shape name fields mapped refId)
  | composition {levels : Nat} {operator : Operator} {subTypes : List ResolvedType}
      {nullable optional : Bool} {commonType : Option String}
      (all : ∀ t ∈ subTypes, IsOrdered levels t) :
      IsOrdered (levels + 1) (.composition operator subTypes nullable optional commonType)
  | tuple {levels : Nat} {elementTypes : List ResolvedType} {array : Bool}
      (all : ∀ t ∈ elementTypes, IsOrdered levels t) :
      IsOrdered (levels + 1) (.tuple elementTypes array)
  | template {levels : Nat} {patterns : List String} : IsOrdered levels (.template patterns)
  | foreign {levels : Nat} {name : String} {file : Path} : IsOrdered levels (.foreign name file)
  | pointer {levels refId : Nat} {name : Option String} : IsOrdered levels (.pointer refId name)
  | unknown {levels : Nat} : IsOrdered levels .unknown

theorem ResolvedType.IsOrdered.succ {levels : Nat} {t : ResolvedType} (ordered : t.IsOrdered levels) :
    t.IsOrdered (levels + 1) := by
  induction ordered with
  | literal _ ih => exact .literal ih
  | managed _ ih => exact .managed ih
  | shape ascending _ ih => exact .shape ascending ih
  | composition _ ih => exact .composition ih
  | tuple _ ih => exact .tuple ih
  | template => exact .template
  | foreign => exact .foreign
  | pointer => exact .pointer
  | unknown => exact .unknown

namespace TypeResolver

/-- A resolution whose answers are nested at most so many levels. -/
def Orders (levels : Nat) (run : Resolution ResolvedType) : Prop :=
  ∀ before t after, run before = .ok (t, after) → t.IsOrdered levels

section Parts

variable {scope : Scope} {visit : TypeId → Resolution ResolvedType} {levels : Nat}
  {before after : Visited}

theorem ordered_resolveAll (each : ∀ id, Orders levels (visit id)) {ids : List TypeId}
    {types : List ResolvedType} (resolved : resolveAll visit ids before = .ok (types, after)) :
    ∀ t ∈ types, t.IsOrdered levels := by
  induction ids generalizing before types with
  | nil =>
      cases resolved
      exact List.forall_mem_nil _
  | cons id rest ih =>
      obtain ⟨first, middle, others, visited, later, rfl⟩ := resolveAll_cons_eq_ok.mp resolved
      exact List.forall_mem_cons.mpr ⟨each id _ _ _ visited, ih later⟩

/-- A field put among others that ascend leaves them ascending. -/
theorem ordered_resolveFields (each : ∀ id, Orders levels (visit id))
    {properties : List PropertyData} {fields result : Assoc String ResolvedType}
    (ascending : IsAscending fields.keys) (all : ∀ field ∈ fields, field.2.IsOrdered levels)
    (resolved : resolveFields visit properties fields before = .ok (result, after)) :
    IsAscending result.keys ∧ ∀ field ∈ result, field.2.IsOrdered levels := by
  induction properties generalizing fields before with
  | nil =>
      cases resolved
      exact ⟨ascending, all⟩
  | cons property rest ih =>
      obtain ⟨type, middle, visited, later⟩ := resolveFields_cons_eq_ok.mp resolved
      refine ih (Assoc.isAscending_put ascending _ _) (fun field listed => ?_) later
      rcases Assoc.mem_of_mem_put listed with rfl | listed
      · exact each _ _ _ _ visited
      · exact all field listed

/-- The fields of shapes are no deeper than the shapes. -/
theorem ordered_shapeFields {members : List ResolvedType}
    {shapes : List (List (String × ResolvedType) × Bool)}
    (listed : members.mapM shapeFields? = some shapes) (all : ∀ t ∈ members, t.IsOrdered levels) :
    ∀ field ∈ shapes.flatMap Prod.fst, field.2.IsOrdered levels := by
  induction members generalizing shapes with
  | nil =>
      cases listed
      exact List.forall_mem_nil _
  | cons member rest ih =>
      obtain ⟨here, later⟩ := List.forall_mem_cons.mp all
      simp only [List.mapM_cons, Option.bind_eq_bind, Option.bind_eq_some_iff] at listed
      obtain ⟨shape, isShape, shapes, others, same⟩ := listed
      cases same
      rw [List.flatMap_cons, List.forall_mem_append]
      refine ⟨?_, ih others later⟩
      cases here with
      | shape ascending fields =>
          cases isShape
          exact fun field listed => (fields field listed).succ
      | _ => cases isShape

/-- A composition is one of its members, or one level above them. -/
theorem ordered_compose {operator : Operator} {members : List ResolvedType}
    {nullable optional : Bool} {t : ResolvedType} (all : ∀ t ∈ members, t.IsOrdered levels)
    (resolved : compose operator members nullable optional before = .ok (t, after)) :
    t.IsOrdered (levels + 1) := by
  unfold compose at resolved
  split at resolved
  · cases resolved
    exact .unknown
  split at resolved
  · cases resolved
    exact .template
  split at resolved
  · cases resolved
    exact (all _ List.mem_cons_self).succ
  split at resolved
  · rename_i shapes listed
    cases resolved
    refine .shape (Assoc.isAscending_ofPairs _) fun field among => ?_
    exact ordered_shapeFields listed all field (Assoc.mem_of_mem_ofPairs among)
  · cases resolved
    exact .composition all

/-- What comes of a plan is one level above what it is made of. -/
theorem Plan.Yields.isOrdered {p : Plan} {t : ResolvedType}
    (yields : p.Yields scope visit before t after) (each : ∀ id, Orders levels (visit id)) :
    t.IsOrdered (levels + 1) := by
  cases yields with
  | answer =>
      rename_i isLeaf
      cases isLeaf with
      | template => exact .template
      | literal => exact .literal (List.forall_mem_nil _)
      | foreign => exact .foreign
      | unknown => exact .unknown
  | bareArray => exact .tuple (List.forall_mem_singleton.mpr .unknown)
  | follow visited => exact (each _ before t after visited).succ
  | library all => exact .literal (ordered_resolveAll each all)
  | tuple all => exact .tuple (ordered_resolveAll each all)
  | pointer => exact .pointer
  | managed all => exact .managed (ordered_resolveAll each all)
  | shape all =>
      have none : IsAscending (Assoc.keys ([] : Assoc String ResolvedType)) := List.Pairwise.nil
      obtain ⟨ascending, all⟩ := ordered_resolveFields each none (List.forall_mem_nil _) all
      exact .shape ascending all
  | compose all composed =>
      obtain ⟨kept, resolved⟩ := exists_resolveAll all
      exact ordered_compose (ordered_resolveAll each resolved) composed

end Parts

theorem orders_visit (scope : Scope) (levels : Nat) (id : TypeId) :
    Orders levels (visit scope levels id) := by
  induction levels generalizing id with
  | zero =>
      intro before t after resolved
      cases resolved
  | succ levels ih =>
      intro before t after resolved
      exact (yields_of_visit resolved).isOrdered ih

/-- A description is nested no deeper than resolutions go. -/
theorem isOrdered_of_resolve {scope : Scope} {id : TypeId} {t : ResolvedType}
    (resolved : resolve scope id = .ok t) : t.IsOrdered (maxDepth + 1) := by
  unfold resolve at resolved
  split at resolved
  · rename_i type last visited
    cases resolved
    exact orders_visit scope _ id _ _ _ visited
  · cases resolved
  · cases resolved
    exact .literal (List.forall_mem_nil _)

end TypeResolver

end WorkspaceBuild
