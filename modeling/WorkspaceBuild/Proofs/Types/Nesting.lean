import WorkspaceBuild.Types.Resolver
import WorkspaceBuild.Proofs.Assoc
import WorkspaceBuild.Proofs.Results
import Mathlib.Data.List.Chain
import Mathlib.Data.List.Nodup
import Mathlib.Data.List.Perm.Subperm
import Mathlib.Tactic.Ring

/-! # Nesting of types

A resolution that goes too deep has followed a chain of types, each referring to the next. Types that
are described as shapes or classes are remembered, and met again they are cut short by a pointer: so
they stand once in the chain. Types of any other sort are not remembered, and may come again.
-/

namespace WorkspaceBuild.TypeResolver

/-- The types that a type refers to: its arguments, the types of its properties, its members, what it
is an alias for, and the arguments of the class that implements it. -/
def references (types : TypeTable) (id : TypeId) : List TypeId :=
  match types.type? id with
  | none => []
  | some data =>
      let implementing := data.symbol.bind fun symbol =>
        match symbol.concrete with
        | some (.target target) => types.type? target
        | _ => none
      data.typeArguments ++ data.properties.map PropertyData.type ++ data.subTypes ++
        (data.symbol.bind SymbolData.aliasTarget).toList ++
          (implementing.map TypeData.typeArguments).getD []

/-- A type refers to another. -/
def RefersTo (types : TypeTable) (id next : TypeId) : Prop := next ∈ references types id

instance (types : TypeTable) (id next : TypeId) : Decidable (RefersTo types id next) :=
  inferInstanceAs (Decidable (next ∈ references types id))

namespace RefersTo

variable {types : TypeTable} {id next : TypeId} {data : TypeData} {symbol : SymbolData}

theorem argument (found : types.type? id = some data) (listed : next ∈ data.typeArguments) :
    RefersTo types id next := by
  simp [RefersTo, references, found, listed]

theorem property (found : types.type? id = some data) {property : PropertyData}
    (listed : property ∈ data.properties) : RefersTo types id property.type := by
  have listed : property.type ∈ data.properties.map PropertyData.type := List.mem_map_of_mem listed
  simp only [RefersTo, references, found, List.mem_append, listed, or_true, true_or]

theorem member (found : types.type? id = some data) (listed : next ∈ data.subTypes) :
    RefersTo types id next := by
  simp [RefersTo, references, found, listed]

theorem aliased (found : types.type? id = some data) (isNamed : data.symbol = some symbol)
    (leads : symbol.aliasTarget = some next) : RefersTo types id next := by
  simp [RefersTo, references, found, isNamed, leads]

theorem concrete (found : types.type? id = some data) (isNamed : data.symbol = some symbol)
    {target : TypeId} (tagged : symbol.concrete = some (.target target)) {targetData : TypeData}
    (targetFound : types.type? target = some targetData) (listed : next ∈ targetData.typeArguments) :
    RefersTo types id next := by
  simp [RefersTo, references, found, isNamed, tagged, targetFound, listed]

end RefersTo

/-- A visit that takes every type for unknown. -/
def unseen : TypeId → Resolution ResolvedType := fun _ visited => .ok (.unknown, visited)

/-- The type that a resolution remembers. -/
def remembered? (run : Resolution ResolvedType) : Option TypeId :=
  match run {} with
  | .ok (_, after) => after.seen.head?.map Prod.fst
  | .error _ => none

theorem remembered?_eq {run : Resolution ResolvedType} {t : ResolvedType} {after : Visited}
    (done : run {} = .ok (t, after)) : remembered? run = after.seen.head?.map Prod.fst := by
  rw [remembered?, done]

/-- The type whose id a type is remembered by when it is described: its own as a shape or class, or
that of the class that implements it. This does not depend on the types that it refers to. -/
def rememberedAs? (scope : Scope) (id : TypeId) : Option TypeId := remembered? (expand scope unseen id)

/-- The types that have been described. -/
def Visited.ids (visited : Visited) : List TypeId := Assoc.keys visited.seen

theorem Visited.pointer?_eq_none {visited : Visited} {id : TypeId}
    (none : visited.pointer? id = none) : id ∉ visited.ids := by
  rw [pointer?, Option.map_eq_none_iff] at none
  exact Assoc.get?_eq_none_iff.mp none

/-- A resolution goes down to other types. When it succeeds, it forgets nothing. When it goes too
deep, it does so at one of these types, with all that it knew and the type it remembers, which is
new. -/
structure Descends {α : Type} (visit : TypeId → Resolution ResolvedType) (onto : TypeId → Prop)
    (mark : Option TypeId) (run : Resolution α) : Prop where
  grows : ∀ before a after, run before = .ok (a, after) → before.ids ⊆ after.ids
  fails : ∀ before limit, run before = .error (.tooNested limit) →
    (∀ id ∈ mark, id ∉ before.ids) ∧ ∃ next middle, onto next ∧ before.ids ⊆ middle.ids ∧
      (∀ id ∈ mark, id ∈ middle.ids) ∧ visit next middle = .error (.tooNested limit)

/-- A resolution of types that forgets nothing. -/
def Grows (run : Resolution ResolvedType) : Prop :=
  ∀ before t after, run before = .ok (t, after) → before.ids ⊆ after.ids

section Parts

variable {α : Type} {scope : Scope} {visit : TypeId → Resolution ResolvedType}
  {onto : TypeId → Prop} {mark : Option TypeId} {run : Resolution α}

/-- What answers at once goes down to nothing. -/
theorem descends_pure (a : α) : Descends visit onto none fun visited => .ok (a, visited) where
  grows := by
    rintro before _ _ ⟨⟩
    exact fun _ known => known
  fails := by
    rintro before limit ⟨⟩

theorem descends_error {e : ResolveError} (other : ∀ limit, e ≠ .tooNested limit) :
    Descends visit onto none (fun _ => .error e : Resolution α) where
  grows := by
    rintro before _ _ ⟨⟩
  fails := by
    rintro before limit ⟨⟩
    exact absurd rfl (other limit)

theorem descends_visit (each : ∀ id, Grows (visit id)) {id : TypeId} (leads : onto id) :
    Descends visit onto none (visit id) where
  grows := each id
  fails before limit failed :=
    ⟨by simp, id, before, leads, fun _ known => known, by simp, failed⟩

/-- One resolution after another. -/
theorem Descends.bind {β : Type} (first : Descends visit onto none run) (next : α → Resolution β)
    (later : ∀ a, Descends visit onto none (next a)) :
    Descends visit onto none fun visited => do
      let (a, visited) ← run visited
      next a visited where
  grows before b after done := by
    obtain ⟨⟨a, middle⟩, ran, done⟩ := bind_eq_ok.mp done
    exact fun id known => (later a).grows _ _ _ done (first.grows _ _ _ ran known)
  fails before limit failed := by
    rcases bind_eq_error.mp failed with failed | ⟨⟨a, middle⟩, ran, failed⟩
    · exact first.fails before limit failed
    · obtain ⟨_, next, last, leads, kept, _, rest⟩ := (later a).fails middle limit failed
      exact ⟨by simp, next, last, leads, fun id known => kept (first.grows _ _ _ ran known),
        by simp, rest⟩

theorem Descends.map {β : Type} (h : Descends visit onto none run) (f : α → β) :
    Descends visit onto none fun visited => do
      let (a, visited) ← run visited
      return (f a, visited) :=
  h.bind (fun a visited => .ok (f a, visited)) fun a => descends_pure (f a)

/-- What is described behind a pointer or remembered before the rest is resolved. -/
theorem Descends.remember (h : Descends visit onto none run) (id : TypeId) (name : Option String)
    (finish : Nat → α → ResolvedType) :
    Descends visit onto (some id) fun visited =>
      match visited.pointer? id with
      | some pointer => .ok (pointer, visited)
      | none => do
          let (a, after) ← run (visited.remember id name).2
          return (finish (visited.remember id name).1 a, after) where
  grows before t after done := by
    dsimp only at done
    split at done
    · cases done
      exact fun _ known => known
    · obtain ⟨⟨a, middle⟩, ran, same⟩ := bind_eq_ok.mp done
      cases same
      exact fun other known => h.grows _ _ _ ran (List.mem_cons_of_mem _ known)
  fails before limit failed := by
    dsimp only at failed
    split at failed
    · cases failed
    · rename_i none
      rcases bind_eq_error.mp failed with failed | ⟨⟨a, middle⟩, _, failed⟩
      · obtain ⟨_, next, middle, leads, kept, _, rest⟩ := h.fails _ limit failed
        refine ⟨?_, next, middle, leads, fun other known => kept (List.mem_cons_of_mem _ known), ?_,
          rest⟩
        · rintro _ ⟨⟩
          exact Visited.pointer?_eq_none none
        · rintro _ ⟨⟩
          exact kept List.mem_cons_self
      · cases failed

theorem descends_resolveAll (each : ∀ id, Grows (visit id)) {ids : List TypeId}
    (within : ∀ id ∈ ids, onto id) : Descends visit onto none (resolveAll visit ids) := by
  induction ids with
  | nil => exact descends_pure []
  | cons id rest ih =>
      obtain ⟨here, later⟩ := List.forall_mem_cons.mp within
      exact (descends_visit each here).bind
        (fun first visited => do
          let others ← resolveAll visit rest visited
          return (first :: others.1, others.2))
        fun first => (ih later).map (first :: ·)

theorem descends_resolveFields (each : ∀ id, Grows (visit id)) {properties : List PropertyData}
    (within : ∀ property ∈ properties, onto property.type) (fields : Assoc String ResolvedType) :
    Descends visit onto none (resolveFields visit properties fields) := by
  induction properties generalizing fields with
  | nil => exact descends_pure fields
  | cons property rest ih =>
      obtain ⟨here, later⟩ := List.forall_mem_cons.mp within
      exact (descends_visit each here).bind
        (fun type => resolveFields visit rest (fields.put property.name type))
        fun type => ih later (fields.put property.name type)

theorem descends_resolveMembers (each : ∀ id, Grows (visit id)) {ids : List TypeId}
    (within : ∀ id ∈ ids, onto id) : Descends visit onto none (resolveMembers scope visit ids) := by
  induction ids with
  | nil => exact descends_pure _
  | cons id rest ih =>
      obtain ⟨here, later⟩ := List.forall_mem_cons.mp within
      rw [funext fun visited => resolveMembers.eq_2 scope visit visited id rest]
      cases found : scope.types.type? id with
      | none =>
          simp only
          exact descends_error (by simp)
      | some data =>
          simp only
          split
          · exact (ih later).map fun found => (found.1, true, found.2.2)
          · split
            · exact (ih later).map fun found => (found.1, found.2.1, true)
            · exact (descends_visit each here).bind
                (fun member visited => do
                  let others ← resolveMembers scope visit rest visited
                  return ((member :: others.1.1, others.1.2.1, others.1.2.2), others.2))
                fun member => (ih later).map fun found =>
                  (member :: found.1, found.2.1, found.2.2)

/-- Members are composed without looking further. -/
theorem compose_eq_ok (operator : Operator) (members : List ResolvedType) (nullable optional : Bool)
    (visited : Visited) : ∃ t after,
      compose operator members nullable optional visited = .ok (t, after) ∧
        after.seen = visited.seen := by
  unfold compose
  split
  · exact ⟨_, _, rfl, rfl⟩
  split
  · exact ⟨_, _, rfl, rfl⟩
  split
  · exact ⟨_, _, rfl, rfl⟩
  split
  · exact ⟨_, _, rfl, rfl⟩
  · exact ⟨_, _, rfl, rfl⟩

theorem descends_compose (operator : Operator) (members : List ResolvedType)
    (nullable optional : Bool) :
    Descends visit onto none (compose operator members nullable optional) where
  grows before t after done := by
    obtain ⟨t, last, composed, same⟩ := compose_eq_ok operator members nullable optional before
    rw [composed] at done
    cases done
    rw [Visited.ids, Visited.ids, same]
    exact fun _ known => known
  fails before limit failed := by
    obtain ⟨t, last, composed, same⟩ := compose_eq_ok operator members nullable optional before
    rw [composed] at failed
    cases failed

theorem descends_managed (each : ∀ id, Grows (visit id)) {id : TypeId} {name : String}
    {symbol : SymbolData} {data : TypeData} (within : ∀ next ∈ data.typeArguments, onto next) :
    Descends visit onto (some id) (managed scope visit id name symbol data) :=
  (descends_resolveAll each within).remember id (some name) fun refId arguments =>
    .managed name (symbol.declaration.bind fun site => scope.references.idOf site.file) arguments refId

theorem descends_shape (each : ∀ id, Grows (visit id)) {id : TypeId} {data : TypeData}
    (within : ∀ property ∈ data.properties, onto property.type) (mapped : Bool) :
    Descends visit onto (some id) (shape visit id data mapped) :=
  (descends_resolveFields each within []).remember id ((data.symbol.map SymbolData.name).or data.name)
    fun refId fields => .shape ((data.symbol.map SymbolData.name).or data.name) fields mapped refId

theorem descends_composition (each : ∀ id, Grows (visit id)) {data : TypeData}
    (within : ∀ next ∈ data.subTypes, onto next) :
    Descends visit onto none (composition scope visit data) :=
  (descends_resolveMembers each within).bind
    (fun found =>
      compose (if data.flags.meets TypeFlag.union then .or else .and) found.1 found.2.1 found.2.2)
    fun found => descends_compose _ found.1 found.2.1 found.2.2

end Parts

section Marks

variable {scope : Scope}

theorem resolveAll_unseen (ids : List TypeId) (visited : Visited) :
    ∃ types, resolveAll unseen ids visited = .ok (types, visited) := by
  induction ids with
  | nil => exact ⟨[], rfl⟩
  | cons id rest ih =>
      obtain ⟨types, resolved⟩ := ih
      refine ⟨.unknown :: types, ?_⟩
      simp only [resolveAll, bind_eq_ok]
      exact ⟨(.unknown, visited), rfl, (types, visited), resolved, rfl⟩

theorem resolveFields_unseen (properties : List PropertyData) (fields : Assoc String ResolvedType)
    (visited : Visited) :
    ∃ result, resolveFields unseen properties fields visited = .ok (result, visited) := by
  induction properties generalizing fields with
  | nil => exact ⟨fields, rfl⟩
  | cons property rest ih => exact ih (fields.put property.name .unknown)

theorem resolveMembers_unseen (ids : List TypeId) (visited : Visited) :
    (∃ e, resolveMembers scope unseen ids visited = .error e) ∨
      ∃ members, resolveMembers scope unseen ids visited = .ok (members, visited) := by
  induction ids with
  | nil => exact .inr ⟨_, rfl⟩
  | cons id rest ih =>
      rw [resolveMembers]
      split
      · exact .inl ⟨_, rfl⟩
      · rcases ih with ⟨e, failed⟩ | ⟨⟨members, nullable, optional⟩, resolved⟩
        · refine .inl ⟨e, ?_⟩
          split
          · rw [failed]
            rfl
          split
          · rw [failed]
            rfl
          · exact bind_eq_error.mpr (.inr ⟨_, rfl, bind_eq_error.mpr (.inl failed)⟩)
        · refine .inr ?_
          split
          · rw [resolved]
            exact ⟨_, rfl⟩
          split
          · rw [resolved]
            exact ⟨_, rfl⟩
          · exact ⟨_, bind_eq_ok.mpr ⟨_, rfl, bind_eq_ok.mpr ⟨_, resolved, rfl⟩⟩⟩

theorem remembered?_managed (id : TypeId) (name : String) (symbol : SymbolData) (data : TypeData) :
    remembered? (managed scope unseen id name symbol data) = some id := by
  let known := (Visited.remember {} id (some name)).2
  obtain ⟨types, resolved⟩ := resolveAll_unseen data.typeArguments known
  obtain ⟨t, done⟩ : ∃ t, managed scope unseen id name symbol data {} = .ok (t, known) :=
    ⟨_, bind_eq_ok.mpr ⟨_, resolved, rfl⟩⟩
  rw [remembered?_eq done]
  rfl

theorem remembered?_shape (id : TypeId) (data : TypeData) (mapped : Bool) :
    remembered? (shape unseen id data mapped) = some id := by
  obtain ⟨fields, resolved⟩ := resolveFields_unseen data.properties []
    (Visited.remember {} id ((data.symbol.map SymbolData.name).or data.name)).2
  rw [remembered?, shape]
  simp only [Visited.pointer?, List.lookup_nil, Option.map_none, resolved]
  rfl

theorem remembered?_composition (data : TypeData) :
    remembered? (composition scope unseen data) = none := by
  rcases @resolveMembers_unseen scope data.subTypes {} with
    ⟨e, failed⟩ | ⟨⟨members, nullable, optional⟩, resolved⟩
  · rw [remembered?, composition]
    simp only [failed]
    rfl
  · obtain ⟨t, after, composed, same⟩ := compose_eq_ok
      (if data.flags.meets TypeFlag.union then .or else .and) members nullable optional {}
    have done : composition scope unseen data {} = .ok (t, after) :=
      bind_eq_ok.mpr ⟨_, resolved, composed⟩
    rw [remembered?_eq done, same]
    rfl

theorem remembered?_literal (ids : List TypeId) (finish : List ResolvedType → ResolvedType) :
    remembered? (fun visited => do
      let (types, visited) ← resolveAll unseen ids visited
      return (finish types, visited)) = none := by
  obtain ⟨types, resolved⟩ := resolveAll_unseen ids {}
  rw [remembered?]
  simp only [resolved]
  rfl

end Marks

section Whole

variable {scope : Scope} {visit : TypeId → Resolution ResolvedType} {id : TypeId}
  {symbol : SymbolData} {data : TypeData}

theorem descends_arguments (each : ∀ id, Grows (visit id)) (found : scope.types.type? id = some data)
    (finish : List ResolvedType → ResolvedType) :
    Descends visit (RefersTo scope.types id)
      (remembered? fun visited => do
        let (types, visited) ← resolveAll unseen data.typeArguments visited
        return (finish types, visited))
      (fun visited => do
        let (types, visited) ← resolveAll visit data.typeArguments visited
        return (finish types, visited)) := by
  rw [remembered?_literal]
  exact (descends_resolveAll each fun _ listed => .argument found listed).map finish

theorem descends_named (each : ∀ id, Grows (visit id)) (found : scope.types.type? id = some data)
    (isNamed : data.symbol = some symbol) :
    Descends visit (RefersTo scope.types id) (remembered? (named scope unseen id symbol data))
      (named scope visit id symbol data) := by
  rw [funext fun visited => named.eq_1 scope visit id symbol data visited,
    funext fun visited => named.eq_1 scope unseen id symbol data visited]
  cases leads : symbol.aliasTarget with
  | some target => exact descends_visit each (.aliased found isNamed leads)
  | none =>
      simp only
      split
      · exact descends_arguments each found fun arguments => .literal symbol.name none arguments
      · split
        · exact descends_pure _
        · split
          · rw [remembered?_managed]
            exact descends_managed each fun _ listed => .argument found listed
          · rw [remembered?_shape]
            exact descends_shape each (fun _ listed => .property found listed) false

theorem descends_concrete (each : ∀ id, Grows (visit id)) (found : scope.types.type? id = some data)
    (isNamed : data.symbol = some symbol) {tag : ConcreteTag} (tagged : symbol.concrete = some tag) :
    Descends visit (RefersTo scope.types id) (remembered? (concrete scope unseen id symbol data tag))
      (concrete scope visit id symbol data tag) := by
  cases tag with
  | target target =>
      rw [funext fun visited => concrete.eq_1 scope visit id symbol data visited target,
        funext fun visited => concrete.eq_1 scope unseen id symbol data visited target]
      cases targetFound : scope.types.type? target with
      | none => exact descends_error (by simp)
      | some targetData =>
          simp only
          split
          · exact descends_error (by simp)
          · rw [remembered?_managed]
            exact descends_managed each fun _ listed =>
              .concrete found isNamed tagged targetFound listed
  | generated =>
      rw [funext fun visited => concrete.eq_2 scope visit id symbol data visited,
        funext fun visited => concrete.eq_2 scope unseen id symbol data visited, remembered?_managed]
      exact descends_managed each fun _ listed => .argument found listed

theorem descends_structured (each : ∀ id, Grows (visit id))
    (found : scope.types.type? id = some data) :
    Descends visit (RefersTo scope.types id) (remembered? (structured scope unseen id data))
      (structured scope visit id data) := by
  have asShape (mapped : Bool) : Descends visit (RefersTo scope.types id)
      (remembered? (shape unseen id data mapped)) (shape visit id data mapped) := by
    rw [remembered?_shape]
    exact descends_shape each (fun _ listed => .property found listed) mapped
  rw [funext fun visited => structured.eq_1 scope visit id data visited,
    funext fun visited => structured.eq_1 scope unseen id data visited]
  split
  · split
    · exact descends_pure _
    · exact asShape false
  split
  · cases isNamed : data.symbol with
    | none => exact descends_error (by simp)
    | some symbol => exact descends_named each found isNamed
  split
  · exact descends_arguments each found fun elements => .tuple elements false
  split
  · exact asShape false
  split
  · exact asShape _
  · exact descends_pure _

theorem descends_unmarked (each : ∀ id, Grows (visit id)) (found : scope.types.type? id = some data) :
    Descends visit (RefersTo scope.types id) (remembered? (unmarked scope unseen id data))
      (unmarked scope visit id data) := by
  rw [funext fun visited => unmarked.eq_1 scope visit id data visited,
    funext fun visited => unmarked.eq_1 scope unseen id data visited]
  split
  · exact descends_pure _
  split
  · cases elements : data.typeArguments with
    | nil => exact descends_pure _
    | cons element rest =>
        have leads : RefersTo scope.types id element :=
          .argument found (elements ▸ List.mem_cons_self)
        exact (descends_visit each leads).map fun element => ResolvedType.tuple [element] true
  split
  · rw [remembered?_composition]
    exact descends_composition each fun _ listed => .member found listed
  · exact descends_structured each found

/-- Whatever the sort of a type, it goes down to the types that it refers to. -/
theorem descends_expand (each : ∀ id, Grows (visit id)) (id : TypeId) :
    Descends visit (RefersTo scope.types id) (rememberedAs? scope id) (expand scope visit id) := by
  rw [rememberedAs?, funext fun visited => expand.eq_1 scope visit id visited,
    funext fun visited => expand.eq_1 scope unseen id visited]
  cases found : scope.types.type? id with
  | none => exact descends_error (by simp)
  | some data =>
      simp only
      split
      · exact descends_pure _
      split
      · exact descends_pure _
      split
      · rename_i symbol tag marked
        obtain ⟨_, isNamed, tagged⟩ := Option.bind_eq_some_iff.mp marked
        obtain ⟨_, tagged, same⟩ := Option.map_eq_some_iff.mp tagged
        cases same
        exact descends_concrete each found isNamed tagged
      · exact descends_unmarked each found

end Whole

theorem grows_visit (scope : Scope) (levels : Nat) (id : TypeId) : Grows (visit scope levels id) := by
  induction levels generalizing id with
  | zero =>
      intro before t after done
      cases done
  | succ levels ih => exact (descends_expand ih id).grows

/-- A chain of types, each referring to the next, down to one that is too deep. Those that are
remembered are all different, and different from those known before. -/
structure LeadsDown (scope : Scope) (visited : Visited) (id : TypeId) (chain : List TypeId)
    (last : TypeId) : Prop where
  starts : (chain ++ [last]).head? = some id
  linked : (chain ++ [last]).IsChain (RefersTo scope.types)
  distinct : (chain.filterMap (rememberedAs? scope)).Nodup
  fresh : ∀ other ∈ chain.filterMap (rememberedAs? scope), other ∉ visited.ids

/-- Nesting fails at the last of as many types as there are levels. -/
theorem leadsDown_of_tooNested {scope : Scope} {levels : Nat} {id : TypeId} {visited : Visited}
    {limit : Nat} (failed : visit scope levels id visited = .error (.tooNested limit)) :
    limit = maxDepth ∧ ∃ chain last, chain.length = levels ∧ LeadsDown scope visited id chain last := by
  induction levels generalizing id visited with
  | zero =>
      cases failed
      exact ⟨rfl, [], id, rfl, rfl, .singleton _, List.nodup_nil, by simp⟩
  | succ levels ih =>
      have descends : Descends (visit scope levels) (RefersTo scope.types id) (rememberedAs? scope id)
          (expand scope (visit scope levels) id) := descends_expand (grows_visit scope levels) id
      obtain ⟨new, next, middle, leads, kept, marked, deeper⟩ := descends.fails visited limit failed
      obtain ⟨isLimit, chain, last, long, down⟩ := ih deeper
      refine ⟨isLimit, id :: chain, last, by rw [List.length_cons, long], rfl, ?_, ?_, ?_⟩
      · exact down.linked.cons (by simpa [down.starts] using leads)
      · rw [List.filterMap_cons]
        split
        · exact down.distinct
        · rename_i mark remembered
          exact List.nodup_cons.mpr
            ⟨fun again => down.fresh mark again (marked mark remembered), down.distinct⟩
      · rw [List.filterMap_cons]
        have later : ∀ other ∈ chain.filterMap (rememberedAs? scope), other ∉ visited.ids :=
          fun other listed known => down.fresh other listed (kept known)
        split
        · exact later
        · rename_i mark remembered
          exact List.forall_mem_cons.mpr ⟨new mark remembered, later⟩

/-- A list in which few elements are marked, and which has only short runs of others between them, is
not long. -/
theorem length_le_of_runs {α β : Type} {mark : α → Option β} {few short : Nat} {xs : List α}
    (marks : (xs.filterMap mark).length ≤ few)
    (runs : ∀ run, run <:+: xs → (∀ x ∈ run, mark x = none) → run.length ≤ short) :
    xs.length ≤ few + (few + 1) * short := by
  induction few generalizing xs with
  | zero =>
      have unmarked : ∀ x ∈ xs, mark x = none := by
        simpa [List.filterMap_eq_nil_iff] using marks
      simpa using runs xs (List.infix_refl xs) unmarked
  | succ few ih =>
      have whole : (few + 1 + 1) * short = short + (few + 1) * short := by ring
      cases first : xs.find? fun x => (mark x).isSome with
      | none =>
          have unmarked : ∀ x ∈ xs, mark x = none := by simpa using List.find?_eq_none.mp first
          have run := runs xs (List.infix_refl xs) unmarked
          omega
      | some x =>
          obtain ⟨marked, before, after, split, unmarked⟩ := List.find?_eq_some_iff_append.mp first
          obtain ⟨value, marked⟩ := Option.isSome_iff_exists.mp marked
          have nothing : ∀ y ∈ before, mark y = none := by simpa using unmarked
          have run := runs before ⟨[], x :: after, by rw [split]; rfl⟩ nothing
          rw [split, List.filterMap_append, List.filterMap_eq_nil_iff.mpr nothing,
            List.filterMap_cons_some marked] at marks
          have later := @ih after (by simpa using marks) fun run within =>
            runs run (within.trans ⟨before ++ [x], [], by rw [split]; simp⟩)
          rw [split, List.length_append, List.length_cons]
          omega

theorem exists_of_mem_chain {α : Type} {related : α → α → Prop} {chain : List α} {last x : α}
    (linked : (chain ++ [last]).IsChain related) (listed : x ∈ chain) : ∃ y, related x y := by
  obtain ⟨before, after, rfl⟩ := List.append_of_mem listed
  obtain ⟨next, rest, split⟩ := List.exists_cons_of_ne_nil (List.concat_ne_nil last after)
  rw [List.append_assoc, List.cons_append, split] at linked
  exact ⟨next, (List.isChain_cons_cons.mp linked.right_of_append).1⟩

/-- A type leads to another along references. -/
def LeadsTo (types : TypeTable) : TypeId → TypeId → Prop := Relation.ReflTransGen (RefersTo types)

/-- Types that a type leads to, each referring to the next and none of them remembered. The last one
refers to something too. -/
structure IsRun (scope : Scope) (id : TypeId) (run : List TypeId) : Prop where
  linked : run.IsChain (RefersTo scope.types)
  reached : ∀ other ∈ run, LeadsTo scope.types id other
  unmarked : ∀ other ∈ run, rememberedAs? scope other = none
  refers : ∀ other ∈ run, references scope.types other ≠ []

namespace LeadsDown

variable {scope : Scope} {visited : Visited} {id : TypeId} {chain : List TypeId} {last : TypeId}

theorem reached (down : LeadsDown scope visited id chain last) :
    ∀ other ∈ chain, LeadsTo scope.types id other := by
  have all : ∀ other ∈ chain ++ [last], LeadsTo scope.types id other :=
    down.linked.induction (LeadsTo scope.types id) _ (fun _ _ step leads => leads.tail step) (by
      intro some
      have first := down.starts
      rw [List.head?_eq_some_head some, Option.some_inj] at first
      rw [first]
      exact .refl)
  exact fun other listed => all other (List.mem_append_left _ listed)

/-- Part of a chain without remembered types. -/
theorem isRun (down : LeadsDown scope visited id chain last) {run : List TypeId}
    (within : run <:+: chain) (unmarked : ∀ other ∈ run, rememberedAs? scope other = none) :
    IsRun scope id run where
  linked := down.linked.left_of_append.infix within
  reached other listed := down.reached other (within.subset listed)
  unmarked := unmarked
  refers other listed := by
    obtain ⟨next, refers⟩ := exists_of_mem_chain down.linked (within.subset listed)
    exact List.ne_nil_of_mem refers

/-- A chain is no longer than the types that are remembered and the runs between them allow. -/
theorem length_le (down : LeadsDown scope visited id chain last) {known : List TypeId} {short : Nat}
    (marks : ∀ other, LeadsTo scope.types id other → ∀ mark ∈ rememberedAs? scope other, mark ∈ known)
    (runs : ∀ run, IsRun scope id run → run.length ≤ short) :
    chain.length ≤ known.length + (known.length + 1) * short := by
  refine length_le_of_runs ?_ fun run within unmarked => runs run (down.isRun within unmarked)
  refine (List.subperm_of_subset down.distinct fun mark listed => ?_).length_le
  obtain ⟨other, member, marked⟩ := List.mem_filterMap.mp listed
  exact marks other (down.reached other member) mark marked

end LeadsDown

/-- Only nesting makes a resolution fail. -/
theorem visit_of_resolve_error {scope : Scope} {id : TypeId} {e : ResolveError}
    (failed : resolve scope id = .error e) :
    ∃ limit, e = .tooNested limit ∧ visit scope (maxDepth + 1) id {} = .error (.tooNested limit) := by
  rw [resolve] at failed
  split at failed
  · cases failed
  · rename_i limit deep
    cases failed
    exact ⟨limit, rfl, deep⟩
  · cases failed

/-- A resolution that goes too deep has followed more types than the limit, each referring to the
next, and has remembered none of them twice. So it does not go too deep where few types are
remembered, with short runs of others between them. -/
theorem resolve_nesting (scope : Scope) (id : TypeId) :
    (∀ limit, resolve scope id = .error (.tooNested limit) → limit = maxDepth ∧
      ∃ chain : List TypeId, maxDepth < chain.length ∧ chain.head? = some id ∧
        chain.IsChain (RefersTo scope.types) ∧ (chain.filterMap (rememberedAs? scope)).Nodup) ∧
    ∀ (known : List TypeId) (short : Nat),
      (∀ other, LeadsTo scope.types id other → ∀ mark ∈ rememberedAs? scope other, mark ∈ known) →
      (∀ run, IsRun scope id run → run.length ≤ short) →
      known.length + (known.length + 1) * short ≤ maxDepth → ∃ t, resolve scope id = .ok t := by
  constructor
  · intro limit failed
    obtain ⟨_, same, deep⟩ := visit_of_resolve_error failed
    cases same
    obtain ⟨isLimit, chain, last, long, down⟩ := leadsDown_of_tooNested deep
    refine ⟨isLimit, chain, by omega, ?_, down.linked.left_of_append, down.distinct⟩
    have first := down.starts
    rwa [List.head?_append_of_ne_nil] at first
    exact List.ne_nil_of_length_pos (by omega)
  · intro known short marks runs enough
    cases result : resolve scope id with
    | ok t => exact ⟨t, rfl⟩
    | error e =>
        obtain ⟨limit, _, deep⟩ := visit_of_resolve_error result
        obtain ⟨_, chain, last, long, down⟩ := leadsDown_of_tooNested deep
        have bound := down.length_le marks runs
        omega

/-- A tree whose nodes hold arrays of nodes, below as many arrays as are too deep. -/
def sampleForest : Scope where
  types := .interface "Tree" ⟨⟨"/ws/src/tree.ts"⟩, false, false⟩ [⟨"children", 1⟩] ::
    (List.range 22).map TypeData.array
  references := .none

theorem lt_two_of_leadsTo {id : TypeId} (leads : LeadsTo sampleForest.types 0 id) : id < 2 := by
  have closed : ∀ id < 2, ∀ next ∈ references sampleForest.types id, next < 2 := by decide
  induction leads with
  | refl => decide
  | tail _ refers ih => exact closed _ ih _ refers

theorem resolve_nesting_sampleForest :
    (resolve sampleForest 22 = .error (.tooNested maxDepth) ∧
      ∃ chain : List TypeId, maxDepth < chain.length ∧ chain.head? = some 22 ∧
        chain.IsChain (RefersTo sampleForest.types) ∧
        (chain.filterMap (rememberedAs? sampleForest)).Nodup) ∧
      ∃ t, resolve sampleForest 0 = .ok t := by
  have deep : resolve sampleForest 22 = .error (.tooNested maxDepth) := rfl
  refine ⟨⟨deep, ((resolve_nesting sampleForest 22).1 maxDepth deep).2⟩,
    (resolve_nesting sampleForest 0).2 [0] 1 ?_ ?_ (by decide)⟩
  · have marks : ∀ id < 2, ∀ mark ∈ rememberedAs? sampleForest id, mark ∈ [0] := by decide
    exact fun id leads => marks id (lt_two_of_leadsTo leads)
  · -- a node is remembered, so two types of a run would both be the array
    have unmarked : ∀ id < 2, rememberedAs? sampleForest id = none → id = 1 := by decide
    intro run isRun
    have arrays : ∀ id ∈ run, id = 1 := fun id listed =>
      unmarked id (lt_two_of_leadsTo (isRun.reached id listed)) (isRun.unmarked id listed)
    obtain _ | ⟨first, _ | ⟨second, rest⟩⟩ := run
    · decide
    · exact Nat.le_refl 1
    · have refers : RefersTo sampleForest.types first second :=
        (List.isChain_cons_cons.mp isRun.linked).1
      rw [arrays first (by simp), arrays second (by simp)] at refers
      exact absurd refers (by decide)

/-- An expression that is one of ten sorts of node, each with an expression below it. -/
def variantsScope : Scope where
  types := .union [1, 2, 3, 4, 5, 6, 7, 8, 9, 10] :: List.replicate 10 (.objectLiteral [⟨"body", 0⟩])
  references := .none

theorem lt_of_chain_variantsScope {chain : List TypeId} (starts : chain.head? = some 0)
    (linked : chain.IsChain (RefersTo variantsScope.types)) : ∀ id ∈ chain, id < 11 := by
  have closed : ∀ id < 11, ∀ next ∈ references variantsScope.types id, next < 11 := by decide
  refine linked.induction (· < 11) _ (fun _ _ refers small => closed _ small _ refers) fun some => ?_
  rw [List.head?_eq_some_head some, Option.some_inj] at starts
  rw [starts]
  decide

set_option maxRecDepth 2000 in
/-- There are only eleven types, but the union is not remembered and is met again below each sort of
node. -/
theorem tooNested_variantsScope : resolve variantsScope 0 = .error (.tooNested maxDepth) ∧
    ¬ ∃ chain : List TypeId, maxDepth < chain.length ∧ chain.head? = some 0 ∧
      chain.IsChain (RefersTo variantsScope.types) ∧ chain.Nodup := by
  refine ⟨rfl, ?_⟩
  rintro ⟨chain, long, starts, linked, distinct⟩
  have within : chain ⊆ List.range 11 := fun id listed =>
    List.mem_range.mpr (lt_of_chain_variantsScope starts linked id listed)
  have few : chain.length ≤ (List.range 11).length :=
    (List.subperm_of_subset distinct within).length_le
  exact absurd (Nat.lt_of_lt_of_le long few) (by decide)

end WorkspaceBuild.TypeResolver
