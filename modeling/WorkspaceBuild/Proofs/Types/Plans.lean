import WorkspaceBuild.Types.Resolver
import WorkspaceBuild.Proofs.Assoc
import WorkspaceBuild.Proofs.Results

/-! # Plans for types

What is to be done to describe a type is read off the table alone: it is answered at once, it is what
another type is, or it is put together from the descriptions of others. Following the plan is all that
a step of a resolution does.
-/

namespace WorkspaceBuild

namespace TypeResolver

/-- A description in which no other type is described. -/
inductive IsLeaf : ResolvedType → Prop where
  | template (patterns : List String) : IsLeaf (.template patterns)
  | literal (name : String) (value : Option String) : IsLeaf (.literal name value [])
  | foreign (name : String) (file : Path) : IsLeaf (.foreign name file)
  | unknown : IsLeaf .unknown

/-- How the description of a type follows from those of others. -/
inductive Plan where
  | answer (t : ResolvedType) (isLeaf : IsLeaf t)
  /-- An array of which no element type is known. -/
  | bareArray
  | fail (e : ResolveError)
  /-- The type is what another one is. -/
  | follow (id : TypeId)
  | library (name : String) (arguments : List TypeId)
  | tuple (elements : List TypeId) (array : Bool)
  /-- A class, remembered by an id. -/
  | managed (id : TypeId) (name : String) (moduleId : Option String) (arguments : List TypeId)
  /-- An object, remembered by an id. -/
  | shape (id : TypeId) (name : Option String) (properties : List PropertyData) (mapped : Bool)
  | compose (operator : Operator) (members : List TypeId)

/-- The id that a type is remembered by, when it is a shape or class. -/
def Plan.own? : Plan → Option TypeId
  | .managed id .. => some id
  | .shape id .. => some id
  | _ => none

section Plans

variable (scope : Scope)

def managedPlan (id : TypeId) (name : String) (symbol : SymbolData) (data : TypeData) : Plan :=
  .managed id name (symbol.declaration.bind fun site => scope.references.idOf site.file)
    data.typeArguments

def shapePlan (id : TypeId) (data : TypeData) (mapped : Bool) : Plan :=
  .shape id ((data.symbol.map SymbolData.name).or data.name) data.properties mapped

def namedPlan (id : TypeId) (symbol : SymbolData) (data : TypeData) : Plan :=
  match symbol.aliasTarget with
  | some target => .follow target
  | none =>
      if symbol.declaration.any DeclarationSite.defaultLibrary then
        .library symbol.name data.typeArguments
      else
        match foreignFile? scope symbol with
        | some file => .answer (.foreign symbol.name file) (.foreign _ _)
        | none =>
            if symbol.isClass then managedPlan scope id symbol.name symbol data
            else shapePlan id data false

def concretePlan (id : TypeId) (symbol : SymbolData) (data : TypeData) : ConcreteTag → Plan
  | .target target =>
      match scope.types.type? target with
      | none => .fail (.unknownType target)
      | some targetData =>
          match targetData.symbol with
          | none => .fail (.missingSymbol symbol.name)
          | some targetSymbol => managedPlan scope target targetSymbol.name targetSymbol targetData
  | .generated => managedPlan scope id (symbol.name ++ "$Concrete") symbol data

/-- The file and the name of a type that is declared outside the build. -/
def foreign? (data : TypeData) : Option (String × Path) :=
  data.symbol.bind fun symbol => (foreignFile? scope symbol).map (symbol.name, ·)

def structuredPlan (id : TypeId) (data : TypeData) : Plan :=
  if data.objectFlags.meets ObjectFlag.anonymous then
    match foreign? scope data with
    | some (name, file) => .answer (.foreign name file) (.foreign _ _)
    | none => shapePlan id data false
  else if data.objectFlags.meets
      (.all [ObjectFlag.classType, ObjectFlag.interface, ObjectFlag.reference]) then
    match data.symbol with
    | none => .fail (.missingSymbol (data.name.getD ""))
    | some symbol => namedPlan scope id symbol data
  else if data.objectFlags.meets ObjectFlag.tuple then .tuple data.typeArguments false
  else if data.objectFlags.meets ObjectFlag.objectLiteral then shapePlan id data false
  else if data.objectFlags.meets ObjectFlag.mapped then
    shapePlan id data (!data.properties.isEmpty)
  else .answer (.literal (data.name.getD "object") none []) (.literal _ _)

def unmarkedPlan (id : TypeId) (data : TypeData) : Plan :=
  if data.flags.meets (.all [TypeFlag.any, TypeFlag.unknown, TypeFlag.never]) then
    .answer .unknown .unknown
  else if data.objectFlags.meets ObjectFlag.array && data.symbol.isNone then
    match data.typeArguments with
    | [] => .bareArray
    | element :: _ => .tuple [element] true
  else if data.flags.meets (.all [TypeFlag.union, TypeFlag.intersection]) then
    .compose (if data.flags.meets TypeFlag.union then .or else .and) data.subTypes
  else structuredPlan scope id data

/-- The plan for a type of the table. -/
def plan (id : TypeId) : Plan :=
  match scope.types.type? id with
  | none => .fail (.unknownType id)
  | some data =>
      if data.flags.meets TypeFlag.templateLiteral then
        .answer (.template data.patterns) (.template _)
      else if data.flags.meets TypeFlag.primitiveLike then
        .answer (.literal (data.name.getD (primitiveName data.flags)) data.literal []) (.literal _ _)
      else
        match data.symbol.bind fun symbol => symbol.concrete.map (symbol, ·) with
        | some (symbol, tag) => concretePlan scope id symbol data tag
        | none => unmarkedPlan scope id data

/-- Follow a plan, given how types are resolved. -/
def Plan.run (visit : TypeId → Resolution ResolvedType) : Plan → Resolution ResolvedType
  | .answer t _, visited => .ok (t, visited)
  | .bareArray, visited => .ok (.tuple [.unknown] true, visited)
  | .fail e, _ => .error e
  | .follow id, visited => visit id visited
  | .library name arguments, visited => do
      let (arguments, visited) ← resolveAll visit arguments visited
      return (.literal name none arguments, visited)
  | .tuple elements array, visited => do
      let (elements, visited) ← resolveAll visit elements visited
      return (.tuple elements array, visited)
  | .managed id name moduleId arguments, visited =>
      match visited.pointer? id with
      | some pointer => .ok (pointer, visited)
      | none => do
          let (refId, visited) := visited.remember id (some name)
          let (arguments, visited) ← resolveAll visit arguments visited
          return (.managed name moduleId arguments refId, visited)
  | .shape id name properties mapped, visited =>
      match visited.pointer? id with
      | some pointer => .ok (pointer, visited)
      | none => do
          let (refId, visited) := visited.remember id name
          let (fields, visited) ← resolveFields visit properties [] visited
          return (.shape name fields mapped refId, visited)
  | .compose operator members, visited => do
      let ((members, nullable, optional), visited) ← resolveMembers scope visit members visited
      TypeResolver.compose operator members nullable optional visited

end Plans

section Runs

variable (scope : Scope) (visit : TypeId → Resolution ResolvedType) (id : TypeId)
  (symbol : SymbolData) (data : TypeData)

theorem named_eq_run : named scope visit id symbol data =
    (namedPlan scope id symbol data).run scope visit := by
  funext visited
  unfold named namedPlan
  cases symbol.aliasTarget with
  | some target => rfl
  | none =>
      cases symbol.declaration.any DeclarationSite.defaultLibrary with
      | true => rfl
      | false =>
          cases foreignFile? scope symbol with
          | some file => rfl
          | none => cases symbol.isClass <;> rfl

theorem concrete_eq_run (tag : ConcreteTag) : concrete scope visit id symbol data tag =
    (concretePlan scope id symbol data tag).run scope visit := by
  funext visited
  cases tag with
  | target target =>
      simp only [concrete, concretePlan]
      cases scope.types.type? target with
      | none => rfl
      | some targetData =>
          simp only
          cases targetData.symbol <;> rfl
  | generated => rfl

theorem structured_eq_run : structured scope visit id data =
    (structuredPlan scope id data).run scope visit := by
  funext visited
  unfold structured structuredPlan foreign?
  cases data.objectFlags.meets ObjectFlag.anonymous with
  | true =>
      cases data.symbol with
      | none => rfl
      | some symbol =>
          simp only [Option.bind_some]
          cases foreignFile? scope symbol <;> rfl
  | false =>
      cases data.objectFlags.meets
          (.all [ObjectFlag.classType, ObjectFlag.interface, ObjectFlag.reference]) with
      | true =>
          cases data.symbol with
          | none => rfl
          | some symbol => exact congrFun (named_eq_run scope visit id symbol data) visited
      | false =>
          cases data.objectFlags.meets ObjectFlag.tuple with
          | true => rfl
          | false =>
              cases data.objectFlags.meets ObjectFlag.objectLiteral with
              | true => rfl
              | false => cases data.objectFlags.meets ObjectFlag.mapped <;> rfl

theorem unmarked_eq_run : unmarked scope visit id data =
    (unmarkedPlan scope id data).run scope visit := by
  funext visited
  unfold unmarked unmarkedPlan
  cases data.flags.meets (.all [TypeFlag.any, TypeFlag.unknown, TypeFlag.never]) with
  | true => rfl
  | false =>
      cases data.objectFlags.meets ObjectFlag.array && data.symbol.isNone with
      | true =>
          cases data.typeArguments with
          | nil => rfl
          | cons element elements =>
              simp only [Bool.false_eq_true, if_false, if_true, Plan.run, resolveAll]
              cases visit element visited <;> rfl
      | false =>
          cases data.flags.meets (.all [TypeFlag.union, TypeFlag.intersection]) with
          | true => rfl
          | false => exact congrFun (structured_eq_run scope visit id data) visited

/-- A step follows the plan for its type. -/
theorem expand_eq_run : expand scope visit id = (plan scope id).run scope visit := by
  funext visited
  unfold expand plan
  cases scope.types.type? id with
  | none => rfl
  | some data =>
      simp only
      cases data.flags.meets TypeFlag.templateLiteral with
      | true => rfl
      | false =>
          cases data.flags.meets TypeFlag.primitiveLike with
          | true => rfl
          | false =>
              cases data.symbol.bind fun symbol => symbol.concrete.map (symbol, ·) with
              | some marked => exact congrFun (concrete_eq_run scope visit id _ data _) visited
              | none => exact congrFun (unmarked_eq_run scope visit id data) visited

end Runs

section Yields

variable (scope : Scope) (visit : TypeId → Resolution ResolvedType)

/-- What comes of a plan, with all that this takes. -/
inductive Plan.Yields : Plan → Visited → ResolvedType → Visited → Prop
  | answer {t : ResolvedType} {isLeaf : IsLeaf t} {before : Visited} :
      Yields (.answer t isLeaf) before t before
  | bareArray {before : Visited} : Yields .bareArray before (.tuple [.unknown] true) before
  | follow {id : TypeId} {before after : Visited} {t : ResolvedType}
      (visited : visit id before = .ok (t, after)) : Yields (.follow id) before t after
  | library {name : String} {arguments : List TypeId} {before after : Visited}
      {types : List ResolvedType} (all : resolveAll visit arguments before = .ok (types, after)) :
      Yields (.library name arguments) before (.literal name none types) after
  | tuple {elements : List TypeId} {array : Bool} {before after : Visited}
      {types : List ResolvedType} (all : resolveAll visit elements before = .ok (types, after)) :
      Yields (.tuple elements array) before (.tuple types array) after
  /-- A type that is met again. -/
  | pointer {p : Plan} {id : TypeId} {before : Visited} {label : Nat × Option String}
      (own : p.own? = some id) (listed : (id, label) ∈ before.seen) :
      Yields p before (.pointer label.1 label.2) before
  | managed {id : TypeId} {name : String} {moduleId : Option String} {arguments : List TypeId}
      {before after : Visited} {types : List ResolvedType}
      (all : resolveAll visit arguments (before.remember id (some name)).2 = .ok (types, after)) :
      Yields (.managed id name moduleId arguments) before
        (.managed name moduleId types before.nextRef) after
  | shape {id : TypeId} {name : Option String} {properties : List PropertyData} {mapped : Bool}
      {before after : Visited} {fields : Assoc String ResolvedType}
      (all : resolveFields visit properties [] (before.remember id name).2 = .ok (fields, after)) :
      Yields (.shape id name properties mapped) before
        (.shape name fields mapped before.nextRef) after
  | compose {operator : Operator} {members : List TypeId} {before middle after : Visited}
      {types : List ResolvedType} {nullable optional : Bool} {t : ResolvedType}
      (all : resolveMembers scope visit members before = .ok ((types, nullable, optional), middle))
      (composed : TypeResolver.compose operator types nullable optional middle = .ok (t, after)) :
      Yields (.compose operator members) before t after

variable {scope visit} {before after : Visited} {t : ResolvedType}

theorem Plan.yields_of_run {p : Plan} (resolved : p.run scope visit before = .ok (t, after)) :
    p.Yields scope visit before t after := by
  cases p with
  | answer t =>
      cases resolved
      exact .answer
  | bareArray =>
      cases resolved
      exact .bareArray
  | fail e => cases resolved
  | follow id => exact .follow resolved
  | library name arguments =>
      simp only [run, bind_eq_ok, pure_eq_ok] at resolved
      obtain ⟨⟨types, last⟩, all, same⟩ := resolved
      cases same
      exact .library all
  | tuple elements array =>
      simp only [run, bind_eq_ok, pure_eq_ok] at resolved
      obtain ⟨⟨types, last⟩, all, same⟩ := resolved
      cases same
      exact .tuple all
  | managed id name moduleId arguments =>
      simp only [run] at resolved
      split at resolved
      · rename_i pointer found
        cases resolved
        obtain ⟨label, listed, rfl⟩ := Option.map_eq_some_iff.mp found
        exact .pointer rfl (Assoc.mem_of_get? listed)
      · simp only [bind_eq_ok, pure_eq_ok] at resolved
        obtain ⟨⟨types, last⟩, all, same⟩ := resolved
        cases same
        exact .managed all
  | shape id name properties mapped =>
      simp only [run] at resolved
      split at resolved
      · rename_i pointer found
        cases resolved
        obtain ⟨label, listed, rfl⟩ := Option.map_eq_some_iff.mp found
        exact .pointer rfl (Assoc.mem_of_get? listed)
      · simp only [bind_eq_ok, pure_eq_ok] at resolved
        obtain ⟨⟨fields, last⟩, all, same⟩ := resolved
        cases same
        exact .shape all
  | compose operator members =>
      simp only [run, bind_eq_ok] at resolved
      obtain ⟨⟨⟨types, nullable, optional⟩, middle⟩, all, composed⟩ := resolved
      exact .compose all composed

/-- A type comes of its plan. -/
theorem yields_of_visit {levels : Nat} {id : TypeId}
    (resolved : TypeResolver.visit scope (levels + 1) id before = .ok (t, after)) :
    (plan scope id).Yields scope (TypeResolver.visit scope levels) before t after := by
  rw [TypeResolver.visit, expand_eq_run] at resolved
  exact Plan.yields_of_run resolved

/-- The first of several types is resolved, and then the others. -/
theorem resolveAll_cons_eq_ok {id : TypeId} {rest : List TypeId} {types : List ResolvedType} :
    resolveAll visit (id :: rest) before = .ok (types, after) ↔
      ∃ first middle others, visit id before = .ok (first, middle) ∧
        resolveAll visit rest middle = .ok (others, after) ∧ types = first :: others := by
  simp only [resolveAll, bind_eq_ok, pure_eq_ok]
  constructor
  · rintro ⟨⟨first, middle⟩, visited, ⟨others, last⟩, later, same⟩
    cases same
    exact ⟨first, middle, others, visited, later, rfl⟩
  · rintro ⟨first, middle, others, visited, later, rfl⟩
    exact ⟨(first, middle), visited, (others, after), later, rfl⟩

/-- The type of the first property is put among the fields, and then those of the others. -/
theorem resolveFields_cons_eq_ok {property : PropertyData} {rest : List PropertyData}
    {fields result : Assoc String ResolvedType} :
    resolveFields visit (property :: rest) fields before = .ok (result, after) ↔
      ∃ type middle, visit property.type before = .ok (type, middle) ∧
        resolveFields visit rest (fields.put property.name type) middle = .ok (result, after) := by
  simp only [resolveFields, bind_eq_ok, Prod.exists]

/-- The members of a composition that are no marks are resolved as any list of types. -/
theorem exists_resolveAll {ids : List TypeId} {members : List ResolvedType} {marks : Bool × Bool}
    (resolved : resolveMembers scope visit ids before = .ok ((members, marks), after)) :
    ∃ kept, resolveAll visit kept before = .ok (members, after) := by
  induction ids generalizing before members marks with
  | nil =>
      cases resolved
      exact ⟨[], rfl⟩
  | cons id rest ih =>
      simp only [resolveMembers] at resolved
      split at resolved
      · cases resolved
      split at resolved
      · simp only [bind_eq_ok, pure_eq_ok] at resolved
        obtain ⟨⟨⟨others, _, _⟩, last⟩, later, same⟩ := resolved
        cases same
        exact ih later
      split at resolved
      · simp only [bind_eq_ok, pure_eq_ok] at resolved
        obtain ⟨⟨⟨others, _, _⟩, last⟩, later, same⟩ := resolved
        cases same
        exact ih later
      · simp only [bind_eq_ok, pure_eq_ok] at resolved
        obtain ⟨⟨member, middle⟩, visited, ⟨⟨others, _, _⟩, last⟩, later, same⟩ := resolved
        cases same
        obtain ⟨kept, all⟩ := ih later
        exact ⟨id :: kept, resolveAll_cons_eq_ok.mpr ⟨member, middle, others, visited, all, rfl⟩⟩

end Yields

end TypeResolver

/-- An array of which no element type is given. -/
def TypeData.IsBareArray (data : TypeData) : Prop :=
  data.objectFlags.meets ObjectFlag.array = true ∧ data.symbol = none ∧ data.typeArguments = []

instance (data : TypeData) : Decidable data.IsBareArray := inferInstanceAs (Decidable (_ ∧ _ ∧ _))

namespace TypeResolver

section Sources

variable {scope : Scope} {id : TypeId} {symbol : SymbolData} {data : TypeData}

/-- What a plan says of a type is what the table says of it. -/
def Plan.IsOf (data : TypeData) : Plan → Prop
  | .bareArray => data.IsBareArray
  | .shape _ _ properties _ => properties = data.properties
  | .compose operator members => members = data.subTypes ∧
      operator = if data.flags.meets TypeFlag.union then .or else .and
  | _ => True

theorem isOf_namedPlan : (namedPlan scope id symbol data).IsOf data := by
  unfold namedPlan
  cases symbol.aliasTarget with
  | some target => trivial
  | none =>
      cases symbol.declaration.any DeclarationSite.defaultLibrary with
      | true => trivial
      | false =>
          cases foreignFile? scope symbol with
          | some file => trivial
          | none =>
              cases symbol.isClass with
              | true => trivial
              | false => rfl

theorem isOf_concretePlan {tag : ConcreteTag} : (concretePlan scope id symbol data tag).IsOf data := by
  cases tag with
  | target target =>
      simp only [concretePlan]
      split
      · trivial
      · split <;> trivial
  | generated => trivial

theorem isOf_structuredPlan : (structuredPlan scope id data).IsOf data := by
  unfold structuredPlan
  split
  · split
    · trivial
    · rfl
  split
  · split
    · trivial
    · exact isOf_namedPlan
  split
  · trivial
  split
  · rfl
  split
  · rfl
  · trivial

theorem isOf_unmarkedPlan : (unmarkedPlan scope id data).IsOf data := by
  unfold unmarkedPlan
  split
  · trivial
  split
  · rename_i isArray
    obtain ⟨isArray, noSymbol⟩ := Bool.and_eq_true_iff.mp isArray
    split
    · rename_i noArguments
      exact ⟨isArray, Option.isNone_iff_eq_none.mp noSymbol, noArguments⟩
    · trivial
  split
  · exact ⟨rfl, rfl⟩
  · exact isOf_structuredPlan

/-- A plan that says something of a type is that of a type of the table. -/
theorem exists_isOf_plan (scope : Scope) (id : TypeId) :
    (∃ e, plan scope id = .fail e) ∨ ∃ data ∈ scope.types, (plan scope id).IsOf data := by
  unfold plan
  split
  · exact .inl ⟨_, rfl⟩
  rename_i data found
  refine .inr ⟨data, List.mem_of_getElem? found, ?_⟩
  split
  · trivial
  split
  · trivial
  split
  · exact isOf_concretePlan
  · exact isOf_unmarkedPlan

end Sources

end TypeResolver

end WorkspaceBuild
