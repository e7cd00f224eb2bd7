import WorkspaceBuild.Proofs.Dispatch.BuiltIn

/-! # Classes that registrations name

Calls of the registry stand at top level and name a class. The name means the class when a top-level
statement before has declared it, but a class is registered at whatever depth it is declared.
-/

namespace WorkspaceBuild

/-! ## Statements other than imports -/

def Statement.isImport : Statement → Bool
  | .importDecl _ => true
  | _ => false

/-- The statements that are no imports. -/
def notImports (statements : List Statement) : List Statement := statements.filter (!·.isImport)

namespace Imports

variable {settled after : List Settled} {semantic : SemanticModel} {references : References}
  {path : Path}

theorem notImports_addToSettled? {target : String} {binding : ImportBinding}
    (added : addToSettled? target binding settled = some after) :
    notImports (after.map Settled.statement) = notImports (settled.map Settled.statement) := by
  induction settled generalizing after with
  | nil => cases added
  | cons first rest ih =>
      cases first with
      | value t decl =>
          rw [addToSettled?] at added
          split at added
          · cases added
            rfl
          · obtain ⟨inner, more, rfl⟩ := Option.map_eq_some_iff.mp added
            have kept := ih more
            simpa [notImports, Settled.statement, Statement.isImport] using kept
      | other s =>
          obtain ⟨inner, more, rfl⟩ := Option.map_eq_some_iff.mp added
          simp only [notImports, List.map_cons, List.filter_cons] at ih ⊢
          rw [ih more]

theorem notImports_serve (imports : List (String × ImportDecl) × List Settled)
    (request : ImportRequest) :
    notImports ((serve references path imports request).2.map Settled.statement) =
      notImports (imports.2.map Settled.statement) := by
  simp only [serve]
  split
  · rename_i added
    exact notImports_addToSettled? added
  · rfl

theorem settle_cases (s : Statement) :
    s.isImport = false ∧ settle semantic references path s = some (.other s) ∨
      s.isImport = true ∧
        ∀ x ∈ settle semantic references path s, x.statement.isImport = true := by
  cases s with
  | importDecl decl =>
      refine .inr ⟨rfl, fun x settled => ?_⟩
      rw [settle] at settled
      split at settled
      · cases settled
        rfl
      · simp only [settleImport] at settled
        split at settled
        · cases settled
        · cases settled
          rfl
  | _ => exact .inl ⟨rfl, rfl⟩

theorem notImports_settle (statements : List Statement) :
    notImports ((statements.filterMap (settle semantic references path)).map Settled.statement) =
      notImports statements := by
  induction statements with
  | nil => rfl
  | cons s rest ih =>
      simp only [notImports] at ih ⊢
      rcases settle_cases s with ⟨other, kept⟩ | ⟨isImport, settled⟩
      · rw [List.filterMap_cons_some kept, List.map_cons, Settled.statement,
          List.filter_cons_of_pos (by simp [other]), List.filter_cons_of_pos (by simp [other]), ih]
      · rw [List.filter_cons_of_neg (by simp [isImport])]
        cases found : settle semantic references path s with
        | none => rw [List.filterMap_cons_none found, ih]
        | some x => rw [List.filterMap_cons_some found, List.map_cons,
            List.filter_cons_of_neg (by simp [settled x found]), ih]

/-- Settling imports leaves the other statements as they are. -/
theorem notImports_finalize (requests : ImportRequests) (u : SourceUnit) :
    notImports (finalize requests semantic references u).statements = notImports u.statements := by
  have served (requests : ImportRequests) (imports : List (String × ImportDecl) × List Settled) :
      notImports ((requests.foldl (serve references u.path) imports).2.map Settled.statement) =
        notImports (imports.2.map Settled.statement) := by
    induction requests generalizing imports with
    | nil => rfl
    | cons request rest ih => rw [List.foldl_cons, ih, notImports_serve]
  have injected (imports : List (String × ImportDecl)) :
      notImports (imports.map fun entry => Statement.importDecl entry.2) = [] := by
    refine List.filter_eq_nil_iff.mpr fun s listed => ?_
    obtain ⟨entry, _, rfl⟩ := List.mem_map.mp listed
    exact Bool.false_ne_true
  simp only [finalize]
  rw [notImports, List.filter_append]
  change notImports _ ++ notImports _ = _
  rw [injected, served, notImports_settle, List.nil_append]

end Imports

namespace Registrations

/-! ## Classes -/

/-- The class that a registration is of. -/
def Registration.subject : Registration → String
  | .field owner _ _ => owner
  | .identity head _ => head.name

/-- The name that a statement declares for a class. -/
def className? : Statement → Option String
  | .classDecl head _ => some head.name
  | _ => none

/-- The names of the classes in a statement, at any depth. -/
def classesIn (s : Statement) : List String :=
  (ofStatement (fun _ => false) s).map Registration.subject

/-- A name is that of some registration. -/
def Names (name : String) (registrations : List Registration) : Prop :=
  ∃ r ∈ registrations, r.subject = name

theorem names_append {name : String} {first second : List Registration} :
    Names name (first ++ second) ↔ Names name first ∨ Names name second := by
  simp [Names, or_and_right, exists_or]

theorem names_ofProperty {annotated : List Decorator → Bool} {owner name : String}
    {decl : PropertyDecl} (names : Names name (ofProperty annotated owner decl)) :
    name = owner := by
  obtain ⟨r, listed, rfl⟩ := names
  rw [ofProperty] at listed
  split at listed
  · cases List.mem_singleton.mp listed
    rfl
  · cases listed

variable (annotated other : List Decorator → Bool)

mutual

/-- Whatever fields are described, the classes of a statement are those that are registered. -/
theorem names_ofStatement (s : Statement) {name : String}
    (names : Names name (ofStatement annotated s)) : Names name (ofStatement other s) := by
  cases s with
  | classDecl head members =>
      rw [ofStatement, names_append] at names ⊢
      rcases names with inside | own
      · exact (names_ofMembers head.name members inside).elim (fun same =>
          .inr ⟨_, List.mem_singleton_self _, same.symm⟩) .inl
      · obtain ⟨r, listed, rfl⟩ := own
        cases List.mem_singleton.mp listed
        exact .inr ⟨_, List.mem_singleton_self _, rfl⟩
  | functionDecl head body => exact names_ofBody body names
  | _ =>
      obtain ⟨r, listed, _⟩ := names
      cases listed

theorem names_ofBody (body : List Statement) {name : String}
    (names : Names name (ofBody annotated body)) : Names name (ofBody other body) := by
  cases body with
  | nil => exact names
  | cons s rest =>
      rw [ofBody, names_append] at names ⊢
      exact names.imp (names_ofStatement s) (names_ofBody rest)

theorem names_ofMember (owner : String) (m : ClassMember) {name : String}
    (names : Names name (ofMember annotated owner m)) :
    name = owner ∨ Names name (ofMember other owner m) := by
  cases m with
  | property decl => exact .inl (names_ofProperty names)
  | constructorDecl params body | method head body | getter head body | setter head body =>
      exact .inr (names_ofBody body names)

theorem names_ofMembers (owner : String) (members : List ClassMember) {name : String}
    (names : Names name (ofMembers annotated owner members)) :
    name = owner ∨ Names name (ofMembers other owner members) := by
  cases members with
  | nil => exact .inr names
  | cons m rest =>
      rw [ofMembers, names_append] at names ⊢
      rcases names with here | later
      · exact (names_ofMember owner m here).imp_right .inl
      · exact (names_ofMembers owner rest later).imp_right .inr

end

theorem mem_classesIn {s : Statement} {name : String} :
    name ∈ classesIn s ↔ ∃ r ∈ ofStatement annotated s, r.subject = name := by
  rw [classesIn, List.mem_map]
  exact ⟨names_ofStatement _ _ s, names_ofStatement _ _ s⟩

/-! ## Scopes -/

/-- A top-level statement with the registration that it makes, if it was added for one. -/
abbrev Traced := Option Registration × Statement

/-- Every registration stands behind a top-level class of its name. Some names are declared
before. -/
def InScope (declared : List String) (placed : List Traced) : Prop :=
  ∀ before entry later, placed = before ++ entry :: later →
    ∀ r ∈ entry.1, r.subject ∈ declared ++ before.filterMap (className? ·.2)

/-- Every class in a top-level statement has the name of a class that the statement or one before
declares at top level. Some names are declared before. -/
def OwnsClasses (declared : List String) (statements : List Statement) : Prop :=
  ∀ before s later, statements = before ++ s :: later →
    ∀ name ∈ classesIn s, name ∈ declared ++ (before ++ [s]).filterMap className?

theorem forall_split_cons {α : Type} {x : α} {xs : List α} {P : List α → α → Prop} :
    (∀ before y later, x :: xs = before ++ y :: later → P before y) ↔
      P [] x ∧ ∀ before y later, xs = before ++ y :: later → P (x :: before) y := by
  constructor
  · intro all
    exact ⟨all [] x xs rfl, fun before y later split => all (x :: before) y later (split ▸ rfl)⟩
  · rintro ⟨here, there⟩ before y later split
    cases before with
    | nil =>
        cases split
        exact here
    | cons first before =>
        cases split
        exact there before y later rfl

theorem inScope_cons {declared : List String} {entry : Traced} {placed : List Traced} :
    InScope declared (entry :: placed) ↔ (∀ r ∈ entry.1, r.subject ∈ declared) ∧
      InScope (declared ++ (className? entry.2).toList) placed := by
  rw [InScope, forall_split_cons (P := fun (before : List Traced) (entry : Traced) =>
    ∀ r ∈ entry.1, r.subject ∈ declared ++ before.filterMap (className? ·.2))]
  simp only [InScope, List.filterMap_nil, List.append_nil, List.filterMap_cons, List.append_assoc]
  cases className? entry.2 <;> rfl

theorem ownsClasses_cons {declared : List String} {s : Statement} {rest : List Statement} :
    OwnsClasses declared (s :: rest) ↔
      (∀ name ∈ classesIn s, name ∈ declared ++ (className? s).toList) ∧
        OwnsClasses (declared ++ (className? s).toList) rest := by
  rw [OwnsClasses, forall_split_cons (P := fun before s => ∀ name ∈ classesIn s,
    name ∈ declared ++ (before ++ [s]).filterMap className?)]
  simp only [OwnsClasses, List.nil_append, List.cons_append, List.filterMap_cons,
    List.filterMap_nil, List.append_assoc]
  cases className? s <;> rfl

theorem inScope_nil (declared : List String) : InScope declared [] := by
  intro before entry later split
  cases before <;> cases split

theorem ownsClasses_nil (declared : List String) : OwnsClasses declared [] := by
  intro before s later split
  cases before <;> cases split

/-- The top-level statements of a unit, each with the calls of its registrations right behind it. -/
inductive IsTrace (annotated : List Decorator → Bool) (unitId : String)
    (types : TypeResolver.Scope) : List Statement → List Traced → Prop
  | nil : IsTrace annotated unitId types [] []
  | cons {s : Statement} {rest : List Statement} {calls trace : List Traced}
      (owed : calls.map Prod.fst = (ofStatement annotated s).map some)
      (made : ∀ r call, (some r, call) ∈ calls → r.call unitId types = .ok call)
      (later : IsTrace annotated unitId types rest trace) :
      IsTrace annotated unitId types (s :: rest) ((none, s) :: calls ++ trace)

variable {annotated : List Decorator → Bool} {unitId : String} {types : TypeResolver.Scope}

theorem className?_of_call {r : Registration} {call : Statement}
    (made : r.call unitId types = .ok call) : className? call = none ∧ call.isImport = false := by
  cases r with
  | field owner decl id =>
      obtain ⟨type, _, rfl⟩ := map_eq_ok.mp made
      exact ⟨rfl, rfl⟩
  | identity head members =>
      cases made
      exact ⟨rfl, rfl⟩

/-- Calls declare nothing, so that all of them see the same names. -/
theorem inScope_append {declared : List String} {calls placed : List Traced}
    (made : ∀ entry ∈ calls, ∃ r, entry.1 = some r ∧ r.call unitId types = .ok entry.2) :
    InScope declared (calls ++ placed) ↔
      (∀ r, some r ∈ calls.map Prod.fst → r.subject ∈ declared) ∧ InScope declared placed := by
  induction calls with
  | nil => simp
  | cons entry rest ih =>
      obtain ⟨⟨r, here, call⟩, later⟩ := List.forall_mem_cons.mp made
      rw [List.cons_append, inScope_cons, (className?_of_call call).1, Option.toList_none,
        List.append_nil, ih later, ← and_assoc]
      refine and_congr_left' ?_
      simp only [List.map_cons, List.mem_cons, or_imp, forall_and, here, Option.some.injEq,
        Option.mem_def]
      exact and_congr_left' ⟨fun all r' same => all r' same.symm, fun all r' same => all r' same.symm⟩

/-- Whether all registrations of a unit are in scope is read off its classes. -/
theorem IsTrace.inScope_iff {statements : List Statement} {trace : List Traced}
    (traces : IsTrace annotated unitId types statements trace) (declared : List String) :
    InScope declared trace ↔ OwnsClasses declared statements := by
  induction traces generalizing declared with
  | nil => exact iff_of_true (inScope_nil declared) (ownsClasses_nil declared)
  | @cons s rest calls trace owed made later ih =>
      have each : ∀ entry ∈ calls, ∃ r, entry.1 = some r ∧ r.call unitId types = .ok entry.2 := by
        rintro ⟨mark, call⟩ listed
        have marked : mark ∈ (ofStatement annotated s).map some :=
          owed ▸ List.mem_map_of_mem listed
        obtain ⟨r, _, rfl⟩ := List.mem_map.mp marked
        exact ⟨r, rfl, made r call listed⟩
      rw [List.cons_append, inScope_cons, inScope_append each, ih, ownsClasses_cons, owed]
      simp only [mem_classesIn annotated]
      constructor
      · rintro ⟨_, here, there⟩
        refine ⟨?_, there⟩
        rintro _ ⟨r, listed, rfl⟩
        exact here r (List.mem_map_of_mem listed)
      · rintro ⟨here, there⟩
        refine ⟨fun r listed => (nomatch listed), fun r listed => ?_, there⟩
        obtain ⟨r', member, same⟩ := List.mem_map.mp listed
        cases same
        exact here _ ⟨r, member, rfl⟩

/-! ## Units -/

variable {semantic : SemanticModel} {references : References} {u out : SourceUnit}

/-- The calls of some registrations, each with its own. -/
theorem exists_calls {registrations : List Registration} {calls : List Statement}
    (made : registrations.mapM (Registration.call unitId types) = .ok calls) :
    ∃ traced : List Traced, traced.map Prod.snd = calls ∧
      traced.map Prod.fst = registrations.map some ∧
        ∀ r call, (some r, call) ∈ traced → r.call unitId types = .ok call := by
  induction registrations generalizing calls with
  | nil =>
      cases made
      exact ⟨[], rfl, rfl, fun r call listed => nomatch listed⟩
  | cons r rest ih =>
      obtain ⟨call, others, here, later, rfl⟩ := mapM_cons_eq_ok.mp made
      obtain ⟨traced, same, own, each⟩ := ih later
      refine ⟨(some r, call) :: traced, by rw [List.map_cons, same], by simp [own], ?_⟩
      intro r' call' listed
      rcases List.mem_cons.mp listed with first | more
      · cases first
        exact here
      · exact each r' call' more

/-- What one pass makes of a unit is a trace of it. -/
theorem exists_isTrace {groups : List (Statement × List Statement)}
    (made : onePass semantic references u = .ok groups) :
    ∃ trace, trace.map Prod.snd = groups.flatMap (fun group => group.1 :: group.2) ∧
      IsTrace (isAnnotated semantic u.path) ((references.idOf u.path).getD u.path.text)
        ⟨semantic.types, references⟩ u.statements trace := by
  rw [onePass] at made
  generalize u.statements = statements at made
  induction statements generalizing groups with
  | nil =>
      cases made
      exact ⟨[], rfl, .nil⟩
  | cons s rest ih =>
      obtain ⟨group, others, here, later, rfl⟩ := mapM_cons_eq_ok.mp made
      obtain ⟨calls, called, same⟩ := bind_eq_ok.mp here
      cases same
      obtain ⟨trace, whole, traces⟩ := ih later
      obtain ⟨traced, own, owed, each⟩ := exists_calls called
      exact ⟨_, by simp [whole, own], .cons owed each traces⟩

/-- The top-level statements of a result, each with the registration that it was added for. But for
the imports, which are settled last, they are a trace of the unit. -/
structure Places (semantic : SemanticModel) (references : References) (u out : SourceUnit)
    (placed : List Traced) : Prop where
  whole : placed.map Prod.snd = out.statements
  added : ∀ entry ∈ placed, entry.2.isImport = true → entry.1 = none
  trace : ∃ trace, IsTrace (isAnnotated semantic u.path)
    ((references.idOf u.path).getD u.path.text) ⟨semantic.types, references⟩ u.statements trace ∧
      placed.filter (!·.2.isImport) = trace.filter (!·.2.isImport)

/-- Statements can be traced like those of them that are no imports. -/
theorem exists_traced {statements : List Statement} {trace : List Traced}
    (noImports : ∀ entry ∈ trace, entry.2.isImport = false)
    (same : notImports statements = trace.map Prod.snd) :
    ∃ placed : List Traced, placed.map Prod.snd = statements ∧
      placed.filter (!·.2.isImport) = trace ∧
        ∀ entry ∈ placed, entry.2.isImport = true → entry.1 = none := by
  induction statements generalizing trace with
  | nil =>
      have empty : trace = [] := List.map_eq_nil_iff.mp same.symm
      exact ⟨[], rfl, empty.symm, fun entry listed => nomatch listed⟩
  | cons s rest ih =>
      cases isImport : s.isImport with
      | true =>
          rw [notImports, List.filter_cons_of_neg (by simp [isImport])] at same
          obtain ⟨placed, whole, filtered, added⟩ := ih noImports same
          exact ⟨(none, s) :: placed, by rw [List.map_cons, whole], by simp [isImport, filtered],
            List.forall_mem_cons.mpr ⟨fun _ => rfl, added⟩⟩
      | false =>
          rw [notImports, List.filter_cons_of_pos (by simp [isImport])] at same
          obtain ⟨entry, others, rfl, rfl, sameRest⟩ := List.map_eq_cons_iff.mp same.symm
          obtain ⟨placed, whole, filtered, added⟩ :=
            ih (fun e listed => noImports e (List.mem_cons_of_mem _ listed)) sameRest.symm
          exact ⟨entry :: placed, by rw [List.map_cons, whole], by simp [isImport, filtered],
            List.forall_mem_cons.mpr ⟨fun wrong => by simp [isImport] at wrong, added⟩⟩

/-- Imports declare no classes. -/
theorem inScope_filter {declared : List String} {placed : List Traced}
    (added : ∀ entry ∈ placed, entry.2.isImport = true → entry.1 = none) :
    InScope declared (placed.filter (!·.2.isImport)) ↔ InScope declared placed := by
  induction placed generalizing declared with
  | nil => rfl
  | cons entry rest ih =>
      obtain ⟨here, later⟩ := List.forall_mem_cons.mp added
      cases isImport : entry.2.isImport with
      | true =>
          obtain ⟨mark, s⟩ := entry
          cases s with
          | importDecl decl =>
              have unmarked : mark = none := here rfl
              rw [List.filter_cons_of_neg (by simp [isImport]), ih later, inScope_cons]
              simp [unmarked, className?]
          | _ => cases isImport
      | false =>
          rw [List.filter_cons_of_pos (by simp [isImport]), inScope_cons, inScope_cons, ih later]

theorem IsTrace.added {statements : List Statement} {trace : List Traced}
    (traces : IsTrace annotated unitId types statements trace) :
    ∀ entry ∈ trace, entry.2.isImport = true → entry.1 = none := by
  induction traces with
  | nil => exact fun entry listed => nomatch listed
  | @cons s rest calls trace owed made later ih =>
      refine List.forall_mem_cons.mpr ⟨fun _ => rfl, fun entry listed isImport => ?_⟩
      rcases List.mem_append.mp listed with here | there
      · obtain ⟨mark, call⟩ := entry
        cases mark with
        | none => rfl
        | some r =>
            rw [(className?_of_call (made r call here)).2] at isImport
            cases isImport
      · exact ih entry there isImport

/-- What is added to a unit can be told apart, and all of it is in scope just when every class of the
unit, at whatever depth, has the name of a class that its top-level statement or one before it
declares at top level. -/
theorem transform_inScope_iff (semantic : SemanticModel) (references : References) (levels : Nat)
    (u : SourceUnit) {σ : Type} (notes : σ)
    (seen : Dispatcher.isPassthrough references u.path = false)
    (made : (Dispatcher.transform ⟨builtin, semantic, references, levels⟩ u notes).1 = .ok out) :
    ∃ placed, Places semantic references u out placed ∧
      (InScope [] placed ↔ OwnsClasses [] u.statements) := by
  rw [transform_eq semantic references levels u notes seen] at made
  cases passed : onePass semantic references u with
  | error e =>
      rw [passed] at made
      cases made
  | ok groups =>
      rw [passed] at made
      obtain rfl : woven semantic references u groups = out := Except.ok.inj made
      obtain ⟨trace, whole, traces⟩ := exists_isTrace passed
      have same : notImports (woven semantic references u groups).statements =
          (trace.filter (!·.2.isImport)).map Prod.snd := by
        rw [woven, Imports.notImports_finalize, notImports, ← whole, List.filter_map]
        rfl
      obtain ⟨placed, all, filtered, added⟩ := exists_traced
        (fun entry listed => by simpa using (List.mem_filter.mp listed).2) same
      refine ⟨placed, ⟨all, added, trace, traces, filtered⟩, ?_⟩
      rw [← inScope_filter added, filtered, inScope_filter traces.added]
      exact traces.inScope_iff []

/-- A function that declares a class inside. -/
def hiddenFunction : Statement :=
  .functionDecl ⟨"make", true, []⟩ [.classDecl ⟨"Inner", false, [], none⟩ []]

def hiddenUnit : SourceUnit := ⟨⟨"/ws/src/unit.ts"⟩, [hiddenFunction]⟩

def hiddenOutput : SourceUnit where
  path := ⟨"/ws/src/unit.ts"⟩
  statements := [.importDecl { specifier := runtimeModule, bindings := [registryImport] },
    hiddenFunction,
    runtimeCall "registerClass" (classArgs "/ws/src/unit.ts" ⟨"Inner", false, [], none⟩ [])]

/-- The class is registered at top level, where its name means nothing. -/
theorem not_inScope_hidden :
    Dispatcher.isPassthrough .none hiddenUnit.path = false ∧
      (Dispatcher.transform ⟨builtin, .ofTables [] [] [], .none, 0⟩ hiddenUnit ()).1 =
        .ok hiddenOutput ∧
      ∃ placed, Places (.ofTables [] [] []) .none hiddenUnit hiddenOutput placed ∧
        ¬ InScope [] placed := by
  have made : (Dispatcher.transform ⟨builtin, .ofTables [] [] [], .none, 0⟩ hiddenUnit ()).1 =
      .ok hiddenOutput := by
    rw [transform_eq (.ofTables [] [] []) .none 0 hiddenUnit () rfl]
    rfl
  obtain ⟨placed, places, scope⟩ :=
    transform_inScope_iff (.ofTables [] [] []) .none 0 hiddenUnit () rfl made
  refine ⟨rfl, made, placed, places, fun inScope => ?_⟩
  have declared := scope.mp inScope [] hiddenFunction [] rfl "Inner" (List.mem_singleton_self _)
  cases declared

end Registrations

end WorkspaceBuild
