import WorkspaceBuild.SourceUnit.Printer

/-! # Units without their types

What speaks of types is taken out of a unit: decorators, annotations and the ids of types at every
depth, and the statements that declare or import nothing but types. None of it is printed, so units
that differ in nothing else have one text.
-/

namespace WorkspaceBuild

section Heads

def Param.erased (p : Param) : Param := { p with decorators := [], type := none }

def ClassHead.erased (head : ClassHead) : ClassHead := { head with decorators := [] }

def FunctionHead.erased (head : FunctionHead) : FunctionHead :=
  { head with params := head.params.map Param.erased }

def MethodHead.erased (head : MethodHead) : MethodHead :=
  { head with decorators := [], params := head.params.map Param.erased, returnType := none }

def AccessorHead.erased (head : AccessorHead) : AccessorHead :=
  { head with decorators := [], params := head.params.map Param.erased }

def PropertyDecl.erased (decl : PropertyDecl) : PropertyDecl :=
  { decl with decorators := [], type := none }

def TypeDecl.erased (decl : TypeDecl) : TypeDecl := { decl with type := none }

def VariableDecl.erased (decl : VariableDecl) : VariableDecl := { decl with type := none }

@[simp] theorem paramNames_erased (params : List Param) :
    paramNames (params.map Param.erased) = paramNames params := by
  rw [paramNames, List.map_map]
  rfl

@[simp] theorem ClassHead.text_erased (head : ClassHead) : head.erased.text = head.text := rfl

@[simp] theorem FunctionHead.text_erased (head : FunctionHead) : head.erased.text = head.text := by
  simp [FunctionHead.text, FunctionHead.erased]

@[simp] theorem MethodHead.text_erased (head : MethodHead) : head.erased.text = head.text := by
  simp [MethodHead.text, MethodHead.erased]

@[simp] theorem PropertyDecl.line_erased (decl : PropertyDecl) : decl.erased.line = decl.line := rfl

@[simp] theorem VariableDecl.line_erased (decl : VariableDecl) : decl.erased.line = decl.line := rfl

end Heads

/-- Whether a statement speaks of types and of nothing else. -/
def Statement.isTypeOnly : Statement → Bool
  | .importDecl decl => decl.typeOnly
  | .interfaceDecl _ | .aliasDecl _ => true
  | _ => false

/-- The statements that speak of more than types. -/
def Statement.beyondTypes (statements : List Statement) : List Statement :=
  statements.filter (!·.isTypeOnly)

/-- What stays of a body without the statements that speak of types only. If that were nothing, they
all stay: the braces of an empty body stand on one line, those of any other do not. -/
def Statement.keptOf (body : List Statement) : List Statement :=
  if (beyondTypes body).isEmpty then body else beyondTypes body

mutual

/-- A statement without decorators, annotations and ids of types at any depth, and without what
speaks of types only in the bodies within. -/
def Statement.erased : Statement → Statement
  | .importDecl decl => .importDecl decl
  | .classDecl head members => .classDecl head.erased (ClassMember.erasedAll members)
  | .interfaceDecl decl => .interfaceDecl decl.erased
  | .aliasDecl decl => .aliasDecl decl.erased
  | .functionDecl head body =>
      .functionDecl head.erased (Statement.keptOf (Statement.erasedAll body))
  | .variableDecl decl => .variableDecl decl.erased
  | .expression value => .expression value
  | .returned value => .returned value

def Statement.erasedAll : List Statement → List Statement
  | [] => []
  | s :: rest => s.erased :: Statement.erasedAll rest

def ClassMember.erased : ClassMember → ClassMember
  | .constructorDecl params body =>
      .constructorDecl (params.map Param.erased) (Statement.keptOf (Statement.erasedAll body))
  | .method head body => .method head.erased (Statement.keptOf (Statement.erasedAll body))
  | .property decl => .property decl.erased
  | .getter head body => .getter head.erased (Statement.keptOf (Statement.erasedAll body))
  | .setter head body => .setter head.erased (Statement.keptOf (Statement.erasedAll body))

def ClassMember.erasedAll : List ClassMember → List ClassMember
  | [] => []
  | m :: rest => m.erased :: ClassMember.erasedAll rest

end

/-- A unit without its types. -/
def SourceUnit.erased (unit : SourceUnit) : SourceUnit :=
  { unit with statements := Statement.beyondTypes (Statement.erasedAll unit.statements) }

namespace Statement

section Bodies

variable (body : List Statement)

theorem lines_of_isTypeOnly {s : Statement} (typeOnly : s.isTypeOnly = true) (depth : Nat) :
    s.lines depth = [] := by
  cases s with
  | importDecl decl =>
      rw [isTypeOnly] at typeOnly
      rw [lines, if_pos typeOnly]
  | interfaceDecl | aliasDecl => rfl
  | classDecl | functionDecl | variableDecl | expression | returned => cases typeOnly

/-- Statements that speak of types only have no lines. -/
@[simp] theorem linesOf_beyondTypes (depth : Nat) :
    linesOf depth (beyondTypes body) = linesOf depth body := by
  induction body with
  | nil => rfl
  | cons s rest ih =>
      rw [beyondTypes] at ih ⊢
      cases typeOnly : s.isTypeOnly with
      | true =>
          rw [List.filter_cons_of_neg (by simp [typeOnly]), ih, linesOf,
            lines_of_isTypeOnly typeOnly, List.nil_append]
      | false => rw [List.filter_cons_of_pos (by simp [typeOnly]), linesOf, linesOf, ih]

@[simp] theorem linesOf_keptOf (depth : Nat) : linesOf depth (keptOf body) = linesOf depth body := by
  unfold keptOf
  split
  · rfl
  · exact linesOf_beyondTypes body depth

/-- Something stays of every body that is not empty. -/
@[simp] theorem isEmpty_keptOf : (keptOf body).isEmpty = body.isEmpty := by
  unfold keptOf
  split
  · rfl
  · rename_i stays
    cases body with
    | nil => exact absurd rfl stays
    | cons => simpa using stays

@[simp] theorem isEmpty_erasedAll : (erasedAll body).isEmpty = body.isEmpty := by
  cases body <;> rfl

/-- A body is printed as before when the lines within are. -/
theorem braced_keptOf_erasedAll {depth : Nat} (head : String)
    (inside : linesOf (depth + 1) (erasedAll body) = linesOf (depth + 1) body) :
    braced depth head (keptOf (erasedAll body)).isEmpty
        (linesOf (depth + 1) (keptOf (erasedAll body))) =
      braced depth head body.isEmpty (linesOf (depth + 1) body) := by
  rw [isEmpty_keptOf, isEmpty_erasedAll, linesOf_keptOf, inside]

end Bodies

end Statement

@[simp] theorem ClassMember.isEmpty_erasedAll (members : List ClassMember) :
    (ClassMember.erasedAll members).isEmpty = members.isEmpty := by
  cases members <;> rfl

section Lines

mutual

/-- A statement is printed as it is without its types. -/
theorem Statement.lines_erased : ∀ (s : Statement) (depth : Nat), s.erased.lines depth = s.lines depth
  | .classDecl head members, depth => by
      rw [Statement.erased, Statement.lines, Statement.lines, ClassHead.text_erased,
        ClassMember.isEmpty_erasedAll, ClassMember.linesOf_erasedAll members]
  | .functionDecl head body, depth => by
      rw [Statement.erased, Statement.lines, Statement.lines, FunctionHead.text_erased]
      exact Statement.braced_keptOf_erasedAll body _ (Statement.linesOf_erasedAll body _)
  | .importDecl _, _ => rfl
  | .interfaceDecl _, _ => rfl
  | .aliasDecl _, _ => rfl
  | .variableDecl _, _ => rfl
  | .expression _, _ => rfl
  | .returned _, _ => rfl

theorem Statement.linesOf_erasedAll : ∀ (statements : List Statement) (depth : Nat),
    Statement.linesOf depth (Statement.erasedAll statements) = Statement.linesOf depth statements
  | [], _ => rfl
  | s :: rest, depth => by
      rw [Statement.erasedAll, Statement.linesOf, Statement.linesOf, s.lines_erased,
        Statement.linesOf_erasedAll rest]

theorem ClassMember.lines_erased : ∀ (m : ClassMember) (depth : Nat),
    m.erased.lines depth = m.lines depth
  | .constructorDecl params body, depth => by
      rw [ClassMember.erased, ClassMember.lines, ClassMember.lines, paramNames_erased]
      exact Statement.braced_keptOf_erasedAll body _ (Statement.linesOf_erasedAll body _)
  | .method head body, depth => by
      rw [ClassMember.erased, ClassMember.lines, ClassMember.lines, MethodHead.text_erased]
      exact Statement.braced_keptOf_erasedAll body _ (Statement.linesOf_erasedAll body _)
  | .property _, _ => rfl
  | .getter head body, depth => by
      rw [ClassMember.erased, ClassMember.lines, ClassMember.lines]
      exact Statement.braced_keptOf_erasedAll body _ (Statement.linesOf_erasedAll body _)
  | .setter head body, depth => by
      rw [ClassMember.erased, ClassMember.lines, ClassMember.lines, AccessorHead.erased,
        paramNames_erased]
      exact Statement.braced_keptOf_erasedAll body _ (Statement.linesOf_erasedAll body _)

theorem ClassMember.linesOf_erasedAll : ∀ (members : List ClassMember) (depth : Nat),
    ClassMember.linesOf depth (ClassMember.erasedAll members) = ClassMember.linesOf depth members
  | [], _ => rfl
  | m :: rest, depth => by
      rw [ClassMember.erasedAll, ClassMember.linesOf, ClassMember.linesOf, m.lines_erased,
        ClassMember.linesOf_erasedAll rest]

end

end Lines

section Again

theorem Statement.isTypeOnly_erased (s : Statement) : s.erased.isTypeOnly = s.isTypeOnly := by
  cases s <;> rfl

theorem Statement.erasedAll_beyondTypes (body : List Statement) :
    erasedAll (beyondTypes body) = beyondTypes (erasedAll body) := by
  induction body with
  | nil => rfl
  | cons s rest ih =>
      rw [beyondTypes] at ih ⊢
      rw [erasedAll, beyondTypes]
      cases typeOnly : s.isTypeOnly with
      | true =>
          rw [List.filter_cons_of_neg (by simp [typeOnly]),
            List.filter_cons_of_neg (by simp [isTypeOnly_erased, typeOnly]), ih]
          rfl
      | false =>
          rw [List.filter_cons_of_pos (by simp [typeOnly]),
            List.filter_cons_of_pos (by simp [isTypeOnly_erased, typeOnly]), erasedAll, ih]
          rfl

theorem Statement.erasedAll_keptOf (body : List Statement) :
    erasedAll (keptOf body) = keptOf (erasedAll body) := by
  rw [keptOf, keptOf, ← erasedAll_beyondTypes, isEmpty_erasedAll]
  split <;> rfl

@[simp] theorem Statement.beyondTypes_beyondTypes (body : List Statement) :
    beyondTypes (beyondTypes body) = beyondTypes body := by
  simp [beyondTypes]

@[simp] theorem Statement.keptOf_keptOf (body : List Statement) : keptOf (keptOf body) = keptOf body := by
  by_cases nothing : (beyondTypes body).isEmpty = true
  · rw [show keptOf body = body from if_pos nothing]
    exact if_pos nothing
  · rw [show keptOf body = beyondTypes body from if_neg nothing, keptOf, beyondTypes_beyondTypes,
      if_neg nothing]

/-- Nothing is left to be taken out of a body. -/
theorem Statement.keptOf_erasedAll_again {body : List Statement}
    (again : erasedAll (erasedAll body) = erasedAll body) :
    keptOf (erasedAll (keptOf (erasedAll body))) = keptOf (erasedAll body) := by
  rw [erasedAll_keptOf, again, keptOf_keptOf]

theorem map_erased_erased (params : List Param) :
    (params.map Param.erased).map Param.erased = params.map Param.erased := by
  rw [List.map_map]
  rfl

mutual

theorem Statement.erased_erased : ∀ s : Statement, s.erased.erased = s.erased
  | .classDecl head members => by
      rw [Statement.erased, Statement.erased, ClassMember.erasedAll_erasedAll members]
      rfl
  | .functionDecl head body => by
      rw [Statement.erased, Statement.erased,
        Statement.keptOf_erasedAll_again (Statement.erasedAll_erasedAll body), FunctionHead.erased,
        FunctionHead.erased, map_erased_erased]
  | .importDecl _ => rfl
  | .interfaceDecl _ => rfl
  | .aliasDecl _ => rfl
  | .variableDecl _ => rfl
  | .expression _ => rfl
  | .returned _ => rfl

theorem Statement.erasedAll_erasedAll : ∀ statements : List Statement,
    Statement.erasedAll (Statement.erasedAll statements) = Statement.erasedAll statements
  | [] => rfl
  | s :: rest => by
      rw [Statement.erasedAll, Statement.erasedAll, s.erased_erased,
        Statement.erasedAll_erasedAll rest]

theorem ClassMember.erased_erased : ∀ m : ClassMember, m.erased.erased = m.erased
  | .constructorDecl params body => by
      rw [ClassMember.erased, ClassMember.erased, map_erased_erased,
        Statement.keptOf_erasedAll_again (Statement.erasedAll_erasedAll body)]
  | .method head body => by
      rw [ClassMember.erased, ClassMember.erased,
        Statement.keptOf_erasedAll_again (Statement.erasedAll_erasedAll body), MethodHead.erased,
        MethodHead.erased, map_erased_erased]
  | .property _ => rfl
  | .getter head body => by
      rw [ClassMember.erased, ClassMember.erased,
        Statement.keptOf_erasedAll_again (Statement.erasedAll_erasedAll body), AccessorHead.erased,
        AccessorHead.erased, map_erased_erased]
  | .setter head body => by
      rw [ClassMember.erased, ClassMember.erased,
        Statement.keptOf_erasedAll_again (Statement.erasedAll_erasedAll body), AccessorHead.erased,
        AccessorHead.erased, map_erased_erased]

theorem ClassMember.erasedAll_erasedAll : ∀ members : List ClassMember,
    ClassMember.erasedAll (ClassMember.erasedAll members) = ClassMember.erasedAll members
  | [] => rfl
  | m :: rest => by
      rw [ClassMember.erasedAll, ClassMember.erasedAll, m.erased_erased,
        ClassMember.erasedAll_erasedAll rest]

end

/-- A unit without its types has none to lose. -/
theorem SourceUnit.erased_erased (unit : SourceUnit) : unit.erased.erased = unit.erased := by
  simp only [SourceUnit.erased, Statement.erasedAll_beyondTypes, Statement.erasedAll_erasedAll,
    Statement.beyondTypes_beyondTypes]

end Again

/-- Types are not printed: a unit is printed as it is without its types, and so are all units that are
the same without them. -/
theorem SourceUnit.printsNoTypes (unit : SourceUnit) :
    unit.erased.text = unit.text ∧
      ∀ other : SourceUnit, other.erased = unit.erased → other.text = unit.text := by
  have printed (u : SourceUnit) : u.erased.text = u.text := by
    rw [SourceUnit.text, SourceUnit.erased, Statement.linesOf_beyondTypes,
      Statement.linesOf_erasedAll, SourceUnit.text]
  refine ⟨printed unit, ?_⟩
  intro other same
  calc other.text = other.erased.text := (printed other).symm
    _ = unit.erased.text := by rw [same]
    _ = unit.text := printed unit

/-- A unit with types wherever they can stand, also in a body that has nothing else. -/
def SourceUnit.annotated : SourceUnit where
  path := ⟨"/ws/src/user.ts"⟩
  statements :=
    [.importDecl ⟨"./types", [⟨"Shape", "Shape"⟩], true⟩, .interfaceDecl ⟨"Shape", true, some 3⟩,
      .classDecl ⟨"User", true, [⟨"Injectable", []⟩], some "Base"⟩
        [.property ⟨"count", true, [⟨"Field", []⟩], some ⟨"number", some 1⟩, some (.ident "zero")⟩,
          .method ⟨"find", false, [], [⟨"id", [⟨"Arg", []⟩], some ⟨"string", none⟩⟩],
            some ⟨"Shape", some 3⟩⟩
            [.aliasDecl ⟨"Id", false, some 2⟩, .returned (some (.ident "id"))],
          .setter ⟨"name", [⟨"Field", []⟩], [⟨"value", [], some ⟨"string", some 2⟩⟩]⟩
            [.interfaceDecl ⟨"Inner", false, some 4⟩]]]

/-- The same unit as a script. -/
def SourceUnit.unannotated : SourceUnit where
  path := ⟨"/ws/src/user.ts"⟩
  statements :=
    [.classDecl ⟨"User", true, [], some "Base"⟩
      [.property ⟨"count", true, [], none, some (.ident "zero")⟩,
        .method ⟨"find", false, [], [⟨"id", [], none⟩], none⟩ [.returned (some (.ident "id"))],
        .setter ⟨"name", [], [⟨"value", [], none⟩]⟩ [.interfaceDecl ⟨"Inner", false, none⟩]]]

theorem SourceUnit.printsNoTypes_annotated :
    annotated.erased = unannotated.erased ∧ annotated.text = unannotated.text :=
  ⟨rfl, (printsNoTypes unannotated).2 annotated rfl⟩

end WorkspaceBuild
