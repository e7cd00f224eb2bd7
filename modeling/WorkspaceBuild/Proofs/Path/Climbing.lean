import WorkspaceBuild.Proofs.Disk.Lookups

/-! # Paths that climb

A relative path can lead above the folder that it starts from. Folding keeps a `..` that has nothing
to take away, but lets the next one take it away again. So a folded path leads where the path did
just when that is never more than one folder above its start.
-/

namespace WorkspaceBuild

namespace Path

variable {p b : Path} {cs : List Component} {c : Component} {names above : List String} {count : Nat}

/-- Whether a component is the name of an item. -/
def Component.isName : Component → Bool
  | .name _ => true
  | _ => false

/-- Going along components never leads more than some number of folders above the start. -/
def ClimbsAtMost (count : Nat) (cs : List Component) : Prop :=
  ∀ way, way <+: cs → way.count .parent ≤ way.countP Component.isName + count

/-- Where components lead: some folders up, and from there down along names, latest first. -/
structure Course where
  up : Nat
  names : List String
  deriving DecidableEq

/-- Go on along one component. -/
def Course.goOn (course : Course) : Component → Course
  | .name text => { course with names := text :: course.names }
  | .parent =>
      match course.names with
      | [] => { course with up := course.up + 1 }
      | _ :: before => { course with names := before }
  | _ => course

/-- Where components lead from their start. -/
def courseOf (cs : List Component) : Course := cs.foldl Course.goOn ⟨0, []⟩

theorem courseOf_concat (cs : List Component) (c : Component) :
    courseOf (cs ++ [c]) = (courseOf cs).goOn c := by
  rw [courseOf, List.foldl_append, courseOf, List.foldl_cons, List.foldl_nil]

/-! ## How far up -/

/-- A name is added or taken away, or the way leads up. -/
theorem Course.balance (course : Course) (c : Component) :
    [c].count .parent + (course.goOn c).names.length + course.up =
      [c].countP Component.isName + (course.goOn c).up + course.names.length := by
  cases c with
  | root | current => exact Nat.add_right_comm 0 _ _
  | name text =>
      change 0 + (course.names.length + 1) + course.up = 1 + course.up + course.names.length
      omega
  | parent =>
      change 1 + (course.goOn .parent).names.length + course.up =
        0 + (course.goOn .parent).up + course.names.length
      cases left : course.names with
      | nil =>
          simp only [goOn, left, List.length_nil]
          omega
      | cons last before =>
          simp only [goOn, left, List.length_cons]
          omega

/-- Of the names on the way those are left that no `..` took away, and the other `..` lead up. -/
theorem count_parent_courseOf (cs : List Component) :
    cs.count .parent + (courseOf cs).names.length =
      cs.countP Component.isName + (courseOf cs).up := by
  induction cs using List.reverseRecOn with
  | nil => rfl
  | append_singleton cs c ih =>
      have here := (courseOf cs).balance c
      rw [courseOf_concat, List.count_append, List.countP_append]
      omega

theorem climbsAtMost_concat : ClimbsAtMost count (cs ++ [c]) ↔ ClimbsAtMost count cs ∧
    (cs ++ [c]).count .parent ≤ (cs ++ [c]).countP Component.isName + count := by
  simp only [ClimbsAtMost, List.prefix_concat_iff, or_imp, forall_and, forall_eq]
  exact and_comm

theorem climbsAtMost_iff : ClimbsAtMost count cs ↔ (courseOf cs).up ≤ count := by
  induction cs using List.reverseRecOn with
  | nil => simp [ClimbsAtMost, courseOf]
  | append_singleton cs c ih =>
      have balance := count_parent_courseOf (cs ++ [c])
      have before := count_parent_courseOf cs
      rw [climbsAtMost_concat, ih]
      rw [courseOf_concat] at balance ⊢
      cases c with
      | root | current | name =>
          simp only [Course.goOn] at balance ⊢
          omega
      | parent =>
          cases left : (courseOf cs).names with
          | nil =>
              simp only [Course.goOn, left, List.length_nil] at balance ⊢
              omega
          | cons last rest =>
              simp only [Course.goOn, left, List.length_cons] at balance before ⊢
              omega

instance (count : Nat) (cs : List Component) : Decidable (ClimbsAtMost count cs) :=
  decidable_of_iff _ climbsAtMost_iff.symm

theorem up_courseOf_le (cs : List Component) : (courseOf cs).up ≤ cs.count .parent :=
  climbsAtMost_iff.mp fun _ start => (start.sublist.count_le _).trans (Nat.le_add_left _ _)

/-! ## What folding makes of it -/

theorem courseOf_names (cs : List Component) (names : List String) :
    courseOf (cs ++ names.map Component.name) =
      { courseOf cs with names := names.reverse ++ (courseOf cs).names } := by
  induction names using List.reverseRecOn with
  | nil => simp
  | append_singleton names name ih =>
      rw [List.map_append, List.map_singleton, ← List.append_assoc, courseOf_concat, ih]
      simp [Course.goOn]

/-- Of several `..` that have nothing to take away, folding keeps one or none. -/
def keptParents (up : Nat) : List Component := if up % 2 = 1 then [.parent] else []

theorem foldl_eq_courseOf (relative : .root ∉ cs) : cs.foldl fold [] =
    (courseOf cs).names.map Component.name ++ keptParents (courseOf cs).up := by
  induction cs using List.reverseRecOn with
  | nil => rfl
  | append_singleton cs c ih =>
      rw [List.mem_append, not_or, List.mem_singleton] at relative
      rw [List.foldl_append, ih relative.1, List.foldl_cons, List.foldl_nil, courseOf_concat]
      cases c with
      | root => exact absurd rfl relative.2
      | current | name => rfl
      | parent =>
          cases left : (courseOf cs).names with
          | cons last before => simp [Course.goOn, left, fold]
          | nil =>
              rcases Nat.mod_two_eq_zero_or_one (courseOf cs).up with even | odd
              · have next : ((courseOf cs).up + 1) % 2 = 1 := by omega
                simp [Course.goOn, left, fold, keptParents, even, next]
              · have next : ((courseOf cs).up + 1) % 2 = 0 := by omega
                simp [Course.goOn, left, fold, keptParents, odd, next]

/-- From a folder that is deep enough every `..` takes a name away. -/
theorem foldl_of_deep (relative : .root ∉ cs) (deep : (courseOf cs).up ≤ above.length) :
    cs.foldl fold (above.map Component.name ++ [.root]) = (courseOf cs).names.map Component.name ++
      ((above.drop (courseOf cs).up).map Component.name ++ [.root]) := by
  induction cs using List.reverseRecOn with
  | nil => rfl
  | append_singleton cs c ih =>
      rw [List.mem_append, not_or, List.mem_singleton] at relative
      rw [courseOf_concat] at deep ⊢
      rw [List.foldl_append, List.foldl_cons, List.foldl_nil]
      cases c with
      | root => exact absurd rfl relative.2
      | current | name =>
          rw [ih relative.1 deep]
          rfl
      | parent =>
          cases left : (courseOf cs).names with
          | cons last before =>
              simp only [Course.goOn, left] at deep ⊢
              rw [ih relative.1 deep, left]
              rfl
          | nil =>
              simp only [Course.goOn, left] at deep ⊢
              rw [ih relative.1 (by omega), left, List.drop_eq_getElem_cons deep]
              rfl

/-! ## Folding before or after -/

theorem normalize_eq_iff : p.normalize = b.normalize ↔ p.folded = b.folded := by
  refine ⟨fun same => ?_, fun same => congrArg ofComponents same⟩
  rw [← components_normalize, same, components_normalize]

/-- A relative path goes on from the end of its base. -/
theorem folded_join (relative : p.isAbsolute = false) (b : Path) :
    (b.join p.text).folded = (p.components.foldl fold (b.components.foldl fold [])).reverse := by
  have alone : (Path.mk "").join p.text = p := by
    simp [join, relative]
  have onwards := foldl_join relative ⟨""⟩ (b.components.foldl fold [])
  rw [alone, components_empty, List.foldl_nil] at onwards
  rw [folded, foldl_join relative, onwards]

theorem root_not_mem (relative : p.isAbsolute = false) : .root ∉ p.components := by
  rw [root_mem_components_iff, relative]
  exact Bool.false_ne_true

theorem components_normalize_of_relative (relative : p.isAbsolute = false) :
    p.normalize.components = keptParents (courseOf p.components).up ++
      (courseOf p.components).names.reverse.map Component.name := by
  have kept (up : Nat) : (keptParents up).reverse = keptParents up := by
    unfold keptParents
    split <;> rfl
  rw [components_normalize, folded, foldl_eq_courseOf (root_not_mem relative),
    List.reverse_append, kept, List.map_reverse]

theorem courseOf_normalize (relative : p.isAbsolute = false) : courseOf p.normalize.components =
    { courseOf p.components with up := (courseOf p.components).up % 2 } := by
  have kept (up : Nat) : courseOf (keptParents up) = ⟨up % 2, []⟩ := by
    unfold keptParents
    split
    · rename_i odd
      rw [odd]
      rfl
    · rename_i even
      rw [Nat.mod_two_ne_one.mp even]
      rfl
  rw [components_normalize_of_relative relative, courseOf_names, kept]
  simp

theorem isAbsolute_normalize (relative : p.isAbsolute = false) : p.normalize.isAbsolute = false := by
  rw [Bool.eq_false_iff, ne_eq, ← root_mem_components_iff, components_normalize_of_relative relative]
  unfold keptParents
  split <;> simp

/-- Below a folder, a path leads where it is folded to just when it never climbs more than one folder
above its start. -/
theorem normalize_join_normalize_iff (relative : p.isAbsolute = false)
    (rooted : b.components = .root :: names.map Component.name)
    (deep : p.components.count .parent ≤ names.length) :
    (b.join p.normalize.text).normalize = (b.join p.text).normalize ↔
      ClimbsAtMost 1 p.components := by
  have start : b.components.foldl fold [] = names.reverse.map Component.name ++ [.root] := by
    rw [rooted, List.foldl_cons, foldl_names, List.map_reverse]
    rfl
  have onwards := isAbsolute_normalize relative
  have highest : (courseOf p.components).up ≤ names.reverse.length := by
    rw [List.length_reverse]
    exact (up_courseOf_le p.components).trans deep
  have course := courseOf_normalize relative
  have lower : (courseOf p.normalize.components).up ≤ names.reverse.length := by
    rw [course]
    exact (Nat.mod_le _ _).trans highest
  have whole := foldl_of_deep (root_not_mem relative) highest
  have short := foldl_of_deep (root_not_mem onwards) lower
  rw [normalize_eq_iff, folded_join onwards, folded_join relative, start, whole, short, course,
    List.reverse_inj, List.append_cancel_left_eq, List.append_cancel_right_eq, climbsAtMost_iff]
  constructor
  · intro same
    have lengths := congrArg List.length same
    simp only [List.length_map, List.length_drop] at lengths
    omega
  · intro once
    rw [Nat.mod_eq_of_lt (by omega)]

/-- One folder up is kept, two folders up are lost. -/
theorem normalize_join_normalize_twice :
    ((Path.mk "/a/b/c").join (normalize ⟨"./x/../../y"⟩).text).normalize =
        ((Path.mk "/a/b/c").join "./x/../../y").normalize ∧
      ClimbsAtMost 1 (components ⟨"./x/../../y"⟩) ∧
      ((Path.mk "/a/b/c").join (normalize ⟨"../../y"⟩).text).normalize ≠
        ((Path.mk "/a/b/c").join "../../y").normalize ∧
      ¬ ClimbsAtMost 1 (components ⟨"../../y"⟩) := by
  have rooted : components ⟨"/a/b/c"⟩ = .root :: ["a", "b", "c"].map Component.name := by decide
  have once : ClimbsAtMost 1 (components ⟨"./x/../../y"⟩) := by decide
  have twice : ¬ ClimbsAtMost 1 (components ⟨"../../y"⟩) := by decide
  exact ⟨(normalize_join_normalize_iff (by decide) rooted (by decide)).mpr once, once,
    mt (normalize_join_normalize_iff (by decide) rooted (by decide)).mp twice, twice⟩

end Path

end WorkspaceBuild
