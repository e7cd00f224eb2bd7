import WorkspaceBuild.Proofs.Path

/-! # Components of paths

What joining, taking the folder and folding do to the components of a path. A folded path is a lead,
the root or a `..` that had nothing to take away, and names after it. Going on below a folder along
components that never leave it ends at names that do not depend on the folder.
-/

namespace WorkspaceBuild

namespace Text

theorem pieces_append_slash (left right : String) :
    pieces '/' (left ++ "/" ++ right) = pieces '/' left ++ pieces '/' right := by
  have slash : "/".toList = ['/'] := rfl
  rw [pieces, pieces, pieces, ← List.map_append, String.toList_append, String.toList_append, slash,
    List.append_assoc, List.singleton_append, List.splitOn_append_cons_self]

theorem joined_append_singleton {parts : List String} (some : parts ≠ []) (separator last : String) :
    joined separator (parts ++ [last]) = joined separator parts ++ separator ++ last := by
  induction parts with
  | nil => exact absurd rfl some
  | cons part rest ih =>
      cases rest with
      | nil => simp [joined, List.intercalate_cons_cons, String.append_assoc]
      | cons next others =>
          have later := congrArg String.toList (ih (by simp))
          simp only [joined, String.toList_ofList, String.toList_append, List.cons_append,
            List.map_cons, List.intercalate_cons_cons] at later ⊢
          rw [← String.toList_inj]
          simp only [String.toList_ofList, String.toList_append, later, List.append_assoc]

theorem pieces_eq_singleton {separator : Char} {text : String} (plain : separator ∉ text.toList) :
    pieces separator text = [text] := by
  rw [pieces, List.splitOn_eq_singleton plain, List.map_singleton, String.ofList_toList]

end Text

namespace Path

variable {p : Path} {first last name further : String} {rest before parts names : List String}

/-- The components that the pieces of a text stand for where they go on in a path. -/
def steps (text : String) : List Component := (Text.pieces '/' text).filterMap componentOf

/-- A name that stands for itself in a path. -/
structure IsPlain (name : String) : Prop where
  notVoid : isVoid name = false
  notParent : name ≠ ".."
  noSlash : '/' ∉ name.toList

theorem IsPlain.componentOf (plain : IsPlain name) : componentOf name = some (.name name) := by
  simp [Path.componentOf, plain.notVoid, plain.notParent]

theorem filterMap_plain (plain : ∀ name ∈ names, IsPlain name) :
    names.filterMap componentOf = names.map Component.name := by
  induction names with
  | nil => rfl
  | cons name rest ih =>
      obtain ⟨here, later⟩ := List.forall_mem_cons.mp plain
      rw [List.filterMap_cons_some here.componentOf, ih later, List.map_cons]

theorem filterMap_void (void : ∀ piece ∈ parts, isVoid piece = true) :
    parts.filterMap componentOf = [] := by
  rw [List.filterMap_eq_nil_iff]
  intro piece listed
  simp [componentOf, void piece listed]

/-- The component that the first piece of a path stands for. -/
def leadOf (absolute : Bool) (first : String) : List Component :=
  if absolute then [.root] else if first = "." then [.current] else (componentOf first).toList

theorem components_eq (p : Path) (split : Text.pieces '/' p.text = first :: rest) :
    p.components = leadOf p.isAbsolute first ++ rest.filterMap componentOf := by
  unfold components marked leadOf
  simp only [split]
  split
  · rfl
  · split
    · rfl
    · cases component : componentOf first <;> simp [component]

theorem components_empty : components ⟨""⟩ = [] := rfl

theorem isAbsolute_append_of_ne (some : p.text ≠ "") (more : String) :
    isAbsolute ⟨p.text ++ more⟩ = p.isAbsolute := by
  have nonempty : p.text.toList ≠ [] := fun same => some (String.toList_inj.mp same)
  simp only [isAbsolute, String.toList_append]
  cases chars : p.text.toList with
  | nil => exact absurd chars nonempty
  | cons c rest =>
      rw [List.cons_append]
      split <;> simp_all

/-- The pieces of a joined path: an empty piece at the end of the base is gone. -/
theorem pieces_join (relative : isAbsolute ⟨further⟩ = false) (some : p.text ≠ "") :
    ∃ before voids, Text.pieces '/' p.text = before ++ voids ∧ before ≠ [] ∧
      (∀ piece ∈ voids, isVoid piece = true) ∧
      Text.pieces '/' (p.join further).text = before ++ Text.pieces '/' further := by
  rw [join, relative]
  by_cases slash : Text.endsWith p.text "/" = true
  · obtain ⟨stem, dropped⟩ := Option.isSome_iff_exists.mp slash
    have text := Text.eq_of_dropEnd? dropped
    refine ⟨Text.pieces '/' stem, [""], ?_, Text.pieces_ne_nil _ _, by simp [isVoid], ?_⟩
    · have split := Text.pieces_append_slash stem ""
      rwa [String.append_empty, ← text] at split
    · simp only [slash, Bool.or_true, if_true, Bool.false_eq_true, if_false]
      rw [text, Text.pieces_append_slash]
  · refine ⟨Text.pieces '/' p.text, [], by simp, Text.pieces_ne_nil _ _, by simp, ?_⟩
    simp only [slash, Bool.false_eq_true, if_false, some, decide_false, Bool.or_false]
    rw [Text.pieces_append_slash]

theorem isAbsolute_join (relative : isAbsolute ⟨further⟩ = false) (some : p.text ≠ "") :
    (p.join further).isAbsolute = p.isAbsolute := by
  rw [join, relative]
  split
  · rename_i wrong
    cases wrong
  · split
    · exact isAbsolute_append_of_ne some further
    · have same := isAbsolute_append_of_ne some ("/" ++ further)
      rwa [← String.append_assoc] at same

theorem components_join (relative : isAbsolute ⟨further⟩ = false) (some : p.text ≠ "") :
    (p.join further).components = p.components ++ steps further := by
  obtain ⟨before, voids, base, nonempty, void, joined⟩ := pieces_join relative some
  cases before with
  | nil => exact absurd rfl nonempty
  | cons first rest =>
      rw [List.cons_append] at base joined
      rw [components_eq _ base, components_eq _ joined, isAbsolute_join relative some]
      simp [List.filterMap_append, filterMap_void void, steps]

theorem steps_eq (split : Text.pieces '/' further = first :: rest) :
    steps further = (componentOf first).toList ++ rest.filterMap componentOf := by
  rw [steps, split]
  cases component : componentOf first <;> simp [component]

/-- Folding goes on along a joined path where it was at the end of the base. -/
theorem foldl_join (relative : isAbsolute ⟨further⟩ = false) (p : Path) (done : List Component) :
    (p.join further).components.foldl fold done =
      (steps further).foldl fold (p.components.foldl fold done) := by
  by_cases empty : p.text = ""
  · have joined : p.join further = ⟨further⟩ := by
      simp [join, relative, empty]
    have base : p.components = [] := by
      rw [show p = ⟨""⟩ from by rw [← empty], components_empty]
    cases split : Text.pieces '/' further with
    | nil => exact absurd split (Text.pieces_ne_nil _ _)
    | cons first rest =>
        rw [joined, base, components_eq _ split, steps_eq split, relative, leadOf,
          if_neg Bool.false_ne_true]
        split
        · rename_i dot
          subst dot
          rfl
        · rfl
  · rw [components_join relative empty, List.foldl_append]

/-- The text of names one below the other. -/
def spell (names : List String) : String := Text.joined "/" names

theorem spell_singleton (name : String) : spell [name] = name := by
  simp [spell, Text.joined]

theorem pieces_spell (some : names ≠ []) (plain : ∀ name ∈ names, IsPlain name) :
    Text.pieces '/' (spell names) = names :=
  Text.pieces_joined some fun name listed => (plain name listed).noSlash

theorem steps_spell (plain : ∀ name ∈ names, IsPlain name) :
    steps (spell names) = names.map Component.name := by
  cases names with
  | nil => rfl
  | cons name rest => rw [steps, pieces_spell (by simp) plain, filterMap_plain plain]

/-- A path is absolute when its first piece is empty and others follow. -/
theorem isAbsolute_iff (p : Path) (split : Text.pieces '/' p.text = first :: rest) :
    p.isAbsolute = true ↔ first = "" ∧ rest ≠ [] := by
  rw [isAbsolute]
  rw [Text.pieces] at split
  cases chars : p.text.toList with
  | nil =>
      rw [chars] at split
      cases split
      simp
  | cons c later =>
      rw [chars, List.splitOn_cons_eq_if_modifyHead] at split
      by_cases slash : c = '/'
      · subst slash
        rw [if_pos (beq_self_eq_true _), List.map_cons] at split
        obtain ⟨rfl, rfl⟩ := List.cons.inj split
        simp [List.splitOn_ne_nil]
      · rw [if_neg (by simpa using slash)] at split
        cases inner : later.splitOn '/' with
        | nil => exact absurd inner (List.splitOn_ne_nil _ _)
        | cons piece others =>
            rw [inner] at split
            obtain ⟨rfl, _⟩ := List.cons.inj split
            simp [slash, ← String.toList_inj]

theorem IsPlain.ne_empty (plain : IsPlain name) : name ≠ "" := by
  rintro rfl
  cases plain.notVoid

theorem IsPlain.ne_dot (plain : IsPlain name) : name ≠ "." := by
  rintro rfl
  cases plain.notVoid

theorem isAbsolute_spell (plain : ∀ name ∈ names, IsPlain name) :
    isAbsolute ⟨spell names⟩ = false := by
  cases names with
  | nil => rfl
  | cons name rest =>
      have here := plain name List.mem_cons_self
      have split : Text.pieces '/' (spell (name :: rest)) = name :: rest :=
        pieces_spell (by simp) plain
      rw [Bool.eq_false_iff, ne_eq, isAbsolute_iff ⟨spell (name :: rest)⟩ split]
      exact fun empty => here.ne_empty empty.1

theorem leadOf_plain (plain : IsPlain first) : leadOf false first = [.name first] := by
  rw [leadOf, if_neg Bool.false_ne_true, if_neg plain.ne_dot, plain.componentOf, Option.toList_some]

theorem components_spell (plain : ∀ name ∈ names, IsPlain name) :
    components ⟨spell names⟩ = names.map Component.name := by
  cases names with
  | nil => rfl
  | cons name rest =>
      obtain ⟨here, later⟩ := List.forall_mem_cons.mp plain
      have split : Text.pieces '/' (spell (name :: rest)) = name :: rest :=
        pieces_spell (by simp) plain
      rw [components_eq ⟨spell (name :: rest)⟩ split, isAbsolute_spell plain, leadOf_plain here, filterMap_plain later]
      rfl

theorem components_join_spell (p : Path) (plain : ∀ name ∈ names, IsPlain name) :
    (p.join (spell names)).components = p.components ++ names.map Component.name := by
  have relative := isAbsolute_spell plain
  by_cases empty : p.text = ""
  · have joined : p.join (spell names) = ⟨spell names⟩ := by
      simp [join, relative, empty]
    have base : p.components = [] := by
      rw [show p = ⟨""⟩ from by rw [← empty], components_empty]
    rw [joined, base, components_spell plain, List.nil_append]
  · rw [components_join relative empty, steps_spell plain]

/-! ## Folders -/

theorem filterMap_dropVoidEnd (parts : List String) :
    (dropVoidEnd parts).filterMap componentOf = parts.filterMap componentOf := by
  obtain ⟨voids, whole, void⟩ := dropVoidEnd_spec parts
  have shown := congrArg (List.filterMap componentOf) whole
  rw [List.filterMap_append, filterMap_void void, List.append_nil] at shown
  exact shown.symm

theorem components_ofMarked_root (noSlash : ∀ part ∈ parts, '/' ∉ part.toList) :
    (ofMarked [.root] parts).components = .root :: parts.filterMap componentOf := by
  have split : Text.pieces '/' (ofMarked [.root] parts).text = _ := pieces_rooted noSlash
  have absolute : (ofMarked [.root] parts).isAbsolute = true := by
    rw [isAbsolute_iff _ split]
    split <;> simp_all
  rw [components_eq _ split, absolute]
  split
  · rename_i none
    subst none
    rfl
  · rfl

theorem components_ofMarked_current (noSlash : ∀ part ∈ parts, '/' ∉ part.toList) :
    (ofMarked [.current] parts).components = .current :: parts.filterMap componentOf := by
  have split : Text.pieces '/' (ofMarked [.current] parts).text = "." :: parts :=
    Text.pieces_joined (by simp) (List.forall_mem_cons.mpr ⟨by decide, noSlash⟩)
  have relative : (ofMarked [.current] parts).isAbsolute = false := by
    rw [Bool.eq_false_iff, ne_eq, isAbsolute_iff _ split]
    exact fun empty => absurd empty.1 (by decide)
  rw [components_eq _ split, relative]
  rfl

theorem components_ofMarked_nil (noSlash : ∀ part ∈ first :: parts, '/' ∉ part.toList)
    (notVoid : isVoid first = false) :
    (ofMarked [] (first :: parts)).components = (first :: parts).filterMap componentOf := by
  have split : Text.pieces '/' (ofMarked [] (first :: parts)).text = first :: parts :=
    Text.pieces_joined (by simp) noSlash
  have relative : (ofMarked [] (first :: parts)).isAbsolute = false := by
    rw [Bool.eq_false_iff, ne_eq, isAbsolute_iff _ split]
    rintro ⟨rfl, _⟩
    cases notVoid
  have notDot : first ≠ "." := by
    rintro rfl
    cases notVoid
  rw [components_eq _ split, relative, leadOf, if_neg Bool.false_ne_true, if_neg notDot]
  cases component : componentOf first <;> simp [component]

theorem dropVoidEnd_cons (notVoid : isVoid first = false) (parts : List String) :
    dropVoidEnd (first :: parts) = first :: dropVoidEnd parts := by
  rw [dropVoidEnd, dropVoidEnd, List.reverse_cons, List.dropWhile_append]
  split
  · rename_i none
    rw [List.isEmpty_iff] at none
    simp [none, notVoid]
  · simp

theorem parent?_of_marked {lead : List Component} (marked : p.marked = (lead, parts ++ [last]))
    (plain : IsPlain last) : p.parent? = some (ofMarked lead (dropVoidEnd parts)) := by
  have lastPiece : (parts ++ [last]).reverse.dropWhile isVoid = last :: parts.reverse := by
    simp [plain.notVoid]
  simp only [parent?, marked, lastPiece, List.reverse_reverse]

/-- The folder of a path that ends in a name has its components but the last one. -/
theorem exists_parent?_of_pieces (split : Text.pieces '/' p.text = before ++ [last])
    (plain : IsPlain last) : ∃ folder, p.parent? = some folder ∧
      p.components = folder.components ++ [.name last] := by
  have noSlash : ∀ part ∈ before, '/' ∉ part.toList := fun part listed =>
    Text.not_mem_of_mem_pieces (split ▸ List.mem_append_left _ listed)
  have kept {parts : List String} (noSlash : ∀ part ∈ parts, '/' ∉ part.toList) :
      ∀ part ∈ dropVoidEnd parts, '/' ∉ part.toList := by
    obtain ⟨voids, whole, _⟩ := dropVoidEnd_spec parts
    exact fun part listed => noSlash part (whole ▸ List.mem_append_left _ listed)
  cases before with
  | nil =>
      rw [List.nil_append] at split
      have relative : p.isAbsolute = false := by
        rw [Bool.eq_false_iff, ne_eq, isAbsolute_iff p split]
        exact fun empty => plain.ne_empty empty.1
      have marked : p.marked = ([], [last]) := by
        simp [Path.marked, split, relative, plain.ne_dot]
      refine ⟨_, parent?_of_marked (marked.trans (by rw [List.nil_append])) plain, ?_⟩
      rw [components_eq p split, relative, leadOf_plain plain]
      rfl
  | cons first more =>
      rw [List.cons_append] at split
      obtain ⟨noSlashFirst, noSlashMore⟩ := List.forall_mem_cons.mp noSlash
      by_cases absolute : p.isAbsolute = true
      · have marked : p.marked = ([.root], more ++ [last]) := by
          simp [Path.marked, split, absolute]
        refine ⟨_, parent?_of_marked marked plain, ?_⟩
        rw [components_ofMarked_root (kept noSlashMore), filterMap_dropVoidEnd,
          components_eq p split, absolute]
        simp [leadOf, plain.componentOf]
      have relative : p.isAbsolute = false := by simpa using absolute
      by_cases dot : first = "."
      · have marked : p.marked = ([.current], more ++ [last]) := by
          simp [Path.marked, split, relative, dot]
        refine ⟨_, parent?_of_marked marked plain, ?_⟩
        rw [components_ofMarked_current (kept noSlashMore), filterMap_dropVoidEnd,
          components_eq p split, relative]
        simp [leadOf, dot, plain.componentOf]
      · have notVoid : isVoid first = false := by
          have notEmpty : first ≠ "" := by
            rintro rfl
            exact absolute ((isAbsolute_iff p split).mpr ⟨rfl, by simp⟩)
          simp [isVoid, dot, notEmpty]
        have marked : p.marked = ([], (first :: more) ++ [last]) := by
          simp [Path.marked, split, relative, dot]
        refine ⟨_, parent?_of_marked marked plain, ?_⟩
        have keptAll := kept noSlash
        rw [dropVoidEnd_cons notVoid] at keptAll ⊢
        rw [components_ofMarked_nil keptAll notVoid, ← dropVoidEnd_cons notVoid,
          filterMap_dropVoidEnd, components_eq p split, relative, leadOf,
          if_neg Bool.false_ne_true, if_neg dot]
        cases component : componentOf first <;> simp [component, plain.componentOf]

/-- The folder of a path written below another one. -/
theorem exists_parent?_join (p : Path) (plain : ∀ name ∈ names, IsPlain name)
    (plainLast : IsPlain last) : ∃ folder, (p.join (spell (names ++ [last]))).parent? = some folder ∧
      folder.components = p.components ++ names.map Component.name := by
  have plainAll : ∀ name ∈ names ++ [last], IsPlain name := by
    simpa [or_imp, forall_and] using ⟨plain, plainLast⟩
  have pieces := pieces_spell (by simp) plainAll
  have ends : ∃ before, Text.pieces '/' (p.join (spell (names ++ [last]))).text =
      before ++ [last] := by
    by_cases empty : p.text = ""
    · exact ⟨names, by simp [join, isAbsolute_spell plainAll, empty, pieces]⟩
    · obtain ⟨before, _, _, _, _, joined⟩ := pieces_join (isAbsolute_spell plainAll) empty
      exact ⟨before ++ names, by rw [joined, pieces, List.append_assoc]⟩
  obtain ⟨before, split⟩ := ends
  obtain ⟨folder, found, whole⟩ := exists_parent?_of_pieces split plainLast
  refine ⟨folder, found, ?_⟩
  rw [components_join_spell p plainAll, List.map_append, List.map_singleton,
    ← List.append_assoc] at whole
  exact (List.append_cancel_right whole).symm

/-! ## Folding -/

/-- What a folded path starts with: a `..` is kept only where it has nothing to take away. -/
def leads : List (List Component) := [[], [.root], [.parent], [.root, .parent]]

/-- Components of a folded path: a lead, and plain names after it. -/
def IsFolded (all : List Component) : Prop :=
  ∃ lead ∈ leads, ∃ names : List String,
    all = lead ++ names.map Component.name ∧ ∀ name ∈ names, IsPlain name

/-- The components of a path after folding. -/
def folded (p : Path) : List Component := (p.components.foldl fold []).reverse

theorem normalize_eq (p : Path) : p.normalize = ofComponents p.folded := rfl

variable {all done cs : List Component}

theorem plain_of_componentOf {piece : String} (noSlash : '/' ∉ piece.toList)
    (component : componentOf piece = some (.name name)) : IsPlain name := by
  unfold componentOf at component
  split at component
  · cases component
  · split at component
    · cases component
    · rename_i notVoid notParent
      cases component
      exact ⟨by simpa using notVoid, notParent, noSlash⟩

theorem plain_of_mem_filterMap (noSlash : ∀ part ∈ parts, '/' ∉ part.toList)
    (listed : .name name ∈ parts.filterMap componentOf) : IsPlain name := by
  obtain ⟨piece, isPiece, component⟩ := List.mem_filterMap.mp listed
  exact plain_of_componentOf (noSlash piece isPiece) component

theorem plain_of_mem_components (listed : .name name ∈ p.components) : IsPlain name := by
  cases split : Text.pieces '/' p.text with
  | nil => exact absurd split (Text.pieces_ne_nil _ _)
  | cons first rest =>
      have noSlash {piece : String} (isPiece : piece ∈ first :: rest) : '/' ∉ piece.toList :=
        Text.not_mem_of_mem_pieces (split ▸ isPiece)
      rw [components_eq p split, List.mem_append] at listed
      rcases listed with isLead | later
      · unfold leadOf at isLead
        split at isLead
        · simp at isLead
        · split at isLead
          · simp at isLead
          · exact plain_of_componentOf (noSlash List.mem_cons_self) (by simpa using isLead)
      · exact plain_of_mem_filterMap (fun part isPart => noSlash (List.mem_cons_of_mem _ isPart)) later

theorem isFolded_fold (folded : IsFolded done.reverse) {c : Component}
    (plain : ∀ name, c = .name name → IsPlain name) : IsFolded (fold done c).reverse := by
  obtain ⟨lead, isLead, names, whole, plainNames⟩ := folded
  have same : done = (names.map Component.name).reverse ++ lead.reverse := by
    rw [← List.reverse_append, ← whole, List.reverse_reverse]
  cases c with
  | root => exact ⟨[.root], by simp [leads], [], rfl, by simp⟩
  | current => exact ⟨lead, isLead, names, whole, plainNames⟩
  | name text =>
      refine ⟨lead, isLead, names ++ [text], by simp [fold, whole], ?_⟩
      simpa [or_imp, forall_and] using ⟨plainNames, plain text rfl⟩
  | parent =>
      rcases List.eq_nil_or_concat names with rfl | ⟨before, last, rfl⟩
      · subst same
        simp only [leads, List.mem_cons, List.not_mem_nil, or_false] at isLead
        rcases isLead with rfl | rfl | rfl | rfl
        · exact ⟨[.parent], by simp [leads], [], rfl, by simp⟩
        · exact ⟨[.root, .parent], by simp [leads], [], rfl, by simp⟩
        · exact ⟨[], by simp [leads], [], rfl, by simp⟩
        · exact ⟨[.root], by simp [leads], [], rfl, by simp⟩
      · subst same
        refine ⟨lead, isLead, before, by simp [fold], fun name listed => ?_⟩
        exact plainNames name (by simp [listed])

theorem isFolded_foldl (folded : IsFolded done.reverse)
    (plain : ∀ name, .name name ∈ cs → IsPlain name) : IsFolded (cs.foldl fold done).reverse := by
  induction cs generalizing done with
  | nil => exact folded
  | cons c rest ih =>
      refine ih (isFolded_fold folded fun name same => plain name (same ▸ List.mem_cons_self)) ?_
      exact fun name listed => plain name (List.mem_cons_of_mem _ listed)

theorem isFolded_folded (p : Path) : IsFolded p.folded :=
  isFolded_foldl ⟨[], by simp [leads], [], rfl, by simp⟩ fun _ => plain_of_mem_components

theorem foldl_names (names : List String) (done : List Component) :
    (names.map Component.name).foldl fold done = (names.map Component.name).reverse ++ done := by
  induction names generalizing done with
  | nil => rfl
  | cons name rest ih => simp [fold, ih]

/-- Folding changes nothing about what is folded. -/
theorem foldl_of_isFolded (folded : IsFolded all) : all.foldl fold [] = all.reverse := by
  obtain ⟨lead, isLead, names, rfl, _⟩ := folded
  rw [List.foldl_append, foldl_names, List.reverse_append]
  congr 1
  simp only [leads, List.mem_cons, List.not_mem_nil, or_false] at isLead
  rcases isLead with rfl | rfl | rfl | rfl <;> rfl

theorem components_ofComponents (folded : IsFolded all) : (ofComponents all).components = all := by
  obtain ⟨lead, isLead, names, rfl, plain⟩ := folded
  have texts : (names.map Component.name).map Component.text = names := by
    simp [Component.text, Function.comp_def]
  have noSlash : ∀ name ∈ names, '/' ∉ name.toList := fun name listed => (plain name listed).noSlash
  have noSlashParent : ∀ name ∈ ".." :: names, '/' ∉ name.toList :=
    List.forall_mem_cons.mpr ⟨by decide, noSlash⟩
  simp only [leads, List.mem_cons, List.not_mem_nil, or_false] at isLead
  rcases isLead with rfl | rfl | rfl | rfl
  · have text : ofComponents ([] ++ names.map Component.name) = ⟨spell names⟩ := by
      cases names with
      | nil => rfl
      | cons name rest => exact congrArg (fun parts => mk (Text.joined "/" parts)) texts
    rw [text, components_spell plain]
    rfl
  · have text : ofComponents ([.root] ++ names.map Component.name) = ofMarked [.root] names := by
      simp [ofComponents, ofMarked, texts]
    rw [text, components_ofMarked_root noSlash, filterMap_plain plain]
    rfl
  · have text : ofComponents ([.parent] ++ names.map Component.name) =
        ofMarked [] (".." :: names) := by
      simp [ofComponents, ofMarked, texts, Component.text]
    rw [text, components_ofMarked_nil noSlashParent (by decide)]
    simp [componentOf, isVoid, filterMap_plain plain]
  · have text : ofComponents ([.root, .parent] ++ names.map Component.name) =
        ofMarked [.root] (".." :: names) := by
      simp [ofComponents, ofMarked, texts, Component.text]
    rw [text, components_ofMarked_root noSlashParent]
    simp [componentOf, isVoid, filterMap_plain plain]

theorem components_normalize (p : Path) : p.normalize.components = p.folded :=
  components_ofComponents p.isFolded_folded

theorem isFolded_append (folded : IsFolded all) (plain : ∀ name ∈ names, IsPlain name) :
    IsFolded (all ++ names.map Component.name) := by
  obtain ⟨lead, isLead, others, rfl, plainOthers⟩ := folded
  refine ⟨lead, isLead, others ++ names, by simp, ?_⟩
  simpa [or_imp, forall_and] using ⟨plainOthers, plain⟩

theorem length_fold_le (done : List Component) (c : Component) :
    (fold done c).length ≤ done.length + 1 := by
  unfold fold
  split
  · omega
  · split
    · simp
    · simp
    · simp only [List.length_cons]
      omega
  · simp
  · simp

theorem length_foldl_fold_le (cs done : List Component) :
    (cs.foldl fold done).length ≤ done.length + cs.length := by
  induction cs generalizing done with
  | nil => simp
  | cons c rest ih =>
      have here := length_fold_le done c
      have later := ih (fold done c)
      simp only [List.foldl_cons, List.length_cons]
      omega

theorem map_name_injective {left right : List String}
    (same : left.map Component.name = right.map Component.name) : left = right :=
  (List.map_inj_right fun _ _ => Component.name.inj).mp same

/-- Names below a path that is written as a folded one are the names below the folded one. -/
theorem names_eq_of_folded {below names : List String}
    (same : p.components ++ below.map Component.name = p.folded ++ names.map Component.name) :
    below = names := by
  have shorter : p.folded.length ≤ p.components.length := by
    have := length_foldl_fold_le p.components []
    simpa [folded] using this
  rcases List.append_eq_append_iff.mp same with ⟨more, whole, rest⟩ | ⟨more, whole, rest⟩
  · have none : more = [] := by
      rw [whole, List.length_append] at shorter
      exact List.length_eq_zero_iff.mp (by omega)
    rw [none, List.nil_append] at rest
    exact map_name_injective rest
  · -- folding what is folded already only adds the names that follow it
    obtain ⟨front, back, rfl, rfl, later⟩ := List.map_eq_append_iff.mp rest
    have again : p.folded = p.folded ++ front.map Component.name := by
      have refolded := congrArg (List.foldl fold []) whole
      rw [List.foldl_append, foldl_of_isFolded p.isFolded_folded, foldl_names] at refolded
      have reversed := congrArg List.reverse refolded
      rwa [List.reverse_append, List.reverse_reverse, List.reverse_reverse] at reversed
    have none : front = [] := by simpa using again
    rw [none, List.nil_append]
    exact (map_name_injective later).symm

/-! ## Going on below a folder -/

/-- The names below a folder after going on along components, latest first, as long as that never
leaves the folder. -/
def descend? : List String → List Component → Option (List String)
  | names, [] => some names
  | names, .name text :: rest => descend? (text :: names) rest
  | names, .current :: rest => descend? names rest
  | _ :: names, .parent :: rest => descend? names rest
  | [], .parent :: _ => none
  | _, .root :: _ => none

theorem descend?_name (names : List String) (text : String) (rest : List Component) :
    descend? names (.name text :: rest) = descend? (text :: names) rest := by
  cases names <;> rfl

theorem descend?_current (names : List String) (rest : List Component) :
    descend? names (.current :: rest) = descend? names rest := by
  cases names <;> rfl

theorem descend?_append (names : List String) (cs more : List Component) :
    descend? names (cs ++ more) = (descend? names cs).bind fun names => descend? names more := by
  induction cs generalizing names with
  | nil => rfl
  | cons c rest ih =>
      cases c with
      | root => cases names <;> rfl
      | current => rw [List.cons_append, descend?_current, descend?_current, ih]
      | name text => rw [List.cons_append, descend?_name, descend?_name, ih]
      | parent =>
          cases names with
          | nil => rfl
          | cons name others => exact ih _

theorem plain_of_descend? {target : List String} (plain : ∀ name ∈ names, IsPlain name)
    (plainSteps : ∀ name, .name name ∈ cs → IsPlain name)
    (found : descend? names cs = some target) : ∀ name ∈ target, IsPlain name := by
  induction cs generalizing names with
  | nil =>
      cases found
      exact plain
  | cons c rest ih =>
      have later : ∀ name, .name name ∈ rest → IsPlain name := fun name listed =>
        plainSteps name (List.mem_cons_of_mem _ listed)
      cases c with
      | root => cases names <;> cases found
      | current =>
          rw [descend?_current] at found
          exact ih plain later found
      | name text =>
          rw [descend?_name] at found
          have here := plainSteps text List.mem_cons_self
          exact ih (List.forall_mem_cons.mpr ⟨here, plain⟩) later found
      | parent =>
          cases names with
          | nil => cases found
          | cons name others => exact ih (List.forall_mem_cons.mp plain).2 later found

theorem foldl_of_descend? {target : List String} (found : descend? names cs = some target)
    (base : List Component) :
    cs.foldl fold (names.map Component.name ++ base) = target.map Component.name ++ base := by
  induction cs generalizing names with
  | nil =>
      cases found
      rfl
  | cons c rest ih =>
      cases c with
      | root => cases names <;> cases found
      | current =>
          rw [descend?_current] at found
          exact ih found
      | name text =>
          rw [descend?_name] at found
          exact ih found
      | parent =>
          cases names with
          | nil => cases found
          | cons name others => exact ih found

/-- Going on below a folder of a path leads below the folded path. -/
theorem folded_join_of_descend? {folder : Path} {target : List String}
    (below : folder.components = p.components ++ names.map Component.name)
    (relative : isAbsolute ⟨further⟩ = false)
    (found : descend? names.reverse (steps further) = some target) :
    (folder.join further).folded = p.folded ++ target.reverse.map Component.name := by
  have base : folder.components.foldl fold [] =
      names.reverse.map Component.name ++ p.components.foldl fold [] := by
    rw [below, List.foldl_append, foldl_names, List.map_reverse]
  rw [folded, foldl_join relative, base, foldl_of_descend? found]
  simp [folded]

theorem folded_join_spell (p : Path) (plain : ∀ name ∈ names, IsPlain name) :
    (p.join (spell names)).folded = p.folded ++ names.map Component.name := by
  rw [folded, components_join_spell p plain, List.foldl_append, foldl_names]
  simp [folded]

end Path

end WorkspaceBuild
