import WorkspaceBuild.Proofs.Types.Courses
import WorkspaceBuild.Proofs.Types.BackReferences
import Mathlib.Data.List.Perm.Subperm
import Mathlib.Data.List.Flatten

/-! # Numbers, pointers and levels of resolved types

The numbers of shapes and classes come from one counter, which the merging of shapes counts on as well.
Merging drops nodes, and so does a second field of one name, but neither repeats one. A pointer has the
number and the name that its type is remembered by. A description is as deep as the resolution went
down, but for an array whose element is not known: there the unknown element lies one level deeper.
-/

namespace WorkspaceBuild

namespace ResolvedType

mutual

/-- All that a description is made of, itself included. -/
def parts : ResolvedType → List ResolvedType
  | .literal name value arguments => .literal name value arguments :: partsOfAll arguments
  | .managed name moduleId arguments refId =>
      .managed name moduleId arguments refId :: partsOfAll arguments
  | .shape name fields mapped refId => .shape name fields mapped refId :: partsOfFields fields
  | .composition operator subTypes nullable optional commonType =>
      .composition operator subTypes nullable optional commonType :: partsOfAll subTypes
  | .tuple elementTypes array => .tuple elementTypes array :: partsOfAll elementTypes
  | .template patterns => [.template patterns]
  | .foreign name file => [.foreign name file]
  | .pointer refId name => [.pointer refId name]
  | .unknown => [.unknown]

def partsOfAll : List ResolvedType → List ResolvedType
  | [] => []
  | t :: rest => parts t ++ partsOfAll rest

/-- All that the types of fields are made of. -/
def partsOfFields : List (String × ResolvedType) → List ResolvedType
  | [] => []
  | (_, t) :: rest => parts t ++ partsOfFields rest

end

/-- The number of a shape or class, with its name. -/
def nodeLabel? : ResolvedType → Option (Nat × Option String)
  | .managed name _ _ refId => some (refId, some name)
  | .shape name _ _ refId => some (refId, name)
  | _ => none

/-- The number that a pointer names, with its name. -/
def pointerLabel? : ResolvedType → Option (Nat × Option String)
  | .pointer refId name => some (refId, name)
  | _ => none

/-- The labels of the shapes and classes of a description. -/
def nodes (t : ResolvedType) : List (Nat × Option String) := t.parts.filterMap nodeLabel?

/-- The labels that the pointers of a description name. -/
def references (t : ResolvedType) : List (Nat × Option String) := t.parts.filterMap pointerLabel?

mutual

/-- The levels of a description, when one of which nothing is known counts for so many. -/
def levels (unknown : Nat) : ResolvedType → Nat
  | .literal _ _ arguments => levelsOfAll unknown arguments + 1
  | .managed _ _ arguments _ => levelsOfAll unknown arguments + 1
  | .shape _ fields _ _ => levelsOfFields unknown fields + 1
  | .composition _ subTypes _ _ _ => levelsOfAll unknown subTypes + 1
  | .tuple elementTypes _ => levelsOfAll unknown elementTypes + 1
  | .template _ => 1
  | .foreign _ _ => 1
  | .pointer _ _ => 1
  | .unknown => unknown

def levelsOfAll (unknown : Nat) : List ResolvedType → Nat
  | [] => 0
  | t :: rest => max (levels unknown t) (levelsOfAll unknown rest)

/-- The levels of the deepest field. -/
def levelsOfFields (unknown : Nat) : List (String × ResolvedType) → Nat
  | [] => 0
  | (_, t) :: rest => max (levels unknown t) (levelsOfFields unknown rest)

end

theorem levelsOfAll_le_iff {unknown most : Nat} {types : List ResolvedType} :
    levelsOfAll unknown types ≤ most ↔ ∀ t ∈ types, t.levels unknown ≤ most := by
  induction types with
  | nil => simp [levelsOfAll]
  | cons t rest ih => simp [levelsOfAll, ih]

theorem levelsOfFields_le_iff {unknown most : Nat} {fields : List (String × ResolvedType)} :
    levelsOfFields unknown fields ≤ most ↔ ∀ field ∈ fields, field.2.levels unknown ≤ most := by
  induction fields with
  | nil => simp [levelsOfFields]
  | cons field rest ih => simp [levelsOfFields, ih]

theorem partsOfFields_append (first second : List (String × ResolvedType)) :
    partsOfFields (first ++ second) = partsOfFields first ++ partsOfFields second := by
  induction first with
  | nil => rfl
  | cons field rest ih => simp only [List.cons_append, partsOfFields, ih, List.append_assoc]

/-- A field that is put among others comes to them, and may take the place of one. -/
theorem subperm_partsOfFields_put (fields : Assoc String ResolvedType) (name : String)
    (t : ResolvedType) :
    (partsOfFields (fields.put name t)).Subperm (t.parts ++ partsOfFields fields) := by
  induction fields with
  | nil => exact .refl _
  | cons field rest ih =>
      rw [Assoc.put]
      cases compare name field.1 with
      | lt => exact .refl _
      | eq => exact ((List.sublist_append_right _ _).append_left _).subperm
      | gt =>
          have later := (List.subperm_append_left field.2.parts).mpr ih
          exact later.trans (List.perm_append_comm_assoc _ _ _).subperm

/-- Of two fields with one name only the later one stays. -/
theorem subperm_partsOfFields_ofPairs (fields : List (String × ResolvedType)) :
    (partsOfFields (Assoc.ofPairs fields)).Subperm (partsOfFields fields) := by
  have all : ∀ table : Assoc String ResolvedType,
      (partsOfFields (fields.foldl (fun (table : Assoc String ResolvedType) (name, t) =>
        table.put name t) table)).Subperm (partsOfFields table ++ partsOfFields fields) := by
    induction fields with
    | nil =>
        intro table
        simp only [List.foldl_nil, partsOfFields, List.append_nil]
        exact .refl _
    | cons field rest ih =>
        intro table
        have here := subperm_partsOfFields_put table field.1 field.2
        have later := ih (table.put field.1 field.2)
        apply later.trans
        apply ((List.subperm_append_right (partsOfFields rest)).mpr here).trans
        rw [partsOfFields, List.append_assoc]
        exact (List.perm_append_comm_assoc _ _ _).subperm
  exact all []

end ResolvedType

namespace TypeResolver

open ResolvedType

/-- The label is one that a type is remembered by. -/
def Visited.Knows (visited : Visited) (label : Nat × Option String) : Prop :=
  ∃ id, (id, label) ∈ visited.seen

/-- What a description is made of, as far as the numbers of its shapes and classes are concerned, and
how these come about between two states: they are counted on the way, and each is that of a type with
its name, unless several shapes were merged under it. -/
structure Accounts (parts : List ResolvedType) (before after : Visited) : Prop where
  grows : ∃ new, after.seen = new ++ before.seen ∧
    ∀ entry ∈ new, before.nextRef ≤ entry.2.1 ∧ entry.2.1 < after.nextRef
  counts : before.nextRef ≤ after.nextRef
  once : ((parts.filterMap nodeLabel?).map Prod.fst).Nodup
  counted : ∀ label ∈ parts.filterMap nodeLabel?,
    before.nextRef ≤ label.1 ∧ label.1 < after.nextRef
  named : ∀ label ∈ parts.filterMap nodeLabel?,
    after.Knows label ∨ ∀ entry ∈ after.seen, entry.2.1 ≠ label.1
  pointers : ∀ label ∈ parts.filterMap pointerLabel?, after.Knows label

namespace Accounts

variable {first second parts : List ResolvedType} {before middle after : Visited}

theorem knows (accounts : Accounts parts before after) {label : Nat × Option String}
    (known : before.Knows label) : after.Knows label := by
  obtain ⟨new, split, _⟩ := accounts.grows
  obtain ⟨id, listed⟩ := known
  exact ⟨id, split ▸ List.mem_append_right new listed⟩

theorem isCounted (accounts : Accounts parts before after) (counted : before.IsCounted) :
    after.IsCounted := by
  obtain ⟨new, split, later⟩ := accounts.grows
  intro entry listed
  rw [split] at listed
  obtain isNew | isOld := List.mem_append.mp listed
  · exact (later entry isNew).2
  · exact Nat.lt_of_lt_of_le (counted entry isOld) accounts.counts

theorem idle (before : Visited) : Accounts [] before before where
  grows := ⟨[], rfl, List.forall_mem_nil _⟩
  counts := Nat.le_refl _
  once := List.nodup_nil
  counted := List.forall_mem_nil _
  named := List.forall_mem_nil _
  pointers := List.forall_mem_nil _

theorem trans (left : Accounts first before middle) (right : Accounts second middle after) :
    Accounts (first ++ second) before after where
  grows := by
    obtain ⟨new, split, early⟩ := left.grows
    obtain ⟨newer, splitToo, late⟩ := right.grows
    refine ⟨newer ++ new, by rw [splitToo, split, List.append_assoc], ?_⟩
    intro entry listed
    obtain isLate | isEarly := List.mem_append.mp listed
    · exact ⟨Nat.le_trans left.counts (late entry isLate).1, (late entry isLate).2⟩
    · exact ⟨(early entry isEarly).1, Nat.lt_of_lt_of_le (early entry isEarly).2 right.counts⟩
  counts := Nat.le_trans left.counts right.counts
  once := by
    rw [List.filterMap_append, List.map_append]
    refine List.nodup_append.mpr ⟨left.once, right.once, ?_⟩
    intro n isLeft m isRight
    obtain ⟨label, listed, rfl⟩ := List.mem_map.mp isLeft
    obtain ⟨other, listedToo, rfl⟩ := List.mem_map.mp isRight
    have early := (left.counted label listed).2
    exact Nat.ne_of_lt (Nat.lt_of_lt_of_le early (right.counted other listedToo).1)
  counted := by
    intro label listed
    rw [List.filterMap_append] at listed
    obtain isLeft | isRight := List.mem_append.mp listed
    · have bounds := left.counted label isLeft
      exact ⟨bounds.1, Nat.lt_of_lt_of_le bounds.2 right.counts⟩
    · have bounds := right.counted label isRight
      exact ⟨Nat.le_trans left.counts bounds.1, bounds.2⟩
  named := by
    intro label listed
    rw [List.filterMap_append] at listed
    obtain isLeft | isRight := List.mem_append.mp listed
    · obtain known | unknown := left.named label isLeft
      · exact .inl (right.knows known)
      · right
        obtain ⟨new, split, late⟩ := right.grows
        intro entry remembered
        rw [split] at remembered
        obtain isNew | isOld := List.mem_append.mp remembered
        · have early := (left.counted label isLeft).2
          exact Nat.ne_of_gt (Nat.lt_of_lt_of_le early (late entry isNew).1)
        · exact unknown entry isOld
    · exact right.named label isRight
  pointers := by
    intro label listed
    rw [List.filterMap_append] at listed
    obtain isLeft | isRight := List.mem_append.mp listed
    · exact right.knows (left.pointers label isLeft)
    · exact right.pointers label isRight

/-- Parts may be left out. -/
theorem mono (accounts : Accounts first before after) (fewer : second.Subperm first) :
    Accounts second before after := by
  obtain ⟨kept, same, sub⟩ := fewer
  have nodes : (kept.filterMap nodeLabel?).Perm (second.filterMap nodeLabel?) := same.filterMap _
  have inNodes : ∀ label ∈ second.filterMap nodeLabel?, label ∈ first.filterMap nodeLabel? :=
    fun label listed => (sub.filterMap _).subset (nodes.mem_iff.mpr listed)
  refine ⟨accounts.grows, accounts.counts, ?_, ?_, ?_, ?_⟩
  · have once := ((sub.filterMap nodeLabel?).map Prod.fst).nodup accounts.once
    exact (nodes.map Prod.fst).nodup_iff.mp once
  · exact fun label listed => accounts.counted label (inNodes label listed)
  · exact fun label listed => accounts.named label (inNodes label listed)
  · intro label listed
    have isKept := (same.filterMap pointerLabel?).mem_iff.mpr listed
    exact accounts.pointers label ((sub.filterMap _).subset isKept)

/-- What is neither a shape or class nor a pointer adds nothing. -/
theorem cons (accounts : Accounts parts before after) {t : ResolvedType}
    (isNone : t.nodeLabel? = none) (isNeither : t.pointerLabel? = none) :
    Accounts (t :: parts) before after where
  grows := accounts.grows
  counts := accounts.counts
  once := by simpa only [List.filterMap_cons_none isNone] using accounts.once
  counted := by simpa only [List.filterMap_cons_none isNone] using accounts.counted
  named := by simpa only [List.filterMap_cons_none isNone] using accounts.named
  pointers := by simpa only [List.filterMap_cons_none isNeither] using accounts.pointers

/-- A pointer names a type that is remembered. -/
theorem pointer {id : TypeId} {label : Nat × Option String} (listed : (id, label) ∈ before.seen) :
    Accounts (ResolvedType.pointer label.1 label.2).parts before before := by
  refine ⟨(idle before).grows, Nat.le_refl _, List.nodup_nil, List.forall_mem_nil _,
    List.forall_mem_nil _, ?_⟩
  intro other isNamed
  obtain rfl : other = label := List.mem_singleton.mp isNamed
  exact ⟨id, listed⟩

/-- A node under a number that none of its parts has, handed out before them or after. -/
theorem node {start last : Visited} (accounts : Accounts parts start after) {t : ResolvedType}
    {label : Nat × Option String} (isNode : t.nodeLabel? = some label)
    (isNeither : t.pointerLabel? = none) (early : before.nextRef ≤ start.nextRef)
    (late : after.nextRef ≤ last.nextRef) (same : last.seen = after.seen)
    (grows : ∃ new, last.seen = new ++ before.seen ∧
      ∀ entry ∈ new, before.nextRef ≤ entry.2.1 ∧ entry.2.1 < last.nextRef)
    (counted : before.nextRef ≤ label.1 ∧ label.1 < last.nextRef)
    (apart : label.1 < start.nextRef ∨ after.nextRef ≤ label.1)
    (named : last.Knows label ∨ ∀ entry ∈ last.seen, entry.2.1 ≠ label.1) :
    Accounts (t :: parts) before last where
  grows := grows
  counts := Nat.le_trans (Nat.le_trans early accounts.counts) late
  once := by
    rw [List.filterMap_cons_some isNode, List.map_cons]
    refine List.nodup_cons.mpr ⟨?_, accounts.once⟩
    intro again
    obtain ⟨other, listed, equal⟩ := List.mem_map.mp again
    have bounds := accounts.counted other listed
    omega
  counted := by
    intro other listed
    rw [List.filterMap_cons_some isNode] at listed
    obtain rfl | inside := List.mem_cons.mp listed
    · exact counted
    · have bounds := accounts.counted other inside
      omega
  named := by
    intro other listed
    rw [List.filterMap_cons_some isNode] at listed
    obtain rfl | inside := List.mem_cons.mp listed
    · exact named
    · simpa only [Visited.Knows, same] using accounts.named other inside
  pointers := by
    rw [List.filterMap_cons_none isNeither]
    simpa only [Visited.Knows, same] using accounts.pointers

/-- A node under a number that is handed out before its parts, to a type with the name of the node. -/
theorem remember {id : TypeId} {name : Option String} {t : ResolvedType}
    (accounts : Accounts parts (before.remember id name).2 after)
    (isNode : t.nodeLabel? = some (before.nextRef, name)) (isNeither : t.pointerLabel? = none) :
    Accounts (t :: parts) before after := by
  have handedOut : before.nextRef < after.nextRef := accounts.counts
  have known : after.Knows (before.nextRef, name) := accounts.knows ⟨id, List.mem_cons_self⟩
  apply accounts.node isNode isNeither (Nat.le_succ _) (Nat.le_refl _) rfl _
    ⟨Nat.le_refl _, handedOut⟩ (.inl (Nat.lt_succ_self _)) (.inl known)
  obtain ⟨new, split, later⟩ := accounts.grows
  refine ⟨new ++ [(id, before.nextRef, name)], ?_, ?_⟩
  · rw [split, List.append_assoc]
    rfl
  · intro entry listed
    obtain isNew | isFirst := List.mem_append.mp listed
    · exact ⟨Nat.le_of_succ_le (later entry isNew).1, (later entry isNew).2⟩
    · rw [List.mem_singleton.mp isFirst]
      exact ⟨Nat.le_refl _, handedOut⟩

/-- A node under a number that is handed out after its parts, and not to a type. -/
theorem fresh (counted : before.IsCounted) (accounts : Accounts parts before after) {t : ResolvedType}
    {name : Option String} (isNode : t.nodeLabel? = some (after.nextRef, name))
    (isNeither : t.pointerLabel? = none) : Accounts (t :: parts) before after.fresh.2 := by
  have unknown : ∀ entry ∈ after.seen, entry.2.1 ≠ after.nextRef :=
    fun entry remembered => Nat.ne_of_lt (accounts.isCounted counted entry remembered)
  have late : after.nextRef < after.fresh.2.nextRef := Nat.lt_succ_self _
  apply accounts.node isNode isNeither (Nat.le_refl _) (Nat.le_of_lt late) rfl _
    ⟨accounts.counts, late⟩ (.inr (Nat.le_refl _)) (.inr unknown)
  obtain ⟨new, split, later⟩ := accounts.grows
  refine ⟨new, split, ?_⟩
  intro entry listed
  exact ⟨(later entry listed).1, Nat.lt_succ_of_lt (later entry listed).2⟩

end Accounts

/-- A resolution whose answers account for their numbers. -/
def AccountsAll (run : Resolution ResolvedType) : Prop :=
  ∀ before t after, before.IsCounted → run before = .ok (t, after) → Accounts t.parts before after

/-- A resolution whose answers have at most so many levels. -/
def Nests (unknown most : Nat) (run : Resolution ResolvedType) : Prop :=
  ∀ before t after, run before = .ok (t, after) → t.levels unknown ≤ most

section Parts

variable {scope : Scope} {visit : TypeId → Resolution ResolvedType} {before after : Visited}

theorem accounts_resolveAll (each : ∀ id, AccountsAll (visit id)) {ids : List TypeId}
    {types : List ResolvedType} (counted : before.IsCounted)
    (resolved : resolveAll visit ids before = .ok (types, after)) :
    Accounts (partsOfAll types) before after := by
  induction ids generalizing before types with
  | nil =>
      cases resolved
      exact .idle _
  | cons id rest ih =>
      obtain ⟨first, middle, others, visited, later, rfl⟩ := resolveAll_cons_eq_ok.mp resolved
      have here := each id before first middle counted visited
      exact here.trans (ih (here.isCounted counted) later)

/-- Fields are put among those before them, and may take their places. -/
theorem accounts_resolveFields (each : ∀ id, AccountsAll (visit id)) {properties : List PropertyData}
    {fields result : Assoc String ResolvedType} (counted : before.IsCounted)
    (resolved : resolveFields visit properties fields before = .ok (result, after)) :
    ∃ added, Accounts added before after ∧
      (partsOfFields result).Subperm (partsOfFields fields ++ added) := by
  induction properties generalizing fields before with
  | nil =>
      cases resolved
      exact ⟨[], .idle _, by rw [List.append_nil]⟩
  | cons property rest ih =>
      obtain ⟨t, middle, visited, later⟩ := resolveFields_cons_eq_ok.mp resolved
      have here := each property.type before t middle counted visited
      obtain ⟨added, accounts, fewer⟩ := ih (here.isCounted counted) later
      refine ⟨t.parts ++ added, here.trans accounts, ?_⟩
      apply fewer.trans
      have put := subperm_partsOfFields_put fields property.name t
      apply ((List.subperm_append_right added).mpr put).trans
      rw [List.append_assoc]
      exact (List.perm_append_comm_assoc _ _ _).subperm

/-- The fields of shapes are parts of the shapes. -/
theorem subperm_shapeFields {members : List ResolvedType}
    {shapes : List (List (String × ResolvedType) × Bool)}
    (listed : members.mapM shapeFields? = some shapes) :
    (partsOfFields (shapes.flatMap Prod.fst)).Sublist (partsOfAll members) := by
  induction members generalizing shapes with
  | nil =>
      cases listed
      exact .refl _
  | cons member rest ih =>
      simp only [List.mapM_cons, Option.bind_eq_bind, Option.bind_eq_some_iff] at listed
      obtain ⟨shape, isShape, shapes, others, same⟩ := listed
      cases same
      cases member with
      | shape name fields mapped refId =>
          cases isShape
          rw [List.flatMap_cons, partsOfFields_append, partsOfAll, parts]
          exact (List.sublist_cons_self _ _).append (ih others)
      | _ => cases isShape

theorem accounts_compose {operator : Operator} {members : List ResolvedType}
    {nullable optional : Bool} {t : ResolvedType} {last : Visited} (counted : before.IsCounted)
    (accounts : Accounts (partsOfAll members) before after)
    (resolved : compose operator members nullable optional after = .ok (t, last)) :
    Accounts t.parts before last := by
  have none : Accounts [] before after := accounts.mono List.nil_subperm
  unfold compose at resolved
  split at resolved
  · cases resolved
    exact none.cons rfl rfl
  split at resolved
  · cases resolved
    exact none.cons rfl rfl
  split at resolved
  · cases resolved
    simpa only [partsOfAll, List.append_nil] using accounts
  split at resolved
  · rename_i shapes listed
    cases resolved
    have fields := subperm_partsOfFields_ofPairs (shapes.flatMap Prod.fst)
    exact (accounts.mono (fields.trans (subperm_shapeFields listed).subperm)).fresh counted rfl rfl
  · cases resolved
    exact accounts.cons rfl rfl

/-- What comes of a plan accounts for its numbers. -/
theorem Plan.Yields.accounts {p : Plan} {t : ResolvedType} (yields : p.Yields scope visit before t after)
    (each : ∀ id, AccountsAll (visit id)) (counted : before.IsCounted) :
    Accounts t.parts before after := by
  cases yields with
  | answer =>
      rename_i isLeaf
      cases isLeaf <;> exact (Accounts.idle _).cons rfl rfl
  | bareArray => exact ((Accounts.idle _).cons rfl rfl).cons rfl rfl
  | follow visited => exact each _ before t after counted visited
  | library all => exact (accounts_resolveAll each counted all).cons rfl rfl
  | tuple all => exact (accounts_resolveAll each counted all).cons rfl rfl
  | pointer own listed => exact .pointer listed
  | managed all => exact (accounts_resolveAll each (counted.remember _ _) all).remember rfl rfl
  | shape all =>
      obtain ⟨added, accounts, fewer⟩ := accounts_resolveFields each (counted.remember _ _) all
      exact (accounts.mono fewer).remember rfl rfl
  | compose all composed =>
      obtain ⟨kept, resolved⟩ := exists_resolveAll all
      exact accounts_compose counted (accounts_resolveAll each counted resolved) composed

theorem nests_resolveAll {unknown most : Nat} (each : ∀ id, Nests unknown most (visit id))
    {ids : List TypeId} {types : List ResolvedType}
    (resolved : resolveAll visit ids before = .ok (types, after)) :
    levelsOfAll unknown types ≤ most := by
  induction ids generalizing before types with
  | nil =>
      cases resolved
      exact Nat.zero_le _
  | cons id rest ih =>
      obtain ⟨first, middle, others, visited, later, rfl⟩ := resolveAll_cons_eq_ok.mp resolved
      exact Nat.max_le.mpr ⟨each id before first middle visited, ih later⟩

theorem nests_resolveFields {unknown most : Nat} (each : ∀ id, Nests unknown most (visit id))
    {properties : List PropertyData} {fields result : Assoc String ResolvedType}
    (shallow : levelsOfFields unknown fields ≤ most)
    (resolved : resolveFields visit properties fields before = .ok (result, after)) :
    levelsOfFields unknown result ≤ most := by
  induction properties generalizing fields before with
  | nil =>
      cases resolved
      exact shallow
  | cons property rest ih =>
      obtain ⟨t, middle, visited, later⟩ := resolveFields_cons_eq_ok.mp resolved
      refine ih (levelsOfFields_le_iff.mpr ?_) later
      intro field listed
      obtain rfl | earlier := Assoc.mem_of_mem_put listed
      · exact each property.type before t middle visited
      · exact levelsOfFields_le_iff.mp shallow field earlier

/-- The fields of shapes have fewer levels than the shapes. -/
theorem levels_shapeFields {unknown most : Nat} {members : List ResolvedType}
    {shapes : List (List (String × ResolvedType) × Bool)}
    (listed : members.mapM shapeFields? = some shapes) (all : levelsOfAll unknown members ≤ most) :
    ∀ field ∈ shapes.flatMap Prod.fst, field.2.levels unknown ≤ most := by
  induction members generalizing shapes with
  | nil =>
      cases listed
      exact List.forall_mem_nil _
  | cons member rest ih =>
      obtain ⟨here, later⟩ := Nat.max_le.mp all
      simp only [List.mapM_cons, Option.bind_eq_bind, Option.bind_eq_some_iff] at listed
      obtain ⟨shape, isShape, shapes, others, same⟩ := listed
      cases same
      rw [List.flatMap_cons, List.forall_mem_append]
      refine ⟨?_, ih others later⟩
      cases member with
      | shape name fields mapped refId =>
          cases isShape
          exact levelsOfFields_le_iff.mp (Nat.le_of_succ_le here)
      | _ => cases isShape

theorem nests_compose {unknown most : Nat} (atMost : unknown ≤ 1) {operator : Operator}
    {members : List ResolvedType} {nullable optional : Bool} {t : ResolvedType}
    (all : levelsOfAll unknown members ≤ most)
    (resolved : compose operator members nullable optional before = .ok (t, after)) :
    t.levels unknown ≤ most + 1 := by
  unfold compose at resolved
  split at resolved
  · cases resolved
    exact Nat.le_trans atMost (Nat.le_add_left 1 most)
  split at resolved
  · cases resolved
    exact Nat.le_add_left 1 most
  split at resolved
  · cases resolved
    exact Nat.le_succ_of_le (levelsOfAll_le_iff.mp all _ List.mem_cons_self)
  split at resolved
  · rename_i shapes listed
    cases resolved
    apply Nat.succ_le_succ
    apply levelsOfFields_le_iff.mpr
    intro field among
    exact levels_shapeFields listed all field (Assoc.mem_of_mem_ofPairs among)
  · cases resolved
    exact Nat.succ_le_succ all

/-- What comes of a plan has one level more than what it is made of. -/
theorem Plan.Yields.levels_le {p : Plan} {t : ResolvedType} {unknown most : Nat}
    (yields : p.Yields scope visit before t after) (each : ∀ id, Nests unknown most (visit id))
    (atMost : unknown ≤ 1) (bare : p = .bareArray → unknown ≤ most) : t.levels unknown ≤ most + 1 := by
  cases yields with
  | answer =>
      rename_i isLeaf
      cases isLeaf with
      | template | literal | foreign => exact Nat.le_add_left 1 most
      | unknown => exact Nat.le_trans atMost (Nat.le_add_left 1 most)
  | bareArray =>
      apply Nat.succ_le_succ
      exact levelsOfAll_le_iff.mpr (List.forall_mem_singleton.mpr (bare rfl))
  | follow visited => exact Nat.le_succ_of_le (each _ before t after visited)
  | library all => exact Nat.succ_le_succ (nests_resolveAll each all)
  | tuple all => exact Nat.succ_le_succ (nests_resolveAll each all)
  | pointer => exact Nat.le_add_left 1 most
  | managed all => exact Nat.succ_le_succ (nests_resolveAll each all)
  | shape all =>
      have none : levelsOfFields unknown [] ≤ most := Nat.zero_le _
      exact Nat.succ_le_succ (nests_resolveFields each none all)
  | compose all composed =>
      obtain ⟨kept, resolved⟩ := exists_resolveAll all
      exact nests_compose atMost (nests_resolveAll each resolved) composed

end Parts

section Whole

variable {scope : Scope}

theorem accounts_visit (scope : Scope) (levels : Nat) (id : TypeId) :
    AccountsAll (visit scope levels id) := by
  induction levels generalizing id with
  | zero =>
      intro before t after _ resolved
      cases resolved
  | succ levels ih =>
      intro before t after counted resolved
      exact (yields_of_visit resolved).accounts ih counted

/-- A description has as many levels as the resolution may go down, and more only for the elements that
arrays have not. -/
theorem nests_visit {unknown more : Nat} (atMost : unknown ≤ 1)
    (bare : ∀ id, plan scope id = .bareArray → unknown ≤ more) (levels : Nat) (id : TypeId) :
    Nests unknown (levels + more) (visit scope levels id) := by
  induction levels generalizing id with
  | zero =>
      intro before t after resolved
      cases resolved
  | succ levels ih =>
      intro before t after resolved
      have within : plan scope id = .bareArray → unknown ≤ levels + more :=
        fun isBare => Nat.le_add_left_of_le (bare id isBare)
      have deep := (yields_of_visit resolved).levels_le ih atMost within
      omega

variable {id : TypeId}

/-- Only an array without an element type is described as one. -/
theorem exists_isBareArray (isBare : plan scope id = .bareArray) :
    ∃ data ∈ scope.types, data.IsBareArray := by
  obtain ⟨e, fails⟩ | ⟨data, listed, isOf⟩ := exists_isOf_plan scope id
  · rw [isBare] at fails
    cases fails
  · rw [isBare] at isOf
    exact ⟨data, listed, isOf⟩

/-- What is so of the description of a type. -/
structure IsExpansion (scope : Scope) (id : TypeId) (t : ResolvedType) : Prop where
  /-- The course is that of the resolution. -/
  followed : Tracks (track scope (maxDepth + 1) id) (visit scope (maxDepth + 1) id)
  /-- No two shapes or classes have one number. -/
  numbers : (t.nodes.map Prod.fst).Nodup
  /-- On the way each type is remembered once, under a number of its own. -/
  remembered : (courseOf scope id).visited.IsSound
  /-- Each type becomes a shape or class once at most. -/
  once : (courseOf scope id).expanded.Nodup
  /-- A shape or class has the number and the name that its type is remembered by. Merged shapes have a
  number that no type is remembered by. -/
  nodes : ∀ node ∈ t.nodes, (courseOf scope id).visited.Knows node ∨
    ∀ entry ∈ (courseOf scope id).visited.seen, entry.2.1 ≠ node.1
  /-- A pointer has the number and the name that its type is remembered by, -/
  pointers : ∀ label ∈ t.references, (courseOf scope id).visited.Knows label
  /-- and these are those of the shape or class with this number. -/
  agree : ∀ label ∈ t.references, ∀ node ∈ t.nodes, node.1 = label.1 → node = label
  /-- Apart from types of which nothing is known, the limit is that of the resolution, -/
  levels : t.levels 0 ≤ maxDepth + 1
  /-- and these lie one level deeper at most, -/
  allLevels : t.levels 1 ≤ maxDepth + 2
  /-- which takes an array without an element type. -/
  arrays : (∀ data ∈ scope.types, ¬ data.IsBareArray) → t.levels 1 ≤ maxDepth + 1

theorem visited_courseOf {t : ResolvedType} {last : Visited}
    (done : visit scope (maxDepth + 1) id {} = .ok (t, last)) :
    (courseOf scope id).visited = last := by
  have followed := tracks_track scope (maxDepth + 1) id {}
  rw [done] at followed
  cases outcome : (track scope (maxDepth + 1) id {}).1 with
  | error e =>
      rw [outcome] at followed
      cases followed
  | ok u =>
      rw [outcome] at followed
      cases followed
      rfl

/-- Every shape and class of a description has a number of its own, each type is expanded once at most,
pointers name what they stand for, and the nesting is limited. -/
theorem isExpansion_of_resolve {t : ResolvedType} (resolved : resolve scope id = .ok t) :
    IsExpansion scope id t := by
  obtain ⟨remembered, once⟩ := courseOf_once scope id
  have followed := tracks_track scope (maxDepth + 1) id
  cases done : visit scope (maxDepth + 1) id {} with
  | ok result =>
      obtain ⟨u, last⟩ := result
      rw [resolve, done] at resolved
      cases resolved
      have nested {unknown more : Nat} (atMost : unknown ≤ 1)
          (bare : ∀ id, plan scope id = .bareArray → unknown ≤ more) :=
        nests_visit atMost bare (maxDepth + 1) id {} t last done
      have counted : Visited.IsCounted {} := List.forall_mem_nil _
      have accounts := accounts_visit scope (maxDepth + 1) id {} t last counted done
      rw [← visited_courseOf done] at accounts
      refine ⟨followed, accounts.once, remembered, once, accounts.named, accounts.pointers,
        ?_, ?_, ?_, ?_⟩
      · intro label listed node isNode same
        obtain ⟨x, entry⟩ := accounts.pointers label listed
        obtain ⟨y, other⟩ | unknown := accounts.named node isNode
        · have one := List.inj_on_of_nodup_map remembered.numbers other entry same
          exact congrArg Prod.snd one
        · exact absurd same.symm (unknown (x, label) entry)
      · exact nested (Nat.zero_le 1) fun _ _ => Nat.le_refl 0
      · exact nested (Nat.le_refl 1) fun _ _ => Nat.le_refl 1
      · intro given
        have none : ∀ other, plan scope other = .bareArray → 1 ≤ 0 := by
          intro other isBare
          obtain ⟨data, listed, isBareArray⟩ := exists_isBareArray isBare
          exact absurd isBareArray (given data listed)
        exact nested (Nat.le_refl 1) none
  | error e =>
      have plain : t = .object := by
        rw [resolve, done] at resolved
        cases e <;> cases resolved <;> rfl
      subst plain
      have atMost : (1 : Nat) ≤ maxDepth + 1 := by decide
      exact ⟨followed, List.nodup_nil, remembered, once, List.forall_mem_nil _, List.forall_mem_nil _,
        List.forall_mem_nil _, atMost, Nat.le_succ_of_le atMost, fun _ => atMost⟩

end Whole

/-- A pair of tree nodes that refer to themselves: the first is described, the second is a pointer. -/
theorem isExpansion_of_resolve_sample : ∃ t, resolve sampleScope 4 = .ok t ∧
    t.nodes = [(0, some "TreeNode"), (1, none)] ∧
      t.references = [(0, some "TreeNode"), (0, some "TreeNode")] ∧
        (courseOf sampleScope 4).expanded = [0, 3] ∧ IsExpansion sampleScope 4 t := by
  have resolved : resolve sampleScope 4 = .ok (.tuple
      [.shape (some "TreeNode")
        [("next", .pointer 0 (some "TreeNode")),
          ("tag", .composition .and
            [.literal "string" none [], .shape none [("brand", .literal "string" none [])] false 1]
            false false none)] false 0,
        .pointer 0 (some "TreeNode")] false) := rfl
  exact ⟨_, resolved, rfl, rfl, rfl, isExpansion_of_resolve resolved⟩

/-- Arrays of arrays, as many as types may be nested, the last of which has no element type. -/
def nestedArrays : Scope where
  types := (List.range maxDepth).map (fun n => .array (n + 1)) ++
    [{ TypeData.array 0 with typeArguments := [] }]
  references := .none

/-- So many arrays in each other, around an element that is not known. -/
def arraysOf : Nat → ResolvedType
  | 0 => .unknown
  | n + 1 => .tuple [arraysOf n] true

/-- The element that the innermost array has not lies below the levels that types may be nested. -/
theorem not_levels_nestedArrays :
    ∃ t, resolve nestedArrays 0 = .ok t ∧ ¬ t.levels 1 ≤ maxDepth + 1 := by
  have resolved : resolve nestedArrays 0 = .ok (arraysOf (maxDepth + 1)) := rfl
  exact ⟨_, resolved, by decide⟩

end TypeResolver

end WorkspaceBuild
