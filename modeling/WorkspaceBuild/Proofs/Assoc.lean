import WorkspaceBuild.Assoc
import Mathlib.Data.List.Induction
import Mathlib.Data.List.Nodup

/-! # Laws of ascending lists

What the operations on ascending lists and tables mean: membership in a set, the value under a key
of a table. That a list is ascending is kept by every operation, and two ascending tables that
answer alike are the same table. Lists in the order of arrival keep what comes first.
-/

namespace WorkspaceBuild

/-- Each element stands once, before all greater ones. -/
def IsAscending {α : Type} [Ord α] (xs : List α) : Prop :=
  xs.Pairwise fun x y => compare x y = .lt

instance {α : Type} [Ord α] (xs : List α) : Decidable (IsAscending xs) :=
  inferInstanceAs (Decidable (List.Pairwise _ _))

section Orders

variable {α : Type} [Ord α] {index : α → Nat}

/-- Where elements are compared by an index, theirs is a linear order. -/
theorem transOrd_of_index (compared : ∀ a b : α, compare a b = compare (index a) (index b)) :
    Std.TransOrd α where
  eq_swap := by
    intro a b
    rw [compared, compared]
    exact Std.OrientedOrd.eq_swap
  isLE_trans := by
    intro a b c first second
    rw [compared] at first second ⊢
    exact Std.TransOrd.isLE_trans first second

theorem lawfulEqOrd_of_index (compared : ∀ a b : α, compare a b = compare (index a) (index b))
    (injective : ∀ a b, index a = index b → a = b) : Std.LawfulEqOrd α where
  eq_of_compare := by
    intro a b same
    rw [compared] at same
    exact injective a b (Std.LawfulEqOrd.eq_of_compare same)
  compare_self := by
    intro a
    rw [compared]
    exact Std.ReflOrd.compare_self

end Orders

section Distinct

variable {α : Type} [DecidableEq α]

/-- An element that comes once more stands where it was found first. -/
theorem eraseDups_concat (xs : List α) (x : α) : (xs ++ [x]).eraseDups =
    if x ∈ xs.eraseDups then xs.eraseDups else xs.eraseDups ++ [x] := by
  rw [List.eraseDups_append]
  by_cases known : x ∈ xs
  · simp [List.removeAll, known]
  · simp [List.removeAll, known, List.eraseDups_cons]

theorem nodup_eraseDups (xs : List α) : xs.eraseDups.Nodup := by
  induction xs using List.reverseRecOn with
  | nil => simp
  | append_singleton xs x ih =>
      rw [eraseDups_concat]
      split
      · exact ih
      · rename_i new
        refine List.nodup_append.mpr ⟨ih, List.nodup_singleton x, fun other listed last isLast => ?_⟩
        rw [List.mem_singleton.mp isLast]
        exact ne_of_mem_of_not_mem listed new

end Distinct

section Sets

variable {α : Type} [Ord α] [Std.LawfulEqOrd α]

@[simp] theorem mem_insertAscending {x y : α} {xs : List α} :
    y ∈ insertAscending x xs ↔ y = x ∨ y ∈ xs := by
  induction xs with
  | nil => simp [insertAscending]
  | cons z rest ih =>
      rw [insertAscending]
      split
      · simp
      · rename_i same
        simp [Std.LawfulEqOrd.eq_of_compare same]
      · simp only [List.mem_cons, ih]
        tauto

theorem IsAscending.nodup {xs : List α} (h : IsAscending xs) : xs.Nodup :=
  h.imp fun less same => by simp [same, Std.ReflCmp.compare_self] at less

variable [Std.TransOrd α]

theorem IsAscending.insert {xs : List α} (h : IsAscending xs) (x : α) :
    IsAscending (insertAscending x xs) := by
  induction xs with
  | nil => simp [insertAscending, IsAscending]
  | cons y rest ih =>
      obtain ⟨first, tail⟩ := List.pairwise_cons.mp h
      rw [insertAscending]
      split
      · rename_i less
        refine h.cons fun z member => ?_
        rcases List.mem_cons.mp member with rfl | member
        · exact less
        · exact Std.TransCmp.lt_trans less (first z member)
      · exact h
      · rename_i greater
        refine (ih tail).cons fun z member => ?_
        rcases mem_insertAscending.mp member with rfl | member
        · exact Std.OrientedCmp.lt_of_gt greater
        · exact first z member

/-- The elements determine an ascending list. -/
theorem IsAscending.ext {xs ys : List α} (hx : IsAscending xs) (hy : IsAscending ys)
    (same : ∀ x, x ∈ xs ↔ x ∈ ys) : xs = ys := by
  refine List.Perm.eq_of_pairwise (fun a b _ _ less greater => ?_) hx hy
    ((List.perm_ext_iff_of_nodup hx.nodup hy.nodup).mpr same)
  rw [Std.OrientedCmp.gt_of_lt less] at greater
  contradiction

theorem mem_ascending (xs : List α) :
    IsAscending (ascending xs) ∧ ∀ x, x ∈ ascending xs ↔ x ∈ xs := by
  have step (set : List α) (kept : IsAscending set) :
      IsAscending (xs.foldl (fun set x => insertAscending x set) set) ∧
        ∀ x, x ∈ xs.foldl (fun set x => insertAscending x set) set ↔ x ∈ set ∨ x ∈ xs := by
    induction xs generalizing set with
    | nil => exact ⟨kept, fun x => by simp⟩
    | cons first rest ih =>
        obtain ⟨keptToo, members⟩ := ih (insertAscending first set) (kept.insert first)
        refine ⟨keptToo, fun x => (members x).trans ?_⟩
        rw [mem_insertAscending, List.mem_cons]
        tauto
  obtain ⟨kept, members⟩ := step [] List.Pairwise.nil
  exact ⟨kept, fun x => (members x).trans (by simp)⟩

/-- A set that stands as a list is not changed by making it one again. -/
theorem IsAscending.ascending_eq {xs : List α} (h : IsAscending xs) : ascending xs = xs :=
  (mem_ascending xs).1.ext h (mem_ascending xs).2

end Sets

namespace Assoc

variable {κ α β : Type}

@[simp] theorem keys_nil : keys ([] : Assoc κ α) = [] := rfl

@[simp] theorem keys_cons (pair : κ × α) (table : Assoc κ α) :
    keys (pair :: table) = pair.1 :: keys table := rfl

@[simp] theorem keys_append (left right : Assoc κ α) :
    keys (left ++ right) = keys left ++ keys right := List.map_append

/-- Change every value by its key. -/
def mapKeyed (table : Assoc κ α) (f : κ → α → β) : Assoc κ β :=
  table.map fun (key, value) => (key, f key value)

@[simp] theorem keys_mapKeyed (table : Assoc κ α) (f : κ → α → β) :
    (table.mapKeyed f).keys = table.keys := by
  simp [keys, mapKeyed, Function.comp_def]

theorem keys_filter_sublist (table : Assoc κ α) (p : κ × α → Bool) :
    (keys (table.filter p)).Sublist table.keys := List.filter_sublist.map _

@[simp] theorem keys_mapValues (table : Assoc κ α) (f : α → β) :
    (table.mapValues f).keys = table.keys := by
  simp [keys, mapValues, Function.comp_def]

section Lookup

variable [BEq κ]

@[simp] theorem get?_nil (key : κ) : get? ([] : Assoc κ α) key = none := rfl

theorem get?_cons (k : κ) (v : α) (table : Assoc κ α) (key : κ) :
    get? ((k, v) :: table) key = if key == k then some v else table.get? key := by
  rw [get?, List.lookup_cons, get?]
  cases key == k <;> rfl

theorem get?_append (left right : Assoc κ α) (key : κ) :
    get? (left ++ right) key = (left.get? key).or (right.get? key) := List.lookup_append

@[simp] theorem keys_update (table : Assoc κ α) (key : κ) (change : α → α) :
    (table.update key change).keys = table.keys := by
  induction table with
  | nil => rfl
  | cons pair rest ih =>
      obtain ⟨k, v⟩ := pair
      change (if k == key then (k, change v) else (k, v)).1 :: keys (update rest key change) = _
      rw [ih]
      cases k == key <;> rfl

variable [LawfulBEq κ]

theorem mem_of_get? {table : Assoc κ α} {key : κ} {value : α}
    (h : table.get? key = some value) : (key, value) ∈ table := by
  obtain ⟨before, after, rfl, _⟩ := List.lookup_eq_some_iff.mp h
  simp

theorem get?_isSome_iff {table : Assoc κ α} {key : κ} :
    (table.get? key).isSome ↔ key ∈ table.keys := by
  rw [get?, List.lookup_isSome_iff]
  simp [keys]

theorem mem_keys_of_get? {table : Assoc κ α} {key : κ} {value : α}
    (h : table.get? key = some value) : key ∈ table.keys :=
  List.mem_map_of_mem (mem_of_get? h)

theorem get?_eq_none_iff {table : Assoc κ α} {key : κ} :
    table.get? key = none ↔ key ∉ table.keys := by
  rw [← get?_isSome_iff]
  simp

theorem has_iff {table : Assoc κ α} {key : κ} : table.has key ↔ key ∈ table.keys :=
  get?_isSome_iff

/-- Where keys stand once, to be in a table is to be found in it. -/
theorem get?_of_mem {table : Assoc κ α} {key : κ} {value : α} (distinct : table.keys.Nodup)
    (member : (key, value) ∈ table) : table.get? key = some value := by
  induction table with
  | nil => simp at member
  | cons pair rest ih =>
      obtain ⟨k, v⟩ := pair
      rw [keys_cons, List.nodup_cons] at distinct
      rw [get?_cons]
      rcases List.mem_cons.mp member with same | later
      · cases same
        simp
      · have other : key ≠ k := by
          rintro rfl
          exact distinct.1 (List.mem_map.mpr ⟨(key, value), later, rfl⟩)
        simp [other, ih distinct.2 later]

theorem mem_iff_get? {table : Assoc κ α} (distinct : table.keys.Nodup) {key : κ} {value : α} :
    (key, value) ∈ table ↔ table.get? key = some value :=
  ⟨get?_of_mem distinct, mem_of_get?⟩

theorem get?_mapKeyed (table : Assoc κ α) (f : κ → α → β) (key : κ) :
    (table.mapKeyed f).get? key = (table.get? key).map (f key) := by
  induction table with
  | nil => rfl
  | cons pair rest ih =>
      obtain ⟨k, v⟩ := pair
      change get? ((k, f k v) :: mapKeyed rest f) key = _
      rw [get?_cons, get?_cons, ih]
      by_cases same : key = k <;> simp [same]

theorem get?_mapValues (table : Assoc κ α) (f : α → β) (key : κ) :
    (table.mapValues f).get? key = (table.get? key).map f :=
  get?_mapKeyed table (fun _ => f) key

theorem get?_filter {table : Assoc κ α} (distinct : table.keys.Nodup) (p : κ × α → Bool)
    (key : κ) : get? (table.filter p) key = (table.get? key).filter fun v => p (key, v) := by
  have kept := (keys_filter_sublist table p).nodup distinct
  refine Option.ext fun value => ?_
  rw [← mem_iff_get? kept, List.mem_filter, mem_iff_get? distinct, Option.filter_eq_some_iff]

theorem get?_update (table : Assoc κ α) (key : κ) (change : α → α) (other : κ) :
    (table.update key change).get? other =
      if other == key then (table.get? other).map change else table.get? other := by
  induction table with
  | nil => simp [update]
  | cons pair rest ih =>
      obtain ⟨k, v⟩ := pair
      change get? ((if k == key then (k, change v) else (k, v)) :: update rest key change) other = _
      by_cases same : k = key <;> by_cases found : other = k <;> by_cases this : other = key <;>
        simp_all [get?_cons]

end Lookup

section Members

variable [Ord κ]

theorem mem_of_mem_put {key : κ} {value : α} {table : Assoc κ α} {pair : κ × α}
    (member : pair ∈ table.put key value) : pair = (key, value) ∨ pair ∈ table := by
  induction table with
  | nil => exact .inl (List.mem_singleton.mp member)
  | cons first rest ih =>
      obtain ⟨k, v⟩ := first
      rw [put] at member
      split at member
      · exact List.mem_cons.mp member
      · exact (List.mem_cons.mp member).imp_right (List.mem_cons_of_mem _)
      · rcases List.mem_cons.mp member with same | later
        · exact .inr (List.mem_cons.mpr (.inl same))
        · exact (ih later).imp_right (List.mem_cons_of_mem _)

/-- A table of pairs holds nothing else. -/
theorem mem_of_mem_ofPairs {pairs : List (κ × α)} {pair : κ × α} :
    pair ∈ ofPairs pairs → pair ∈ pairs := by
  suffices h : ∀ table : Assoc κ α,
      pair ∈ pairs.foldl (fun table (key, value) => table.put key value) table →
        pair ∈ table ∨ pair ∈ pairs from
    fun member => (h [] member).resolve_left List.not_mem_nil
  induction pairs with
  | nil => exact fun table member => .inl member
  | cons first rest ih =>
      intro table member
      rcases ih (table.put first.1 first.2) member with put | later
      · rcases mem_of_mem_put put with rfl | before
        · exact .inr List.mem_cons_self
        · exact .inl before
      · exact .inr (List.mem_cons_of_mem _ later)

end Members

section Order

variable [Ord κ] [Std.LawfulEqOrd κ]

theorem mem_keys_put {key k : κ} {value : α} {table : Assoc κ α} :
    k ∈ (table.put key value).keys ↔ k = key ∨ k ∈ table.keys := by
  induction table with
  | nil => simp [put]
  | cons pair rest ih =>
      obtain ⟨first, v⟩ := pair
      rw [put]
      split
      · simp
      · rename_i same
        simp [Std.LawfulEqOrd.eq_of_compare same]
      · simp only [keys_cons, List.mem_cons, ih]
        tauto

theorem mem_put_of_not_mem {key : κ} {value : α} {table : Assoc κ α} (absent : key ∉ table.keys)
    {pair : κ × α} : pair ∈ table.put key value ↔ pair = (key, value) ∨ pair ∈ table := by
  induction table with
  | nil => simp [put]
  | cons first rest ih =>
      obtain ⟨k, v⟩ := first
      simp only [keys_cons, List.mem_cons, not_or] at absent
      rw [put]
      split
      · simp
      · rename_i same
        exact absurd (Std.LawfulEqOrd.eq_of_compare same) absent.1
      · simp only [List.mem_cons, ih absent.2]
        tauto

variable [Std.TransOrd κ]

theorem isAscending_put {table : Assoc κ α} (h : IsAscending table.keys) (key : κ) (value : α) :
    IsAscending (table.put key value).keys := by
  induction table with
  | nil => simp [put, IsAscending]
  | cons pair rest ih =>
      obtain ⟨first, v⟩ := pair
      obtain ⟨lower, tail⟩ := List.pairwise_cons.mp h
      rw [put]
      split
      · rename_i less
        refine h.cons fun k member => ?_
        rcases List.mem_cons.mp member with rfl | member
        · exact less
        · exact Std.TransCmp.lt_trans less (lower k member)
      · rename_i same
        obtain rfl := Std.LawfulEqOrd.eq_of_compare same
        exact h
      · rename_i greater
        refine (ih tail).cons fun k member => ?_
        rcases mem_keys_put.mp member with rfl | member
        · exact Std.OrientedCmp.lt_of_gt greater
        · exact lower k member

theorem isAscending_ofPairs (pairs : List (κ × α)) : IsAscending (ofPairs pairs).keys := by
  suffices h : ∀ table : Assoc κ α, IsAscending table.keys →
      IsAscending (pairs.foldl (fun table (key, value) => table.put key value) table).keys from
    h [] List.Pairwise.nil
  induction pairs with
  | nil => exact fun table h => h
  | cons pair rest ih => exact fun table h => ih _ (isAscending_put h pair.1 pair.2)

variable [BEq κ] [LawfulBEq κ]

/-- A value put under a key is found there, and no other key is touched. -/
theorem get?_put (table : Assoc κ α) (key : κ) (value : α) (k : κ) :
    (table.put key value).get? k = if k == key then some value else table.get? k := by
  induction table with
  | nil => simp [put, get?_cons]
  | cons pair rest ih =>
      obtain ⟨first, v⟩ := pair
      rw [put]
      split
      · rw [get?_cons]
      · rename_i same
        obtain rfl := Std.LawfulEqOrd.eq_of_compare same
        rw [get?_cons, get?_cons]
        cases k == key <;> rfl
      · rename_i greater
        have other : first ≠ key := by
          rintro rfl
          simp [Std.ReflCmp.compare_self] at greater
        rw [get?_cons, get?_cons, ih]
        by_cases found : k = first
        · simp [found, other]
        · simp [found]

/-- Of several values under one key the last stays. -/
theorem get?_ofPairs (pairs : List (κ × α)) (key : κ) :
    (ofPairs pairs).get? key = get? pairs.reverse key := by
  suffices h : ∀ table : Assoc κ α,
      get? (pairs.foldl (fun table (key, value) => table.put key value) table) key =
        (get? pairs.reverse key).or (table.get? key) by
    simpa [ofPairs] using h []
  induction pairs with
  | nil => simp
  | cons pair rest ih =>
      obtain ⟨k, v⟩ := pair
      intro table
      rw [List.foldl_cons, ih, get?_put, List.reverse_cons, get?_append, get?_cons]
      cases get? rest.reverse key <;> cases key == k <;> simp

/-- Where keys stand once, a table of pairs holds just these pairs. -/
theorem get?_ofPairs_of_nodup {pairs : List (κ × α)} (distinct : (keys pairs).Nodup) (key : κ) :
    (ofPairs pairs).get? key = get? pairs key := by
  have reversed : (keys pairs.reverse).Nodup := by
    simpa [keys] using distinct
  refine Option.ext fun value => ?_
  rw [get?_ofPairs, ← mem_iff_get? reversed, List.mem_reverse, mem_iff_get? distinct]

/-- The answers determine an ascending table. -/
theorem ext_get? {left right : Assoc κ α} (hl : IsAscending left.keys)
    (hr : IsAscending right.keys) (same : ∀ key, left.get? key = right.get? key) :
    left = right := by
  have members (pair : κ × α) : pair ∈ left ↔ pair ∈ right := by
    rw [show pair = (pair.1, pair.2) from rfl, mem_iff_get? hl.nodup, mem_iff_get? hr.nodup, same]
  have perm : left.Perm right :=
    (List.perm_ext_iff_of_nodup hl.nodup.of_map hr.nodup.of_map).mpr members
  refine List.Perm.eq_of_pairwise (fun a b _ _ less greater => ?_)
    (List.pairwise_map.mp hl) (List.pairwise_map.mp hr) perm
  rw [Std.OrientedCmp.gt_of_lt less] at greater
  contradiction

theorem mem_ofPairs {pairs : List (κ × α)} (distinct : (keys pairs).Nodup) {pair : κ × α} :
    pair ∈ ofPairs pairs ↔ pair ∈ pairs := by
  rw [show pair = (pair.1, pair.2) from rfl, mem_iff_get? (isAscending_ofPairs pairs).nodup,
    get?_ofPairs_of_nodup distinct, mem_iff_get? distinct]

/-- Pairs make up an ascending table when they are just what it holds. -/
theorem ofPairs_eq_of_mem {pairs : List (κ × α)} {table : Assoc κ α}
    (ascending : IsAscending table.keys) (same : ∀ pair, pair ∈ pairs ↔ pair ∈ table) :
    ofPairs pairs = table := by
  refine ext_get? (isAscending_ofPairs pairs) ascending fun key => ?_
  rw [get?_ofPairs]
  have sound {value : α} (found : get? pairs.reverse key = some value) :
      table.get? key = some value :=
    get?_of_mem ascending.nodup ((same _).mp (List.mem_reverse.mp (mem_of_get? found)))
  cases found : get? pairs.reverse key with
  | some value => exact (sound found).symm
  | none =>
      rw [get?_eq_none_iff] at found
      refine (get?_eq_none_iff.mpr fun listed => found ?_).symm
      obtain ⟨pair, member, rfl⟩ := List.mem_map.mp listed
      exact List.mem_map_of_mem (List.mem_reverse.mpr ((same pair).mpr member))

end Order

end Assoc

end WorkspaceBuild
