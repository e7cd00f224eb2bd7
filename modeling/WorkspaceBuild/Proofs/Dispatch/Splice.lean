import Mathlib.Data.List.Induction
import Mathlib.Data.List.InsertIdx
import Mathlib.Data.List.Perm.Basic
import WorkspaceBuild.Dispatch

/-! # Setting queued statements into a unit

Statements queued for places given by an index go in from the last one on. In front of the first
statement stands what is queued for index 0; behind it everything is as in the rest of the unit,
with indices one less.
-/

namespace WorkspaceBuild.Dispatcher

variable {index : Nat} {s : Statement} {sorted : List (Nat × Statement)}

theorem insertByIndex_of_le (last : ∀ entry ∈ sorted, entry.1 ≤ index) :
    insertByIndex index s sorted = sorted ++ [(index, s)] := by
  induction sorted with
  | nil => rfl
  | cons entry rest ih =>
      have notBefore : ¬ index < entry.1 := by
        have := last entry List.mem_cons_self
        omega
      have behind := ih fun e listed => last e (List.mem_cons_of_mem _ listed)
      simp only [insertByIndex, notBefore, if_false, behind, List.cons_append]

/-- What is queued in ascending order stays in that order. -/
theorem indexed_of_ascending (ascending : sorted.Pairwise (·.1 ≤ ·.1)) :
    indexed (sorted.map fun entry => (.before entry.1, entry.2)) = sorted := by
  simp only [indexed, List.foldl_map]
  suffices ∀ done, (done ++ sorted).Pairwise (·.1 ≤ ·.1) →
      sorted.foldl (fun sorted entry => insertByIndex entry.1 entry.2 sorted) done =
        done ++ sorted from this [] ascending
  clear ascending
  induction sorted with
  | nil => simp
  | cons entry rest ih =>
      intro done ascending
      have last : ∀ e ∈ done, e.1 ≤ entry.1 := fun e listed =>
        (List.pairwise_append.mp ascending).2.2 e listed entry List.mem_cons_self
      rw [List.foldl_cons, insertByIndex_of_le last, ih _ (by simpa using ascending)]
      simp

/-- Statements with the indices they are inserted at, the last of them first. -/
def insertAll (sorted : List (Nat × Statement)) (statements : List Statement) : List Statement :=
  sorted.foldr (fun entry statements =>
    statements.insertIdx (min entry.1 statements.length) entry.2) statements

@[simp] theorem insertAll_nil (statements : List Statement) : insertAll [] statements = statements :=
  rfl

theorem insertAll_cons (entry : Nat × Statement) (statements : List Statement) :
    insertAll (entry :: sorted) statements =
      (insertAll sorted statements).insertIdx (min entry.1 (insertAll sorted statements).length)
        entry.2 := rfl

theorem splice_eq (statements : List Statement) (queued : List (InsertAt × Statement)) :
    splice statements queued =
      queuedFor .start queued ++ insertAll (indexed queued) statements ++
        queuedFor .finish queued := by
  simp only [splice, List.foldl_reverse, insertAll]

@[simp] theorem splice_nil (statements : List Statement) : splice statements [] = statements := by
  simp [splice_eq, queuedFor, indexed]

/-- Nothing is lost or doubled by setting in, and what was there stays in order. -/
theorem insertAll_spec (sorted : List (Nat × Statement)) (statements : List Statement) :
    (insertAll sorted statements).Perm (statements ++ sorted.map Prod.snd) ∧
      statements.Sublist (insertAll sorted statements) := by
  induction sorted with
  | nil => simp
  | cons entry rest ih =>
      obtain ⟨perm, sublist⟩ := ih
      rw [insertAll_cons, List.map_cons]
      refine ⟨?_, sublist.trans (List.sublist_insertIdx _ _ _)⟩
      refine (List.perm_insertIdx _ _ (Nat.min_le_right _ _)).trans ?_
      exact (perm.cons entry.2).trans List.perm_middle.symm

theorem insertByIndex_perm (index : Nat) (s : Statement) (sorted : List (Nat × Statement)) :
    (insertByIndex index s sorted).Perm (sorted ++ [(index, s)]) := by
  induction sorted with
  | nil => exact .refl _
  | cons entry rest ih =>
      rw [insertByIndex]
      split
      · exact (List.perm_append_singleton _ (entry :: rest)).symm
      · exact ih.cons entry

/-- The index that a statement is queued for. -/
def placed? : InsertAt × Statement → Option (Nat × Statement)
  | (.before index, s) => some (index, s)
  | _ => none

/-- A statement queued last is sorted in after the others, if it is queued for an index. -/
theorem indexed_concat (queued : List (InsertAt × Statement)) (entry : InsertAt × Statement) :
    indexed (queued ++ [entry]) = ((placed? entry).map fun (index, s) =>
      insertByIndex index s (indexed queued)).getD (indexed queued) := by
  obtain ⟨place, s⟩ := entry
  rw [indexed, List.foldl_concat]
  cases place <;> rfl

/-- Sorting by index loses and doubles nothing. -/
theorem indexed_perm (queued : List (InsertAt × Statement)) :
    (indexed queued).Perm (queued.filterMap placed?) := by
  induction queued using List.reverseRecOn with
  | nil => exact .refl _
  | append_singleton queued entry ih =>
      rw [indexed_concat, List.filterMap_append]
      cases placed : placed? entry with
      | none => simpa [placed] using ih
      | some found =>
          obtain ⟨index, s⟩ := found
          simpa [placed] using (insertByIndex_perm index s (indexed queued)).trans (ih.append_right _)

/-- Each queued statement goes to the start, to an index or to the end. -/
theorem queued_perm (queued : List (InsertAt × Statement)) :
    (queuedFor .start queued ++ (queued.filterMap placed?).map Prod.snd ++
      queuedFor .finish queued).Perm (queued.map Prod.snd) := by
  induction queued with
  | nil => exact .refl _
  | cons entry rest ih =>
      obtain ⟨place, s⟩ := entry
      cases place with
      | start => exact ih.cons s
      | finish => exact List.perm_middle.trans (ih.cons s)
      | before index =>
          rw [List.append_assoc] at ih ⊢
          exact List.perm_middle.trans (ih.cons s)

/-- Every statement that is queued is set in once, and those that were there stay in order. -/
theorem splice_spec (statements : List Statement) (queued : List (InsertAt × Statement)) :
    (splice statements queued).Perm (statements ++ queued.map Prod.snd) ∧
      statements.Sublist (splice statements queued) := by
  obtain ⟨perm, sublist⟩ := insertAll_spec (indexed queued) statements
  have inserted : (insertAll (indexed queued) statements).Perm
      (statements ++ (queued.filterMap placed?).map Prod.snd) :=
    perm.trans (((indexed_perm queued).map Prod.snd).append_left _)
  rw [splice_eq]
  refine ⟨?_, sublist.trans ?_⟩
  · refine ((inserted.append_left _).append_right _).trans ?_
    refine .trans ?_ ((queued_perm queued).append_left statements)
    simp only [← List.append_assoc]
    exact (List.perm_append_comm.append_right _).append_right _
  · exact (List.sublist_append_right _ _).trans (List.sublist_append_left _ _)

theorem insertAll_zeros (front : List Statement) (statements : List Statement) :
    insertAll (front.map (0, ·) ++ sorted) statements = front ++ insertAll sorted statements := by
  induction front with
  | nil => rfl
  | cons s rest ih => simp [insertAll_cons, ih]

/-- What is queued for later places goes into the rest of the unit. -/
theorem insertAll_succ (sorted : List (Nat × Statement)) (statements : List Statement) :
    insertAll (sorted.map fun entry => (entry.1 + 1, entry.2)) (s :: statements) =
      s :: insertAll sorted statements := by
  induction sorted with
  | nil => rfl
  | cons entry rest ih =>
      simp [insertAll_cons, ih, Nat.add_min_add_right]

/-- What is queued behind the top-level statements, the first of which has the index. -/
def queuedBehind (index : Nat) : List (Statement × List Statement) → List (Nat × Statement)
  | [] => []
  | group :: rest => group.2.map (index + 1, ·) ++ queuedBehind (index + 1) rest

theorem queuedBehind_succ (groups : List (Statement × List Statement)) :
    queuedBehind (index + 1) groups =
      (queuedBehind index groups).map fun entry => (entry.1 + 1, entry.2) := by
  induction groups generalizing index with
  | nil => rfl
  | cons group rest ih => simp [queuedBehind, ih]

theorem lt_of_mem_queuedBehind {groups : List (Statement × List Statement)}
    {entry : Nat × Statement} (listed : entry ∈ queuedBehind index groups) : index < entry.1 := by
  induction groups generalizing index with
  | nil => cases listed
  | cons group rest ih =>
      rcases List.mem_append.mp listed with here | behind
      · obtain ⟨_, _, rfl⟩ := List.mem_map.mp here
        exact Nat.lt_succ_self index
      · exact Nat.lt_of_succ_lt (ih behind)

theorem exists_of_mem_queuedBehind {groups : List (Statement × List Statement)}
    {entry : Nat × Statement} (listed : entry ∈ queuedBehind index groups) :
    ∃ group ∈ groups, entry.2 ∈ group.2 := by
  induction groups generalizing index with
  | nil => cases listed
  | cons group rest ih =>
      rcases List.mem_append.mp listed with here | behind
      · obtain ⟨call, queued, rfl⟩ := List.mem_map.mp here
        exact ⟨group, List.mem_cons_self, queued⟩
      · obtain ⟨other, among, queued⟩ := ih behind
        exact ⟨other, List.mem_cons_of_mem _ among, queued⟩

theorem queuedBehind_ascending (groups : List (Statement × List Statement)) :
    (queuedBehind index groups).Pairwise (·.1 ≤ ·.1) := by
  induction groups generalizing index with
  | nil => exact .nil
  | cons group rest ih =>
      refine List.pairwise_append.mpr ⟨?_, ih, ?_⟩
      · exact List.pairwise_map.mpr (List.pairwise_of_forall fun _ _ => Nat.le_refl _)
      · intro entry here other behind
        obtain ⟨_, _, rfl⟩ := List.mem_map.mp here
        exact Nat.le_of_lt (lt_of_mem_queuedBehind behind)

theorem insertAll_queuedBehind (groups : List (Statement × List Statement)) :
    insertAll (queuedBehind 0 groups) (groups.map Prod.fst) =
      groups.flatMap fun group => group.1 :: group.2 := by
  induction groups with
  | nil => rfl
  | cons group rest ih =>
      have shifted : queuedBehind 0 (group :: rest) =
          (group.2.map (0, ·) ++ queuedBehind 0 rest).map
            fun entry : Nat × Statement => (entry.1 + 1, entry.2) := by
        simp [queuedBehind, queuedBehind_succ]
      rw [shifted, List.map_cons, insertAll_succ, insertAll_zeros, ih]
      simp

/-- Statements queued behind the top-level statements they come from end up right behind them. -/
theorem splice_queuedBehind (groups : List (Statement × List Statement)) :
    splice (groups.map Prod.fst)
        ((queuedBehind 0 groups).map fun entry => (.before entry.1, entry.2)) =
      groups.flatMap fun group => group.1 :: group.2 := by
  have indices : ∀ place, (∀ index, place ≠ InsertAt.before index) →
      queuedFor place ((queuedBehind 0 groups).map fun entry => (.before entry.1, entry.2)) = [] := by
    intro place notIndex
    simp only [queuedFor, List.map_eq_nil_iff, List.filter_eq_nil_iff, List.mem_map,
      decide_eq_true_eq]
    rintro _ ⟨entry, _, rfl⟩ same
    exact notIndex _ same.symm
  rw [splice_eq, indexed_of_ascending (queuedBehind_ascending groups), insertAll_queuedBehind,
    indices .start (by simp), indices .finish (by simp)]
  simp

end WorkspaceBuild.Dispatcher
