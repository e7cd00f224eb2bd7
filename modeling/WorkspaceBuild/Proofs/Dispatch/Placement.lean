import WorkspaceBuild.Proofs.Dispatch.Splice

/-! # Where queued statements end up

What is queued for the start, for the end and for a place in front of a statement stands there in the
order of the queue. Behind the last statement this only holds for what is queued for the very index
after it: of two statements queued past that, the second goes in while the unit is as long as it was,
and the first when it is longer, so that it ends up behind the second.
-/

namespace WorkspaceBuild.Dispatcher

/-- Statements for each index below a bound, ascending. -/
def spread (placed : Nat → List Statement) (bound : Nat) : List (Nat × Statement) :=
  (List.range bound).flatMap fun index => (placed index).map (index, ·)

/-- An index behind all that statements are queued for. -/
def bound (queued : List (InsertAt × Statement)) : Nat :=
  queued.foldr (fun entry rest =>
    match entry.1 with
    | .before index => max (index + 1) rest
    | _ => rest) 0

/-- Each statement right behind those that are queued for its index. -/
def woven (statements : List Statement) (queued : List (InsertAt × Statement)) : List Statement :=
  statements.zipIdx.flatMap fun (s, index) => queuedFor (.before index) queued ++ [s]

/-- What is queued for the end of so many statements or past it, with how far past it: by index, and
in queue order for each. -/
def trailing (length : Nat) (queued : List (InsertAt × Statement)) : List (Nat × Statement) :=
  spread (fun past => queuedFor (.before (length + past)) queued) (bound queued)

/-- How many statements are queued past the end of so many. -/
def pastEnd (length : Nat) (queued : List (InsertAt × Statement)) : Nat :=
  ((trailing length queued).filter (0 < ·.1)).length

/-- The statements with all that is queued, in the order of places and of the queue. -/
def spliceInOrder (statements : List Statement) (queued : List (InsertAt × Statement)) :
    List Statement :=
  queuedFor .start queued ++ woven statements queued ++
    (trailing statements.length queued).map Prod.snd ++ queuedFor .finish queued

/-- Each statement is overtaken by as many of those behind it as its index is past the end. -/
def overtaken : List (Nat × Statement) → List Statement
  | [] => []
  | (past, s) :: rest => (overtaken rest).insertIdx (min past rest.length) s

section Spread

variable {placed : Nat → List Statement} {n : Nat}

theorem mem_spread {entry : Nat × Statement} :
    entry ∈ spread placed n ↔ entry.1 < n ∧ entry.2 ∈ placed entry.1 := by
  obtain ⟨index, s⟩ := entry
  simp only [spread, List.mem_flatMap, List.mem_range, List.mem_map, Prod.mk.injEq]
  constructor
  · rintro ⟨_, below, _, member, rfl, rfl⟩
    exact ⟨below, member⟩
  · rintro ⟨below, member⟩
    exact ⟨index, below, s, member, rfl, rfl⟩

theorem spread_last (placed : Nat → List Statement) (n : Nat) :
    spread placed (n + 1) = spread placed n ++ (placed n).map (n, ·) := by
  simp [spread, List.range_succ]

theorem spread_first (placed : Nat → List Statement) (n : Nat) :
    spread placed (n + 1) = (placed 0).map (0, ·) ++
      (spread (fun index => placed (index + 1)) n).map fun entry => (entry.1 + 1, entry.2) := by
  simp [spread, List.range_succ_eq_map, List.flatMap_map, List.map_flatMap, Function.comp_def]

theorem ascending_spread (placed : Nat → List Statement) (n : Nat) :
    (spread placed n).Pairwise (·.1 ≤ ·.1) := by
  induction n with
  | zero => exact .nil
  | succ n ih =>
      rw [spread_last]
      refine List.pairwise_append.mpr ⟨ih, ?_, fun entry here other last => ?_⟩
      · exact List.pairwise_map.mpr (List.pairwise_of_forall fun _ _ => Nat.le_refl n)
      · obtain ⟨_, _, rfl⟩ := List.mem_map.mp last
        exact Nat.le_of_lt (mem_spread.mp here).1

theorem spread_congr {other : Nat → List Statement} (same : ∀ index < n, placed index = other index) :
    spread placed n = spread other n :=
  List.flatMap_congr fun index listed => by rw [same index (List.mem_range.mp listed)]

end Spread

section Sorting

variable {index : Nat} {s : Statement}

/-- What has a greater index stays behind. -/
theorem insertByIndex_append {sorted behind : List (Nat × Statement)}
    (later : ∀ entry ∈ behind, index < entry.1) :
    insertByIndex index s (sorted ++ behind) = insertByIndex index s sorted ++ behind := by
  induction sorted with
  | nil =>
      cases behind with
      | nil => rfl
      | cons entry rest => simp [insertByIndex, later entry List.mem_cons_self]
  | cons entry rest ih =>
      rw [List.cons_append, insertByIndex, insertByIndex, ih]
      split <;> rfl

theorem insertByIndex_spread {placed : Nat → List Statement} {n : Nat} (below : index < n) :
    insertByIndex index s (spread placed n) =
      spread (fun i => placed i ++ if i = index then [s] else []) n := by
  induction n with
  | zero => exact absurd below (Nat.not_lt_zero index)
  | succ n ih =>
      rcases Nat.lt_succ_iff_lt_or_eq.mp below with inside | rfl
      · have later : ∀ entry ∈ (placed n).map (n, ·), index < entry.1 := by
          intro entry listed
          obtain ⟨_, _, rfl⟩ := List.mem_map.mp listed
          exact inside
        rw [spread_last, spread_last, insertByIndex_append later, ih inside]
        simp [Nat.ne_of_gt inside]
      · have last : ∀ entry ∈ spread placed (index + 1), entry.1 ≤ index :=
          fun entry listed => Nat.le_of_lt_succ (mem_spread.mp listed).1
        have before : spread placed index =
            spread (fun i => placed i ++ if i = index then [s] else []) index :=
          spread_congr fun i smaller => by simp [Nat.ne_of_lt smaller]
        rw [insertByIndex_of_le last, spread_last, spread_last, ← before]
        simp

theorem queuedFor_concat (place : InsertAt) (queued : List (InsertAt × Statement))
    (entry : InsertAt × Statement) : queuedFor place (queued ++ [entry]) =
      queuedFor place queued ++ if entry.1 = place then [entry.2] else [] := by
  by_cases here : entry.1 = place <;> simp [queuedFor, here]

theorem lt_bound {queued : List (InsertAt × Statement)} (listed : (.before index, s) ∈ queued) :
    index < bound queued := by
  induction queued with
  | nil => cases listed
  | cons entry rest ih =>
      rcases List.mem_cons.mp listed with rfl | later
      · exact Nat.lt_of_succ_le (Nat.le_max_left ..)
      · have inside := ih later
        obtain ⟨place, _⟩ := entry
        cases place with
        | before _ => exact Nat.lt_of_lt_of_le inside (Nat.le_max_right ..)
        | _ => exact inside

/-- Sorting by index keeps the order of the queue for each index. -/
theorem indexed_eq_spread {queued : List (InsertAt × Statement)} {n : Nat}
    (below : ∀ index s, (InsertAt.before index, s) ∈ queued → index < n) :
    indexed queued = spread (fun index => queuedFor (.before index) queued) n := by
  induction queued using List.reverseRecOn with
  | nil => simp [indexed, spread, queuedFor]
  | append_singleton queued entry ih =>
      obtain ⟨place, s⟩ := entry
      have sorted := ih fun index s listed => below index s (List.mem_append_left _ listed)
      simp only [queuedFor_concat]
      rw [indexed_concat]
      cases place with
      | before index =>
          have inside : index < n := below index s (by simp)
          simp only [placed?, Option.map_some, Option.getD_some, sorted,
            insertByIndex_spread inside, InsertAt.before.injEq, eq_comm]
      | _ => simpa [placed?] using sorted

end Sorting

section Ends

variable {sorted : List (Nat × Statement)}

theorem overtaken_perm (sorted : List (Nat × Statement)) :
    (overtaken sorted).Perm (sorted.map Prod.snd) := by
  induction sorted with
  | nil => exact .refl _
  | cons entry rest ih =>
      have length : (overtaken rest).length = rest.length := by simpa using ih.length_eq
      refine (List.perm_insertIdx _ _ ?_).trans (ih.cons entry.2)
      rw [length]
      exact Nat.min_le_right ..

theorem length_overtaken (sorted : List (Nat × Statement)) :
    (overtaken sorted).length = sorted.length := by simpa using (overtaken_perm sorted).length_eq

theorem insertAll_empty (sorted : List (Nat × Statement)) : insertAll sorted [] = overtaken sorted := by
  induction sorted with
  | nil => rfl
  | cons entry rest ih => rw [insertAll_cons, ih, length_overtaken, overtaken]

/-- What is queued for the statements of a unit stands in front of them, and the rest goes in behind
the last one. -/
theorem insertAll_spread (placed : Nat → List Statement) (statements : List Statement)
    (first more : Nat) :
    insertAll (spread (fun index => placed (first + index)) (statements.length + more)) statements =
      (statements.zipIdx first).flatMap (fun (s, index) => placed index ++ [s]) ++
        overtaken (spread (fun past => placed (first + statements.length + past)) more) := by
  induction statements generalizing first with
  | nil => simp [insertAll_empty]
  | cons s rest ih =>
      have length : (s :: rest).length + more = rest.length + more + 1 := by simp; omega
      have shifted := ih (first + 1)
      simp only [Nat.add_right_comm first 1] at shifted
      rw [length, spread_first, insertAll_zeros, insertAll_succ, List.zipIdx_cons, List.flatMap_cons]
      simp only [List.length_cons, ← Nat.add_assoc, shifted]
      simp [Nat.add_right_comm]

/-- In order with at most one past the end, none is overtaken. -/
theorem overtaken_of_le (ascending : sorted.Pairwise (·.1 ≤ ·.1))
    (few : (sorted.filter (0 < ·.1)).length ≤ 1) : overtaken sorted = sorted.map Prod.snd := by
  induction sorted with
  | nil => rfl
  | cons entry rest ih =>
      obtain ⟨least, later⟩ := List.pairwise_cons.mp ascending
      rcases Nat.eq_zero_or_pos entry.1 with atEnd | past
      · have same := ih later (by simpa [atEnd] using few)
        simp [overtaken, same, atEnd]
      · -- all that comes behind would be past the end too
        have none : rest = [] := by
          refine List.eq_nil_iff_forall_not_mem.mpr fun other listed => ?_
          have further : other ∈ rest.filter (0 < ·.1) :=
            List.mem_filter.mpr ⟨listed, by simpa using Nat.lt_of_lt_of_le past (least other listed)⟩
          have some := List.length_pos_of_mem further
          simp only [List.filter_cons, past, decide_true, if_true, List.length_cons] at few
          omega
        simp [none, overtaken]

/-- Of distinct statements the first one past the end is overtaken by the next. -/
theorem le_of_overtaken (distinct : (sorted.map Prod.snd).Nodup)
    (same : overtaken sorted = sorted.map Prod.snd) : (sorted.filter (0 < ·.1)).length ≤ 1 := by
  induction sorted with
  | nil => exact Nat.zero_le 1
  | cons entry rest ih =>
      obtain ⟨new, distinct⟩ := List.nodup_cons.mp distinct
      rcases Nat.eq_zero_or_pos entry.1 with atEnd | past
      · simp only [overtaken, atEnd, Nat.zero_min, List.insertIdx_zero, List.map_cons,
          List.cons.injEq, true_and] at same
        simpa [atEnd] using ih distinct same
      · cases behind : overtaken rest with
        | nil =>
            have none : rest = [] := List.length_eq_zero_iff.mp (by rw [← length_overtaken, behind]; rfl)
            simp [none, past]
        | cons other others =>
            have some : rest.length ≠ 0 := by simp [← length_overtaken rest, behind]
            obtain ⟨place, after⟩ : ∃ place, min entry.1 rest.length = place + 1 :=
              Nat.exists_eq_succ_of_ne_zero (by omega)
            have first : other = entry.2 := by
              rw [overtaken, behind, after, List.insertIdx_succ_cons] at same
              exact (List.cons.inj same).1
            have listed : other ∈ rest.map Prod.snd :=
              (overtaken_perm rest).mem_iff.mp (behind ▸ List.mem_cons_self)
            exact absurd (first ▸ listed) new

end Ends

/-- How queued statements are set into others. -/
structure Places (statements : List Statement) (queued : List (InsertAt × Statement))
    (result : List Statement) : Prop where
  /-- All but what is queued past the end stands where it was queued for. -/
  eq : result = queuedFor .start queued ++ woven statements queued ++
    overtaken (trailing statements.length queued) ++ queuedFor .finish queued
  /-- One statement past the end does no harm. -/
  inOrder : pastEnd statements.length queued ≤ 1 → result = spliceInOrder statements queued
  /-- Two of them do, unless statements are alike. -/
  le_one : ((trailing statements.length queued).map Prod.snd).Nodup →
    result = spliceInOrder statements queued → pastEnd statements.length queued ≤ 1

/-- Whatever is queued, it is set in as described, and in the order of places and of the queue just
when not more than one statement is queued past the end. -/
theorem splice_places (statements : List Statement) (queued : List (InsertAt × Statement)) :
    Places statements queued (splice statements queued) := by
  have ascending : (trailing statements.length queued).Pairwise (·.1 ≤ ·.1) := ascending_spread _ _
  have sorted : indexed queued = spread (fun index => queuedFor (.before index) queued)
      (statements.length + bound queued) :=
    indexed_eq_spread fun index s listed => Nat.lt_of_lt_of_le (lt_bound listed) (Nat.le_add_left ..)
  have eq : splice statements queued = queuedFor .start queued ++ woven statements queued ++
      overtaken (trailing statements.length queued) ++ queuedFor .finish queued := by
    have inserted := insertAll_spread (fun index => queuedFor (.before index) queued) statements 0
      (bound queued)
    simp only [Nat.zero_add] at inserted
    rw [splice_eq, sorted, inserted]
    simp [woven, trailing]
  refine ⟨eq, fun few => ?_, fun distinct same => le_of_overtaken distinct ?_⟩
  · rw [eq, spliceInOrder, overtaken_of_le ascending few]
  · rw [eq, spliceInOrder] at same
    exact List.append_cancel_left (List.append_cancel_right same)

/-- Two statements queued past the end come out the other way round. -/
theorem splice_swapped :
    let named (name : String) : Statement := .expression (.ident name)
    let queued := [(.before 2, named "x"), (.before 2, named "y")]
    splice [named "a"] queued = [named "a", named "y", named "x"] ∧
      spliceInOrder [named "a"] queued = [named "a", named "x", named "y"] ∧
      splice [named "a"] queued ≠ spliceInOrder [named "a"] queued := by
  refine ⟨rfl, rfl, fun same => ?_⟩
  injection same with _ same
  injection same with first
  simp at first

end WorkspaceBuild.Dispatcher
