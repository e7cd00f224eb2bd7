import Mathlib.Data.List.Lex
import Mathlib.Data.Prod.Lex
import Mathlib.Data.String.Basic
import WorkspaceBuild.Proofs.Path.Folding

/-! # Sorted paths

Paths are ordered by their components, so paths that are the same stand side by side when they are
sorted. To pick some of sorted paths is then to sort those picked, if the choice does not depend on
how a path is spelled.
-/

namespace WorkspaceBuild

section Sorting

variable {α : Type}

/-- Two parts told apart by a test are told apart in one way. -/
theorem eq_of_append_eq_append {test : α → Bool} {before after first second : List α}
    (same : before ++ after = first ++ second) (low : ∀ x ∈ before, test x = false)
    (high : ∀ x ∈ after, test x = true) (alsoLow : ∀ x ∈ first, test x = false)
    (alsoHigh : ∀ x ∈ second, test x = true) : before = first ∧ after = second := by
  have lows := congrArg (List.filter fun x => !test x) same
  have highs := congrArg (List.filter test) same
  simp only [List.filter_append] at lows highs
  have none {xs : List α} (low : ∀ x ∈ xs, test x = false) : xs.filter test = [] :=
    List.filter_eq_nil_iff.mpr fun x listed => by simp [low x listed]
  have noneToo {xs : List α} (high : ∀ x ∈ xs, test x = true) : xs.filter (fun x => !test x) = [] :=
    List.filter_eq_nil_iff.mpr fun x listed => by simp [high x listed]
  have all {xs : List α} (low : ∀ x ∈ xs, test x = false) : xs.filter (fun x => !test x) = xs :=
    List.filter_eq_self.mpr fun x listed => by simp [low x listed]
  rw [all low, all alsoLow, noneToo high, noneToo alsoHigh, List.append_nil, List.append_nil] at lows
  rw [none low, none alsoLow, List.filter_eq_self.mpr high, List.filter_eq_self.mpr alsoHigh] at highs
  exact ⟨lows, highs⟩

/-- Sorting keeps what is picked in the order in which it is sorted alone. -/
theorem filter_mergeSort {le : α → α → Bool} (trans : ∀ a b c, le a b → le b c → le a c)
    (total : ∀ a b, le a b || le b a) (test : α → Bool) (xs : List α) :
    (xs.mergeSort le).filter test = (xs.filter test).mergeSort le := by
  induction xs with
  | nil => simp
  | cons x rest ih =>
      obtain ⟨before, after, whole, others, less⟩ := List.mergeSort_cons trans total x rest
      rw [others, List.filter_append] at ih
      rw [whole, List.filter_append]
      cases picked : test x with
      | false => rw [List.filter_cons_of_neg (by simp [picked]),
          List.filter_cons_of_neg (by simp [picked]), ih]
      | true =>
          obtain ⟨first, second, wholeToo, othersToo, lessToo⟩ :=
            List.mergeSort_cons trans total x (rest.filter test)
          rw [List.filter_cons_of_pos picked, List.filter_cons_of_pos picked, wholeToo]
          rw [othersToo] at ih
          have sorted := List.pairwise_mergeSort trans total (x :: rest)
          have sortedToo := List.pairwise_mergeSort trans total (x :: rest.filter test)
          rw [whole] at sorted
          rw [wholeToo] at sortedToo
          have more := (List.pairwise_cons.mp (List.pairwise_append.mp sorted).2.1).1
          have moreToo := (List.pairwise_cons.mp (List.pairwise_append.mp sortedToo).2.1).1
          obtain ⟨rfl, rfl⟩ := @eq_of_append_eq_append _ (le x) _ _ _ _ ih
            (fun y listed => by simpa using less y (List.mem_of_mem_filter listed))
            (fun y listed => more y (List.mem_of_mem_filter listed))
            (fun y listed => by simpa using lessToo y listed) moreToo
          rfl

end Sorting

namespace Path

/-- What the order of components goes by. -/
def Component.key : Component → Nat ×ₗ String
  | .name text => toLex (3, text)
  | c => toLex (c.rank, "")

theorem Component.key_injective : Function.Injective Component.key := by
  intro a b same
  cases a <;> cases b <;> simp_all [Component.key, Component.rank]

theorem Component.precedes_iff (a b : Component) : a.precedes b = true ↔ a.key < b.key := by
  cases a <;> cases b <;>
    simp [Component.key, Component.precedes, Component.rank, Prod.Lex.toLex_lt_toLex]

/-- What the order of paths goes by. -/
def key (path : Path) : List (Nat ×ₗ String) := path.components.map Component.key

theorem componentsPrecede_iff (as bs : List Component) :
    componentsPrecede as bs = true ↔ as.map Component.key < bs.map Component.key := by
  induction as generalizing bs with
  | nil => cases bs <;> simp [componentsPrecede]
  | cons a as ih =>
      cases bs with
      | nil => simp [componentsPrecede]
      | cons b bs =>
          rw [componentsPrecede, List.map_cons, List.map_cons, List.cons_lt_cons_iff,
            Component.key_injective.eq_iff]
          split
          · rename_i same
            rw [ih, same]
            simp
          · rename_i other
            simp [other, Component.precedes_iff]

variable {p q r : Path}

theorem notAfter_iff : p.notAfter q = true ↔ p.key ≤ q.key := by
  rw [notAfter, Bool.not_eq_true', ← Bool.not_eq_true, precedes, componentsPrecede_iff]
  exact not_lt

theorem same_iff : p.same q = true ↔ p.key = q.key := by
  rw [same, decide_eq_true_iff, key, key, List.map_inj_right fun a b same => Component.key_injective same]

theorem notAfter_trans (p q r : Path) (first : p.notAfter q) (second : q.notAfter r) :
    p.notAfter r :=
  notAfter_iff.mpr ((notAfter_iff.mp first).trans (notAfter_iff.mp second))

theorem notAfter_total (p q : Path) : p.notAfter q || q.notAfter p := by
  rw [Bool.or_eq_true, notAfter_iff, notAfter_iff]
  exact le_total _ _

/-- Of neighbours that are the same the first stays. -/
def distinct (paths : List Path) : List Path :=
  paths.foldr (fun p rest =>
    match rest with
    | q :: _ => if p.same q then p :: rest.tail else p :: rest
    | [] => [p]) []

theorem distinct_cons (p : Path) (paths : List Path) : distinct (p :: paths) =
    if (distinct paths).head?.any p.same then p :: (distinct paths).tail
    else p :: distinct paths := by
  rw [distinct, List.foldr_cons, ← distinct]
  cases distinct paths with
  | nil => rfl
  | cons q rest => rfl

theorem distinct_eq_cons (p : Path) (paths : List Path) :
    ∃ rest, distinct (p :: paths) = p :: rest := by
  rw [distinct_cons]
  split <;> exact ⟨_, rfl⟩

theorem distinct_cons_cons (p q : Path) (paths : List Path) : distinct (p :: q :: paths) =
    p :: if p.same q then (distinct (q :: paths)).tail else distinct (q :: paths) := by
  obtain ⟨rest, same⟩ := distinct_eq_cons q paths
  rw [distinct_cons, same, List.head?_cons, Option.any_some]
  split <;> rfl

theorem distinct_subset (paths : List Path) : distinct paths ⊆ paths := by
  induction paths with
  | nil => exact List.nil_subset _
  | cons p rest ih =>
      rw [distinct_cons]
      split
      · exact List.cons_subset_cons p (List.Subset.trans (List.tail_sublist _).subset ih)
      · exact List.cons_subset_cons p ih

/-- Of sorted paths, each once, each comes before the next. -/
theorem pairwise_distinct {paths : List Path} (sorted : paths.Pairwise fun p q => p.notAfter q) :
    (distinct paths).Pairwise fun p q => p.key < q.key := by
  induction paths with
  | nil => exact List.Pairwise.nil
  | cons p rest ih =>
      obtain ⟨first, sortedRest⟩ := List.pairwise_cons.mp sorted
      have ih := ih sortedRest
      cases rest with
      | nil => exact List.pairwise_singleton _ _
      | cons q others =>
          obtain ⟨more, begins⟩ := distinct_eq_cons q others
          rw [begins] at ih
          obtain ⟨after, sortedMore⟩ := List.pairwise_cons.mp ih
          have before := notAfter_iff.mp (first q List.mem_cons_self)
          rw [distinct_cons_cons, begins, List.tail_cons]
          split
          · rename_i same
            rw [← same_iff.mp same] at after
            exact List.pairwise_cons.mpr ⟨after, sortedMore⟩
          · rename_i other
            have less := lt_of_le_of_ne before (mt same_iff.mpr other)
            exact List.pairwise_cons.mpr
              ⟨List.forall_mem_cons.mpr ⟨less, fun r listed => less.trans (after r listed)⟩, ih⟩

/-- Of sorted paths, those that a choice picks which goes by components. -/
theorem filter_distinct {test : Path → Bool} (alike : ∀ p q, p.same q → test p = test q)
    {paths : List Path} (sorted : paths.Pairwise fun p q => p.notAfter q) :
    (distinct paths).filter test = distinct (paths.filter test) := by
  induction paths with
  | nil => rfl
  | cons p rest ih =>
      obtain ⟨first, sortedRest⟩ := List.pairwise_cons.mp sorted
      have ih := ih sortedRest
      cases rest with
      | nil => cases picked : test p <;> simp [distinct, picked]
      | cons q others =>
          obtain ⟨more, begins⟩ := distinct_eq_cons q others
          rw [distinct_cons_cons]
          cases picked : test p with
          | false =>
              rw [List.filter_cons_of_neg (by simp [picked]), List.filter_cons_of_neg (by simp [picked]),
                ← ih]
              split
              · rename_i same
                rw [begins, List.tail_cons,
                  List.filter_cons_of_neg (by simp [← alike p q same, picked])]
              · rfl
          | true =>
              rw [List.filter_cons_of_pos picked, List.filter_cons_of_pos picked]
              cases same : p.same q with
              | true =>
                  have pickedToo : test q = true := (alike p q same).symm.trans picked
                  rw [begins, List.filter_cons_of_pos pickedToo, List.filter_cons_of_pos pickedToo] at ih
                  rw [List.filter_cons_of_pos pickedToo, distinct_cons_cons, if_pos same, if_pos rfl,
                    begins, ← ih]
                  rfl
              | false =>
                  rw [if_neg Bool.false_ne_true, ih]
                  -- what comes later is after the second, so none of it is the same as the first
                  have apart : ∀ r ∈ q :: others, p.same r = false := by
                    intro r listed
                    rw [← Bool.not_eq_true, same_iff] at same ⊢
                    intro wrong
                    refine same (le_antisymm (notAfter_iff.mp (first q List.mem_cons_self)) ?_)
                    rw [wrong]
                    rcases List.mem_cons.mp listed with rfl | later
                    · exact le_refl _
                    · exact notAfter_iff.mp ((List.pairwise_cons.mp sortedRest).1 r later)
                  cases left : (q :: others).filter test with
                  | nil => rfl
                  | cons r later =>
                      have listed : r ∈ q :: others :=
                        List.mem_of_mem_filter (left ▸ List.mem_cons_self)
                      rw [distinct_cons_cons, apart r listed, if_neg Bool.false_ne_true]

/-- Of sorted paths, each once, those that a choice picks which goes by components. -/
theorem filter_sortedDistinct {test : Path → Bool} (alike : ∀ p q, p.same q → test p = test q)
    (paths : List Path) :
    (sortedDistinct paths).filter test = sortedDistinct (paths.filter test) := by
  have sorted := List.pairwise_mergeSort notAfter_trans notAfter_total paths
  rw [sortedDistinct, sortedDistinct, ← filter_mergeSort notAfter_trans notAfter_total]
  exact filter_distinct alike sorted

theorem pairwise_sortedDistinct (paths : List Path) :
    (sortedDistinct paths).Pairwise fun p q => p.key < q.key :=
  pairwise_distinct (List.pairwise_mergeSort notAfter_trans notAfter_total paths)

end Path

end WorkspaceBuild
