import WorkspaceBuild.SourceUnit.Printer
import WorkspaceBuild.Proofs.Json.Decoded
import Mathlib.Tactic.Ring

/-! # Values printed as expressions

An expression made of a value is printed in a layout of its own. Whole numbers become doubles on the
way, and are printed digit by digit up to a bound below which doubles are exact: so the text spells the
value, as long as its numbers stay below that bound.
-/

namespace WorkspaceBuild

namespace Double

/-- A whole number of at most 53 bits is scaled up to just these. -/
theorem exponentFor_of_lt {n : Nat} (positive : n ≠ 0) (small : n < 2 ^ 53) :
    exponentFor n 1 = (n.log2 : Int) - 52 := by
  have bits : n.log2 < 53 := (Nat.log2_lt positive).mpr small
  have least : 2 ^ n.log2 ≤ n := Nat.log2_self_le positive
  have scaledUp : scaled n 1 (-((n.log2 : Int) - 0 - 53)) = (n * 2 ^ (53 - n.log2), 1) := by
    rw [scaled, if_pos (by omega), show (-((n.log2 : Int) - 0 - 53)).toNat = 53 - n.log2 by omega]
    rfl
  have great : 2 ^ 53 ≤ n * 2 ^ (53 - n.log2) :=
    calc 2 ^ 53 = 2 ^ n.log2 * 2 ^ (53 - n.log2) := by rw [← pow_add]; congr 1; omega
      _ ≤ n * 2 ^ (53 - n.log2) := Nat.mul_le_mul_right _ least
  have notBelow : ¬ n * 2 ^ (53 - n.log2) < 1 * pow2 53 := by
    rw [one_mul]
    exact Nat.not_lt.mpr great
  have guess : ((1 : Nat).log2 : Int) = 0 := rfl
  simp only [exponentFor, guess, scaledUp, notBelow, if_false, minExponent]
  rw [if_neg (by omega)]
  omega

/-- A whole number of at most 53 bits is a double. -/
theorem ofInt_of_lt {n : Nat} (positive : n ≠ 0) (small : n < 2 ^ 53) :
    ofInt n = .finite false (n * 2 ^ (52 - n.log2)) ((n.log2 : Int) - 52) := by
  have bits : n.log2 < 53 := (Nat.log2_lt positive).mpr small
  have scaledUp : scaled n 1 (-((n.log2 : Int) - 52)) = (n * 2 ^ (52 - n.log2), 1) := by
    rw [scaled, if_pos (by omega), show (-((n.log2 : Int) - 52)).toNat = 52 - n.log2 by omega]
    rfl
  have exact (m : Nat) : roundEven m 1 = m := by simp [roundEven, Nat.mod_one]
  have fits : n * 2 ^ (52 - n.log2) < 2 ^ 53 :=
    calc n * 2 ^ (52 - n.log2) < 2 ^ (n.log2 + 1) * 2 ^ (52 - n.log2) :=
          Nat.mul_lt_mul_of_pos_right Nat.lt_log2_self (Nat.two_pow_pos _)
      _ = 2 ^ 53 := by rw [← pow_add]; congr 1; omega
  have noCarry : n * 2 ^ (52 - n.log2) ≠ pow2 53 := Nat.ne_of_lt fits
  rw [ofInt, Int.natAbs_natCast, ofRatio, if_neg positive, exponentFor_of_lt positive small]
  simp only [scaledUp, exact, noCarry, if_false, maxExponent]
  rw [if_neg (by omega), decide_eq_false (by omega)]

/-- The double of a whole number is equal to it. -/
theorem toNat?_ofInt {n : Nat} (positive : n ≠ 0) (small : n < 2 ^ 53) :
    toNat? (n * 2 ^ (52 - n.log2)) ((n.log2 : Int) - 52) = some n := by
  have bits : n.log2 < 53 := (Nat.log2_lt positive).mpr small
  by_cases all : n.log2 = 52
  · rw [toNat?, if_pos (by omega), all]
    simp [pow2]
  · rw [toNat?, if_neg (by omega),
      show (-((n.log2 : Int) - 52)).toNat = 52 - n.log2 by omega]
    have unit : pow2 (52 - n.log2) = 2 ^ (52 - n.log2) := rfl
    simp [unit, Nat.mul_mod_left, Nat.mul_div_cancel _ (Nat.two_pow_pos _)]

/-- Below the bound a whole number is printed digit by digit. -/
theorem text_ofInt {n : Nat} (small : n < pow10 15) : (ofInt n).text = n.repr := by
  by_cases isZero : n = 0
  · subst isZero
    have whole : toNat? 0 minExponent = some 0 := by simp [toNat?]
    rw [show ofInt (0 : Nat) = zero false from rfl, zero, text, whole]
    rfl
  · have exact : n < 2 ^ 53 := small.trans (by decide)
    rw [ofInt_of_lt isZero exact, text, toNat?_ofInt isZero exact]
    simp only [if_pos small, signText, Bool.false_eq_true, if_false, String.empty_append]

end Double

namespace Json

/-- A value that is printed as it is, with at most so many lists and objects around each part: its
numbers are whole and below the bound up to which doubles are printed digit by digit. -/
inductive IsPrintable : Nat → Json → Prop where
  | null {depth : Nat} : IsPrintable depth .null
  | bool {depth : Nat} (value : Bool) : IsPrintable depth (.bool value)
  | whole {depth n : Nat} (small : n < Double.pow10 15) : IsPrintable depth (.whole n)
  | string {depth : Nat} (text : String) : IsPrintable depth (.string text)
  | array {depth : Nat} {items : List Json} (all : ∀ item ∈ items, IsPrintable depth item) :
      IsPrintable (depth + 1) (.array items)
  | object {depth : Nat} {members : List (String × Json)}
      (all : ∀ member ∈ members, IsPrintable depth member.2) :
      IsPrintable (depth + 1) (.object members)

variable {depth : Nat} {value : Json}

theorem IsPrintable.mono {more : Nat} (printable : IsPrintable depth value) (less : depth ≤ more) :
    IsPrintable more value := by
  induction printable generalizing more with
  | null => exact .null
  | bool value => exact .bool value
  | whole small => exact .whole small
  | string text => exact .string text
  | array _ ih =>
      obtain ⟨more, rfl⟩ := Nat.exists_eq_add_of_lt less
      exact .array fun item listed => ih item listed (Nat.le_add_right _ _)
  | object _ ih =>
      obtain ⟨more, rfl⟩ := Nat.exists_eq_add_of_lt less
      exact .object fun member listed => ih member listed (Nat.le_add_right _ _)

theorem IsPrintable.isReadable (printable : IsPrintable depth value) :
    value.isReadable depth = true := by
  induction printable with
  | null | bool | whole | string => rfl
  | array _ ih => exact areReadable_iff.mpr ih
  | object _ ih => exact membersReadable_iff.mpr ih

/-- Putting members in order and leaving some out keeps what is printed as it is. -/
theorem IsPrintable.settled (printable : IsPrintable depth value) :
    IsPrintable depth value.settled := by
  induction printable with
  | null => exact .null
  | bool value => exact .bool value
  | whole small => exact .whole small
  | string text => exact .string text
  | array _ ih =>
      refine .array fun item listed => ?_
      rw [settledItems_eq] at listed
      obtain ⟨before, among, rfl⟩ := List.mem_map.mp listed
      exact ih before among
  | object _ ih =>
      refine .object fun member listed => ?_
      have kept := Assoc.mem_of_mem_ofPairs listed
      rw [settledMembers_eq] at kept
      obtain ⟨before, among, rfl⟩ := List.mem_map.mp kept
      exact ih before among

/-- Items that are printed one after the other, with a comma and a blank between them. -/
theorem spellsItems_printed {items : List Json} (some : items ≠ [])
    (each : ∀ item ∈ items, Spells item (Expr.ofJson item).chars) {front : List Char}
    (before : IsBlank front) : SpellsItems items (front ++ Expr.listChars (Expr.ofItems items)) := by
  induction items generalizing front with
  | nil => exact absurd rfl some
  | cons item items ih =>
      obtain ⟨here, later⟩ := List.forall_mem_cons.mp each
      cases items with
      | nil =>
          simpa [Expr.ofItems, Expr.listChars] using SpellsItems.last before here isBlank_nil
      | cons next items =>
          have further := ih (List.cons_ne_nil _ _) later isBlank_space
          simpa [Expr.ofItems, Expr.listChars] using SpellsItems.more before here further

/-- Members that are printed one after the other, with a comma and a blank between them. -/
theorem spellsMembers_printed {members : List (String × Json)} (some : members ≠ [])
    (each : ∀ member ∈ members, Spells member.2 (Expr.ofJson member.2).chars) {front : List Char}
    (before : IsBlank front) : SpellsMembers members
      (front ++ Expr.fieldChars (Expr.ofMembers members) ++ [' ']) := by
  induction members generalizing front with
  | nil => exact absurd rfl some
  | cons member members ih =>
      obtain ⟨name, value⟩ := member
      obtain ⟨here, later⟩ := List.forall_mem_cons.mp each
      cases members with
      | nil =>
          have last := @SpellsMembers.last name _ _ _ _ _ before isBlank_space here isBlank_space
          simpa [Expr.ofMembers, Expr.fieldChars] using last
      | cons next members =>
          have further := ih (List.cons_ne_nil _ _) later isBlank_space
          have more := @SpellsMembers.more name _ _ _ _ _ _ before isBlank_space here further
          simpa [Expr.ofMembers, Expr.fieldChars] using more

/-- What is printed for a value spells it. -/
theorem IsPrintable.spells (printable : IsPrintable depth value) :
    Spells value (Expr.ofJson value).chars := by
  induction printable with
  | null => exact .null
  | bool value => cases value <;> exact .bool _
  | string text => exact .string text
  | @whole _ n small =>
      have fits : n < Double.pow2 64 := small.trans (by decide)
      have spelled := Spells.whole fits
      rw [← Nat.toList_repr, ← Double.text_ofInt small] at spelled
      exact spelled
  | @array _ items _ ih =>
      cases items with
      | nil => exact .noItems
      | cons item items => exact .array (spellsItems_printed (List.cons_ne_nil _ _) ih isBlank_nil)
  | @object _ members _ ih =>
      cases members with
      | nil => exact .noMembers
      | cons member members =>
          obtain ⟨name, value⟩ := member
          have inside := spellsMembers_printed (List.cons_ne_nil _ _) ih isBlank_space
          simpa [Expr.ofJson, Expr.ofMembers, Expr.chars] using Spells.object inside

/-- What is printed for a value is read as this value. -/
theorem IsPrintable.read? (printable : IsPrintable maxDepth value) :
    Json.read? (Expr.ofJson value).text = some value := by
  rw [Json.read?, Expr.text, printable.spells.readLoosely?, Option.filter_some,
    if_pos printable.isReadable]

end Json

end WorkspaceBuild
