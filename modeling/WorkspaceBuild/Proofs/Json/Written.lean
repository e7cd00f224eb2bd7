import WorkspaceBuild.Proofs.Json.Spelled

/-! # Reading what was written

A value that is written with each part on a line of its own is read back as it was, if its numbers
are whole, not negative and no longer than 64 bits.
-/

namespace WorkspaceBuild.Json

mutual

/-- A value that its text says all of. -/
def IsExact : Json → Prop
  | .null | .bool _ | .string _ => True
  | .whole n => 0 ≤ n ∧ n < Double.pow2 64
  | .array items => AreExact items
  | .object members => MembersExact members
  | .real _ | .unreadable => False

/-- All items of a list are exact. -/
def AreExact : List Json → Prop
  | [] => True
  | item :: rest => IsExact item ∧ AreExact rest

/-- The values of all members are exact. -/
def MembersExact : List (String × Json) → Prop
  | [] => True
  | (_, value) :: rest => IsExact value ∧ MembersExact rest

end

/-- Induction over a value, with a hypothesis for each item and for the value of each member. -/
theorem induct {motive : Json → Prop} (null : motive .null) (bool : ∀ value, motive (.bool value))
    (whole : ∀ n, motive (.whole n)) (real : ∀ value, motive (.real value))
    (string : ∀ text, motive (.string text))
    (array : ∀ items, (∀ item ∈ items, motive item) → motive (.array items))
    (object : ∀ members, (∀ member ∈ members, motive member.2) → motive (.object members))
    (unreadable : motive .unreadable) (value : Json) : motive value :=
  @Json.rec motive (fun items => ∀ item ∈ items, motive item)
    (fun members => ∀ member ∈ members, motive member.2) (fun member => motive member.2)
    null bool whole real string array object unreadable
    (List.forall_mem_nil _) (fun _ _ first others => List.forall_mem_cons.mpr ⟨first, others⟩)
    (List.forall_mem_nil _) (fun _ _ first others => List.forall_mem_cons.mpr ⟨first, others⟩)
    (fun _ _ value => value) value

theorem isBlank_lineBreak (depth : Nat) : IsBlank (lineBreak depth) := by
  intro c member
  rw [lineBreak, List.mem_cons, List.mem_replicate] at member
  rcases member with rfl | ⟨_, rfl⟩ <;> rfl

section Lines

variable {depth : Nat} {back : List Char}

/-- Items that are written on lines of their own, with what stands before the end of the list. -/
theorem spellsItems_pretty {items : List Json} (some : items ≠ []) (exact : AreExact items)
    (each : ∀ item ∈ items, item.IsExact → Spells item (prettyChars depth item))
    (after : IsBlank back) : SpellsItems items (prettyItems depth items ++ back) := by
  induction items with
  | nil => exact absurd rfl some
  | cons item items ih =>
      obtain ⟨here, later⟩ := List.forall_mem_cons.mp each
      have spelled := here exact.1
      cases items with
      | nil => exact .last (isBlank_lineBreak depth) spelled after
      | cons next items =>
          have further := ih (List.cons_ne_nil _ _) exact.2 later
          simpa [prettyItems] using SpellsItems.more (isBlank_lineBreak depth) spelled further

/-- Members that are written on lines of their own, with what stands before the end of the object. -/
theorem spellsMembers_pretty {members : List (String × Json)} (some : members ≠ [])
    (exact : MembersExact members)
    (each : ∀ member ∈ members, member.2.IsExact → Spells member.2 (prettyChars depth member.2))
    (after : IsBlank back) : SpellsMembers members (prettyMembers depth members ++ back) := by
  induction members with
  | nil => exact absurd rfl some
  | cons member members ih =>
      obtain ⟨name, value⟩ := member
      obtain ⟨here, later⟩ := List.forall_mem_cons.mp each
      have spelled := here exact.1
      cases members with
      | nil =>
          have last := @SpellsMembers.last name _ _ _ _ _ (isBlank_lineBreak depth) isBlank_space
            spelled after
          simpa [prettyMembers] using last
      | cons next members =>
          have further := ih (List.cons_ne_nil _ _) exact.2 later
          have more := @SpellsMembers.more name _ _ _ _ _ _ (isBlank_lineBreak depth) isBlank_space
            spelled further
          simpa [prettyMembers] using more

end Lines

/-- What is written for an exact value spells it. -/
theorem spells_pretty {value : Json} (exact : value.IsExact) (depth : Nat) :
    Spells value (prettyChars depth value) := by
  induction value using Json.induct generalizing depth with
  | null => exact .null
  | bool value => exact .bool value
  | whole n =>
      obtain ⟨n, rfl⟩ := Int.eq_ofNat_of_zero_le exact.1
      have spelled := Spells.whole (Int.ofNat_lt.mp exact.2)
      rwa [← Nat.toList_repr] at spelled
  | string text => exact .string text
  | array items ih =>
      cases items with
      | nil => exact .noItems
      | cons item items =>
          have inside := spellsItems_pretty (List.cons_ne_nil _ _) exact
            (fun item listed exact => ih item listed exact (depth + 1)) (isBlank_lineBreak depth)
          exact .array inside
  | object members ih =>
      cases members with
      | nil => exact .noMembers
      | cons member members =>
          have inside := spellsMembers_pretty (List.cons_ne_nil _ _) exact
            (fun member listed exact => ih member listed exact (depth + 1)) (isBlank_lineBreak depth)
          exact .object inside
  | real value => exact exact.elim
  | unreadable => exact exact.elim

/-- What is written for an exact value is read as this value. -/
theorem readLoosely?_pretty {value : Json} (exact : value.IsExact) :
    readLoosely? value.pretty = some value :=
  (spells_pretty exact 0).readLoosely?

end WorkspaceBuild.Json
