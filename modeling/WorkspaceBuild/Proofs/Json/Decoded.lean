import WorkspaceBuild.Json.Decode
import WorkspaceBuild.Proofs.Assoc
import WorkspaceBuild.Proofs.Json.Written

/-! # Decoding what was read back

A structure is decoded by the names of its members, so that their order does not count: it is
decoded as it was written, although objects are settled in between.
-/

namespace WorkspaceBuild.Json

/-- All of a value is read back from its text, with at most so many lists and objects around each
part. -/
structure IsKept (depth : Nat) (value : Json) : Prop where
  exact : value.IsExact
  readable : value.isReadable depth = true

section Kept

variable {depth : Nat}

theorem areExact_iff {items : List Json} : AreExact items ↔ ∀ item ∈ items, IsExact item := by
  induction items with
  | nil => simp [AreExact]
  | cons item rest ih => simp [AreExact, ih]

theorem membersExact_iff {members : List (String × Json)} :
    MembersExact members ↔ ∀ member ∈ members, IsExact member.2 := by
  induction members with
  | nil => simp [MembersExact]
  | cons member rest ih => simp [MembersExact, ih]

theorem areReadable_iff {items : List Json} :
    areReadable depth items = true ↔ ∀ item ∈ items, isReadable depth item = true := by
  induction items with
  | nil => simp [areReadable]
  | cons item rest ih => simp [areReadable, ih]

theorem membersReadable_iff {members : List (String × Json)} :
    membersReadable depth members = true ↔ ∀ member ∈ members, isReadable depth member.2 = true := by
  induction members with
  | nil => simp [membersReadable]
  | cons member rest ih => simp [membersReadable, ih]

theorem isKept_string (text : String) : IsKept depth (.string text) := ⟨trivial, rfl⟩

theorem isKept_bool (value : Bool) : IsKept depth (.bool value) := ⟨trivial, rfl⟩

theorem isKept_whole {n : Nat} (fits : n < Double.pow2 64) : IsKept depth (.whole n) :=
  ⟨⟨Int.natCast_nonneg n, Int.ofNat_lt.mpr fits⟩, rfl⟩

theorem isKept_array {items : List Json} (all : ∀ item ∈ items, IsKept depth item) :
    IsKept (depth + 1) (.array items) :=
  ⟨areExact_iff.mpr fun item listed => (all item listed).exact,
    areReadable_iff.mpr fun item listed => (all item listed).readable⟩

theorem isKept_object {members : List (String × Json)}
    (all : ∀ member ∈ members, IsKept depth member.2) : IsKept (depth + 1) (.object members) :=
  ⟨membersExact_iff.mpr fun member listed => (all member listed).exact,
    membersReadable_iff.mpr fun member listed => (all member listed).readable⟩

theorem IsKept.read? {value : Json} (kept : IsKept maxDepth value) :
    Json.read? value.pretty = some value := by
  rw [Json.read?, readLoosely?_pretty kept.exact, Option.filter_some, if_pos kept.readable]

end Kept

section Settled

theorem settledItems_eq (items : List Json) : settledItems items = items.map settled := by
  induction items with
  | nil => rfl
  | cons item rest ih => rw [settledItems, ih, List.map_cons]

theorem settledMembers_eq (members : List (String × Json)) :
    settledMembers members = Assoc.mapValues members settled := by
  induction members with
  | nil => rfl
  | cons member rest ih =>
      obtain ⟨name, value⟩ := member
      rw [settledMembers, ih]
      rfl

variable {members : List (String × Json)}

/-- Where names differ, a member is looked up by its name. -/
theorem pick?_eq (distinct : (Assoc.keys members).Nodup) (rule : String × Presence) :
    pick? members rule =
      match Assoc.get? members rule.1 with
      | some value => some (some value)
      | none => if rule.2 = .required then none else some none := by
  have found : members.filter (·.1 = rule.1) =
      ((Assoc.get? members rule.1).map fun value => (rule.1, value)).toList := by
    induction members with
    | nil => rfl
    | cons member rest ih =>
        obtain ⟨name, value⟩ := member
        obtain ⟨fresh, others⟩ := List.nodup_cons.mp distinct
        rw [Assoc.get?_cons]
        by_cases same : name = rule.1
        · subst same
          have none : Assoc.get? rest rule.1 = none := Assoc.get?_eq_none_iff.mpr fresh
          simp [ih others, none]
        · simp [same, Ne.symm same, ih others]
  rw [pick?, found]
  cases Assoc.get? members rule.1 <;> rfl

/-- A structure has the same members when its object is settled. -/
theorem fields?_settled (distinct : (Assoc.keys members).Nodup) (rules : List (String × Presence)) :
    fields? rules (settled (.object members)) =
      (fields? rules (.object members)).map (List.map (Option.map settled)) := by
  have picked (rule : String × Presence) :
      pick? (Assoc.ofPairs (settledMembers members)) rule =
        (pick? members rule).map (Option.map settled) := by
    have alsoDistinct : (Assoc.keys (settledMembers members)).Nodup := by
      rwa [settledMembers_eq, Assoc.keys_mapValues]
    rw [pick?_eq (Assoc.isAscending_ofPairs _).nodup, pick?_eq distinct,
      Assoc.get?_ofPairs_of_nodup alsoDistinct, settledMembers_eq, Assoc.get?_mapValues]
    cases Assoc.get? members rule.1 with
    | some value => rfl
    | none => by_cases required : rule.2 = .required <;> simp [required]
  rw [settled, fields?, fields?]
  induction rules with
  | nil => rfl
  | cons rule rest ih =>
      rw [List.mapM_cons, List.mapM_cons, picked, ih]
      cases pick? members rule with
      | none => rfl
      | some first => cases rest.mapM (pick? members) <;> rfl

end Settled

end WorkspaceBuild.Json
