import WorkspaceBuild.Registrations
import WorkspaceBuild.Proofs.Json.Printed
import WorkspaceBuild.Proofs.Types.BackReferences
import WorkspaceBuild.Proofs.Types.Ordered

/-! # Descriptions of types, printed and read back

A resolved type reaches the running program as an expression. Its text spells the JSON form of the
type, so nothing is lost in printing; and the JSON form tells types apart, so two types never print
alike.
-/

namespace WorkspaceBuild

namespace ResolvedType

/-- The numbers of a description fit the 32-bit words that they are handed out in. -/
def FitsWords (t : ResolvedType) : Prop := ∀ n ∈ t.numbers ++ t.pointers, n < 2 ^ 32

instance (t : ResolvedType) : Decidable t.FitsWords :=
  inferInstanceAs (Decidable (∀ n ∈ t.numbers ++ t.pointers, n < 2 ^ 32))

section Form

theorem listToJson_eq (types : List ResolvedType) : listToJson types = types.map toJson := by
  induction types with
  | nil => rfl
  | cons t rest ih => rw [listToJson, ih, List.map_cons]

theorem fieldsToJson_eq (fields : List (String × ResolvedType)) :
    fieldsToJson fields = Assoc.mapValues fields toJson := by
  induction fields with
  | nil => rfl
  | cons field rest ih =>
      obtain ⟨name, t⟩ := field
      rw [fieldsToJson, ih]
      rfl

theorem mem_listNumbers {types : List ResolvedType} {n : Nat} :
    n ∈ listNumbers types ↔ ∃ t ∈ types, n ∈ t.numbers := by
  induction types with
  | nil => simp [listNumbers]
  | cons t rest ih => simp [listNumbers, ih]

theorem mem_listPointers {types : List ResolvedType} {n : Nat} :
    n ∈ listPointers types ↔ ∃ t ∈ types, n ∈ t.pointers := by
  induction types with
  | nil => simp [listPointers]
  | cons t rest ih => simp [listPointers, ih]

end Form

section Printable

variable {depth : Nat}

theorem isPrintable_optionalText (text : Option String) :
    Json.IsPrintable depth (optionalText text) := by
  cases text with
  | none => exact .null
  | some text => exact .string text

theorem forall_mem_memberIf {present : Bool} {name : String} {value : Json}
    (printable : value.IsPrintable depth) :
    ∀ member ∈ memberIf present name value, member.2.IsPrintable depth := by
  cases present with
  | false => exact List.forall_mem_nil _
  | true => exact List.forall_mem_singleton.mpr printable

theorem isPrintable_word {n : Nat} (fits : n < 2 ^ 32) : Json.IsPrintable depth (.whole n) :=
  .whole (fits.trans (by decide))

theorem isPrintable_list {types : List ResolvedType}
    (each : ∀ t ∈ types, t.toJson.IsPrintable depth) :
    Json.IsPrintable (depth + 1) (.array (listToJson types)) := by
  rw [listToJson_eq]
  exact .array (List.forall_mem_map.mpr each)

theorem isPrintable_fields {fields : List (String × ResolvedType)}
    (each : ∀ field ∈ fields, field.2.toJson.IsPrintable depth) :
    Json.IsPrintable (depth + 1) (.object (fieldsToJson fields)) := by
  rw [fieldsToJson_eq]
  exact .object (List.forall_mem_map.mpr each)

theorem FitsWords.list {types : List ResolvedType}
    (fits : ∀ n ∈ listNumbers types ++ listPointers types, n < 2 ^ 32) :
    ∀ t ∈ types, t.FitsWords := by
  intro t listed n named
  refine fits n (List.mem_append.mpr ?_)
  rcases List.mem_append.mp named with number | pointer
  · exact .inl (mem_listNumbers.mpr ⟨t, listed, number⟩)
  · exact .inr (mem_listPointers.mpr ⟨t, listed, pointer⟩)

theorem FitsWords.fields {fields : List (String × ResolvedType)}
    (fits : ∀ n ∈ fieldNumbers fields ++ fieldPointers fields, n < 2 ^ 32) :
    ∀ field ∈ fields, field.2.FitsWords := by
  intro field listed n named
  refine fits n (List.mem_append.mpr ?_)
  rcases List.mem_append.mp named with number | pointer
  · exact .inl (mem_fieldNumbers.mpr ⟨field, listed, number⟩)
  · exact .inr (mem_fieldPointers.mpr ⟨field, listed, pointer⟩)

/-- Each level of a description is an object with a list or object inside. -/
theorem IsOrdered.isPrintable {levels : Nat} {t : ResolvedType} (ordered : t.IsOrdered levels)
    (fits : t.FitsWords) : t.toJson.IsPrintable (2 * levels + 2) := by
  induction ordered with
  | literal _ ih =>
      have inside := isPrintable_list fun t listed => ih t listed (FitsWords.list fits t listed)
      refine .object ?_
      simp only [List.forall_mem_append, List.forall_mem_cons]
      exact ⟨⟨⟨.string _, .string _, List.forall_mem_nil _⟩,
        forall_mem_memberIf (isPrintable_optionalText _)⟩, forall_mem_memberIf inside⟩
  | managed _ ih =>
      obtain ⟨own, others⟩ := List.forall_mem_cons.mp fits
      have inside := isPrintable_list fun t listed => ih t listed (FitsWords.list others t listed)
      refine .object ?_
      simp only [List.forall_mem_append, List.forall_mem_cons]
      exact ⟨⟨⟨.string _, .string _, isPrintable_optionalText _, List.forall_mem_nil _⟩,
        forall_mem_memberIf inside⟩, isPrintable_word own, List.forall_mem_nil _⟩
  | shape _ _ ih =>
      obtain ⟨own, others⟩ := List.forall_mem_cons.mp fits
      have inside := isPrintable_fields fun field listed =>
        ih field listed (FitsWords.fields others field listed)
      refine .object ?_
      simp only [List.forall_mem_cons]
      exact ⟨.string _, isPrintable_optionalText _, inside, .bool _, isPrintable_word own,
        List.forall_mem_nil _⟩
  | composition _ ih =>
      have inside := isPrintable_list fun t listed => ih t listed (FitsWords.list fits t listed)
      refine .object ?_
      simp only [List.forall_mem_append, List.forall_mem_cons]
      exact ⟨⟨.string _, .string _, inside, .bool _, .bool _, List.forall_mem_nil _⟩,
        forall_mem_memberIf (isPrintable_optionalText _)⟩
  | tuple _ ih =>
      have inside := isPrintable_list fun t listed => ih t listed (FitsWords.list fits t listed)
      refine .object ?_
      simp only [List.forall_mem_cons]
      exact ⟨.string _, inside, .bool _, List.forall_mem_nil _⟩
  | template =>
      refine .object ?_
      simp only [List.forall_mem_cons]
      exact ⟨.string _, .array (List.forall_mem_map.mpr fun text _ => .string text),
        List.forall_mem_nil _⟩
  | foreign =>
      refine .object ?_
      simp only [List.forall_mem_cons]
      exact ⟨.string _, .string _, .string _, List.forall_mem_nil _⟩
  | pointer =>
      refine .object ?_
      simp only [List.forall_mem_cons]
      exact ⟨.string _, isPrintable_word (fits _ List.mem_cons_self), isPrintable_optionalText _,
        List.forall_mem_nil _⟩
  | unknown => exact .object (List.forall_mem_singleton.mpr (.string _))

end Printable

section Parts

/-- The member of a type's settled form under a name. -/
def part (t : ResolvedType) (name : String) : Option Json :=
  (t.toJson.member? name).map Json.settled

/-- No member of a type's form is named twice. -/
theorem toJson_eq_object (t : ResolvedType) :
    ∃ members, t.toJson = .object members ∧ (Assoc.keys members).Nodup := by
  cases t with
  | literal name value arguments =>
      refine ⟨_, rfl, ?_⟩
      cases value <;> cases arguments <;> simp [memberIf]
  | managed name moduleId arguments refId =>
      refine ⟨_, rfl, ?_⟩
      cases arguments <;> simp [memberIf]
  | composition operator subTypes nullable optional commonType =>
      refine ⟨_, rfl, ?_⟩
      cases commonType <;> simp [memberIf]
  | _ => exact ⟨_, rfl, by simp⟩

theorem part_eq (t : ResolvedType) (name : String) :
    t.part name = t.toJson.settled.member? name := by
  obtain ⟨members, form, distinct⟩ := t.toJson_eq_object
  have settledKeys : (Assoc.keys (Json.settledMembers members)).Nodup := by
    rwa [Json.settledMembers_eq, Assoc.keys_mapValues]
  have found := Assoc.get?_ofPairs_of_nodup settledKeys name
  rw [Json.settledMembers_eq, Assoc.get?_mapValues] at found
  rw [part, form, Json.settled, Json.settledMembers_eq]
  exact found.symm

theorem lookup_memberIf (present : Bool) (name key : String) (value : Json) :
    (memberIf present name value).lookup key =
      if present ∧ key = name then some value else none := by
  cases present with
  | false => simp [memberIf]
  | true =>
      rw [memberIf, if_pos rfl, List.lookup_cons]
      by_cases same : key = name
      · simp [same]
      · simp [same, beq_eq_false_iff_ne.mpr same]

/-- What the form of a type says of its sort. -/
def kind : ResolvedType → String
  | .literal .. => "literal"
  | .managed .. => "managed"
  | .shape .. => "shape"
  | .composition .. => "composition"
  | .tuple .. => "tuple"
  | .template .. => "template"
  | .foreign .. => "foreign"
  | .pointer .. => "pointer"
  | .unknown => "unknown"

theorem part_kind (t : ResolvedType) : t.part "kind" = some (.string t.kind) := by
  cases t <;> simp [part, toJson, Json.member?, Json.settled, kind]

/-- Types of one settled form are of one sort, and have the same parts. -/
theorem alike {t other : ResolvedType} (same : t.toJson.settled = other.toJson.settled) :
    t.kind = other.kind ∧ ∀ name, t.part name = other.part name := by
  have parts (name : String) : t.part name = other.part name := by
    rw [part_eq, part_eq, same]
  have sorts := parts "kind"
  rw [part_kind, part_kind] at sorts
  exact ⟨Json.string.inj (Option.some.inj sorts), parts⟩

end Parts

section Injective

/-- A map that tells the elements of two lists apart tells the lists apart. -/
theorem eq_of_map_eq {α β : Type} {f : α → β} {xs ys : List α}
    (each : ∀ x ∈ xs, ∀ y ∈ ys, f x = f y → x = y) (same : xs.map f = ys.map f) : xs = ys := by
  induction xs generalizing ys with
  | nil => exact (List.map_eq_nil_iff.mp same.symm).symm
  | cons x rest ih =>
      cases ys with
      | nil => cases same
      | cons y more =>
          obtain ⟨first, later⟩ := List.cons.inj same
          rw [each x List.mem_cons_self y List.mem_cons_self first]
          congr 1
          exact ih (fun x listed y among => each x (List.mem_cons_of_mem _ listed) y
            (List.mem_cons_of_mem _ among)) later

theorem optionalText_injective {text other : Option String}
    (same : (optionalText text).settled = (optionalText other).settled) : text = other := by
  cases text <;> cases other <;> simp_all [optionalText, Json.settled]

theorem Operator.name_injective {operator other : Operator} (same : operator.name = other.name) :
    operator = other := by
  cases operator <;> cases other <;> simp_all [Operator.name]

theorem list_injective {types others : List ResolvedType}
    (each : ∀ t ∈ types, ∀ other ∈ others, t.toJson.settled = other.toJson.settled → t = other)
    (same : Json.settledItems (listToJson types) = Json.settledItems (listToJson others)) :
    types = others := by
  simp only [Json.settledItems_eq, listToJson_eq, List.map_map] at same
  exact eq_of_map_eq each same

/-- A list that is left out when it is empty. -/
theorem arguments_injective {types others : List ResolvedType}
    (each : ∀ t ∈ types, ∀ other ∈ others, t.toJson.settled = other.toJson.settled → t = other)
    (same : (if types = [] then none else some (Json.array (listToJson types))).map Json.settled =
      (if others = [] then none else some (Json.array (listToJson others))).map Json.settled) :
    types = others := by
  by_cases none : types = [] <;> by_cases noOthers : others = []
  · rw [none, noOthers]
  · simp [none, noOthers] at same
  · simp [none, noOthers] at same
  · rw [if_neg none, if_neg noOthers] at same
    exact list_injective each (Json.array.inj (Option.some.inj same))

/-- A text that is left out when there is none. -/
theorem text_injective {text other : Option String}
    (same : (if text.isSome then some (optionalText text).settled else none) =
      if other.isSome then some (optionalText other).settled else none) : text = other := by
  cases text <;> cases other <;> simp_all [optionalText, Json.settled]

/-- Fields that ascend by name are not put in another order. -/
theorem ofPairs_fields {fields : List (String × ResolvedType)}
    (ascending : IsAscending (Assoc.keys fields)) :
    Assoc.ofPairs (Json.settledMembers (fieldsToJson fields)) =
      Assoc.mapValues fields fun t => t.toJson.settled := by
  have kept : IsAscending (Assoc.keys (Assoc.mapValues fields fun t => t.toJson.settled)) := by
    rwa [Assoc.keys_mapValues]
  rw [Json.settledMembers_eq, fieldsToJson_eq]
  refine Assoc.ofPairs_eq_of_mem kept fun pair => ?_
  simp [Assoc.mapValues]

theorem fields_injective {fields others : List (String × ResolvedType)}
    (ascending : IsAscending (Assoc.keys fields)) (alsoAscending : IsAscending (Assoc.keys others))
    (each : ∀ field ∈ fields, ∀ other ∈ others,
      field.2.toJson.settled = other.2.toJson.settled → field.2 = other.2)
    (same : Assoc.ofPairs (Json.settledMembers (fieldsToJson fields)) =
      Assoc.ofPairs (Json.settledMembers (fieldsToJson others))) : fields = others := by
  rw [ofPairs_fields ascending, ofPairs_fields alsoAscending] at same
  refine eq_of_map_eq (fun field listed other among alike => ?_) same
  obtain ⟨named, typed⟩ := Prod.mk.inj alike
  exact Prod.ext named (each field listed other among typed)

/-- The JSON form of a description tells it from all others. -/
theorem IsOrdered.toJson_injective {levels more : Nat} {t other : ResolvedType}
    (ordered : t.IsOrdered levels) (alsoOrdered : other.IsOrdered more)
    (same : t.toJson.settled = other.toJson.settled) : t = other := by
  induction ordered generalizing more other with
  | literal all ih =>
      obtain ⟨sort, parts⟩ := alike same
      cases alsoOrdered with
      | literal alsoAll =>
          have named := parts "name"
          have valued := parts "value"
          have listed := parts "typeArguments"
          simp [part, toJson, Json.member?, List.lookup_cons, List.lookup_append, lookup_memberIf,
            Json.settled] at named valued listed
          rw [named, text_injective valued,
            arguments_injective (fun t listed other among => ih t listed (alsoAll other among)) listed]
      | _ => simp [kind] at sort
  | managed all ih =>
      obtain ⟨sort, parts⟩ := alike same
      cases alsoOrdered with
      | managed alsoAll =>
          have named := parts "name"
          have owned := parts "module"
          have listed := parts "typeArguments"
          have numbered := parts "refId"
          simp [part, toJson, Json.member?, List.lookup_cons, List.lookup_append, lookup_memberIf,
            Json.settled] at named owned listed numbered
          rw [named, optionalText_injective owned, numbered,
            arguments_injective (fun t listed other among => ih t listed (alsoAll other among)) listed]
      | _ => simp [kind] at sort
  | shape ascending all ih =>
      obtain ⟨sort, parts⟩ := alike same
      cases alsoOrdered with
      | shape alsoAscending alsoAll =>
          have named := parts "name"
          have listed := parts "fieldTypes"
          have marked := parts "mapped"
          have numbered := parts "refId"
          simp [part, toJson, Json.member?, List.lookup_cons, Json.settled] at named listed marked numbered
          rw [optionalText_injective named, marked, numbered,
            fields_injective ascending alsoAscending
              (fun field listed other among => ih field listed (alsoAll other among)) listed]
      | _ => simp [kind] at sort
  | composition all ih =>
      obtain ⟨sort, parts⟩ := alike same
      cases alsoOrdered with
      | composition alsoAll =>
          have joined := parts "operator"
          have listed := parts "subTypes"
          have nullable := parts "nullable"
          have optional := parts "optional"
          have common := parts "commonType"
          simp [part, toJson, Json.member?, List.lookup_cons, lookup_memberIf, Json.settled]
            at joined listed nullable optional common
          rw [Operator.name_injective joined, nullable, optional, text_injective common,
            list_injective (fun t listed other among => ih t listed (alsoAll other among)) listed]
      | _ => simp [kind] at sort
  | tuple all ih =>
      obtain ⟨sort, parts⟩ := alike same
      cases alsoOrdered with
      | tuple alsoAll =>
          have listed := parts "elementTypes"
          have marked := parts "array"
          simp [part, toJson, Json.member?, List.lookup_cons, Json.settled] at listed marked
          rw [marked,
            list_injective (fun t listed other among => ih t listed (alsoAll other among)) listed]
      | _ => simp [kind] at sort
  | template =>
      obtain ⟨sort, parts⟩ := alike same
      cases alsoOrdered with
      | template =>
          have listed := parts "patterns"
          simp [part, toJson, Json.member?, List.lookup_cons, Json.settled, Json.settledItems_eq] at listed
          rw [eq_of_map_eq (fun pattern _ other _ same => Json.string.inj same) listed]
      | _ => simp [kind] at sort
  | foreign =>
      obtain ⟨sort, parts⟩ := alike same
      cases alsoOrdered with
      | foreign =>
          have named := parts "name"
          have filed := parts "file"
          simp [part, toJson, Json.member?, List.lookup_cons, Json.settled] at named filed
          exact congrArg₂ ResolvedType.foreign named (congrArg Path.mk filed)
      | _ => simp [kind] at sort
  | pointer =>
      obtain ⟨sort, parts⟩ := alike same
      cases alsoOrdered with
      | pointer =>
          have numbered := parts "refId"
          have named := parts "name"
          simp [part, toJson, Json.member?, List.lookup_cons, Json.settled] at numbered named
          rw [numbered, optionalText_injective named]
      | _ => simp [kind] at sort
  | unknown =>
      obtain ⟨sort, _⟩ := alike same
      cases alsoOrdered with
      | unknown => rfl
      | _ => simp [kind] at sort

end Injective

end ResolvedType

namespace Registrations

/-- The text that describes the type of a field: the last argument of the call made for it. -/
def description? (owner : String) (decl : PropertyDecl) (type : ResolvedType) : Option String :=
  (fieldArgs owner decl type)[2]?.map Expr.text

theorem description?_eq (owner : String) (decl : PropertyDecl) (type : ResolvedType) :
    description? owner decl type = some (Expr.ofJson type.toJson.settled).text := rfl

end Registrations

namespace TypeResolver

open Registrations

/-- The form of a resolved type is not too deep to be read, whatever is left out in settling it. -/
theorem isPrintable_of_resolve {scope : Scope} {id : TypeId} {t : ResolvedType}
    (resolved : resolve scope id = .ok t) (fits : t.FitsWords) :
    t.toJson.settled.IsPrintable Json.maxDepth := by
  have bounded := (isOrdered_of_resolve resolved).isPrintable fits
  exact (bounded.mono (by decide)).settled

/-- The description of a field is a text from which the form of its type is read back, and no other
type that is resolved has the same description. -/
theorem resolve_readsBack {scope : Scope} {id : TypeId} {t : ResolvedType}
    (resolved : resolve scope id = .ok t) (fits : t.FitsWords) :
    (∀ owner decl, (description? owner decl t).bind Json.read? = some t.toJson.settled) ∧
      ∀ otherScope otherId other, resolve otherScope otherId = .ok other → other.FitsWords →
        ∀ owner decl otherOwner otherDecl,
          description? owner decl t = description? otherOwner otherDecl other → t = other := by
  have reads := (isPrintable_of_resolve resolved fits).read?
  refine ⟨fun owner decl => ?_, ?_⟩
  · rw [description?_eq, Option.bind_some, reads]
  · intro otherScope otherId other alsoResolved alsoFits owner decl otherOwner otherDecl same
    have alsoReads := (isPrintable_of_resolve alsoResolved alsoFits).read?
    rw [description?_eq, description?_eq, Option.some_inj] at same
    rw [same, alsoReads] at reads
    exact (isOrdered_of_resolve resolved).toJson_injective (isOrdered_of_resolve alsoResolved)
      (Option.some.inj reads).symm

/-- A type that refers to itself, with quotes, a backslash and a line break in its names, and the
pair of it with itself. -/
def quotedScope : Scope where
  types :=
    [.interface "say \"x\"" ⟨⟨"/ws/src/say.ts"⟩, false, false⟩ [⟨"a\\b", 0⟩, ⟨"\n", 1⟩],
      .intrinsic TypeFlag.string "string", .tuple [0, 0]]
  references := .none

theorem resolve_readsBack_quoted : ∃ t other, resolve quotedScope 2 = .ok t ∧ t.FitsWords ∧
    resolve quotedScope 0 = .ok other ∧ other.FitsWords ∧ ∀ owner decl,
      (description? owner decl t).bind Json.read? = some t.toJson.settled ∧
        description? owner decl t ≠ description? owner decl other := by
  have resolved : resolve quotedScope 0 = .ok (.shape (some "say \"x\"")
      [("\n", .literal "string" none []), ("a\\b", .pointer 0 (some "say \"x\""))] false 0) := rfl
  have paired : resolve quotedScope 2 = .ok (.tuple
      [.shape (some "say \"x\"")
        [("\n", .literal "string" none []), ("a\\b", .pointer 0 (some "say \"x\""))] false 0,
        .pointer 0 (some "say \"x\"")] false) := rfl
  have reads := resolve_readsBack paired (by decide)
  refine ⟨_, _, paired, by decide, resolved, by decide, fun owner decl => ⟨reads.1 owner decl, ?_⟩⟩
  intro same
  cases reads.2 _ _ _ resolved (by decide) owner decl owner decl same

end TypeResolver

end WorkspaceBuild
