import WorkspaceBuild.Manifest.Json
import WorkspaceBuild.Proofs.Json.Decoded

/-! # The version of a manifest

Only manifests of one version of the format are decoded. The version that a text states is compared by
its low 32 bits, so the gate also lets through each whole number of 64 bits that ends in those of that
version. None of these is decoded after that.
-/

namespace WorkspaceBuild

namespace Json

/-- The member of a name that counts: of several in one object the last. -/
def lastMember? (name : String) : Json → Option Json
  | .object members => members.reverse.lookup name
  | _ => none

theorem member?_settled (name : String) (value : Json) :
    value.settled.member? name = (value.lastMember? name).map settled := by
  cases value with
  | object members =>
      calc (Assoc.ofPairs (settledMembers members)).get? name
          = Assoc.get? (Assoc.mapValues members.reverse settled) name := by
            rw [Assoc.get?_ofPairs, settledMembers_eq, Assoc.mapValues, Assoc.mapValues,
              List.map_reverse]
        _ = (members.reverse.lookup name).map settled := Assoc.get?_mapValues ..
  | null | bool | whole | real | string | array | unreadable => rfl

/-- A whole number is settled as it stands. -/
theorem settled_eq_whole_iff {value : Json} {n : Int} : value.settled = .whole n ↔ value = .whole n := by
  cases value <;> simp [settled]

theorem ofDouble_ne_whole (value : Double) (n : Int) : ofDouble value ≠ .whole n := by
  unfold ofDouble
  split <;> simp

/-- A number without a sign stays a whole number as long as it fits 64 bits. -/
theorem ofWhole_eq_whole_iff {n m : Nat} :
    ofWhole false n = .whole m ↔ n = m ∧ n < Double.pow2 64 := by
  rw [ofWhole, if_neg Bool.false_ne_true]
  split
  · rename_i fits
    rw [whole.injEq, Int.natCast_inj]
    exact (and_iff_left fits).symm
  · rename_i wide
    exact iff_of_false (ofDouble_ne_whole _ _) fun same => wide same.2

theorem natBelow?_eq_some {limit n m : Nat} (bounded : natBelow? limit (.whole n) = some m) :
    m = n ∧ n < limit := by
  change (if n < limit then some n else none) = some m at bounded
  split at bounded
  · rename_i small
    cases bounded
    exact ⟨rfl, small⟩
  · cases bounded

theorem read?_eq_some_iff {text : String} {value : Json} :
    read? text = some value ↔ readLoosely? text = some value ∧ value.isReadable maxDepth = true := by
  rw [read?, Option.filter_eq_some_iff]

end Json

namespace Manifest

variable {text : String} {value : Json}

/-- The version that a value states as a whole number. -/
def States (value : Json) (n : Nat) : Prop := value.lastMember? "version" = some (.whole n)

theorem States.unique {n m : Nat} (first : States value n) (second : States value m) : n = m := by
  cases first.symm.trans second
  rfl

theorem states_iff {n : Nat} : States value n ↔ value.settled.member? "version" = some (.whole n) := by
  rw [Json.member?_settled, Option.map_eq_some_iff, States]
  constructor
  · intro stated
    exact ⟨_, stated, rfl⟩
  · rintro ⟨version, stated, whole⟩
    rwa [Json.settled_eq_whole_iff.mp whole] at stated

theorem statedVersion_settled {n : Nat} (stated : States value n) :
    statedVersion value.settled = n % versionLimit := by
  rw [statedVersion, states_iff.mp stated]

theorem statedVersion_settled_of_not (unstated : ∀ n, ¬ States value n) :
    statedVersion value.settled = 0 := by
  unfold statedVersion
  split
  · rename_i n stated
    exact absurd (states_iff.mpr stated) (unstated n)
  · rfl

/-- The gate opens for numbers with the low bits of the current version. -/
theorem statedVersion_settled_eq_iff :
    statedVersion value.settled = currentVersion ↔
      ∃ n, States value n ∧ n % versionLimit = currentVersion := by
  constructor
  · intro current
    by_cases stated : ∃ n, States value n
    · obtain ⟨n, stated⟩ := stated
      exact ⟨n, stated, by rw [← statedVersion_settled stated, current]⟩
    · rw [statedVersion_settled_of_not fun n states => stated ⟨n, states⟩] at current
      cases current
  · rintro ⟨n, stated, low⟩
    rw [statedVersion_settled stated, low]

/-- The first member that is decoded is the version. -/
theorem exists_version_of_ofJson? {m : Manifest} (decoded : ofJson? value = some m) :
    ∃ rules version fields,
      Json.fields? (("version", .required) :: rules) value = some (some version :: fields) ∧
        Json.natBelow? versionLimit version = some m.version := by
  simp only [ofJson?, bind, Option.bind_eq_some_iff] at decoded
  obtain ⟨fields, found, decoded⟩ := decoded
  split at decoded
  · simp only [Option.bind_eq_some_iff] at decoded
    obtain ⟨_, bounded, _, _, _, _, _, _, _, _, _, _, same⟩ := decoded
    cases same
    exact ⟨_, _, _, found, bounded⟩
  · cases decoded

/-- What is decoded states its version in full. -/
theorem states_of_ofJson? {m : Manifest} (decoded : ofJson? value.settled = some m)
    (gated : statedVersion value.settled = currentVersion) :
    States value currentVersion ∧ m.version = currentVersion := by
  obtain ⟨n, stated, low⟩ := statedVersion_settled_eq_iff.mp gated
  have counted := states_iff.mp stated
  obtain ⟨rules, version, fields, found, bounded⟩ := exists_version_of_ofJson? decoded
  cases value with
  | object members =>
      have picked : Json.pick? (Assoc.ofPairs (Json.settledMembers members)) ("version", .required) =
          some (some (.whole n)) := by
        rw [Json.pick?_eq (Assoc.isAscending_ofPairs _).nodup]
        simp only [show Assoc.get? _ "version" = some (Json.whole n) from counted]
      rw [Json.settled, Json.fields?, List.mapM_cons, picked] at found
      simp only [bind, Option.bind_eq_some_iff] at found
      obtain ⟨_, first, _, -, same⟩ := found
      cases first
      cases same
      obtain ⟨same, small⟩ := Json.natBelow?_eq_some bounded
      rw [Nat.mod_eq_of_lt small] at low
      exact ⟨low ▸ stated, same.trans low⟩
  | null | bool | whole | real | string | array | unreadable => cases counted

section Gate

variable (spelled : Json.readLoosely? text = some value)

include spelled

theorem ofText_of_not_isReadable (unreadable : ¬ value.isReadable Json.maxDepth = true) :
    ofText text = .error .undecodable := by
  have nothing : Json.read? text = none := by
    rw [Json.read?, spelled, Option.filter_some, if_neg unreadable]
  rw [ofText, nothing]

theorem ofText_of_isReadable (readable : value.isReadable Json.maxDepth = true) :
    ofText text =
      if statedVersion value.settled = currentVersion then
        match ofJson? value.settled with
        | some manifest => .ok manifest
        | none => .error .undecodable
      else .error (.incompatible (statedVersion value.settled)) := by
  have read : Json.read? text = some value := Json.read?_eq_some_iff.mpr ⟨spelled, readable⟩
  unfold ofText
  split
  · rename_i nothing
    cases nothing.symm.trans read
  · rename_i found
    cases found.symm.trans read
    rfl

theorem exists_incompatible_iff :
    (∃ found, ofText text = .error (.incompatible found)) ↔
      value.isReadable Json.maxDepth = true ∧
        ∀ n, States value n → n % versionLimit ≠ currentVersion := by
  by_cases readable : value.isReadable Json.maxDepth = true
  · rw [ofText_of_isReadable spelled readable]
    split
    · rename_i current
      obtain ⟨n, stated, low⟩ := statedVersion_settled_eq_iff.mp current
      refine iff_of_false ?_ fun refused => refused.2 n stated low
      rintro ⟨found, refused⟩
      split at refused <;> cases refused
    · rename_i other
      refine iff_of_true ⟨_, rfl⟩ ⟨readable, fun n stated low => ?_⟩
      exact other (statedVersion_settled_eq_iff.mpr ⟨n, stated, low⟩)
  · rw [ofText_of_not_isReadable spelled readable]
    refine iff_of_false ?_ fun refused => readable refused.1
    rintro ⟨found, refused⟩
    cases refused

/-- A manifest that is taken is of the current version, and its text says so in full. -/
theorem states_of_ofText {m : Manifest} (taken : ofText text = .ok m) :
    States value currentVersion ∧ m.version = currentVersion := by
  by_cases readable : value.isReadable Json.maxDepth = true
  · rw [ofText_of_isReadable spelled readable] at taken
    split at taken
    · rename_i current
      split at taken <;> cases taken
      rename_i decoded
      exact states_of_ofJson? decoded current
    · cases taken
  · rw [ofText_of_not_isReadable spelled readable] at taken
    cases taken

end Gate

/-- A text that spells a value is refused for its version just when the value can be read and states
no number whose low 32 bits are those of the current version. So a version in digits other than the
current one is refused as such, however long, unless it fits 64 bits and ends in these; then the text
is refused as one that cannot be decoded. Only a text that states the current version in full is
taken. -/
theorem gates_lowBits (spelled : Json.readLoosely? text = some value) :
    ((∃ found, ofText text = .error (.incompatible found)) ↔
        value.isReadable Json.maxDepth = true ∧
          ¬ ∃ n : Nat, value.lastMember? "version" = some (.whole n) ∧ n % versionLimit = 1) ∧
      (∀ n, n ≠ 1 → value.isReadable Json.maxDepth = true →
        value.lastMember? "version" = some (Json.ofWhole false n) →
          if n < wordLimit ∧ n % versionLimit = 1 then ofText text = .error .undecodable
          else ∃ found, ofText text = .error (.incompatible found)) ∧
      ∀ m, ofText text = .ok m →
        value.lastMember? "version" = some (.whole 1) ∧ m.version = 1 := by
  have refused := exists_incompatible_iff spelled
  refine ⟨?_, ?_, fun m taken => states_of_ofText spelled taken⟩
  · rw [refused, not_exists]
    simp only [not_and]
    exact Iff.rfl
  intro n other readable stated
  split
  · rename_i low
    have states : States value n :=
      stated.trans (congrArg some (Json.ofWhole_eq_whole_iff.mpr ⟨rfl, low.1⟩))
    have gated := statedVersion_settled_eq_iff.mpr ⟨n, states, low.2⟩
    rw [ofText_of_isReadable spelled readable, if_pos gated]
    split
    · rename_i decoded
      exact absurd (states.unique (states_of_ofJson? decoded gated).1) other
    · rfl
  · rename_i high
    refine refused.mpr ⟨readable, fun m states low => high ?_⟩
    obtain ⟨rfl, fits⟩ := Json.ofWhole_eq_whole_iff.mp (Option.some.inj (stated.symm.trans states))
    exact ⟨fits, low⟩

/-- A version of 33 bits, the low 32 of which are those of 1. -/
theorem gates_lowBits_wide :
    Json.readLoosely? "\x7b\"version\": 4294967297\x7d" =
        some (.object [("version", .whole 4294967297)]) ∧
      (4294967297 : Nat) ≠ 1 ∧
      ofText "\x7b\"version\": 4294967297\x7d" = .error .undecodable := by
  have spells : Json.Spells (.object [("version", .whole (4294967297 : Nat))]) _ :=
    .object (.last Json.isBlank_nil Json.isBlank_space (.whole (by decide)) Json.isBlank_nil)
  have spelled : Json.readLoosely? "\x7b\"version\": 4294967297\x7d" = _ := spells.readLoosely?
  have refused := (gates_lowBits spelled).2.1 4294967297 (by decide) rfl rfl
  rw [if_pos (by decide)] at refused
  exact ⟨spelled, by decide, refused⟩

end Manifest

end WorkspaceBuild
