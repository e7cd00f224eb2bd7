import Mathlib.Data.List.Infix
import WorkspaceBuild.Proofs.Looks.Listings

/-! # Categories of files with one stem

Files that differ in their extensions stand in one folder, and mostly in one category. Where they do
not, the one without an extension stands in the earlier category, unless it is the descriptor of the
module.
-/

namespace WorkspaceBuild

namespace Text

theorem dropStart?_eq_some_iff {text start rest : String} :
    dropStart? text start = some rest ↔ text = start ++ rest := by
  constructor
  · intro dropped
    obtain ⟨chars, found, rfl⟩ := Option.map_eq_some_iff.mp dropped
    rw [← String.toList_inj, eq_of_dropStartChars? found]
    simp
  · rintro rfl
    simp [dropStart?, dropStartChars?_append]

theorem beginsWith_iff {text start : String} :
    beginsWith text start = true ↔ ∃ rest, text = start ++ rest :=
  ⟨exists_of_beginsWith, fun ⟨rest, same⟩ => same ▸ beginsWith_append start rest⟩

theorem beginsWith_append_right {text start : String} (begins : beginsWith text start = true)
    (more : String) : beginsWith (text ++ more) start = true := by
  obtain ⟨rest, rfl⟩ := beginsWith_iff.mp begins
  exact beginsWith_iff.mpr ⟨rest ++ more, String.append_assoc⟩

/-- A beginning reaches into the end of a text, or lies before it. -/
theorem append_eq_append_cases {text more start rest : String} (same : text ++ more = start ++ rest) :
    (∃ between, text = start ++ between ∧ rest = between ++ more) ∨
      ∃ between, between ≠ "" ∧ start = text ++ between ∧ more = between ++ rest := by
  have chars := congrArg String.toList same
  rw [String.toList_append, String.toList_append] at chars
  rcases List.append_eq_append_iff.mp chars with ⟨inner, whole, left⟩ | ⟨inner, whole, left⟩
  · by_cases none : inner = []
    · subst none
      refine .inl ⟨"", ?_, ?_⟩
      · rw [← String.toList_inj]
        simpa using whole.symm
      · rw [← String.toList_inj]
        simpa using left.symm
    · refine .inr ⟨String.ofList inner, by simpa [← String.toList_inj] using none, ?_, ?_⟩
      · rw [← String.toList_inj]
        simpa using whole
      · rw [← String.toList_inj]
        simpa using left
  · refine .inl ⟨String.ofList inner, ?_, ?_⟩
    · rw [← String.toList_inj]
      simpa using whole
    · rw [← String.toList_inj]
      simpa using left

/-- What ends in a slash does not reach into an ending without one. -/
theorem beginsWith_append_iff {text more start : String} (plain : '/' ∉ more.toList) :
    beginsWith (text ++ more) (start ++ "/") = true ↔ beginsWith text (start ++ "/") = true := by
  refine ⟨fun begins => ?_, fun begins => beginsWith_append_right begins more⟩
  obtain ⟨rest, same⟩ := beginsWith_iff.mp begins
  rcases append_eq_append_cases same with ⟨between, split, _⟩ | ⟨between, some, split, inside⟩
  · exact beginsWith_iff.mpr ⟨between, split⟩
  · have slash : '/' ∈ between.toList := by
      have nonempty : between.toList ≠ [] := fun empty => some (String.toList_inj.mp empty)
      obtain ⟨front, last, ends⟩ := (List.eq_nil_or_concat between.toList).resolve_left nonempty
      have chars := congrArg String.toList split
      rw [String.toList_append, String.toList_append, ends, List.concat_eq_append,
        ← List.append_assoc] at chars
      have slash : start.toList ++ ['/'] = text.toList ++ front ++ [last] := chars
      obtain ⟨_, same⟩ := List.append_singleton_inj.mp slash
      rw [ends, List.concat_eq_append, same]
      exact List.mem_append_right _ List.mem_cons_self
    rw [inside, String.toList_append, List.mem_append, not_or] at plain
    exact absurd slash plain.1

theorem cutChars?_eq_none_iff {separator : Char} {chars : List Char} :
    cutChars? separator chars = none ↔ separator ∉ chars := by
  induction chars with
  | nil => simp [cutChars?]
  | cons c rest ih =>
      by_cases same : c = separator
      · simp [cutChars?, same]
      · simp [cutChars?, same, ih, Ne.symm same]

theorem cut?_eq_none_iff {separator : Char} {text : String} :
    cut? separator text = none ↔ separator ∉ text.toList := by
  rw [cut?, Option.map_eq_none_iff, cutChars?_eq_none_iff]

theorem not_mem_of_cutChars? {separator : Char} {text before after : List Char}
    (cut : cutChars? separator text = some (before, after)) : separator ∉ before := by
  induction text generalizing before with
  | nil => cases cut
  | cons c rest ih =>
      rw [cutChars?] at cut
      split at cut
      · cases cut
        exact List.not_mem_nil
      · rename_i other
        obtain ⟨⟨front, back⟩, inner, same⟩ := Option.map_eq_some_iff.mp cut
        cases same
        exact mt List.mem_cons.mp (not_or.mpr ⟨Ne.symm other, ih inner⟩)

/-- What stands behind a text does not change where it is cut first. -/
theorem exists_cut?_append {separator : Char} {text first rest : String}
    (cut : cut? separator text = some (first, rest)) (more : String) :
    ∃ later, cut? separator (text ++ more) = some (first, later) := by
  obtain ⟨⟨before, after⟩, found, same⟩ := Option.map_eq_some_iff.mp cut
  cases same
  have longer : cutChars? separator (text ++ more).toList = some (before, after ++ more.toList) := by
    rw [String.toList_append, eq_of_cutChars? found, List.append_assoc, List.cons_append]
    exact cutChars?_append (not_mem_of_cutChars? found) _
  exact ⟨_, by rw [cut?, longer]; rfl⟩

end Text

/-! ## Endings -/

/-- The endings that tell files of one stem apart. -/
def codeEndings : List String := Specifier.typingsExtensions ++ Specifier.codeExtensions

theorem noSlash_of_mem_codeEndings {ending : String} (listed : ending ∈ "" :: codeEndings) :
    '/' ∉ ending.toList := by
  have all : ∀ ending ∈ "" :: codeEndings, '/' ∉ ending.toList := by decide
  exact all ending listed

theorem isLE_of_root (category : Category) : (compare Category.root category).isLE = true := by
  cases category <;> decide

theorem isLE_plugins (category : Category) : (compare category Category.plugins).isLE = true := by
  cases category <;> decide

theorem isLE_self (category : Category) : (compare category category).isLE = true := by
  cases category <;> decide

/-! ## Registrations -/

/-- The names that registrations of plugins have. -/
def registrationNames : List String := ["compile-time", "test", "doc", "package"]

theorem isSome_registrationRole?_iff {path : String} : (registrationRole? path).isSome = true ↔
    ∃ name ∈ registrationNames, ∃ rest, path = "support/" ++ name ++ ".plugins" ++ rest ∧
      endsRegistration rest.toList = true := by
  have named : ∀ name ∈ registrationNames, (pluginRole? name).isSome = true := by decide
  rw [registrationRole?, List.findSome?_isSome_iff]
  refine exists_congr fun name => and_congr_right fun listed => ?_
  constructor
  · intro found
    split at found
    · rename_i rest dropped
      refine ⟨rest, Text.dropStart?_eq_some_iff.mp dropped, ?_⟩
      by_contra fails
      rw [if_neg fails] at found
      cases found
    · cases found
  · rintro ⟨rest, split, ends⟩
    simp only [Text.dropStart?_eq_some_iff.mpr split, if_pos ends]
    exact named name listed

/-- A registration has its ending, or one of the endings of code after that, up to its end. -/
theorem endsRegistration_append {front : List Char} {first second : String}
    (listed : second ∈ codeEndings) (ends : endsRegistration (front ++ first.toList) = true) :
    endsRegistration (front ++ second.toList) = true := by
  have plain : ∀ ending ∈ codeEndings, endsRegistration ending.toList = true ∧
      ending.toList ≠ [] ∧ '/' ∉ ending.toList ∧ '\n' ∉ ending.toList := by decide
  obtain ⟨alone, some, noSlash, noBreak⟩ := plain second listed
  have longer (c : Char) (more : List Char) : ∃ d rest, more ++ second.toList = d :: rest :=
    List.exists_cons_of_ne_nil (by simp [some])
  cases front with
  | nil => exact alone
  | cons c more =>
      obtain ⟨d, rest, whole⟩ := longer c more
      have begun : ∀ stop : Char, stop ∉ second.toList →
          (∀ e ∈ more ++ first.toList, e ≠ stop) → ∀ e ∈ d :: rest, e ≠ stop := by
        intro stop absent kept e listed
        rw [← whole] at listed
        rcases List.mem_append.mp listed with front | back
        · exact kept e (List.mem_append_left _ front)
        · exact fun same => absent (same ▸ back)
      rw [List.cons_append] at ends ⊢
      rw [whole]
      unfold endsRegistration at ends
      split at ends
      · rename_i same
        obtain ⟨rfl, tail⟩ := List.cons.inj same
        have kept := begun '/' noSlash (by
          rw [tail]
          simpa using ends)
        simpa [endsRegistration] using kept
      · rename_i same
        obtain ⟨rfl, tail⟩ := List.cons.inj same
        have kept := begun '\n' noBreak (by
          rw [tail]
          simpa using ends)
        simpa [endsRegistration] using kept
      · cases ends

/-- A registration of plugins is one with another ending, too. -/
theorem isSome_registrationRole?_append {stem first second : String}
    (listed : first ∈ "" :: codeEndings) (alsoListed : second ∈ codeEndings)
    (found : (registrationRole? (stem ++ first)).isSome = true) :
    (registrationRole? (stem ++ second)).isSome = true := by
  -- no part of an ending is the end of a registration's name
  have apart : ∀ name ∈ registrationNames, ∀ ending ∈ "" :: codeEndings, ∀ start ∈ ending.toList.inits,
      start <:+ ("support/" ++ name ++ ".plugins").toList → start = [] := by decide +kernel
  obtain ⟨name, isName, rest, same, ends⟩ := isSome_registrationRole?_iff.mp found
  rcases Text.append_eq_append_cases same with ⟨between, rfl, rfl⟩ | ⟨between, some, split, inside⟩
  · rw [String.toList_append] at ends
    refine isSome_registrationRole?_iff.mpr ⟨name, isName, between ++ second, String.append_assoc, ?_⟩
    rw [String.toList_append]
    exact endsRegistration_append alsoListed ends
  · refine absurd (apart name isName first listed between.toList ?_ ?_) ?_
    · rw [List.mem_inits, inside, String.toList_append]
      exact List.prefix_append _ _
    · rw [split, String.toList_append]
      exact List.suffix_append _ _
    · exact fun empty => some (String.toList_inj.mp empty)

/-! ## Categories -/

theorem beginsWith_index_append {stem first second : String} (listed : first ∈ "" :: codeEndings)
    (alsoListed : second ∈ codeEndings) (begins : Text.beginsWith (stem ++ first) "index." = true) :
    Text.beginsWith (stem ++ second) "index." = true := by
  have apart : ∀ ending ∈ "" :: codeEndings, ∀ start ∈ ending.toList.inits,
      start <:+ "index.".toList → start = [] ∨ start = ['.'] := by decide +kernel
  have dotted : ∀ ending ∈ codeEndings, Text.beginsWith ("index" ++ ending) "index." = true := by decide
  obtain ⟨rest, same⟩ := Text.beginsWith_iff.mp begins
  rcases Text.append_eq_append_cases same with ⟨between, rfl, _⟩ | ⟨between, some, split, inside⟩
  · exact Text.beginsWith_append_right (Text.beginsWith_append _ _) _
  · have cases := apart first listed between.toList (by
      rw [List.mem_inits, inside, String.toList_append]
      exact List.prefix_append _ _) (by
      rw [split, String.toList_append]
      exact List.suffix_append _ _)
    have dot : between = "." := by
      rcases cases with empty | dot
      · exact absurd (String.toList_inj.mp empty) some
      · exact String.toList_inj.mp dot
    rw [dot, show "index." = "index" ++ "." from rfl, String.append_left_inj] at split
    rw [← split]
    exact dotted second alsoListed

theorem not_descriptor_of_mem_codeEndings {stem ending : String} (listed : ending ∈ codeEndings) :
    stem ++ ending ≠ descriptorFile := by
  have never : ∀ ending ∈ codeEndings, Text.endsWith descriptorFile ending = false := by decide
  intro same
  have ends := never ending listed
  rw [← same, Text.endsWith_iff.mpr ⟨stem, rfl⟩] at ends
  cases ends

/-- Of files with one stem in a folder the one with an extension has the category of the other, unless
it registers plugins. -/
theorem classify_append_of_cut {stem first second folder rest : String}
    (cut : Text.cut? '/' stem = some (folder, rest)) (listed : first ∈ "" :: codeEndings)
    (alsoListed : second ∈ codeEndings) (notDescriptor : stem ++ first ≠ descriptorFile) :
    classify (stem ++ second) = classify (stem ++ first) ∨
      ∃ role, classify (stem ++ second) = some (.plugins, role) := by
  have plain := noSlash_of_mem_codeEndings listed
  have alsoPlain := noSlash_of_mem_codeEndings (List.mem_cons_of_mem _ alsoListed)
  obtain ⟨_, firstCut⟩ := Text.exists_cut?_append cut first
  obtain ⟨_, secondCut⟩ := Text.exists_cut?_append cut second
  have alike (start : String) : Text.beginsWith (stem ++ second) (start ++ "/") =
      Text.beginsWith (stem ++ first) (start ++ "/") := by
    rw [Bool.eq_iff_iff, Text.beginsWith_append_iff plain, Text.beginsWith_append_iff alsoPlain]
  have fixtures : Text.beginsWith (stem ++ second) "test/fixtures/" =
      Text.beginsWith (stem ++ first) "test/fixtures/" := alike "test/fixtures"
  have supportFixtures : Text.beginsWith (stem ++ second) "support/fixtures/" =
      Text.beginsWith (stem ++ first) "support/fixtures/" := alike "support/fixtures"
  have resources : Text.beginsWith (stem ++ second) "support/resources/" =
      Text.beginsWith (stem ++ first) "support/resources/" := alike "support/resources"
  rw [classify, classify, if_neg (not_descriptor_of_mem_codeEndings alsoListed), if_neg notDescriptor]
  simp only [firstCut, secondCut, fixtures, supportFixtures, resources]
  split
  · exact .inl rfl
  split
  · exact .inl rfl
  split
  · exact .inl rfl
  cases registered : registrationRole? (stem ++ second) with
  | some role => exact .inr ⟨some role, rfl⟩
  | none =>
      have unregistered : registrationRole? (stem ++ first) = none := by
        rw [← Option.not_isSome_iff_eq_none]
        intro found
        have both := isSome_registrationRole?_append listed alsoListed found
        rw [registered] at both
        cases both
      rw [unregistered]
      exact .inl rfl

/-- Of files with one stem the one without an extension, or with any, stands in no later category,
unless it is the descriptor of the module. -/
theorem isLE_of_classify {stem first second : String} {category other : Category}
    {role otherRole : Option Role} (listed : first ∈ "" :: codeEndings)
    (alsoListed : second ∈ codeEndings) (notDescriptor : stem ++ first ≠ descriptorFile)
    (filed : classify (stem ++ first) = some (category, role))
    (alsoFiled : classify (stem ++ second) = some (other, otherRole)) :
    (compare category other).isLE = true := by
  cases cut : Text.cut? '/' stem with
  | none =>
      have uncut {ending : String} (listed : ending ∈ "" :: codeEndings) :
          Text.cut? '/' (stem ++ ending) = none := by
        rw [Text.cut?_eq_none_iff, String.toList_append, List.mem_append, not_or]
        exact ⟨Text.cut?_eq_none_iff.mp cut, noSlash_of_mem_codeEndings listed⟩
      rw [classify, if_neg notDescriptor, uncut listed] at filed
      rw [classify, if_neg (not_descriptor_of_mem_codeEndings alsoListed),
        uncut (List.mem_cons_of_mem _ alsoListed)] at alsoFiled
      simp only at filed alsoFiled
      split at filed
      · rename_i begins
        rw [if_pos (beginsWith_index_append listed alsoListed begins)] at alsoFiled
        cases filed
        cases alsoFiled
        decide
      · cases filed
        exact isLE_of_root other
  | some pair =>
      obtain ⟨folder, rest⟩ := pair
      rcases classify_append_of_cut cut listed alsoListed notDescriptor with same | ⟨role, plugins⟩
      · cases filed.symm.trans (same.symm.trans alsoFiled)
        exact isLE_self category
      · cases plugins.symm.trans alsoFiled
        exact isLE_plugins category

end WorkspaceBuild
