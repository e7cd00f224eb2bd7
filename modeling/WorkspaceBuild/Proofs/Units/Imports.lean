import WorkspaceBuild.Proofs.Units.Names

/-! # Printed imports

The line of an import is told apart into tokens in one way. Read by the grammar of the language it is
the import that it was printed for, unless a binding takes the whole namespace: that one is written
between the braces of the named bindings, where the grammar has no place for it.
-/

namespace WorkspaceBuild

/-- A part of a line. -/
inductive Token where
  | name (text : String)
  | text (value : String)
  | mark (c : Char)

namespace Token

def marks : List Char := ['{', '}', ',', '*', ';']

/-- The tokens of a line: a name goes on as far as it can, and there is white space between. A text
between quotes is a text of the language when it is one of JSON. -/
inductive Lexes (letters : Letters) : List Char → List Token → Prop where
  | nil : Lexes letters [] []
  | space {c : Char} {rest : List Char} {tokens : List Token} (blank : Json.isSpace c = true)
      (further : Lexes letters rest tokens) : Lexes letters (c :: rest) tokens
  | name {c : Char} {more rest : List Char} {tokens : List Token}
      (named : letters.areName (c :: more) = true) (ends : letters.Ends rest)
      (further : Lexes letters rest tokens) :
      Lexes letters (c :: (more ++ rest)) (.name (String.ofList (c :: more)) :: tokens)
  | text {quoted value rest : List Char} {tokens : List Token}
      (read : Json.readText quoted = some (some value, rest))
      (further : Lexes letters rest tokens) :
      Lexes letters ('"' :: quoted) (.text (String.ofList value) :: tokens)
  | mark {c : Char} {rest : List Char} {tokens : List Token} (isMark : c ∈ marks)
      (further : Lexes letters rest tokens) : Lexes letters (c :: rest) (.mark c :: tokens)

section Lexing

variable {letters : Letters} {c : Char} {rest : List Char} {tokens : List Token}

/-- A name begins with none of the characters that stand between names. -/
theorem not_isStart (apart : Json.isSpace c = true ∨ c = '"' ∨ c ∈ marks) :
    letters.isStart c = false := by
  simp only [Json.isSpace, Bool.or_eq_true, decide_eq_true_eq, marks, List.mem_cons,
    List.not_mem_nil, or_false] at apart
  rcases apart with (((rfl | rfl) | rfl) | rfl) | rfl | rfl | rfl | rfl | rfl | rfl
  all_goals exact Letters.isStart_ascii (by decide)

theorem not_areName (apart : Json.isSpace c = true ∨ c = '"' ∨ c ∈ marks) (more : List Char) :
    letters.areName (c :: more) = false := by
  rw [Letters.areName, not_isStart apart]
  rfl

theorem not_isSpace (isMark : c ∈ marks) : Json.isSpace c = false := by
  have all : marks.all (fun c => !Json.isSpace c) = true := rfl
  simpa using List.all_eq_true.mp all c isMark

theorem lexes_nil : Lexes letters [] tokens ↔ tokens = [] := by
  constructor
  · intro lexed
    cases lexed
    rfl
  · rintro rfl
    exact .nil

theorem lexes_space (blank : Json.isSpace c = true) :
    Lexes letters (c :: rest) tokens ↔ Lexes letters rest tokens := by
  constructor
  · intro lexed
    cases lexed with
    | space _ further => exact further
    | name named => exact absurd named (by simp [not_areName (.inl blank)])
    | text => cases blank
    | mark isMark => exact absurd blank (by simp [not_isSpace isMark])
  · exact .space blank

theorem lexes_mark (isMark : c ∈ marks) :
    Lexes letters (c :: rest) tokens ↔ ∃ more, tokens = .mark c :: more ∧ Lexes letters rest more := by
  constructor
  · intro lexed
    cases lexed with
    | space blank => exact absurd blank (by simp [not_isSpace isMark])
    | name named => exact absurd named (by simp [not_areName (.inr (.inr isMark))])
    | text => exact absurd isMark (by decide)
    | mark _ further => exact ⟨_, rfl, further⟩
  · rintro ⟨more, rfl, further⟩
    exact .mark isMark further

theorem lexes_name {name : String} (named : letters.isName name = true) (ends : letters.Ends rest) :
    Lexes letters (name.toList ++ rest) tokens ↔
      ∃ more, tokens = .name name :: more ∧ Lexes letters rest more := by
  obtain ⟨c, after, split, start⟩ := Letters.exists_start_of_areName named
  have whole : String.ofList (c :: after) = name := by rw [← split, String.ofList_toList]
  have apart (other : Json.isSpace c = true ∨ c = '"' ∨ c ∈ marks) : False := by
    rw [not_isStart other] at start
    cases start
  constructor
  · intro lexed
    rw [split, List.cons_append] at lexed
    generalize same : after ++ rest = behind at lexed
    cases lexed with
    | space blank => exact (apart (.inl blank)).elim
    | @name _ other behind _ isOther endsOther further =>
        have sameWhole : (c :: after) ++ rest = (c :: other) ++ behind := by
          rw [List.cons_append, List.cons_append, same]
        rw [Letters.isName, split] at named
        obtain ⟨sameName, rfl⟩ := Letters.append_inj (Letters.all_isPart_of_areName named)
          (Letters.all_isPart_of_areName isOther) ends endsOther sameWhole
        exact ⟨_, by rw [← sameName, whole], further⟩
    | text => exact (apart (.inr (.inl rfl))).elim
    | mark isMark => exact (apart (.inr (.inr isMark))).elim
  · rintro ⟨more, rfl, further⟩
    rw [split, List.cons_append, ← whole]
    exact .name (split ▸ named) ends further

theorem lexes_quoted {text : String} :
    Lexes letters (Json.quoteChars text ++ rest) tokens ↔
      ∃ more, tokens = .text text :: more ∧ Lexes letters rest more := by
  have read := Json.readText_quoted text.toList rest
  have split : Json.quoteChars text ++ rest =
      '"' :: (text.toList.flatMap Json.escape ++ '"' :: rest) := by
    simp [Json.quoteChars]
  constructor
  · intro lexed
    rw [split] at lexed
    generalize text.toList.flatMap Json.escape ++ '"' :: rest = quoted at lexed read
    cases lexed with
    | space blank => cases blank
    | name named => exact absurd named (by simp [not_areName (.inr (.inl rfl))])
    | text other further =>
        rw [read] at other
        cases other
        exact ⟨_, by rw [String.ofList_toList], further⟩
    | mark isMark => exact absurd isMark (by decide)
  · rintro ⟨more, rfl, further⟩
    rw [split, ← String.ofList_toList (s := text), String.toList_ofList]
    exact .text read further

end Lexing

end Token

section Grammar

/-- The words that are no names of bindings in a module. -/
def reservedWords : List String :=
  ["arguments", "await", "break", "case", "catch", "class", "const", "continue", "debugger",
    "default", "delete", "do", "else", "enum", "eval", "export", "extends", "false", "finally", "for",
    "function", "if", "implements", "import", "in", "instanceof", "interface", "let", "new", "null",
    "package", "private", "protected", "public", "return", "static", "super", "switch", "this",
    "throw", "true", "try", "typeof", "var", "void", "while", "with", "yield"]

/-- Whether a name may be given to what is imported. -/
def Letters.isBinding (letters : Letters) (name : String) : Bool :=
  letters.isName name && !reservedWords.contains name

variable (letters : Letters)

/-- One of the names between braces. -/
inductive IsSpecifier : List Token → ImportBinding → Prop where
  | same {name : String} (isLocal : letters.isBinding name = true) :
      IsSpecifier [.name name] ⟨name, name⟩
  | renamed {imported name : String} (named : letters.isName imported = true)
      (isLocal : letters.isBinding name = true) :
      IsSpecifier [.name imported, .name "as", .name name] ⟨imported, name⟩

/-- Names between braces, with commas between them. -/
inductive AreSpecifiers : List Token → List ImportBinding → Prop where
  | last {tokens : List Token} {b : ImportBinding} (spec : IsSpecifier letters tokens b) :
      AreSpecifiers tokens [b]
  | more {tokens others : List Token} {b : ImportBinding} {bindings : List ImportBinding}
      (spec : IsSpecifier letters tokens b) (further : AreSpecifiers others bindings) :
      AreSpecifiers (tokens ++ .mark ',' :: others) (b :: bindings)

/-- The whole namespace or the names between braces. -/
inductive IsPart : List Token → List ImportBinding → Prop where
  | whole {name : String} (isLocal : letters.isBinding name = true) :
      IsPart [.mark '*', .name "as", .name name] [⟨"*", name⟩]
  | nothing : IsPart [.mark '{', .mark '}'] []
  | named {tokens : List Token} {bindings : List ImportBinding}
      (specs : AreSpecifiers letters tokens bindings) :
      IsPart (.mark '{' :: tokens ++ [.mark '}']) bindings
  | closed {tokens : List Token} {bindings : List ImportBinding}
      (specs : AreSpecifiers letters tokens bindings) :
      IsPart (.mark '{' :: tokens ++ [.mark ',', .mark '}']) bindings

/-- What an import takes: the default, other parts, or both. -/
inductive IsClause : List Token → List ImportBinding → Prop where
  | default {name : String} (isLocal : letters.isBinding name = true) :
      IsClause [.name name] [⟨"default", name⟩]
  | part {tokens : List Token} {bindings : List ImportBinding}
      (part : IsPart letters tokens bindings) : IsClause tokens bindings
  | both {name : String} {tokens : List Token} {bindings : List ImportBinding}
      (isLocal : letters.isBinding name = true) (part : IsPart letters tokens bindings) :
      IsClause (.name name :: .mark ',' :: tokens) (⟨"default", name⟩ :: bindings)

/-- An import of the language. -/
inductive IsImport : List Token → String → List ImportBinding → Prop where
  | effects (specifier : String) : IsImport [.name "import", .text specifier, .mark ';'] specifier []
  | bound {tokens : List Token} {bindings : List ImportBinding} (specifier : String)
      (clause : IsClause letters tokens bindings) :
      IsImport (.name "import" :: tokens ++ [.name "from", .text specifier, .mark ';']) specifier bindings

/-- Whether the line is an import of these bindings. -/
def IsReadAs (line specifier : String) (bindings : List ImportBinding) : Prop :=
  ∃ tokens, Token.Lexes letters line.toList tokens ∧ IsImport letters tokens specifier bindings

end Grammar

/-- A local name that may be bound, and a plain name or the whole namespace behind it. -/
structure ImportBinding.IsPlain (letters : Letters) (b : ImportBinding) : Prop where
  isLocal : letters.isBinding b.localName = true
  imported : letters.isName b.imported = true ∨ b.imported = "*"

/-- The names that an import takes are plain. -/
def ImportDecl.IsPlain (letters : Letters) (decl : ImportDecl) : Prop :=
  ∀ b ∈ decl.bindings, b.IsPlain letters

instance ImportBinding.decidableIsPlain (letters : Letters) (b : ImportBinding) :
    Decidable (b.IsPlain letters) :=
  decidable_of_iff (letters.isBinding b.localName = true ∧
      (letters.isName b.imported = true ∨ b.imported = "*"))
    ⟨fun ⟨isLocal, imported⟩ => ⟨isLocal, imported⟩, fun plain => ⟨plain.isLocal, plain.imported⟩⟩

instance ImportDecl.decidableIsPlain (letters : Letters) (decl : ImportDecl) :
    Decidable (decl.IsPlain letters) :=
  inferInstanceAs (Decidable (∀ b ∈ decl.bindings, b.IsPlain letters))

namespace ImportBinding

/-- What stands for the imported name. -/
def importedToken (b : ImportBinding) : Token :=
  if b.imported = "*" then .mark '*' else .name b.imported

def tokens (b : ImportBinding) : List Token :=
  if b.imported = b.localName then [.name b.localName]
  else [b.importedToken, .name "as", .name b.localName]

/-- The tokens of bindings with commas between them. -/
def tokensOf : List ImportBinding → List Token
  | [] => []
  | [b] => b.tokens
  | b :: bindings => b.tokens ++ .mark ',' :: tokensOf bindings

end ImportBinding

def ImportDecl.tokens (decl : ImportDecl) : List Token :=
  if decl.bindings = [] then [.name "import", .text decl.specifier, .mark ';']
  else
    .name "import" :: (.mark '{' :: ImportBinding.tokensOf decl.bindings ++ [.mark '}']) ++
      [.name "from", .text decl.specifier, .mark ';']

namespace Token

section Lines

variable {letters : Letters} {rest : List Char} {tokens : List Token}

theorem ends_space : letters.Ends (' ' :: rest) := Letters.ends_cons (by decide) (by decide)

/-- A word and the space behind it. -/
theorem lexes_word {word : String} (named : letters.isName word = true) :
    Lexes letters (word.toList ++ ' ' :: rest) tokens ↔
      ∃ more, tokens = .name word :: more ∧ Lexes letters rest more := by
  simp only [lexes_name named ends_space, lexes_space (c := ' ') rfl]

theorem lexes_binding {b : ImportBinding} (plain : b.IsPlain letters) (ends : letters.Ends rest) :
    Lexes letters (b.text.toList ++ rest) tokens ↔
      ∃ more, tokens = b.tokens ++ more ∧ Lexes letters rest more := by
  have isLocal := plain.isLocal
  rw [Letters.isBinding, Bool.and_eq_true] at isLocal
  have isAs : letters.isName "as" = true := Letters.areName_of_isAlpha (by decide)
  unfold ImportBinding.text ImportBinding.tokens
  split
  · exact lexes_name isLocal.1 ends
  · have split : (b.imported ++ " as " ++ b.localName).toList ++ rest =
        b.imported.toList ++ ' ' :: ("as".toList ++ ' ' :: (b.localName.toList ++ rest)) := by
      simp
    rw [split, ImportBinding.importedToken]
    split
    · rename_i whole
      rw [whole]
      have mark : '*' ∈ marks := by decide
      simp only [show "*".toList = ['*'] from rfl, List.cons_append, List.nil_append, lexes_mark mark,
        lexes_space (c := ' ') rfl, lexes_word isAs, lexes_name isLocal.1 ends]
      grind
    · rename_i notWhole
      simp only [lexes_word (plain.imported.resolve_right notWhole), lexes_word isAs,
        lexes_name isLocal.1 ends]
      grind

theorem toList_listed_cons (text next : String) (texts : List String) :
    (Text.listed (text :: next :: texts)).toList =
      text.toList ++ ',' :: ' ' :: (Text.listed (next :: texts)).toList := by
  simp [Text.listed, Text.joined, List.intercalate]

theorem lexes_listed {bindings : List ImportBinding} (notEmpty : bindings ≠ [])
    (plain : ∀ b ∈ bindings, b.IsPlain letters) (ends : letters.Ends rest) :
    Lexes letters ((Text.listed (bindings.map ImportBinding.text)).toList ++ rest) tokens ↔
      ∃ more, tokens = ImportBinding.tokensOf bindings ++ more ∧ Lexes letters rest more := by
  induction bindings generalizing tokens with
  | nil => exact absurd rfl notEmpty
  | cons b bindings ih =>
      rw [List.forall_mem_cons] at plain
      cases bindings with
      | nil =>
          have single : (Text.listed [b.text]).toList = b.text.toList := by
            simp [Text.listed, Text.joined, List.intercalate]
          rw [List.map_cons, List.map_nil, single]
          exact lexes_binding plain.1 ends
      | cons next bindings =>
          have comma : ',' ∈ marks := by decide
          have endsComma {behind : List Char} : letters.Ends (',' :: behind) :=
            Letters.ends_cons (by decide) (by decide)
          have further (tokens : List Token) := @ih tokens (List.cons_ne_nil _ _) plain.2
          rw [List.map_cons] at further
          simp only [List.map_cons, toList_listed_cons, List.append_assoc, List.cons_append,
            lexes_binding plain.1 endsComma, lexes_mark comma, lexes_space (c := ' ') rfl, further,
            ImportBinding.tokensOf]
          grind

/-- The line of an import has the tokens of the import and no others. -/
theorem lexes_line {decl : ImportDecl} (plain : decl.IsPlain letters) (depth : Nat) :
    Lexes letters (indented depth decl.line).toList tokens ↔ tokens = decl.tokens := by
  have blanks (n : Nat) (line : List Char) :
      Lexes letters (List.replicate n ' ' ++ line) tokens ↔ Lexes letters line tokens := by
    induction n with
    | zero => rfl
    | succ n ih => rw [List.replicate_succ, List.cons_append, lexes_space rfl, ih]
  have isImport : letters.isName "import" = true := Letters.areName_of_isAlpha (by decide)
  have isFrom : letters.isName "from" = true := Letters.areName_of_isAlpha (by decide)
  rw [indented, String.toList_append, String.toList_ofList, blanks, ImportDecl.line,
    ImportDecl.tokens]
  have semicolon : ';' ∈ marks := by decide
  by_cases none : decl.bindings = []
  · have split : ("import " ++ Json.quote decl.specifier ++ ";").toList =
        "import".toList ++ ' ' :: (Json.quoteChars decl.specifier ++ [';']) := by
      simp [Json.quote]
    simp only [none, List.isEmpty_nil, if_true, split, lexes_word isImport, lexes_quoted,
      lexes_mark semicolon, lexes_nil]
    grind
  · have opening : '{' ∈ marks := by decide
    have closing : '}' ∈ marks := by decide
    have split : ("import \x7b " ++ Text.listed (decl.bindings.map ImportBinding.text) ++
        " \x7d from " ++ Json.quote decl.specifier ++ ";").toList =
        "import".toList ++ ' ' :: '{' :: ' ' ::
          ((Text.listed (decl.bindings.map ImportBinding.text)).toList ++ ' ' :: '}' :: ' ' ::
            ("from".toList ++ ' ' :: (Json.quoteChars decl.specifier ++ [';']))) := by
      simp [Json.quote]
    simp only [List.isEmpty_iff, none, if_false, split, lexes_word isImport, lexes_mark opening,
      lexes_space (c := ' ') rfl, lexes_listed none plain ends_space, lexes_mark closing,
      lexes_word isFrom, lexes_quoted, lexes_mark semicolon, lexes_nil]
    grind

end Lines

end Token

section Reading

variable {letters : Letters} {b c : ImportBinding} {bindings others : List ImportBinding}
  {tokens : List Token}

theorem not_isName_star : letters.isName "*" = false :=
  Token.not_areName (.inr (.inr (by decide))) []

theorem isSpecifier_tokens_iff (plain : b.IsPlain letters) :
    IsSpecifier letters b.tokens c ↔ c = b ∧ b.imported ≠ "*" := by
  obtain ⟨imported, name⟩ := b
  have isLocal := plain.isLocal
  have named : letters.isName name = true := by
    rw [Letters.isBinding, Bool.and_eq_true] at isLocal
    exact isLocal.1
  unfold ImportBinding.tokens
  split
  · rename_i same
    cases same
    constructor
    · intro spec
      cases spec
      refine ⟨rfl, ?_⟩
      rintro rfl
      rw [not_isName_star] at named
      cases named
    · rintro ⟨rfl, _⟩
      exact .same isLocal
  · rw [ImportBinding.importedToken]
    split
    · rename_i whole
      constructor
      · intro spec
        cases spec
      · rintro ⟨_, notWhole⟩
        exact absurd whole notWhole
    · rename_i notWhole
      constructor
      · intro spec
        cases spec
        exact ⟨rfl, notWhole⟩
      · rintro ⟨rfl, _⟩
        exact .renamed (plain.imported.resolve_right notWhole) isLocal

theorem IsSpecifier.comma_notMem (spec : IsSpecifier letters tokens b) : .mark ',' ∉ tokens := by
  cases spec <;> simp

theorem ImportBinding.comma_notMem (b : ImportBinding) : .mark ',' ∉ b.tokens := by
  unfold ImportBinding.tokens ImportBinding.importedToken
  split
  · simp
  · split <;> simp

/-- The names before the first comma are told apart from those behind it. -/
theorem append_comma_inj {front front' back back' : List Token} (noComma : .mark ',' ∉ front)
    (noComma' : .mark ',' ∉ front')
    (same : front ++ .mark ',' :: back = front' ++ .mark ',' :: back') :
    front = front' ∧ back = back' := by
  induction front generalizing front' with
  | nil =>
      cases front' with
      | nil => exact ⟨rfl, (List.cons.inj same).2⟩
      | cons token front' => exact absurd ((List.cons.inj same).1 ▸ List.mem_cons_self) noComma'
  | cons token front ih =>
      cases front' with
      | nil => exact absurd ((List.cons.inj same).1 ▸ List.mem_cons_self) noComma
      | cons token' front' =>
          obtain ⟨rfl, further⟩ := List.cons.inj same
          obtain ⟨rfl, sameBack⟩ := ih (List.not_mem_of_not_mem_cons noComma)
            (List.not_mem_of_not_mem_cons noComma') further
          exact ⟨rfl, sameBack⟩

theorem areSpecifiers_tokensOf_iff (notEmpty : bindings ≠ [])
    (plain : ∀ b ∈ bindings, b.IsPlain letters) :
    AreSpecifiers letters (ImportBinding.tokensOf bindings) others ↔
      others = bindings ∧ ∀ b ∈ bindings, b.imported ≠ "*" := by
  induction bindings generalizing others with
  | nil => exact absurd rfl notEmpty
  | cons b bindings ih =>
      rw [List.forall_mem_cons] at plain
      cases bindings with
      | nil =>
          rw [ImportBinding.tokensOf]
          constructor
          · intro specs
            generalize same : b.tokens = tokens at specs
            cases specs with
            | last spec =>
                obtain ⟨rfl, notWhole⟩ := (isSpecifier_tokens_iff plain.1).mp (same ▸ spec)
                exact ⟨rfl, by simpa using notWhole⟩
            | more => exact absurd (same ▸ by simp) b.comma_notMem
          · rintro ⟨rfl, notWhole⟩
            exact .last ((isSpecifier_tokens_iff plain.1).mpr ⟨rfl, notWhole b List.mem_cons_self⟩)
      | cons next bindings =>
          have further {others : List ImportBinding} :=
            @ih others (List.cons_ne_nil _ _) plain.2
          rw [ImportBinding.tokensOf.eq_3 _ _ (List.cons_ne_nil _ _)]
          constructor
          · intro specs
            generalize same : b.tokens ++ _ = tokens at specs
            cases specs with
            | last spec => exact absurd (same ▸ by simp) spec.comma_notMem
            | more spec specs =>
                obtain ⟨rfl, rfl⟩ := append_comma_inj b.comma_notMem spec.comma_notMem same
                obtain ⟨rfl, notWhole⟩ := (isSpecifier_tokens_iff plain.1).mp spec
                obtain ⟨rfl, noneWhole⟩ := further.mp specs
                exact ⟨rfl, List.forall_mem_cons.mpr ⟨notWhole, noneWhole⟩⟩
          · rintro ⟨rfl, notWhole⟩
            rw [List.forall_mem_cons] at notWhole
            exact .more ((isSpecifier_tokens_iff plain.1).mpr ⟨rfl, notWhole.1⟩)
              (further.mpr ⟨rfl, notWhole.2⟩)

/-- The last token of bindings is a local name. -/
theorem exists_tokensOf (notEmpty : bindings ≠ []) :
    ∃ front name, ImportBinding.tokensOf bindings = front ++ [.name name] := by
  induction bindings with
  | nil => exact absurd rfl notEmpty
  | cons b bindings ih =>
      cases bindings with
      | nil =>
          rw [ImportBinding.tokensOf, ImportBinding.tokens]
          split
          · exact ⟨[], b.localName, rfl⟩
          · exact ⟨[_, _], b.localName, rfl⟩
      | cons next bindings =>
          obtain ⟨front, name, split⟩ := ih (List.cons_ne_nil _ _)
          rw [ImportBinding.tokensOf.eq_3 _ _ (List.cons_ne_nil _ _), split]
          exact ⟨b.tokens ++ .mark ',' :: front, name, by simp⟩

theorem isPart_tokensOf_iff (notEmpty : bindings ≠ [])
    (plain : ∀ b ∈ bindings, b.IsPlain letters) :
    IsPart letters (.mark '{' :: ImportBinding.tokensOf bindings ++ [.mark '}']) others ↔
      others = bindings ∧ ∀ b ∈ bindings, b.imported ≠ "*" := by
  rw [← areSpecifiers_tokensOf_iff notEmpty plain]
  obtain ⟨front, name, split⟩ := exists_tokensOf notEmpty
  constructor
  · intro part
    generalize same : .mark '{' :: ImportBinding.tokensOf bindings ++ [.mark '}'] = tokens at part
    cases part with
    | whole => simp at same
    | nothing =>
        have sameLength := congrArg List.length same
        simp only [split, List.length_append, List.length_cons, List.length_nil] at sameLength
        omega
    | named specs =>
        have inside := List.append_cancel_right (List.cons.inj same).2
        exact inside ▸ specs
    | closed specs =>
        simp only [split, List.cons_append, List.append_assoc, List.nil_append, List.cons.injEq,
          true_and] at same
        cases (List.append_inj' same rfl).2
  · exact .named

theorem isImport_tokens_iff {decl : ImportDecl} (plain : decl.IsPlain letters) (specifier : String)
    (others : List ImportBinding) :
    IsImport letters decl.tokens specifier others ↔
      specifier = decl.specifier ∧ others = decl.bindings ∧
        ∀ b ∈ decl.bindings, b.imported ≠ "*" := by
  unfold ImportDecl.tokens
  split
  · rename_i none
    rw [none]
    constructor
    · intro isImport
      generalize same : [Token.name "import", .text decl.specifier, .mark ';'] = tokens at isImport
      cases isImport with
      | effects => simpa using same.symm
      | bound =>
          have sameLength := congrArg List.length same
          simp only [List.length_append, List.length_cons, List.length_nil] at sameLength
          omega
    · rintro ⟨rfl, rfl, _⟩
      exact .effects _
  · rename_i notEmpty
    rw [← isPart_tokensOf_iff notEmpty plain]
    constructor
    · intro isImport
      generalize same : _ ++ [Token.name "from", .text decl.specifier, .mark ';'] = tokens at isImport
      cases isImport with
      | effects => simp at same
      | bound _ clause =>
          obtain ⟨rfl, sameEnd⟩ := List.append_inj' (List.cons.inj same).2 rfl
          cases sameEnd
          refine ⟨rfl, ?_⟩
          generalize inside : .mark '{' :: _ ++ [Token.mark '}'] = tokens at clause
          cases clause with
          | default => cases inside
          | part part => exact part
          | both => cases inside
    · rintro ⟨rfl, part⟩
      exact .bound _ (.part part)

/-- The line of an import is read as that import, and as no other. -/
theorem isReadAs_line_iff {decl : ImportDecl} (plain : decl.IsPlain letters) (depth : Nat)
    (specifier : String) (others : List ImportBinding) :
    IsReadAs letters (indented depth decl.line) specifier others ↔
      specifier = decl.specifier ∧ others = decl.bindings ∧
        ∀ b ∈ decl.bindings, b.imported ≠ "*" := by
  rw [← isImport_tokens_iff plain specifier others]
  constructor
  · rintro ⟨tokens, lexed, isImport⟩
    exact (Token.lexes_line plain depth).mp lexed ▸ isImport
  · intro isImport
    exact ⟨decl.tokens, (Token.lexes_line plain depth).mpr rfl, isImport⟩

end Reading

section Units

mutual

/-- The imports that a statement is printed with, each with its depth. -/
def Statement.printedImports (depth : Nat) : Statement → List (Nat × ImportDecl)
  | .importDecl decl => if decl.typeOnly then [] else [(depth, decl)]
  | .classDecl _ members => ClassMember.printedImportsOf (depth + 1) members
  | .functionDecl _ body => Statement.printedImportsOf (depth + 1) body
  | _ => []

def Statement.printedImportsOf (depth : Nat) : List Statement → List (Nat × ImportDecl)
  | [] => []
  | s :: rest => s.printedImports depth ++ Statement.printedImportsOf depth rest

def ClassMember.printedImports (depth : Nat) : ClassMember → List (Nat × ImportDecl)
  | .constructorDecl _ body => Statement.printedImportsOf (depth + 1) body
  | .method _ body => Statement.printedImportsOf (depth + 1) body
  | .getter _ body => Statement.printedImportsOf (depth + 1) body
  | .setter _ body => Statement.printedImportsOf (depth + 1) body
  | .property _ => []

def ClassMember.printedImportsOf (depth : Nat) : List ClassMember → List (Nat × ImportDecl)
  | [] => []
  | m :: rest => m.printedImports depth ++ ClassMember.printedImportsOf depth rest

end

/-- The imports of a unit that are printed, at whatever depth. -/
def SourceUnit.printedImports (unit : SourceUnit) : List (Nat × ImportDecl) :=
  Statement.printedImportsOf 0 unit.statements

/-- The lines of imports, each at its depth. -/
def importLines (imports : List (Nat × ImportDecl)) : List String :=
  imports.map fun (depth, decl) => indented depth decl.line

theorem importLines_append (imports others : List (Nat × ImportDecl)) :
    importLines (imports ++ others) = importLines imports ++ importLines others :=
  List.map_append

/-- The lines of imports in a body are among the lines of what it belongs to. -/
theorem sublist_braced {lines inner : List String} {empty : Bool} (depth : Nat) (head : String)
    (inside : lines.Sublist inner) (nothing : empty = true → lines = []) :
    lines.Sublist (braced depth head empty inner) := by
  unfold braced
  split
  · rename_i isEmpty
    rw [nothing isEmpty]
    exact List.nil_sublist _
  · exact (inside.cons _).trans (List.sublist_append_left _ _)

theorem sublist_body {body : List Statement} {depth : Nat} (head : String)
    (inside : (importLines (Statement.printedImportsOf (depth + 1) body)).Sublist
      (Statement.linesOf (depth + 1) body)) :
    (importLines (Statement.printedImportsOf (depth + 1) body)).Sublist
      (braced depth head body.isEmpty (Statement.linesOf (depth + 1) body)) := by
  apply sublist_braced depth head inside
  intro isEmpty
  rw [List.isEmpty_iff.mp isEmpty]
  rfl

mutual

/-- The lines of the imports in a statement are printed, in their order. -/
theorem Statement.importLines_sublist : ∀ (s : Statement) (depth : Nat),
    (importLines (s.printedImports depth)).Sublist (s.lines depth)
  | .importDecl decl, depth => by
      rw [Statement.printedImports, Statement.lines]
      cases decl.typeOnly <;> exact List.Sublist.refl _
  | .classDecl head members, depth => by
      rw [Statement.printedImports, Statement.lines]
      apply sublist_braced _ _ (ClassMember.importLinesOf_sublist members (depth + 1))
      intro isEmpty
      rw [List.isEmpty_iff.mp isEmpty]
      rfl
  | .functionDecl _ body, depth =>
      sublist_body _ (Statement.importLinesOf_sublist body (depth + 1))
  | .interfaceDecl _, _ => List.nil_sublist _
  | .aliasDecl _, _ => List.nil_sublist _
  | .variableDecl _, _ => List.nil_sublist _
  | .expression _, _ => List.nil_sublist _
  | .returned _, _ => List.nil_sublist _

theorem Statement.importLinesOf_sublist : ∀ (statements : List Statement) (depth : Nat),
    (importLines (Statement.printedImportsOf depth statements)).Sublist
      (Statement.linesOf depth statements)
  | [], _ => List.nil_sublist _
  | s :: rest, depth => by
      rw [Statement.printedImportsOf, Statement.linesOf, importLines_append]
      exact (s.importLines_sublist depth).append (Statement.importLinesOf_sublist rest depth)

theorem ClassMember.importLines_sublist : ∀ (m : ClassMember) (depth : Nat),
    (importLines (m.printedImports depth)).Sublist (m.lines depth)
  | .constructorDecl _ body, depth =>
      sublist_body _ (Statement.importLinesOf_sublist body (depth + 1))
  | .method _ body, depth => sublist_body _ (Statement.importLinesOf_sublist body (depth + 1))
  | .getter _ body, depth => sublist_body _ (Statement.importLinesOf_sublist body (depth + 1))
  | .setter _ body, depth => sublist_body _ (Statement.importLinesOf_sublist body (depth + 1))
  | .property _, _ => List.nil_sublist _

theorem ClassMember.importLinesOf_sublist : ∀ (members : List ClassMember) (depth : Nat),
    (importLines (ClassMember.printedImportsOf depth members)).Sublist
      (ClassMember.linesOf depth members)
  | [], _ => List.nil_sublist _
  | m :: rest, depth => by
      rw [ClassMember.printedImportsOf, ClassMember.linesOf, importLines_append]
      exact (m.importLines_sublist depth).append (ClassMember.importLinesOf_sublist rest depth)

end

end Units

section Breaks

variable {letters : Letters}

theorem break_notMem_quoted (text : String) : '\n' ∉ Json.quoteChars text := by
  have hex : ∀ n < 16, Json.hexChar n ≠ '\n' := by decide
  have escaped (c : Char) : '\n' ∉ Json.escape c := by
    unfold Json.escape
    split
    iterate 7 decide
    rename_i notBreak _ _
    split
    · rename_i control
      simp [(hex (c.toNat / 16) (by omega)).symm, (hex (c.toNat % 16) (by omega)).symm]
    · simpa using Ne.symm notBreak
  simp only [Json.quoteChars, List.cons_append, List.mem_cons, List.mem_append, List.mem_flatMap,
    List.not_mem_nil, or_false, not_or, not_exists, not_and]
  exact ⟨by decide, fun c _ => escaped c, by decide⟩

theorem break_notMem_name {name : String} (named : letters.isName name = true) :
    '\n' ∉ name.toList := by
  intro isIn
  have part := Letters.all_isPart_of_areName named _ isIn
  rw [Letters.isPart_ascii (by decide)] at part
  cases part

theorem break_notMem_binding {b : ImportBinding} (plain : b.IsPlain letters) :
    '\n' ∉ b.text.toList := by
  have isLocal := plain.isLocal
  rw [Letters.isBinding, Bool.and_eq_true] at isLocal
  have notLocal := break_notMem_name isLocal.1
  have notImported : '\n' ∉ b.imported.toList := by
    obtain named | whole := plain.imported
    · exact break_notMem_name named
    · rw [whole]
      decide
  unfold ImportBinding.text
  split
  · exact notLocal
  · simp [notLocal, notImported]

theorem break_notMem_listed {bindings : List ImportBinding}
    (plain : ∀ b ∈ bindings, b.IsPlain letters) :
    '\n' ∉ (Text.listed (bindings.map ImportBinding.text)).toList := by
  induction bindings with
  | nil => decide
  | cons b bindings ih =>
      rw [List.forall_mem_cons] at plain
      cases bindings with
      | nil => simpa [Text.listed, Text.joined, List.intercalate] using break_notMem_binding plain.1
      | cons next bindings =>
          have further := ih plain.2
          simp only [List.map_cons] at further
          simp [Token.toList_listed_cons, break_notMem_binding plain.1, further]

/-- An import is printed on one line. -/
theorem break_notMem_line {decl : ImportDecl} (plain : decl.IsPlain letters) (depth : Nat) :
    '\n' ∉ (indented depth decl.line).toList := by
  have bindings := break_notMem_listed plain
  have specifier := break_notMem_quoted decl.specifier
  rw [indented, ImportDecl.line]
  cases decl.bindings.isEmpty <;> simp [Json.quote, bindings, specifier, List.mem_replicate]

end Breaks

/-- The imports of a unit are printed on lines of their own, in their order. Each of these lines is
an import of the language just when none of its bindings takes the whole namespace, and it is read
as the import that it was printed for. -/
theorem SourceUnit.isReadAs_importLine_iff {letters : Letters} {unit : SourceUnit}
    (plain : ∀ entry ∈ unit.printedImports, entry.2.IsPlain letters) :
    (importLines unit.printedImports).Sublist (Statement.linesOf 0 unit.statements) ∧
      ∀ depth decl, (depth, decl) ∈ unit.printedImports →
        '\n' ∉ (indented depth decl.line).toList ∧
          ∀ specifier bindings, IsReadAs letters (indented depth decl.line) specifier bindings ↔
            specifier = decl.specifier ∧ bindings = decl.bindings ∧
              ∀ b ∈ decl.bindings, b.imported ≠ "*" := by
  refine ⟨Statement.importLinesOf_sublist unit.statements 0, ?_⟩
  intro depth decl isPrinted
  have isPlain := plain _ isPrinted
  exact ⟨break_notMem_line isPlain depth, isReadAs_line_iff isPlain depth⟩

/-- Imports of several kinds, the last one inside a function. -/
def SourceUnit.importing : SourceUnit where
  path := ⟨"/ws/src/unit.ts"⟩
  statements :=
    [.importDecl ⟨"./a.js", [⟨"default", "a"⟩, ⟨"b", "b"⟩, ⟨"c", "d"⟩], false⟩,
      .importDecl ⟨"./types.js", [⟨"T", "T"⟩], true⟩, .importDecl ⟨"./\"effects\".js", [], false⟩,
      .functionDecl ⟨"run", false, []⟩ [.importDecl ⟨"./x.js", [⟨"*", "ns"⟩], false⟩]]

/-- The names taken one by one are read back; the whole namespace is not. -/
theorem SourceUnit.isReadAs_importLine_iff_importing :
    (∀ entry ∈ importing.printedImports, entry.2.IsPlain .ascii) ∧
      IsReadAs .ascii "import \x7b default as a, b, c as d \x7d from \"./a.js\";" "./a.js"
        [⟨"default", "a"⟩, ⟨"b", "b"⟩, ⟨"c", "d"⟩] ∧
      ∀ specifier bindings,
        ¬ IsReadAs .ascii "  import \x7b * as ns \x7d from \"./x.js\";" specifier bindings := by
  have plain : ∀ entry ∈ importing.printedImports, entry.2.IsPlain .ascii := by decide
  have lines := (isReadAs_importLine_iff plain).2
  have named := (lines 0 ⟨"./a.js", [⟨"default", "a"⟩, ⟨"b", "b"⟩, ⟨"c", "d"⟩], false⟩ (by decide)).2
  have whole := (lines 1 ⟨"./x.js", [⟨"*", "ns"⟩], false⟩ (by decide)).2
  refine ⟨plain, (named _ _).mpr ⟨rfl, rfl, by decide⟩, ?_⟩
  intro specifier bindings isRead
  exact absurd rfl (((whole specifier bindings).mp isRead).2.2 _ List.mem_cons_self)

end WorkspaceBuild
