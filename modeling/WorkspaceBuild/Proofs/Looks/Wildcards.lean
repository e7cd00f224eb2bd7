import WorkspaceBuild.Wildcard
import WorkspaceBuild.Proofs.Disk.Lookups
import WorkspaceBuild.Proofs.Extensions
import WorkspaceBuild.Proofs.Looks.Scans

/-! # What patterns stand for

When folders only come, a pattern stands for the folders that it stood for, in the same order, and
perhaps for new ones between them.
-/

namespace WorkspaceBuild.Wildcard

section Trees

variable {disk : Disk} {path : Path}

/-- The folders of an item under a name that is not hidden. -/
def foldersUnder (path : Path) (name : String) (item : Item) : List Path :=
  if isHidden name then [] else foldersOf (path.join name) item

theorem foldersIn_eq_flatMap (path : Path) (entries : List (String × Item)) :
    foldersIn path entries = entries.flatMap fun pair => foldersUnder path pair.1 pair.2 := by
  induction entries with
  | nil => rfl
  | cons pair rest ih => rw [foldersIn, List.flatMap_cons, ih, foldersUnder]

theorem isFolder_of_join_plain {name : String} (plain : Path.IsPlain name)
    (found : disk.isFolder (path.join name) = true) : disk.isFolder path = true :=
  Disk.isFolder_of_exists? (Path.isAbsolute_of_noSlash plain.noSlash)
    (Disk.exists?_of_isFolder found)

mutual

/-- The folders of an item lie at its path or below. -/
theorem isFolder_of_mem_foldersOf {item : Item} (plain : item.HasPlainNames) {path folder : Path}
    (listed : folder ∈ foldersOf path item) (found : disk.isFolder folder = true) :
    disk.isFolder path = true := by
  cases item with
  | file contents modified => cases listed
  | folder entries modified =>
      rw [foldersOf, List.mem_cons] at listed
      rcases listed with rfl | below
      · exact found
      · exact isFolder_of_mem_foldersIn plain below found

theorem isFolder_of_mem_foldersIn {entries : List (String × Item)}
    (plain : Item.HavePlainNames entries) {path folder : Path}
    (listed : folder ∈ foldersIn path entries) (found : disk.isFolder folder = true) :
    disk.isFolder path = true := by
  cases entries with
  | nil => cases listed
  | cons entry rest =>
      obtain ⟨plainName, plainItem, plainRest⟩ := plain
      rw [foldersIn, List.mem_append] at listed
      rcases listed with here | later
      · split at here
        · cases here
        · exact isFolder_of_join_plain plainName (isFolder_of_mem_foldersOf plainItem here found)
      · exact isFolder_of_mem_foldersIn plainRest later found

end

theorem foldersBelow_eq {entries : List (String × Item)} {modified : Nat}
    (there : disk.item path = .ok (.folder entries modified)) :
    foldersBelow disk path = path :: foldersIn path entries := by
  rw [foldersBelow, there]
  rfl

/-- The path of a folder under a name that tokens stand for. -/
def folderNamed (tokens : List Token) (path : Path) (name : String) (item : Item) : List Path :=
  if item.isFolder && !isHidden name && covers tokens name then [path.join name] else []

theorem eq_of_mem_folderNamed {tokens : List Token} {name : String} {item : Item} {folder : Path}
    (listed : folder ∈ folderNamed tokens path name item) : folder = path.join name := by
  rw [folderNamed] at listed
  split at listed
  · exact List.mem_singleton.mp listed
  · cases listed

theorem foldersNamed_eq {entries : List (String × Item)} {modified : Nat} (tokens : List Token)
    (there : disk.item path = .ok (.folder entries modified)) :
    foldersNamed disk tokens path =
      entries.flatMap fun pair => folderNamed tokens path pair.1 pair.2 := by
  rw [foldersNamed, there]
  clear there
  simp only
  induction entries with
  | nil => rfl
  | cons pair rest ih =>
      rw [List.filter_cons, List.flatMap_cons, ← ih, folderNamed]
      split <;> rfl

/-- Where there is no folder there is none below. -/
theorem folders_eq_nil (absent : disk.isFolder path = false) (tokens : List Token) :
    foldersBelow disk path = [] ∧ foldersNamed disk tokens path = [] := by
  rw [foldersBelow, foldersNamed]
  rw [Disk.isFolder] at absent
  cases there : disk.item path with
  | error fault => exact ⟨rfl, rfl⟩
  | ok item =>
      cases item with
      | file contents modified => exact ⟨rfl, rfl⟩
      | folder entries modified =>
          rw [there] at absent
          cases absent

variable {other : Disk} {folder : Path}

theorem isFolder_of_mem_foldersBelow (proper : disk.IsProper)
    (listed : folder ∈ foldersBelow disk path) (found : other.isFolder folder = true) :
    other.isFolder path = true := by
  cases present : disk.isFolder path with
  | false =>
      rw [(folders_eq_nil present []).1] at listed
      cases listed
  | true =>
      obtain ⟨entries, modified, there, _⟩ := Disk.exists_entries_of_isFolder present
      rw [foldersBelow_eq there, List.mem_cons] at listed
      rcases listed with rfl | below
      · exact found
      · exact isFolder_of_mem_foldersIn (proper.hasPlainNames there) below found

theorem isFolder_of_mem_foldersNamed (proper : disk.IsProper) {tokens : List Token}
    (listed : folder ∈ foldersNamed disk tokens path) (found : other.isFolder folder = true) :
    other.isFolder path = true := by
  cases present : disk.isFolder path with
  | false =>
      rw [(folders_eq_nil present tokens).2] at listed
      cases listed
  | true =>
      obtain ⟨entries, modified, there, _⟩ := Disk.exists_entries_of_isFolder present
      rw [foldersNamed_eq tokens there, List.mem_flatMap] at listed
      obtain ⟨pair, member, here⟩ := listed
      have plain : Item.HavePlainNames entries := proper.hasPlainNames there
      have plainName := (Item.havePlainNames_iff.mp plain pair member).1
      rw [eq_of_mem_folderNamed here] at found
      exact isFolder_of_join_plain plainName found

end Trees

section Grown

variable {before after : Disk}

/-- What is a folder in another one stays a folder in it. -/
theorem exists_folder_of_grown (grown : Disk.KeepsFolders before after)
    {left right inner : List (String × Item)} {path : Path} {first second time : Nat} {name : String}
    (found : before.isFolder path = true)
    (there : before.itemAt? path.target = some (.folder left first))
    (alsoThere : after.itemAt? path.target = some (.folder right second))
    (plainName : Path.IsPlain name) (held : Item.child? left name = some (.folder inner time)) :
    before.isFolder (path.join name) = true ∧
      ∃ more later, Item.child? right name = some (.folder more later) := by
  have innerFound := (Disk.isFolder_join_iff found there plainName).mpr ⟨inner, time, held⟩
  exact ⟨innerFound, (Disk.isFolder_join_iff (grown.isFolder found) alsoThere plainName).mp
    (grown.isFolder innerFound)⟩

/-- Of the folders below one, those that were there before. -/
theorem filter_foldersIn (grown : Disk.KeepsFolders before after) {left right : List (String × Item)}
    {path : Path} {first second : Nat} (ordered : Item.InOrder left)
    (alsoOrdered : Item.InOrder right) (plain : Item.HavePlainNames left)
    (alsoPlain : Item.HavePlainNames right) (found : before.isFolder path = true)
    (there : before.itemAt? path.target = some (.folder left first))
    (alsoThere : after.itemAt? path.target = some (.folder right second)) :
    (foldersIn path right).filter before.isFolder = foldersIn path left := by
  rw [foldersIn_eq_flatMap, foldersIn_eq_flatMap, List.filter_flatMap]
  refine Item.flatMap_congr_of_given
    (f := fun name item => (foldersUnder path name item).filter before.isFolder)
    (g := foldersUnder path) alsoOrdered.1 ordered.1 fun name => ?_
  rw [Item.given, Item.given]
  cases hidden : isHidden name with
  | true => cases Item.child? left name <;> cases Item.child? right name <;> simp [foldersUnder, hidden]
  | false =>
      by_cases folder : ∃ inner time, Item.child? left name = some (.folder inner time)
      · obtain ⟨inner, time, held⟩ := folder
        have plainName : Path.IsPlain name :=
          (Item.havePlainNames_iff.mp plain _ (Assoc.mem_of_get? held)).1
        obtain ⟨innerFound, more, later, alsoHeld⟩ :=
          exists_folder_of_grown grown found there alsoThere plainName held
        have innerThere := (Disk.itemAt?_join found there plainName).trans held
        have alsoInnerThere :=
          (Disk.itemAt?_join (grown.isFolder found) alsoThere plainName).trans alsoHeld
        have smaller : sizeOf inner < sizeOf left := by
          have inside := List.sizeOf_lt_of_mem (Assoc.mem_of_get? held)
          simp only [Prod.mk.sizeOf_spec, Item.folder.sizeOf_spec] at inside
          omega
        have rest := filter_foldersIn grown (Item.IsOrdered.child? ordered.2 held)
          (Item.IsOrdered.child? alsoOrdered.2 alsoHeld) (Disk.hasPlainNames_of_child? plain held)
          (Disk.hasPlainNames_of_child? alsoPlain alsoHeld) innerFound innerThere alsoInnerThere
        simp [held, alsoHeld, foldersUnder, hidden, foldersOf, innerFound, rest]
      · -- a folder that is new under this name, and all below it, was not there before
        have none : Item.child? left name = .none ∨ ∃ contents time,
            Item.child? left name = some (.file contents time) := by
          cases held : Item.child? left name with
          | none => exact .inl rfl
          | some item =>
              cases item with
              | file contents time => exact .inr ⟨contents, time, rfl⟩
              | folder inner time => exact absurd ⟨inner, time, held⟩ folder
        have nothing : (Item.child? left name).elim [] (foldersUnder path name) = [] := by
          rcases none with absent | ⟨contents, time, file⟩
          · rw [absent]
            rfl
          · simp [file, foldersUnder, foldersOf]
        rw [nothing]
        cases alsoHeld : Item.child? right name with
        | none => rfl
        | some item =>
            obtain ⟨plainName, plainItem⟩ :=
              Item.havePlainNames_iff.mp alsoPlain _ (Assoc.mem_of_get? alsoHeld)
            rw [Option.elim_some, List.filter_eq_nil_iff]
            intro below listed was
            rw [foldersUnder, hidden, if_neg Bool.false_ne_true] at listed
            exact folder ((Disk.isFolder_join_iff found there plainName).mp
              (isFolder_of_mem_foldersOf plainItem listed was))
termination_by sizeOf left

/-- Of the folders at a path and below it, those that were there before. -/
theorem filter_foldersBelow (proper : before.IsProper) (alsoProper : after.IsProper)
    (grown : Disk.KeepsFolders before after) (path : Path) :
    (foldersBelow after path).filter before.isFolder = foldersBelow before path ∧
      (foldersBelow after path).tail.filter before.isFolder = (foldersBelow before path).tail := by
  cases found : before.isFolder path with
  | true =>
      obtain ⟨left, first, item, there⟩ := Disk.exists_entries_of_isFolder found
      obtain ⟨right, second, alsoItem, alsoThere⟩ :=
        Disk.exists_entries_of_isFolder (grown.isFolder found)
      have inside := filter_foldersIn grown (Disk.inOrder_itemAt? proper.ordered there)
        (Disk.inOrder_itemAt? alsoProper.ordered alsoThere) (proper.hasPlainNames item)
        (alsoProper.hasPlainNames alsoItem) found there alsoThere
      rw [foldersBelow_eq item, foldersBelow_eq alsoItem]
      exact ⟨by rw [List.filter_cons_of_pos found, inside], inside⟩
  | false =>
      have nothing : ∀ folder ∈ foldersBelow after path, ¬ before.isFolder folder = true := by
        intro folder listed was
        rw [isFolder_of_mem_foldersBelow alsoProper listed was] at found
        cases found
      rw [(folders_eq_nil found []).1, List.tail_nil, List.filter_eq_nil_iff, List.filter_eq_nil_iff]
      exact ⟨nothing, fun folder listed => nothing folder (List.mem_of_mem_tail listed)⟩

/-- Of the folders in a folder that tokens stand for, those that were there before. -/
theorem filter_foldersNamed (proper : before.IsProper) (alsoProper : after.IsProper)
    (grown : Disk.KeepsFolders before after) (tokens : List Token) (path : Path) :
    (foldersNamed after tokens path).filter before.isFolder = foldersNamed before tokens path := by
  cases found : before.isFolder path with
  | false =>
      rw [(folders_eq_nil found tokens).2, List.filter_eq_nil_iff]
      intro folder listed was
      rw [isFolder_of_mem_foldersNamed alsoProper listed was] at found
      cases found
  | true =>
      obtain ⟨left, first, item, there⟩ := Disk.exists_entries_of_isFolder found
      obtain ⟨right, second, alsoItem, alsoThere⟩ :=
        Disk.exists_entries_of_isFolder (grown.isFolder found)
      have plain : Item.HavePlainNames left := proper.hasPlainNames item
      have alsoPlain : Item.HavePlainNames right := alsoProper.hasPlainNames alsoItem
      rw [foldersNamed_eq tokens item, foldersNamed_eq tokens alsoItem, List.filter_flatMap]
      refine Item.flatMap_congr_of_given
        (f := fun name item => (folderNamed tokens path name item).filter before.isFolder)
        (g := folderNamed tokens path) (Disk.inOrder_itemAt? alsoProper.ordered alsoThere).1
        (Disk.inOrder_itemAt? proper.ordered there).1 fun name => ?_
      rw [Item.given, Item.given]
      by_cases folder : ∃ inner time, Item.child? left name = some (.folder inner time)
      · obtain ⟨inner, time, held⟩ := folder
        have plainName : Path.IsPlain name :=
          (Item.havePlainNames_iff.mp plain _ (Assoc.mem_of_get? held)).1
        obtain ⟨innerFound, more, later, alsoHeld⟩ :=
          exists_folder_of_grown grown found there alsoThere plainName held
        rw [held, alsoHeld, Option.elim_some, Option.elim_some, List.filter_eq_self.mpr]
        · rfl
        · intro folder listed
          rwa [eq_of_mem_folderNamed listed]
      · have nothing : (Item.child? left name).elim [] (folderNamed tokens path name) = [] := by
          cases held : Item.child? left name with
          | none => rfl
          | some item =>
              cases item with
              | file contents time => simp [folderNamed, Item.isFolder, Item.isFile]
              | folder inner time => exact absurd ⟨inner, time, held⟩ folder
        rw [nothing]
        cases alsoHeld : Item.child? right name with
        | none => rfl
        | some item =>
            have plainName : Path.IsPlain name :=
              (Item.havePlainNames_iff.mp alsoPlain _ (Assoc.mem_of_get? alsoHeld)).1
            rw [Option.elim_some, List.filter_eq_nil_iff]
            intro other listed was
            rw [eq_of_mem_folderNamed listed] at was
            exact folder ((Disk.isFolder_join_iff found there plainName).mp was)

end Grown

section Tokens

/-- No token stands for a slash alone, so what they spell is a piece of a path. -/
def HasNoSlash (tokens : List Token) : Prop := Token.char '/' ∉ tokens

theorem suffix_of_readClass? {text rest : List Char} {token : Token}
    (read : readClass? text = some (token, rest)) : token ≠ .char '/' ∧ rest <:+ text := by
  unfold readClass? at read
  split at read
  · rename_i c text
    obtain ⟨⟨inside, after⟩, cut, same⟩ := Option.map_eq_some_iff.mp read
    cases same
    rw [Text.eq_of_cutChars? cut]
    exact ⟨by simp, '!' :: c :: (inside ++ [']']), by simp⟩
  · cases read
  · rename_i c text _ _
    obtain ⟨⟨inside, after⟩, cut, same⟩ := Option.map_eq_some_iff.mp read
    cases same
    rw [Text.eq_of_cutChars? cut]
    exact ⟨by simp, c :: (inside ++ [']']), by simp⟩
  · cases read

theorem hasNoSlash_of_readTokens? {rounds : Nat} {starts : Bool} {text : List Char}
    {tokens : List Token} (noSlash : '/' ∉ text)
    (read : readTokens? rounds starts text = some tokens) : HasNoSlash tokens := by
  unfold HasNoSlash
  fun_induction readTokens? rounds starts text generalizing tokens
  case case1 => simp_all
  case case2 => cases read
  case case3 => cases read
  case case4 =>
    cases read
    simp
  case case5 => simp at noSlash
  case case6 => cases read
  case case10 => cases read
  case case9 rounds starts rest token others said ih =>
    obtain ⟨more, later, rfl⟩ := Option.map_eq_some_iff.mp read
    obtain ⟨notSlash, suffix⟩ := suffix_of_readClass? said
    have after := ih (fun inside => noSlash (List.mem_cons_of_mem _ (suffix.mem inside))) later
    simp [after, Ne.symm notSlash]
  all_goals
    rename_i ih
    obtain ⟨more, later, rfl⟩ := Option.map_eq_some_iff.mp read
    have after := ih (fun inside => noSlash (List.mem_cons_of_mem _ inside)) later
    simp_all

theorem hasNoSlash_of_components {pattern : String} {parts : List (List Token)}
    (read : (components pattern).mapM parse? = some parts) : ∀ tokens ∈ parts, HasNoSlash tokens := by
  have noSlash : ∀ piece ∈ components pattern, '/' ∉ piece.toList := by
    intro piece listed
    refine @Text.not_mem_of_mem_pieces _ pattern _ (List.mem_of_mem_tail ?_)
    simp only [components] at listed
    split at listed
    · exact List.dropLast_subset _ listed
    · exact listed
  generalize components pattern = pieces at read noSlash
  induction pieces generalizing parts with
  | nil =>
      cases read
      simp
  | cons piece rest ih =>
      obtain ⟨here, later⟩ := List.forall_mem_cons.mp noSlash
      rw [List.mapM_cons] at read
      obtain ⟨first, said, read⟩ := Option.bind_eq_some_iff.mp read
      obtain ⟨others, saidToo, read⟩ := Option.bind_eq_some_iff.mp read
      cases read
      exact List.forall_mem_cons.mpr ⟨hasNoSlash_of_readTokens? here said, ih saidToo later⟩

theorem noSlash_of_literal? {tokens : List Token} {name : String} (noSlash : HasNoSlash tokens)
    (spelled : literal? tokens = some name) : '/' ∉ name.toList := by
  obtain ⟨chars, read, rfl⟩ := Option.map_eq_some_iff.mp spelled
  rw [String.toList_ofList]
  clear spelled
  induction tokens generalizing chars with
  | nil =>
      cases read
      simp
  | cons token rest ih =>
      rw [List.mapM_cons] at read
      obtain ⟨c, here, read⟩ := Option.bind_eq_some_iff.mp read
      obtain ⟨others, later, read⟩ := Option.bind_eq_some_iff.mp read
      cases read
      obtain ⟨first, noneLater⟩ := not_or.mp (mt List.mem_cons.mpr noSlash)
      cases token <;> cases here
      simp_all [HasNoSlash]

end Tokens

section Patterns

/-- A literal component and a special one both go on from a folder. -/
theorem isFolder_of_mem_step {disk other : Disk} {tokens : List Token} {path folder : Path}
    (proper : disk.IsProper) (noSlash : HasNoSlash tokens) (listed : folder ∈ step disk tokens path)
    (found : other.isFolder folder = true) : other.isFolder path = true := by
  have joined {name : String} (relative : Path.isAbsolute ⟨name⟩ = false)
      (same : folder = path.join name) : other.isFolder path = true :=
    Disk.isFolder_of_exists? relative (Disk.exists?_of_isFolder (same ▸ found))
  rw [step] at listed
  split at listed
  · rename_i name spelled
    rw [stepWritten] at listed
    split at listed
    · exact joined (Path.isAbsolute_of_noSlash (noSlash_of_literal? noSlash spelled))
        (List.mem_singleton.mp listed)
    · cases listed
  · split at listed
    · rcases List.mem_append.mp listed with named | special
      · exact isFolder_of_mem_foldersNamed proper named found
      · rw [stepSpecial] at special
        split at special
        · obtain ⟨name, dots, same⟩ := List.mem_map.mp special
          have isDots : name = "." ∨ name = ".." := by
            simpa using List.mem_of_mem_filter dots
          refine @joined name ?_ same.symm
          rcases isDots with rfl | rfl <;> decide
        · cases special
    · cases listed

/-- What components lead to lies at the path that they start from, or below. -/
theorem isFolder_of_mem_follow {disk other : Disk} (proper : disk.IsProper) {deep : Bool}
    {parts : List (List Token)} {path folder : Path} (noSlash : ∀ tokens ∈ parts, HasNoSlash tokens)
    (listed : folder ∈ follow disk deep parts path) (found : other.isFolder folder = true) :
    other.isFolder path = true := by
  induction parts generalizing deep path with
  | nil =>
      cases deep with
      | true =>
          exact isFolder_of_mem_foldersBelow proper (List.mem_of_mem_tail listed) found
      | false =>
          rw [follow] at listed
          split at listed
          · rwa [← List.mem_singleton.mp listed]
          · cases listed
  | cons tokens rest ih =>
      obtain ⟨here, later⟩ := List.forall_mem_cons.mp noSlash
      rw [follow] at listed
      split at listed
      · exact ih later listed
      · split at listed
        · obtain ⟨next, named, listed⟩ := List.mem_flatMap.mp listed
          obtain ⟨below, inside, named⟩ := List.mem_flatMap.mp named
          exact isFolder_of_mem_foldersBelow proper inside
            (isFolder_of_mem_foldersNamed proper named (ih later listed))
        · obtain ⟨next, stepped, listed⟩ := List.mem_flatMap.mp listed
          exact isFolder_of_mem_step proper here stepped (ih later listed)

variable {before after : Disk}

/-- Components lead to folders alone. -/
theorem isFolder_follow (proper : before.IsProper) {deep : Bool} {parts : List (List Token)}
    {path folder : Path} (listed : folder ∈ follow before deep parts path) :
    before.isFolder folder = true := by
  induction parts generalizing deep path with
  | nil =>
      cases deep with
      | true =>
          have all := (filter_foldersBelow proper proper (fun _ held => held) path).1
          exact List.filter_eq_self.mp all _ (List.mem_of_mem_tail listed)
      | false =>
          rw [follow] at listed
          split at listed
          · rename_i found
            rwa [List.mem_singleton.mp listed]
          · cases listed
  | cons tokens rest ih =>
      rw [follow] at listed
      split at listed
      · exact ih listed
      · split at listed
        · obtain ⟨next, _, listed⟩ := List.mem_flatMap.mp listed
          exact ih listed
        · obtain ⟨next, _, listed⟩ := List.mem_flatMap.mp listed
          exact ih listed

theorem filter_step (proper : before.IsProper) (alsoProper : after.IsProper)
    (grown : Disk.KeepsFolders before after) {tokens : List Token} (noSlash : HasNoSlash tokens)
    (path : Path) :
    (step after tokens path).filter before.isFolder =
      (step before tokens path).filter before.isFolder := by
  cases found : before.isFolder path with
  | false =>
      have nothing {disk : Disk} (proper : disk.IsProper) :
          (step disk tokens path).filter before.isFolder = [] := by
        rw [List.filter_eq_nil_iff]
        intro folder listed was
        rw [isFolder_of_mem_step proper noSlash listed was] at found
        cases found
      rw [nothing proper, nothing alsoProper]
  | true =>
      have stays := grown.isFolder found
      rw [step, step]
      split
      · rename_i name spelled
        rw [stepWritten, stepWritten, found, stays]
        cases was : before.isFolder (path.join name) with
        | true =>
            rw [Disk.exists?_of_isFolder was, Disk.exists?_of_isFolder (grown.isFolder was)]
        | false =>
            -- a file at a written component leads nowhere
            have nothing (taken : Bool) :
                (if taken then [path.join name] else []).filter before.isFolder = [] := by
              cases taken <;> simp [was]
            rw [nothing, nothing]
      · have named := filter_foldersNamed proper alsoProper grown tokens path
        have same := filter_foldersNamed proper proper (fun _ held => held) tokens path
        rw [if_pos found, if_pos stays, List.filter_append, List.filter_append, named, same]

theorem flatMap_eq_of_filter {α β : Type} {p : α → Bool} {f : α → List β} {xs ys : List α}
    (nothing : ∀ x, p x = false → f x = []) (same : xs.filter p = ys.filter p) :
    xs.flatMap f = ys.flatMap f := by
  have kept (xs : List α) : (xs.filter p).flatMap f = xs.flatMap f := by
    induction xs with
    | nil => rfl
    | cons x rest ih =>
        cases held : p x with
        | true => rw [List.filter_cons_of_pos held, List.flatMap_cons, List.flatMap_cons, ih]
        | false =>
            rw [List.filter_cons_of_neg (by simp [held]), List.flatMap_cons, nothing x held, ih]
            rfl
  rw [← kept xs, same, kept]

/-- Of what components lead to, what they led to before. -/
theorem filter_follow (proper : before.IsProper) (alsoProper : after.IsProper)
    (grown : Disk.KeepsFolders before after) {deep : Bool} {parts : List (List Token)}
    (noSlash : ∀ tokens ∈ parts, HasNoSlash tokens) (path : Path) :
    (follow after deep parts path).filter before.isFolder = follow before deep parts path := by
  induction parts generalizing deep path with
  | nil =>
      cases deep with
      | true => exact (filter_foldersBelow proper alsoProper grown path).2
      | false =>
          rw [follow, follow]
          cases was : before.isFolder path with
          | true => simp [grown.isFolder was, was]
          | false => cases after.isFolder path <;> simp [was]
  | cons tokens rest ih =>
      obtain ⟨here, later⟩ := List.forall_mem_cons.mp noSlash
      have nothing : ∀ next, before.isFolder next = false → follow before false rest next = [] := by
        intro next absent
        rw [List.eq_nil_iff_forall_not_mem]
        intro folder listed
        have was := isFolder_of_mem_follow proper later listed (isFolder_follow proper listed)
        rw [absent] at was
        cases was
      rw [follow, follow]
      split
      · exact ih later path
      · split
        · rw [List.filter_flatMap]
          simp only [ih later]
          refine flatMap_eq_of_filter nothing ?_
          have same : Disk.KeepsFolders before before := fun _ held => held
          rw [List.filter_flatMap, List.filter_flatMap]
          simp only [filter_foldersNamed proper alsoProper grown, filter_foldersNamed proper proper same]
          refine flatMap_eq_of_filter (fun next absent => (folders_eq_nil absent tokens).2) ?_
          rw [(filter_foldersBelow proper alsoProper grown path).1,
            (filter_foldersBelow proper proper same path).1]
        · rw [List.filter_flatMap]
          simp only [ih later]
          exact flatMap_eq_of_filter nothing (filter_step proper alsoProper grown here path)

/-- A pattern stands for what it stood for, when folders only come. -/
theorem filter_folders? (proper : before.IsProper) (alsoProper : after.IsProper)
    (grown : Disk.KeepsFolders before after) (pattern : String) :
    (folders? after pattern).map (List.filter before.isFolder) = folders? before pattern := by
  rw [folders?, folders?]
  cases read : (components pattern).mapM parse? with
  | none => rfl
  | some parts =>
      exact congrArg some
        (filter_follow proper alsoProper grown (hasNoSlash_of_components read) ⟨"/"⟩)

end Patterns

end WorkspaceBuild.Wildcard
