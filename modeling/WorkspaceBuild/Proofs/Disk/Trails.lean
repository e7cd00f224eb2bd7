import WorkspaceBuild.Proofs.Disk.Tree
import WorkspaceBuild.Proofs.Path

/-! # Trails of paths

A path leads to its target along its trail: the places of the folders on its way, and then its own.
Both are read off its text. A disk only decides whether the way is there, and once it is there it
stays, since no operation of a build takes a folder away.
-/

namespace WorkspaceBuild

namespace Place

/-- The place that pieces lead to. Places are kept in reverse. -/
def follow (place : Place) : List String → Place
  | [] => place
  | piece :: rest =>
      if Path.isVoid piece then follow place rest
      else if piece = ".." then follow place.tail rest
      else follow (piece :: place) rest

/-- The places that pieces lead through. -/
def trail (place : Place) : List String → List Place
  | [] => []
  | piece :: rest =>
      if Path.isVoid piece then trail place rest
      else if piece = ".." then trail place.tail rest
      else (piece :: place).reverse :: trail (piece :: place) rest

theorem follow_append (place : Place) (left right : List String) :
    follow place (left ++ right) = follow (follow place left) right := by
  induction left generalizing place with
  | nil => rfl
  | cons piece rest ih =>
      simp only [List.cons_append, follow]
      split
      · exact ih _
      · split <;> exact ih _

theorem trail_append (place : Place) (left right : List String) :
    trail place (left ++ right) = trail place left ++ trail (follow place left) right := by
  induction left generalizing place with
  | nil => rfl
  | cons piece rest ih =>
      simp only [List.cons_append, follow, trail]
      split
      · exact ih _
      · split
        · exact ih _
        · rw [ih, List.cons_append]

end Place

namespace Path

/-- The pieces of a path's text. -/
def pieces (path : Path) : List String := Text.pieces '/' path.text

/-- The place that a path leads to. -/
def target (path : Path) : Place := (Place.follow [] path.pieces).reverse

/-- The places that a path leads through, its target last if it ends in a name. -/
def trail (path : Path) : List Place := Place.trail [] path.pieces

/-- The places of the folders on the way of a path. -/
def way (path : Path) : List Place := Place.trail [] path.pieces.dropLast

/-- A path ends in a name, not in a slash or dots. -/
def EndsInName (path : Path) : Prop :=
  ∃ last, path.pieces.getLast? = some last ∧ isVoid last = false ∧ last ≠ ".."

theorem pieces_eq_append (path : Path) : ∃ last, path.pieces = path.pieces.dropLast ++ [last] ∧
    path.pieces.getLast? = some last := by
  have nonempty : path.pieces ≠ [] := Text.pieces_ne_nil _ _
  exact ⟨path.pieces.getLast nonempty, (List.dropLast_append_getLast nonempty).symm,
    List.getLast?_eq_some_getLast nonempty⟩

/-- Where a path ends in a name, its trail is its way and its target, which is in a folder. -/
theorem EndsInName.trail_eq {path : Path} (h : path.EndsInName) :
    path.trail = path.way ++ [path.target] ∧ path.target ≠ [] ∧
      path.target.dropLast = (Place.follow [] path.pieces.dropLast).reverse := by
  obtain ⟨last, isLast, named, notParent⟩ := h
  obtain ⟨piece, split, same⟩ := path.pieces_eq_append
  rw [isLast] at same
  obtain rfl := Option.some_inj.mp same
  have target : path.target = (last :: Place.follow [] path.pieces.dropLast).reverse := by
    rw [Path.target, split, Place.follow_append]
    simp [Place.follow, named, notParent]
  refine ⟨?_, by simp [target], by simp [target]⟩
  rw [target, trail, split, Place.trail_append]
  simp [Place.trail, named, notParent, way]

theorem way_subset_trail (path : Path) : path.way ⊆ path.trail := by
  obtain ⟨last, split, _⟩ := path.pieces_eq_append
  intro place member
  rw [trail, split, Place.trail_append]
  exact List.mem_append_left _ member

/-- The folder of a path is on its way. -/
theorem way_of_parent? {path folder : Path} (absolute : path.isAbsolute = true)
    (found : path.parent? = some folder) {place : Place} (member : place ∈ folder.trail) :
    place ∈ path.way := by
  obtain ⟨before, last, voids, rest, rfl⟩ := parent?_of_isAbsolute absolute found
  obtain ⟨_, split⟩ := pieces_of_isAbsolute absolute
  obtain ⟨dropped, whole, allVoid⟩ := dropVoidEnd_spec before
  have plain : ∀ part ∈ dropVoidEnd before, '/' ∉ part.toList := by
    intro part listed
    have isPiece : part ∈ Text.pieces '/' path.text := by
      rw [split, rest, whole]
      simp [listed]
    exact Text.not_mem_of_mem_pieces isPiece
  have through : place ∈ Place.trail [] (dropVoidEnd before) := by
    rw [trail, pieces, pieces_rooted plain] at member
    split at member
    · simp [Place.trail, isVoid] at member
    · exact member
  have above : ("" :: (before ++ last :: voids)).dropLast =
      "" :: (dropVoidEnd before ++ (dropped ++ (last :: voids).dropLast)) := by
    rw [List.dropLast_cons_of_ne_nil (by simp), List.dropLast_append_of_ne_nil (by simp),
      ← List.append_assoc, ← whole]
  rw [way, pieces, split, rest, above]
  change place ∈ Place.trail [] (dropVoidEnd before ++ _)
  rw [Place.trail_append]
  exact List.mem_append_left _ through

end Path

namespace Disk

variable {disk : Disk}

/-- The way of a path is there. -/
def Reaches (disk : Disk) (path : Path) : Prop :=
  path.isAbsolute = true ∧ ∀ place ∈ path.way, disk.HoldsFolder place

theorem HoldsFolder.tail {place : Place} (h : disk.HoldsFolder place.reverse) :
    disk.HoldsFolder place.tail.reverse := by
  cases place with
  | nil => exact h
  | cons name rest => simpa using h.above

/-- Going on along pieces succeeds where there are folders all the way. -/
theorem enter_eq_ok_iff {place inner : Place} {pieces : List String} :
    disk.enter place pieces = .ok inner ↔
      inner = place.follow pieces ∧ ∀ p ∈ place.trail pieces, disk.HoldsFolder p := by
  induction pieces generalizing place with
  | nil => simp [enter, Place.follow, Place.trail, eq_comm]
  | cons piece rest ih =>
      simp only [enter, Place.follow, Place.trail]
      split
      · exact ih
      · split
        · exact ih
        · rw [List.forall_mem_cons, holdsFolder_iff]
          split
          · rename_i entries modified found
            rw [ih]
            refine and_congr_right fun _ => (and_iff_right ?_).symm
            exact ⟨entries, modified, found⟩
          · rename_i contents modified found
            simp only [found]
            simp
          · rename_i found
            simp only [found]
            simp

theorem HoldsFolder.follow {place inner : Place} {pieces : List String}
    (h : disk.HoldsFolder place.reverse) (entered : disk.enter place pieces = .ok inner) :
    disk.HoldsFolder inner.reverse := by
  obtain ⟨rfl, folders⟩ := enter_eq_ok_iff.mp entered
  clear entered
  induction pieces generalizing place with
  | nil => exact h
  | cons piece rest ih =>
      simp only [Place.follow, Place.trail] at folders ⊢
      split
      · rename_i isVoid
        rw [if_pos isVoid] at folders
        exact ih h folders
      · rename_i notVoid
        rw [if_neg notVoid] at folders
        split
        · rename_i isParent
          rw [if_pos isParent] at folders
          exact ih h.tail folders
        · rename_i isName
          rw [if_neg isName] at folders
          exact ih (folders _ List.mem_cons_self) fun p member =>
            folders p (List.mem_cons_of_mem _ member)

/-- A path names its target on every disk where its way is there. -/
theorem place_eq_ok_iff {path : Path} {place : Place} :
    disk.place path = .ok place ↔ disk.Reaches path ∧ place = path.target := by
  obtain ⟨last, split, isLast⟩ := path.pieces_eq_append
  have target : path.target =
      (Place.follow (Place.follow [] path.pieces.dropLast) [last]).reverse := by
    rw [Path.target, ← Place.follow_append, ← split]
  have walked (inner : Place) : disk.enter [] path.pieces.dropLast = .ok inner ↔
      inner = Place.follow [] path.pieces.dropLast ∧ ∀ p ∈ path.way, disk.HoldsFolder p :=
    enter_eq_ok_iff
  rw [Disk.place, Reaches]
  by_cases absolute : path.isAbsolute = true
  · simp only [if_pos absolute, Path.pieces] at isLast walked ⊢
    simp only [isLast]
    cases entered : disk.enter [] (Text.pieces '/' path.text).dropLast with
    | error fault =>
        simp only [reduceCtorEq, false_iff]
        rintro ⟨⟨_, folders⟩, _⟩
        have ok := (walked _).mpr ⟨rfl, folders⟩
        rw [entered] at ok
        cases ok
    | ok inner =>
        obtain ⟨same, folders⟩ := (walked inner).mp entered
        rw [target, Path.pieces, ← same]
        simp only [Place.follow, absolute, true_and]
        rw [and_iff_right folders]
        split
        · rw [Except.ok.injEq, eq_comm]
        · split
          · rw [Except.ok.injEq, eq_comm]
          · rw [Except.ok.injEq, eq_comm]
  · simp [absolute]

theorem not_reaches_of_place {path : Path} {fault : Fault}
    (unnamed : disk.place path = .error fault) : ¬ disk.Reaches path := by
  intro reaches
  have named := place_eq_ok_iff.mpr ⟨reaches, rfl⟩
  rw [unnamed] at named
  cases named

/-- A path that does not end in a name leads to a folder. -/
theorem Reaches.holdsFolder {path : Path} (h : disk.Reaches path) (noName : ¬ path.EndsInName) :
    disk.HoldsFolder path.target := by
  obtain ⟨last, split, isLast⟩ := path.pieces_eq_append
  have entered : disk.enter [] path.pieces.dropLast =
      .ok (Place.follow [] path.pieces.dropLast) := enter_eq_ok_iff.mpr ⟨rfl, h.2⟩
  have folder : disk.HoldsFolder (Place.follow [] path.pieces.dropLast).reverse :=
    HoldsFolder.follow (by exact holdsFolder_root) entered
  rw [Path.target, split, Place.follow_append]
  cases isVoid : Path.isVoid last with
  | true => simpa [Place.follow, isVoid] using folder
  | false =>
      have isParent : last = ".." := by
        by_contra isName
        exact noName ⟨last, isLast, isVoid, isName⟩
      rw [isParent] at isVoid ⊢
      simpa [Place.follow, isVoid] using folder.tail

/-- Where a path leads to a file or to nothing, it ends in a name. -/
theorem Reaches.endsInName {path : Path} (h : disk.Reaches path)
    (noFolder : ¬ disk.HoldsFolder path.target) : path.EndsInName := by
  by_contra noName
  exact noFolder (h.holdsFolder noName)

/-- The folder of the target of a path is there when its way is. -/
theorem Reaches.above {path : Path} (h : disk.Reaches path) (named : path.EndsInName) :
    disk.HoldsFolder path.target.dropLast := by
  obtain ⟨_, _, above⟩ := named.trail_eq
  have entered : disk.enter [] path.pieces.dropLast =
      .ok (Place.follow [] path.pieces.dropLast) := enter_eq_ok_iff.mpr ⟨rfl, h.2⟩
  rw [above]
  exact HoldsFolder.follow (by exact holdsFolder_root) entered

/-- What is at a path is what is at its target, once its way is there. -/
theorem modified?_isSome_iff {path : Path} :
    (disk.modified? path).isSome ↔ disk.Reaches path ∧ disk.Holds path.target := by
  rw [modified?, Option.isSome_map, Disk.item]
  cases named : disk.place path with
  | error fault =>
      simp [not_reaches_of_place named, bind, Except.bind, Except.toOption]
  | ok place =>
      obtain ⟨reaches, rfl⟩ := place_eq_ok_iff.mp named
      simp only [bind, Except.bind, reaches, true_and, holds_iff]
      cases disk.itemAt? path.target <;> simp [Except.toOption]

/-- The way to an output does not depend on the kind of its file. -/
theorem reaches_compiledPath_iff {folder : Path} {path : String} {kind : FileKind} :
    disk.Reaches (folder.join (compiledPath path kind)) ↔ disk.Reaches (folder.join path) := by
  have sameWay (stem : String) {ending : String} (plain : '/' ∉ ending.toList) :
      disk.Reaches (folder.join (stem ++ ending)) ↔ disk.Reaches (folder.join stem) := by
    rw [Path.join_append folder stem plain, Reaches, Reaches, Path.isAbsolute_append _ plain,
      Path.way, Path.way, Path.pieces, Path.pieces, Text.dropLast_pieces_append _ plain]
  rcases compiledPath_cases path kind with same | ⟨stem, pair, listed, rfl, output⟩
  · rw [same]
  · obtain ⟨plain, plainToo⟩ := noSlash_of_mem_compiledExtensions listed
    rw [output, sameWay stem plainToo, sameWay stem plain]

end Disk

end WorkspaceBuild
