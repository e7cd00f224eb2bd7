import WorkspaceBuild.Proofs.Disk.Confined
import WorkspaceBuild.Proofs.Scan

/-! # Names on a disk

A path leads to places of plain names alone. So what is written along paths keeps a disk one as file
systems have them.
-/

namespace WorkspaceBuild

namespace Place

variable {place : Place} {pieces : List String}

/-- A piece that says something and does not lead out is a plain name. -/
theorem isPlain_of_piece {piece : String} (noSlash : '/' ∉ piece.toList)
    (notVoid : ¬ Path.isVoid piece = true) (notParent : piece ≠ "..") : Path.IsPlain piece :=
  ⟨Bool.eq_false_iff.mpr notVoid, notParent, noSlash⟩

theorem isPlain_follow (plain : ∀ name ∈ place, Path.IsPlain name)
    (noSlash : ∀ piece ∈ pieces, '/' ∉ piece.toList) :
    ∀ name ∈ place.follow pieces, Path.IsPlain name := by
  induction pieces generalizing place with
  | nil => exact plain
  | cons piece rest ih =>
      obtain ⟨here, later⟩ := List.forall_mem_cons.mp noSlash
      rw [follow]
      split
      · exact ih plain later
      rename_i notVoid
      split
      · exact ih (fun name listed => plain name (List.mem_of_mem_tail listed)) later
      · rename_i notParent
        exact ih (List.forall_mem_cons.mpr ⟨isPlain_of_piece here notVoid notParent, plain⟩) later

theorem isPlain_trail (plain : ∀ name ∈ place, Path.IsPlain name)
    (noSlash : ∀ piece ∈ pieces, '/' ∉ piece.toList) :
    ∀ other ∈ place.trail pieces, ∀ name ∈ other, Path.IsPlain name := by
  induction pieces generalizing place with
  | nil => exact List.forall_mem_nil _
  | cons piece rest ih =>
      obtain ⟨here, later⟩ := List.forall_mem_cons.mp noSlash
      rw [trail]
      split
      · exact ih plain later
      rename_i notVoid
      split
      · exact ih (fun name listed => plain name (List.mem_of_mem_tail listed)) later
      · rename_i notParent
        have longer := List.forall_mem_cons.mpr ⟨isPlain_of_piece here notVoid notParent, plain⟩
        exact List.forall_mem_cons.mpr
          ⟨fun name listed => longer name (List.mem_reverse.mp listed), ih longer later⟩

end Place

namespace Path

theorem isPlain_of_mem_target {path : Path} : ∀ name ∈ path.target, IsPlain name := fun name listed =>
  Place.isPlain_follow (List.forall_mem_nil _) (fun _ piece => Text.not_mem_of_mem_pieces piece) name
    (List.mem_reverse.mp listed)

theorem isPlain_of_mem_way {path : Path} : ∀ place ∈ path.way, ∀ name ∈ place, IsPlain name :=
  Place.isPlain_trail (List.forall_mem_nil _) fun _ piece =>
    Text.not_mem_of_mem_pieces (List.dropLast_subset _ piece)

end Path

namespace Disk

variable {disk before after : Disk} {files folders : List Place}

theorem isPlain_of_itemIn? {entries : List (String × Item)} {place : Place} {item : Item}
    (plain : Item.HavePlainNames entries) (found : itemIn? entries place = some item) :
    ∀ name ∈ place, Path.IsPlain name := by
  induction place generalizing entries with
  | nil => exact List.forall_mem_nil _
  | cons name rest ih =>
      have here {child : Item} (there : Item.child? entries name = some child) :=
        Item.havePlainNames_iff.mp plain _ (Assoc.mem_of_get? there)
      cases rest with
      | nil => exact List.forall_mem_singleton.mpr (here found).1
      | cons next rest =>
          rw [itemIn?_cons, heldIn] at found
          cases child : Item.child? entries name with
          | none =>
              rw [child, Option.map_none, Option.getD_none, itemIn?_empty] at found
              cases found
          | some inner =>
              rw [child] at found
              refine List.forall_mem_cons.mpr ⟨(here child).1, ih ?_ found⟩
              cases inner with
              | file contents time => trivial
              | folder entries time => exact (here child).2

theorem havePlainNames_of_itemIn? {entries : List (String × Item)} (ordered : Item.InOrder entries)
    (plain : ∀ place item, itemIn? entries place = some item → ∀ name ∈ place, Path.IsPlain name) :
    Item.HavePlainNames entries := by
  rw [Item.havePlainNames_iff]
  rintro ⟨name, item⟩ listed
  have nodup : (Assoc.keys entries).Nodup := ordered.1.imp ne_of_lt
  have found : Item.child? entries name = some item := Assoc.get?_of_mem nodup listed
  refine ⟨plain [name] item found name List.mem_cons_self, ?_⟩
  cases item with
  | file contents time => trivial
  | folder inner time =>
      have smaller : sizeOf inner < sizeOf entries := by
        have less := List.sizeOf_lt_of_mem listed
        simp only [Prod.mk.sizeOf_spec, Item.folder.sizeOf_spec] at less
        omega
      refine havePlainNames_of_itemIn? (Item.IsOrdered.child? ordered.2 found)
        fun place item there other member => ?_
      cases place with
      | nil => cases member
      | cons next rest =>
          refine plain (name :: next :: rest) item ?_ other (List.mem_cons_of_mem _ member)
          rwa [itemIn?_cons, heldIn, found]
termination_by sizeOf entries

/-- A disk is as file systems have them when it is ordered and the names of all places are plain. -/
theorem isProper_iff (ordered : disk.IsOrdered) : disk.IsProper ↔
    ∀ place, disk.Holds place → ∀ name ∈ place, Path.IsPlain name := by
  constructor
  · rintro proper place held
    obtain ⟨item, there⟩ := holds_iff.mp held
    exact isPlain_of_itemIn? proper.plain there
  · intro plain
    exact ⟨ordered, havePlainNames_of_itemIn? ordered fun place item there =>
      plain place (holds_iff.mpr ⟨item, there⟩)⟩

/-- What is written and made under plain names keeps a disk proper. -/
theorem Confined.isProper (h : Confined before after files folders) (proper : before.IsProper)
    (plainFiles : ∀ place ∈ files, ∀ name ∈ place, Path.IsPlain name)
    (plainFolders : ∀ place ∈ folders, ∀ name ∈ place, Path.IsPlain name) : after.IsProper := by
  have plainBefore := (isProper_iff proper.ordered).mp proper
  refine (isProper_iff h.ordered).mpr fun place held => ?_
  rcases holds_cases held with isFile | folder
  · by_cases written : place ∈ files
    · exact plainFiles place written
    · rw [kindAt?_eq_true_iff, h.keepsFiles place written, ← kindAt?_eq_true_iff] at isFile
      exact plainBefore place (by rw [Holds, isFile]; rfl)
  · rcases h.made place folder with was | new
    · exact plainBefore place was.holds
    · exact plainFolders place new

end Disk

end WorkspaceBuild
