import Mathlib.Data.List.Sort
import WorkspaceBuild.Proofs.Looks.Sessions

/-! # What has been asked of a session

A session is asked for scans while the disk changes, and cleared from time to time. Whatever has been
asked, it answers as a scan with the same key did that was the first to succeed since it was cleared,
and a scan of what is asked for would have found the same then.
-/

namespace WorkspaceBuild

namespace Scan

variable {scope other : Scope}

/-- Scopes that differ in spelling only: they have the same folder and mode and leave out the same
folders, in any order and any number of times. -/
structure Scope.Alike (scope other : Scope) : Prop where
  folder : scope.folder.components = other.folder.components
  full : scope.full = other.full
  excluded : ∀ cs, cs ∈ scope.excluded.map Path.components ↔ cs ∈ other.excluded.map Path.components

/-- Paths that are listed in any order are the same paths once they are sorted. -/
theorem sortedDistinct_congr {paths others : List Path}
    (same : ∀ cs, cs ∈ paths.map Path.components ↔ cs ∈ others.map Path.components) :
    (Path.sortedDistinct paths).map Path.components =
      (Path.sortedDistinct others).map Path.components := by
  have listed (paths : List Path) (cs : List Path.Component) :
      cs ∈ (Path.sortedDistinct paths).map Path.components ↔ cs ∈ paths.map Path.components := by
    simp only [List.mem_map]
    constructor
    · rintro ⟨p, member, rfl⟩
      exact ⟨p, Path.mem_of_mem_sortedDistinct member, rfl⟩
    · rintro ⟨p, member, rfl⟩
      exact Path.exists_mem_sortedDistinct member
  have keys (paths : List Path) : (Path.sortedDistinct paths).map Path.key =
      ((Path.sortedDistinct paths).map Path.components).map (List.map Path.Component.key) := by
    rw [List.map_map]
    rfl
  have sorted (paths : List Path) : ((Path.sortedDistinct paths).map Path.key).Pairwise (· < ·) :=
    List.pairwise_map.mpr (Path.pairwise_sortedDistinct paths)
  have alike : (Path.sortedDistinct paths).map Path.key =
      (Path.sortedDistinct others).map Path.key := by
    refine (sorted paths).eq_of_mem_iff (sorted others) fun k => ?_
    rw [keys, keys]
    simp only [List.mem_map (f := List.map Path.Component.key), listed, same]
  rw [keys, keys] at alike
  have injective := List.map_injective_iff.mpr Path.Component.key_injective
  exact List.map_injective_iff.mpr injective alike

theorem key_eq_iff : scope.key = other.key ↔ scope.Alike other := by
  constructor
  · intro same
    have listed {first second : Scope} (same : first.key = second.key) {cs : List Path.Component}
        (member : cs ∈ first.excluded.map Path.components) :
        cs ∈ second.excluded.map Path.components := by
      obtain ⟨e, left, rfl⟩ := List.mem_map.mp member
      obtain ⟨e', memberToo, spelled⟩ := exists_excluded_of_key same left
      exact List.mem_map.mpr ⟨e', memberToo, spelled⟩
    exact ⟨congrArg ScanKey.folder same, congrArg ScanKey.full same, fun _ =>
      ⟨listed same, listed same.symm⟩⟩
  · rintro ⟨folder, full, excluded⟩
    rw [Scope.key, Scope.key, folder, full, sortedDistinct_congr excluded]

end Scan

namespace Session

/-- A scan that a session is asked for, with the disk of that moment. -/
structure Request where
  disk : Disk
  moduleName : String
  scope : Scan.Scope

namespace Request

variable {r q : Request}

/-- What scanning the folder finds. -/
def run (r : Request) : Except BuildError (List ScannedFile) :=
  Scan.run r.disk r.moduleName r.scope

/-- Whether an earlier request leaves an answer to a later one. -/
def leaves (q r : Request) : Bool := decide (q.scope.key = r.scope.key) && q.run.toOption.isSome

theorem leaves_eq_true_iff :
    q.leaves r = true ↔ q.scope.Alike r.scope ∧ ∃ files, q.run = .ok files := by
  rw [leaves, Bool.and_eq_true, decide_eq_true_iff, Scan.key_eq_iff, Option.isSome_iff_exists]
  simp only [toOption_eq_some_iff]

theorem leaves_congr {r' : Request} (same : r.scope.key = r'.scope.key) (q : Request) :
    q.leaves r = q.leaves r' := by
  rw [leaves, leaves, same]

end Request

/-- What is done with a session. -/
inductive Use where
  | scan (r : Request)
  | clear

/-- The session after what has been done with it. -/
def after (uses : List Use) : Session :=
  uses.foldl (fun session use =>
    match use with
    | .scan r => (session.scan r.disk r.moduleName r.scope).1
    | .clear => session.clear) .empty

/-- What has been asked for since the session was last cleared. -/
def sinceClear (uses : List Use) : List Request :=
  uses.foldl (fun asked use =>
    match use with
    | .scan r => asked ++ [r]
    | .clear => []) []

/-- How many requests come after one that leaves an answer to them. -/
def answered (asked : List Request) : Nat :=
  asked.zipIdx.countP fun (r, i) => (asked.take i).any (·.leaves r)

variable {session : Session} {asked : List Request} {r : Request}

theorem answered_concat (asked : List Request) (r : Request) :
    answered (asked ++ [r]) = answered asked + if asked.any (·.leaves r) then 1 else 0 := by
  have others : asked.zipIdx.countP (fun (q, i) => ((asked ++ [r]).take i).any (·.leaves q)) =
      answered asked := by
    refine List.countP_congr fun pair listed => ?_
    have short : pair.2 < asked.length := by
      simpa using (List.mem_zipIdx listed).2.1
    simp only [List.take_append_of_le_length short.le]
  rw [answered, List.zipIdx_append, List.countP_append, others]
  simp [List.countP_cons]

/-- A session that keeps for each key what was found by the first request that has found something. -/
structure Recalls (session : Session) (asked : List Request) : Prop where
  kept : ∀ r : Request, session.scans.lookup r.scope.key =
    (asked.find? (·.leaves r)).bind (·.run.toOption)
  hits : session.hits = answered asked

theorem Recalls.empty : Session.empty.Recalls [] := ⟨fun _ => rfl, rfl⟩

theorem exists_run_of_find? {q : Request} (found : asked.find? (·.leaves r) = some q) :
    q.scope.key = r.scope.key ∧ ∃ files, q.run = .ok files := by
  have leaves := List.find?_some found
  obtain ⟨alike, ran⟩ := Request.leaves_eq_true_iff.mp leaves
  exact ⟨Scan.key_eq_iff.mpr alike, ran⟩

theorem find?_concat (asked : List Request) (q r : Request) :
    (asked ++ [q]).find? (·.leaves r) =
      (asked.find? (·.leaves r)).or (if q.leaves r then some q else none) := by
  rw [List.find?_append, List.find?_singleton]

theorem any_leaves (asked : List Request) (r : Request) :
    asked.any (·.leaves r) = (asked.find? (·.leaves r)).isSome := by
  rw [Bool.eq_iff_iff, List.any_eq_true, List.find?_isSome]

/-- An earlier request leaves the answer. -/
theorem Recalls.scan_of_some (recalls : session.Recalls asked) {q : Request}
    (found : asked.find? (·.leaves r) = some q) :
    (session.scan r.disk r.moduleName r.scope).1.Recalls (asked ++ [r]) ∧
      (session.scan r.disk r.moduleName r.scope).2 = q.run := by
  obtain ⟨key, files, ran⟩ := exists_run_of_find? found
  have kept := recalls.kept r
  rw [found, Option.bind_some, toOption_eq_some_iff.mpr ran] at kept
  have answer : session.scan r.disk r.moduleName r.scope =
      ({ session with hits := session.hits + 1 }, .ok files) := by
    rw [Session.scan, kept]
  rw [answer, ran]
  refine ⟨⟨fun r' => ?_, ?_⟩, rfl⟩
  · change session.scans.lookup r'.scope.key = _
    rw [recalls.kept, find?_concat]
    cases earlier : asked.find? (·.leaves r') with
    | some q' => rw [Option.some_or]
    | none =>
        -- nothing was found under that key, so it is not the key of the request
        have apart : r.leaves r' = false := by
          rw [Request.leaves, Bool.and_eq_false_iff]
          refine .inl (decide_eq_false fun same => ?_)
          simp only [← Request.leaves_congr same, found] at earlier
          cases earlier
        rw [apart]
        rfl
  · rw [answered_concat, any_leaves, found, Option.isSome_some, if_pos rfl, ← recalls.hits]

/-- The folder is scanned, and what is found is kept. -/
theorem Recalls.scan_of_none (recalls : session.Recalls asked)
    (found : asked.find? (·.leaves r) = none) :
    (session.scan r.disk r.moduleName r.scope).1.Recalls (asked ++ [r]) ∧
      (session.scan r.disk r.moduleName r.scope).2 = r.run := by
  have kept := recalls.kept r
  rw [found, Option.bind_none] at kept
  have hits : session.hits = answered (asked ++ [r]) := by
    rw [answered_concat, any_leaves, found, Option.isSome_none, if_neg Bool.false_ne_true,
      Nat.add_zero, recalls.hits]
  cases ran : r.run with
  | ok files =>
      have answer : session.scan r.disk r.moduleName r.scope =
          ({ session with scans := (r.scope.key, files) :: session.scans }, .ok files) := by
        rw [Session.scan, kept, show Scan.run r.disk r.moduleName r.scope = _ from ran]
      rw [answer]
      refine ⟨⟨fun r' => ?_, hits⟩, rfl⟩
      rw [List.lookup_cons, find?_concat, recalls.kept]
      by_cases same : r.scope.key = r'.scope.key
      · have leaves : r.leaves r' = true := by simp [Request.leaves, same, ran, Except.toOption]
        simp only [Request.leaves_congr same] at found
        rw [found, leaves, same, beq_self_eq_true]
        exact (toOption_eq_some_iff.mpr ran).symm
      · have leaves : r.leaves r' = false := by simp [Request.leaves, same]
        rw [leaves, beq_false_of_ne (Ne.symm same)]
        simp
  | error e =>
      have answer : session.scan r.disk r.moduleName r.scope = (session, .error e) := by
        rw [Session.scan, kept, show Scan.run r.disk r.moduleName r.scope = _ from ran]
      rw [answer]
      refine ⟨⟨fun r' => ?_, hits⟩, rfl⟩
      have leaves : r.leaves r' = false := by simp [Request.leaves, ran, Except.toOption]
      rw [find?_concat, recalls.kept, leaves]
      simp

theorem recalls_after (uses : List Use) : (after uses).Recalls (sinceClear uses) := by
  induction uses using List.reverseRecOn with
  | nil => exact .empty
  | append_singleton uses use ih =>
      rw [after, sinceClear, List.foldl_append, List.foldl_append]
      cases use with
      | scan r =>
          cases found : (sinceClear uses).find? (·.leaves r) with
          | none => exact (ih.scan_of_none found).1
          | some q => exact (ih.scan_of_some found).1
      | clear => exact .empty

/-! ## Answers -/

/-- Of some requests, the first that finds something for the scope of another, however spelled. -/
def IsFirst (asked : List Request) (r first : Request) : Prop :=
  ∃ before later, asked = before ++ first :: later ∧ first.scope.Alike r.scope ∧
    (∃ files, first.run = .ok files) ∧
      ∀ q ∈ before, q.scope.Alike r.scope → ∀ files, q.run ≠ .ok files

theorem isFirst_iff {first : Request} :
    IsFirst asked r first ↔ asked.find? (·.leaves r) = some first := by
  have leavesNot (q : Request) :
      (!q.leaves r) = true ↔ (q.scope.Alike r.scope → ∀ files, q.run ≠ .ok files) := by
    rw [Bool.not_eq_true', ← Bool.not_eq_true, Request.leaves_eq_true_iff]
    simp only [not_and, not_exists, ne_eq]
  simp only [IsFirst, List.find?_eq_some_iff_append, leavesNot, Request.leaves_eq_true_iff]
  constructor
  · rintro ⟨before, later, split, alike, ran, none⟩
    exact ⟨⟨alike, ran⟩, before, later, split, none⟩
  · rintro ⟨⟨alike, ran⟩, before, later, split, none⟩
    exact ⟨before, later, split, alike, ran, none⟩

/-- Where a request has named a file, another one names it too. A path to a folder finds the folder
however it is spelled, but a path that ends in a slash finds no file. -/
def Request.Finds (q r : Request) : Prop :=
  q.disk.isFile q.scope.folder = true → q.disk.exists? r.scope.folder = true

theorem Request.run_of_alike {q : Request} {files : List ScannedFile}
    (alike : q.scope.Alike r.scope) (ran : q.run = .ok files) (finds : q.Finds r) :
    Scan.run q.disk r.moduleName r.scope = .ok files := by
  refine Scan.run_of_key (Scan.key_eq_iff.mpr alike) ran ?_
  cases item : q.disk.item q.scope.folder with
  | error fault => simp [Request.run, Scan.run, item] at ran
  | ok entry =>
      cases entry with
      | file contents time => exact finds (by simp [Disk.isFile, item, Except.toOption, Item.isFile])
      | folder entries time =>
          exact Disk.exists?_of_isFolder
            (Disk.isFolder_spelled alike.folder (Disk.isFolder_of_item item))

/-- Whatever has been done with a session, it answers as the first request did since it was cleared
that has found something for the scope. This is what a scan with the very arguments would have found
then, unless they spell what was a file as a folder. On a disk that stays as it is, it is what a scan
finds. Nothing changes when a scan fails, and the hits are the answers that were left by an earlier
request. -/
theorem scan_isTransparent (uses : List Use) (r : Request) :
    let scanned := (after uses).scan r.disk r.moduleName r.scope
    (∀ files, scanned.2 = .ok files ↔
      ∃ first, IsFirst (sinceClear uses ++ [r]) r first ∧ first.run = .ok files) ∧
    (∀ first files, IsFirst (sinceClear uses ++ [r]) r first → first.run = .ok files →
      first.Finds r → Scan.run first.disk r.moduleName r.scope = .ok files) ∧
    ((∀ q ∈ sinceClear uses, q.disk = r.disk ∧ (q.scope.Alike r.scope → q.Finds r)) →
      scanned.2 = r.run) ∧
    (∀ e, scanned.2 = .error e → r.run = .error e ∧ scanned.1 = after uses) ∧
    (after uses).hits = answered (sinceClear uses) := by
  intro scanned
  have recalls := recalls_after uses
  have unchanged : ∀ e, scanned.2 = .error e → scanned.1 = after uses := by
    intro e failed
    rcases (after uses).scan_cases r.disk r.moduleName r.scope with
      ⟨_, _, same⟩ | ⟨_, _, same⟩ | ⟨_, same⟩
    · cases (congrArg Prod.snd same).symm.trans failed
    · cases (congrArg Prod.snd same).symm.trans failed
    · exact congrArg Prod.fst same
  refine ⟨fun files => ?_, fun first files isFirst ran finds => ?_, fun still => ?_, fun e failed => ?_,
    recalls.hits⟩
  · simp only [isFirst_iff, find?_concat]
    cases found : (sinceClear uses).find? (·.leaves r) with
    | some q =>
        have answer : scanned.2 = q.run := (recalls.scan_of_some found).2
        simp [answer]
    | none =>
        have answer : scanned.2 = r.run := (recalls.scan_of_none found).2
        rw [answer, Option.none_or]
        constructor
        · intro ran
          have leaves : r.leaves r = true := by simp [Request.leaves, ran, Except.toOption]
          exact ⟨r, if_pos leaves, ran⟩
        · rintro ⟨first, isFirst, ran⟩
          split at isFirst
          · cases isFirst
            exact ran
          · cases isFirst
  · obtain ⟨_, _, _, alike, _⟩ := isFirst
    exact Request.run_of_alike alike ran finds
  · cases found : (sinceClear uses).find? (·.leaves r) with
    | some q =>
        obtain ⟨same, finds⟩ := still q (List.mem_of_find?_eq_some found)
        obtain ⟨key, files, ran⟩ := exists_run_of_find? found
        have alike := Scan.key_eq_iff.mp key
        have again := Request.run_of_alike alike ran (finds alike)
        rw [same] at again
        exact ((recalls.scan_of_some found).2.trans ran).trans again.symm
    | none => exact (recalls.scan_of_none found).2
  · refine ⟨?_, unchanged e failed⟩
    cases found : (sinceClear uses).find? (·.leaves r) with
    | some q =>
        obtain ⟨_, files, ran⟩ := exists_run_of_find? found
        cases ((recalls.scan_of_some found).2.trans ran).symm.trans failed
    | none => exact (recalls.scan_of_none found).2.symm.trans failed

/-- A file is answered with although its path is spelled as one of a folder, which scanning refuses. -/
theorem not_isTransparent_respelled :
    let disk : Disk := ⟨[("a.ts", .file (.text "") 5)]⟩
    let q : Request := ⟨disk, "w", ⟨⟨"/a.ts"⟩, false, []⟩⟩
    let r : Request := ⟨disk, "w", ⟨⟨"/a.ts/"⟩, false, []⟩⟩
    (∃ files, ((after [.scan q]).scan r.disk r.moduleName r.scope).2 = .ok files) ∧
      ∀ first, IsFirst (sinceClear [.scan q] ++ [r]) r first →
        ∀ files, Scan.run first.disk r.moduleName r.scope ≠ .ok files := by
  intro disk q r
  have ran : q.run = .ok [⟨"", .root, .unknown, none, 5⟩] := eq_ok_of_toOption (by decide)
  have leaves : q.leaves r = true :=
    Request.leaves_eq_true_iff.mpr ⟨⟨by decide, rfl, fun _ => Iff.rfl⟩, _, ran⟩
  have found : (sinceClear [.scan q]).find? (·.leaves r) = some q := List.find?_cons_of_pos leaves
  refine ⟨⟨_, ((recalls_after [.scan q]).scan_of_some found).2.trans ran⟩, fun first isFirst => ?_⟩
  rw [isFirst_iff, find?_concat, found, Option.some_or] at isFirst
  cases isFirst
  have fails : (Scan.run disk "w" ⟨⟨"/a.ts/"⟩, false, []⟩).toOption = none := by decide
  intro files ran
  rw [toOption_eq_some_iff.mpr ran] at fails
  cases fails

end Session

end WorkspaceBuild
