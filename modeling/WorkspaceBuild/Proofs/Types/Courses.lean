import WorkspaceBuild.Proofs.Types.Plans
import WorkspaceBuild.Proofs.Types.Nesting

/-! # Courses of resolutions

A resolution that fails gives no account of what it did before. Here it is followed with a course that
is kept in any case: what is remembered, and which types have become shapes or classes. Each type does
so once at most. The type that it is remembered by is known from then on, so that it is a pointer
whenever it is met again.
-/

namespace WorkspaceBuild.TypeResolver

/-- How far a resolution has come: what it remembers, and the types that have become shapes or
classes, the latest first. -/
structure Course where
  visited : Visited := {}
  expanded : List TypeId := []

/-- A resolution with the course that it takes, whether it fails or not. -/
def Tracked (α : Type) : Type := Course → Except ResolveError α × Course

namespace Tracked

variable {α β : Type}

instance : Monad Tracked where
  pure a := fun course => (.ok a, course)
  bind first next := fun course =>
    match first course with
    | (.ok a, course) => next a course
    | (.error e, course) => (.error e, course)

def fail (e : ResolveError) : Tracked α := fun course => (.error e, course)

/-- A resolution that describes no type on its way. -/
def lift (run : Resolution α) : Tracked α := fun course =>
  match run course.visited with
  | .ok (a, visited) => (.ok a, { course with visited })
  | .error e => (.error e, course)

/-- A pointer to a type, or a number by which it is remembered from now on. -/
def meet (id : TypeId) (name : Option String) : Tracked (ResolvedType ⊕ Nat) := fun course =>
  match course.visited.pointer? id with
  | some pointer => (.ok (.inl pointer), course)
  | none =>
      let (refId, visited) := course.visited.remember id name
      (.ok (.inr refId), { course with visited })

end Tracked

end WorkspaceBuild.TypeResolver

namespace WorkspaceBuild

/-- Whether a description is a shape or a class. -/
def ResolvedType.isNode : ResolvedType → Bool
  | .managed .. => true
  | .shape .. => true
  | _ => false

namespace TypeResolver

section Tracking

variable (scope : Scope) (visit : TypeId → Tracked ResolvedType)

def trackAll : List TypeId → Tracked (List ResolvedType)
  | [] => return []
  | id :: rest => do
      let first ← visit id
      let others ← trackAll rest
      return first :: others

def trackFields : List PropertyData → Assoc String ResolvedType → Tracked (Assoc String ResolvedType)
  | [], fields => return fields
  | property :: rest, fields => do
      let type ← visit property.type
      trackFields rest (fields.put property.name type)

def trackMembers : List TypeId → Tracked (List ResolvedType × Bool × Bool)
  | [] => return ([], false, false)
  | id :: rest =>
      match scope.types.type? id with
      | none => .fail (.unknownType id)
      | some data =>
          if data.flags.meets TypeFlag.null then do
            let (members, _, optional) ← trackMembers rest
            return (members, true, optional)
          else if data.flags.meets TypeFlag.undefined then do
            let (members, nullable, _) ← trackMembers rest
            return (members, nullable, true)
          else do
            let member ← visit id
            let (members, nullable, optional) ← trackMembers rest
            return (member :: members, nullable, optional)

/-- Follow a plan with the course that this takes. -/
def Plan.track : Plan → Tracked ResolvedType
  | .answer t _ => return t
  | .bareArray => return .tuple [.unknown] true
  | .fail e => .fail e
  | .follow id => visit id
  | .library name arguments => do
      let arguments ← trackAll visit arguments
      return .literal name none arguments
  | .tuple elements array => do
      let elements ← trackAll visit elements
      return .tuple elements array
  | .managed id name moduleId arguments => do
      match ← Tracked.meet id (some name) with
      | .inl pointer => return pointer
      | .inr refId => do
          let arguments ← trackAll visit arguments
          return .managed name moduleId arguments refId
  | .shape id name properties mapped => do
      match ← Tracked.meet id name with
      | .inl pointer => return pointer
      | .inr refId => do
          let fields ← trackFields visit properties []
          return .shape name fields mapped refId
  | .compose operator members => do
      let (members, nullable, optional) ← trackMembers scope visit members
      Tracked.lift (TypeResolver.compose operator members nullable optional)

/-- Note that a type has become a shape or class. -/
def Course.note (id : TypeId) (t : ResolvedType) (course : Course) : Course :=
  if t.isNode then { course with expanded := id :: course.expanded } else course

end Tracking

/-- Resolve a type with the course that this takes. -/
def track (scope : Scope) : Nat → TypeId → Tracked ResolvedType
  | 0, _ => .fail (.tooNested maxDepth)
  | levels + 1, id => do
      let t ← (plan scope id).track scope (track scope levels)
      fun course => (.ok t, course.note id t)

theorem Course.note_visited (id : TypeId) (t : ResolvedType) (course : Course) :
    (course.note id t).visited = course.visited := by
  unfold Course.note
  split <;> rfl

/-- The course of the resolution of a type. -/
def courseOf (scope : Scope) (id : TypeId) : Course := (track scope (maxDepth + 1) id {}).2

section Agreement

variable {α β : Type} {scope : Scope} {m : Tracked α} {run : Resolution α}

/-- A resolution is followed when it answers the same and remembers the same. -/
def Tracks (m : Tracked α) (run : Resolution α) : Prop :=
  ∀ course, run course.visited = (m course).1.map fun a => (a, (m course).2.visited)

namespace Tracks

theorem pure (a : α) : Tracks (pure a : Tracked α) fun visited => .ok (a, visited) :=
  fun _ => rfl

theorem fail (e : ResolveError) : Tracks (.fail e : Tracked α) fun _ => .error e := fun _ => rfl

theorem lift (run : Resolution α) : Tracks (Tracked.lift run) run := by
  intro course
  unfold Tracked.lift
  cases run course.visited with
  | error e => rfl
  | ok result => rfl

theorem bind {next : α → Tracked β} {later : α → Resolution β} (first : Tracks m run)
    (each : ∀ a, Tracks (next a) (later a)) :
    Tracks (m >>= next) fun visited => run visited >>= fun (a, visited) => later a visited := by
  intro course
  have here := first course
  simp only [here, Bind.bind, Except.bind]
  obtain ⟨outcome, middle⟩ := m course
  cases outcome with
  | error e => rfl
  | ok a => exact each a middle

theorem map (first : Tracks m run) (f : α → β) :
    Tracks (do return f (← m)) fun visited => run visited >>= fun (a, visited) => .ok (f a, visited) :=
  first.bind fun a => pure (f a)

end Tracks

/-- A type that is met again is a pointer, and any other is remembered before its parts. -/
theorem tracks_meet (id : TypeId) (name : Option String) {parts : Nat → Tracked ResolvedType}
    {later : Nat → Resolution ResolvedType} (each : ∀ refId, Tracks (parts refId) (later refId)) :
    Tracks (do
        match ← Tracked.meet id name with
        | .inl pointer => return pointer
        | .inr refId => parts refId)
      fun visited =>
        match visited.pointer? id with
        | some pointer => .ok (pointer, visited)
        | none => later (visited.remember id name).1 (visited.remember id name).2 := by
  intro course
  simp only [Tracked.meet, Bind.bind]
  cases course.visited.pointer? id with
  | some pointer => rfl
  | none => exact each _ { course with visited := (course.visited.remember id name).2 }

section Steps

variable {visit : TypeId → Tracked ResolvedType} {plainly : TypeId → Resolution ResolvedType}
  (each : ∀ id, Tracks (visit id) (plainly id))

include each

theorem tracks_trackAll (ids : List TypeId) : Tracks (trackAll visit ids) (resolveAll plainly ids) := by
  induction ids with
  | nil => exact .pure []
  | cons id rest ih => exact (each id).bind fun first => ih.map (first :: ·)

theorem tracks_trackFields (properties : List PropertyData) (fields : Assoc String ResolvedType) :
    Tracks (trackFields visit properties fields) (resolveFields plainly properties fields) := by
  induction properties generalizing fields with
  | nil => exact .pure fields
  | cons property rest ih => exact (each property.type).bind fun type => ih _

theorem tracks_trackMembers (ids : List TypeId) :
    Tracks (trackMembers scope visit ids) (resolveMembers scope plainly ids) := by
  induction ids with
  | nil => exact .pure _
  | cons id rest ih =>
      rw [trackMembers, funext fun visited => resolveMembers.eq_2 scope plainly visited id rest]
      cases scope.types.type? id with
      | none => exact .fail _
      | some data =>
          simp only
          cases data.flags.meets TypeFlag.null with
          | true => exact ih.map fun found => (found.1, true, found.2.2)
          | false =>
              simp only [Bool.false_eq_true, if_false]
              cases data.flags.meets TypeFlag.undefined with
              | true => exact ih.map fun found => (found.1, found.2.1, true)
              | false =>
                  exact (each id).bind fun member =>
                    ih.map fun found => (member :: found.1, found.2.1, found.2.2)

/-- What a plan does is told whether it fails or not. -/
theorem tracks_plan (scope : Scope) (p : Plan) : Tracks (p.track scope visit) (p.run scope plainly) := by
  cases p with
  | answer t => exact .pure t
  | bareArray => exact .pure _
  | fail e => exact .fail e
  | follow id => exact each id
  | library name arguments => exact (tracks_trackAll each arguments).map (ResolvedType.literal name none)
  | tuple elements array => exact (tracks_trackAll each elements).map (ResolvedType.tuple · array)
  | managed id name moduleId arguments =>
      exact tracks_meet id (some name) fun refId =>
        (tracks_trackAll each arguments).map (ResolvedType.managed name moduleId · refId)
  | shape id name properties mapped =>
      exact tracks_meet id name fun refId =>
        (tracks_trackFields each properties []).map (ResolvedType.shape name · mapped refId)
  | compose operator members =>
      exact (tracks_trackMembers each members).bind fun found => .lift _

end Steps

theorem tracks_track (scope : Scope) (levels : Nat) (id : TypeId) :
    Tracks (track scope levels id) (visit scope levels id) := by
  induction levels generalizing id with
  | zero => exact .fail _
  | succ levels ih =>
      intro course
      have followed := tracks_plan ih scope (plan scope id) course
      rw [visit, expand_eq_run, followed]
      simp only [track, Bind.bind]
      obtain ⟨outcome, after⟩ := (plan scope id).track scope (track scope levels) course
      cases outcome with
      | error e => rfl
      | ok t => simp only [Except.map, Course.note_visited]

end Agreement

section Roots

variable (scope : Scope)

/-- The first member that is more than a mark. -/
def firstMember? : List TypeId → Option TypeId
  | [] => none
  | id :: rest =>
      match scope.types.type? id with
      | none => none
      | some data =>
          if data.flags.meets TypeFlag.null then firstMember? rest
          else if data.flags.meets TypeFlag.undefined then firstMember? rest
          else some id

/-- The type that is looked at first, where no type is remembered before. -/
def Plan.next? : Plan → Option TypeId
  | .follow id => some id
  | .compose _ members => firstMember? scope members
  | _ => none

/-- The type leads, in so many steps, to one that is remembered by an id. Whenever it becomes a shape
or class, that type has just become one. -/
inductive Rooted : TypeId → TypeId → Nat → Prop
  | own {x root : TypeId} (own : (plan scope x).own? = some root) : Rooted x root 0
  | next {x n root : TypeId} {steps : Nat} (leads : (plan scope x).next? scope = some n)
      (onward : Rooted n root steps) : Rooted x root (steps + 1)

/-- A type does not lead further than another one to the same type. -/
def NotBeyond (limit x : TypeId) : Prop :=
  ∀ root steps most, Rooted scope x root steps → Rooted scope limit root most → steps ≤ most

end Roots

section Logs

variable {scope : Scope} {x root : TypeId} {steps : Nat}

theorem Plan.next?_eq_none {p : Plan} (own : p.own? = some root) : p.next? scope = none := by
  cases p <;> first | rfl | cases own

/-- A type leads to one other only, in one way. -/
theorem Rooted.unique {other : TypeId} {more : Nat} (first : Rooted scope x root steps)
    (second : Rooted scope x other more) : root = other ∧ steps = more := by
  induction first generalizing other more with
  | own own =>
      cases second with
      | own same => exact ⟨Option.some_inj.mp (own.symm.trans same), rfl⟩
      | next leads =>
          rw [Plan.next?_eq_none own] at leads
          cases leads
  | next leads _ ih =>
      cases second with
      | own own =>
          rw [Plan.next?_eq_none own] at leads
          cases leads
      | next same onward =>
          cases Option.some_inj.mp (leads.symm.trans same)
          obtain ⟨rfl, rfl⟩ := ih onward
          exact ⟨rfl, rfl⟩

/-- The numbers of the types remembered have all been handed out. -/
def Visited.IsCounted (visited : Visited) : Prop := ∀ entry ∈ visited.seen, entry.2.1 < visited.nextRef

/-- Each type is remembered once, under a number of its own that has been handed out. -/
structure Visited.IsSound (visited : Visited) : Prop where
  ids : visited.ids.Nodup
  numbers : (visited.seen.map fun entry => entry.2.1).Nodup
  handedOut : visited.IsCounted

theorem Visited.IsCounted.remember {visited : Visited} (counted : visited.IsCounted) (id : TypeId)
    (name : Option String) : (visited.remember id name).2.IsCounted := by
  intro entry listed
  obtain rfl | before := List.mem_cons.mp listed
  · exact Nat.lt_succ_self _
  · exact Nat.lt_succ_of_lt (counted entry before)

theorem Visited.IsSound.remember {visited : Visited} (sound : visited.IsSound) {id : TypeId}
    (new : id ∉ visited.ids) (name : Option String) : (visited.remember id name).2.IsSound where
  ids := List.nodup_cons.mpr ⟨new, sound.ids⟩
  numbers := by
    refine List.nodup_cons.mpr ⟨?_, sound.numbers⟩
    intro known
    obtain ⟨entry, listed, same⟩ := List.mem_map.mp known
    exact absurd same (Nat.ne_of_lt (sound.handedOut entry listed))
  handedOut := sound.handedOut.remember id name

/-- What happens to a course: nothing is forgotten, and each type that became a shape or class leads
to one that was remembered in the meantime. -/
structure Logs (scope : Scope) (within : TypeId → Prop) (before after : Course) : Prop where
  grows : before.visited.ids ⊆ after.visited.ids
  sound : before.visited.IsSound → after.visited.IsSound
  log : ∃ new, after.expanded = new ++ before.expanded ∧ new.Nodup ∧ ∀ x ∈ new, within x ∧
    ∃ root steps, Rooted scope x root steps ∧ root ∉ before.visited.ids ∧ root ∈ after.visited.ids

namespace Logs

variable {within further : TypeId → Prop} {before middle after : Course}

theorem refl (course : Course) : Logs scope within course course where
  grows _ known := known
  sound sound := sound
  log := ⟨[], rfl, List.nodup_nil, List.forall_mem_nil _⟩

theorem trans (first : Logs scope within before middle) (second : Logs scope within middle after) :
    Logs scope within before after where
  grows := List.Subset.trans first.grows second.grows
  sound sound := second.sound (first.sound sound)
  log := by
    obtain ⟨new, expanded, once, each⟩ := first.log
    obtain ⟨later, expandedToo, onceToo, eachLater⟩ := second.log
    refine ⟨later ++ new, by rw [expandedToo, expanded, List.append_assoc], ?_, ?_⟩
    · refine List.nodup_append.mpr ⟨onceToo, once, ?_⟩
      rintro x listedLater _ listed rfl
      obtain ⟨_, root, steps, rooted, _, known⟩ := each x listed
      obtain ⟨_, other, more, rootedToo, unknown, _⟩ := eachLater x listedLater
      obtain ⟨rfl, _⟩ := rooted.unique rootedToo
      exact unknown known
    · intro x listed
      obtain isLater | isEarlier := List.mem_append.mp listed
      · obtain ⟨inside, root, steps, rooted, unknown, known⟩ := eachLater x isLater
        exact ⟨inside, root, steps, rooted, fun early => unknown (first.grows early), known⟩
      · obtain ⟨inside, root, steps, rooted, unknown, known⟩ := each x isEarlier
        exact ⟨inside, root, steps, rooted, unknown, second.grows known⟩

/-- What is known before leads nowhere new. -/
theorem mono (logs : Logs scope within before after)
    (inside : ∀ x, within x → (∀ root steps, Rooted scope x root steps → root ∉ before.visited.ids) →
      further x) : Logs scope further before after where
  grows := logs.grows
  sound := logs.sound
  log := by
    obtain ⟨new, expanded, once, each⟩ := logs.log
    refine ⟨new, expanded, once, ?_⟩
    intro x listed
    obtain ⟨isWithin, root, steps, rooted, unknown, known⟩ := each x listed
    refine ⟨inside x isWithin ?_, root, steps, rooted, unknown, known⟩
    intro other more rootedToo
    obtain ⟨rfl, _⟩ := rooted.unique rootedToo
    exact unknown

/-- Handing out a number changes nothing else. -/
theorem renumber {visited : Visited} (same : visited.seen = before.visited.seen)
    (more : before.visited.nextRef ≤ visited.nextRef) :
    Logs scope within before { before with visited } where
  grows := by
    intro id known
    simpa only [Visited.ids, same] using known
  sound := by
    intro sound
    refine ⟨?_, ?_, ?_⟩
    · simpa only [Visited.ids, same] using sound.ids
    · simpa only [same] using sound.numbers
    · intro entry listed
      simp only [same] at listed
      exact Nat.lt_of_lt_of_le (sound.handedOut entry listed) more
  log := ⟨[], rfl, List.nodup_nil, List.forall_mem_nil _⟩

theorem any (logs : Logs scope within before after) : Logs scope (fun _ => True) before after :=
  logs.mono fun _ _ _ => trivial

end Logs

end Logs

section Steps

variable {α β : Type} {scope : Scope} {visit : TypeId → Tracked ResolvedType}
  {within : TypeId → Prop} {course : Course}

theorem logs_bind {m : Tracked α} {next : α → Tracked β}
    (first : Logs scope within course (m course).2)
    (later : ∀ a middle, m course = (.ok a, middle) → Logs scope within middle (next a middle).2) :
    Logs scope within course ((m >>= next) course).2 := by
  simp only [Bind.bind]
  cases found : m course with
  | mk outcome middle =>
      rw [found] at first
      cases outcome with
      | error e => exact first
      | ok a => exact first.trans (later a middle found)

/-- What stands behind a type that is remembered finds its id known. -/
theorem logs_meet (id : TypeId) (name : Option String) {parts : Nat → Tracked ResolvedType}
    (each : ∀ refId middle, Logs scope (fun _ => True) middle (parts refId middle).2) :
    Logs scope (fun x => ∀ root steps, Rooted scope x root steps → id ≠ root) course
      ((do
        match ← Tracked.meet id name with
        | .inl pointer => return pointer
        | .inr refId => parts refId : Tracked ResolvedType) course).2 := by
  simp only [Tracked.meet, Bind.bind]
  cases found : course.visited.pointer? id with
  | some pointer => exact .refl course
  | none =>
      simp only
      generalize remembered :
        ({ course with visited := (course.visited.remember id name).2 } : Course) = middle
      have new := Visited.pointer?_eq_none found
      have start : Logs scope (fun x => ∀ root steps, Rooted scope x root steps → id ≠ root)
          course middle := by
        subst remembered
        exact ⟨fun _ known => List.mem_cons_of_mem _ known, fun sound => sound.remember new name,
          [], rfl, List.nodup_nil, List.forall_mem_nil _⟩
      apply start.trans
      apply (each _ middle).mono
      rintro x _ unknown root steps rooted rfl
      subst remembered
      exact unknown id steps rooted List.mem_cons_self

/-- Members are composed without describing another type, and a shape comes of shapes only. -/
theorem compose_cases (operator : Operator) (members : List ResolvedType) (nullable optional : Bool)
    (visited : Visited) : ∃ t after,
      compose operator members nullable optional visited = .ok (t, after) ∧
        after.seen = visited.seen ∧ visited.nextRef ≤ after.nextRef ∧
          (t.isNode = true → ∃ member rest, members = member :: rest ∧ member.isNode = true) := by
  unfold compose
  split
  · exact ⟨_, _, rfl, rfl, Nat.le_refl _, nofun⟩
  split
  · exact ⟨_, _, rfl, rfl, Nat.le_refl _, nofun⟩
  split
  · exact ⟨_, _, rfl, rfl, Nat.le_refl _, fun isNode => ⟨_, _, rfl, isNode⟩⟩
  split
  · rename_i shapes all
    refine ⟨_, _, rfl, rfl, Nat.le_succ _, fun _ => ?_⟩
    cases members with
    | nil => contradiction
    | cons member rest =>
        refine ⟨member, rest, rfl, ?_⟩
        simp only [List.mapM_cons, Option.bind_eq_bind, Option.bind_eq_some_iff] at all
        obtain ⟨fields, isShape, _⟩ := all
        cases member <;> first | rfl | cases isShape
  · exact ⟨_, _, rfl, rfl, Nat.le_refl _, nofun⟩

theorem Tracked.bind_eq_ok {m : Tracked α} {next : α → Tracked β} {b : β} {after : Course} :
    (m >>= next) course = (.ok b, after) ↔
      ∃ a middle, m course = (.ok a, middle) ∧ next a middle = (.ok b, after) := by
  simp only [Bind.bind]
  cases m course with
  | mk outcome middle => cases outcome <;> simp

theorem Tracked.pure_eq_ok {a b : α} {after : Course} :
    (pure a : Tracked α) course = (.ok b, after) ↔ a = b ∧ course = after := by
  simp [Pure.pure]

/-- A resolution of types whose course is as it should be. What becomes a shape or class is new, and
what a described type leads to is known afterwards. -/
structure Traces (scope : Scope) (visit : TypeId → Tracked ResolvedType) : Prop where
  logs : ∀ id course, Logs scope (NotBeyond scope id) course (visit id course).2
  fresh : ∀ id course t after, visit id course = (.ok t, after) → t.isNode = true →
    ∃ root steps, Rooted scope id root steps ∧ root ∉ course.visited.ids
  known : ∀ id course t after, visit id course = (.ok t, after) →
    ∀ root steps, Rooted scope id root steps → root ∈ after.visited.ids

variable (traces : Traces scope visit)

include traces

theorem logs_trackAll (ids : List TypeId) (course : Course) :
    Logs scope (fun _ => True) course (trackAll visit ids course).2 := by
  induction ids generalizing course with
  | nil => exact .refl course
  | cons id rest ih =>
      apply logs_bind (traces.logs id course).any
      intro first middle _
      exact logs_bind (ih middle) fun others last _ => .refl last

theorem logs_trackFields (properties : List PropertyData) (fields : Assoc String ResolvedType)
    (course : Course) :
    Logs scope (fun _ => True) course (trackFields visit properties fields course).2 := by
  induction properties generalizing fields course with
  | nil => exact .refl course
  | cons property rest ih =>
      apply logs_bind (traces.logs property.type course).any
      intro type middle _
      exact ih _ middle

/-- The members after the first one find what that one leads to known. -/
theorem logs_trackMembers (ids : List TypeId) (course : Course) :
    Logs scope (fun x => ∀ n, firstMember? scope ids = some n → NotBeyond scope n x) course
      (trackMembers scope visit ids course).2 := by
  induction ids generalizing course with
  | nil => exact .refl course
  | cons id rest ih =>
      rw [trackMembers, firstMember?]
      cases scope.types.type? id with
      | none => exact .refl course
      | some data =>
          simp only
          cases data.flags.meets TypeFlag.null with
          | true => exact logs_bind (ih course) fun found last _ => .refl last
          | false =>
              simp only [Bool.false_eq_true, if_false]
              cases data.flags.meets TypeFlag.undefined with
              | true => exact logs_bind (ih course) fun found last _ => .refl last
              | false =>
                  simp only [Bool.false_eq_true, if_false]
                  have first : Logs scope (fun x => ∀ n, some id = some n → NotBeyond scope n x)
                      course (visit id course).2 := by
                    apply (traces.logs id course).mono
                    intro x inside _ n same
                    exact Option.some_inj.mp same ▸ inside
                  apply logs_bind first
                  intro member middle described
                  have later : Logs scope (fun x => ∀ n, some id = some n → NotBeyond scope n x)
                      middle (trackMembers scope visit rest middle).2 := by
                    apply (ih middle).mono
                    intro x _ unknown n same root steps most rooted leads
                    cases same
                    have known := traces.known id course member middle described root most leads
                    exact absurd known (unknown root steps rooted)
                  exact logs_bind later fun found last _ => .refl last

/-- What a type that becomes a shape or class on the way may be, when a type is described by a plan:
it does not lead to the one that the plan is for, or less far. -/
def Plan.Admits (scope : Scope) (p : Plan) (x : TypeId) : Prop :=
  (∀ root steps, Rooted scope x root steps → p.own? ≠ some root) ∧
    ∀ n, p.next? scope = some n → NotBeyond scope n x

theorem logs_plan (p : Plan) (course : Course) :
    Logs scope (p.Admits scope) course (p.track scope visit course).2 := by
  cases p with
  | answer | bareArray | fail => exact .refl course
  | follow id =>
      apply (traces.logs id course).mono
      intro x inside _
      refine ⟨nofun, ?_⟩
      rintro _ ⟨⟩
      exact inside
  | library name arguments =>
      have all : Logs scope (Plan.Admits scope (.library name arguments)) course
          (trackAll visit arguments course).2 :=
        (logs_trackAll traces arguments course).mono fun x _ _ => ⟨nofun, nofun⟩
      exact logs_bind all fun _ last _ => .refl last
  | tuple elements array =>
      have all : Logs scope (Plan.Admits scope (.tuple elements array)) course
          (trackAll visit elements course).2 :=
        (logs_trackAll traces elements course).mono fun x _ _ => ⟨nofun, nofun⟩
      exact logs_bind all fun _ last _ => .refl last
  | managed id name moduleId arguments =>
      refine (logs_meet id (some name) ?_).mono fun x apart _ => ⟨?_, nofun⟩
      · intro refId middle
        exact logs_bind (logs_trackAll traces arguments middle) fun _ last _ => .refl last
      · intro root steps rooted same
        exact apart root steps rooted (Option.some_inj.mp same)
  | shape id name properties mapped =>
      refine (logs_meet id name ?_).mono fun x apart _ => ⟨?_, nofun⟩
      · intro refId middle
        exact logs_bind (logs_trackFields traces properties [] middle) fun _ last _ => .refl last
      · intro root steps rooted same
        exact apart root steps rooted (Option.some_inj.mp same)
  | compose operator members =>
      have all : Logs scope (Plan.Admits scope (.compose operator members)) course
          (trackMembers scope visit members course).2 :=
        (logs_trackMembers traces members course).mono fun x inside _ => ⟨nofun, inside⟩
      apply logs_bind all
      intro found last _
      obtain ⟨t, after, composed, same, grows, _⟩ :=
        compose_cases operator found.1 found.2.1 found.2.2 last.visited
      have lifted : (Tracked.lift (compose operator found.1 found.2.1 found.2.2) last).2 =
          { last with visited := after } := by
        rw [Tracked.lift, composed]
      change Logs scope _ last (Tracked.lift (compose operator found.1 found.2.1 found.2.2) last).2
      rw [lifted]
      exact .renumber same grows

/-- The first member is described before any other type is remembered. -/
theorem first_of_trackMembers {ids : List TypeId} {members : List ResolvedType} {marks : Bool × Bool}
    {after : Course} (described : trackMembers scope visit ids course = (.ok (members, marks), after)) :
    (∀ member rest, members = member :: rest → member.isNode = true →
      ∃ n root steps, firstMember? scope ids = some n ∧ Rooted scope n root steps ∧
        root ∉ course.visited.ids) ∧
      ∀ n root steps, firstMember? scope ids = some n → Rooted scope n root steps →
        root ∈ after.visited.ids := by
  induction ids generalizing course members marks with
  | nil =>
      obtain ⟨same, _⟩ := Tracked.pure_eq_ok.mp described
      cases same
      exact ⟨nofun, nofun⟩
  | cons id rest ih =>
      rw [trackMembers] at described
      rw [firstMember?]
      cases found : scope.types.type? id with
      | none =>
          rw [found] at described
          cases described
      | some data =>
          rw [found] at described
          simp only at described ⊢
          cases isNull : data.flags.meets TypeFlag.null with
          | true =>
              simp only [isNull, if_true, Tracked.bind_eq_ok, Tracked.pure_eq_ok] at described
              obtain ⟨_, _, others, same, rfl⟩ := described
              cases same
              exact ih others
          | false =>
              simp only [isNull, Bool.false_eq_true, if_false] at described ⊢
              cases isUndefined : data.flags.meets TypeFlag.undefined with
              | true =>
                  simp only [isUndefined, if_true, Tracked.bind_eq_ok, Tracked.pure_eq_ok]
                    at described
                  obtain ⟨_, _, others, same, rfl⟩ := described
                  cases same
                  exact ih others
              | false =>
                  simp only [isUndefined, Bool.false_eq_true, if_false, Tracked.bind_eq_ok,
                    Tracked.pure_eq_ok] at described
                  obtain ⟨member, middle, first, _, _, others, same, rfl⟩ := described
                  cases same
                  constructor
                  · rintro _ _ ⟨⟩ isNode
                    obtain ⟨root, steps, rooted, unknown⟩ := traces.fresh id course _ _ first isNode
                    exact ⟨id, root, steps, rfl, rooted, unknown⟩
                  · rintro _ root steps ⟨⟩ rooted
                    have known := traces.known id course _ _ first root steps rooted
                    have grows := (logs_trackMembers traces rest middle).grows
                    rw [others] at grows
                    exact grows known

omit traces in
/-- A type with an id of its own becomes a shape or class only when it is new, and is known by its id
afterwards. -/
theorem ends_meet {id : TypeId} {name : Option String} {parts : Nat → Tracked ResolvedType}
    (grows : ∀ refId middle, middle.visited.ids ⊆ (parts refId middle).2.visited.ids)
    {t : ResolvedType} {after : Course}
    (described : (do
        match ← Tracked.meet id name with
        | .inl pointer => return pointer
        | .inr refId => parts refId : Tracked ResolvedType) course = (.ok t, after)) :
    (t.isNode = true → id ∉ course.visited.ids) ∧ id ∈ after.visited.ids := by
  obtain ⟨met, middle, meets, described⟩ := Tracked.bind_eq_ok.mp described
  unfold Tracked.meet at meets
  cases found : course.visited.pointer? id with
  | some pointer =>
      rw [found] at meets
      cases meets
      obtain ⟨rfl, rfl⟩ := Tracked.pure_eq_ok.mp described
      obtain ⟨entry, listed, rfl⟩ := Option.map_eq_some_iff.mp found
      exact ⟨nofun, Assoc.mem_keys_of_get? listed⟩
  | none =>
      rw [found] at meets
      cases meets
      have known : id ∈ (course.visited.remember id name).2.ids := List.mem_cons_self
      have remains := grows (course.visited.remember id name).1
        { course with visited := (course.visited.remember id name).2 } known
      have parted : parts (course.visited.remember id name).1
        { course with visited := (course.visited.remember id name).2 } = (.ok t, after) := described
      rw [parted] at remains
      exact ⟨fun _ => Visited.pointer?_eq_none found, remains⟩

/-- What is described by a plan is a shape or class only if the type that the plan leads to is new, and
that type is known afterwards. -/
theorem ends_plan {p : Plan} {t : ResolvedType} {after : Course}
    (described : p.track scope visit course = (.ok t, after)) :
    (t.isNode = true → (∃ root, p.own? = some root ∧ root ∉ course.visited.ids) ∨
      ∃ n root steps, p.next? scope = some n ∧ Rooted scope n root steps ∧
        root ∉ course.visited.ids) ∧
      (∀ root, p.own? = some root → root ∈ after.visited.ids) ∧
        ∀ n root steps, p.next? scope = some n → Rooted scope n root steps →
          root ∈ after.visited.ids := by
  cases p with
  | answer t isLeaf =>
      obtain ⟨rfl, rfl⟩ := Tracked.pure_eq_ok.mp described
      refine ⟨?_, nofun, nofun⟩
      intro isNode
      cases isLeaf <;> cases isNode
  | bareArray =>
      obtain ⟨rfl, rfl⟩ := Tracked.pure_eq_ok.mp described
      exact ⟨nofun, nofun, nofun⟩
  | fail e => cases described
  | follow id =>
      refine ⟨?_, nofun, ?_⟩
      · intro isNode
        obtain ⟨root, steps, rooted, unknown⟩ := traces.fresh id course t after described isNode
        exact .inr ⟨id, root, steps, rfl, rooted, unknown⟩
      · rintro _ root steps ⟨⟩ rooted
        exact traces.known id course t after described root steps rooted
  | library name arguments =>
      obtain ⟨_, _, _, finished⟩ := Tracked.bind_eq_ok.mp described
      obtain ⟨rfl, rfl⟩ := Tracked.pure_eq_ok.mp finished
      exact ⟨nofun, nofun, nofun⟩
  | tuple elements array =>
      obtain ⟨_, _, _, finished⟩ := Tracked.bind_eq_ok.mp described
      obtain ⟨rfl, rfl⟩ := Tracked.pure_eq_ok.mp finished
      exact ⟨nofun, nofun, nofun⟩
  | managed id name moduleId arguments =>
      have grows : ∀ refId middle, middle.visited.ids ⊆
          ((do return .managed name moduleId (← trackAll visit arguments) refId :
            Tracked ResolvedType) middle).2.visited.ids := by
        intro refId middle
        exact (logs_bind (logs_trackAll traces arguments middle) fun _ last _ => .refl last).grows
      obtain ⟨new, known⟩ := ends_meet grows described
      refine ⟨fun isNode => .inl ⟨id, rfl, new isNode⟩, ?_, nofun⟩
      rintro _ ⟨⟩
      exact known
  | shape id name properties mapped =>
      have grows : ∀ refId middle, middle.visited.ids ⊆
          ((do return .shape name (← trackFields visit properties []) mapped refId :
            Tracked ResolvedType) middle).2.visited.ids := by
        intro refId middle
        exact (logs_bind (logs_trackFields traces properties [] middle)
          fun _ last _ => .refl last).grows
      obtain ⟨new, known⟩ := ends_meet grows described
      refine ⟨fun isNode => .inl ⟨id, rfl, new isNode⟩, ?_, nofun⟩
      rintro _ ⟨⟩
      exact known
  | compose operator members =>
      obtain ⟨⟨described, nullable, optional⟩, middle, members, composed⟩ :=
        Tracked.bind_eq_ok.mp described
      obtain ⟨new, known⟩ := first_of_trackMembers traces members
      obtain ⟨u, last, composes, same, _, node⟩ :=
        compose_cases operator described nullable optional middle.visited
      simp only [Tracked.lift, composes] at composed
      cases composed
      refine ⟨?_, nofun, ?_⟩
      · intro isNode
        obtain ⟨member, rest, shown, isNode⟩ := node isNode
        exact .inr (new member rest shown isNode)
      · intro n root steps leads rooted
        simpa only [Visited.ids, same] using known n root steps leads rooted

omit traces in
/-- A type does not admit itself on its way: it leads to the type that it is remembered by, and each
type on the way to that one leads there in fewer steps. -/
theorem Rooted.not_admits {x root : TypeId} {steps : Nat} (rooted : Rooted scope x root steps) :
    ¬ (plan scope x).Admits scope x := by
  rintro ⟨apart, behind⟩
  cases rooted with
  | own own => exact apart root 0 (.own own) own
  | next leads onward =>
      have shorter := behind _ leads root _ _ (.next leads onward) onward
      omega

omit traces in
/-- Nothing that a type admits on its way leads further than the type does. -/
theorem Plan.Admits.notBeyond {id x : TypeId} (admits : (plan scope id).Admits scope x) :
    NotBeyond scope id x := by
  intro root steps most rooted leads
  cases leads with
  | own own => exact absurd own (admits.1 root steps rooted)
  | next leads onward => exact Nat.le_succ_of_le (admits.2 _ leads root steps _ rooted onward)

/-- What a type that has become a shape or class leads to was new before and is known now. -/
theorem root_of_plan {id : TypeId} {t : ResolvedType} {after : Course}
    (described : (plan scope id).track scope visit course = (.ok t, after)) :
    (t.isNode = true → ∃ root steps, Rooted scope id root steps ∧ root ∉ course.visited.ids) ∧
      ∀ root steps, Rooted scope id root steps → root ∈ after.visited.ids := by
  obtain ⟨new, own, next⟩ := ends_plan traces described
  constructor
  · intro isNode
    obtain ⟨root, isOwn, unknown⟩ | ⟨n, root, steps, leads, rooted, unknown⟩ := new isNode
    · exact ⟨root, 0, .own isOwn, unknown⟩
    · exact ⟨root, steps + 1, .next leads rooted, unknown⟩
  · intro root steps rooted
    cases rooted with
    | own isOwn => exact own root isOwn
    | next leads onward => exact next _ root _ leads onward

/-- A type is noted once it has become a shape or class: no type on its way was the same, and it leads
to one that has been remembered in the meantime. -/
theorem logs_note {id : TypeId} {t : ResolvedType} {after : Course}
    (described : (plan scope id).track scope visit course = (.ok t, after)) :
    Logs scope (NotBeyond scope id) course (after.note id t) := by
  have way := logs_plan traces (plan scope id) course
  rw [described] at way
  unfold Course.note
  cases isNode : t.isNode with
  | false => exact way.mono fun x admits _ => admits.notBeyond
  | true =>
      obtain ⟨new, known⟩ := root_of_plan traces described
      obtain ⟨root, steps, rooted, unknown⟩ := new isNode
      obtain ⟨new, expanded, once, each⟩ := way.log
      refine ⟨way.grows, way.sound, id :: new, ?_, ?_, ?_⟩
      · exact congrArg (id :: ·) expanded
      · refine List.nodup_cons.mpr ⟨?_, once⟩
        intro listed
        exact rooted.not_admits (each id listed).1
      · intro x listed
        obtain rfl | before := List.mem_cons.mp listed
        · refine ⟨?_, root, steps, rooted, unknown, known root steps rooted⟩
          intro other more most leads same
          exact Nat.le_of_eq (leads.unique same).2
        · exact ⟨(each x before).1.notBeyond, (each x before).2⟩

omit traces in
/-- A resolution takes its course however many levels it may go down. -/
theorem traces_track (scope : Scope) (levels : Nat) : Traces scope (track scope levels) := by
  induction levels with
  | zero => exact ⟨fun _ course => .refl course, nofun, nofun⟩
  | succ levels ih =>
      constructor
      · intro id course
        have way := (logs_plan ih (plan scope id) course).mono fun x admits _ => admits.notBeyond
        simp only [track, Bind.bind]
        cases described : (plan scope id).track scope (track scope levels) course with
        | mk outcome after =>
            rw [described] at way
            cases outcome with
            | error e => exact way
            | ok t => exact logs_note ih described
      · intro id course t after described
        obtain ⟨_, middle, followed, finished⟩ := Tracked.bind_eq_ok.mp described
        cases finished
        exact (root_of_plan ih followed).1
      · intro id course t after described
        obtain ⟨_, middle, followed, finished⟩ := Tracked.bind_eq_ok.mp described
        cases finished
        simp only [Course.note_visited]
        exact (root_of_plan ih followed).2

omit traces in
/-- On the way to the description of a type, whether it comes to an end or not, each type is remembered
once, under a number of its own, and becomes a shape or class once at most. -/
theorem courseOf_once (scope : Scope) (id : TypeId) :
    (courseOf scope id).visited.IsSound ∧ (courseOf scope id).expanded.Nodup := by
  obtain ⟨_, sound, new, expanded, once, _⟩ := (traces_track scope (maxDepth + 1)).logs id {}
  refine ⟨sound ⟨List.nodup_nil, List.nodup_nil, List.forall_mem_nil _⟩, ?_⟩
  rw [courseOf, expanded, List.append_nil]
  exact once

end Steps

end TypeResolver

end WorkspaceBuild
