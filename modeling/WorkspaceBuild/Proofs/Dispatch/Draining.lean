import WorkspaceBuild.Proofs.Dispatch.Levels
import WorkspaceBuild.Proofs.Dispatch.Splice
import WorkspaceBuild.Registrations

/-! # Draining the queue

Plugins queue statements, and may queue more while these are visited. The drain goes on in rounds, and
each round takes the whole queue: every statement that is ever queued has its turn once, in the order
of the queue, and ends up in the unit as the visit left it. The rounds are counted, so that the drain
comes to its end unless a visit in it goes on for ever.
-/

namespace WorkspaceBuild

variable {ε σ : Type}

namespace Work

/-- The queue of a workbench is a start of that of another. -/
def Extends (bench after : Workbench σ) : Prop := bench.queue <+: after.queue

instance : IsPreorder (Workbench σ) Extends where
  refl bench := List.prefix_refl bench.queue
  trans _ _ _ := List.IsPrefix.trans

end Work

theorem Work.moves_insert (place : InsertAt) (s : Statement) :
    Moves Extends (Work.insert place s : Work ε σ Unit) := ⟨fun _ => ⟨[(place, s)], rfl⟩⟩

theorem Work.moves_requireImport (specifier : String) (binding : ImportBinding) :
    Moves Extends (Work.requireImport specifier binding : Work ε σ Unit) :=
  ⟨fun bench => List.prefix_refl bench.queue⟩

/-- Plugins reach the queue by inserting alone: what is queued stays in front of what they add. -/
def Registry.OnlyInserts (registry : Registry σ) : Prop :=
  ∀ plugin ∈ registry, ∀ ctx node, Work.Moves Work.Extends (plugin.transform ctx node)

theorem Registrations.onlyInserts_builtin : (builtin : Registry σ).OnlyInserts := by
  have queueCall (ctx : PluginContext) (function : String) (args : List Expr) :
      Work.Moves Work.Extends (queueCall ctx function args : Work PluginError σ Unit) :=
    (Work.moves_requireImport _ _).bind fun _ => Work.moves_insert _ _
  intro plugin registered ctx node
  simp only [builtin, List.mem_cons, List.not_mem_nil, or_false] at registered
  rcases registered with rfl | rfl
  · dsimp only [registerClass]
    split
    · exact (queueCall ..).bind fun _ => Work.moves_pure _
    · exact Work.moves_pure _
  · dsimp only [describeField]
    split
    · split
      · split
        · exact (queueCall ..).bind fun _ => Work.moves_pure _
        · exact Work.moves_throw _
      · exact Work.moves_pure _
    · exact Work.moves_pure _

namespace Dispatcher

/-- The visit of a queued statement. -/
structure Turn where
  place : InsertAt
  queued : Statement
  /-- What the visit makes of the statement. -/
  visited : Statement
  /-- What plugins queue in the course of it. -/
  added : List (InsertAt × Statement)

/-- What the queue held. -/
def Turn.entry (turn : Turn) : InsertAt × Statement := (turn.place, turn.queued)

/-- What goes into the unit. -/
def Turn.outcome (turn : Turn) : InsertAt × Statement := (turn.place, turn.visited)

/-- Visits of queued statements, one after another, each of which succeeds. -/
inductive Turns (v : Visit σ) : Workbench σ → List Turn → Workbench σ → Prop where
  | nil (bench : Workbench σ) : Turns v bench [] bench
  | cons {bench middle last : Workbench σ} {turn : Turn} {rest : List Turn}
      (visit : (v.wholeStatement {} turn.queued).run bench = (.ok turn.visited, middle))
      (added : middle.queue = bench.queue ++ turn.added) (later : Turns v middle rest last) :
      Turns v bench (turn :: rest) last

/-- Rounds of the drain. Each takes what is queued, of which there is some, and leaves in the queue
what is added in its turns. -/
inductive Rounds (v : Visit σ) : Workbench σ → List (List Turn) → Workbench σ → Prop where
  | nil (bench : Workbench σ) : Rounds v bench [] bench
  | cons {bench middle last : Workbench σ} {turns : List Turn} {rest : List (List Turn)}
      (filled : bench.queue ≠ []) (batch : turns.map Turn.entry = bench.queue)
      (round : Turns v { bench with queue := [] } turns middle) (later : Rounds v middle rest last) :
      Rounds v bench (turns :: rest) last

/-- A round comes to a queued statement, after visits of those in front of it. -/
def ComesTo (v : Visit σ) (bench : Workbench σ) (s : Statement) (middle : Workbench σ) : Prop :=
  ∃ turns place behind, bench.queue = turns.map Turn.entry ++ (place, s) :: behind ∧
    Turns v { bench with queue := [] } turns middle

/-- A visit of a queued statement ends without a result. -/
def HaltsWith (v : Visit σ) (bench : Workbench σ) (halt : Halt PluginError) : Prop :=
  ∃ s middle, ComesTo v bench s middle ∧ ((v.wholeStatement {} s).run middle).1 = .error halt

/-- In one of so many rounds the drain comes to a statement whose visit goes on for ever. -/
def GetsStuck (v : Visit σ) (n : Nat) (bench : Workbench σ) : Prop :=
  ∃ levels rounds last s middle, Rounds (v.onLevels levels) bench rounds last ∧
    rounds.length < n ∧ ComesTo (v.onLevels levels) last s middle ∧ ¬v.Ends s middle

/-- A unit into which rounds have set what they visited. -/
structure Takes (u : SourceUnit) (rounds : List (List Turn)) (result : SourceUnit) : Prop where
  path : result.path = u.path
  /-- No statement is lost or comes twice. -/
  statements : result.statements.Perm (u.statements ++ rounds.flatten.map Turn.visited)
  /-- The statements that were there before keep their order. -/
  inOrder : u.statements.Sublist result.statements

variable {v : Visit σ} {bench middle last : Workbench σ}

theorem Turns.queue_eq {turns : List Turn} (done : Turns v bench turns last) :
    last.queue = bench.queue ++ turns.flatMap Turn.added := by
  induction done with
  | nil => simp
  | cons _ added _ ih => simp [ih, added]

/-- What has a turn is what was queued at first and what was added in all the turns. -/
theorem Rounds.entries_eq {rounds : List (List Turn)} (done : Rounds v bench rounds last) :
    rounds.flatten.map Turn.entry ++ last.queue =
      bench.queue ++ rounds.flatten.flatMap Turn.added := by
  induction done with
  | nil => simp
  | cons _ batch round _ ih =>
      have queued := round.queue_eq
      rw [List.nil_append] at queued
      rw [List.flatten_cons, List.map_append, List.append_assoc, ih, batch, queued,
        List.flatMap_append]

theorem takes_cons {u result : SourceUnit} {turns : List Turn} {rounds : List (List Turn)}
    (later : Takes { u with statements := splice u.statements (turns.map Turn.outcome) } rounds result) :
    Takes u (turns :: rounds) result := by
  obtain ⟨perm, sublist⟩ := splice_spec u.statements (turns.map Turn.outcome)
  refine ⟨later.path, later.statements.trans ?_, sublist.trans later.inOrder⟩
  have visited : (turns.map Turn.outcome).map Prod.snd = turns.map Turn.visited := by
    simp [Turn.outcome]
  rw [visited] at perm
  simpa using perm.append_right (rounds.flatten.map Turn.visited)

/-- Queued statements have their turns until a visit does not succeed. -/
theorem exists_turns (onlyInserts : v.registry.OnlyInserts) (queued : List (InsertAt × Statement))
    (bench : Workbench σ) :
    (∃ turns last, turns.map Turn.entry = queued ∧ Turns v bench turns last) ∨
    ∃ turns place s behind middle halt, queued = turns.map Turn.entry ++ (place, s) :: behind ∧
      Turns v bench turns middle ∧ ((v.wholeStatement {} s).run middle).1 = .error halt := by
  induction queued generalizing bench with
  | nil => exact .inl ⟨[], bench, rfl, .nil bench⟩
  | cons entry rest ih =>
      obtain ⟨place, s⟩ := entry
      have extended := (Visit.moves_wholeStatement onlyInserts {} s).related bench
      cases visit : (v.wholeStatement {} s).run bench with
      | mk result middle =>
          cases result with
          | error halt =>
              exact .inr ⟨[], place, s, rest, bench, halt, rfl, .nil bench, congrArg Prod.fst visit⟩
          | ok visited =>
              rw [visit] at extended
              obtain ⟨added, queue⟩ := extended
              let turn : Turn := ⟨place, s, visited, added⟩
              rcases ih middle with ⟨turns, last, batch, done⟩ |
                ⟨turns, place', s', behind, stuck, halt, split, done, halted⟩
              · refine .inl ⟨turn :: turns, last, ?_, .cons visit queue.symm done⟩
                exact congrArg ((place, s) :: ·) batch
              · refine .inr ⟨turn :: turns, place', s', behind, stuck, halt, ?_,
                  .cons visit queue.symm done, halted⟩
                exact congrArg ((place, s) :: ·) split

theorem Turns.batch_run {turns : List Turn} (done : Turns v bench turns last) :
    (v.batch (turns.map Turn.entry)).run bench = (.ok (turns.map Turn.outcome), last) := by
  induction done with
  | nil => rfl
  | cons visit _ _ ih =>
      rw [List.map_cons, Turn.entry, Visit.batch, Work.run_bind, visit]
      dsimp only
      rw [Work.run_bind, ih]
      rfl

theorem Turns.batch_halts {turns : List Turn} (done : Turns v bench turns last) {place : InsertAt}
    {s : Statement} {halt : Halt PluginError}
    (halted : ((v.wholeStatement {} s).run last).1 = .error halt)
    (behind : List (InsertAt × Statement)) : ∃ after,
      (v.batch (turns.map Turn.entry ++ (place, s) :: behind)).run bench = (.error halt, after) := by
  induction done with
  | nil bench =>
      refine ⟨((v.wholeStatement {} s).run bench).2, ?_⟩
      rw [List.map_nil, List.nil_append, Visit.batch, Work.run_bind]
      cases visit : (v.wholeStatement {} s).run bench with
      | mk result after =>
          rw [visit] at halted
          cases halted
          rfl
  | cons visit _ _ ih =>
      obtain ⟨after, stuck⟩ := ih halted
      refine ⟨after, ?_⟩
      rw [List.map_cons, List.cons_append, Turn.entry, Visit.batch, Work.run_bind, visit]
      dsimp only
      rw [Work.run_bind, stuck]

theorem drain_of_empty (n : Nat) (u : SourceUnit) (empty : bench.queue = []) :
    drain v n u bench = (.ok u, bench) := by
  cases n <;> simp [drain, empty]

theorem drain_succ (n : Nat) (u : SourceUnit) (filled : bench.queue ≠ []) :
    drain v (n + 1) u bench =
      match (v.batch bench.queue).run { bench with queue := [] } with
      | (.error halt, bench) => (.error (halt.map (.plugin v.path)), bench)
      | (.ok visited, bench) =>
          drain v n { u with statements := splice u.statements visited } bench := by
  rw [drain]
  refine (if_neg (by simpa using filled)).trans ?_
  obtain ⟨_ | _, _⟩ := (v.batch bench.queue).run { bench with queue := [] } <;> rfl

/-- Rounds that can be made are made, as long as more are allowed. -/
theorem Rounds.drain_eq {rounds : List (List Turn)} (done : Rounds v bench rounds last)
    (u : SourceUnit) : ∃ result, Takes u rounds result ∧
      ∀ n, drain v (n + rounds.length) u bench = drain v n result last := by
  induction done generalizing u with
  | nil => exact ⟨u, ⟨rfl, by simp, .refl _⟩, fun n => rfl⟩
  | @cons bench middle last turns rest filled batch round _ ih =>
      obtain ⟨result, takes, same⟩ :=
        ih { u with statements := splice u.statements (turns.map Turn.outcome) }
      refine ⟨result, takes_cons takes, fun n => ?_⟩
      rw [List.length_cons, ← Nat.add_assoc, drain_succ _ _ filled, ← batch, round.batch_run]
      exact same n

section Answers

variable {rounds : List (List Turn)} (u : SourceUnit)

theorem Rounds.drain_ok (done : Rounds v bench rounds last) (within : rounds.length ≤ maxRounds)
    (empty : last.queue = []) :
    ∃ result, Takes u rounds result ∧ drain v maxRounds u bench = (.ok result, last) := by
  obtain ⟨result, takes, same⟩ := done.drain_eq u
  refine ⟨result, takes, ?_⟩
  rw [← Nat.sub_add_cancel within, same, drain_of_empty _ _ empty]

theorem Rounds.drain_limit (done : Rounds v bench rounds last) (all : rounds.length = maxRounds)
    (filled : last.queue ≠ []) :
    drain v maxRounds u bench = (.error (.failed (.drainLimit v.path maxRounds)), last) := by
  obtain ⟨result, _, same⟩ := done.drain_eq u
  have answer := same 0
  rw [Nat.zero_add, all] at answer
  rw [answer, drain, if_neg (by simpa using filled)]

theorem Rounds.drain_halts (done : Rounds v bench rounds last) (within : rounds.length < maxRounds)
    {halt : Halt PluginError} (halts : HaltsWith v last halt) :
    ∃ after, drain v maxRounds u bench = (.error (halt.map (.plugin v.path)), after) := by
  obtain ⟨result, _, same⟩ := done.drain_eq u
  obtain ⟨s, middle, ⟨turns, place, behind, queue, round⟩, halted⟩ := halts
  obtain ⟨after, stuck⟩ := round.batch_halts halted behind
  obtain ⟨n, more⟩ : ∃ n, maxRounds = n + 1 + rounds.length := ⟨maxRounds - 1 - rounds.length, by omega⟩
  refine ⟨after, ?_⟩
  rw [more, same, drain_succ _ _ (by simp [queue]), queue, stuck]

end Answers

/-- The rounds go on until the queue is empty, a visit does not succeed or no more are allowed. -/
theorem exists_rounds (onlyInserts : v.registry.OnlyInserts) (n : Nat) (bench : Workbench σ) :
    ∃ rounds last, Rounds v bench rounds last ∧ rounds.length ≤ n ∧
      (last.queue = [] ∨ last.queue ≠ [] ∧ rounds.length = n ∨
        rounds.length < n ∧ ∃ halt, HaltsWith v last halt) := by
  induction n generalizing bench with
  | zero =>
      refine ⟨[], bench, .nil bench, Nat.le_refl 0, ?_⟩
      by_cases empty : bench.queue = []
      · exact .inl empty
      · exact .inr (.inl ⟨empty, rfl⟩)
  | succ n ih =>
      by_cases empty : bench.queue = []
      · exact ⟨[], bench, .nil bench, Nat.zero_le _, .inl empty⟩
      rcases exists_turns onlyInserts bench.queue { bench with queue := [] } with
        ⟨turns, middle, batch, round⟩ | ⟨turns, place, s, behind, stuck, halt, split, done, halted⟩
      · obtain ⟨rounds, last, later, within, ending⟩ := ih middle
        refine ⟨turns :: rounds, last, .cons empty batch round later, Nat.succ_le_succ within, ?_⟩
        simpa using ending
      · refine ⟨[], bench, .nil bench, Nat.zero_le _, .inr (.inr ⟨Nat.succ_pos n, halt, ?_⟩)⟩
        exact ⟨s, stuck, ⟨turns, place, behind, split, done⟩, halted⟩

/-- The drain with what it comes from. -/
theorem drain_cases (onlyInserts : v.registry.OnlyInserts) (u : SourceUnit) (bench : Workbench σ) :
    ∃ rounds last, Rounds v bench rounds last ∧ rounds.length ≤ maxRounds ∧
      ((last.queue = [] ∧
          ∃ result, Takes u rounds result ∧ drain v maxRounds u bench = (.ok result, last)) ∨
        ((last.queue ≠ [] ∧ rounds.length = maxRounds) ∧
          drain v maxRounds u bench = (.error (.failed (.drainLimit v.path maxRounds)), last)) ∨
        ∃ halt after, (rounds.length < maxRounds ∧ HaltsWith v last halt) ∧
          drain v maxRounds u bench = (.error (halt.map (.plugin v.path)), after)) := by
  obtain ⟨rounds, last, done, within, ending⟩ := exists_rounds onlyInserts maxRounds bench
  refine ⟨rounds, last, done, within, ?_⟩
  rcases ending with empty | ⟨filled, all⟩ | ⟨fewer, halt, halts⟩
  · exact .inl ⟨empty, done.drain_ok u within empty⟩
  · exact .inr (.inl ⟨⟨filled, all⟩, done.drain_limit u all filled⟩)
  · obtain ⟨after, answer⟩ := done.drain_halts u fewer halts
    exact .inr (.inr ⟨halt, after, ⟨fewer, halts⟩, answer⟩)

/-- What the drain of a unit answers, with the workbench it leaves. -/
structure Drains (v : Visit σ) (u : SourceUnit) (bench : Workbench σ)
    (answer : Except (Halt TransformError) SourceUnit × Workbench σ) : Prop where
  /-- It succeeds, fails in one of two ways, or is left unfinished. -/
  ends : (∃ result, answer.1 = .ok result) ∨
    (∃ path n, answer.1 = .error (.failed (.drainLimit path n))) ∨
    (∃ path error, answer.1 = .error (.failed (.plugin path error))) ∨
    answer.1 = .error .unfinished
  /-- Where it succeeds, each statement that was ever queued had one turn, and is in the unit. -/
  conserves : ∀ result, answer.1 = .ok result → answer.2.queue = [] ∧ ∃ rounds,
    Rounds v bench rounds answer.2 ∧ rounds.length ≤ maxRounds ∧
      rounds.flatten.map Turn.entry = bench.queue ++ rounds.flatten.flatMap Turn.added ∧
      Takes u rounds result
  ok_iff : (∃ result, answer.1 = .ok result) ↔
    ∃ rounds last, Rounds v bench rounds last ∧ rounds.length ≤ maxRounds ∧ last.queue = []
  limit_iff : ∀ path n, answer.1 = .error (.failed (.drainLimit path n)) ↔
    (path = v.path ∧ n = maxRounds) ∧
      ∃ rounds last, Rounds v bench rounds last ∧ rounds.length = maxRounds ∧ last.queue ≠ []
  plugin_iff : ∀ path error, answer.1 = .error (.failed (.plugin path error)) ↔ path = v.path ∧
    ∃ rounds last, Rounds v bench rounds last ∧ rounds.length < maxRounds ∧
      HaltsWith v last (.failed error)
  unfinished_iff : answer.1 = .error .unfinished ↔
    ∃ rounds last, Rounds v bench rounds last ∧ rounds.length < maxRounds ∧
      HaltsWith v last .unfinished

/-- Whatever the plugins and the queue, every queued statement is visited once and set into the unit,
unless a visit does not succeed or the queue fills again in each of the rounds. -/
theorem drains_drain (onlyInserts : v.registry.OnlyInserts) (u : SourceUnit) (bench : Workbench σ) :
    Drains v u bench (drain v maxRounds u bench) := by
  obtain ⟨rounds, last, done, within, ending⟩ := drain_cases onlyInserts u bench
  refine
    { ends := ?_
      conserves := fun result success => ?_
      ok_iff := ⟨fun ⟨result, success⟩ => ?_, fun ⟨others, stop, made, few, empty⟩ => ?_⟩
      limit_iff := fun path n => ⟨fun failed => ?_, fun ⟨⟨_, _⟩, others, stop, made, all, filled⟩ => ?_⟩
      plugin_iff := fun path error =>
        ⟨fun failed => ?_, fun ⟨_, others, stop, made, fewer, halts⟩ => ?_⟩
      unfinished_iff := ⟨fun stopped => ?_, fun ⟨others, stop, made, fewer, halts⟩ => ?_⟩ }
  · rcases ending with ⟨_, result, _, answer⟩ | ⟨_, answer⟩ | ⟨_ | _, after, _, answer⟩ <;>
      simp [answer, Halt.map]
  · rcases ending with ⟨empty, taken, takes, answer⟩ | ⟨_, answer⟩ | ⟨halt, after, _, answer⟩
    · rw [answer] at success ⊢
      cases success
      have entries := done.entries_eq
      rw [empty, List.append_nil] at entries
      exact ⟨empty, rounds, done, within, entries, takes⟩
    all_goals
      rw [answer] at success
      cases success
  · rcases ending with ⟨empty, _⟩ | ⟨_, answer⟩ | ⟨halt, after, _, answer⟩
    · exact ⟨rounds, last, done, within, empty⟩
    all_goals
      rw [answer] at success
      cases success
  · obtain ⟨result, _, answer⟩ := made.drain_ok u few empty
    exact ⟨result, congrArg Prod.fst answer⟩
  · rcases ending with ⟨_, result, _, answer⟩ | ⟨⟨filled, all⟩, answer⟩ | ⟨_ | _, after, _, answer⟩
    all_goals
      rw [answer] at failed
      cases failed
    exact ⟨⟨rfl, rfl⟩, rounds, last, done, all, filled⟩
  · subst path n
    exact congrArg Prod.fst (made.drain_limit u all filled)
  · rcases ending with ⟨_, result, _, answer⟩ | ⟨_, answer⟩ | ⟨_ | _, after, ⟨fewer, halts⟩, answer⟩
    all_goals
      rw [answer] at failed
      cases failed
    exact ⟨rfl, rounds, last, done, fewer, halts⟩
  · subst path
    obtain ⟨after, answer⟩ := made.drain_halts u fewer halts
    exact congrArg Prod.fst answer
  · rcases ending with ⟨_, result, _, answer⟩ | ⟨_, answer⟩ | ⟨_ | _, after, ⟨fewer, halts⟩, answer⟩
    all_goals
      rw [answer] at stopped
      cases stopped
    exact ⟨rounds, last, done, fewer, halts⟩
  · obtain ⟨after, answer⟩ := made.drain_halts u fewer halts
    exact congrArg Prod.fst answer

/-! ## More levels -/

section Levels

variable {levels more : Nat}

theorem Turns.onLevels {turns : List Turn} (done : Turns (v.onLevels levels) bench turns last)
    (le : levels ≤ more) : Turns (v.onLevels more) bench turns last := by
  induction done with
  | nil bench => exact .nil bench
  | @cons bench _ _ turn _ visit added _ ih =>
      have finished : (((v.onLevels levels).wholeStatement {} turn.queued).run bench).1 ≠
          .error .unfinished := by
        rw [visit]
        exact nofun
      have same := (Visit.continues_wholeStatement (v := v.onLevels levels) le {} turn.queued).run_eq
        finished
      exact .cons (same.trans visit) added ih

theorem ComesTo.onLevels {s : Statement} {middle : Workbench σ}
    (comes : ComesTo (v.onLevels levels) bench s middle) (le : levels ≤ more) :
    ComesTo (v.onLevels more) bench s middle := by
  obtain ⟨turns, place, behind, split, done⟩ := comes
  exact ⟨turns, place, behind, split, done.onLevels le⟩

theorem Rounds.onLevels {rounds : List (List Turn)}
    (done : Rounds (v.onLevels levels) bench rounds last) (le : levels ≤ more) :
    Rounds (v.onLevels more) bench rounds last := by
  induction done with
  | nil bench => exact .nil bench
  | cons filled batch round _ ih => exact .cons filled batch (round.onLevels le) ih

/-- On more levels the drain goes on where it was left unfinished. -/
theorem drain_continues (le : v.levels ≤ more) (n : Nat) (u : SourceUnit) (bench : Workbench σ) :
    (drain v n u bench).1 = .error .unfinished ∨
      drain (v.onLevels more) n u bench = drain v n u bench := by
  induction n generalizing u bench with
  | zero => exact .inr rfl
  | succ n ih =>
      by_cases empty : bench.queue = []
      · rw [drain_of_empty _ _ empty, drain_of_empty _ _ empty]
        exact .inr rfl
      rw [drain_succ _ _ empty, drain_succ _ _ empty]
      have first := (Visit.continues_batch le bench.queue).related { bench with queue := [] }
      cases round : (v.batch bench.queue).run { bench with queue := [] } with
      | mk answer after =>
          rw [round] at first
          rcases first with stopped | same
          · cases stopped
            exact .inl rfl
          · rw [same]
            cases answer with
            | error halt => exact .inr rfl
            | ok visited => exact ih _ after

/-- Where a batch is left unfinished on all levels, so is the visit of one of its statements, after
visits of those in front of it. -/
theorem exists_endless (onlyInserts : v.registry.OnlyInserts) (queued : List (InsertAt × Statement))
    (bench : Workbench σ)
    (never : ∀ levels, (((v.onLevels levels).batch queued).run bench).1 = .error .unfinished) :
    ∃ levels turns place s behind middle, queued = turns.map Turn.entry ++ (place, s) :: behind ∧
      Turns (v.onLevels levels) bench turns middle ∧ ¬v.Ends s middle := by
  induction queued generalizing bench with
  | nil => cases never 0
  | cons entry rest ih =>
      obtain ⟨place, s⟩ := entry
      by_cases endless : v.Ends s bench
      swap
      · exact ⟨0, [], place, s, rest, bench, rfl, .nil bench, endless⟩
      obtain ⟨levels, finished⟩ := endless
      cases visit : ((v.onLevels levels).wholeStatement {} s).run bench with
      | mk result middle =>
          rw [visit] at finished
          -- the visit comes to the same on all levels from these on
          have further (more : Nat) (le : levels ≤ more) :
              ((v.onLevels more).wholeStatement {} s).run bench = (result, middle) := by
            have continues := Visit.continues_wholeStatement (v := v.onLevels levels) le {} s
            exact (continues.run_eq (by rw [visit]; exact finished)).trans visit
          cases result with
          | error halt =>
              have stopped := never levels
              rw [Visit.batch, Work.run_bind, visit] at stopped
              exact absurd (congrArg Except.error (Except.error.inj stopped)) finished
          | ok visited =>
              obtain ⟨added, queue⟩ : ∃ added, bench.queue ++ added = middle.queue := by
                have extended := (Visit.moves_wholeStatement (v := v.onLevels levels) onlyInserts
                  {} s).related bench
                rwa [visit] at extended
              obtain ⟨deeper, turns, place', s', behind, stuck, split, done, endless⟩ :=
                ih middle fun more => by
                  have stopped := never (max levels more)
                  rw [Visit.batch, Work.run_bind, further _ (Nat.le_max_left ..)] at stopped
                  have continues := Visit.continues_batch (v := v.onLevels more)
                    (Nat.le_max_right levels more) rest
                  exact continues.unfinished (Work.run_eq_error_of_map stopped)
              refine ⟨max levels deeper, ⟨place, s, visited, added⟩ :: turns, place', s', behind, stuck,
                congrArg ((place, s) :: ·) split, ?_, endless⟩
              exact .cons (further _ (Nat.le_max_left ..)) queue.symm
                (done.onLevels (Nat.le_max_right ..))

/-- Where the drain is left unfinished on all levels, it gets stuck. -/
theorem getsStuck_of_never (onlyInserts : v.registry.OnlyInserts) (n : Nat) (u : SourceUnit)
    (bench : Workbench σ)
    (never : ∀ levels, (drain (v.onLevels levels) n u bench).1 = .error .unfinished) :
    GetsStuck v n bench := by
  induction n generalizing u bench with
  | zero =>
      have stopped := never 0
      rw [drain] at stopped
      split at stopped <;> cases stopped
  | succ n ih =>
      have filled : bench.queue ≠ [] := by
        intro empty
        have stopped := never 0
        rw [drain_of_empty _ _ empty] at stopped
        cases stopped
      by_cases endless : ∀ levels,
          (((v.onLevels levels).batch bench.queue).run { bench with queue := [] }).1 =
            .error .unfinished
      · obtain ⟨levels, turns, place, s, behind, middle, split, done, endless⟩ :=
          exists_endless onlyInserts bench.queue { bench with queue := [] } endless
        exact ⟨levels, [], bench, s, middle, .nil bench, Nat.succ_pos n,
          ⟨turns, place, behind, split, done⟩, endless⟩
      obtain ⟨levels, finished⟩ := not_forall.mp endless
      rcases exists_turns (v := v.onLevels levels) onlyInserts bench.queue { bench with queue := [] } with
        ⟨turns, middle, batch, round⟩ | ⟨turns, place, s, behind, stuck, halt, split, done, halted⟩
      · obtain ⟨deeper, rounds, last, s, stuck, later, within, comes, endless⟩ :=
          ih { u with statements := splice u.statements (turns.map Turn.outcome) } middle fun more => by
            have stopped := never (max levels more)
            rw [drain_succ _ _ filled, ← batch,
              (round.onLevels (Nat.le_max_left levels more)).batch_run] at stopped
            have continues := drain_continues (v := v.onLevels more) (Nat.le_max_right levels more) n
              { u with statements := splice u.statements (turns.map Turn.outcome) } middle
            exact continues.elim id fun same => same ▸ stopped
        refine ⟨max levels deeper, turns :: rounds, last, s, stuck, ?_, Nat.succ_lt_succ within,
          comes.onLevels (Nat.le_max_right ..), endless⟩
        exact .cons filled batch (round.onLevels (Nat.le_max_left ..))
          (later.onLevels (Nat.le_max_right ..))
      · obtain ⟨after, same⟩ := done.batch_halts halted behind
        have stopped := never levels
        rw [drain_succ _ _ filled, split, same] at stopped
        rw [split, same] at finished
        cases halt with
        | failed error => cases stopped
        | unfinished => exact absurd rfl finished

/-- Where the drain gets stuck, it is left unfinished on all levels. -/
theorem never_of_getsStuck (stuck : GetsStuck v maxRounds bench) (u : SourceUnit)
    (levels : Nat) : (drain (v.onLevels levels) maxRounds u bench).1 = .error .unfinished := by
  obtain ⟨enough, rounds, last, s, middle, done, within, comes, endless⟩ := stuck
  have le := Nat.le_max_right levels enough
  have halts : HaltsWith (v.onLevels (max levels enough)) last .unfinished :=
    ⟨s, middle, comes.onLevels le, not_not.mp fun other => endless ⟨_, other⟩⟩
  obtain ⟨after, stopped⟩ := (done.onLevels le).drain_halts u within halts
  have continues := drain_continues (v := v.onLevels levels) (Nat.le_max_left levels enough) maxRounds
    u bench
  exact continues.elim id fun same => same ▸ congrArg Prod.fst stopped

/-- What the drain of a unit comes to, on whatever levels. -/
structure IsDrained (v : Visit σ) (u : SourceUnit) (bench : Workbench σ) : Prop where
  /-- On some levels it comes to its end, and on all further ones to the same, or it gets stuck. -/
  settles : GetsStuck v maxRounds bench ∨ ∃ levels,
    (drain (v.onLevels levels) maxRounds u bench).1 ≠ .error .unfinished ∧ ∀ more, levels ≤ more →
      drain (v.onLevels more) maxRounds u bench = drain (v.onLevels levels) maxRounds u bench
  never_iff : (∀ levels, (drain (v.onLevels levels) maxRounds u bench).1 = .error .unfinished) ↔
    GetsStuck v maxRounds bench
  drains : ∀ levels, Drains (v.onLevels levels) u bench (drain (v.onLevels levels) maxRounds u bench)

/-- Whatever the plugins and the queue, the drain comes to its end unless the visit of a queued
statement goes on for ever, as none does where the phase before hands back nothing deeper. -/
theorem drain_drains (v : Visit σ) (onlyInserts : v.registry.OnlyInserts) (u : SourceUnit)
    (bench : Workbench σ) :
    IsDrained v u bench ∧ (v.KeepsDepth → ¬GetsStuck v maxRounds bench) := by
  have never_iff : (∀ levels, (drain (v.onLevels levels) maxRounds u bench).1 = .error .unfinished) ↔
      GetsStuck v maxRounds bench :=
    ⟨getsStuck_of_never onlyInserts maxRounds u bench, fun stuck => never_of_getsStuck stuck u⟩
  refine ⟨⟨?_, never_iff, fun levels => drains_drain (v := v.onLevels levels) onlyInserts u bench⟩, ?_⟩
  · rw [← never_iff]
    refine or_iff_not_imp_left.mpr fun ends => ?_
    obtain ⟨levels, finished⟩ := not_forall.mp ends
    refine ⟨levels, finished, fun more le => ?_⟩
    exact (drain_continues (v := v.onLevels levels) le maxRounds u bench).resolve_left finished
  · rintro keeps ⟨_, _, _, s, middle, _, _, _, endless⟩
    exact endless (keeps.ends s middle)

end Levels

/-! A class that is queued is registered in a second round. -/

section Late

def lateVisit : Visit Unit where
  registry := Registrations.builtin
  semantic := .ofTables [] [] []
  references := .none
  levels := 0
  path := ⟨"/ws/src/unit.ts"⟩
  unitId? := none

def lateClass : Statement := .classDecl ⟨"Late", false, [], none⟩ []

def lateBench : Workbench Unit := { queue := [(.start, lateClass)], notes := () }

theorem drain_drains_late : lateVisit.registry.OnlyInserts ∧
    (IsDrained lateVisit ⟨⟨"/ws/src/unit.ts"⟩, []⟩ lateBench ∧ ¬GetsStuck lateVisit maxRounds lateBench) ∧
    (drain lateVisit maxRounds ⟨⟨"/ws/src/unit.ts"⟩, []⟩ lateBench).1 =
      .ok ⟨⟨"/ws/src/unit.ts"⟩, [lateClass, Registrations.runtimeCall "registerClass"
        (Registrations.classArgs "/ws/src/unit.ts" ⟨"Late", false, [], none⟩ [])]⟩ := by
  obtain ⟨drained, unstuck⟩ :=
    drain_drains lateVisit Registrations.onlyInserts_builtin ⟨⟨"/ws/src/unit.ts"⟩, []⟩ lateBench
  have keeps : lateVisit.KeepsDepth := by
    intro plugin registered before
    simp only [lateVisit, Registrations.builtin, List.mem_cons, List.not_mem_nil, or_false]
      at registered
    rcases registered with rfl | rfl <;> cases before
  exact ⟨Registrations.onlyInserts_builtin, ⟨drained, unstuck keeps⟩, rfl⟩

end Late

/-! A plugin makes each call that it is handed the argument of another one, where it is handed it
again. -/

section Wrapped

def wrapCall : Plugin Unit where
  name := "wrap"
  category := .call
  phase := .before
  transform _ node :=
    match node with
    | .expression (.call callee args) => return .expression (.call (.ident "f") [.call callee args])
    | other => return other

def wrapVisit : Visit Unit where
  registry := [wrapCall]
  semantic := .ofTables [] [] []
  references := .none
  levels := 0
  path := ⟨"/ws/src/unit.ts"⟩
  unitId? := none

def plainCall : Expr := .call (.ident "f") []

def wrapBench : Workbench Unit := { queue := [(.finish, .expression plainCall)], notes := () }

theorem run_expr_wrapped (levels n : Nat) (callee : Expr) (args : List Expr)
    (bench : Workbench Unit) :
    (((wrapVisit.onLevels levels).expr {} n (.call callee args)).run bench).1 = .error .unfinished := by
  induction n with
  | zero => rfl
  | succ n ih =>
      have wrapped : ((wrapVisit.onLevels levels).step Visit.asExpression .call .before {}
          (.expression (.call callee args))).run bench =
            (.ok (.call (.ident "f") [.call callee args]), bench) := rfl
      rw [Visit.expr, Work.run_bind, wrapped]
      refine Work.run_bind_eq_error ?_
      cases n with
      | zero => rfl
      | succ n =>
          have name : ((wrapVisit.onLevels levels).expr {} (n + 1) (.ident "f")).run bench =
              (.ok (.ident "f"), bench) := rfl
          rw [Visit.insideExpr, Work.run_bind, name]
          refine Work.run_bind_eq_error ?_
          rw [List.mapM_cons]
          exact Work.run_bind_eq_error ih

/-- Though its queue is not filled again, the drain is left unfinished on all levels. -/
theorem not_drain_drains_wrapped : wrapVisit.registry.OnlyInserts ∧ ∀ levels,
    (drain (wrapVisit.onLevels levels) maxRounds ⟨⟨"/ws/src/unit.ts"⟩, []⟩ wrapBench).1 =
      .error .unfinished := by
  have onlyInserts : wrapVisit.registry.OnlyInserts := by
    intro plugin registered ctx node
    cases List.mem_singleton.mp registered
    cases node with
    | expression e => cases e <;> exact Work.moves_pure _
    | _ => exact Work.moves_pure _
  refine ⟨onlyInserts, fun levels => ?_⟩
  have endless : HaltsWith (wrapVisit.onLevels levels) wrapBench .unfinished := by
    refine ⟨.expression plainCall, { wrapBench with queue := [] }, ⟨[], .finish, [], rfl, .nil _⟩, ?_⟩
    have visit : (wrapVisit.onLevels levels).wholeStatement {} (.expression plainCall) = do
        return .expression (← (wrapVisit.onLevels levels).wholeExpr {} plainCall) := by
      have deep : (Statement.expression plainCall).depth + levels = levels + 1 := Nat.add_comm ..
      exact congrArg (fun n => (wrapVisit.onLevels levels).statement n {} (.expression plainCall)) deep
    rw [visit]
    exact Work.run_bind_eq_error (run_expr_wrapped levels _ _ _ _)
  obtain ⟨after, stopped⟩ := (Rounds.nil wrapBench).drain_halts ⟨⟨"/ws/src/unit.ts"⟩, []⟩
    (by decide) endless
  exact congrArg Prod.fst stopped

end Wrapped

end Dispatcher

end WorkspaceBuild
