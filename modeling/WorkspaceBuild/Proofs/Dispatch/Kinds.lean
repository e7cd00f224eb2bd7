import WorkspaceBuild.Proofs.Dispatch.Walk

/-! # Nodes of another kind

A plugin that hands back a node of another kind than it was handed fails the unit at once. So a phase
leaves a node of the kind that it started from, and the walk is never wrong to take it for one. An error
over a node of another kind is that of the plugin that was applied last.
-/

namespace WorkspaceBuild

variable {σ α β : Type}

/-- The plugin itself fails with the error on some node. -/
def Plugin.Raises (plugin : Plugin σ) (error : PluginError) : Prop :=
  ∃ ctx node bench, ((plugin.transform ctx node).run bench).1 = .error error

namespace Application

variable {a : Application σ}

/-- The plugin answered with a node of the kind. -/
def HandsBack (a : Application σ) (kind : NodeKind) : Prop :=
  ∃ result, a.answer = .ok result ∧ result.kind = kind

theorem HandsBack.outcome {found : NodeKind} (back : a.HandsBack found)
    (other : found ≠ a.node.kind) :
    a.outcome = .error (.unexpectedNode a.plugin.name a.node.kind found) := by
  obtain ⟨result, answer, rfl⟩ := back
  rw [Application.outcome, answer]
  exact if_neg other

theorem outcome_eq_error {e : PluginError} (outcome : a.outcome = .error e) :
    a.answer = .error e ∨ ∃ found, a.HandsBack found ∧ found ≠ a.node.kind ∧
      e = .unexpectedNode a.plugin.name a.node.kind found := by
  rw [Application.outcome] at outcome
  split at outcome
  · rename_i result answer
    split at outcome
    · cases outcome
    · rename_i other
      exact .inr ⟨result.kind, ⟨result, answer, rfl⟩, other, (Except.error.inj outcome).symm⟩
  · rename_i error answer
    exact .inl (Except.error.inj outcome ▸ answer)

/-- A registered plugin was really applied. -/
structure IsOf (a : Application σ) (registry : Registry σ) : Prop where
  listed : a.plugin ∈ registry
  ran : ∃ bench, a.answer = ((a.plugin.transform a.context a.node).run bench).1

theorem IsOf.raises {registry : Registry σ} {e : PluginError} (of : a.IsOf registry)
    (answer : a.answer = .error e) : a.plugin.Raises e := by
  obtain ⟨bench, ran⟩ := of.ran
  exact ⟨a.context, a.node, bench, ran.symm.trans answer⟩

theorem IsBy.isOf {plugin : Plugin σ} {ctx : PluginContext} {registry : Registry σ}
    (by_ : a.IsBy plugin ctx) (listed : plugin ∈ registry) : a.IsOf registry :=
  ⟨by_.plugin ▸ listed, by_.ran⟩

end Application

namespace Dispatcher

namespace Visit

open Application

/-- A registered plugin was applied, and the walk goes on with what it handed back. -/
structure Passes (v : Visit σ) (a : Application σ) : Prop where
  of : a.IsOf v.registry
  outcome : ∃ next, a.outcome = .ok next

/-- What comes of applications. Where it is a failure, the last application has failed. -/
inductive IsReport (v : Visit σ) : Log σ → Except (Halt PluginError) α → Prop
  | passed {made : Log σ} {x : α} (fine : ∀ a ∈ made, v.Passes a) : IsReport v made (.ok x)
  | unfinished {made : Log σ} (fine : ∀ a ∈ made, v.Passes a) : IsReport v made (.error .unfinished)
  | failed {earlier : Log σ} {a : Application σ} {e : PluginError}
      (fine : ∀ a ∈ earlier, v.Passes a) (of : a.IsOf v.registry) (outcome : a.outcome = .error e) :
      IsReport v (earlier ++ [a]) (.error (.failed e))

variable {v : Visit σ} {known : Node → Node → List AnnotationUse}

/-! ## Reports -/

theorem IsReport.prepend {first made : Log σ} {answer : Except (Halt PluginError) α}
    (report : v.IsReport made answer) (fine : ∀ a ∈ first, v.Passes a) :
    v.IsReport (first ++ made) answer := by
  cases report with
  | passed later => exact .passed (List.forall_mem_append.mpr ⟨fine, later⟩)
  | unfinished later => exact .unfinished (List.forall_mem_append.mpr ⟨fine, later⟩)
  | failed later of outcome =>
      rw [← List.append_assoc]
      exact .failed (List.forall_mem_append.mpr ⟨fine, later⟩) of outcome

theorem IsReport.fine {made : Log σ} {x : α}
    (report : v.IsReport made (.ok x : Except (Halt PluginError) α)) : ∀ a ∈ made, v.Passes a := by
  cases report with
  | passed fine => exact fine

theorem IsReport.of_error {made : Log σ} {halt : Halt PluginError}
    (report : v.IsReport made (.error halt : Except (Halt PluginError) α)) :
    v.IsReport made (.error halt : Except (Halt PluginError) β) := by
  cases report with
  | unfinished fine => exact .unfinished fine
  | failed fine of outcome => exact .failed fine of outcome

theorem IsReport.map {made : Log σ} {answer : Except (Halt PluginError) α}
    (report : v.IsReport made answer) (f : α → β) : v.IsReport made (answer.map f) := by
  cases answer with
  | error halt => exact report.of_error
  | ok x => exact .passed report.fine

/-- A chain ends with the first application that fails. -/
theorem isReport_of_chain {ctx : PluginContext} {plugins : List (Plugin σ)} {node : Node}
    {made : Log σ} {result : Except PluginError Node} (chain : Chain ctx plugins node made result)
    (registered : ∀ plugin ∈ plugins, plugin ∈ v.registry) :
    v.IsReport made (result.mapError .failed) := by
  induction chain with
  | nil node => exact .passed (List.forall_mem_nil _)
  | cons by_ outcome _ ih =>
      obtain ⟨here, others⟩ := List.forall_mem_cons.mp registered
      exact (ih others).prepend (List.forall_mem_singleton.mpr ⟨by_.isOf here, _, outcome⟩)
  | failed by_ outcome =>
      exact .failed (List.forall_mem_nil _) (by_.isOf (registered _ List.mem_cons_self)) outcome

theorem IsPhase.isReport {category : NodeCategory} {phase : Phase} {scope : Scope} {node : Node}
    {made : Log σ} {result : Except PluginError Node}
    (ran : v.IsPhase category phase scope node made result) :
    v.IsReport made (result.mapError .failed) := by
  have registered {always : Bool} (plugin : Plugin σ)
      (listed : plugin ∈ v.pluginsOf category phase always) : plugin ∈ v.registry :=
    (mem_pluginsOf listed).1
  cases ran with
  | failed chain => exact isReport_of_chain chain registered
  | passed chain further =>
      have called := isReport_of_chain further fun plugin listed =>
        registered plugin (List.mem_filter.mp listed).1
      exact called.prepend (isReport_of_chain chain registered).fine

mutual

theorem IsVisit.isReport : ∀ {scope : Scope} {node : Node} {made : Log σ}
    {result : Except (Halt PluginError) Node}, v.IsVisit known scope node made result →
      v.IsReport made result
  | _, _, _, _, .unfinished .. => .unfinished (List.forall_mem_nil _)
  | _, _, _, _, .bare _ inside => inside.isReport
  | _, _, _, _, .failed _ before => before.isReport
  | _, _, _, _, .halted _ before inside => inside.isReport.prepend before.isReport.fine
  | _, _, _, _, .visited _ before inside after =>
      (after.isReport.prepend inside.isReport.fine).prepend before.isReport.fine

theorem IsInside.isReport : ∀ {scope : Scope} {node : Node} {made : Log σ}
    {result : Except (Halt PluginError) Node}, v.IsInside known scope node made result →
      v.IsReport made result
  | _, _, _, _, .halted walk => walk.isReport.of_error
  | _, _, _, _, .filled walk _ => .passed walk.isReport.fine

theorem IsWalk.isReport : ∀ {places : List (Scope × Node)} {made : Log σ}
    {results : Except (Halt PluginError) (List Node)}, v.IsWalk known places made results →
      v.IsReport made results
  | _, _, _, .nil => .passed (List.forall_mem_nil _)
  | _, _, _, .halted here => here.isReport.of_error
  | _, _, _, .cons here there => (there.isReport.map _).prepend here.isReport.fine

end

/-! ## Answers -/

/-- What is answered for a unit, given the applications that were made. -/
inductive IsAnswer (v : Visit σ) : Log σ → Except (Halt TransformError) SourceUnit → Prop
  | plugin {log : Log σ} {e : PluginError}
      (report : v.IsReport log (.error (.failed e) : Except (Halt PluginError) SourceUnit)) :
      IsAnswer v log (.error (.failed (.plugin v.path e)))
  | other {log : Log σ} {answer : Except (Halt TransformError) SourceUnit}
      (fine : ∀ a ∈ log, v.Passes a) (other : ∀ path e, answer ≠ .error (.failed (.plugin path e))) :
      IsAnswer v log answer

theorem IsReport.isAnswer {log : Log σ} {halt : Halt PluginError}
    (report : v.IsReport log (.error halt : Except (Halt PluginError) α)) :
    v.IsAnswer log (.error (halt.map (.plugin v.path))) := by
  cases report with
  | unfinished fine => exact .other fine (by simp [Halt.map])
  | failed fine of outcome => exact .plugin (.failed fine of outcome)

theorem IsAnswer.prepend {first log : Log σ} {answer : Except (Halt TransformError) SourceUnit}
    (answered : v.IsAnswer log answer) (fine : ∀ a ∈ first, v.Passes a) :
    v.IsAnswer (first ++ log) answer := by
  cases answered with
  | plugin report => exact .plugin (report.prepend fine)
  | other later other => exact .other (List.forall_mem_append.mpr ⟨fine, later⟩) other

theorem IsAnswer.of_ok {log : Log σ} {x y : SourceUnit} (answered : v.IsAnswer log (.ok x)) :
    v.IsAnswer log (.ok y) := by
  cases answered with
  | other fine _ => exact .other fine (by simp)

theorem IsAnswer.exists_last {log : Log σ} {path : Path} {e : PluginError}
    (answered : v.IsAnswer log (.error (.failed (.plugin path e)))) :
    path = v.path ∧ ∃ earlier a, log = earlier ++ [a] ∧ a.IsOf v.registry ∧ a.outcome = .error e := by
  cases answered with
  | plugin report =>
      cases report with
      | @failed earlier a _ _ of outcome => exact ⟨rfl, earlier, a, rfl, of, outcome⟩
  | other _ other => exact absurd rfl (other path e)

/-- No application fails without being answered. -/
theorem IsAnswer.of_outcome {log : Log σ} {answer : Except (Halt TransformError) SourceUnit}
    (answered : v.IsAnswer log answer) {a : Application σ} (listed : a ∈ log) {e : PluginError}
    (outcome : a.outcome = .error e) : answer = .error (.failed (.plugin v.path e)) := by
  have not_passes (passes : v.Passes a) : False := by
    obtain ⟨next, passed⟩ := passes.outcome
    rw [outcome] at passed
    cases passed
  cases answered with
  | other fine _ => exact (not_passes (fine a listed)).elim
  | plugin report =>
      cases report with
      | failed fine _ failed =>
          rcases List.mem_append.mp listed with before | last
          · exact (not_passes (fine a before)).elim
          · cases List.mem_singleton.mp last
            rw [outcome] at failed
            rw [Except.error.inj failed]

end Visit

/-- An application that fails in a round ends the drain, so all those of the rounds before have passed. -/
theorem IsDrain.isAnswer {v : Visit σ} {known : Node → Node → List AnnotationUse} {n : Nat}
    {u : SourceUnit} {bench : Workbench σ} {made : Log σ}
    {answer : Except (Halt TransformError) SourceUnit}
    (told : IsDrain v known n u bench made answer) : v.IsAnswer made answer := by
  induction told with
  | settled => exact .other (List.forall_mem_nil _) (by simp)
  | limit => exact .other (List.forall_mem_nil _) (by simp)
  | halted _ walk => exact walk.isReport.isAnswer
  | round _ _ walk _ ih => exact ih.prepend walk.isReport.fine

theorem IsTransform.isAnswer {d : Dispatcher σ} {known : Node → Node → List AnnotationUse}
    {u : SourceUnit} {notes : σ} {log : Log σ} {answer : Except (Halt TransformError) SourceUnit}
    (told : IsTransform d known u notes log answer) : (d.visitOf u).IsAnswer log answer := by
  cases told with
  | passed => exact .other (List.forall_mem_nil _) (by simp)
  | halted visit => exact visit.isReport.isAnswer
  | drained _ visit drain settled =>
      have answered := drain.isAnswer.prepend visit.isReport.fine
      rcases settled with rfl | ⟨before, after, rfl, rfl⟩
      · exact answered
      · exact answered.of_ok

/-- What a unit is answered about nodes of another kind, given the applications that were made. -/
structure Blames (d : Dispatcher σ) (u : SourceUnit)
    (answer : Except (Halt TransformError) SourceUnit) (log : Log σ) : Prop where
  /-- The walk itself is never wrong about a node. -/
  spares : (∀ plugin ∈ d.registry, plugin.name ≠ Visit.walkName ∧
      ∀ expected found, ¬plugin.Raises (.unexpectedNode Visit.walkName expected found)) →
    ∀ path expected found,
      answer ≠ .error (.failed (.plugin path (.unexpectedNode Visit.walkName expected found)))
  /-- An error that no plugin raises itself names the plugin that was applied last, the kind of node
  that it was handed and the kind that it handed back. -/
  names : ∀ path name expected found,
    answer = .error (.failed (.plugin path (.unexpectedNode name expected found))) → path = u.path ∧
      ((∀ plugin ∈ d.registry, ¬plugin.Raises (.unexpectedNode name expected found)) →
        ∃ earlier a, log = earlier ++ [a] ∧ a.IsOf d.registry ∧ a.plugin.name = name ∧
          a.node.kind = expected ∧ a.HandsBack found ∧ found ≠ expected)
  /-- No plugin hands back a node of another kind without an error. -/
  fails : ∀ a ∈ log, ∀ found, a.HandsBack found → found ≠ a.node.kind →
    answer = .error (.failed (.plugin u.path (.unexpectedNode a.plugin.name a.node.kind found)))

theorem Visit.IsAnswer.names {v : Visit σ} {log : Log σ} {path : Path} {name : String}
    {expected found : NodeKind}
    (answered : v.IsAnswer log (.error (.failed (.plugin path (.unexpectedNode name expected found)))))
    (unraised : ∀ plugin ∈ v.registry, ¬plugin.Raises (.unexpectedNode name expected found)) :
    ∃ earlier a, log = earlier ++ [a] ∧ a.IsOf v.registry ∧ a.plugin.name = name ∧
      a.node.kind = expected ∧ a.HandsBack found ∧ found ≠ expected := by
  obtain ⟨-, earlier, a, split, of, outcome⟩ := answered.exists_last
  rcases Application.outcome_eq_error outcome with raised | ⟨kind, back, other, same⟩
  · exact absurd (of.raises raised) (unraised a.plugin of.listed)
  · cases same
    exact ⟨earlier, a, split, of, rfl, rfl, back, other⟩

/-- Whatever plugins answer, an error over a node of another kind is never that of the walk itself: the
plugin that was applied last has handed back the node. -/
theorem transform_blames (d : Dispatcher σ) (u : SourceUnit) (notes : σ) : ∃ log,
    d.logged.transform u (notes, []) = ((d.transform u notes).1, (d.transform u notes).2, log) ∧
      d.Blames u (d.transform u notes).1 log := by
  obtain ⟨log, same, told⟩ := transform_logged d u notes
  have answered := told.isAnswer
  refine ⟨log, same, { spares := ?_, names := ?_, fails := ?_ }⟩
  · intro others path expected found failed
    rw [failed] at answered
    obtain ⟨_, a, _, of, named, _⟩ :=
      answered.names fun plugin listed => (others plugin listed).2 expected found
    exact (others a.plugin of.listed).1 named
  · intro path name expected found failed
    rw [failed] at answered
    exact ⟨answered.exists_last.1, answered.names⟩
  · intro a listed found back other
    exact answered.of_outcome listed (back.outcome other)

/-! A plugin takes calls for statements; the only call is in a statement that another plugin queues. -/

section Confused

def queueStart : Plugin Unit where
  name := "start"
  category := .classDecl
  phase := .before
  transform _ node := do
    Work.insert .finish (.expression (.call (.ident "start") []))
    return node

def confuseCall : Plugin Unit where
  name := "confused"
  category := .call
  phase := .after
  transform _ node :=
    match node with
    | .expression e => return .statement (.expression e)
    | other => return other

def confusedDispatcher : Dispatcher Unit := ⟨[queueStart, confuseCall], .ofTables [] [] [], .none, 0⟩

def confusedUnit : SourceUnit := ⟨⟨"/ws/src/unit.ts"⟩, [.classDecl ⟨"App", true, [], none⟩ []]⟩

theorem transform_blames_confused :
    (∀ plugin ∈ confusedDispatcher.registry, plugin.name ≠ Visit.walkName ∧
      ∀ name expected found, ¬plugin.Raises (.unexpectedNode name expected found)) ∧
    (confusedDispatcher.transform confusedUnit ()).1 =
      .error (.failed (.plugin ⟨"/ws/src/unit.ts"⟩
        (.unexpectedNode "confused" .expression .statement))) ∧
    ∃ log, confusedDispatcher.logged.transform confusedUnit ((), []) =
        ((confusedDispatcher.transform confusedUnit ()).1, (), log) ∧
      confusedDispatcher.Blames confusedUnit (confusedDispatcher.transform confusedUnit ()).1 log ∧
      ∃ earlier a, log = earlier ++ [a] ∧ a.plugin.name = "confused" ∧ a.HandsBack .statement := by
  have others : ∀ plugin ∈ confusedDispatcher.registry, plugin.name ≠ Visit.walkName ∧
      ∀ name expected found, ¬plugin.Raises (.unexpectedNode name expected found) := by
    simp only [confusedDispatcher, List.forall_mem_cons]
    refine ⟨⟨by decide, ?_⟩, ⟨by decide, ?_⟩, List.forall_mem_nil _⟩
    · rintro name expected found ⟨ctx, node, bench, raised⟩
      cases raised
    · rintro name expected found ⟨ctx, node, bench, raised⟩
      cases node <;> cases raised
  have failed : (confusedDispatcher.transform confusedUnit ()).1 =
      .error (.failed (.plugin ⟨"/ws/src/unit.ts"⟩
        (.unexpectedNode "confused" .expression .statement))) := rfl
  obtain ⟨log, same, blames⟩ := transform_blames confusedDispatcher confusedUnit ()
  obtain ⟨-, last⟩ := blames.names _ _ _ _ failed
  obtain ⟨earlier, a, split, -, named, -, back, -⟩ :=
    last fun plugin listed => (others plugin listed).2 _ _ _
  exact ⟨others, failed, log, same, blames, earlier, a, split, named, back⟩

end Confused

end Dispatcher

end WorkspaceBuild
