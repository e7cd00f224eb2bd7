import WorkspaceBuild.Proofs.Builder.Outputs

/-! # Reports of a build

Every event of a delta leaves its trace in the report: a file that needed its output is listed once,
by what became of it, and one that is gone at most once, as removed. An event carries no more than a
path and a category, and these lead back to the entry that it was made from.
-/

namespace WorkspaceBuild

/-- The lists of a report. -/
inductive ReportList where
  | transformed
  | copied
  | removed
  | pending
  deriving DecidableEq, Inhabited, Repr

namespace BuildReport

def paths (report : BuildReport) : ReportList → List Path
  | .transformed => report.transformed
  | .copied => report.copied
  | .removed => report.removed
  | .pending => report.pending

/-- The share that paths have in a list of a report. -/
def share (list : ReportList) (listed : List (ReportList × Path)) : List Path :=
  (listed.filter (·.1 = list)).map Prod.snd

/-- The paths of a list, with what is listed in it put behind. -/
def Lists (before after : BuildReport) (listed : List (ReportList × Path)) : Prop :=
  ∀ list, after.paths list = before.paths list ++ share list listed

variable {first second third : BuildReport} {listed others : List (ReportList × Path)}

theorem Lists.refl (report : BuildReport) : report.Lists report [] := by
  intro list
  simp [share]

theorem Lists.trans (one : first.Lists second listed) (two : second.Lists third others) :
    first.Lists third (listed ++ others) := by
  intro list
  rw [two list, one list, share, share, share, List.filter_append, List.map_append,
    List.append_assoc]

/-- The report with a path put behind one of its lists. -/
def put (report : BuildReport) : ReportList → Path → BuildReport
  | .transformed, path => { report with transformed := report.transformed ++ [path] }
  | .copied, path => { report with copied := report.copied ++ [path] }
  | .removed, path => { report with removed := report.removed ++ [path] }
  | .pending, path => { report with pending := report.pending ++ [path] }

theorem lists_put (report : BuildReport) (list : ReportList) (path : Path) :
    report.Lists (report.put list path) [(list, path)] := by
  intro other
  cases list <;> cases other <;> simp [paths, put, share]

end BuildReport

namespace Builder

variable {σ : Type}

namespace Production

variable {p : Production σ}

/-- What an event contributes to a report: the list and the path. The entry of the file is the tracked
one that the event was made from. -/
inductive Contributes (p : Production σ) (name : String) (event : DeltaEvent) :
    List (ReportList × Path) → Prop where
  | copied {m : Module} {entry : FileEntry} (needed : event.action ≠ .removed)
      (known : p.manifest.module? name = some m)
      (tracked : m.tracked.get? event.path = some ⟨event.category, entry⟩)
      (kind : entry.kind ≠ .source) : Contributes p name event [(.copied, m.outputPath entry)]
  | transformed {m : Module} {entry : FileEntry} (needed : event.action ≠ .removed)
      (known : p.manifest.module? name = some m)
      (tracked : m.tracked.get? event.path = some ⟨event.category, entry⟩)
      (kind : entry.kind = .source) (hosted : p.builder.host.isSome) :
      Contributes p name event [(.transformed, m.outputPath entry)]
  | pending {m : Module} {entry : FileEntry} (needed : event.action ≠ .removed)
      (known : p.manifest.module? name = some m)
      (tracked : m.tracked.get? event.path = some ⟨event.category, entry⟩)
      (kind : entry.kind = .source) (alone : p.builder.host = none) :
      Contributes p name event [(.pending, m.sourcePath entry)]
  /-- The output of a file that is gone has been deleted. -/
  | removed (gone : event.action = .removed) :
      Contributes p name event [(.removed, p.goneOutput name event)]
  /-- It was gone already. -/
  | nothing (gone : event.action = .removed) : Contributes p name event []

section Steps

variable {state next : BuildState σ}

theorem report_onDisk {path : Path} {outcome : Disk.Outcome}
    (done : onDisk state path outcome = (next, .ok ())) : next.report = state.report := by
  obtain ⟨disk, _, rfl⟩ := onDisk_eq_ok.mp done
  rfl

theorem report_makeFolder {path : Path} (made : p.makeFolder path state = (next, .ok ())) :
    next.report = state.report := by
  rw [makeFolder] at made
  split at made
  · exact report_onDisk made
  · cases made
    rfl

theorem lists_copy {source output : Path} (done : p.copy source output state = (next, .ok ())) :
    state.report.Lists next.report [(.copied, output)] := by
  simp only [copy, andThen_eq_ok] at done
  obtain ⟨middle, made, last, copied, recorded⟩ := done
  cases recorded
  rw [← report_makeFolder made, ← report_onDisk copied]
  exact BuildReport.lists_put last.report .copied output

theorem lists_write {output : Path} {text : String}
    (done : p.write output text state = (next, .ok ())) :
    state.report.Lists next.report [(.transformed, output)] := by
  simp only [write, andThen_eq_ok] at done
  obtain ⟨middle, made, last, written, recorded⟩ := done
  cases recorded
  rw [← report_makeFolder made, ← report_onDisk written]
  exact BuildReport.lists_put last.report .transformed output

theorem lists_transform {host : CompilerHost} {source output : Path}
    (done : p.transform host source output state = (next, .ok ())) :
    state.report.Lists next.report [(.transformed, output)] := by
  unfold transform at done
  split at done
  · cases done
  split at done
  · cases done
  simp only at done
  split at done
  · cases done
  · rename_i notes _
    -- noting what the host notes leaves the report as it is
    have listed := lists_write done
    exact listed

/-- Producing the output of an entry like the tracked one lists the file once. -/
theorem contributes_produce {name : String} {event : DeltaEvent} {m : Module}
    {entry other : FileEntry} (needed : event.action ≠ .removed)
    (known : p.manifest.module? name = some m)
    (tracked : m.tracked.get? event.path = some ⟨event.category, entry⟩)
    (path : other.path = entry.path) (kind : other.kind = entry.kind)
    (done : p.produce m other state = (next, .ok ())) :
    ∃ listed, p.Contributes name event listed ∧ state.report.Lists next.report listed := by
  have output : m.outputPath other = m.outputPath entry := by
    rw [Module.outputPath, FileEntry.outputPath, path, kind]
    rfl
  have source : m.sourcePath other = m.sourcePath entry := by
    rw [Module.sourcePath, path]
    rfl
  rw [produce, output, source, kind] at done
  split at done
  · rename_i noSource
    exact ⟨_, .copied needed known tracked noSource, lists_copy done⟩
  · rename_i isSource
    rw [not_not] at isSource
    split at done
    · rename_i host hosted
      exact ⟨_, .transformed needed known tracked isSource (by simp [hosted]), lists_transform done⟩
    · rename_i alone
      cases done
      exact ⟨_, .pending needed known tracked isSource alone,
        BuildReport.lists_put state.report .pending _⟩

theorem contributes_remove {name : String} {event : DeltaEvent} (gone : event.action = .removed)
    (done : p.remove name event state = (next, .ok ())) :
    ∃ listed, p.Contributes name event listed ∧ state.report.Lists next.report listed := by
  unfold remove at done
  dsimp only at done
  split at done
  · cases done
    exact ⟨_, .removed gone, BuildReport.lists_put state.report .removed _⟩
  · cases done
    exact ⟨[], .nothing gone, .refl _⟩
  · cases done

end Steps

end Production

open Production

section Plans

variable {b : Builder σ} {disk : Disk} {session : Session} {now : Nat} {plan : BuildPlan}
  {state next last : BuildState σ}

/-- The tracked file that an event of a plan was made from. -/
theorem IsPlanned.exists_tracked (h : b.IsPlanned disk plan) {item : String × DeltaEvent}
    (member : item ∈ eventsOf plan.delta) (needed : item.2.action ≠ .removed) :
    ∃ m entry, plan.manifest.module? item.1 = some m ∧ m.IsSound b.settings.outputRoot ∧
      m.tracked.get? item.2.path = some ⟨item.2.category, entry⟩ ∧
        (item.2.category, entry) ∈ m.entries ∧ item.2.path = entry.path := by
  have needsOutput : item.2.action.needsOutput := decide_eq_true needed
  rw [mem_eventsOf, h.delta, Delta.reports_iff h.named h.namedBefore,
    Delta.mem_eventsOf_of_needsOutput needsOutput] at member
  obtain ⟨entry, listed, -⟩ := member
  obtain ⟨m, known, listed⟩ := Option.bind_eq_some_iff.mp listed
  obtain ⟨isEntry, -, path⟩ := Module.mem_of_listed? listed
  refine ⟨m, entry, known, (h.sound _ m known).2, ?_, isEntry, path.symm⟩
  rw [Module.get?_tracked, listed]
  rfl

/-- Handling an event of a plan lists what the event contributes. -/
theorem IsPlanned.contributes_handle (h : b.IsPlanned disk plan) {item : String × DeltaEvent}
    (member : item ∈ eventsOf plan.delta)
    (done : (b.production plan.manifest now).handle state item.1 item.2 = (next, .ok ())) :
    ∃ listed, (b.production plan.manifest now).Contributes item.1 item.2 listed ∧
      state.report.Lists next.report listed := by
  rw [handle] at done
  split at done
  · rename_i needsOutput
    have needed : item.2.action ≠ .removed := of_decide_eq_true needsOutput
    obtain ⟨m, entry, known, sound, tracked, isEntry, path⟩ := h.exists_tracked member needed
    obtain ⟨other, found, same, kind⟩ := exists_entryOf? sound isEntry path rfl
    have isKnown : (b.production plan.manifest now).manifest.module? item.1 = some m := known
    simp only [isKnown, found] at done
    exact contributes_produce needed isKnown tracked same kind done
  · rename_i notNeeded
    have gone : item.2.action = .removed := by simpa [DeltaAction.needsOutput] using notNeeded
    exact contributes_remove gone done

/-- Handling events of a plan lists what they contribute, in their order. -/
theorem IsPlanned.contributes_handleAll (h : b.IsPlanned disk plan)
    {events : List (String × DeltaEvent)} (members : events ⊆ eventsOf plan.delta)
    (done : (b.production plan.manifest now).handleAll state events = (last, .ok ())) :
    ∃ shares, List.Forall₂
        (fun item => (b.production plan.manifest now).Contributes item.1 item.2) events shares ∧
      state.report.Lists last.report shares.flatten := by
  induction events generalizing state with
  | nil =>
      cases done
      exact ⟨[], .nil, .refl _⟩
  | cons item rest ih =>
      obtain ⟨middle, first, others⟩ := andThen_eq_ok.mp done
      obtain ⟨here, later⟩ := List.cons_subset.mp members
      obtain ⟨listed, contributes, lists⟩ := h.contributes_handle here first
      obtain ⟨shares, all, listsAll⟩ := ih later others
      exact ⟨listed :: shares, .cons contributes all, lists.trans listsAll⟩

theorem length_eventsOf (delta : Delta) : (eventsOf delta).length = delta.eventCount := by
  simp [eventsOf, Delta.eventCount, Assoc.values, List.length_flatMap, List.length_flatten,
    Function.comp_def]

/-- A build that has been done accounts for every event. One that needed an output contributes one
path to one list: what is no source has been copied, and a source has been transformed by a host or
is pending without one. A removal contributes at most one path, to those removed. The lists hold
nothing else and are in the order of the delta, and the number of events is that of the delta. -/
theorem reports_of_build {notes : σ} {after : Session} {report : BuildReport} (made : session.Made)
    (built : b.build session now disk notes = (after, last, .ok report)) :
    ∃ plan, (b.plan disk session now).2 = .ok plan ∧ report.delta = plan.delta ∧
      report.events = (eventsOf plan.delta).length ∧
      ∃ shares, List.Forall₂
          (fun item => (b.production plan.manifest now).Contributes item.1 item.2)
          (eventsOf plan.delta) shares ∧
        ∀ list, report.paths list = BuildReport.share list shares.flatten := by
  obtain ⟨plan, planned, executed, rfl⟩ := build_eq_ok_iff.mp built
  have isPlanned : b.IsPlanned disk plan :=
    isPlanned_of_plan made.isClassified (congrArg Prod.snd planned)
  obtain ⟨handled, done, others⟩ := andThen_eq_ok.mp executed
  obtain ⟨saving, saved, recorded⟩ := andThen_eq_ok.mp others
  cases recorded
  obtain ⟨shares, all, lists⟩ := isPlanned.contributes_handleAll (List.Subset.refl _) done
  refine ⟨plan, congrArg Prod.snd planned, rfl, (length_eventsOf plan.delta).symm, shares, all, ?_⟩
  intro list
  have same : saving.report = handled.report := (save_eq_ok saved).2
  have listed := lists list
  rw [← same] at listed
  cases list <;> simpa [BuildReport.paths] using listed

end Plans

/-- The descriptor is copied, the new source is transformed, and the output of the one that is gone is
removed. -/
theorem reports_of_build_renamed :
    Session.empty.Made ∧ ∃ after last report,
      renamedBuilder.build .empty 9 renamedDisk () = (after, last, .ok report) ∧
        report.events = 3 ∧
        ∃ shares, List.Forall₂
            (fun item => (renamedBuilder.production renamedPlan.manifest 9).Contributes item.1 item.2)
            (eventsOf renamedPlan.delta) shares ∧
          ∀ list, report.paths list = BuildReport.share list shares.flatten := by
  have built := build_eq_ok_iff.mpr
    ⟨renamedPlan, eq_mk_of_snd plan_renamed, eq_mk_of_snd execute_renamed, rfl⟩
  obtain ⟨plan, same, _, events, accounts⟩ := reports_of_build .empty built
  obtain rfl : renamedPlan = plan := Except.ok.inj (plan_renamed.symm.trans same)
  exact ⟨.empty, _, _, _, built, events, accounts⟩

end Builder

end WorkspaceBuild
