import ScopedStyles.Proofs.Transforming

/-!
# The order of jobs

A build does its jobs one after the other, and stylesheets that several of them refer to are
overwritten while some are still to come. Yet each job yields what it yields alone, on the disk as
it was before the first one, and the order of the jobs shows in nothing but the order of the
records (`runAll_perm`).
-/

namespace ScopedStyles

namespace Job

/-- Does jobs one after the other: what each yields, and the build after them. -/
def runAll : List Job → Build → List (Option Transformed) × Build
  | [], b => ([], b)
  | j :: rest, b =>
    let (results, last) := runAll rest (j.after b)
    (j.result b :: results, last)

theorem runAll_cons (j : Job) (rest : List Job) (b : Build) :
    runAll (j :: rest) b =
      (j.result b :: (runAll rest (j.after b)).1, (runAll rest (j.after b)).2) := rfl

/-- Each of the jobs yields what it yields alone. -/
theorem runAll_results : ∀ (jobs : List Job) (b : Build),
    (runAll jobs b).1 = jobs.map fun j => j.result b
  | [], _ => rfl
  | j :: rest, b => by
    have hr : rest.map (fun i => i.result (j.after b)) = rest.map fun i => i.result b :=
      List.map_congr_left fun i _ => i.result_congr (j.steady_after b).outcome
    rw [runAll_cons, runAll_results rest (j.after b), hr, List.map_cons]

/-- Events apart, the jobs come to processing all their files. -/
theorem same_runAll : ∀ (jobs : List Job) (b : Build),
    (runAll jobs b).2.Same (b.processAll (jobs.flatMap fun j => j.paths b))
  | [], b => .refl b
  | j :: rest, b => by
    have hp : (rest.flatMap fun i => i.paths (j.after b)) = rest.flatMap fun i => i.paths b :=
      congrArg (rest.flatMap ·) (funext fun i => i.paths_congr (j.steady_after b).outcome)
    rw [runAll_cons, List.flatMap_cons, Build.processAll_append, ← hp]
    exact (same_runAll rest (j.after b)).trans ((j.same_after b).processAll _)

/-- Whatever the order of the jobs, each yields what it yields alone with a fresh processor, the
disk ends up the same, the same files are processed, and what fails in one order fails in the
other. -/
theorem runAll_perm (stages : Pipeline) (disk : Disk) {jobs jobs' : List Job}
    (h : jobs.Perm jobs') :
    let b : Build := .start disk (.fresh stages)
    (runAll jobs b).1 = jobs.map (fun j => j.result b) ∧
      (runAll jobs' b).1 = jobs'.map (fun j => j.result b) ∧
      (runAll jobs b).2.disk = (runAll jobs' b).2.disk ∧
      (runAll jobs b).2.processor.processed.Perm (runAll jobs' b).2.processor.processed ∧
      ∀ path, (runAll jobs b).2.outcome path = (runAll jobs' b).2.outcome path := by
  intro b
  have hfiles : (b.processAll (jobs.flatMap fun j => j.paths b)).Alike
      (b.processAll (jobs'.flatMap fun j => j.paths b)) := b.alike_processAll (h.flatMap_right _)
  have ha : (runAll jobs b).2.Alike (runAll jobs' b).2 :=
    (same_runAll jobs b).alike.trans (hfiles.trans (same_runAll jobs' b).symm.alike)
  exact ⟨runAll_results jobs b, runAll_results jobs' b, ha.disk, ha.records.map _, ha.outcome⟩

/-- Two jobs that refer to one stylesheet, in both orders. -/
theorem runAll_shared_stylesheet :
    let disk := ((Disk.empty ["app"]).put ["app"] .directory).put ["app", "a.sss"]
      (.file (.text ".x \x7b color: red \x7d"))
    let b : Build := .start disk (.ofConfig .default)
    let one : Job := ⟨"import * as a from './a.sss'; f(a.x);", "one.js", false⟩
    let two : Job := ⟨"g(require('./a.sss').x);", "two.js", true⟩
    [one, two].Perm [two, one] ∧ (runAll [one, two] b).1 = [one.result b, two.result b] ∧
      (runAll [two, one] b).1 = [two.result b, one.result b] ∧
      (runAll [one, two] b).2.disk = (runAll [two, one] b).2.disk := by
  intro disk b one two
  have hp : [one, two].Perm [two, one] := List.Perm.swap two one []
  obtain ⟨h1, h2, hd, -⟩ := runAll_perm (Pipeline.ofConfig .default) disk hp
  exact ⟨hp, h1, h2, hd⟩

end Job

end ScopedStyles
