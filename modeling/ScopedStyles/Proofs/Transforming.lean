import ScopedStyles.Transform
import ScopedStyles.Proofs.References

/-!
# Transforming as processing

To the build, a job is processing the files of `Job.paths` in order (`same_after`). What it yields
depends on the build's answers alone (`result_congr`), and each replacement that it lists is the
answer for its path (`outcome_of_mem_replacements`).
-/

namespace ScopedStyles

open Script

/-- A source to be transformed, its file name and whether a source map is asked for. -/
structure Job where
  source : String
  file : String
  mapped : Bool
deriving DecidableEq, Repr, Inhabited

namespace Job

/-- What the job yields, if its source can be read. -/
def result (j : Job) (b : Build) : Option Transformed :=
  (Transform.run j.source j.file j.mapped b).map Prod.fst

/-- The build after the job; a source that cannot be read leaves it alone. -/
def after (j : Job) (b : Build) : Build :=
  ((Transform.run j.source j.file j.mapped b).map Prod.snd).getD b

/-- What the work on the source starts from. -/
def start (j : Job) (b : Build) : Inlining :=
  .start ⟨j.file⟩ b (some (Transform.sourcesOf j.file j.source))

/-- The program with its comments, if the source can be read. -/
def program? (j : Job) : Option (Program × Comments) :=
  Program.read (.ofFile j.file) .module j.source

/-- The files that the job processes, in order. -/
def paths (j : Job) (b : Build) : List Path :=
  match j.program? with
  | some (program, _) =>
    (Node.referencesAll (fun s => ((j.start b).mapOf? s).isSome) program.body).map
      (Specifier.resolve · ⟨j.file⟩)
  | none => []

variable {j : Job}

theorem run_of_program? {program : Program} {comments : Comments}
    (h : j.program? = some (program, comments)) (b : Build) :
    ∃ t, Transform.run j.source j.file j.mapped b =
        some (t, (Node.inlineAll program.body (j.start b)).2.build) ∧
      t.replacements = (Node.inlineAll program.body (j.start b)).2.replacements := by
  simp only [program?] at h
  simp only [Transform.run, h]
  exact ⟨_, rfl, rfl⟩

theorem run_of_no_program (h : j.program? = none) (b : Build) :
    Transform.run j.source j.file j.mapped b = none := by
  simp only [program?] at h
  simp only [Transform.run, h]
  rfl

/-- A source map comes if one is asked for. -/
theorem isSome_sourceMap {b b' : Build} {t : Transformed}
    (h : Transform.run j.source j.file j.mapped b = some (t, b')) :
    t.sourceMap.isSome = j.mapped := by
  rcases hr : j.program? with _ | ⟨program, comments⟩
  · simp [run_of_no_program hr] at h
  · have hs := (Node.follows_inlineAll program.body (j.start b)).sources
    simp only [start, Inlining.start, Option.isSome_some] at hs
    simp only [program?] at hr
    simp only [Transform.run, hr, Program.inlineMaps, Inlining.takeHoisted, bind, Option.bind,
      pure, Option.some.injEq, Prod.mk.injEq] at h
    obtain ⟨rfl, -⟩ := h
    cases j.mapped
    · rfl
    · exact Option.isSome_map.trans hs

/-- Events apart, a job comes to processing its files. -/
theorem same_after (j : Job) (b : Build) : (j.after b).Same (b.processAll (j.paths b)) := by
  unfold after paths
  rcases h : j.program? with _ | ⟨program, comments⟩
  · rw [run_of_no_program h]
    exact .refl b
  · obtain ⟨t, ht, -⟩ := run_of_program? h b
    rw [ht]
    exact Node.same_inlineAll program.body (j.start b) fun _ => rfl

theorem steady_after (j : Job) (b : Build) : b.Steady (j.after b) :=
  (b.steady_processAll _).trans (j.same_after b).symm.steady

theorem agree_start (j : Job) {b b' : Build} (h : ∀ path, b.outcome path = b'.outcome path) :
    Inlining.Agree (j.start b) (j.start b') :=
  ⟨rfl, rfl, rfl, rfl, h⟩

/-- Builds that answer alike give a job the same code, the same source map and the same
replacements. -/
theorem result_congr (j : Job) {b b' : Build} (h : ∀ path, b.outcome path = b'.outcome path) :
    j.result b = j.result b' := by
  unfold result
  rcases hr : j.program? with _ | ⟨program, comments⟩
  · rw [run_of_no_program hr, run_of_no_program hr]
  · obtain ⟨h1, h2⟩ := Node.agree_inlineAll program.body (j.agree_start h)
    simp only [program?] at hr
    simp only [Transform.run, hr, Program.inlineMaps, Inlining.takeHoisted]
    simp only [start] at h1 h2
    simp only [bind, Option.bind, Option.map_some, pure, h1, h2.hoisted, h2.sources,
      h2.replacements]

theorem paths_congr (j : Job) {b b' : Build} (h : ∀ path, b.outcome path = b'.outcome path) :
    j.paths b = j.paths b' := by
  have hm : ∀ s, (j.start b).mapOf? s = (j.start b').mapOf? s := fun s => by
    simp only [Inlining.mapOf?, start, Inlining.start, h]
  simp only [paths, hm]

/-- The class map of each replacement is the answer for its path. -/
theorem outcome_of_mem_replacements {b : Build} {t : Transformed} (h : j.result b = some t)
    {s : Replacement} (hs : s ∈ t.replacements) :
    ∃ o, b.outcome s.path = .ok o ∧ o.classMap? = some s.classMap := by
  unfold result at h
  rcases hr : j.program? with _ | ⟨program, comments⟩
  · simp [run_of_no_program hr] at h
  · obtain ⟨t', ht, hrep⟩ := run_of_program? hr b
    rw [ht] at h
    obtain rfl : t' = t := Option.some.inj h
    obtain ⟨added, h1, -, h3⟩ := (Node.follows_inlineAll program.body (j.start b)).added
    rw [hrep, h1] at hs
    obtain ⟨hp, hm⟩ := h3 s (by simpa [start, Inlining.start] using hs)
    rw [hp]
    exact Inlining.mapOf?_eq_some hm

end Job

end ScopedStyles
