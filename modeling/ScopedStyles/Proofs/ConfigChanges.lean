import ScopedStyles.Plugin
import ScopedStyles.Proofs.ExportedNames
import ScopedStyles.Proofs.OncePerBuild
import Mathlib.Data.List.Induction

/-!
# Configurations that change

A plugin is handed one program after another, each with a configuration. As long as the
configuration stays the same the programs make up one build. When it changes the records are gone,
but what was rewritten stays on the disk, so a stylesheet that an earlier program refers to is
scoped a second time (`scoped_again_on_change`).

The class maps reported for a program come from the texts that the stylesheets held when the
configuration last changed. These are the texts from before the first program, unless an earlier
program under another configuration rewrote them (`scoped_since_change`).
-/

namespace ScopedStyles

open Css Script

namespace Pipeline

/-- Only classes that a sheet mentions are exported. -/
theorem keys_run {path : Path} {last : Sheet} : ∀ (stages : List StageConfig) {sheet : Sheet}
    {ms : List Message} {m : ClassMap},
      run path (stages.map Stage.ofConfig) sheet = .ok (last, ms) →
      classMapOf? ms = some m → m.pairs.map Prod.fst ⊆ sheet.mentions.map Mention.name
  | [], sheet, ms, m, h, hm => by
    simp only [List.map_nil, run, Except.ok.injEq, Prod.mk.injEq] at h
    obtain ⟨-, rfl⟩ := h
    cases hm
  | .discardEmpty :: rest, sheet, ms, m, h, hm => by
    obtain ⟨more, hr, hmore⟩ := run_discardEmpty h
    exact List.Subset.trans (keys_run rest hr (hmore ▸ hm)) (sheet.mentions_discard.map _).subset
  | .scopeClasses pattern :: rest, sheet, ms, m, h, hm => by
    obtain ⟨more, hr, hexports⟩ := run_scopeClasses h
    obtain rfl := Option.some.inj (hexports.symm.trans hm)
    intro key hkey
    simp only [Scoping.Scope.mapOf, List.map_map, Function.comp_def, List.map_id',
      List.mem_eraseDups] at hkey
    obtain ⟨n, hn, rfl⟩ := List.mem_map.1 hkey
    exact List.mem_map_of_mem (List.mem_filter.1 hn).1

theorem keys_process {c : Config} {path : Path} {text : String} {o : Output} {m : ClassMap}
    (h : process (ofConfig c) text path = .ok o) (hm : o.classMap? = some m) :
    ∃ sheet, read path text = .ok sheet ∧
      m.pairs.map Prod.fst ⊆ sheet.mentions.map Mention.name := by
  obtain ⟨sheet, last, hread, hrun, -⟩ := process_eq_ok h
  exact ⟨sheet, hread, keys_run c.stages hrun hm⟩

end Pipeline

namespace Plugin

/-- A program with its file name, and the configuration under which it is handed over. -/
structure Task where
  config : Config
  program : Program
  file : String

/-- A plugin and the disk that it works on. -/
structure Session where
  plugin : Plugin
  disk : Disk

/-- The places of the stylesheets that the current processor has processed. -/
def places (p : Plugin) : List Place :=
  match p.current with
  | some (_, processor) => processor.places
  | none => []

namespace Session

/-- What the work on a program of this configuration starts from. -/
def build (s : Session) (c : Config) : Build := .start s.disk (s.plugin.processorFor c)

def inlining (s : Session) (t : Task) : Inlining :=
  (s.plugin.apply t.config t.program t.file s.disk).2.1

/-- The class maps reported for a program. -/
def reports (s : Session) (t : Task) : List Replacement := (s.inlining t).replacements

def after (s : Session) (t : Task) : Session :=
  ⟨(s.plugin.apply t.config t.program t.file s.disk).2.2, (s.inlining t).build.disk⟩

def run (s : Session) (ts : List Task) : Session := ts.foldl after s

variable {s : Session} {t : Task}

theorem run_append (s : Session) (ts us : List Task) : s.run (ts ++ us) = (s.run ts).run us :=
  List.foldl_append

theorem run_concat (s : Session) (ts : List Task) (t : Task) :
    s.run (ts ++ [t]) = (s.run ts).after t :=
  s.run_append ts [t]

/-- The state that the references of a program are inlined from. -/
def start (s : Session) (t : Task) : Inlining := .start ⟨t.file⟩ (s.build t.config) none

theorem inlining_eq (s : Session) (t : Task) :
    (s.inlining t).build = (Node.inlineAll t.program.body (s.start t)).2.build ∧
      s.reports t = (Node.inlineAll t.program.body (s.start t)).2.replacements := ⟨rfl, rfl⟩

/-- Events apart, the work on a program leaves the build that the next one with its configuration
starts from. -/
theorem same_after (s : Session) (t : Task) :
    ((s.after t).build t.config).Same (s.inlining t).build := by
  refine ⟨rfl, ?_⟩
  show processorFor ⟨some (t.config, (s.inlining t).build.processor)⟩ t.config = _
  rw [processorFor]
  exact if_pos rfl

/-- The files that are processed for a program, in order. -/
def paths (s : Session) (t : Task) : List Path :=
  (Node.referencesAll (fun name => ((s.start t).mapOf? name).isSome) t.program.body).map
    (Specifier.resolve · ⟨t.file⟩)

theorem same_processAll (s : Session) (t : Task) :
    ((s.after t).build t.config).Same ((s.build t.config).processAll (s.paths t)) :=
  (s.same_after t).trans (Node.same_inlineAll t.program.body (s.start t) fun _ => rfl)

/-- What the work on a program writes. -/
def writes (s : Session) (t : Task) : List (Place × Output) :=
  (s.build t.config).writes (s.paths t)

theorem effect_after (s : Session) (t : Task) :
    (s.build t.config).Effect ((s.after t).build t.config) (s.writes t) := by
  have h := ((s.build t.config).effect_processAll (s.paths t)).trans
    (Build.effect_of_same (s.same_processAll t).symm)
  rwa [List.append_nil] at h

theorem steady_after (s : Session) (t : Task) :
    (s.build t.config).Steady ((s.after t).build t.config) :=
  ((s.build t.config).steady_processAll _).trans (s.same_processAll t).symm.steady

/-- The class map of each report is the answer for its path. -/
theorem outcome_of_mem_reports {r : Replacement} (hr : r ∈ s.reports t) :
    ∃ o, (s.build t.config).outcome r.path = .ok o ∧ o.classMap? = some r.classMap := by
  obtain ⟨added, hadded, -, hmap⟩ := (Node.follows_inlineAll t.program.body (s.start t)).added
  rw [(s.inlining_eq t).2, hadded] at hr
  obtain ⟨hpath, hm⟩ := hmap r (by simpa [start, Inlining.start] using hr)
  rw [hpath]
  exact Inlining.mapOf?_eq_some hm

section Unchanged

/-- What the work on programs of one configuration writes. -/
def runWrites : Session → List Task → List (Place × Output)
  | _, [] => []
  | s, t :: ts => s.writes t ++ runWrites (s.after t) ts

theorem effect_run {c : Config} : ∀ (ts : List Task) (s : Session), (∀ t ∈ ts, t.config = c) →
    (s.build c).Effect ((s.run ts).build c) (s.runWrites ts)
  | [], s, _ => Build.effect_of_same (.refl _)
  | t :: ts, s, h => by
    obtain ⟨rfl, hts⟩ := List.forall_mem_cons.1 h
    exact (s.effect_after t).trans (effect_run ts (s.after t) hts)

theorem steady_run {c : Config} : ∀ (ts : List Task) (s : Session), (∀ t ∈ ts, t.config = c) →
    (s.build c).Steady ((s.run ts).build c)
  | [], s, _ => (Build.Same.refl _).steady
  | t :: ts, s, h => by
    obtain ⟨rfl, hts⟩ := List.forall_mem_cons.1 h
    exact (s.steady_after t).trans (steady_run ts (s.after t) hts)

end Unchanged

section Changes

/-- The processor is the one that the last program has left. -/
theorem current_run (disk : Disk) (ts : List Task) :
    ((run ⟨.fresh, disk⟩ ts).plugin.current).map Prod.fst = ts.getLast?.map Task.config := by
  rcases List.eq_nil_or_concat ts with rfl | ⟨before, t, rfl⟩
  · rfl
  · rw [List.concat_eq_append, run_concat, List.getLast?_concat]
    rfl

/-- With a configuration that is not the one of the last program, a new processor sets to work. -/
theorem processorFor_run {disk : Disk} {before : List Task} {c : Config}
    (h : ∀ u ∈ before.getLast?, u.config ≠ c) :
    (run ⟨.fresh, disk⟩ before).plugin.processorFor c = .ofConfig c := by
  have hcurrent := current_run disk before
  unfold processorFor
  rcases hp : (run ⟨.fresh, disk⟩ before).plugin.current with _ | ⟨c', processor⟩
  · rfl
  · rw [hp, Option.map_some, eq_comm, Option.map_eq_some_iff] at hcurrent
    obtain ⟨u, hu, rfl⟩ := hcurrent
    exact if_neg (h u hu)

theorem places_after (s : Session) (t : Task) :
    (s.after t).plugin.places = ((s.after t).build t.config).processor.places := by
  rw [(s.same_after t).processor]
  rfl

/-- Paths lead to the same places all the time, and a file that is not as it was at first has been
processed for one of the programs. -/
theorem layout_run (disk : Disk) (ts : List Task) :
    disk.SameLayout (run ⟨.fresh, disk⟩ ts).disk ∧ ∀ place,
      (run ⟨.fresh, disk⟩ ts).disk.entry? place = disk.entry? place ∨
        ∃ earlier, earlier <+: ts ∧ place ∈ (run ⟨.fresh, disk⟩ earlier).plugin.places := by
  induction ts using List.reverseRecOn with
  | nil => exact ⟨.refl disk, fun _ => .inl rfl⟩
  | append_singleton ts t ih =>
    obtain ⟨hlayout, hkept⟩ := ih
    rw [run_concat]
    refine ⟨hlayout.trans (steady_after _ t).layout, fun place => ?_⟩
    have heffect := effect_after (run ⟨.fresh, disk⟩ ts) t
    by_cases hw : place ∈ (writes (run ⟨.fresh, disk⟩ ts) t).map Prod.fst
    · refine .inr ⟨ts ++ [t], List.prefix_refl _, ?_⟩
      rw [run_concat, places_after, heffect.places]
      exact List.mem_append_right _ hw
    · rcases hkept place with h | ⟨earlier, hearlier, h⟩
      · exact .inl ((heffect.kept place hw).trans h)
      · exact .inr ⟨earlier, hearlier.trans (List.prefix_append _ _), h⟩

end Changes

end Session

open Session

/-- What holds of a program `t` that is handed over behind others: `stretch` are those before it
since the configuration last changed, and `before` are those from before the change. -/
structure ScopedSinceChange (disk : Disk) (before stretch : List Task) (t : Task) : Prop where
  /-- The keys of a class map that is reported are classes of the stylesheet as it was when the
  configuration changed. If no program before the change had it processed, it was then as it was
  before the first program. -/
  keys : ∀ r ∈ (run ⟨.fresh, disk⟩ (before ++ stretch)).reports t, ∃ place text sheet,
    disk.locate r.path = .ok place ∧
      (run ⟨.fresh, disk⟩ before).disk.entry? place = some (.file (.text text)) ∧
      Pipeline.read (Disk.pathOf place) text = .ok sheet ∧
      r.classMap.pairs.map Prod.fst ⊆ sheet.mentions.map Mention.name ∧
      (disk.entry? place = some (.file (.text text)) ∨
        ∃ earlier, earlier <+: before ∧ place ∈ (run ⟨.fresh, disk⟩ earlier).plugin.places)
  /-- No stylesheet that was rewritten since the change is written again. -/
  once : ∃ ws, ((run ⟨.fresh, disk⟩ (before ++ stretch)).build t.config).Effect
      ((run ⟨.fresh, disk⟩ (before ++ stretch ++ [t])).build t.config) ws ∧
    ∀ w ∈ ws, ∀ earlier, earlier <+: stretch → earlier ≠ [] →
      w.1 ∉ (run ⟨.fresh, disk⟩ (before ++ earlier)).plugin.places

theorem scoped_since_change (disk : Disk) {before stretch : List Task} {t : Task}
    (hchange : ∀ u ∈ before.getLast?, u.config ≠ t.config)
    (hsame : ∀ u ∈ stretch, u.config = t.config) : ScopedSinceChange disk before stretch t := by
  have hfresh : ((run ⟨.fresh, disk⟩ before).build t.config).processor = .ofConfig t.config :=
    processorFor_run hchange
  refine ⟨fun r hr => ?_, ?_⟩
  · rw [run_append] at hr
    obtain ⟨o, ho, hm⟩ := outcome_of_mem_reports hr
    rw [(steady_run stretch _ hsame).outcome, Build.outcome_eq] at ho
    split at ho
    · simp at ho
    rename_i place hl
    rcases Build.answerAt_eq_ok ho with hrecord | ⟨-, text, hentry, hprocess⟩
    · rw [hfresh] at hrecord
      cases hrecord
    rw [hfresh] at hprocess
    obtain ⟨sheet, hread, hkeys⟩ := Pipeline.keys_process hprocess hm
    obtain ⟨hlayout, hkept⟩ := layout_run disk before
    refine ⟨place, text, sheet, (Disk.locate_congr hlayout r.path).trans hl, hentry, hread, hkeys,
      (hkept place).imp_left fun h => ?_⟩
    exact h.symm.trans hentry
  · rw [run_concat, run_append]
    refine ⟨_, effect_after _ t, fun w hw earlier hearlier hne hplace => ?_⟩
    obtain ⟨rest, rfl⟩ := hearlier
    -- what was processed up to `earlier` is recorded when `t` comes
    obtain ⟨ts, u, rfl⟩ := (List.eq_nil_or_concat earlier).resolve_left hne
    obtain ⟨hts, hrest⟩ := List.forall_mem_append.1 hsame
    have hu : u.config = t.config := hts u (by simp)
    refine (effect_after _ t).unrecorded w hw ?_
    rw [List.concat_eq_append, ← List.append_assoc, run_concat, places_after, hu] at hplace
    rw [List.concat_eq_append, run_append _ (ts ++ [u]) rest, (effect_run rest _ hrest).places,
      run_concat, ← run_append]
    exact List.mem_append_left _ hplace

/-- Three programs, the configuration changed behind the first one. The class map of `b.sss` has the
class that the file held at first, that of `a.sss` the one that the first program has left there. -/
theorem scoped_since_change_of_three :
    let disk := ((Disk.empty []).put ["a.sss"] (.file (.text ".a \x7b color: red \x7d"))).put
      ["b.sss"] (.file (.text ".b \x7b color: red \x7d"))
    let load (names : List String) : Program := ⟨false, none, .none, names.map Node.loadByCall⟩
    let one : Task := ⟨⟨[.scopeClasses "[local]_x"]⟩, load ["./a.sss"], "one.js"⟩
    let two : Task := ⟨⟨[.scopeClasses "[local]_y"]⟩, load ["./b.sss"], "two.js"⟩
    let three : Task := ⟨⟨[.scopeClasses "[local]_y"]⟩, load ["./b.sss", "./a.sss"], "three.js"⟩
    (∀ u ∈ [one].getLast?, u.config ≠ three.config) ∧ (∀ u ∈ [two], u.config = three.config) ∧
      (run ⟨.fresh, disk⟩ ([one] ++ [two])).reports three =
        [⟨"./b.sss", ⟨"b.sss"⟩, ⟨[("b", "b_y")]⟩⟩, ⟨"./a.sss", ⟨"a.sss"⟩, ⟨[("a_x", "a_x_y")]⟩⟩] ∧
      ScopedSinceChange disk [one] [two] three := by
  intro disk load one two three
  have hchange : ∀ u ∈ [one].getLast?, u.config ≠ three.config := by simp [one, three]
  have hsame : ∀ u ∈ [two], u.config = three.config := by simp [two, three]
  exact ⟨hchange, hsame, by decide +kernel, scoped_since_change disk hchange hsame⟩

/-- Two programs refer to one stylesheet under different configurations: the class map reported for
the second one has a key that is no class of the stylesheet as it was at first. -/
theorem scoped_again_on_change :
    let disk := (Disk.empty []).put ["a.sss"] (.file (.text ".a \x7b color: red \x7d"))
    let program : Program := ⟨false, none, .none, [Node.loadByCall "./a.sss"]⟩
    let one : Task := ⟨⟨[.scopeClasses "[local]_x"]⟩, program, "one.js"⟩
    let two : Task := ⟨⟨[.scopeClasses "[local]_y"]⟩, program, "two.js"⟩
    (run ⟨.fresh, disk⟩ [one]).reports two =
        [⟨"./a.sss", ⟨"a.sss"⟩, ⟨[("a_x", "a_x_y")]⟩⟩] ∧
      disk.locate ⟨"a.sss"⟩ = .ok ["a.sss"] ∧
      (Pipeline.read ⟨"/a.sss"⟩ ".a \x7b color: red \x7d").toOption.map
        (fun sheet => sheet.mentions.map Mention.name) = some ["a"] := by
  decide +kernel

end Plugin

end ScopedStyles
