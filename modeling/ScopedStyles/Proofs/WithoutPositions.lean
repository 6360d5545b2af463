import ScopedStyles.Plugin
import ScopedStyles.Transform
import ScopedStyles.Proofs.Replacement

/-!
# With positions and without

Where the work on a program is given the sources of its positions, as `Transform.run` does, it takes
in the text of each stylesheet that it inlines and has the objects refer to that; a plugin gives it
none. The sources are written to and never asked, so the rest of the work is the same, step by step
(`unplaced_inlineMaps`): the trees are twins, which differ in the spans of the objects that were put
in and of what is in these (`Twins`), and all that was gathered is the same (`inlineMaps_twins`). So
a plugin that is handed the program of a source does to the disk what transforming the source does
(`Plugin.apply_of_run`).
-/

namespace ScopedStyles

namespace Script.Node

/-- The object of a class map with no positions in it. -/
def plainObject (m : ClassMap) : Node :=
  .mk (.object false) .none
    (m.pairs.map fun pair => .mk .keyValue .none [.text pair.1 .none, .text pair.2 .none])

mutual

/-- Two trees that come of a first one. They are the same, with the spans of the first one, but
where a reference of it is replaced: there each has an object of one class map, the second one an
object without positions. -/
inductive Twins : Node → Node → Node → Prop
  | replaced {n : Node} {specifier : String} {put : Node → Node} {m : ClassMap} {o : Node} :
    Refers n specifier put → IsObjectOf m o → Twins n (put o) (put (plainObject m))
  | kept {k : Kind} {s : Span} {ks ks' ks'' : List Node} :
    RowsTwins ks ks' ks'' → Twins (.mk k s ks) (.mk k s ks') (.mk k s ks'')

inductive RowsTwins : List Node → List Node → List Node → Prop
  | nil : RowsTwins [] [] []
  | cons {n n' n'' : Node} {ns ns' ns'' : List Node} :
    Twins n n' n'' → RowsTwins ns ns' ns'' → RowsTwins (n :: ns) (n' :: ns') (n'' :: ns'')

end

mutual

/-- The tree with its spans erased. -/
def spanless : Node → Node
  | mk k _ ks => mk k .none (spanlessAll ks)

def spanlessAll : List Node → List Node
  | [] => []
  | n :: ns => n.spanless :: spanlessAll ns

end

theorem spanlessAll_eq_map (ns : List Node) : spanlessAll ns = ns.map spanless := by
  induction ns with
  | nil => rfl
  | cons n ns ih => rw [spanlessAll, ih, List.map_cons]

theorem spanless_of_isObjectOf {m : ClassMap} {o : Node} (h : IsObjectOf m o) :
    o.spanless = (plainObject m).spanless := by
  obtain ⟨k, s, ks⟩ := o
  obtain ⟨rfl, hprops⟩ := h
  rw [plainObject, spanless, spanless, spanlessAll_eq_map, spanlessAll_eq_map]
  congr 1
  show ks.map spanless = _
  change List.Forall₂ _ m.pairs ks at hprops
  generalize m.pairs = pairs at hprops
  induction hprops with
  | nil => rfl
  | cons hprop _ ih =>
    obtain ⟨s, rfl⟩ := hprop
    rw [List.map_cons, List.map_cons, List.map_cons, ih]
    rfl

theorem Refers.spanless_put {n : Node} {specifier : String} {put : Node → Node}
    (h : Refers n specifier put) {o o' : Node} (ho : o.spanless = o'.spanless) :
    (put o).spanless = (put o').spanless := by
  cases h with
  | wholeImport _ span _ _ _ name => simp [bind, spanless, spanlessAll, ho]
  | call => exact ho

mutual

theorem Twins.spanless {n n' n'' : Node} (h : Twins n n' n'') : n'.spanless = n''.spanless := by
  cases h with
  | replaced hn ho => exact hn.spanless_put (spanless_of_isObjectOf ho)
  | kept hks => rw [Node.spanless, Node.spanless, hks.spanlessAll]

theorem RowsTwins.spanlessAll {ns ns' ns'' : List Node} (h : RowsTwins ns ns' ns'') :
    spanlessAll ns' = spanlessAll ns'' := by
  cases h with
  | nil => rfl
  | cons hn hns => rw [Node.spanlessAll, Node.spanlessAll, hn.spanless, hns.spanlessAll]

end

end Script.Node

open Script Script.Node

namespace Inlining

/-- The same work with no positions asked for. -/
def unplaced (r : Inlining) : Inlining := { r with sources := none }

/-- The sources are written to and never asked. -/
theorem unplaced_inlineClassNames (specifier : String) (r : Inlining) :
    (r.unplaced.inlineClassNames specifier).2 = (r.inlineClassNames specifier).2.unplaced := by
  obtain ⟨file, build, sources, hoisted, replacements⟩ := r
  simp only [unplaced, inlineClassNames]
  rcases build.processFile (Specifier.resolve specifier file) with ⟨failure | o, build'⟩
  · rfl
  · rcases hm : o.classMap? with _ | m
    · simp only [hm]
      rfl
    · simp only [hm]
      rcases sources with _ | all <;> rfl

theorem mapOf?_unplaced (r : Inlining) (specifier : String) :
    r.unplaced.mapOf? specifier = r.mapOf? specifier := rfl

/-- Both works put in an object of one class map, or both put in none. -/
theorem inlineClassNames_unplaced (specifier : String) (r : Inlining) :
    (r.inlineClassNames specifier).1 = none ∧ (r.unplaced.inlineClassNames specifier).1 = none ∨
      ∃ m o, (r.inlineClassNames specifier).1 = some o ∧ IsObjectOf m o ∧
        (r.unplaced.inlineClassNames specifier).1 = some (plainObject m) := by
  rcases hm : r.mapOf? specifier with _ | m
  · obtain ⟨e, he⟩ := inlineClassNames_of_none hm
    obtain ⟨e', he'⟩ := inlineClassNames_of_none ((mapOf?_unplaced r specifier).trans hm)
    exact .inl ⟨by rw [he], by rw [he']⟩
  · obtain ⟨o, ho, hom⟩ := mapOf?_eq_some hm
    have hobject := isObjectOf_classObject
      (r.register (Specifier.resolve specifier r.file) o.css).1 o.css m
    refine .inr ⟨m, _, ?_, hobject, ?_⟩
    · rw [inlineClassNames_of_ok ho hom]
    · rw [inlineClassNames_of_ok (r := r.unplaced) ho hom]
      rfl

end Inlining

namespace Script.Node

theorem unplaced_inlineImport (n : Node) (r : Inlining) :
    (n.inlineImport r.unplaced).2 = (n.inlineImport r).2.unplaced := by
  unfold inlineImport
  split
  · simp only []
    split_ifs
    · rfl
    · split
      · exact Inlining.unplaced_inlineClassNames _ r
      · rfl
  · rfl

theorem unplaced_inlineCall (n : Node) (r : Inlining) :
    (n.inlineCall r.unplaced).2 = (n.inlineCall r).2.unplaced := by
  unfold inlineCall
  split
  · split_ifs
    · exact Inlining.unplaced_inlineClassNames _ r
    · rfl
  · rfl

theorem unplaced_replacement (n : Node) (r : Inlining) :
    (n.replacement r.unplaced).2 = (n.replacement r).2.unplaced := by
  unfold replacement
  split
  · exact unplaced_inlineImport n r
  · exact unplaced_inlineCall n r
  · rfl

/-- Both works replace a node, by twins, or both leave it. -/
theorem replacement_unplaced (n : Node) (r : Inlining) :
    (n.replacement r).1 = none ∧ (n.replacement r.unplaced).1 = none ∨
      ∃ new new', (n.replacement r).1 = some new ∧ (n.replacement r.unplaced).1 = some new' ∧
        Twins n new new' := by
  rcases hn : n.reference? with _ | ⟨specifier, put⟩
  · have hnone : ∀ q, (n.replacement q).1 = none := fun q => by
      rcases replacement_of_none hn q with h | h <;> rw [h]
    exact .inl ⟨hnone r, hnone r.unplaced⟩
  · rw [replacement_of_some hn, replacement_of_some hn]
    rcases r.inlineClassNames_unplaced specifier with ⟨h, h'⟩ | ⟨m, o, h, ho, h'⟩
    · exact .inl ⟨by rw [h, Option.map_none], by rw [h', Option.map_none]⟩
    · refine .inr ⟨put o, put (plainObject m), by rw [h, Option.map_some],
        by rw [h', Option.map_some], .replaced (reference?_eq_some_iff.1 hn) ho⟩

section Work

mutual

theorem unplaced_inlineMaps : ∀ (n : Node) (r : Inlining),
    Twins n (n.inlineMaps r).1 (n.inlineMaps r.unplaced).1 ∧
      (n.inlineMaps r.unplaced).2 = (n.inlineMaps r).2.unplaced
  | mk k s ks, r => by
    have hstate := unplaced_replacement (mk k s ks) r
    have htwins := replacement_unplaced (mk k s ks) r
    rcases h : (mk k s ks).replacement r with ⟨new, q⟩
    rcases h' : (mk k s ks).replacement r.unplaced with ⟨new', q'⟩
    rw [h, h'] at hstate htwins
    obtain rfl : q' = q.unplaced := hstate
    rcases htwins with ⟨rfl, rfl⟩ | ⟨o, o', rfl, rfl, ho⟩
    · obtain ⟨hks, hq⟩ := unplaced_inlineAll ks q
      rw [inlineMaps_of_none h, inlineMaps_of_none h']
      exact ⟨.kept hks, hq⟩
    · rw [inlineMaps_of_some h, inlineMaps_of_some h']
      exact ⟨ho, rfl⟩

theorem unplaced_inlineAll : ∀ (ns : List Node) (r : Inlining),
    RowsTwins ns (inlineAll ns r).1 (inlineAll ns r.unplaced).1 ∧
      (inlineAll ns r.unplaced).2 = (inlineAll ns r).2.unplaced
  | [], r => ⟨.nil, rfl⟩
  | n :: ns, r => by
    obtain ⟨hn, hq⟩ := unplaced_inlineMaps n r
    obtain ⟨hns, hq'⟩ := unplaced_inlineAll ns (n.inlineMaps r).2
    rw [← hq] at hns hq'
    exact ⟨.cons hn hns, hq'⟩

end

end Work

end Script.Node

namespace Script.Program

/-- The program with all spans erased. -/
def spanless (p : Program) : Program := { p with span := .none, body := spanlessAll p.body }

theorem unplaced_inlineMaps_state (p : Program) (r : Inlining) :
    (p.inlineMaps r.unplaced).2 = (p.inlineMaps r).2.unplaced :=
  congrArg (fun q => q.takeHoisted.2) (unplaced_inlineAll p.body r).2

/-- Whatever the program, the file, the disk, the records and the loads that wait already: the work
with positions and the work without them gather the same replacements and have the same build in the
end, with the same disk and the same records, and none of them has a load waiting. Both put the same
loads behind the directives; the programs are the same but for spans, and they are twins: spans
differ in the objects put in and nowhere else. -/
theorem inlineMaps_twins (p : Program) (r : Inlining) :
    (p.inlineMaps r.unplaced).2 = (p.inlineMaps r).2.unplaced ∧
      (p.inlineMaps r.unplaced).1.spanless = (p.inlineMaps r).1.spanless ∧
      ∃ (body body' loads : List Node), RowsTwins p.body body body' ∧
        (p.inlineMaps r).1 = { p with
          body := body.take (p.body.takeWhile isDirective).length ++ loads ++
            body.drop (p.body.takeWhile isDirective).length } ∧
        (p.inlineMaps r.unplaced).1 = { p with
          body := body'.take (p.body.takeWhile isDirective).length ++ loads ++
            body'.drop (p.body.takeWhile isDirective).length } := by
  obtain ⟨hbody, hstate⟩ := unplaced_inlineAll p.body r
  have hloads : (inlineAll p.body r.unplaced).2.hoisted = (inlineAll p.body r).2.hoisted := by
    rw [hstate]
    rfl
  have hplaced := length_takeWhile_isDirective (replaced_inlineAll p.body r fun _ => rfl)
  have hplain := length_takeWhile_isDirective (replaced_inlineAll p.body r.unplaced fun _ => rfl)
  have h : (p.inlineMaps r).1 = { p with
      body := (inlineAll p.body r).1.take (p.body.takeWhile isDirective).length ++
        (inlineAll p.body r).2.hoisted.map p.load ++
        (inlineAll p.body r).1.drop (p.body.takeWhile isDirective).length } := by
    rw [← hplaced]
    exact withLoads_eq _ _
  have h' : (p.inlineMaps r.unplaced).1 = { p with
      body := (inlineAll p.body r.unplaced).1.take (p.body.takeWhile isDirective).length ++
        (inlineAll p.body r).2.hoisted.map p.load ++
        (inlineAll p.body r.unplaced).1.drop (p.body.takeWhile isDirective).length } := by
    rw [← hplain, ← hloads]
    exact withLoads_eq _ _
  refine ⟨p.unplaced_inlineMaps_state r, ?_, _, _, _, hbody, h, h'⟩
  have hspanless := hbody.spanlessAll
  simp only [spanlessAll_eq_map] at hspanless
  simp only [h, h', spanless, spanlessAll_eq_map, List.map_append, List.map_take, List.map_drop,
    hspanless]

end Script.Program

/-- A source that is transformed in a build and its program handed to a plugin: the plugin lists the
same replacements, leaves the same disk and keeps the same records. -/
theorem Plugin.apply_of_run (plugin : Plugin) (c : Config) {source file : String} {mapped : Bool}
    {disk : Disk} {program : Program} {comments : Comments} {t : Transformed} {b : Build}
    (hread : Program.read (.ofFile file) .module source = some (program, comments))
    (h : Transform.run source file mapped (.start disk (plugin.processorFor c)) = some (t, b)) :
    (plugin.apply c program file disk).2.1.replacements = t.replacements ∧
      (plugin.apply c program file disk).2.1.build = b ∧
      (plugin.apply c program file disk).2.2 = ⟨some (c, b.processor)⟩ := by
  have hstate := program.unplaced_inlineMaps_state (.start ⟨file⟩
    (.start disk (plugin.processorFor c)) (some (Transform.sourcesOf file source)))
  simp only [Transform.run, hread, Option.bind_eq_bind, Option.bind_some, Option.pure_def,
    Option.some.injEq, Prod.mk.injEq] at h
  obtain ⟨rfl, rfl⟩ := h
  have hr : (plugin.apply c program file disk).2.1 = _ := hstate
  have hp : (plugin.apply c program file disk).2.2 =
      ⟨some (c, (plugin.apply c program file disk).2.1.build.processor)⟩ := rfl
  rw [hp, hr]
  exact ⟨rfl, rfl, rfl⟩

end ScopedStyles
