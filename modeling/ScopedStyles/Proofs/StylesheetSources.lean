import ScopedStyles.Proofs.RegisteredSources
import ScopedStyles.Proofs.ShownNodes
import ScopedStyles.Proofs.ShownPaths
import ScopedStyles.Proofs.Transforming

/-!
# Stylesheets in source maps

`Job.carriesStylesheets` says what the source map of a module has of its stylesheets. Each source is
listed once, and those with a text are those that have the path of a replacement; unless the module
itself has that path, the text is the processed css but for a byte order mark. The stylesheet that
an import refers to is listed. For each replacement there is an object of its own in the module, and
where that is shown, the stylesheet is listed too.

A module that refers to itself as to a stylesheet is listed under the stylesheet's path with its own
text (`module_text_listed`).
-/

namespace ScopedStyles

open Script Script.Node

/-- What the source map of a module has of its stylesheets; `items` is the module as it was read,
and `body` what it is written from. -/
structure CarriesStylesheets (file source : String) (outcome : Path → Except Failure Output)
    (items body : List Node) (replacements : List Replacement) (map : SourceMap) : Prop where
  /-- Each source is listed once. -/
  once : map.names.Nodup
  /-- A source is the module or a stylesheet. Its text is in the map if it has the path of a
  replacement, and only then. -/
  entries : ∀ name text?, (name, text?) ∈ map.sources → ∃ text,
    (name = file ∧ text = String.ofList (Program.withoutMark source) ∨
      ∃ s ∈ replacements, s.path.text = name ∧ ∃ o, outcome s.path = .ok o ∧
        text = Pipeline.withoutMark o.css) ∧
    text? = if SourceMap.namesOne (replacements.map Replacement.path) name then some text else none
  /-- The stylesheet of a replacement has the text that it was processed to, as often as it may
  have been referred to, unless the module has its path. -/
  texts : ∀ s ∈ replacements, s.path.text ≠ file → ∀ text?, (s.path.text, text?) ∈ map.sources →
    ∃ o, outcome s.path = .ok o ∧ o.classMap? = some s.classMap ∧
      text? = some (Pipeline.withoutMark o.css)
  /-- The stylesheet of an import is listed if it has a class map. -/
  imports : ∀ item ∈ items, ∀ specifier put o, Refers item specifier put →
    outcome (Specifier.resolve specifier ⟨file⟩) = .ok o → o.classMap?.isSome →
      (Specifier.resolve specifier ⟨file⟩).text ∈ map.names
  /-- For each replacement there is an object of its own in the body, with the class map of the
  replacement, and if that is shown, the stylesheet is listed. -/
  listed : ∃ objects : List Node, (objects.map Node.span).Nodup ∧
    List.Forall₂ (fun s object => IsObjectOf s.classMap object ∧
      (∃ item ∈ body, object.Within item) ∧
      ((∃ item ∈ body, object.Shown item) → s.path.text ∈ map.names)) replacements objects

section Spanning

/-- What stands in place of an object opens where the object starts. -/
theorem opens_of_isObjectOf {m : ClassMap} {object : Node} (h : IsObjectOf m object) :
    object.part.plain.Opens object.span.lo := by
  obtain ⟨k, s, ks⟩ := object
  obtain rfl : k = .object false := h.1
  have hplain : (mk (.object false) s ks).part.plain = .leading s.lo :: .mark s.lo ::
      (Layout.say "\x7b" ++
        (if (ks.map part).isEmpty then [.lineIfComment (s.hi - 1)]
          else Layout.inLines s (some ",") Part.plain (ks.map part)) ++
        Layout.beforeEnd s ++ Layout.say "\x7d") := Layout.plain_part _ _ _
  rw [hplain]
  exact ⟨[.leading s.lo], _, by simp [Layout.say, Node.span]; rfl⟩

/-- A source is listed if an object that spans it is shown. -/
theorem mem_names_of_shown {all : Sources} (hapart : all.Apart) {s : Source} (hs : s ∈ all.all)
    {m : ClassMap} {object item : Node} (hobject : IsObjectOf m object)
    (hspan : object.span = s.span) {p : Program} (hitem : item ∈ p.body)
    (hshown : object.Shown item) (inlined : List Path) (comments : Comments) :
    s.name ∈ (SourceMap.ofMarks all inlined (p.layout.write comments).2).names := by
  have hopens := Program.opens_layout hitem hshown (opens_of_isObjectOf hobject)
  have hpos : object.span.lo ≠ 0 := by
    rw [hspan]
    exact Nat.pos_iff_ne_zero.1 (hapart.positive s hs)
  obtain ⟨mark, hmark, hat⟩ := Layout.exists_mark hopens hpos comments
  exact (SourceMap.lists_ofMarks all inlined _).2 hapart s hs
    ⟨mark, hmark, hat.trans (congrArg Span.lo hspan)⟩

/-- An object is shown by what it is put into. -/
theorem Script.Node.Refers.shown {n : Node} {specifier : String} {put : Node → Node}
    (h : Refers n specifier put) (o : Node) : o.Shown (put o) := by
  cases h with
  | wholeImport =>
    exact .inner List.mem_cons_self (.inner (List.mem_cons_of_mem _ List.mem_cons_self) .here)
  | call => exact .here

end Spanning

section Pairs

open Inlining

variable {outcome : Path → Except Failure Output} {placed : Node → Prop} {new : List Source}
  {added : List Replacement}

theorem exists_source (h : List.Forall₂ (Pairs outcome placed) new added) {rep : Replacement}
    (hrep : rep ∈ added) : ∃ s ∈ new, Pairs outcome placed s rep := by
  obtain ⟨i, hi, rfl⟩ := List.getElem_of_mem hrep
  have hi' : i < new.length := h.length_eq ▸ hi
  exact ⟨new[i], List.getElem_mem hi', h.get hi' hi⟩

theorem exists_replacement (h : List.Forall₂ (Pairs outcome placed) new added) {s : Source}
    (hs : s ∈ new) : ∃ rep ∈ added, Pairs outcome placed s rep := by
  obtain ⟨i, hi, rfl⟩ := List.getElem_of_mem hs
  have hi' : i < added.length := h.length_eq ▸ hi
  exact ⟨added[i], List.getElem_mem hi', h.get hi hi'⟩

/-- A source with the name of a replacement has the text that goes with it. -/
theorem text_of_name (h : List.Forall₂ (Pairs outcome placed) new added)
    (hshown : ∀ rep ∈ added, rep.path.shown = rep.path) {s : Source} (hs : s ∈ new)
    {rep : Replacement} (hrep : rep ∈ added) (hname : rep.path.text = s.name) :
    ∃ o, outcome rep.path = .ok o ∧ o.classMap? = some rep.classMap ∧
      s.text = Pipeline.withoutMark o.css := by
  obtain ⟨rep', hrep', hpair'⟩ := exists_replacement h hs
  obtain ⟨_, -, hpair⟩ := exists_source h hrep
  have hpath : rep'.path = rep.path :=
    Path.eq_of_text (hshown rep' hrep') (hshown rep hrep) (hpair'.name.symm.trans hname.symm)
  obtain ⟨o', ho', -, htext⟩ := hpair'.text
  obtain ⟨o, ho, hom, -⟩ := hpair.text
  obtain rfl : o = o' := Except.ok.inj (ho.symm.trans (hpath ▸ ho'))
  exact ⟨o, ho, hom, htext⟩

/-- The objects that were put in, in the order of the replacements. -/
theorem exists_objects (h : List.Forall₂ (Pairs outcome placed) new added) :
    ∃ objects : List Node, objects.map Node.span = new.map Source.span ∧
      List.Forall₂ (fun rep object => IsObjectOf rep.classMap object ∧ placed object ∧
        ∃ s ∈ new, s.name = rep.path.text ∧ object.span = s.span) added objects := by
  induction h with
  | nil => exact ⟨[], rfl, .nil⟩
  | @cons s rep new added hpair _ ih =>
    obtain ⟨objects, hspans, hobjects⟩ := ih
    obtain ⟨object, hobject, hspan, hplaced⟩ := hpair.object
    refine ⟨object :: objects, by rw [List.map_cons, List.map_cons, hspan, hspans], ?_⟩
    refine .cons ⟨hobject, hplaced, s, List.mem_cons_self, hpair.name, hspan⟩ ?_
    exact hobjects.imp fun rep' object' ⟨hobject', hplaced', s', hs', hs''⟩ =>
      ⟨hobject', hplaced', s', List.mem_cons_of_mem _ hs', hs''⟩

end Pairs

namespace Job

theorem apart_sourcesOf (file source : String) : (Transform.sourcesOf file source).Apart :=
  Sources.apart_add ⟨List.Pairwise.nil, fun _ h => absurd h List.not_mem_nil⟩ _ _

theorem eq_of_mem_sourcesOf {file source : String} {s : Source}
    (h : s ∈ (Transform.sourcesOf file source).all) :
    s.name = file ∧ s.text = String.ofList (Program.withoutMark source) := by
  rw [List.mem_singleton.1 h]
  exact ⟨Path.text_mk file, rfl⟩

variable {j : Job} {b b' : Build} {t : Transformed} {program : Program} {comments : Comments}

theorem replacements_of_run (h : Transform.run j.source j.file j.mapped b = some (t, b'))
    (hprogram : j.program? = some (program, comments)) :
    t.replacements = (program.inlineMaps (j.start b)).2.replacements := by
  simp only [program?] at hprogram
  simp only [Transform.run, hprogram] at h
  obtain ⟨rfl, -⟩ := Prod.mk.inj (Option.some.inj h)
  rfl

theorem shown_of_mem_replacements (h : Transform.run j.source j.file j.mapped b = some (t, b'))
    (hprogram : j.program? = some (program, comments)) :
    ∀ rep ∈ t.replacements, rep.path.shown = rep.path := by
  obtain ⟨added, hadded, -, hpaths⟩ := (follows_inlineAll program.body (j.start b)).added
  have hreplacements : t.replacements = added := (replacements_of_run h hprogram).trans hadded
  intro rep hrep
  rw [(hpaths rep (hreplacements ▸ hrep)).1]
  exact Specifier.shown_resolve rep.specifier j.file

theorem sourceMap_of_run (h : Transform.run j.source j.file j.mapped b = some (t, b'))
    (hprogram : j.program? = some (program, comments)) (hmapped : j.mapped) :
    t.sourceMap = (program.inlineMaps (j.start b)).2.sources.map fun all =>
      SourceMap.ofMarks all (t.replacements.map Replacement.path)
        ((program.inlineMaps (j.start b)).1.layout.write comments).2 := by
  simp only [program?] at hprogram
  simp only [Transform.run, hprogram] at h
  obtain ⟨rfl, -⟩ := Prod.mk.inj (Option.some.inj h)
  exact if_pos hmapped

/-- The stylesheet of an item that refers to one is listed. -/
theorem mem_names_of_item {item : Node} (hitem : item ∈ program.body) {specifier : String}
    {put : Node → Node} (hrefers : Refers item specifier put) {o : Output}
    (ho : b.outcome (Specifier.resolve specifier ⟨j.file⟩) = .ok o) (hom : o.classMap?.isSome)
    {all : Sources} (hall : (inlineAll program.body (j.start b)).2.sources = some all)
    (hapart : all.Apart) (inlined : List Path) :
    (Specifier.resolve specifier ⟨j.file⟩).text ∈ (SourceMap.ofMarks all inlined
      ((program.inlineMaps (j.start b)).1.layout.write comments).2).names := by
  obtain ⟨m, hom⟩ := Option.isSome_iff_exists.1 hom
  obtain ⟨r₁, hfollows, hbefore, hmem, hbehind⟩ := registers_of_mem hitem (j.start b)
  obtain ⟨new₁, -, hsources₁, hapart₁, -, -⟩ := hbefore _ rfl (apart_sourcesOf j.file j.source)
  have hfile : r₁.file = ⟨j.file⟩ := hfollows.file
  have ho₁ : r₁.build.outcome (Specifier.resolve specifier r₁.file) = .ok o := by
    rw [hfile, hfollows.steady.outcome]
    exact ho
  obtain ⟨object, r₂, heq, hobject, hspan, hsources₂, -⟩ :=
    Inlining.inlineClassNames_source hsources₁ ho₁ hom
  have hitem' : item.inlineMaps r₁ = (put object, r₂) := by
    obtain ⟨k, s, ks⟩ := item
    refine inlineMaps_of_some ?_
    rw [replacement_of_some (reference?_eq_some_iff.2 hrefers), heq]
    rfl
  rw [hitem'] at hmem hbehind
  obtain ⟨new₂, -, hsources, -, -, -⟩ := hbehind _ hsources₂ (Sources.apart_add hapart₁ _ _)
  obtain rfl := Option.some.inj (hall.symm.trans hsources)
  rw [← hfile]
  exact mem_names_of_shown hapart (List.mem_append_left _ List.mem_concat_self) hobject hspan
    (Program.mem_body_inlineMaps hmem) (hrefers.shown object) inlined comments

theorem carriesStylesheets (hmapped : j.mapped)
    (h : Transform.run j.source j.file j.mapped b = some (t, b')) :
    ∃ program comments map, j.program? = some (program, comments) ∧ t.sourceMap = some map ∧
      CarriesStylesheets j.file j.source b.outcome program.body
        (program.inlineMaps (j.start b)).1.body t.replacements map := by
  rcases hprogram : j.program? with _ | ⟨program, comments⟩
  · simp [run_of_no_program hprogram] at h
  obtain ⟨new, added, hsources, hapart, hadded, hpairs⟩ :=
    registers_inlineAll program.body (j.start b) _ rfl (apart_sourcesOf j.file j.source)
  obtain rfl : t.replacements = added := (replacements_of_run h hprogram).trans hadded
  have hshown := shown_of_mem_replacements h hprogram
  have hmap := sourceMap_of_run h hprogram hmapped
  rw [show (program.inlineMaps (j.start b)).2.sources = some _ from hsources] at hmap
  refine ⟨program, comments, _, rfl, hmap, ?_⟩
  have hlists := (SourceMap.lists_ofMarks ⟨(Transform.sourcesOf j.file j.source).all ++ new⟩
    (t.replacements.map Replacement.path)
    ((program.inlineMaps (j.start b)).1.layout.write comments).2).1
  constructor
  case once => exact hlists.once
  case entries =>
    intro name text? he
    obtain ⟨s, hs, he⟩ := hlists.entries _ he
    obtain ⟨rfl, rfl⟩ := Prod.mk.inj he
    refine ⟨s.text, ?_, rfl⟩
    rcases List.mem_append.1 hs with hs | hs
    · exact .inl (eq_of_mem_sourcesOf hs)
    · obtain ⟨rep, hrep, hpair⟩ := exists_replacement hpairs hs
      obtain ⟨o, ho, -, htext⟩ := hpair.text
      exact .inr ⟨rep, hrep, hpair.name.symm, o, ho, htext⟩
  case texts =>
    intro rep hrep hfile text? he
    obtain ⟨s, hs, he⟩ := hlists.entries _ he
    obtain ⟨hname, rfl⟩ := Prod.mk.inj he
    have hnew : s ∈ new := (List.mem_append.1 hs).resolve_left fun hs =>
      hfile (hname.trans (eq_of_mem_sourcesOf hs).1)
    obtain ⟨o, ho, hom, htext⟩ := text_of_name hpairs hshown hnew hrep hname
    have hasked : SourceMap.namesOne (t.replacements.map Replacement.path) s.name := by
      rw [← hname]
      exact List.any_eq_true.2 ⟨rep.path, List.mem_map_of_mem hrep,
        decide_eq_true (congrArg Path.components (hshown rep hrep).symm)⟩
    exact ⟨o, ho, hom, by rw [if_pos hasked, htext]⟩
  case imports =>
    intro item hitem specifier put o hrefers ho hom
    exact mem_names_of_item hitem hrefers ho hom hsources hapart _
  case listed =>
    obtain ⟨objects, hspans, hobjects⟩ := exists_objects hpairs
    have hnodup := hapart.nodup_spans
    rw [List.map_append, List.nodup_append'] at hnodup
    refine ⟨objects, hspans ▸ hnodup.2.1, hobjects.imp ?_⟩
    rintro rep object ⟨hobject, ⟨item, hitem, hwithin⟩, s, hs, hname, hspan⟩
    refine ⟨hobject, ⟨item, Program.mem_body_inlineMaps hitem, hwithin⟩, ?_⟩
    rintro ⟨item', hitem', hshown⟩
    exact hname ▸ mem_names_of_shown hapart (List.mem_append_right _ hs) hobject hspan hitem'
      hshown _ comments

/-- A stylesheet that is imported and required again is listed once, with its text. -/
theorem carriesStylesheets_of_repeated :
    let disk := ((Disk.empty ["app"]).put ["app"] .directory).put ["app", "a.sss"]
      (.file (.text ".x \x7b color: red \x7d"))
    let b : Build := .start disk (.fresh [.scopeClasses ⟨"[local]_y"⟩])
    let j : Job := ⟨"import * as css from './a.sss';\nf(require('./a.sss').x);\n", "App.jsx", true⟩
    ∃ t b' program comments map, Transform.run j.source j.file j.mapped b = some (t, b') ∧
      j.program? = some (program, comments) ∧ t.sourceMap = some map ∧
      map.sources = [("App.jsx", none), ("a.sss", some ".x_y \x7b\n  color: red;\n\x7d")] ∧
      CarriesStylesheets j.file j.source b.outcome program.body
        (program.inlineMaps (j.start b)).1.body t.replacements map := by
  intro disk b j
  obtain ⟨⟨t, b'⟩, h⟩ := Option.isSome_iff_exists.1
    (by decide +kernel : (Transform.run j.source j.file j.mapped b).isSome = true)
  obtain ⟨program, comments, map, hprogram, hmap, hcarries⟩ := carriesStylesheets rfl h
  have hsources : (j.result b).map (fun t => t.sourceMap.map SourceMap.sources) =
      some (some [("App.jsx", none), ("a.sss", some ".x_y \x7b\n  color: red;\n\x7d")]) := by
    decide +kernel
  rw [result, h] at hsources
  have hsources : t.sourceMap.map SourceMap.sources = _ := Option.some.inj hsources
  rw [hmap] at hsources
  exact ⟨t, b', program, comments, map, h, hprogram, hmap, Option.some.inj hsources, hcarries⟩

/-- Result types of getters are left out of what is written, so what they refer to is not listed. -/
example :
    let disk := ((Disk.empty ["app"]).put ["app"] .directory).put ["app", "a.sss"]
      (.file (.text ".x \x7b color: red \x7d"))
    let b : Build := .start disk (.fresh [.scopeClasses ⟨"[local]_y"⟩])
    let source := "f(\x7b get x(): \x7b [require('./a.sss')]: string \x7d \x7b\x7d \x7d);\n"
    let result := (Job.mk source "App.ts" true).result b
    result.map (fun t => t.replacements.map Replacement.path) = some [⟨"a.sss"⟩] ∧
      result.map (fun t => t.sourceMap.map SourceMap.names) = some (some ["App.ts"]) := by
  decide +kernel

/-- The text of the module stands in the map for the stylesheet that has the module's path. -/
theorem module_text_listed :
    let disk := ((Disk.empty ["app"]).put ["app"] .directory).put ["app", "a.sss"]
      (.file (.text ".x \x7b color: red \x7d"))
    let b : Build := .start disk (.fresh [.scopeClasses ⟨"[local]_y"⟩])
    let j : Job := ⟨"const css = require('./a.sss');\nfoo();\n", "a.sss", true⟩
    ((b.outcome ⟨"a.sss"⟩).toOption.map Output.css) = some ".x_y \x7b\n  color: red;\n\x7d" ∧
      (j.result b).map Transformed.replacements =
        some [⟨"./a.sss", ⟨"a.sss"⟩, ⟨[("x", "x_y")]⟩⟩] ∧
      (j.result b).map (fun t => t.sourceMap.map SourceMap.sources) =
        some (some [("a.sss", some j.source)]) := by
  decide +kernel

end Job

end ScopedStyles
