import ScopedStyles.Inlining
import ScopedStyles.Proofs.Processing

/-!
# References to stylesheets

`Node.reference?` reads off a node whether it refers to a stylesheet. The work on a tree processes
the files of its references, in order, and does nothing else to the build (`same_inlineAll`); where
a reference is replaced, those within it are not looked at. Whether one is replaced is settled
before the work begins, since processing files changes no answer (`follows_inlineAll`), and so is
everything that comes of the work: states that agree on the answers yield the same tree and agree
again (`agree_inlineAll`).
-/

namespace ScopedStyles

open Script

namespace Build

theorem Same.processFile {b b' : Build} (h : Same b b') (path : Path) :
    Same (b.processFile path).2 (b'.processFile path).2 := by
  have ha : Same (b.absorb (b.written? path)) (b'.absorb (b'.written? path)) := by
    rw [h.alike.written? path]
    rcases b'.written? path with _ | ⟨place, o⟩
    · exact h
    · exact ⟨congrArg (·.put place (.file (.text o.css))) h.disk, by
        simp only [absorb, commit, h.processor]⟩
  exact (same_processFile b path).trans (ha.trans (same_processFile b' path).symm)

theorem Same.processAll : ∀ {b b' : Build}, Same b b' → ∀ paths : List Path,
    Same (b.processAll paths) (b'.processAll paths)
  | _, _, h, [] => h
  | _, _, h, path :: paths => Same.processAll (h.processFile path) paths

end Build

namespace Inlining

/-- The class map of the stylesheet that a specifier stands for, if it can be processed. -/
def mapOf? (r : Inlining) (specifier : String) : Option ClassMap :=
  match r.build.outcome (Specifier.resolve specifier r.file) with
  | .ok o => o.classMap?
  | .error _ => none

/-- What comes of a state: the answers stay, and for each replacement added there was an answer
with its class map and one load is added. -/
structure Follows (r r' : Inlining) : Prop where
  file : r'.file = r.file
  sources : r'.sources.isSome = r.sources.isSome
  steady : r.build.Steady r'.build
  added : ∃ added : List Replacement, r'.replacements = r.replacements ++ added ∧
    r'.hoisted = r.hoisted ++ added.map (fun s => Specifier.sibling s.specifier) ∧
    ∀ s ∈ added, s.path = Specifier.resolve s.specifier r.file ∧
      r.mapOf? s.specifier = some s.classMap

/-- States that answer alike and have gathered the same. -/
structure Agree (r r' : Inlining) : Prop where
  file : r.file = r'.file
  sources : r.sources = r'.sources
  hoisted : r.hoisted = r'.hoisted
  replacements : r.replacements = r'.replacements
  outcome : ∀ path, r.build.outcome path = r'.build.outcome path

theorem mapOf?_eq_some {r : Inlining} {specifier : String} {m : ClassMap}
    (h : r.mapOf? specifier = some m) :
    ∃ o, r.build.outcome (Specifier.resolve specifier r.file) = .ok o ∧ o.classMap? = some m := by
  unfold mapOf? at h
  split at h
  · rename_i o ho
    exact ⟨o, ho, h⟩
  · simp at h

theorem Follows.mapOf? {r r' : Inlining} (h : Follows r r') (specifier : String) :
    r'.mapOf? specifier = r.mapOf? specifier := by
  rw [Inlining.mapOf?, Inlining.mapOf?, h.file, h.steady.outcome]

theorem Follows.refl (r : Inlining) : Follows r r :=
  ⟨rfl, rfl, (Build.Same.refl _).steady, [], by simp⟩

theorem Follows.trans {r r' r'' : Inlining} (h : Follows r r') (h' : Follows r' r'') :
    Follows r r'' := by
  obtain ⟨a, ha1, ha2, ha3⟩ := h.added
  obtain ⟨a', ha1', ha2', ha3'⟩ := h'.added
  refine ⟨h'.file.trans h.file, h'.sources.trans h.sources, h.steady.trans h'.steady, a ++ a',
    ?_, ?_, fun s hs => ?_⟩
  · rw [ha1', ha1, List.append_assoc]
  · rw [ha2', ha2, List.map_append, List.append_assoc]
  · rcases List.mem_append.1 hs with hs | hs
    · exact ha3 s hs
    · obtain ⟨h1, h2⟩ := ha3' s hs
      exact ⟨by rw [h1, h.file], by rw [← h.mapOf?, h2]⟩

theorem follows_tell (r : Inlining) (e : Event) : Follows r (r.tell e) :=
  ⟨rfl, rfl, (Build.same_tell r.build e).symm.steady, [], by simp [tell]⟩

theorem Agree.refl (r : Inlining) : Agree r r := ⟨rfl, rfl, rfl, rfl, fun _ => rfl⟩

theorem Agree.symm {r r' : Inlining} (h : Agree r r') : Agree r' r :=
  ⟨h.file.symm, h.sources.symm, h.hoisted.symm, h.replacements.symm, fun p => (h.outcome p).symm⟩

theorem Agree.trans {r r' r'' : Inlining} (h : Agree r r') (h' : Agree r' r'') : Agree r r'' :=
  ⟨h.file.trans h'.file, h.sources.trans h'.sources, h.hoisted.trans h'.hoisted,
    h.replacements.trans h'.replacements, fun p => (h.outcome p).trans (h'.outcome p)⟩

theorem agree_tell (r : Inlining) (e : Event) : Agree (r.tell e) r :=
  ⟨rfl, rfl, rfl, rfl, (Build.same_tell r.build e).symm.steady.outcome⟩

section Reference

/-- Without a class map there is no object, and nothing but the build changes. -/
theorem inlineClassNames_of_none {r : Inlining} {specifier : String}
    (h : r.mapOf? specifier = none) :
    ∃ e, r.inlineClassNames specifier = (none, { r with
      build := (r.build.processFile (Specifier.resolve specifier r.file)).2.tell e }) := by
  simp only [inlineClassNames]
  unfold mapOf? Build.outcome at h
  rcases hp : (r.build.processFile (Specifier.resolve specifier r.file)).1 with failure | o
  · exact ⟨_, rfl⟩
  · rw [hp] at h
    simp only at h
    simp only [h]
    exact ⟨_, rfl⟩

/-- With a class map there is an object of it, a load and a replacement. -/
theorem inlineClassNames_of_ok {r : Inlining} {specifier : String} {o : Output} {m : ClassMap}
    (h : r.build.outcome (Specifier.resolve specifier r.file) = .ok o)
    (hm : o.classMap? = some m) :
    r.inlineClassNames specifier =
      (some (classObject (r.register (Specifier.resolve specifier r.file) o.css).1 o.css m),
        { r with
          build := (r.build.processFile (Specifier.resolve specifier r.file)).2
          sources := (r.register (Specifier.resolve specifier r.file) o.css).2.sources
          hoisted := r.hoisted ++ [Specifier.sibling specifier]
          replacements :=
            r.replacements ++ [⟨specifier, Specifier.resolve specifier r.file, m⟩] }) := by
  unfold Build.outcome at h
  simp only [inlineClassNames, h, hm]
  rcases r with ⟨file, build, _ | all, hoisted, replacements⟩ <;> rfl

theorem inlineClassNames_build (specifier : String) (r : Inlining) :
    (r.inlineClassNames specifier).2.build.Same
      (r.build.processFile (Specifier.resolve specifier r.file)).2 := by
  rcases hm : r.mapOf? specifier with _ | m
  · obtain ⟨e, he⟩ := inlineClassNames_of_none hm
    rw [he]
    exact Build.same_tell _ e
  · obtain ⟨o, ho, hom⟩ := mapOf?_eq_some hm
    rw [inlineClassNames_of_ok ho hom]
    exact .refl _

theorem isSome_inlineClassNames (specifier : String) (r : Inlining) :
    (r.inlineClassNames specifier).1.isSome = (r.mapOf? specifier).isSome := by
  rcases hm : r.mapOf? specifier with _ | m
  · obtain ⟨e, he⟩ := inlineClassNames_of_none hm
    rw [he]
    rfl
  · obtain ⟨o, ho, hom⟩ := mapOf?_eq_some hm
    rw [inlineClassNames_of_ok ho hom]
    rfl

theorem follows_inlineClassNames (specifier : String) (r : Inlining) :
    Follows r (r.inlineClassNames specifier).2 := by
  have hs := (r.build.steady_processFile (Specifier.resolve specifier r.file)).trans
    (inlineClassNames_build specifier r).symm.steady
  rcases hm : r.mapOf? specifier with _ | m
  · obtain ⟨e, he⟩ := inlineClassNames_of_none hm
    rw [he] at hs ⊢
    exact ⟨rfl, rfl, hs, [], by simp⟩
  · obtain ⟨o, ho, hom⟩ := mapOf?_eq_some hm
    have hreg : ∀ path, (r.register path o.css).2.sources.isSome = r.sources.isSome := by
      intro path
      unfold register
      split <;> simp [*]
    rw [inlineClassNames_of_ok ho hom] at hs ⊢
    exact ⟨rfl, hreg _, hs, [⟨specifier, _, m⟩], rfl, rfl, by simpa using hm⟩

theorem agree_inlineClassNames {r r' : Inlining} (h : Agree r r') (specifier : String) :
    (r.inlineClassNames specifier).1 = (r'.inlineClassNames specifier).1 ∧
      Agree (r.inlineClassNames specifier).2 (r'.inlineClassNames specifier).2 := by
  have hout : ∀ path, (r.inlineClassNames specifier).2.build.outcome path =
      (r'.inlineClassNames specifier).2.build.outcome path := by
    intro path
    rw [(follows_inlineClassNames specifier r).steady.outcome,
      (follows_inlineClassNames specifier r').steady.outcome, h.outcome]
  have hmap : r'.mapOf? specifier = r.mapOf? specifier := by
    rw [mapOf?, mapOf?, h.file, h.outcome]
  rcases hm : r.mapOf? specifier with _ | m
  · obtain ⟨e, he⟩ := inlineClassNames_of_none hm
    obtain ⟨e', he'⟩ := inlineClassNames_of_none (hmap.trans hm)
    rw [he, he'] at hout ⊢
    exact ⟨rfl, h.file, h.sources, h.hoisted, h.replacements, hout⟩
  · obtain ⟨o, ho, hom⟩ := mapOf?_eq_some hm
    have ho' := ho
    rw [h.outcome, h.file] at ho'
    have hreg : ∀ path, (r.register path o.css).1 = (r'.register path o.css).1 ∧
        (r.register path o.css).2.sources = (r'.register path o.css).2.sources := by
      intro path
      simp only [register, h.sources]
      split <;> simp [h.sources, *]
    rw [inlineClassNames_of_ok ho hom, inlineClassNames_of_ok ho' hom] at hout ⊢
    refine ⟨?_, h.file, ?_, ?_, ?_, hout⟩
    · rw [h.file, (hreg _).1]
    · show (r.register _ _).2.sources = _
      rw [h.file, (hreg _).2]
    · rw [h.hoisted]
    · rw [h.replacements, h.file]

end Reference

end Inlining

namespace Script.Node

open Inlining (Follows Agree)

/-- The specifier by which a node refers to a stylesheet, with what stands in the node's place once
there is an object for it. -/
def reference? : Node → Option (String × (Node → Node))
  | mk (.importDecl false _) span (mk .list _ [mk .importNamespace _ [name]] :: source :: _) =>
    if Specifier.isStylesheet source.stringValue then some (source.stringValue, bind span name)
    else none
  | n => (n.requiredSpecifier?.filter Specifier.isStylesheet).map fun specifier => (specifier, id)

theorem replacement_wholeImport (phase : Phase) (span s₁ s₂ : Span) (name source : Node)
    (rest : List Node) (r : Inlining) :
    (mk (.importDecl false phase) span
        (mk .list s₁ [mk .importNamespace s₂ [name]] :: source :: rest)).replacement r =
      if !Specifier.isStylesheet source.stringValue then (none, r)
      else ((r.inlineClassNames source.stringValue).1.map (bind span name),
        (r.inlineClassNames source.stringValue).2) := rfl

theorem replacement_of_some {n : Node} {specifier : String} {put : Node → Node}
    (h : n.reference? = some (specifier, put)) (r : Inlining) :
    n.replacement r =
      ((r.inlineClassNames specifier).1.map put, (r.inlineClassNames specifier).2) := by
  unfold reference? at h
  split at h
  · split_ifs at h with hs
    simp only [Option.some.injEq, Prod.mk.injEq] at h
    obtain ⟨rfl, rfl⟩ := h
    rw [replacement_wholeImport, if_neg (by simp [hs])]
  · simp only [Option.map_eq_some_iff, Option.filter_eq_some_iff, Prod.mk.injEq] at h
    obtain ⟨s, ⟨hs, hsheet⟩, rfl, rfl⟩ := h
    have hk : n.kind = .call := by
      unfold requiredSpecifier? at hs
      split at hs
      · rfl
      · simp at hs
    simp [replacement, hk, inlineCall, hs, hsheet]

theorem namespaceName?_eq_some {names : List Node} {name : Node}
    (h : namespaceName? names = some name) : ∃ s, names = [mk .importNamespace s [name]] := by
  unfold namespaceName? at h
  split at h
  · exact ⟨_, by rw [Option.some.inj h]⟩
  · simp at h

theorem inlineImport_of_none {n : Node} (h : n.reference? = none) (r : Inlining) :
    n.inlineImport r = (none, r) ∨
      n.inlineImport r = (none, r.tell (.unsupportedForm (n.kids.getD 1 absent).stringValue)) := by
  unfold inlineImport
  split
  · rename_i typeOnly phase span s names source rest
    by_cases hs : Specifier.isStylesheet source.stringValue
    · rcases typeOnly with _ | _
      · rcases hn : namespaceName? names with _ | name
        · exact .inr (by simp [hs, kids])
        · obtain ⟨s', rfl⟩ := namespaceName?_eq_some hn
          simp [reference?, hs] at h
      · exact .inr (by simp [hs, kids])
    · exact .inl (by simp [hs])
  · exact .inl rfl

theorem inlineCall_of_none {n : Node} (h : n.reference? = none) (r : Inlining) :
    n.inlineCall r = (none, r) := by
  unfold inlineCall
  split
  · rename_i specifier hq
    by_cases hs : Specifier.isStylesheet specifier
    · unfold reference? at h
      split at h
      · simp [requiredSpecifier?] at hq
      · simp [hq, hs] at h
    · simp [hs]
  · rfl

/-- What a node that is no reference may be reported as. -/
theorem replacement_of_none {n : Node} (h : n.reference? = none) (r : Inlining) :
    n.replacement r = (none, r) ∨
      n.replacement r = (none, r.tell (.unsupportedForm (n.kids.getD 1 absent).stringValue)) := by
  unfold replacement
  split
  · exact inlineImport_of_none h r
  · exact .inl (inlineCall_of_none h r)
  · exact .inl rfl

theorem follows_replacement (n : Node) (r : Inlining) : Follows r (n.replacement r).2 := by
  rcases hn : n.reference? with _ | ⟨specifier, put⟩
  · rcases replacement_of_none hn r with h | h
    · rw [h]
      exact .refl r
    · rw [h]
      exact Inlining.follows_tell r _
  · rw [replacement_of_some hn]
    exact Inlining.follows_inlineClassNames specifier r

theorem agree_replacement {r r' : Inlining} (h : Agree r r') (n : Node) :
    (n.replacement r).1 = (n.replacement r').1 ∧
      Agree (n.replacement r).2 (n.replacement r').2 := by
  rcases hn : n.reference? with _ | ⟨specifier, put⟩
  · have hq : ∀ q, (n.replacement q).1 = none ∧ Agree (n.replacement q).2 q := by
      intro q
      rcases replacement_of_none hn q with hq | hq
      · rw [hq]
        exact ⟨rfl, .refl q⟩
      · rw [hq]
        exact ⟨rfl, Inlining.agree_tell q _⟩
    exact ⟨(hq r).1.trans (hq r').1.symm, (hq r).2.trans (h.trans (hq r').2.symm)⟩
  · obtain ⟨h1, h2⟩ := Inlining.agree_inlineClassNames h specifier
    rw [replacement_of_some hn, replacement_of_some hn, h1]
    exact ⟨rfl, h2⟩

section Trees

theorem inlineMaps_of_some {k : Kind} {s : Span} {ks : List Node} {r r' : Inlining} {new : Node}
    (h : (mk k s ks).replacement r = (some new, r')) : (mk k s ks).inlineMaps r = (new, r') := by
  rw [inlineMaps, h]

theorem inlineMaps_of_none {k : Kind} {s : Span} {ks : List Node} {r r' : Inlining}
    (h : (mk k s ks).replacement r = (none, r')) :
    (mk k s ks).inlineMaps r = (mk k s (inlineAll ks r').1, (inlineAll ks r').2) := by
  rw [inlineMaps, h]

mutual

theorem follows_inlineMaps : ∀ (n : Node) (r : Inlining), Follows r (n.inlineMaps r).2
  | mk k s ks, r => by
    have hr := follows_replacement (mk k s ks) r
    rcases h : (mk k s ks).replacement r with ⟨_ | new, r'⟩ <;> rw [h] at hr
    · rw [inlineMaps_of_none h]
      exact hr.trans (follows_inlineAll ks r')
    · rw [inlineMaps_of_some h]
      exact hr

theorem follows_inlineAll : ∀ (ns : List Node) (r : Inlining), Follows r (inlineAll ns r).2
  | [], r => .refl r
  | n :: ns, r => (follows_inlineMaps n r).trans (follows_inlineAll ns (n.inlineMaps r).2)

end

mutual

theorem agree_inlineMaps : ∀ (n : Node) {r r' : Inlining}, Agree r r' →
    (n.inlineMaps r).1 = (n.inlineMaps r').1 ∧ Agree (n.inlineMaps r).2 (n.inlineMaps r').2
  | mk k s ks, r, r', h => by
    obtain ⟨h1, h2⟩ := agree_replacement h (mk k s ks)
    rcases hr : (mk k s ks).replacement r with ⟨o, q⟩
    rcases hr' : (mk k s ks).replacement r' with ⟨o', q'⟩
    rw [hr, hr'] at h1 h2
    obtain rfl : o = o' := h1
    rcases o with _ | new
    · obtain ⟨h3, h4⟩ := agree_inlineAll ks h2
      rw [inlineMaps_of_none hr, inlineMaps_of_none hr']
      exact ⟨congrArg (mk k s) h3, h4⟩
    · rw [inlineMaps_of_some hr, inlineMaps_of_some hr']
      exact ⟨rfl, h2⟩

/-- What comes of the work on a row of nodes depends on the answers and on what was gathered. -/
theorem agree_inlineAll : ∀ (ns : List Node) {r r' : Inlining}, Agree r r' →
    (inlineAll ns r).1 = (inlineAll ns r').1 ∧ Agree (inlineAll ns r).2 (inlineAll ns r').2
  | [], _, _, h => ⟨rfl, h⟩
  | n :: ns, r, r', h => by
    obtain ⟨h1, h2⟩ := agree_inlineMaps n h
    obtain ⟨h3, h4⟩ := agree_inlineAll ns h2
    simp only [inlineAll]
    exact ⟨by rw [h1, h3], h4⟩

end

end Trees

section Processed

mutual

/-- The specifiers of a tree that are looked up, in order; nothing is looked up within a reference
that is replaced, which those of the specifiers that are `found` are. -/
def references (found : String → Bool) : Node → List String
  | mk k s ks =>
    match (mk k s ks).reference? with
    | some (specifier, _) =>
      if found specifier then [specifier] else specifier :: referencesAll found ks
    | none => referencesAll found ks

def referencesAll (found : String → Bool) : List Node → List String
  | [] => []
  | n :: ns => n.references found ++ referencesAll found ns

end

mutual

theorem same_inlineMaps {found : String → Bool} : ∀ (n : Node) (r : Inlining),
    (∀ s, found s = (r.mapOf? s).isSome) → (n.inlineMaps r).2.build.Same
      (r.build.processAll ((n.references found).map (Specifier.resolve · r.file)))
  | mk k s ks, r, hf => by
    have hfollows := follows_replacement (mk k s ks) r
    rw [references]
    rcases hn : (mk k s ks).reference? with _ | ⟨specifier, put⟩
    · have hsame : ((mk k s ks).replacement r).1 = none ∧
          ((mk k s ks).replacement r).2.build.Same r.build := by
        rcases replacement_of_none hn r with h | h <;> rw [h]
        · exact ⟨rfl, .refl _⟩
        · exact ⟨rfl, Build.same_tell _ _⟩
      rcases h : (mk k s ks).replacement r with ⟨new, r'⟩
      rw [h] at hfollows hsame
      obtain ⟨rfl, hb⟩ := hsame
      have hf' : ∀ s, found s = (r'.mapOf? s).isSome := fun s => by rw [hf, hfollows.mapOf?]
      rw [inlineMaps_of_none h]
      refine (same_inlineAll ks r' hf').trans ?_
      rw [hfollows.file]
      exact hb.processAll _
    · have hr := replacement_of_some hn r
      have hb := Inlining.inlineClassNames_build specifier r
      have hsome := Inlining.isSome_inlineClassNames specifier r
      rcases hi : r.inlineClassNames specifier with ⟨_ | object, r'⟩ <;>
        rw [hi] at hr hb hsome <;> simp only [hf, ← hsome]
      · rw [hr] at hfollows
        have hf' : ∀ s, found s = (r'.mapOf? s).isSome := fun s => by rw [hf, hfollows.mapOf?]
        rw [inlineMaps_of_none hr]
        refine (same_inlineAll ks r' hf').trans ?_
        rw [hfollows.file]
        exact hb.processAll _
      · rw [inlineMaps_of_some hr]
        exact hb

/-- Events apart, the work on a row of nodes comes to processing the files that it refers to. -/
theorem same_inlineAll {found : String → Bool} : ∀ (ns : List Node) (r : Inlining),
    (∀ s, found s = (r.mapOf? s).isSome) → (inlineAll ns r).2.build.Same
      (r.build.processAll ((referencesAll found ns).map (Specifier.resolve · r.file)))
  | [], r, _ => .refl _
  | n :: ns, r, hf => by
    have hfollows := follows_inlineMaps n r
    have hf' : ∀ s, found s = ((n.inlineMaps r).2.mapOf? s).isSome := fun s => by
      rw [hf, hfollows.mapOf?]
    have ih := same_inlineAll ns (n.inlineMaps r).2 hf'
    rw [hfollows.file] at ih
    rw [referencesAll, List.map_append, Build.processAll_append]
    exact ih.trans ((same_inlineMaps n r hf).processAll _)

end

end Processed

end Script.Node

end ScopedStyles
