import ScopedStyles.Proofs.Hoisting
import ScopedStyles.Script.Reader

/-!
# Inlining again

The references that are left in a program are some of those that were looked up while it was worked
on, and none of them has a class map (`refersOnly_inlineAll`). Processing files changes no answer,
so they are left again; and what was processed once is not written again (`same_processAll_again`).
So the same work on the program that it has yielded changes nothing (`inlineMaps_again`).
-/

namespace ScopedStyles

namespace Build

/-- What is not written is not written later on. -/
theorem written?_processFile_of_none {b : Build} {q : Path} (h : b.written? q = none)
    (path : Path) : (b.processFile path).2.written? q = none := by
  rw [(same_processFile b path).alike.written?]
  rcases hw : b.written? path with _ | ⟨place, o⟩
  · exact h
  · rw [absorb, written?_commit hw, h]
    rfl

theorem written?_processAll_of_none {q : Path} : ∀ (paths : List Path) {b : Build},
    b.written? q = none → (b.processAll paths).written? q = none
  | [], _, h => h
  | path :: paths, _, h => written?_processAll_of_none paths (written?_processFile_of_none h path)

/-- A file that is processed is not written when it is processed once more. -/
theorem written?_processFile_self (b : Build) (path : Path) :
    (b.processFile path).2.written? path = none := by
  rw [(same_processFile b path).alike.written?]
  rcases hw : b.written? path with _ | ⟨place, o⟩
  · exact hw
  · rw [absorb, written?_commit hw, hw]
    simp

theorem written?_processAll_of_mem {q : Path} : ∀ {paths : List Path} (b : Build), q ∈ paths →
    (b.processAll paths).written? q = none
  | path :: paths, b, h => by
    rcases List.mem_cons.1 h with rfl | h
    · exact written?_processAll_of_none paths (written?_processFile_self b q)
    · exact written?_processAll_of_mem (b.processFile path).2 h

/-- Files that are processed again leave no trace but events. -/
theorem same_processAll_again {paths : List Path} (b : Build) : ∀ {qs : List Path}, qs ⊆ paths →
    ((b.processAll paths).processAll qs).Same (b.processAll paths)
  | [], _ => .refl _
  | q :: qs, h => by
    have hq := same_processFile (b.processAll paths) q
    rw [written?_processAll_of_mem b (h List.mem_cons_self)] at hq
    have hqs : qs ⊆ paths := fun _ hp => h (List.mem_cons_of_mem _ hp)
    exact (hq.processAll qs).trans (same_processAll_again b hqs)

end Build

namespace Script.Node

/-- The specifiers of all references in the tree are allowed. -/
inductive RefersOnly (allowed : String → Prop) : Node → Prop
  | mk {k : Kind} {s : Span} {ks : List Node} :
    (∀ specifier put, Refers (.mk k s ks) specifier put → allowed specifier) →
    (∀ n ∈ ks, RefersOnly allowed n) → RefersOnly allowed (.mk k s ks)

variable {allowed allowed' : String → Prop} {mapOf? : String → Option ClassMap}
  {found : String → Bool}

section References

theorem RefersOnly.mono (h : ∀ s, allowed s → allowed' s) {n : Node} (hn : RefersOnly allowed n) :
    RefersOnly allowed' n := by
  induction hn with
  | mk hr _ ih => exact .mk (fun specifier put hq => h _ (hr specifier put hq)) ih

/-- A reference is an import or a call. -/
theorem Refers.kind {n : Node} {specifier : String} {put : Node → Node}
    (h : Refers n specifier put) : n.kind = .call ∨ ∃ phase, n.kind = .importDecl false phase := by
  cases h with
  | wholeImport phase => exact .inr ⟨phase, rfl⟩
  | call => exact .inl rfl

theorem refersOnly_of_kind {k : Kind} {s : Span} {ks : List Node} (hc : k ≠ .call)
    (hi : ∀ phase, k ≠ .importDecl false phase) (h : ∀ n ∈ ks, RefersOnly allowed n) :
    RefersOnly allowed (.mk k s ks) := by
  refine .mk (fun specifier put hr => ?_) h
  rcases hr.kind with h | ⟨phase, h⟩
  · exact absurd h hc
  · exact absurd h (hi phase)

theorem refersOnly_text (text : String) (span : Span) :
    RefersOnly allowed (.text text span) :=
  refersOnly_of_kind (by simp) (by simp) (by simp)

theorem refersOnly_of_isObjectOf {m : ClassMap} {o : Node} (h : IsObjectOf m o) :
    RefersOnly allowed o := by
  obtain ⟨k, s, ks⟩ := o
  obtain ⟨rfl, hks⟩ := h
  have hprop : ∀ (prop : Node) (pair : String × String),
      (∃ t, prop = .mk .keyValue .none [.text pair.1 t, .text pair.2 t]) →
        RefersOnly allowed prop ∧ True := by
    rintro _ pair ⟨t, rfl⟩
    refine ⟨refersOnly_of_kind (by simp) (by simp) fun side hside => ?_, trivial⟩
    simp only [List.mem_cons, List.not_mem_nil, or_false] at hside
    rcases hside with rfl | rfl <;> exact refersOnly_text _ _
  exact refersOnly_of_kind (by simp) (by simp)
    ((List.forall₂_and_left _ _).1 (hks.flip.imp hprop)).1

end References

section Binding

/-- Whether a node with these parts binds an identifier if it is an import of a whole module. -/
def bindsName : Kind → List Node → Bool
  | .importNamespace, [mk (.ident _ _) _ []] => true
  | .importNamespace, _ => false
  | _, _ => true

mutual

/-- Whether the imports of whole modules bind identifiers, as the grammar has it, in all of the
tree. -/
def bindsNames : Node → Bool
  | mk k _ ks => bindsName k ks && allBindNames ks

def allBindNames : List Node → Bool
  | [] => true
  | n :: ns => n.bindsNames && allBindNames ns

end

theorem eq_ident_of_bindsNames {s : Span} {name : Node}
    (h : (mk .importNamespace s [name]).bindsNames) : ∃ n o t, name = mk (.ident n o) t [] := by
  rw [bindsNames, Bool.and_eq_true] at h
  have hb := h.1
  unfold bindsName at hb
  split at hb
  · rename_i heq
    exact ⟨_, _, _, List.singleton_inj.1 heq⟩
  · cases hb
  · rename_i hk _
    exact absurd rfl hk

theorem refersOnly_bind {span s : Span} {name o : Node}
    (hn : (mk .importNamespace s [name]).bindsNames) (ho : RefersOnly allowed o) :
    RefersOnly allowed (bind span name o) := by
  obtain ⟨n, isOptional, t, rfl⟩ := eq_ident_of_bindsNames hn
  refine refersOnly_of_kind (by simp) (by simp) (List.forall_mem_singleton.2 ?_)
  refine refersOnly_of_kind (by simp) (by simp) (List.forall_mem_cons.2 ⟨?_, ?_⟩)
  · refine refersOnly_of_kind (by simp) (by simp) (List.forall_mem_cons.2 ⟨?_, ?_⟩)
    · exact refersOnly_of_kind (by simp) (by simp) (by simp)
    · exact List.forall_mem_singleton.2 (refersOnly_of_kind (by simp) (by simp) (by simp))
  · exact List.forall_mem_singleton.2 ho

/-- In what takes the place of a reference there is none. -/
theorem Refers.refersOnly_put {n : Node} {specifier : String} {put : Node → Node}
    (h : Refers n specifier put) (hn : n.bindsNames) {m : ClassMap} {o : Node}
    (ho : IsObjectOf m o) : RefersOnly allowed (put o) := by
  have ho' : RefersOnly allowed o := refersOnly_of_isObjectOf ho
  cases h with
  | wholeImport phase span s₁ s₂ s₃ name =>
    simp only [bindsNames, allBindNames, Bool.and_eq_true] at hn
    exact refersOnly_bind (s := s₂) (by simp [bindsNames, allBindNames, hn]) ho'
  | call => exact ho'

end Binding

section Left

/-- A node that is no object and no declaration is what it was, with its parts worked on. -/
theorem Replaced.eq_mk {n : Node} {k : Kind} {s : Span} {ks : List Node}
    (h : Replaced mapOf? n (.mk k s ks)) (ho : k ≠ .object false)
    (hv : k ≠ .variables .var_ false) :
    ∃ ks', n = .mk k s ks' ∧ List.Forall₂ (Replaced mapOf?) ks' ks := by
  generalize hn' : Node.mk k s ks = n' at h
  cases h with
  | replaced hr _ hobject =>
    cases hr with
    | wholeImport =>
      cases hn'
      exact absurd rfl hv
    | call =>
      cases hn'
      exact absurd hobject.1 ho
  | kept _ hks =>
    cases hn'
    exact ⟨_, rfl, hks⟩

theorem Replaced.literal {n n' : Node} {specifier : String} (h : Replaced mapOf? n n')
    (hl : Literal n' specifier) : Literal n specifier := by
  cases hl with
  | string value written s ks =>
    obtain ⟨ks', rfl, -⟩ := h.eq_mk (by simp) (by simp)
    exact .string value written s ks'
  | template raw s s₁ s₂ s₃ ks =>
    obtain ⟨ks', rfl, hks⟩ := h.eq_mk (by simp) (by simp)
    obtain _ | ⟨h₁, _ | ⟨h₂, _ | _⟩⟩ := hks
    obtain ⟨_, rfl, hnil⟩ := h₁.eq_mk (by simp) (by simp)
    obtain ⟨_, rfl, hquasi⟩ := h₂.eq_mk (by simp) (by simp)
    rw [List.forall₂_nil_right_iff.1 hnil]
    obtain _ | ⟨h₃, _ | _⟩ := hquasi
    obtain ⟨ks₃, rfl, -⟩ := h₃.eq_mk (by simp) (by simp)
    exact .template _ s s₁ s₂ s₃ ks₃

/-- Work on the parts of a node makes no reference of it. -/
theorem Refers.of_replaced {k : Kind} {s : Span} {ks ks' : List Node}
    (h : List.Forall₂ (Replaced mapOf?) ks ks') {specifier : String} {put : Node → Node}
    (hr : Refers (.mk k s ks') specifier put) : ∃ put', Refers (.mk k s ks) specifier put' := by
  cases hr with
  | wholeImport phase span s₁ s₂ s₃ name value written parts rest hs =>
    obtain _ | ⟨h₁, _ | ⟨h₂, _⟩⟩ := h
    obtain ⟨_, rfl, hlist⟩ := h₁.eq_mk (by simp) (by simp)
    obtain _ | ⟨h₃, _ | _⟩ := hlist
    obtain ⟨_, rfl, hname⟩ := h₃.eq_mk (by simp) (by simp)
    obtain _ | ⟨-, _ | _⟩ := hname
    obtain ⟨_, rfl, -⟩ := h₂.eq_mk (by simp) (by simp)
    exact ⟨_, .wholeImport _ _ _ _ _ _ _ _ _ _ hs⟩
  | call isOptional span s₁ s₂ parts args rest hl hs =>
    obtain _ | ⟨h₁, _ | ⟨h₂, _⟩⟩ := h
    obtain ⟨_, rfl, -⟩ := h₁.eq_mk (by simp) (by simp)
    obtain ⟨_, rfl, hargs⟩ := h₂.eq_mk (by simp) (by simp)
    obtain _ | ⟨h₃, -⟩ := hargs
    exact ⟨_, .call _ _ _ _ _ _ _ (h₃.literal hl) hs⟩

theorem references_of_some {k : Kind} {s : Span} {ks : List Node} {specifier : String}
    {put : Node → Node} (h : Refers (.mk k s ks) specifier put) (hf : found specifier = false) :
    (mk k s ks).references found = specifier :: referencesAll found ks := by
  rw [references, reference?_eq_some_iff.2 h]
  simp [hf]

theorem referencesAll_subset {k : Kind} {s : Span} {ks : List Node}
    (h : ∀ specifier put, Refers (.mk k s ks) specifier put → found specifier = false) :
    referencesAll found ks ⊆ (mk k s ks).references found := by
  rcases hn : (mk k s ks).reference? with _ | ⟨specifier, put⟩
  · rw [references, hn]
    exact List.Subset.refl _
  · have hr := reference?_eq_some_iff.1 hn
    rw [references_of_some hr (h _ _ hr)]
    exact List.subset_cons_self _ _

mutual

/-- The references that are left were looked up, and they have no class map. -/
theorem refersOnly_inlineMaps : ∀ (n : Node) (r : Inlining), (∀ s, mapOf? s = r.mapOf? s) →
    n.bindsNames → RefersOnly (fun s => mapOf? s = none ∧
      s ∈ n.references fun s => (mapOf? s).isSome) (n.inlineMaps r).1
  | mk k s ks, r, hm, hb => by
    rcases h : (mk k s ks).replacement r with ⟨_ | new, r'⟩
    · have hf := follows_replacement (mk k s ks) r
      rw [h] at hf
      have hm' : ∀ s, mapOf? s = r'.mapOf? s := fun s => by rw [hm, hf.mapOf?]
      have hnone : ∀ specifier put, Refers (.mk k s ks) specifier put →
          mapOf? specifier = none := fun specifier put hr => by
        rw [hm, mapOf?_of_replacement_eq_none h hr]
      have hsub : referencesAll (fun s => (mapOf? s).isSome) ks ⊆
          (mk k s ks).references fun s => (mapOf? s).isSome :=
        referencesAll_subset fun specifier put hr => by rw [hnone specifier put hr]; rfl
      rw [bindsNames, Bool.and_eq_true] at hb
      rw [inlineMaps_of_none h]
      refine .mk (fun specifier put hr => ?_) fun n hn => ?_
      · obtain ⟨put', hr⟩ := hr.of_replaced (replaced_inlineAll ks r' hm')
        have hs := hnone _ _ hr
        refine ⟨hs, ?_⟩
        rw [references_of_some hr (by rw [hs]; rfl)]
        exact List.mem_cons_self
      · exact (refersOnly_inlineAll ks r' hm' hb.2 n hn).mono fun _ hs => ⟨hs.1, hsub hs.2⟩
    · obtain ⟨specifier, put, m, o, hr, -, ho, rfl⟩ := replacement_eq_some h
      rw [inlineMaps_of_some h]
      exact hr.refersOnly_put hb ho

theorem refersOnly_inlineAll : ∀ (ns : List Node) (r : Inlining), (∀ s, mapOf? s = r.mapOf? s) →
    allBindNames ns → ∀ n ∈ (inlineAll ns r).1, RefersOnly (fun s => mapOf? s = none ∧
      s ∈ referencesAll (fun s => (mapOf? s).isSome) ns) n
  | [], _, _, _ => by simp [inlineAll]
  | n :: ns, r, hm, hb => by
    have hm' : ∀ s, mapOf? s = (n.inlineMaps r).2.mapOf? s := fun s => by
      rw [hm, (follows_inlineMaps n r).mapOf?]
    rw [allBindNames, Bool.and_eq_true] at hb
    rw [referencesAll]
    refine List.forall_mem_cons.2 ⟨?_, fun n' hn' => ?_⟩
    · exact (refersOnly_inlineMaps n r hm hb.1).mono fun _ hs =>
        ⟨hs.1, List.mem_append_left _ hs.2⟩
    · exact (refersOnly_inlineAll ns _ hm' hb.2 n' hn').mono fun _ hs =>
        ⟨hs.1, List.mem_append_right _ hs.2⟩

end

end Left

section Unmapped

mutual

/-- The work leaves a tree alone whose references have no class map, and it finds nothing. -/
theorem inlineMaps_of_refersOnly : ∀ (n : Node) (r : Inlining),
    RefersOnly (fun s => r.mapOf? s = none) n → (n.inlineMaps r).1 = n ∧
      (n.inlineMaps r).2.hoisted = r.hoisted ∧ (n.inlineMaps r).2.replacements = r.replacements
  | mk k s ks, r, .mk hr hks => by
    rcases h : (mk k s ks).replacement r with ⟨_ | new, r'⟩
    · have hf := follows_replacement (mk k s ks) r
      have hg := gathers_replacement_of_none h
      rw [h] at hf
      obtain ⟨h1, h2, h3⟩ := inlineAll_of_refersOnly ks r' fun n hn =>
        (hks n hn).mono fun specifier hs => (hf.mapOf? specifier).trans hs
      rw [inlineMaps_of_none h, h1, h2, h3, hg.hoisted, hg.replacements]
      simp
    · obtain ⟨specifier, put, m, o, hn, hm, -⟩ := replacement_eq_some h
      rw [hr specifier put hn] at hm
      cases hm

theorem inlineAll_of_refersOnly : ∀ (ns : List Node) (r : Inlining),
    (∀ n ∈ ns, RefersOnly (fun s => r.mapOf? s = none) n) → (inlineAll ns r).1 = ns ∧
      (inlineAll ns r).2.hoisted = r.hoisted ∧ (inlineAll ns r).2.replacements = r.replacements
  | [], _, _ => ⟨rfl, rfl, rfl⟩
  | n :: ns, r, h => by
    obtain ⟨hn, hns⟩ := List.forall_mem_cons.1 h
    obtain ⟨h1, h2, h3⟩ := inlineMaps_of_refersOnly n r hn
    obtain ⟨h4, h5, h6⟩ := inlineAll_of_refersOnly ns (n.inlineMaps r).2 fun n' hn' =>
      (hns n' hn').mono fun specifier hs =>
        ((follows_inlineMaps n r).mapOf? specifier).trans hs
    refine ⟨?_, h5.trans h2, h6.trans h3⟩
    show (n.inlineMaps r).1 :: (inlineAll ns (n.inlineMaps r).2).1 = n :: ns
    rw [h1, h4]

end

mutual

/-- What is looked up in a tree is referred to in it. -/
theorem allowed_of_mem_references : ∀ {n : Node}, RefersOnly allowed n →
    ∀ s ∈ n.references found, allowed s
  | mk k s ks, .mk hr hks => by
    have hmem := allowed_of_mem_referencesAll hks
    rw [references]
    rcases hn : (mk k s ks).reference? with _ | ⟨specifier, put⟩
    · exact hmem
    · have hs := hr specifier put (reference?_eq_some_iff.1 hn)
      simp only
      split_ifs
      · exact List.forall_mem_singleton.2 hs
      · exact List.forall_mem_cons.2 ⟨hs, hmem⟩

theorem allowed_of_mem_referencesAll : ∀ {ns : List Node}, (∀ n ∈ ns, RefersOnly allowed n) →
    ∀ s ∈ referencesAll found ns, allowed s
  | [], _ => by simp [referencesAll]
  | n :: ns, h => by
    obtain ⟨hn, hns⟩ := List.forall_mem_cons.1 h
    rw [referencesAll]
    exact List.forall_mem_append.2
      ⟨allowed_of_mem_references hn, allowed_of_mem_referencesAll hns⟩

end

end Unmapped

section Loads

/-- What is loaded is no stylesheet that is still to be processed. -/
theorem not_isStylesheet_sibling (specifier : String) :
    ¬ Specifier.isStylesheet (Specifier.sibling specifier) := by
  simp only [Specifier.sibling]
  split_ifs with hs
  · rw [isStylesheet_iff, String.toList_ofList]
    intro hcss
    have hlast := List.suffix_of_suffix_length_le hcss (List.suffix_append _ _) (by decide)
    exact absurd hlast (by decide)
  · exact hs

theorem refersOnly_loadByImport (specifier : String) :
    RefersOnly allowed (loadByImport specifier) := by
  refine .mk (fun s put hr => ?_) ?_
  · cases hr
  · refine List.forall_mem_cons.2 ⟨?_, List.forall_mem_cons.2 ⟨?_, List.forall_mem_singleton.2 ?_⟩⟩
    · exact refersOnly_of_kind (by simp) (by simp) (by simp)
    · exact refersOnly_text _ _
    · exact refersOnly_of_kind (by simp) (by simp) (by simp)

theorem refersOnly_loadByCall {specifier : String} (h : ¬ Specifier.isStylesheet specifier) :
    RefersOnly allowed (loadByCall specifier) := by
  refine refersOnly_of_kind (by simp) (by simp) (List.forall_mem_singleton.2 ?_)
  refine .mk (fun s put hr => ?_) ?_
  · cases hr with
    | call _ _ _ _ _ _ _ hl hs =>
      cases hl
      exact absurd (isStylesheet_iff.2 hs) h
  · refine List.forall_mem_cons.2 ⟨?_, List.forall_mem_cons.2 ⟨?_, List.forall_mem_singleton.2 ?_⟩⟩
    · exact refersOnly_of_kind (by simp) (by simp) (by simp)
    · exact refersOnly_of_kind (by simp) (by simp)
        (List.forall_mem_singleton.2 (refersOnly_text _ _))
    · exact refersOnly_of_kind (by simp) (by simp) (by simp)

end Loads

end Script.Node

namespace Script.Program

open Node

theorem withLoads_nil (p : Program) : p.withLoads [] = p := by
  simp [withLoads]

/-- The references in what the work yields are those that are left. -/
theorem refersOnly_inlineMaps {p : Program} {r : Inlining} (hr : r.hoisted = [])
    (hp : allBindNames p.body) : ∀ n ∈ (p.inlineMaps r).1.body, RefersOnly (fun s =>
      r.mapOf? s = none ∧ s ∈ referencesAll (fun s => (r.mapOf? s).isSome) p.body) n := by
  have hleft := refersOnly_inlineAll p.body r (fun _ => rfl) hp
  obtain ⟨added, -, hh, -⟩ := (follows_inlineAll p.body r).added
  rw [hr, List.nil_append] at hh
  intro n hn
  have hmem : n ∈ (inlineAll p.body r).1 ∨
      ∃ s : Replacement, n = (if p.isModule then loadByImport else loadByCall)
        (Specifier.sibling s.specifier) := by
    simp only [inlineMaps, Inlining.takeHoisted, withLoads, hh, List.mem_append, List.mem_map] at hn
    rcases hn with (hn | ⟨_, ⟨s, -, rfl⟩, rfl⟩) | hn
    · exact .inl (List.takeWhile_subset _ hn)
    · exact .inr ⟨s, rfl⟩
    · exact .inl ((List.dropWhile_sublist _).subset hn)
  rcases hmem with hn | ⟨s, rfl⟩
  · exact hleft n hn
  · split_ifs
    · exact refersOnly_loadByImport _
    · exact refersOnly_loadByCall (not_isStylesheet_sibling s.specifier)

/-- The work on a program, done again on what it has yielded, for the same file and with the same
processor on the disk as it is then, changes neither the program nor the disk nor the records; it
replaces nothing and puts in no loads. -/
theorem inlineMaps_again (p : Program) (hp : allBindNames p.body) (file : Path) (b : Build)
    (sources sources' : Option Sources) :
    let first := p.inlineMaps (.start file b sources)
    let again := first.1.inlineMaps (.start file first.2.build sources')
    again.1 = first.1 ∧ again.2.build.disk = first.2.build.disk ∧
      again.2.build.processor = first.2.build.processor ∧
      again.2.replacements = [] ∧ again.2.hoisted = [] := by
  intro first again
  set r : Inlining := .start file b sources with hr
  set r' : Inlining := .start file first.2.build sources' with hr'
  have hsteady : b.Steady first.2.build := (follows_inlineAll p.body r).steady
  have hmap : ∀ s, r'.mapOf? s = r.mapOf? s := fun s => by
    simp only [hr, hr', Inlining.mapOf?, Inlining.start, hsteady.outcome]
  have hleft := refersOnly_inlineMaps (r := r) rfl hp
  obtain ⟨h1, h2, h3⟩ := inlineAll_of_refersOnly first.1.body r' fun n hn =>
    (hleft n hn).mono fun s hs => (hmap s).trans hs.1
  -- the files that are processed the second time are among those of the first time
  set found : String → Bool := fun s => (r.mapOf? s).isSome with hfound
  have hfirst : first.2.build.Same
      (b.processAll ((referencesAll found p.body).map (Specifier.resolve · file))) :=
    same_inlineAll p.body r fun _ => rfl
  have hsecond : (inlineAll first.1.body r').2.build.Same (first.2.build.processAll
      ((referencesAll found first.1.body).map (Specifier.resolve · file))) :=
    same_inlineAll first.1.body r' fun s => by rw [hfound, hmap]
  have hsub : referencesAll found first.1.body ⊆ referencesAll found p.body := fun s hs =>
    allowed_of_mem_referencesAll (fun n hn => (hleft n hn).mono fun _ hs => hs.2) s hs
  have hsame : (inlineAll first.1.body r').2.build.Same first.2.build :=
    hsecond.trans ((hfirst.processAll _).trans
      ((b.same_processAll_again (List.map_subset _ hsub)).trans hfirst.symm))
  have hagain : again = (first.1, { (inlineAll first.1.body r').2 with hoisted := [] }) := by
    show ((({ first.1 with body := (inlineAll first.1.body r').1 } : Program).withLoads
      (inlineAll first.1.body r').2.hoisted), _) = _
    rw [h1, h2]
    exact congrArg (·, _) first.1.withLoads_nil
  rw [hagain]
  exact ⟨rfl, hsame.disk, hsame.processor, h3, rfl⟩

/-- A module with references that are replaced, one to a sheet that is malformed and one to none,
all of them worked on twice. -/
theorem inlineMaps_again_with_failures :
    let disk := (((Disk.empty ["app"]).put ["app"] .directory).put ["app", "a.sss"]
      (.file (.text ".x \x7b color: red \x7d"))).put ["app", "b.sss"] (.file (.text ".x \x7b"))
    let b : Build := .start disk (.fresh [.scopeClasses ⟨"[local]_y"⟩])
    let source := "'use client';\nimport * as a from './a.sss';\nimport * as b from './b.sss';\n" ++
      "f(a, b, require('./a.sss').x, require('./missing.sss'));\n"
    ∃ p comments, Program.read ⟨false, true⟩ .module source = some (p, comments) ∧
      allBindNames p.body ∧
      let first := p.inlineMaps (.start ⟨"App.jsx"⟩ b none)
      let again := first.1.inlineMaps (.start ⟨"App.jsx"⟩ first.2.build none)
      first.2.replacements.length = 2 ∧ first.2.build.disk ≠ disk ∧ again.1 = first.1 ∧
        again.2.build.disk = first.2.build.disk ∧ again.2.replacements = [] := by
  intro disk b source
  obtain ⟨⟨p, comments⟩, hp⟩ := Option.isSome_iff_exists.1
    (by decide +kernel : (Program.read ⟨false, true⟩ .module source).isSome = true)
  have hfacts : (Program.read ⟨false, true⟩ .module source).map (fun p =>
      let first := p.1.inlineMaps (.start ⟨"App.jsx"⟩ b none)
      (allBindNames p.1.body, first.2.replacements.length,
        decide (first.2.build.disk.entries = disk.entries))) = some (true, 2, false) := by
    decide +kernel
  rw [hp] at hfacts
  simp only [Option.map_some, Option.some.injEq, Prod.mk.injEq, decide_eq_false_iff_not] at hfacts
  obtain ⟨hnames, htwo, hdisk⟩ := hfacts
  obtain ⟨htree, hsame, -, hnone, -⟩ := inlineMaps_again p hnames ⟨"App.jsx"⟩ b none none
  exact ⟨p, comments, hp, hnames, htwo, fun h => hdisk (congrArg Disk.entries h), htree, hsame,
    hnone⟩

end Script.Program

end ScopedStyles
