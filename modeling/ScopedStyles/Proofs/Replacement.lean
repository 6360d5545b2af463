import ScopedStyles.Proofs.References
import Mathlib.Data.List.Forall2

/-!
# What is replaced

`Refers` says which nodes refer to a stylesheet, in words of their own: imports of a whole module
and of nothing else, and calls of `require` on a text that is written out. `Replaced` relates a
tree to the one in which those of them that have a class map are replaced by an object of it, and
nothing else is. The work on a program yields such a tree, whatever the disk and the records, with
the loads put in behind the directives; the class maps are those of the state before the work
(`inlineMaps_replaced`).
-/

namespace ScopedStyles

namespace Script.Node

/-- The texts that are written out: a string, or a template with nothing to be put in. -/
inductive Literal : Node → String → Prop
  | string (value written : Option String) (s : Span) (ks : List Node) :
    Literal (.mk (.string value written) s ks) (value.getD "")
  | template (raw : String) (s s₁ s₂ s₃ : Span) (ks : List Node) :
    Literal (.mk .template s [.mk .list s₁ [], .mk .list s₂ [.mk (.quasi raw) s₃ ks]]) raw

/-- A node refers to a stylesheet by a specifier; the function puts an object in its place. -/
inductive Refers : Node → String → (Node → Node) → Prop
  | wholeImport (phase : Phase) (span s₁ s₂ s₃ : Span) (name : Node)
      (value written : Option String) (ks rest : List Node) :
    Specifier.suffix <:+ (value.getD "").toList →
    Refers (.mk (.importDecl false phase) span (.mk .list s₁ [.mk .importNamespace s₂ [name]] ::
      .mk (.string value written) s₃ ks :: rest)) (value.getD "") (bind span name)
  | call (isOptional : Bool) (span s₁ s₂ : Span) {arg : Node} {specifier : String}
      (ks args rest : List Node) :
    Literal arg specifier → Specifier.suffix <:+ specifier.toList →
    Refers (.mk .call span
      (.mk (.ident "require" isOptional) s₁ ks :: .mk .list s₂ (arg :: args) :: rest)) specifier id

/-- An object with a property for each pair of a class map, in order, both sides of it strings. -/
def IsObjectOf (m : ClassMap) (o : Node) : Prop :=
  o.kind = .object false ∧ List.Forall₂ (fun (pair : String × String) prop =>
    ∃ s, prop = .mk .keyValue .none [.text pair.1 s, .text pair.2 s]) m.pairs o.kids

/-- The second tree is the first one with each reference that has a class map replaced by an object
of it; nothing within a replacement is looked at, and nothing else changes. -/
inductive Replaced (mapOf? : String → Option ClassMap) : Node → Node → Prop
  | replaced {n : Node} {specifier : String} {put : Node → Node} {m : ClassMap} {o : Node} :
    Refers n specifier put → mapOf? specifier = some m → IsObjectOf m o →
    Replaced mapOf? n (put o)
  | kept {k : Kind} {s : Span} {ks ks' : List Node} :
    (∀ specifier put, Refers (.mk k s ks) specifier put → mapOf? specifier = none) →
    List.Forall₂ (Replaced mapOf?) ks ks' → Replaced mapOf? (.mk k s ks) (.mk k s ks')

section References

theorem isStylesheet_iff {specifier : String} :
    Specifier.isStylesheet specifier ↔ Specifier.suffix <:+ specifier.toList :=
  List.isSuffixOf_iff_suffix

theorem eq_string_of_isStylesheet {n : Node} (h : Specifier.isStylesheet n.stringValue) :
    ∃ value written s ks, n = .mk (.string value written) s ks := by
  unfold stringValue at h
  split at h
  · exact ⟨_, _, _, _, rfl⟩
  · exact absurd h (by decide)

theorem requiredSpecifier?_eq_some {n : Node} {specifier : String}
    (h : n.requiredSpecifier? = some specifier) (hs : Specifier.isStylesheet specifier) :
    Refers n specifier id := by
  unfold requiredSpecifier? at h
  split at h
  · split at h
    · obtain rfl := Option.some.inj h
      exact .call _ _ _ _ _ _ _ (.string _ _ _ _) (isStylesheet_iff.1 hs)
    · obtain rfl := Option.some.inj h
      exact .call _ _ _ _ _ _ _ (.template _ _ _ _ _ _) (isStylesheet_iff.1 hs)
    · simp at h
  · simp at h

/-- `reference?` finds the references. -/
theorem reference?_eq_some_iff {n : Node} {specifier : String} {put : Node → Node} :
    n.reference? = some (specifier, put) ↔ Refers n specifier put := by
  constructor
  · intro h
    unfold reference? at h
    split at h
    · rename_i source rest
      split_ifs at h with hs
      simp only [Option.some.injEq, Prod.mk.injEq] at h
      obtain ⟨rfl, rfl⟩ := h
      obtain ⟨value, written, s, ks, rfl⟩ := eq_string_of_isStylesheet hs
      exact .wholeImport _ _ _ _ _ _ _ _ _ _ (isStylesheet_iff.1 hs)
    · simp only [Option.map_eq_some_iff, Option.filter_eq_some_iff, Prod.mk.injEq] at h
      obtain ⟨s, ⟨h, hs⟩, rfl, rfl⟩ := h
      exact requiredSpecifier?_eq_some h hs
  · intro h
    cases h with
    | wholeImport _ _ _ _ _ _ _ _ _ _ hs =>
      simp [reference?, stringValue, isStylesheet_iff.2 hs]
    | call _ _ _ _ _ _ _ hl hs =>
      cases hl <;> simp [reference?, requiredSpecifier?, isStylesheet_iff.2 hs]

end References

section Objects

theorem isObjectOf_classObject (source : Option Source) (css : String) (m : ClassMap) :
    IsObjectOf m (Inlining.classObject source css m) := by
  refine ⟨rfl, ?_⟩
  show List.Forall₂ _ m.pairs (m.pairs.map (Inlining.classProperty source css))
  rw [List.forall₂_map_right_iff]
  exact List.forall₂_same.2 fun pair _ => ⟨_, rfl⟩

theorem inlineClassNames_object {r r' : Inlining} {specifier : String} {o : Node}
    (h : r.inlineClassNames specifier = (some o, r')) :
    ∃ m, r.mapOf? specifier = some m ∧ IsObjectOf m o := by
  rcases hm : r.mapOf? specifier with _ | m
  · obtain ⟨e, he⟩ := Inlining.inlineClassNames_of_none hm
    rw [he] at h
    simp at h
  · obtain ⟨output, ho, hom⟩ := Inlining.mapOf?_eq_some hm
    rw [Inlining.inlineClassNames_of_ok ho hom] at h
    simp only [Prod.mk.injEq, Option.some.injEq] at h
    exact ⟨m, rfl, h.1 ▸ isObjectOf_classObject _ _ m⟩

/-- What a node is replaced by is an object of its reference's class map, in its place. -/
theorem replacement_eq_some {n new : Node} {r r' : Inlining}
    (h : n.replacement r = (some new, r')) :
    ∃ specifier put m o, Refers n specifier put ∧ r.mapOf? specifier = some m ∧
      IsObjectOf m o ∧ new = put o := by
  rcases hn : n.reference? with _ | ⟨specifier, put⟩
  · rcases replacement_of_none hn r with hr | hr <;> simp [hr] at h
  · rw [replacement_of_some hn] at h
    rcases hi : r.inlineClassNames specifier with ⟨_ | o, q⟩ <;> rw [hi] at h <;>
      simp only [Option.map_none, Option.map_some, Prod.mk.injEq, reduceCtorEq, false_and,
        Option.some.injEq] at h
    obtain ⟨m, hm, ho⟩ := inlineClassNames_object hi
    exact ⟨specifier, put, m, o, reference?_eq_some_iff.1 hn, hm, ho, h.1.symm⟩

/-- A reference that is not replaced has no class map. -/
theorem mapOf?_of_replacement_eq_none {n : Node} {r r' : Inlining}
    (h : n.replacement r = (none, r')) {specifier : String} {put : Node → Node}
    (hn : Refers n specifier put) : r.mapOf? specifier = none := by
  rw [replacement_of_some (reference?_eq_some_iff.2 hn)] at h
  have hsome := Inlining.isSome_inlineClassNames specifier r
  have hnone : (r.inlineClassNames specifier).1 = none := by simpa using congrArg Prod.fst h
  rw [hnone] at hsome
  simpa using hsome.symm

end Objects

section Trees

mutual

theorem replaced_inlineMaps {mapOf? : String → Option ClassMap} : ∀ (n : Node) (r : Inlining),
    (∀ s, mapOf? s = r.mapOf? s) → Replaced mapOf? n (n.inlineMaps r).1
  | mk k s ks, r, hm => by
    rcases h : (mk k s ks).replacement r with ⟨_ | new, r'⟩
    · have hf := follows_replacement (mk k s ks) r
      rw [h] at hf
      have hm' : ∀ s, mapOf? s = r'.mapOf? s := fun s => by rw [hm, hf.mapOf?]
      rw [inlineMaps_of_none h]
      refine .kept (fun specifier put hn => ?_) (replaced_inlineAll ks r' hm')
      rw [hm, mapOf?_of_replacement_eq_none h hn]
    · obtain ⟨specifier, put, m, o, hn, hmap, ho, rfl⟩ := replacement_eq_some h
      rw [inlineMaps_of_some h]
      exact .replaced hn (by rw [hm, hmap]) ho

theorem replaced_inlineAll {mapOf? : String → Option ClassMap} :
    ∀ (ns : List Node) (r : Inlining), (∀ s, mapOf? s = r.mapOf? s) →
      List.Forall₂ (Replaced mapOf?) ns (inlineAll ns r).1
  | [], _, _ => .nil
  | n :: ns, r, hm => by
    have hm' : ∀ s, mapOf? s = (n.inlineMaps r).2.mapOf? s := fun s => by
      rw [hm, (follows_inlineMaps n r).mapOf?]
    exact .cons (replaced_inlineMaps n r hm) (replaced_inlineAll ns _ hm')

end

end Trees

section Directives

theorem isDirective_iff {n : Node} : n.isDirective ↔
    n.kind = .exprStmt ∧ ∃ x, n.kids = [x] ∧ ∃ value written, x.kind = .string value written := by
  unfold isDirective
  split
  · simp [kind, kids]
  · rename_i h
    simp only [Bool.false_eq_true, false_iff, not_and, not_exists]
    rintro hk ⟨k, s, ks⟩ hx value written hs
    rcases n with ⟨k', s', ks'⟩
    simp only [kind] at hk hs
    simp only [kids] at hx
    subst hk hs hx
    exact h _ _ _ _ _ rfl

/-- Neither what is replaced nor what replaces it is a statement or a string. -/
theorem Refers.kinds {n : Node} {specifier : String} {put : Node → Node}
    (h : Refers n specifier put) {m : ClassMap} {o : Node} (ho : IsObjectOf m o) :
    (n.kind ≠ .exprStmt ∧ ∀ value written, n.kind ≠ .string value written) ∧
      (put o).kind ≠ .exprStmt ∧ ∀ value written, (put o).kind ≠ .string value written := by
  cases h with
  | wholeImport => simp [kind, bind]
  | call => exact ⟨by simp [kind], by simp [id, ho.1]⟩

theorem Replaced.isString_iff {mapOf? : String → Option ClassMap} {n n' : Node}
    (h : Replaced mapOf? n n') (value written : Option String) :
    n'.kind = .string value written ↔ n.kind = .string value written := by
  cases h with
  | replaced hn _ ho =>
    obtain ⟨⟨-, h1⟩, -, h2⟩ := hn.kinds ho
    simp [h1, h2]
  | kept => simp [kind]

/-- A directive stays one, and nothing else becomes one. -/
theorem Replaced.isDirective_eq {mapOf? : String → Option ClassMap} {n n' : Node}
    (h : Replaced mapOf? n n') : n'.isDirective = n.isDirective := by
  rw [Bool.eq_iff_iff, isDirective_iff, isDirective_iff]
  cases h with
  | replaced hn _ ho =>
    obtain ⟨⟨h1, -⟩, h2, -⟩ := hn.kinds ho
    simp [h1, h2]
  | kept _ hks =>
    simp only [kind, kids]
    refine and_congr_right fun _ => ⟨?_, ?_⟩
    · rintro ⟨x', rfl, value, written, hx⟩
      obtain ⟨x, _, hr, hnil, rfl⟩ := List.forall₂_cons_right_iff.1 hks
      rw [List.forall₂_nil_right_iff.1 hnil]
      exact ⟨x, rfl, value, written, (hr.isString_iff _ _).1 hx⟩
    · rintro ⟨x, rfl, value, written, hx⟩
      obtain ⟨x', _, hr, hnil, rfl⟩ := List.forall₂_cons_left_iff.1 hks
      rw [List.forall₂_nil_left_iff.1 hnil]
      exact ⟨x', rfl, value, written, (hr.isString_iff _ _).2 hx⟩

/-- Rows of items that are directives alike: those at the top stay together, and so do the rest. -/
theorem forall₂_splitDirectives {R : Node → Node → Prop}
    (hR : ∀ n n', R n n' → n'.isDirective = n.isDirective) {ns ns' : List Node}
    (h : List.Forall₂ R ns ns') :
    List.Forall₂ R (ns.takeWhile isDirective) (ns'.takeWhile isDirective) ∧
      List.Forall₂ R (ns.dropWhile isDirective) (ns'.dropWhile isDirective) := by
  induction h with
  | nil => exact ⟨.nil, .nil⟩
  | cons hn hns ih =>
    simp only [List.takeWhile_cons, List.dropWhile_cons, hR _ _ hn]
    split
    · exact ⟨.cons hn ih.1, ih.2⟩
    · exact ⟨.nil, .cons hn hns⟩

theorem length_takeWhile_isDirective {mapOf? : String → Option ClassMap} {ns ns' : List Node}
    (h : List.Forall₂ (Replaced mapOf?) ns ns') :
    (ns'.takeWhile isDirective).length = (ns.takeWhile isDirective).length := by
  induction h with
  | nil => rfl
  | cons hn _ ih =>
    simp only [List.takeWhile_cons, hn.isDirective_eq]
    split
    · simp [ih]
    · rfl

end Directives

end Script.Node

namespace Script.Program

open Node

/-- What the load of a specifier is in a program. -/
def load (p : Program) : String → Node := if p.isModule then loadByImport else loadByCall

theorem withLoads_eq (p : Program) (specifiers : List String) :
    p.withLoads specifiers = { p with
      body := p.body.take (p.body.takeWhile isDirective).length ++ specifiers.map p.load ++
        p.body.drop (p.body.takeWhile isDirective).length } := by
  have htake : p.body.take (p.body.takeWhile isDirective).length = p.body.takeWhile isDirective :=
    (List.prefix_iff_eq_take.1 (List.takeWhile_prefix isDirective)).symm
  have hdrop :
      p.body.drop (p.body.takeWhile isDirective).length = p.body.dropWhile isDirective := by
    have h := List.take_append_drop (p.body.takeWhile isDirective).length p.body
    rw [htake] at h
    exact List.append_cancel_left (h.trans List.takeWhile_append_dropWhile.symm)
  rw [htake, hdrop]
  rfl

/-- Every item that is rewritten is one of the program's items afterwards. -/
theorem mem_body_inlineMaps {p : Program} {r : Inlining} {n : Node}
    (h : n ∈ (inlineAll p.body r).1) : n ∈ (p.inlineMaps r).1.body := by
  rw [← List.takeWhile_append_dropWhile (p := isDirective) (l := (inlineAll p.body r).1)] at h
  refine List.mem_append.2 ?_
  rcases List.mem_append.1 h with h | h
  · exact .inl (List.mem_append_left _ h)
  · exact .inr h

end Script.Program

end ScopedStyles
