import ScopedStyles.Proofs.ListedSources
import ScopedStyles.Proofs.Replacement

/-!
# The sources that the work registers

With each replacement a source is added: it has the path of the replacement as its name and the
processed css as its text, and an object that spans it stands in the tree in place of the
reference. The sources added by the work on a tree lie apart from each other and from those before
(`Node.registers_inlineAll`).
-/

namespace ScopedStyles

open Script Script.Node

namespace Script.Node

/-- A node stands somewhere in a tree. -/
inductive Within (n : Node) : Node → Prop
  | here : Within n n
  | inner {k : Kind} {s : Span} {ks : List Node} {c : Node} :
    c ∈ ks → Within n c → Within n (.mk k s ks)

end Script.Node

namespace Inlining

/-- A source goes with a replacement. -/
structure Pairs (outcome : Path → Except Failure Output) (placed : Node → Prop) (s : Source)
    (rep : Replacement) : Prop where
  name : s.name = rep.path.text
  text : ∃ o, outcome rep.path = .ok o ∧ o.classMap? = some rep.classMap ∧
    s.text = Pipeline.withoutMark o.css
  object : ∃ object, IsObjectOf rep.classMap object ∧ object.span = s.span ∧ placed object

/-- From one state to another, sources are added apart from the others, one for each replacement. -/
def Registers (r r' : Inlining) (placed : Node → Prop) : Prop :=
  ∀ all, r.sources = some all → all.Apart → ∃ (new : List Source) (added : List Replacement),
    r'.sources = some ⟨all.all ++ new⟩ ∧ Sources.Apart ⟨all.all ++ new⟩ ∧
    r'.replacements = r.replacements ++ added ∧
    List.Forall₂ (Pairs r.build.outcome placed) new added

variable {r r' r'' : Inlining} {placed placed' : Node → Prop}

theorem Pairs.mono {outcome : Path → Except Failure Output} {s : Source} {rep : Replacement}
    (h : Pairs outcome placed s rep) (hp : ∀ n, placed n → placed' n) :
    Pairs outcome placed' s rep :=
  ⟨h.name, h.text, h.object.imp fun n hn => ⟨hn.1, hn.2.1, hp n hn.2.2⟩⟩

theorem Registers.mono (h : Registers r r' placed) (hp : ∀ n, placed n → placed' n) :
    Registers r r' placed' := fun all hall hapart => by
  obtain ⟨new, added, hsources, hnew, hadded, hpairs⟩ := h all hall hapart
  exact ⟨new, added, hsources, hnew, hadded, hpairs.imp fun _ _ h => h.mono hp⟩

/-- Nothing is gathered. -/
theorem registers_of_eq (hs : r'.sources = r.sources) (hr : r'.replacements = r.replacements) :
    Registers r r' placed := fun all hall hapart =>
  ⟨[], [], by rw [hs, hall, List.append_nil], by rwa [List.append_nil], by simp [hr], .nil⟩

theorem Registers.trans (h : Registers r r' placed) (hsteady : r.build.Steady r'.build)
    (h' : Registers r' r'' placed) : Registers r r'' placed := fun all hall hapart => by
  obtain ⟨new, added, hsources, hnew, hadded, hpairs⟩ := h all hall hapart
  obtain ⟨new', added', hsources', hnew', hadded', hpairs'⟩ := h' _ hsources hnew
  rw [funext hsteady.outcome] at hpairs'
  rw [List.append_assoc] at hsources' hnew'
  rw [hadded, List.append_assoc] at hadded'
  exact ⟨new ++ new', added ++ added', hsources', hnew', hadded', List.rel_append hpairs hpairs'⟩

/-- The object in place of a reference spans the source that is added with it. -/
theorem inlineClassNames_source {all : Sources} (hall : r.sources = some all) {specifier : String}
    {o : Output} {m : ClassMap} (ho : r.build.outcome (Specifier.resolve specifier r.file) = .ok o)
    (hom : o.classMap? = some m) : ∃ object r',
    r.inlineClassNames specifier = (some object, r') ∧ IsObjectOf m object ∧
      object.span = (all.add (Specifier.resolve specifier r.file).text
        (Pipeline.withoutMark o.css)).1.span ∧
      r'.sources = some (all.add (Specifier.resolve specifier r.file).text
        (Pipeline.withoutMark o.css)).2 ∧
      r'.replacements = r.replacements ++ [⟨specifier, Specifier.resolve specifier r.file, m⟩] := by
  have hregister : r.register (Specifier.resolve specifier r.file) o.css =
      (some (all.add (Specifier.resolve specifier r.file).text (Pipeline.withoutMark o.css)).1,
        { r with sources := some (all.add (Specifier.resolve specifier r.file).text
          (Pipeline.withoutMark o.css)).2 }) := by simp only [register, hall]
  rw [inlineClassNames_of_ok ho hom, hregister]
  exact ⟨_, _, rfl, isObjectOf_classObject _ _ _, rfl, rfl, rfl⟩

/-- A reference that is replaced adds its stylesheet. -/
theorem registers_inlineClassNames (specifier : String) (r : Inlining) :
    Registers r (r.inlineClassNames specifier).2
      (fun n => (r.inlineClassNames specifier).1 = some n) := by
  rcases hm : r.mapOf? specifier with _ | m
  · obtain ⟨e, he⟩ := inlineClassNames_of_none hm
    rw [he]
    exact registers_of_eq rfl rfl
  · obtain ⟨o, ho, hom⟩ := mapOf?_eq_some hm
    intro all hall hapart
    obtain ⟨object, r', heq, hobject, hspan, hsources, hreplacements⟩ :=
      inlineClassNames_source hall ho hom
    rw [heq]
    exact ⟨[_], [_], hsources, Sources.apart_add hapart _ _, hreplacements,
      .cons ⟨rfl, ⟨o, ho, hom, rfl⟩, object, hobject, hspan, rfl⟩ .nil⟩

end Inlining

namespace Script.Node

open Inlining (Registers)

theorem Refers.within {n : Node} {specifier : String} {put : Node → Node}
    (h : Refers n specifier put) (o : Node) : Within o (put o) := by
  cases h with
  | wholeImport =>
    exact .inner List.mem_cons_self (.inner (List.mem_cons_of_mem _ List.mem_cons_self) .here)
  | call => exact .here

theorem registers_replacement (n : Node) (r : Inlining) : Registers r (n.replacement r).2
    (fun o => ∃ new, (n.replacement r).1 = some new ∧ Within o new) := by
  rcases hn : n.reference? with _ | ⟨specifier, put⟩
  · rcases replacement_of_none hn r with h | h <;> rw [h] <;> exact Inlining.registers_of_eq rfl rfl
  · rw [replacement_of_some hn]
    refine (Inlining.registers_inlineClassNames specifier r).mono fun o ho => ?_
    exact ⟨put o, by rw [ho]; rfl, (reference?_eq_some_iff.1 hn).within o⟩

mutual

theorem registers_inlineMaps : ∀ (n : Node) (r : Inlining),
    Registers r (n.inlineMaps r).2 (Within · (n.inlineMaps r).1)
  | mk k s ks, r => by
    have hg := registers_replacement (mk k s ks) r
    have hf := follows_replacement (mk k s ks) r
    rcases h : (mk k s ks).replacement r with ⟨_ | new, r'⟩ <;> rw [h] at hg hf
    · rw [inlineMaps_of_none h]
      refine (hg.mono fun o ho => ?_).trans hf.steady
        ((registers_inlineAll ks r').mono fun o ⟨c, hc, ho⟩ => .inner hc ho)
      obtain ⟨new, hnew, -⟩ := ho
      simp at hnew
    · rw [inlineMaps_of_some h]
      refine hg.mono fun o ⟨new', hnew, ho⟩ => ?_
      exact Option.some.inj hnew ▸ ho

theorem registers_inlineAll : ∀ (ns : List Node) (r : Inlining),
    Registers r (inlineAll ns r).2 (fun o => ∃ n ∈ (inlineAll ns r).1, Within o n)
  | [], r => Inlining.registers_of_eq rfl rfl
  | n :: ns, r => by
    refine ((registers_inlineMaps n r).mono fun o ho => ?_).trans (follows_inlineMaps n r).steady
      ((registers_inlineAll ns (n.inlineMaps r).2).mono fun o ⟨c, hc, ho⟩ => ?_)
    · exact ⟨_, List.mem_cons_self, ho⟩
    · exact ⟨c, List.mem_cons_of_mem _ hc, ho⟩

end

/-- What is registered before and behind the work on one of many nodes. -/
theorem registers_of_mem {n : Node} : ∀ {ns : List Node}, n ∈ ns → ∀ r : Inlining, ∃ r₁,
    Inlining.Follows r r₁ ∧ Registers r r₁ (fun _ => True) ∧
      (n.inlineMaps r₁).1 ∈ (inlineAll ns r).1 ∧
      Registers (n.inlineMaps r₁).2 (inlineAll ns r).2 fun _ => True
  | n' :: ns, hn, r => by
    rcases List.mem_cons.1 hn with rfl | hn
    · exact ⟨r, .refl r, Inlining.registers_of_eq rfl rfl, List.mem_cons_self,
        (registers_inlineAll ns (n.inlineMaps r).2).mono fun _ _ => trivial⟩
    · obtain ⟨r₁, hfollows, hbefore, hmem, hbehind⟩ := registers_of_mem hn (n'.inlineMaps r).2
      have hn' := follows_inlineMaps n' r
      exact ⟨r₁, hn'.trans hfollows,
        ((registers_inlineMaps n' r).mono fun _ _ => trivial).trans hn'.steady hbefore,
        List.mem_cons_of_mem _ hmem, hbehind⟩

end Script.Node

end ScopedStyles
