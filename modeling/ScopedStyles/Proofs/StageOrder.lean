import ScopedStyles.Proofs.ExportedNames

/-!
# Scoping and discarding in either order

What scoping makes of a tree is settled by the tree: the class map on the way only spares naming a
class twice (`Scope.Settled`). So scoping looks at no rule through another one, and as it empties no
block and fills none, empty rules can be discarded before it or behind it: the sheet and the warning
are the same, and the class map of a sheet whose empty rules are gone already lacks the classes that
were renamed in those alone (`discard_scope_comm`).
-/

namespace ScopedStyles

namespace Scoping

open Css

variable {s : Scope} {α β : Type}

section Actions

/-- The action is made of renamings, one after the other. -/
inductive Scope.Settled (s : Scope) : {α : Type} → Renaming α → Prop
  | pure {α : Type} (a : α) : Scope.Settled s (Pure.pure a : Renaming α)
  | rename (name : String) : Scope.Settled s (s.rename name)
  | bind {α β : Type} {act : Renaming α} {next : α → Renaming β} :
    Scope.Settled s act → (∀ a, Scope.Settled s (next a)) → Scope.Settled s (act >>= next)

/-- Such an action yields the same whatever classes were met before. -/
theorem Scope.Settled.run_mapOf {act : Renaming α} (h : s.Settled act) :
    ∃ a names, ∀ met, act.run (s.mapOf met) = (a, s.mapOf (met ++ names)) := by
  induction h with
  | pure a => exact ⟨a, [], fun met => by rw [List.append_nil]; rfl⟩
  | rename name => exact ⟨_, [name], rename_run s name⟩
  | @bind α β act next _ _ ih ih' =>
    obtain ⟨a, names, ha⟩ := ih
    obtain ⟨b, more, hb⟩ := ih' a
    refine ⟨b, names ++ more, fun met => ?_⟩
    rw [StateT.run_bind, ha, ← List.append_assoc]
    exact hb (met ++ names)

/-- What an action yields if no class was met before. -/
def result (act : Renaming α) : α := (act.run .empty).1

theorem Scope.Settled.result_bind {act : Renaming α} {next : α → Renaming β} (h : s.Settled act)
    (h' : ∀ a, s.Settled (next a)) : result (act >>= next) = result (next (result act)) := by
  have hempty : ClassMap.empty = s.mapOf [] := rfl
  obtain ⟨a, names, ha⟩ := h.run_mapOf
  obtain ⟨b, more, hb⟩ := (h' a).run_mapOf
  have hact : result act = a := by rw [result, hempty, ha]
  rw [hact, result, result, StateT.run_bind, hempty, ha]
  show ((next a).run (s.mapOf ([] ++ names))).1 = _
  rw [hb, hb]

theorem Scope.Settled.map {act : Renaming α} {f : α → β} (h : s.Settled act) :
    s.Settled (act >>= fun a => Pure.pure (f a)) :=
  h.bind fun a => .pure (f a)

theorem Scope.Settled.result_map {act : Renaming α} (f : α → β) (h : s.Settled act) :
    result (act >>= fun a => Pure.pure (f a)) = f (result act) :=
  h.result_bind fun a => .pure (f a)

theorem result_rename (s : Scope) (name : String) : result (s.rename name) = s.scopedName name :=
  congrArg Prod.fst (rename_run s name [])

end Actions

section Selectors

mutual

theorem settled_simple (s : Scope) : ∀ c : Simple, s.Settled (simple s c)
  | .id _ => by
    rw [simple]
    exact .pure _
  | .className n => by
    rw [simple]
    exact (Scope.Settled.rename n).map
  | .attribute _ => by
    rw [simple]
    exact .pure _
  | .pseudoClass _ a => by
    rw [simple]
    exact (settled_args s a).map
  | .pseudoElement _ a => by
    rw [simple]
    exact (settled_args s a).map

theorem settled_args (s : Scope) : ∀ a : Args, s.Settled (args s a)
  | .absent => by
    rw [args]
    exact .pure _
  | .text _ => by
    rw [args]
    exact .pure _
  | .complex c => by
    rw [args]
    exact (settled_complex s c).map
  | .compounds cs => by
    rw [args]
    exact (settled_compounds s cs).map
  | .list cs => by
    rw [args]
    exact (settled_complexes s cs).map
  | .lenient ms => by
    rw [args]
    exact (settled_members s ms).map
  | .formula _ _ cs => by
    rw [args]
    exact (settled_complexes s cs).map

theorem settled_members (s : Scope) : ∀ ms : List Member, s.Settled (members s ms)
  | [] => by
    rw [members]
    exact .pure _
  | .selector c :: ms => by
    rw [members]
    exact (settled_complex s c).bind fun _ => (settled_members s ms).map
  | .relative (.mk _ c) :: ms => by
    rw [members]
    exact (settled_complex s c).bind fun _ => (settled_members s ms).map
  | .raw _ :: ms => by
    rw [members]
    exact (settled_members s ms).map

theorem settled_compound (s : Scope) : ∀ c : Compound, s.Settled (compound s c)
  | .mk _ _ cs => by
    rw [compound]
    exact (settled_simples s cs).map

theorem settled_compounds (s : Scope) : ∀ cs : List Compound, s.Settled (compounds s cs)
  | [] => by
    rw [compounds]
    exact .pure _
  | c :: cs => by
    rw [compounds]
    exact (settled_compound s c).bind fun _ => (settled_compounds s cs).map

theorem settled_simples (s : Scope) : ∀ cs : List Simple, s.Settled (simples s cs)
  | [] => by
    rw [simples]
    exact .pure _
  | c :: cs => by
    rw [simples]
    exact (settled_simple s c).bind fun _ => (settled_simples s cs).map

theorem settled_complex (s : Scope) : ∀ c : ComplexSelector, s.Settled (complex s c)
  | .mk cs => by
    rw [complex]
    exact (settled_children s cs []).map

theorem settled_children (s : Scope) : ∀ cs out : List Child, s.Settled (children s cs out)
  | [], _ => by
    rw [children]
    exact .pure _
  | .combinator _ :: rest, _ => by
    rw [children]
    exact settled_children s rest _
  | .compound (.mk _ _ []) :: rest, _ => by
    rw [children]
    exact settled_children s rest _
  | .compound (.mk _ _ (c :: cs)) :: rest, _ => by
    rw [children]
    exact (settled_conditions s (c :: cs) _).bind fun _ => settled_children s rest _

theorem settled_conditions (s : Scope) : ∀ (cs : List Simple) (out : List Child),
    s.Settled (conditions s cs out)
  | [], _ => by
    rw [conditions]
    exact .pure _
  | c :: rest, _ => by
    by_cases hc : c.IsWrapping
    · obtain ⟨n, inner, rfl⟩ := hc
      rw [conditions]
      rcases Wrapper.ofName? n with _ | _ | _
      · exact (settled_complex s inner).bind fun _ => settled_conditions s rest _
      · exact settled_conditions s rest _
      · exact (settled_complex s inner).bind fun _ => settled_conditions s rest _
    · rw [conditions]
      · exact (settled_simple s c).bind fun _ => settled_conditions s rest _
      · rintro n inner rfl
        exact hc ⟨n, inner, rfl⟩

theorem settled_complexes (s : Scope) : ∀ cs : List ComplexSelector, s.Settled (complexes s cs)
  | [] => by
    rw [complexes]
    exact .pure _
  | c :: cs => by
    rw [complexes]
    exact (settled_complex s c).bind fun _ => (settled_complexes s cs).map

end

theorem result_complexes_cons (s : Scope) (c : ComplexSelector) (cs : List ComplexSelector) :
    result (complexes s (c :: cs)) = result (complex s c) :: result (complexes s cs) := by
  rw [complexes, (settled_complex s c).result_bind fun _ => (settled_complexes s cs).map,
    (settled_complexes s cs).result_map]

end Selectors

section Sheets

theorem settled_relatives (s : Scope) : ∀ rs : List Relative, s.Settled (relatives s rs)
  | [] => .pure _
  | .mk _ c :: rs => (settled_complex s c).bind fun _ => (settled_relatives s rs).map

theorem settled_target (s : Scope) : ∀ t : Target, s.Settled (target s t)
  | .selectors list => (settled_complexes s list).map
  | .relatives list => (settled_relatives s list).map

theorem settled_pieces (s : Scope) : ∀ ps : List Piece, s.Settled (pieces s ps)
  | [] => .pure _
  | .text _ :: ps => (settled_pieces s ps).map
  | .selector c :: ps => (settled_complex s c).bind fun _ => (settled_pieces s ps).map

theorem settled_start (s : Scope) : ∀ p : Prelude, s.Settled (start s p)
  | .absent => .pure _
  | .raw _ => .pure _
  | .known ps => (settled_pieces s ps).map

mutual

theorem settled_rule (s : Scope) : ∀ r : Rule, s.Settled (rule s r)
  | .style t block => by
    rw [rule]
    exact (settled_target s t).bind fun _ => (settled_items s block).map
  | .atBlock _ p block => by
    rw [rule]
    exact (settled_start s p).bind fun _ => (settled_items s block).map
  | .statement _ p => by
    rw [rule]
    exact (settled_start s p).map

theorem settled_item (s : Scope) : ∀ i : Item, s.Settled (item s i)
  | .declaration _ => by
    rw [item]
    exact .pure _
  | .rule r => by
    rw [item]
    exact (settled_rule s r).map
  | .keyframe _ block => by
    rw [item]
    exact (settled_items s block).map
  | .raw _ => by
    rw [item]
    exact .pure _

theorem settled_items (s : Scope) : ∀ is : List Item, s.Settled (items s is)
  | [] => by
    rw [items]
    exact .pure _
  | i :: is => by
    rw [items]
    exact (settled_item s i).bind fun _ => (settled_items s is).map

end

theorem settled_rules (s : Scope) : ∀ rs : List Rule, s.Settled (rules s rs)
  | [] => .pure _
  | r :: rs => (settled_rule s r).bind fun _ => (settled_rules s rs).map

end Sheets

section Left

theorem result_rule_style (s : Scope) (t : Target) (block : List Item) :
    result (rule s (.style t block)) = .style (result (target s t)) (result (items s block)) := by
  rw [rule, (settled_target s t).result_bind fun _ => (settled_items s block).map,
    (settled_items s block).result_map]

theorem result_rule_atBlock (s : Scope) (name : String) (p : Prelude) (block : List Item) :
    result (rule s (.atBlock name p block)) =
      .atBlock name (result (start s p)) (result (items s block)) := by
  rw [rule, (settled_start s p).result_bind fun _ => (settled_items s block).map,
    (settled_items s block).result_map]

theorem result_rule_statement (s : Scope) (name : String) (p : Prelude) :
    result (rule s (.statement name p)) = .statement name (result (start s p)) := by
  rw [rule, (settled_start s p).result_map]

theorem result_items_cons (s : Scope) (i : Item) (is : List Item) :
    result (items s (i :: is)) = result (item s i) :: result (items s is) := by
  rw [items, (settled_item s i).result_bind fun _ => (settled_items s is).map,
    (settled_items s is).result_map]

theorem result_rules_cons (s : Scope) (r : Rule) (rs : List Rule) :
    result (rules s (r :: rs)) = result (rule s r) :: result (rules s rs) := by
  rw [rules, (settled_rule s r).result_bind fun _ => (settled_rules s rs).map,
    (settled_rules s rs).result_map]

mutual

/-- A scoped rule is discarded if the rule is, and otherwise what is left of it is what is left of
the rule, scoped. The number of rules that go with it is the same. -/
theorem discard_result_rule (s : Scope) : ∀ r : Rule, Discarding.rule (result (rule s r)) =
    ((Discarding.rule r).1.map fun r => result (rule s r), (Discarding.rule r).2)
  | .style t block => by
    have ih := discard_result_items s block
    rw [result_rule_style, Discarding.rule, Discarding.rule, ih]
    rcases Discarding.items block with ⟨_ | ⟨i, is⟩, n⟩
    · rfl
    · simp only [result_items_cons, Option.map_some, result_rule_style]
  | .atBlock name p block => by
    have ih := discard_result_items s block
    rw [result_rule_atBlock, Discarding.rule, Discarding.rule, ih]
    rcases Discarding.items block with ⟨_ | ⟨i, is⟩, n⟩
    · rfl
    · simp only [result_items_cons, Option.map_some, result_rule_atBlock]
  | .statement name p => by
    rw [result_rule_statement, Discarding.rule, Discarding.rule, Option.map_some,
      result_rule_statement]

theorem discard_result_items (s : Scope) : ∀ is : List Item,
    Discarding.items (result (items s is)) =
      (result (items s (Discarding.items is).1), (Discarding.items is).2)
  | [] => rfl
  | .declaration d :: is => by
    have hi : result (item s (.declaration d)) = .declaration d := by rw [item]; rfl
    rw [result_items_cons, hi, Discarding.items, Discarding.items, discard_result_items s is,
      result_items_cons, hi]
  | .rule r :: is => by
    have hi : ∀ r, result (item s (.rule r)) = .rule (result (rule s r)) := fun r => by
      rw [item, (settled_rule s r).result_map]
    rw [result_items_cons, hi, Discarding.items, Discarding.items, discard_result_items s is,
      discard_result_rule s r]
    rcases Discarding.rule r with ⟨_ | r', n⟩
    · rfl
    · simp only [Option.map_some, result_items_cons, hi]
  | .keyframe selectors block :: is => by
    have hi : result (item s (.keyframe selectors block)) =
        .keyframe selectors (result (items s block)) := by
      rw [item, (settled_items s block).result_map]
    rw [result_items_cons, hi, Discarding.items, Discarding.items, discard_result_items s is,
      result_items_cons, hi]
  | .raw text :: is => by
    have hi : result (item s (.raw text)) = .raw text := by rw [item]; rfl
    rw [result_items_cons, hi, Discarding.items, Discarding.items, discard_result_items s is,
      result_items_cons, hi]

end

theorem discard_result_rules (s : Scope) : ∀ rs : List Rule,
    Discarding.rules (result (rules s rs)) =
      (result (rules s (Discarding.rules rs).1), (Discarding.rules rs).2)
  | [] => rfl
  | r :: rs => by
    rw [result_rules_cons, Discarding.rules, Discarding.rules, discard_result_rules s rs,
      discard_result_rule s r]
    rcases Discarding.rule r with ⟨_ | r', n⟩
    · rfl
    · simp only [Option.map_some, result_rules_cons]

/-- Scoping what is left of a sheet comes to discarding the empty rules of the scoped sheet, with
the same warning. -/
theorem discard_run (naming : Naming) (path : Path) (sheet : Sheet) :
    Discarding.run (run naming path sheet).1 =
      ((run naming path sheet.discard).1, (Discarding.run sheet).2) := by
  have hrules := discard_result_rules ⟨naming, path⟩ sheet.rules
  show (Sheet.mk (Discarding.rules (result (rules ⟨naming, path⟩ sheet.rules))).1,
      if (Discarding.rules (result (rules ⟨naming, path⟩ sheet.rules))).2 = 0 then []
      else [Discarding.warning (Discarding.rules (result (rules ⟨naming, path⟩ sheet.rules))).2]) = _
  rw [hrules]
  rfl

/-- A class map pairs the names that were met with their scoped names. -/
theorem mem_pairs_mapOf {s : Scope} {met : List String} {pair : String × String} :
    pair ∈ (s.mapOf met).pairs ↔ pair.1 ∈ met ∧ pair.2 = s.scopedName pair.1 := by
  obtain ⟨n, v⟩ := pair
  simp only [Scope.mapOf, List.mem_map, List.mem_eraseDups, Prod.mk.injEq]
  constructor
  · rintro ⟨_, h, rfl, rfl⟩
    exact ⟨h, rfl⟩
  · rintro ⟨h, rfl⟩
    exact ⟨n, h, rfl, rfl⟩

end Left

end Scoping

open Css Scoping

/-- Whatever the sheet, the path and the pattern: discarding empty rules and then scoping gives the
sheet that scoping and then discarding gives, hence the same text, and the same warning if any rule
goes. The class map of the first order has those pairs of the second order's class map whose class
is renamed in a rule that is left. -/
theorem discard_scope_comm (naming : Naming) (path : Path) (sheet : Sheet) :
    ∃ (last : Sheet) (warnings : List Message) (m m' : ClassMap),
      Pipeline.run path [.discardEmpty, .scopeClasses naming] sheet =
        .ok (last, warnings ++ [⟨scopingStage, .exports m⟩]) ∧
      Pipeline.run path [.scopeClasses naming, .discardEmpty] sheet =
        .ok (last, [⟨scopingStage, .exports m'⟩] ++ warnings) ∧
      warnings = (Discarding.run sheet).2 ∧
      ∀ pair, pair ∈ m.pairs ↔ pair ∈ m'.pairs ∧ pair.1 ∈ renamed sheet.discard.mentions := by
  have hmap := (run_alike naming path sheet.discard).2
  have hmap' := (run_alike naming path sheet).2
  have hfirst : Pipeline.run path [.discardEmpty, .scopeClasses naming] sheet =
      .ok ((Scoping.run naming path sheet.discard).1,
        (Discarding.run sheet).2 ++ [(Scoping.run naming path sheet.discard).2]) := rfl
  have hsecond : Pipeline.run path [.scopeClasses naming, .discardEmpty] sheet =
      .ok ((Discarding.run (Scoping.run naming path sheet).1).1,
        [(Scoping.run naming path sheet).2] ++
          (Discarding.run (Scoping.run naming path sheet).1).2) := by
    simp [Pipeline.run, Stage.scopeClasses, Stage.discardEmpty, bind, Except.bind, pure, Except.pure]
  rw [hmap] at hfirst
  rw [hmap', discard_run] at hsecond
  refine ⟨_, _, _, _, hfirst, hsecond, rfl, fun pair => ?_⟩
  have hleft : renamed sheet.discard.mentions ⊆ renamed sheet.mentions :=
    ((sheet.mentions_discard.filter _).map _).subset
  rw [mem_pairs_mapOf, mem_pairs_mapOf]
  constructor
  · rintro ⟨hn, hv⟩
    exact ⟨⟨hleft hn, hv⟩, hn⟩
  · rintro ⟨⟨-, hv⟩, hn⟩
    exact ⟨hn, hv⟩

end ScopedStyles
