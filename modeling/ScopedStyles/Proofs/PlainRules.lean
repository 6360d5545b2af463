import ScopedStyles.Proofs.PlainSelectors
import ScopedStyles.Proofs.StageOrder

/-!
# Stages on plain rules

A rule is plain if its selectors are and if its block holds declarations only. Nothing in it is
dissolved or grouped anew, so scoping renames its classes and does nothing else, and discarding
takes it away or leaves it as it is. What any stages make of a sheet of plain rules is therefore the
sheet of those that are left, renamed by the scoping stages in turn (`PlainRule.run_sheet`).
-/

namespace ScopedStyles

open Css

section Renaming

namespace Css

theorem Condition.rename_rename (f g : String → String) (c : Condition) :
    (c.rename f).rename g = c.rename (g ∘ f) := by
  cases c <;> rfl

theorem Condition.rename_id : Condition.rename id = id := by
  funext c
  cases c <;> rfl

theorem Term.ext {t u : Term} (hn : t.nesting = u.nesting) (he : t.element = u.element)
    (hc : t.conditions = u.conditions) : t = u := by
  cases t
  cases u
  simp only at hn he hc
  subst hn he hc
  rfl

theorem Term.rename_rename (f g : String → String) (t : Term) :
    (t.rename f).rename g = t.rename (g ∘ f) :=
  Term.ext rfl rfl (by simp [rename, Condition.rename_rename])

theorem Term.rename_id : Term.rename id = id :=
  funext fun t => Term.ext rfl rfl (by simp [rename, Condition.rename_id])

theorem Row.rename_rename (f g : String → String) (r : Row) :
    (r.rename f).rename g = r.rename (g ∘ f) := by
  simp [rename, Term.rename_rename]

theorem Row.rename_id : Row.rename id = id := by
  funext r
  simp [rename, Term.rename_id]

theorem Term.classes_rename (f : String → String) (t : Term) :
    (t.rename f).classes = t.classes.map f := by
  have hcondition : ∀ c : Condition, (c.rename f).classes = c.classes.map f := fun c => by
    cases c <;> rfl
  simp [classes, rename, List.flatMap_map, List.map_flatMap, hcondition]

theorem Row.classes_rename (f : String → String) (r : Row) :
    (r.rename f).classes = r.classes.map f := by
  simp [classes, rename, Term.classes_rename, List.flatMap_map, List.map_flatMap]

end Css

/-- A style rule with plain selectors, and with nothing but declarations in its block. -/
structure PlainRule where
  first : Row
  more : List Row
  block : List Declaration

namespace PlainRule

def rule (r : PlainRule) : Rule :=
  .style (.selectors ((r.first :: r.more).map Row.selector)) (r.block.map .declaration)

def rename (f : String → String) (r : PlainRule) : PlainRule :=
  ⟨r.first.rename f, r.more.map (Row.rename f), r.block⟩

def classes (r : PlainRule) : List String := (r.first :: r.more).flatMap Row.classes

/-- The sheet of some plain rules. -/
def sheet (rules : List PlainRule) : Sheet := ⟨rules.map rule⟩

/-- The rules without the empty ones, if there is a stage that discards them. -/
def leftBy (stages : List StageConfig) (rules : List PlainRule) : List PlainRule :=
  if .discardEmpty ∈ stages then rules.filter (!·.block.isEmpty) else rules

theorem rename_rename (f g : String → String) (r : PlainRule) :
    (r.rename f).rename g = r.rename (g ∘ f) := by
  simp [rename, Row.rename_rename]

theorem rename_id : rename id = id := by
  funext r
  simp [rename, Row.rename_id]

theorem classes_rename (f : String → String) (r : PlainRule) :
    (r.rename f).classes = r.classes.map f := by
  simp [classes, rename, Row.classes_rename, List.flatMap_map, List.map_flatMap]

end PlainRule

end Renaming

namespace Scoping

theorem result_simple (s : Scope) (c : Condition) :
    result (simple s c.simple) = (c.rename s.scopedName).simple := by
  rcases c with n | ⟨_ | _ | _, n, h⟩
  · rw [Condition.simple, simple, (Scope.Settled.rename n).result_map, result_rename]
    rfl
  · rw [Condition.simple, simple]
    rfl
  all_goals
    rw [Condition.simple, simple, (settled_args s .absent).result_map, args]
    rfl

theorem result_conditions_cons (s : Scope) (c : Condition) (rest : List Simple)
    (out : List Child) : result (conditions s (c.simple :: rest) out) =
      result (conditions s rest (push (.mk false none [(c.rename s.scopedName).simple]) out)) := by
  rw [conditions, (settled_simple s _).result_bind fun _ => settled_conditions s rest _,
    result_simple]
  intro n inner hc
  rcases c with n' | ⟨_ | _ | _, n', h⟩ <;> cases hc

/-- Conditions join the compound before them. -/
theorem result_conditions (s : Scope) (n : Bool) (e : Option Element) (out : List Child) :
    ∀ (cs : List Condition) (ds : List Simple),
      result (conditions s (cs.map Condition.simple) (.compound (.mk n e ds) :: out)) =
        .compound (.mk n e (ds ++ cs.map fun c => (c.rename s.scopedName).simple)) :: out
  | [], ds => by
    rw [List.map_nil, conditions, List.map_nil, List.append_nil]
    rfl
  | c :: cs, ds => by
    rw [List.map_cons, result_conditions_cons, push, Compound.nesting, Compound.element,
      Compound.conditions, Compound.nesting, Compound.element, Compound.conditions, Bool.or_false,
      Option.or_none, result_conditions s n e out cs, List.map_cons, List.append_assoc]
    rfl

/-- What has been done of a row so far, the last child first, is to be followed by a compound. -/
def Awaits (out : List Child) : Prop := ∀ c rest, out ≠ .compound c :: rest

theorem awaits_nil : Awaits [] := fun _ _ => (List.cons_ne_nil _ _).symm

theorem awaits_combinator (k : Combinator) (out : List Child) : Awaits (.combinator k :: out) :=
  fun _ _ h => Child.noConfusion (List.cons.inj h).1

theorem push_of_awaits {out : List Child} (h : Awaits out) (c : Compound) :
    push c out = .compound c :: out := by
  unfold push
  split
  · exact absurd rfl (h _ _)
  · rfl

/-- A term is renamed and stays one compound. -/
theorem result_children_term (s : Scope) (t : Term) (rest : List Child) (out : List Child)
    (h : Awaits out) : result (children s (.compound t.compound :: rest) out) =
      result (children s rest (.compound (t.rename s.scopedName).compound :: out)) := by
  have hrenamed : (t.rename s.scopedName).compound = .mk t.nesting (t.element.map (⟨none, ·⟩))
      (t.conditions.map fun c => (c.rename s.scopedName).simple) := by
    simp [Term.compound, Term.rename]
  rw [hrenamed, Term.compound]
  rcases hcs : t.conditions with _ | ⟨c, cs⟩
  · rw [List.map_nil, children, push_of_awaits h]
    rfl
  · rw [List.map_cons, children, (settled_conditions s _ _).result_bind fun _ =>
      settled_children s rest _]
    congr 2
    rw [pushHead]
    split_ifs with hhead
    · rw [push_of_awaits h, ← List.map_cons, result_conditions]
      rfl
    · rw [result_conditions_cons, push_of_awaits h, result_conditions]
      -- the compound has no `&` and no element name, so its first condition starts it anew
      rw [Bool.not_eq_true, Bool.or_eq_false_iff, Option.isSome_map, Option.isSome_eq_false_iff,
        Option.isNone_iff_eq_none] at hhead
      rw [hhead.1, hhead.2]
      rfl

theorem result_children_more (s : Scope) : ∀ (more : List (Combinator × Term)) (c : Compound)
    (out : List Child), result (children s (Row.children more) (.compound c :: out)) =
      (Row.children (more.map fun (k, t) => (k, t.rename s.scopedName))).reverse ++
        .compound c :: out
  | [], c, out => by
    rw [Row.children, children]
    rfl
  | (k, t) :: more, c, out => by
    rw [Row.children, children, result_children_term s t _ _ (awaits_combinator k _),
      result_children_more s more]
    simp [Row.children]

/-- A plain selector is renamed and stays what it is. -/
theorem result_complex (s : Scope) (r : Row) :
    result (complex s r.selector) = (r.rename s.scopedName).selector := by
  rw [Row.selector, complex, (settled_children s _ _).result_map,
    result_children_term s r.first _ [] awaits_nil, result_children_more]
  simp [Row.selector, Row.rename]

theorem result_complexes (s : Scope) : ∀ rows : List Row,
    result (complexes s (rows.map Row.selector)) =
      (rows.map (Row.rename s.scopedName)).map Row.selector
  | [] => by
    rw [List.map_nil, complexes]
    rfl
  | r :: rows => by
    rw [List.map_cons, result_complexes_cons, result_complex, result_complexes s rows]
    rfl

theorem result_declarations (s : Scope) : ∀ ds : List Declaration,
    result (items s (ds.map .declaration)) = ds.map .declaration
  | [] => by
    rw [List.map_nil, items]
    rfl
  | d :: ds => by
    rw [List.map_cons, result_items_cons, result_declarations s ds, item]
    rfl

theorem result_rule (s : Scope) (r : PlainRule) :
    result (rule s r.rule) = (r.rename s.scopedName).rule := by
  rw [PlainRule.rule, result_rule_style, result_declarations, target,
    (settled_complexes s _).result_map, result_complexes]
  rfl

theorem result_rules (s : Scope) : ∀ rules : List PlainRule,
    result (Scoping.rules s (rules.map PlainRule.rule)) =
      (rules.map (PlainRule.rename s.scopedName)).map PlainRule.rule
  | [] => rfl
  | r :: rest => by
    rw [List.map_cons, result_rules_cons, result_rule, result_rules s rest]
    rfl

theorem run_plain (naming : Naming) (path : Path) (rules : List PlainRule) :
    (run naming path (PlainRule.sheet rules)).1 =
      PlainRule.sheet (rules.map (PlainRule.rename (naming.scopedName path))) :=
  congrArg Sheet.mk (result_rules ⟨naming, path⟩ rules)

end Scoping

section Pipelines

/-- A text is read as it is if it starts with no byte order mark. -/
theorem Pipeline.read_unmarked (path : Path) {text : String}
    (h : ∀ c ∈ text.toList.head?, c.toNat ≠ 0xFEFF) :
    read path text = (Sheet.read text).elim (.error (.malformed path)) .ok := by
  have hmark : withoutMark text = text := by
    unfold withoutMark
    split
    · rename_i c cs hcs
      rw [if_neg (h c (by rw [hcs]; rfl))]
    · rfl
  rw [read, hmark]
  rcases Sheet.read text with _ | sheet <;> rfl

theorem Pipeline.run_cons {path : Path} {stage : Stage} {rest : Pipeline} {sheet next last : Sheet}
    {first more : List Message} (h : stage.run path sheet = .ok (next, first))
    (h' : run path rest next = .ok (last, more)) :
    run path (stage :: rest) sheet = .ok (last, first ++ more) := by
  rw [run, h]
  show (run path rest next >>= fun r => pure (r.1, first ++ r.2)) = _
  rw [h']
  rfl

end Pipelines

namespace Discarding

theorem items_declarations : ∀ ds : List Declaration,
    items (ds.map .declaration) = (ds.map .declaration, 0)
  | [] => rfl
  | d :: ds => by rw [List.map_cons, items, items_declarations ds]

theorem rule_plain (r : PlainRule) :
    (rule r.rule).1 = if r.block.isEmpty then none else some r.rule := by
  rw [PlainRule.rule, rule, items_declarations]
  rcases r.block with _ | ⟨d, ds⟩ <;> rfl

theorem rules_plain (rules : List PlainRule) :
    (Discarding.rules (rules.map PlainRule.rule)).1 =
      (rules.filter (!·.block.isEmpty)).map PlainRule.rule := by
  rw [rules_eq, List.filterMap_map]
  induction rules with
  | nil => rfl
  | cons r rest ih =>
    rw [List.filterMap_cons, List.filter_cons, Function.comp_apply, rule_plain, ih]
    rcases r.block.isEmpty <;> rfl

end Discarding

namespace PlainRule

theorem discard_sheet (rules : List PlainRule) :
    (sheet rules).discard = sheet (rules.filter (!·.block.isEmpty)) :=
  congrArg Sheet.mk (Discarding.rules_plain rules)

theorem filter_map_rename (f : String → String) (rules : List PlainRule) :
    (rules.map (rename f)).filter (!·.block.isEmpty) =
      (rules.filter (!·.block.isEmpty)).map (rename f) :=
  List.filter_map

theorem leftBy_map_rename (f : String → String) (stages : List StageConfig)
    (rules : List PlainRule) :
    leftBy stages (rules.map (rename f)) = (leftBy stages rules).map (rename f) := by
  unfold leftBy
  split_ifs
  · exact filter_map_rename f rules
  · rfl

/-- Empty rules are gone once they are discarded. -/
theorem leftBy_filter (stages : List StageConfig) (rules : List PlainRule) :
    leftBy stages (rules.filter (!·.block.isEmpty)) = leftBy (.discardEmpty :: stages) rules := by
  rw [leftBy, leftBy, if_pos List.mem_cons_self, List.filter_filter]
  simp

/-- What the stages make of a sheet of plain rules. -/
theorem run_sheet (path : Path) : ∀ (stages : List StageConfig) (rules : List PlainRule), ∃ ms,
    Pipeline.run path (stages.map Stage.ofConfig) (sheet rules) =
      .ok (sheet ((leftBy stages rules).map
        (rename (Naming.inTurn path (stages.filterMap StageConfig.naming?)))), ms)
  | [], rules => by
    have hid : Naming.inTurn path [] = id := rfl
    refine ⟨[], ?_⟩
    rw [List.map_nil, List.filterMap_nil, hid, rename_id, List.map_id]
    rfl
  | .discardEmpty :: stages, rules => by
    obtain ⟨ms, h⟩ := run_sheet path stages (rules.filter (!·.block.isEmpty))
    rw [leftBy_filter, ← discard_sheet] at h
    exact ⟨_, Pipeline.run_cons rfl h⟩
  | .scopeClasses pattern :: stages, rules => by
    obtain ⟨ms, h⟩ := run_sheet path stages (rules.map (rename (Naming.scopedName ⟨pattern⟩ path)))
    rw [leftBy_map_rename, List.map_map, ← Scoping.run_plain] at h
    have hrename : rename (Naming.inTurn path (stages.filterMap StageConfig.naming?)) ∘
        rename (Naming.scopedName ⟨pattern⟩ path) = rename (Naming.inTurn path
          ((.scopeClasses pattern :: stages).filterMap StageConfig.naming?)) :=
      funext fun r => rename_rename _ _ r
    have hleft : leftBy (.scopeClasses pattern :: stages) rules = leftBy stages rules := by
      simp [leftBy]
    rw [hrename] at h
    rw [hleft]
    exact ⟨_, Pipeline.run_cons rfl h⟩

end PlainRule

end ScopedStyles
