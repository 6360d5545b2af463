import ScopedStyles.Proofs.SheetShape

/-!
# Hollow rules

A rule is hollow if its block has nothing in it but hollow rules. Discarding works its way outwards
and asks what is left of a block; `Rule.Hollow` and `Rule.solid` say the same from the outside: the
hollow rules go, and the other ones stay with the hollow rules within them gone. The warning counts
all hollow rules, those within others included, and in what is left there are none to be found
(`run_discards_hollow`).
-/

namespace ScopedStyles

namespace Css

inductive Rule.Hollow : Rule → Prop
  | style (t : Target) {rs : List Rule} :
    (∀ r ∈ rs, Rule.Hollow r) → Rule.Hollow (.style t (rs.map .rule))
  | atBlock (name : String) (start : Prelude) {rs : List Rule} :
    (∀ r ∈ rs, Rule.Hollow r) → Rule.Hollow (.atBlock name start (rs.map .rule))

/-- All members of the block are hollow rules. -/
def BlockHollow (block : List Item) : Prop :=
  ∃ rs : List Rule, block = rs.map .rule ∧ ∀ r ∈ rs, r.Hollow

theorem hollow_style_iff {t : Target} {block : List Item} :
    (Rule.style t block).Hollow ↔ BlockHollow block := by
  constructor
  · rintro ⟨_, h⟩
    exact ⟨_, rfl, h⟩
  · rintro ⟨rs, rfl, h⟩
    exact .style t h

theorem hollow_atBlock_iff {name : String} {start : Prelude} {block : List Item} :
    (Rule.atBlock name start block).Hollow ↔ BlockHollow block := by
  constructor
  · rintro (_ | ⟨_, _, h⟩)
    exact ⟨_, rfl, h⟩
  · rintro ⟨rs, rfl, h⟩
    exact .atBlock name start h

theorem not_hollow_statement (name : String) (start : Prelude) :
    ¬ (Rule.statement name start).Hollow := nofun

theorem blockHollow_nil : BlockHollow [] := ⟨[], rfl, by simp⟩

theorem blockHollow_cons_rule_iff {r : Rule} {is : List Item} :
    BlockHollow (.rule r :: is) ↔ r.Hollow ∧ BlockHollow is := by
  constructor
  · rintro ⟨_ | ⟨r', rs⟩, h, hrs⟩
    · cases h
    · obtain ⟨hr, his⟩ := List.cons.inj h
      obtain ⟨hhead, htail⟩ := List.forall_mem_cons.1 hrs
      exact ⟨Item.rule.inj hr ▸ hhead, rs, his, htail⟩
  · rintro ⟨hr, rs, rfl, hrs⟩
    exact ⟨r :: rs, rfl, List.forall_mem_cons.2 ⟨hr, hrs⟩⟩

/-- A block with a member that is no rule. -/
theorem not_blockHollow_cons {i : Item} (h : ∀ r, i ≠ .rule r) (is : List Item) :
    ¬ BlockHollow (i :: is) := by
  rintro ⟨_ | ⟨r, rs⟩, heq, -⟩
  · cases heq
  · exact h r (List.cons.inj heq).1

mutual

instance Rule.decidableHollow : (r : Rule) → Decidable r.Hollow
  | .style _ block => @decidable_of_iff _ _ hollow_style_iff.symm (decidableBlockHollow block)
  | .atBlock _ _ block => @decidable_of_iff _ _ hollow_atBlock_iff.symm (decidableBlockHollow block)
  | .statement name start => .isFalse (not_hollow_statement name start)

instance decidableBlockHollow : (block : List Item) → Decidable (BlockHollow block)
  | [] => .isTrue blockHollow_nil
  | .rule r :: is =>
    @decidable_of_iff _ _ blockHollow_cons_rule_iff.symm
      (@instDecidableAnd _ _ (Rule.decidableHollow r) (decidableBlockHollow is))
  | .declaration _ :: is => .isFalse (not_blockHollow_cons (by simp) is)
  | .keyframe _ _ :: is => .isFalse (not_blockHollow_cons (by simp) is)
  | .raw _ :: is => .isFalse (not_blockHollow_cons (by simp) is)

end

mutual

/-- The rule without the hollow rules that are reached in it through blocks of rules. -/
def Rule.solid : Rule → Rule
  | .style t block => .style t (solidBlock block)
  | .atBlock name start block => .atBlock name start (solidBlock block)
  | .statement name start => .statement name start

def solidBlock : List Item → List Item
  | [] => []
  | .rule r :: is => if r.Hollow then solidBlock is else .rule r.solid :: solidBlock is
  | .declaration d :: is => .declaration d :: solidBlock is
  | .keyframe selectors block :: is => .keyframe selectors block :: solidBlock is
  | .raw text :: is => .raw text :: solidBlock is

end

mutual

/-- The rule, and the rules that are reached in it through blocks of rules. -/
def Rule.reached : Rule → List Rule
  | .style t block => .style t block :: blockReached block
  | .atBlock name start block => .atBlock name start block :: blockReached block
  | .statement name start => [.statement name start]

def blockReached : List Item → List Rule
  | [] => []
  | .rule r :: is => r.reached ++ blockReached is
  | .declaration _ :: is => blockReached is
  | .keyframe _ _ :: is => blockReached is
  | .raw _ :: is => blockReached is

end

/-- The rules of a sheet at all depths, as far as they are reached through blocks of rules. -/
def Sheet.reached (sheet : Sheet) : List Rule := sheet.rules.flatMap Rule.reached

/-- Nothing is left of a block just if it is hollow. -/
theorem solidBlock_eq_nil_iff : ∀ {block : List Item}, solidBlock block = [] ↔ BlockHollow block
  | [] => by simp [solidBlock, blockHollow_nil]
  | .rule r :: is => by
    rw [solidBlock, blockHollow_cons_rule_iff, ← @solidBlock_eq_nil_iff is]
    by_cases h : r.Hollow <;> simp [h]
  | .declaration _ :: is => by simp [solidBlock, not_blockHollow_cons]
  | .keyframe _ _ :: is => by simp [solidBlock, not_blockHollow_cons]
  | .raw _ :: is => by simp [solidBlock, not_blockHollow_cons]

mutual

theorem hollow_solid_iff : ∀ {r : Rule}, r.solid.Hollow ↔ r.Hollow
  | .style t block => by
    rw [Rule.solid, hollow_style_iff, hollow_style_iff, blockHollow_solidBlock_iff]
  | .atBlock name start block => by
    rw [Rule.solid, hollow_atBlock_iff, hollow_atBlock_iff, blockHollow_solidBlock_iff]
  | .statement name start => by rw [Rule.solid]

theorem blockHollow_solidBlock_iff : ∀ {block : List Item},
    BlockHollow (solidBlock block) ↔ BlockHollow block
  | [] => by rw [solidBlock]
  | .rule r :: is => by
    rw [solidBlock, blockHollow_cons_rule_iff]
    split_ifs with h
    · rw [blockHollow_solidBlock_iff, and_iff_right h]
    · rw [blockHollow_cons_rule_iff, hollow_solid_iff, blockHollow_solidBlock_iff]
  | .declaration _ :: is => by simp [solidBlock, not_blockHollow_cons]
  | .keyframe _ _ :: is => by simp [solidBlock, not_blockHollow_cons]
  | .raw _ :: is => by simp [solidBlock, not_blockHollow_cons]

end

mutual

theorem hollow_of_mem_reached : ∀ {r : Rule}, r.Hollow → ∀ x ∈ r.reached, x.Hollow
  | .style t block, h => by
    rw [Rule.reached, List.forall_mem_cons]
    exact ⟨h, hollow_of_mem_blockReached (hollow_style_iff.1 h)⟩
  | .atBlock name start block, h => by
    rw [Rule.reached, List.forall_mem_cons]
    exact ⟨h, hollow_of_mem_blockReached (hollow_atBlock_iff.1 h)⟩
  | .statement name start, h => absurd h (not_hollow_statement name start)

theorem hollow_of_mem_blockReached : ∀ {block : List Item}, BlockHollow block →
    ∀ x ∈ blockReached block, x.Hollow
  | [], _ => by simp [blockReached]
  | .rule r :: is, h => by
    rw [blockHollow_cons_rule_iff] at h
    rw [blockReached, List.forall_mem_append]
    exact ⟨hollow_of_mem_reached h.1, hollow_of_mem_blockReached h.2⟩
  | .declaration _ :: is, h => absurd h (not_blockHollow_cons (by simp) is)
  | .keyframe _ _ :: is, h => absurd h (not_blockHollow_cons (by simp) is)
  | .raw _ :: is, h => absurd h (not_blockHollow_cons (by simp) is)

end

theorem filter_reached_of_hollow {r : Rule} (h : r.Hollow) :
    r.reached.filter (fun x => ¬ x.Hollow) = [] :=
  List.filter_eq_nil_iff.2 fun x hx => by simpa using hollow_of_mem_reached h x hx

mutual

/-- In what is left of a rule, just those rules are reached that are not hollow. -/
theorem reached_solid : ∀ {r : Rule}, ¬ r.Hollow →
    r.solid.reached = (r.reached.filter fun x => ¬ x.Hollow).map Rule.solid
  | .style t block, h => by
    rw [Rule.reached, List.filter_cons_of_pos (by simpa using h), List.map_cons, Rule.solid,
      Rule.reached, blockReached_solidBlock]
  | .atBlock name start block, h => by
    rw [Rule.reached, List.filter_cons_of_pos (by simpa using h), List.map_cons, Rule.solid,
      Rule.reached, blockReached_solidBlock]
  | .statement name start, h => by
    rw [Rule.reached, List.filter_cons_of_pos (by simpa using h), Rule.solid, Rule.reached]
    rfl

theorem blockReached_solidBlock : ∀ block : List Item, blockReached (solidBlock block) =
    ((blockReached block).filter fun x => ¬ x.Hollow).map Rule.solid
  | [] => rfl
  | .rule r :: is => by
    have ih := blockReached_solidBlock is
    rw [solidBlock, blockReached, List.filter_append, List.map_append, ← ih]
    split_ifs with h
    · rw [filter_reached_of_hollow h, List.map_nil, List.nil_append]
    · rw [blockReached, reached_solid h]
  | .declaration _ :: is => by rw [solidBlock, blockReached, blockReached, blockReached_solidBlock is]
  | .keyframe _ _ :: is => by rw [solidBlock, blockReached, blockReached, blockReached_solidBlock is]
  | .raw _ :: is => by rw [solidBlock, blockReached, blockReached, blockReached_solidBlock is]

end

end Css

namespace Discarding

open Css

theorem unlessEmpty_solidBlock (make : List Item → Rule) (block : List Item) :
    unlessEmpty make (solidBlock block) =
      if BlockHollow block then none else some (make (solidBlock block)) := by
  split_ifs with h
  · rw [solidBlock_eq_nil_iff.2 h, unlessEmpty]
  · exact unlessEmpty_eq_some.2 ⟨fun hnil => h (solidBlock_eq_nil_iff.1 hnil), rfl⟩

/-- A rule that goes counts itself. -/
theorem rule_style_snd (t : Target) (block : List Item) :
    (rule (.style t block)).2 = (items block).2 + if (items block).1 = [] then 1 else 0 := by
  rw [rule]
  rcases items block with ⟨_ | ⟨i, is⟩, n⟩ <;> rfl

theorem rule_atBlock_snd (name : String) (start : Prelude) (block : List Item) :
    (rule (.atBlock name start block)).2 =
      (items block).2 + if (items block).1 = [] then 1 else 0 := by
  rw [rule]
  rcases items block with ⟨_ | ⟨i, is⟩, n⟩ <;> rfl

mutual

/-- A rule goes just if it is hollow, and as many rules go with it as are hollow in it. -/
theorem rule_eq : ∀ r : Rule, rule r =
    (if r.Hollow then none else some r.solid, r.reached.countP fun x => x.Hollow)
  | .style t block => by
    rw [Rule.solid, Rule.reached, List.countP_cons]
    simp only [hollow_style_iff, decide_eq_true_eq]
    refine Prod.ext ?_ ?_
    · rw [rule_style, items_eq block, unlessEmpty_solidBlock]
    · simp only [rule_style_snd, items_eq block, solidBlock_eq_nil_iff]
  | .atBlock name start block => by
    rw [Rule.solid, Rule.reached, List.countP_cons]
    simp only [hollow_atBlock_iff, decide_eq_true_eq]
    refine Prod.ext ?_ ?_
    · rw [rule_atBlock, items_eq block, unlessEmpty_solidBlock]
    · simp only [rule_atBlock_snd, items_eq block, solidBlock_eq_nil_iff]
  | .statement name start => by
    have h := not_hollow_statement name start
    simp [rule, Rule.reached, Rule.solid, h]

theorem items_eq : ∀ block : List Item,
    items block = (solidBlock block, (blockReached block).countP fun x => x.Hollow)
  | [] => rfl
  | .rule r :: is => by
    rw [items, rule_eq r, items_eq is, solidBlock, blockReached, List.countP_append]
    split_ifs with h
    · rfl
    · rfl
  | .declaration _ :: is => by rw [items, items_eq is, solidBlock, blockReached]
  | .keyframe _ _ :: is => by rw [items, items_eq is, solidBlock, blockReached]
  | .raw _ :: is => by rw [items, items_eq is, solidBlock, blockReached]

end

theorem rules_eq_solid : ∀ rs : List Rule, rules rs =
    ((rs.filter fun r => ¬ r.Hollow).map Rule.solid,
      (rs.flatMap Rule.reached).countP fun x => x.Hollow)
  | [] => rfl
  | r :: rs => by
    rw [rules, rule_eq r, rules_eq_solid rs, List.flatMap_cons, List.countP_append]
    by_cases h : r.Hollow
    · rw [if_pos h, List.filter_cons_of_neg (by simpa using h)]
    · rw [if_neg h, List.filter_cons_of_pos (by simpa using h), List.map_cons]

/-- What is said of a sheet with this number of hollow rules. -/
def messagesOf (n : Nat) : List Message :=
  if n = 0 then [] else [⟨"discard-empty", .warning ("removed " ++ toString n ++ " empty rule(s)")⟩]

theorem run_eq (sheet : Sheet) : run sheet =
    (⟨(sheet.rules.filter fun r => ¬ r.Hollow).map Rule.solid⟩,
      messagesOf (sheet.reached.countP fun r => r.Hollow)) := by
  rw [run, rules_eq_solid]
  rfl

/-- In what is left of a sheet, the rules that are reached are those that were reached before and
were not hollow. -/
theorem reached_discard (sheet : Sheet) : sheet.discard.reached =
    (sheet.reached.filter fun r => ¬ r.Hollow).map Rule.solid := by
  rw [Sheet.discard, run_eq, Sheet.reached, Sheet.reached]
  generalize sheet.rules = rs
  induction rs with
  | nil => rfl
  | cons r rs ih =>
    rw [List.flatMap_cons, List.filter_append, List.map_append, ← ih]
    by_cases h : r.Hollow
    · rw [List.filter_cons_of_neg (by simpa using h), filter_reached_of_hollow h, List.map_nil,
        List.nil_append]
    · rw [List.filter_cons_of_pos (by simpa using h), List.map_cons, List.flatMap_cons,
        reached_solid h]

theorem countP_hollow_discard (sheet : Sheet) :
    sheet.discard.reached.countP (fun r => r.Hollow) = 0 := by
  rw [reached_discard, List.countP_eq_zero]
  intro x hx
  obtain ⟨r, hr, rfl⟩ := List.mem_map.1 hx
  simpa [hollow_solid_iff] using (List.mem_filter.1 hr).2

/-- Discarding removes the hollow rules of a sheet, those within other rules included, and leaves
all else as it is and in its order: the rules that are reached in the sheet that is left are those
that were reached and not hollow. There is one warning of how many hollow rules there were, and no
message if there was none. What is left has no hollow rule, and to discard once more changes nothing
and says nothing. -/
theorem run_discards_hollow (sheet : Sheet) :
    (run sheet).1.rules = (sheet.rules.filter fun r => ¬ r.Hollow).map Rule.solid ∧
      (run sheet).1.reached = (sheet.reached.filter fun r => ¬ r.Hollow).map Rule.solid ∧
      (run sheet).2 = messagesOf (sheet.reached.countP fun r => r.Hollow) ∧
      run (run sheet).1 = ((run sheet).1, []) := by
  have hagain : run sheet.discard = (sheet.discard, []) := by
    refine Prod.ext sheet.discard_discard ?_
    rw [run_eq, countP_hollow_discard]
    rfl
  exact ⟨by rw [run_eq], reached_discard sheet, by rw [run_eq], hagain⟩

end Discarding

end ScopedStyles
