import Mathlib.Data.List.Forall2
import ScopedStyles.Stage.Discarding
import ScopedStyles.Proofs.Mentions

/-!
# Sheets of one shape

`Sheet.Alike R` says that two sheets have the same rules and members, and that their mentions are
related by `R` one by one. Which rules are empty is seen from the shape alone, so sheets that are
alike stay so when empty rules are discarded (`Sheet.Alike.discard`). What is left mentions no
class that was not mentioned before, in the order in which it was (`Sheet.mentions_discard`), and
has no empty rule that could be discarded again (`Sheet.discard_discard`).
-/

namespace ScopedStyles

namespace Css

mutual

/-- Rules that differ in what they start with at most, where their mentions are related. -/
inductive Rule.Alike (R : Mention → Mention → Prop) : Rule → Rule → Prop
  | style {t t' : Target} {block block' : List Item} :
    List.Forall₂ R t.mentions t'.mentions → BlocksAlike R block block' →
    Rule.Alike R (.style t block) (.style t' block')
  | atBlock {name : String} {p p' : Prelude} {block block' : List Item} :
    List.Forall₂ R p.mentions p'.mentions → BlocksAlike R block block' →
    Rule.Alike R (.atBlock name p block) (.atBlock name p' block')
  | statement {name : String} {p p' : Prelude} :
    List.Forall₂ R p.mentions p'.mentions → Rule.Alike R (.statement name p) (.statement name p')

inductive Item.Alike (R : Mention → Mention → Prop) : Item → Item → Prop
  | declaration (d : Declaration) : Item.Alike R (.declaration d) (.declaration d)
  | rule {r r' : Rule} : Rule.Alike R r r' → Item.Alike R (.rule r) (.rule r')
  | keyframe {selectors : List String} {block block' : List Item} :
    BlocksAlike R block block' →
    Item.Alike R (.keyframe selectors block) (.keyframe selectors block')
  | raw (text : String) : Item.Alike R (.raw text) (.raw text)

inductive BlocksAlike (R : Mention → Mention → Prop) : List Item → List Item → Prop
  | nil : BlocksAlike R [] []
  | cons {i i' : Item} {is is' : List Item} :
    Item.Alike R i i' → BlocksAlike R is is' → BlocksAlike R (i :: is) (i' :: is')

end

def Sheet.Alike (R : Mention → Mention → Prop) (sheet sheet' : Sheet) : Prop :=
  List.Forall₂ (Rule.Alike R) sheet.rules sheet'.rules

variable {R S T : Mention → Mention → Prop}

section Similar

mutual

theorem Rule.Alike.mentions {r r' : Rule} (h : Rule.Alike R r r') :
    List.Forall₂ R r.mentions r'.mentions := by
  cases h with
  | style ht hb =>
    rw [Rule.mentions, Rule.mentions]
    exact List.rel_append ht hb.mentions
  | atBlock hp hb =>
    rw [Rule.mentions, Rule.mentions]
    exact List.rel_append hp hb.mentions
  | statement hp => rwa [Rule.mentions, Rule.mentions]

theorem Item.Alike.mentions {i i' : Item} (h : Item.Alike R i i') :
    List.Forall₂ R i.mentions i'.mentions := by
  cases h with
  | declaration d =>
    rw [Item.mentions]
    exact .nil
  | rule hr =>
    rw [Item.mentions, Item.mentions]
    exact hr.mentions
  | keyframe hb =>
    rw [Item.mentions, Item.mentions]
    exact hb.mentions
  | raw text =>
    rw [Item.mentions]
    exact .nil

theorem BlocksAlike.mentions {is is' : List Item} (h : BlocksAlike R is is') :
    List.Forall₂ R (blockMentions is) (blockMentions is') := by
  cases h with
  | nil => exact .nil
  | cons hi hs =>
    rw [blockMentions, blockMentions]
    exact List.rel_append hi.mentions hs.mentions

end

theorem Sheet.Alike.mentions {sheet sheet' : Sheet} (h : sheet.Alike R sheet') :
    List.Forall₂ R sheet.mentions sheet'.mentions := by
  rw [Sheet.mentions, Sheet.mentions]
  exact List.rel_flatMap h fun _ _ => Rule.Alike.mentions

theorem blockMentions_append : ∀ is js : List Item,
    blockMentions (is ++ js) = blockMentions is ++ blockMentions js
  | [], js => by rw [List.nil_append, blockMentions, List.nil_append]
  | i :: is, js => by
    rw [List.cons_append, blockMentions, blockMentions, blockMentions_append is js,
      List.append_assoc]

theorem BlocksAlike.append {is is' js js' : List Item} (h : BlocksAlike R is is')
    (h' : BlocksAlike R js js') : BlocksAlike R (is ++ js) (is' ++ js') :=
  match h with
  | .nil => h'
  | .cons hi hs => .cons hi (hs.append h')

end Similar

section Composed

theorem forall₂_comp (hT : ∀ m m' m'', R m m' → S m' m'' → T m m'') :
    ∀ {ms ms' ms'' : List Mention}, List.Forall₂ R ms ms' → List.Forall₂ S ms' ms'' →
      List.Forall₂ T ms ms''
  | _, _, _, .nil, .nil => .nil
  | _, _, _, .cons h hs, .cons h' hs' => .cons (hT _ _ _ h h') (forall₂_comp hT hs hs')

mutual

theorem Rule.Alike.comp (hT : ∀ m m' m'', R m m' → S m' m'' → T m m'') {r r' r'' : Rule}
    (h : Rule.Alike R r r') (h' : Rule.Alike S r' r'') : Rule.Alike T r r'' := by
  cases h with
  | style ht hb =>
    cases h' with
    | style ht' hb' => exact .style (forall₂_comp hT ht ht') (hb.comp hT hb')
  | atBlock hp hb =>
    cases h' with
    | atBlock hp' hb' => exact .atBlock (forall₂_comp hT hp hp') (hb.comp hT hb')
  | statement hp =>
    cases h' with
    | statement hp' => exact .statement (forall₂_comp hT hp hp')

theorem Item.Alike.comp (hT : ∀ m m' m'', R m m' → S m' m'' → T m m'') {i i' i'' : Item}
    (h : Item.Alike R i i') (h' : Item.Alike S i' i'') : Item.Alike T i i'' := by
  cases h with
  | declaration d =>
    cases h'
    exact .declaration d
  | rule hr =>
    cases h' with
    | rule hr' => exact .rule (hr.comp hT hr')
  | keyframe hb =>
    cases h' with
    | keyframe hb' => exact .keyframe (hb.comp hT hb')
  | raw text =>
    cases h'
    exact .raw text

theorem BlocksAlike.comp (hT : ∀ m m' m'', R m m' → S m' m'' → T m m'') {is is' is'' : List Item}
    (h : BlocksAlike R is is') (h' : BlocksAlike S is' is'') : BlocksAlike T is is'' := by
  cases h with
  | nil =>
    cases h'
    exact .nil
  | cons hi hs =>
    cases h' with
    | cons hi' hs' => exact .cons (hi.comp hT hi') (hs.comp hT hs')

end

theorem Sheet.Alike.comp (hT : ∀ m m' m'', R m m' → S m' m'' → T m m'')
    {sheet sheet' sheet'' : Sheet} (h : sheet.Alike R sheet') (h' : sheet'.Alike S sheet'') :
    sheet.Alike T sheet'' := by
  unfold Sheet.Alike at *
  generalize sheet.rules = rs at h
  generalize sheet'.rules = rs' at h h'
  generalize sheet''.rules = rs'' at h'
  induction h generalizing rs'' with
  | nil =>
    cases h'
    exact .nil
  | cons hr _ ih =>
    cases h' with
    | cons hr' hs' => exact .cons (hr.comp hT hr') (ih _ hs')

end Composed

end Css

namespace Discarding

open Css

/-- A rule with this block, unless the block is empty. -/
def unlessEmpty (make : List Item → Rule) : List Item → Option Rule
  | [] => none
  | i :: is => some (make (i :: is))

theorem unlessEmpty_eq_some {make : List Item → Rule} {r : Rule} {is : List Item} :
    unlessEmpty make is = some r ↔ is ≠ [] ∧ make is = r := by
  rcases is with _ | ⟨i, is⟩ <;> simp [unlessEmpty]

/-- What is left of a member of a block. -/
def kept : Item → List Item
  | .declaration d => [.declaration d]
  | .rule r => ((rule r).1.map Item.rule).toList
  | .keyframe selectors block => [.keyframe selectors block]
  | .raw text => [.raw text]

theorem rule_style (t : Target) (block : List Item) :
    (rule (.style t block)).1 = unlessEmpty (.style t) (items block).1 := by
  rw [rule]
  rcases items block with ⟨_ | ⟨i, is⟩, n⟩ <;> rfl

theorem rule_atBlock (name : String) (p : Prelude) (block : List Item) :
    (rule (.atBlock name p block)).1 = unlessEmpty (.atBlock name p) (items block).1 := by
  rw [rule]
  rcases items block with ⟨_ | ⟨i, is⟩, n⟩ <;> rfl

theorem items_cons (i : Item) (is : List Item) : (items (i :: is)).1 = kept i ++ (items is).1 := by
  rcases i with d | r | ⟨selectors, block⟩ | text <;> rw [items]
  · rfl
  · rw [kept]
    rcases rule r with ⟨_ | r', n⟩ <;> rfl
  · rfl
  · rfl

theorem items_append : ∀ is js : List Item,
    (items (is ++ js)).1 = (items is).1 ++ (items js).1
  | [], js => by
    rw [List.nil_append, items, List.nil_append]
  | i :: is, js => by
    rw [List.cons_append, items_cons, items_cons, items_append is js, List.append_assoc]

theorem rules_eq : ∀ rs : List Rule, (rules rs).1 = rs.filterMap fun r => (rule r).1
  | [] => rfl
  | r :: rs => by
    rw [List.filterMap_cons, ← rules_eq rs, rules]
    rcases rule r with ⟨_ | r', n⟩ <;> rfl

mutual

/-- A rule that is left is left as it is the next time. -/
theorem rule_of_rule_eq_some : ∀ {r r' : Rule}, (rule r).1 = some r' → (rule r').1 = some r'
  | .style t block, r', h => by
    rw [rule_style, unlessEmpty_eq_some] at h
    obtain ⟨hne, rfl⟩ := h
    rw [rule_style, items_items block, unlessEmpty_eq_some]
    exact ⟨hne, rfl⟩
  | .atBlock name p block, r', h => by
    rw [rule_atBlock, unlessEmpty_eq_some] at h
    obtain ⟨hne, rfl⟩ := h
    rw [rule_atBlock, items_items block, unlessEmpty_eq_some]
    exact ⟨hne, rfl⟩
  | .statement name p, r', h => by
    rw [rule] at h
    cases h
    rw [rule]

theorem items_items : ∀ is : List Item, (items (items is).1).1 = (items is).1
  | [] => by rw [items, items]
  | i :: is => by
    have hi : (items (kept i)).1 = kept i := items_kept i
    rw [items_cons, items_append, items_items is, hi]

theorem items_kept : ∀ i : Item, (items (kept i)).1 = kept i
  | .declaration d => by rw [kept, items_cons, kept, items, List.append_nil]
  | .rule r => by
    rw [kept]
    rcases h : (rule r).1 with _ | r'
    · rw [Option.map_none, Option.toList_none, items]
    · rw [Option.map_some, Option.toList_some, items_cons, kept, rule_of_rule_eq_some h, items,
        Option.map_some, Option.toList_some, List.append_nil]
  | .keyframe selectors block => by rw [kept, items_cons, kept, items, List.append_nil]
  | .raw text => by rw [kept, items_cons, kept, items, List.append_nil]

end

theorem rules_rules (rs : List Rule) : (rules (rules rs).1).1 = (rules rs).1 := by
  rw [rules_eq rs, rules_eq, List.filterMap_filterMap]
  congr 1
  funext r
  rcases h : (rule r).1 with _ | r'
  · rfl
  · rw [Option.bind_some, rule_of_rule_eq_some h]

mutual

theorem mentions_rule : ∀ {r r' : Rule}, (rule r).1 = some r' → r'.mentions.Sublist r.mentions
  | .style t block, r', h => by
    rw [rule_style, unlessEmpty_eq_some] at h
    obtain ⟨-, rfl⟩ := h
    rw [Rule.mentions, Rule.mentions]
    exact (mentions_items block).append_left _
  | .atBlock name p block, r', h => by
    rw [rule_atBlock, unlessEmpty_eq_some] at h
    obtain ⟨-, rfl⟩ := h
    rw [Rule.mentions, Rule.mentions]
    exact (mentions_items block).append_left _
  | .statement name p, r', h => by
    rw [rule] at h
    cases h
    exact .refl _

theorem mentions_items : ∀ is : List Item,
    (blockMentions (items is).1).Sublist (blockMentions is)
  | [] => by rw [items]
  | i :: is => by
    rw [items_cons, blockMentions_append, blockMentions]
    exact (mentions_kept i).append (mentions_items is)

theorem mentions_kept : ∀ i : Item, (blockMentions (kept i)).Sublist i.mentions
  | .declaration d => by rw [kept, blockMentions, blockMentions, List.append_nil]
  | .rule r => by
    rw [kept, Item.mentions]
    rcases h : (rule r).1 with _ | r'
    · exact List.nil_sublist _
    · rw [Option.map_some, Option.toList_some, blockMentions, blockMentions, Item.mentions,
        List.append_nil]
      exact mentions_rule h
  | .keyframe selectors block => by rw [kept, blockMentions, blockMentions, List.append_nil]
  | .raw text => by rw [kept, blockMentions, blockMentions, List.append_nil]

end

theorem mentions_rules (rs : List Rule) :
    ((rules rs).1.flatMap Rule.mentions).Sublist (rs.flatMap Rule.mentions) := by
  rw [rules_eq]
  induction rs with
  | nil => exact .refl _
  | cons r rs ih =>
    rw [List.filterMap_cons, List.flatMap_cons]
    rcases h : (rule r).1 with _ | r'
    · exact ih.trans (List.sublist_append_right _ _)
    · rw [List.flatMap_cons]
      exact (mentions_rule h).append ih

variable {R : Mention → Mention → Prop}

theorem alike_unlessEmpty {make make' : List Item → Rule} {is is' : List Item}
    (h : BlocksAlike R is is')
    (hm : ∀ {block block'}, BlocksAlike R block block' → Rule.Alike R (make block) (make' block')) :
    Option.Rel (Rule.Alike R) (unlessEmpty make is) (unlessEmpty make' is') := by
  cases h with
  | nil => exact .none
  | cons hi hs => exact .some (hm (.cons hi hs))

mutual

/-- Rules that are alike are both left or both discarded. -/
theorem alike_rule {r r' : Rule} (h : Rule.Alike R r r') :
    Option.Rel (Rule.Alike R) (rule r).1 (rule r').1 := by
  cases h with
  | style ht hb =>
    rw [rule_style, rule_style]
    exact alike_unlessEmpty (alike_items hb) (.style ht)
  | atBlock hp hb =>
    rw [rule_atBlock, rule_atBlock]
    exact alike_unlessEmpty (alike_items hb) (.atBlock hp)
  | statement hp =>
    rw [rule, rule]
    exact .some (.statement hp)

theorem alike_items {is is' : List Item} (h : BlocksAlike R is is') :
    BlocksAlike R (items is).1 (items is').1 := by
  cases h with
  | nil => exact .nil
  | cons hi hs =>
    rw [items_cons, items_cons]
    exact (alike_kept hi).append (alike_items hs)

theorem alike_kept {i i' : Item} (h : Item.Alike R i i') : BlocksAlike R (kept i) (kept i') := by
  cases h with
  | declaration d => exact .cons (.declaration d) .nil
  | @rule r r' hr =>
    have hr := alike_rule hr
    rw [kept, kept]
    generalize (rule r).1 = left, (rule r').1 = left' at hr
    cases hr with
    | none => exact .nil
    | some h => exact .cons (.rule h) .nil
  | keyframe hb => exact .cons (.keyframe hb) .nil
  | raw text => exact .cons (.raw text) .nil

end

end Discarding

namespace Css.Sheet

def discard (sheet : Sheet) : Sheet := (Discarding.run sheet).1

theorem discard_discard (sheet : Sheet) : sheet.discard.discard = sheet.discard :=
  congrArg Sheet.mk (Discarding.rules_rules sheet.rules)

theorem mentions_discard (sheet : Sheet) : sheet.discard.mentions.Sublist sheet.mentions :=
  Discarding.mentions_rules sheet.rules

theorem Alike.discard {R : Mention → Mention → Prop} {sheet sheet' : Sheet}
    (h : sheet.Alike R sheet') : sheet.discard.Alike R sheet'.discard := by
  unfold Sheet.Alike at h
  show List.Forall₂ (Rule.Alike R) (Discarding.rules sheet.rules).1
    (Discarding.rules sheet'.rules).1
  rw [Discarding.rules_eq, Discarding.rules_eq]
  exact List.rel_filterMap (fun _ _ h => Discarding.alike_rule h) h

end Css.Sheet

end ScopedStyles
