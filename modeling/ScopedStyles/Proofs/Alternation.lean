import ScopedStyles.Proofs.Unwrapping

/-!
# Compounds and combinators in turn

A selector is well formed if compounds and combinators take turns in it, a compound first and a
compound last, and no compound is empty. Where a wrapper is dissolved, the compounds at both ends of
what stood in its brackets meet those around it (`Linked`). Compounds that meet are made one, so
what comes of such a row is well formed again (`Linked.alternates_pushAll`). So if all selectors of
a sheet are well formed, those in brackets included, they still are when the sheet is scoped,
however its wrappers are nested (`run_wellFormed`).

What is read need not be well formed within a wrapper: nothing at all may stand there, and a
combinator may end it.
-/

namespace ScopedStyles

open Scoping (push pushAll gather)

namespace Css

section Selectors

def Child.isCompound : Child → Bool
  | .compound _ => true
  | .combinator _ => false

/-- Compounds that are not empty and combinators take turns. -/
structure ComplexSelector.WellFormed (c : ComplexSelector) : Prop where
  starts : ∃ d, c.children.head? = some (.compound d)
  ends : ∃ d, c.children.getLast? = some (.compound d)
  inTurn : c.children.IsChain fun a b => a.isCompound ≠ b.isCompound
  filled : ∀ d, .compound d ∈ c.children → d.isEmpty = false

/-- The row of a well-formed selector, compound by compound. -/
inductive Alternates : List Child → Prop
  | single {c : Compound} (h : c.isEmpty = false) : Alternates [.compound c]
  | cons {c : Compound} {k : Combinator} {row : List Child} (h : c.isEmpty = false)
      (hrow : Alternates row) : Alternates (.compound c :: .combinator k :: row)

namespace Alternates

theorem wellFormed {row : List Child} (h : Alternates row) :
    (ComplexSelector.mk row).WellFormed := by
  induction h with
  | @single c h =>
    refine ⟨⟨c, rfl⟩, ⟨c, rfl⟩, .singleton _, fun d hd => ?_⟩
    cases List.mem_singleton.1 hd
    exact h
  | @cons c k row h hrow ih =>
    obtain ⟨⟨d, hd⟩, ⟨e, he⟩, hturn, hfilled⟩ := ih
    simp only [ComplexSelector.children] at hd he hturn hfilled
    refine ⟨⟨c, rfl⟩, ⟨e, ?_⟩, ?_, fun d hd => ?_⟩
    · simp [ComplexSelector.children, List.getLast?_cons, he]
    · refine .cons_cons (by simp [Child.isCompound]) (hturn.cons fun b hb => ?_)
      rw [hd, Option.mem_some_iff] at hb
      simp [← hb, Child.isCompound]
    · simp only [ComplexSelector.children, List.mem_cons, Child.compound.injEq, reduceCtorEq,
        false_or] at hd
      rcases hd with rfl | hd
      · exact h
      · exact hfilled d hd

theorem append_combinator {row row' : List Child} (h : Alternates row) (k : Combinator)
    (h' : Alternates row') : Alternates (row ++ .combinator k :: row') := by
  induction h with
  | single h => exact .cons h h'
  | cons h _ ih => exact .cons h ih

theorem reverse {row : List Child} (h : Alternates row) : Alternates row.reverse := by
  induction h with
  | single h => exact .single h
  | @cons c k row h _ ih =>
    rw [List.reverse_cons, List.reverse_cons, List.append_assoc]
    exact ih.append_combinator k (.single h)

end Alternates

theorem alternates_of_inTurn : ∀ {row : List Child}, (∃ d, row.head? = some (.compound d)) →
    (∃ d, row.getLast? = some (.compound d)) →
    row.IsChain (fun a b => a.isCompound ≠ b.isCompound) →
    (∀ d, .compound d ∈ row → d.isEmpty = false) → Alternates row
  | [], ⟨_, h⟩, _, _, _ => by cases h
  | .combinator _ :: _, ⟨_, h⟩, _, _, _ => by cases h
  | [.compound c], _, _, _, hfilled => .single (hfilled c (List.mem_singleton_self _))
  | .compound _ :: .compound _ :: _, _, _, .cons_cons h _, _ => absurd rfl h
  | [.compound _, .combinator _], _, ⟨_, h⟩, _, _ => by cases h
  | .compound _ :: .combinator _ :: .combinator _ :: _, _, _, .cons_cons _ (.cons_cons h _), _ =>
    absurd rfl h
  | .compound c :: .combinator k :: .compound d :: row, _, ⟨e, he⟩, .cons_cons _ h, hfilled => by
    refine .cons (hfilled c List.mem_cons_self)
      (alternates_of_inTurn ⟨d, rfl⟩ ⟨e, ?_⟩ h.tail fun d' hd => ?_)
    · rwa [List.getLast?_cons_cons, List.getLast?_cons_cons] at he
    · exact hfilled d' (List.mem_cons_of_mem _ (List.mem_cons_of_mem _ hd))

theorem wellFormed_iff {c : ComplexSelector} : c.WellFormed ↔ Alternates c.children := by
  obtain ⟨row⟩ := c
  exact ⟨fun h => alternates_of_inTurn h.starts h.ends h.inTurn h.filled, fun h => h.wellFormed⟩

instance decidableAlternates : ∀ row : List Child, Decidable (Alternates row)
  | [.compound c] => decidable_of_iff (c.isEmpty = false) ⟨.single, fun | .single h => h⟩
  | .compound c :: .combinator _ :: row =>
    have := decidableAlternates row
    decidable_of_iff (c.isEmpty = false ∧ Alternates row)
      ⟨fun h => .cons h.1 h.2, fun | .cons h h' => ⟨h, h'⟩⟩
  | [] => isFalse nofun
  | .combinator _ :: _ => isFalse nofun
  | .compound _ :: .compound _ :: _ => isFalse nofun

instance (c : ComplexSelector) : Decidable c.WellFormed := decidable_of_iff' _ wellFormed_iff

end Selectors

section Sheets

mutual

/-- The selectors in the brackets of a condition, at any depth. -/
def Simple.selectors : Simple → List ComplexSelector
  | .id _ | .className _ | .attribute _ => []
  | .pseudoClass _ a | .pseudoElement _ a => a.selectors

def Args.selectors : Args → List ComplexSelector
  | .absent | .text _ => []
  | .complex c => c.selectors
  | .compounds cs => compoundSelectors cs
  | .list cs => complexSelectors cs
  | .lenient ms => memberSelectors ms
  | .formula _ _ cs => complexSelectors cs

def memberSelectors : List Member → List ComplexSelector
  | [] => []
  | .selector c :: ms => c.selectors ++ memberSelectors ms
  | .relative (.mk _ c) :: ms => c.selectors ++ memberSelectors ms
  | .raw _ :: ms => memberSelectors ms

def Compound.selectors : Compound → List ComplexSelector
  | .mk _ _ cs => conditionSelectors cs

def compoundSelectors : List Compound → List ComplexSelector
  | [] => []
  | c :: rest => c.selectors ++ compoundSelectors rest

def conditionSelectors : List Simple → List ComplexSelector
  | [] => []
  | c :: rest => c.selectors ++ conditionSelectors rest

/-- The selector itself and those in its brackets. -/
def ComplexSelector.selectors : ComplexSelector → List ComplexSelector
  | .mk row => .mk row :: childSelectors row

def childSelectors : List Child → List ComplexSelector
  | [] => []
  | .combinator _ :: rest => childSelectors rest
  | .compound (.mk _ _ cs) :: rest => conditionSelectors cs ++ childSelectors rest

def complexSelectors : List ComplexSelector → List ComplexSelector
  | [] => []
  | c :: rest => c.selectors ++ complexSelectors rest

end

def Relative.selector : Relative → ComplexSelector
  | .mk _ c => c

def Target.outermost : Target → List ComplexSelector
  | .selectors list => list
  | .relatives list => list.map Relative.selector

def Piece.outermost : Piece → List ComplexSelector
  | .text _ => []
  | .selector c => [c]

def Prelude.outermost : Prelude → List ComplexSelector
  | .known ps => ps.flatMap Piece.outermost
  | _ => []

mutual

def Rule.outermost : Rule → List ComplexSelector
  | .style target block => target.outermost ++ blockOutermost block
  | .atBlock _ start block => start.outermost ++ blockOutermost block
  | .statement _ start => start.outermost

def Item.outermost : Item → List ComplexSelector
  | .declaration _ => []
  | .rule r => r.outermost
  | .keyframe _ block => blockOutermost block
  | .raw _ => []

def blockOutermost : List Item → List ComplexSelector
  | [] => []
  | i :: rest => i.outermost ++ blockOutermost rest

end

/-- The selectors that stand in a rule or in a prelude and in no brackets of another one. -/
def Sheet.outermost (sheet : Sheet) : List ComplexSelector := sheet.rules.flatMap Rule.outermost

/-- All selectors of a sheet, at any depth. -/
def Sheet.selectors (sheet : Sheet) : List ComplexSelector :=
  sheet.outermost.flatMap ComplexSelector.selectors

theorem conditionSelectors_append : ∀ cs ds : List Simple,
    conditionSelectors (cs ++ ds) = conditionSelectors cs ++ conditionSelectors ds
  | [], ds => by rw [conditionSelectors, List.nil_append, List.nil_append]
  | c :: cs, ds => by
    rw [List.cons_append, conditionSelectors, conditionSelectors, conditionSelectors_append cs,
      List.append_assoc]

theorem childSelectors_eq_gather : ∀ row : List Child,
    childSelectors row = gather conditionSelectors row
  | [] => by rw [childSelectors]; rfl
  | .combinator _ :: row => by rw [childSelectors, childSelectors_eq_gather row]; rfl
  | .compound (.mk _ _ cs) :: row => by rw [childSelectors, childSelectors_eq_gather row]; rfl

theorem childSelectors_append (row row' : List Child) :
    childSelectors (row ++ row') = childSelectors row ++ childSelectors row' := by
  simp only [childSelectors_eq_gather, gather, List.flatMap_append]

section MapSelectors

variable (g : ComplexSelector → ComplexSelector)

theorem Target.outermost_mapSelectors (t : Target) :
    (t.mapSelectors g).outermost = t.outermost.map g := by
  cases t with
  | selectors _ => rfl
  | relatives list =>
    simp only [mapSelectors, outermost, List.map_map]
    refine List.map_congr_left fun r _ => ?_
    cases r
    rfl

theorem Piece.outermost_mapSelectors : ∀ p : Piece,
    (p.mapSelectors g).outermost = p.outermost.map g
  | .text _ => rfl
  | .selector _ => rfl

theorem Prelude.outermost_mapSelectors : ∀ p : Prelude,
    (p.mapSelectors g).outermost = p.outermost.map g
  | .absent => rfl
  | .raw _ => rfl
  | .known ps => by
    simp only [mapSelectors, outermost, List.flatMap_map, List.map_flatMap,
      Piece.outermost_mapSelectors]

mutual

theorem Rule.outermost_mapSelectors : ∀ r : Rule, (r.mapSelectors g).outermost = r.outermost.map g
  | .style t block => by
    rw [Rule.mapSelectors, Rule.outermost, Rule.outermost, List.map_append,
      Target.outermost_mapSelectors, outermost_mapBlock block]
  | .atBlock _ p block => by
    rw [Rule.mapSelectors, Rule.outermost, Rule.outermost, List.map_append,
      Prelude.outermost_mapSelectors, outermost_mapBlock block]
  | .statement _ p => by
    rw [Rule.mapSelectors, Rule.outermost, Rule.outermost, Prelude.outermost_mapSelectors]

theorem Item.outermost_mapSelectors : ∀ i : Item, (i.mapSelectors g).outermost = i.outermost.map g
  | .declaration _ => by rw [Item.mapSelectors, Item.outermost, List.map_nil]
  | .rule r => by
    rw [Item.mapSelectors, Item.outermost, Item.outermost, Rule.outermost_mapSelectors r]
  | .keyframe _ block => by
    rw [Item.mapSelectors, Item.outermost, Item.outermost, outermost_mapBlock block]
  | .raw _ => by rw [Item.mapSelectors, Item.outermost, List.map_nil]

theorem outermost_mapBlock : ∀ block : List Item,
    blockOutermost (mapBlock g block) = (blockOutermost block).map g
  | [] => by rw [mapBlock, blockOutermost, List.map_nil]
  | i :: rest => by
    rw [mapBlock, blockOutermost, blockOutermost, List.map_append, Item.outermost_mapSelectors i,
      outermost_mapBlock rest]

end

theorem Sheet.outermost_mapSelectors (sheet : Sheet) :
    (sheet.mapSelectors g).outermost = sheet.outermost.map g := by
  simp only [mapSelectors, outermost, List.flatMap_map, List.map_flatMap,
    Rule.outermost_mapSelectors]

end MapSelectors

end Sheets

end Css

namespace Scoping

open Css

section Meeting

/-- Compounds that are not empty; two may stand side by side, but not two combinators. -/
inductive Linked : List Child → Prop
  | single {c : Compound} (h : c.isEmpty = false) : Linked [.compound c]
  | meet {c : Compound} {row : List Child} (h : c.isEmpty = false) (hrow : Linked row) :
    Linked (.compound c :: row)
  | combine {c : Compound} {k : Combinator} {row : List Child} (h : c.isEmpty = false)
    (hrow : Linked row) : Linked (.compound c :: .combinator k :: row)

theorem linked_of_alternates {row : List Child} (h : Alternates row) : Linked row := by
  induction h with
  | single h => exact .single h
  | cons h _ ih => exact .combine h ih

theorem Linked.append {row row' : List Child} (h : Linked row) (h' : Linked row') :
    Linked (row ++ row') := by
  induction h with
  | single h => exact .meet h h'
  | meet h _ ih => exact .meet h ih
  | combine h _ ih => exact .combine h ih

theorem Linked.append_combinator {row row' : List Child} (h : Linked row) (k : Combinator)
    (h' : Linked row') : Linked (row ++ .combinator k :: row') := by
  induction h with
  | single h => exact .combine h h'
  | meet h _ ih => exact .meet h ih
  | combine h _ ih => exact .combine h ih

/-- A compound that is not empty can be pushed on these children, which are kept the last one
first. -/
def Takes (out : List Child) : Prop :=
  ∀ {c : Compound}, c.isEmpty = false → Alternates (push c out)

theorem takes_nil : Takes [] := fun h => .single h

theorem takes_combinator (k : Combinator) {out : List Child} (h : Alternates out) :
    Takes (.combinator k :: out) := fun hc => .cons hc h

/-- A compound that another one is added to is not empty for it. -/
theorem isEmpty_join {c d : Compound} (h : c.isEmpty = false) :
    (Compound.mk (c.nesting || d.nesting) (c.element.or d.element)
      (c.conditions ++ d.conditions)).isEmpty = false := by
  rcases c with ⟨_ | _, _ | _, _ | _⟩ <;>
    simp_all [Compound.isEmpty, Compound.nesting, Compound.element, Compound.conditions]

theorem takes_of_alternates {out : List Child} (h : Alternates out) : Takes out := by
  intro c _
  -- what is pushed becomes a part of the compound at the end, which is not empty without it
  cases h with
  | single h => exact .single (isEmpty_join h)
  | cons h hrow => exact .cons (isEmpty_join h) hrow

theorem Linked.alternates_pushAll {row out : List Child} (h : Linked row) (hout : Takes out) :
    Alternates (pushAll row out) := by
  induction h generalizing out with
  | single h => exact hout h
  | meet h _ ih => exact ih (takes_of_alternates (hout h))
  | combine h _ ih => exact ih (takes_combinator _ (hout h))

end Meeting

section Unwrapping

/-- These selectors are well formed. -/
def Sound (cs : List ComplexSelector) : Prop := ∀ c ∈ cs, c.WellFormed

theorem sound_nil : Sound [] := List.forall_mem_nil _

theorem sound_append {cs ds : List ComplexSelector} : Sound (cs ++ ds) ↔ Sound cs ∧ Sound ds :=
  List.forall_mem_append

theorem sound_selectors {row : List Child} :
    Sound (ComplexSelector.mk row).selectors ↔ Alternates row ∧ Sound (childSelectors row) := by
  rw [ComplexSelector.selectors, Sound, List.forall_mem_cons, wellFormed_iff]
  rfl

/-- A row that can take the place of a part of a compound. -/
structure Fits (row : List Child) : Prop where
  linked : Linked row
  sound : Sound (childSelectors row)

namespace Fits

variable {row row' : List Child}

theorem append (h : Fits row) (h' : Fits row') : Fits (row ++ row') :=
  ⟨h.linked.append h'.linked, by
    rw [childSelectors_append, sound_append]
    exact ⟨h.sound, h'.sound⟩⟩

theorem append_combinator (h : Fits row) (k : Combinator) (h' : Fits row') :
    Fits (row ++ .combinator k :: row') :=
  ⟨h.linked.append_combinator k h'.linked, by
    rw [childSelectors_append, sound_append, childSelectors]
    exact ⟨h.sound, h'.sound⟩⟩

theorem compound {nesting : Bool} {element : Option Element} {cs : List Simple}
    (h : (Compound.mk nesting element cs).isEmpty = false) (hs : Sound (conditionSelectors cs)) :
    Fits [.compound (.mk nesting element cs)] :=
  ⟨.single h, by
    rw [childSelectors, childSelectors, List.append_nil]
    exact hs⟩

theorem condition {c : Simple} (h : Sound c.selectors) : Fits [.compound (.mk false none [c])] :=
  compound rfl (by
    rw [conditionSelectors, conditionSelectors, List.append_nil]
    exact h)

theorem headRow_append (nesting : Bool) (element : Option Element) (h : Fits row) :
    Fits (headRow nesting element ++ row) := by
  unfold headRow
  split_ifs with hhead
  · refine .append (.compound ?_ (by rw [conditionSelectors]; exact sound_nil)) h
    rcases nesting with _ | _ <;> rcases element with _ | e <;>
      simp_all [Compound.isEmpty, Compound.nesting, Compound.element]
  · exact h

theorem append_erased {f : String → String} {cs : List Simple} (h : Fits row)
    (h' : cs = [] ∨ Fits (erasedConditions f cs)) : Fits (row ++ erasedConditions f cs) := by
  rcases h' with rfl | h'
  · rwa [erasedConditions, List.append_nil]
  · exact h.append h'

theorem of_selectors : ∀ {c : ComplexSelector}, Sound c.selectors → Fits c.children
  | .mk _, h => ⟨linked_of_alternates (sound_selectors.1 h).1, (sound_selectors.1 h).2⟩

/-- With compounds that stand side by side made one the row is well formed. -/
theorem sound_pushAll (h : Fits row) :
    Sound (ComplexSelector.mk (pushAll row []).reverse).selectors := by
  rw [sound_selectors, childSelectors_eq_gather, gather_pushAll conditionSelectors_append,
    ← childSelectors_eq_gather]
  refine ⟨(h.linked.alternates_pushAll takes_nil).reverse, ?_⟩
  rw [List.reverse_nil, childSelectors, List.nil_append, ← childSelectors_eq_gather]
  exact h.sound

end Fits

theorem erasedRow_cons (f : String → String) (c : Compound) (row : List Child) :
    erasedRow f (.compound c :: row) = erasedRow f [.compound c] ++ erasedRow f row := by
  rcases c with ⟨n, e, _ | ⟨c, cs⟩⟩
  · simp only [erasedRow, List.cons_append, List.nil_append]
  · simp only [erasedRow, List.append_nil]

section Sound

variable (f : String → String)

mutual

theorem sound_simple : ∀ c : Simple, Sound c.selectors → Sound (c.unwrapped f).selectors
  | .id _, h => by rwa [Simple.unwrapped]
  | .className _, _ => by
    rw [Simple.unwrapped, Simple.selectors]
    exact sound_nil
  | .attribute _, h => by rwa [Simple.unwrapped]
  | .pseudoClass _ a, h => by
    rw [Simple.selectors] at h
    rw [Simple.unwrapped, Simple.selectors]
    exact sound_args a h
  | .pseudoElement _ a, h => by
    rw [Simple.selectors] at h
    rw [Simple.unwrapped, Simple.selectors]
    exact sound_args a h

theorem sound_args : ∀ a : Args, Sound a.selectors → Sound (a.unwrapped f).selectors
  | .absent, h => by rwa [Args.unwrapped]
  | .text _, h => by rwa [Args.unwrapped]
  | .complex c, h => by
    rw [Args.selectors] at h
    rw [Args.unwrapped, Args.selectors]
    exact sound_complex c h
  | .compounds cs, h => by
    rw [Args.selectors] at h
    rw [Args.unwrapped, Args.selectors]
    exact sound_compounds cs h
  | .list cs, h => by
    rw [Args.selectors] at h
    rw [Args.unwrapped, Args.selectors]
    exact sound_complexes cs h
  | .lenient ms, h => by
    rw [Args.selectors] at h
    rw [Args.unwrapped, Args.selectors]
    exact sound_members ms h
  | .formula _ _ cs, h => by
    rw [Args.selectors] at h
    rw [Args.unwrapped, Args.selectors]
    exact sound_complexes cs h

theorem sound_members : ∀ ms : List Member,
    Sound (memberSelectors ms) → Sound (memberSelectors (unwrappedMembers f ms))
  | [], h => by rwa [unwrappedMembers]
  | .selector c :: ms, h => by
    rw [memberSelectors, sound_append] at h
    rw [unwrappedMembers, memberSelectors, sound_append]
    exact ⟨sound_complex c h.1, sound_members ms h.2⟩
  | .relative (.mk _ c) :: ms, h => by
    rw [memberSelectors, sound_append] at h
    rw [unwrappedMembers, memberSelectors, sound_append]
    exact ⟨sound_complex c h.1, sound_members ms h.2⟩
  | .raw _ :: ms, h => by
    rw [memberSelectors] at h
    rw [unwrappedMembers, memberSelectors]
    exact sound_members ms h

theorem sound_compound : ∀ c : Compound, Sound c.selectors → Sound (c.unwrapped f).selectors
  | .mk _ _ cs, h => by
    rw [Compound.selectors] at h
    rw [Compound.unwrapped, Compound.selectors]
    exact sound_simples cs h

theorem sound_compounds : ∀ cs : List Compound,
    Sound (compoundSelectors cs) → Sound (compoundSelectors (unwrappedCompounds f cs))
  | [], h => by rwa [unwrappedCompounds]
  | c :: cs, h => by
    rw [compoundSelectors, sound_append] at h
    rw [unwrappedCompounds, compoundSelectors, sound_append]
    exact ⟨sound_compound c h.1, sound_compounds cs h.2⟩

theorem sound_simples : ∀ cs : List Simple,
    Sound (conditionSelectors cs) → Sound (conditionSelectors (unwrappedConditions f cs))
  | [], h => by rwa [unwrappedConditions]
  | c :: cs, h => by
    rw [conditionSelectors, sound_append] at h
    rw [unwrappedConditions, conditionSelectors, sound_append]
    exact ⟨sound_simple c h.1, sound_simples cs h.2⟩

theorem sound_complex : ∀ c : ComplexSelector,
    Sound c.selectors → Sound (c.unwrapped f).selectors
  | .mk row, h => by
    rw [sound_selectors] at h
    rw [ComplexSelector.unwrapped]
    exact (fits_row row h.1 h.2).sound_pushAll

theorem sound_complexes : ∀ cs : List ComplexSelector,
    Sound (complexSelectors cs) → Sound (complexSelectors (unwrappedSelectors f cs))
  | [], h => by rwa [unwrappedSelectors]
  | c :: cs, h => by
    rw [complexSelectors, sound_append] at h
    rw [unwrappedSelectors, complexSelectors, sound_append]
    exact ⟨sound_complex c h.1, sound_complexes cs h.2⟩

theorem fits_erased : ∀ c : ComplexSelector, Sound c.selectors → Fits (c.erased f)
  | .mk row, h => by
    rw [sound_selectors] at h
    rw [ComplexSelector.erased]
    exact fits_row row h.1 h.2

theorem fits_row : ∀ row : List Child,
    Alternates row → Sound (childSelectors row) → Fits (erasedRow f row)
  | [.compound (.mk n e cs)], .single h, hs => by
    rw [childSelectors, childSelectors, List.append_nil] at hs
    exact fits_compound (.mk n e cs) h hs
  | .compound (.mk n e cs) :: .combinator k :: row, .cons h hrow, hs => by
    rw [childSelectors, childSelectors, sound_append] at hs
    rw [erasedRow_cons, erasedRow]
    exact (fits_compound (.mk n e cs) h hs.1).append_combinator k (fits_row row hrow hs.2)

theorem fits_compound : ∀ c : Compound, c.isEmpty = false → Sound c.selectors →
    Fits (erasedRow f [.compound c])
  | .mk n e [], h, hs => by
    rw [erasedRow, erasedRow]
    exact .compound h hs
  | .mk n e (c :: cs), _, hs => by
    rw [erasedRow, erasedRow, List.append_nil]
    exact .headRow_append n e ((fits_conditions (c :: cs) hs).resolve_left (List.cons_ne_nil c cs))

theorem fits_conditions : ∀ cs : List Simple, Sound (conditionSelectors cs) →
    cs = [] ∨ Fits (erasedConditions f cs)
  | [], _ => .inl rfl
  | c :: cs, h => by
    rw [conditionSelectors, sound_append] at h
    have hrest : cs = [] ∨ Fits (erasedConditions f cs) := fits_conditions cs h.2
    refine .inr ?_
    by_cases hc : c.IsWrapping
    · obtain ⟨n, inner, rfl⟩ := hc
      have hinner : Sound inner.selectors := by
        have := h.1
        rwa [Simple.selectors, Args.selectors] at this
      rw [erasedConditions]
      refine .append_erased ?_ hrest
      rcases Wrapper.ofName? n with _ | _ | _
      · refine .condition ?_
        rw [Simple.selectors, Args.selectors]
        exact sound_complex inner hinner
      · exact .of_selectors hinner
      · exact fits_erased inner hinner
    · rw [erasedConditions_cons hc]
      exact .append_erased (.condition (sound_simple c h.1)) hrest

end

end Sound

/-- Whatever the path and the pattern, a sheet of well-formed selectors is scoped to one of
well-formed selectors. -/
theorem run_wellFormed (naming : Naming) (path : Path) {sheet : Sheet}
    (h : ∀ c ∈ sheet.selectors, c.WellFormed) :
    ∀ c ∈ (run naming path sheet).1.selectors, c.WellFormed := by
  have hrun : (run naming path sheet).1 =
      sheet.mapSelectors (ComplexSelector.unwrapped (naming.scopedName path)) :=
    congrArg Sheet.mk (unwraps_rules ⟨naming, path⟩ sheet.rules)
  rw [hrun, Sheet.selectors, Sheet.outermost_mapSelectors, List.flatMap_map]
  intro c hc
  obtain ⟨d, hd, hcd⟩ := List.mem_flatMap.1 hc
  have hsound : Sound d.selectors := fun e he => h e (List.mem_flatMap.2 ⟨d, hd, he⟩)
  exact sound_complex _ d hsound c hcd

/-- A rule with wrappers in each other's brackets, at both ends of a compound and in a list. -/
def nestedWrappers : String :=
  "& > .a:global(.b > .c:global(.d)):local(:global(.e) .f).g, :not(:local(.h)+i) \x7b\x7d"

theorem run_wellFormed_of_nested :
    ∃ sheet, Pipeline.read ⟨"a.sss"⟩ nestedWrappers = .ok sheet ∧
      (∀ c ∈ sheet.selectors, c.WellFormed) ∧
      (∀ c ∈ (run ⟨"s_[local]"⟩ ⟨"a.sss"⟩ sheet).1.selectors, c.WellFormed) ∧
      (run ⟨"s_[local]"⟩ ⟨"a.sss"⟩ sheet).1.text =
        "& > .s_a.b > .c:global(.d).e .s_f.s_g, \n:not(.s_h + i) \x7b\x7d" := by
  have hread : (Pipeline.read ⟨"a.sss"⟩ nestedWrappers).toOption.any fun sheet =>
      (∀ c ∈ sheet.selectors, c.WellFormed) ∧ (run ⟨"s_[local]"⟩ ⟨"a.sss"⟩ sheet).1.text =
        "& > .s_a.b > .c:global(.d).e .s_f.s_g, \n:not(.s_h + i) \x7b\x7d" := by
    decide +kernel
  rcases h : Pipeline.read ⟨"a.sss"⟩ nestedWrappers with _ | sheet <;> rw [h] at hread
  · cases hread
  · obtain ⟨hsheet, htext⟩ := of_decide_eq_true hread
    exact ⟨sheet, rfl, hsheet, run_wellFormed _ _ hsheet, htext⟩

/-- What ends in a combinator within a wrapper is read, and there two combinators come to meet. -/
example :
    (Pipeline.ofConfig ⟨[.scopeClasses "s_[local]"]⟩).process
        ".a :global(.b >) .c \x7b color: red \x7d" ⟨"a.sss"⟩ =
      .ok ⟨".s_a .b >  .s_c \x7b\n  color: red;\n\x7d",
        [⟨"css-modules", .exports ⟨[("a", "s_a"), ("c", "s_c")]⟩⟩]⟩ := by
  decide +kernel

end Unwrapping

end Scoping

end ScopedStyles
