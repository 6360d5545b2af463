import ScopedStyles.Proofs.StageOrder
import Mathlib.Data.List.Chain

/-!
# What is left of a selector without its wrappers

The combinators of a row of children cut it into stretches, each of which is about one element.
`ComplexSelector.erased` is a selector with its wrappers gone and the classes renamed: what stood in
the brackets of a wrapper has taken its place, so that compounds may stand side by side. Scoping
turns each selector of a sheet into one that has its erased row's stretches, in their order and with
the combinators between them, and one compound at most for each stretch (`run_unwraps`).

A compound has room for one element name. So a stretch whose parts have several keeps the first one
of them and nothing else is lost of it; the selector then applies to more elements than it did
(`element_lost`).
-/

namespace ScopedStyles

open Scoping (Wrapper pushAll)

namespace Css

section Stretches

/-- What is said of one element, between two combinators. -/
structure Stretch where
  nesting : Bool
  elements : List Element
  conditions : List Simple

namespace Stretch

def empty : Stretch := ⟨false, [], []⟩

def add (t : Stretch) (c : Compound) : Stretch :=
  ⟨t.nesting || c.nesting, t.elements ++ c.element.toList, t.conditions ++ c.conditions⟩

/-- The stretch with no element name but the first. -/
def narrowed (t : Stretch) : Stretch := { t with elements := t.elements.take 1 }

end Stretch

/-- A row of children as stretches. -/
structure Reading where
  last : Stretch
  /-- The stretches before it, each with the combinator behind it, the last one first. -/
  before : List (Stretch × Combinator)

namespace Reading

def start : Reading := ⟨.empty, []⟩

def add (r : Reading) : Child → Reading
  | .compound c => { r with last := r.last.add c }
  | .combinator k => ⟨.empty, (r.last, k) :: r.before⟩

def ofRow (row : List Child) : Reading := row.foldl add start

def stretches (r : Reading) : List Stretch := r.last :: r.before.map Prod.fst

def narrowed (r : Reading) : Reading :=
  ⟨r.last.narrowed, r.before.map fun p => (p.1.narrowed, p.2)⟩

end Reading

/-- Two children may stand side by side unless both are compounds. -/
def Child.MayMeet : Child → Child → Prop
  | .compound _, .compound _ => False
  | _, _ => True

end Stretches

section Unwrapped

/-- What stands before the conditions of a compound that has conditions. -/
def headRow (nesting : Bool) (element : Option Element) : List Child :=
  if nesting || element.isSome then [.compound (.mk nesting element [])] else []

mutual

/-- A condition that stays one; the selectors in its brackets are unwrapped. -/
def Simple.unwrapped (f : String → String) : Simple → Simple
  | .id n => .id n
  | .className n => .className (f n)
  | .attribute a => .attribute a
  | .pseudoClass n a => .pseudoClass n (a.unwrapped f)
  | .pseudoElement n a => .pseudoElement n (a.unwrapped f)

def Args.unwrapped (f : String → String) : Args → Args
  | .absent => .absent
  | .text t => .text t
  | .complex c => .complex (c.unwrapped f)
  | .compounds cs => .compounds (unwrappedCompounds f cs)
  | .list cs => .list (unwrappedSelectors f cs)
  | .lenient ms => .lenient (unwrappedMembers f ms)
  | .formula formula joint cs => .formula formula joint (unwrappedSelectors f cs)

def unwrappedMembers (f : String → String) : List Member → List Member
  | [] => []
  | .selector c :: ms => .selector (c.unwrapped f) :: unwrappedMembers f ms
  | .relative (.mk k c) :: ms => .relative (.mk k (c.unwrapped f)) :: unwrappedMembers f ms
  | .raw t :: ms => .raw t :: unwrappedMembers f ms

/-- Of a compound alone in brackets all conditions stay. -/
def Compound.unwrapped (f : String → String) : Compound → Compound
  | .mk n e cs => .mk n e (unwrappedConditions f cs)

def unwrappedCompounds (f : String → String) : List Compound → List Compound
  | [] => []
  | c :: cs => c.unwrapped f :: unwrappedCompounds f cs

def unwrappedConditions (f : String → String) : List Simple → List Simple
  | [] => []
  | c :: cs => c.unwrapped f :: unwrappedConditions f cs

/-- The erased row with compounds that stand side by side made one. -/
def ComplexSelector.unwrapped (f : String → String) : ComplexSelector → ComplexSelector
  | .mk row => .mk (pushAll (erasedRow f row) []).reverse

def unwrappedSelectors (f : String → String) : List ComplexSelector → List ComplexSelector
  | [] => []
  | c :: cs => c.unwrapped f :: unwrappedSelectors f cs

/-- The children with the wrappers erased and the classes outside of `:global` renamed. -/
def ComplexSelector.erased (f : String → String) : ComplexSelector → List Child
  | .mk row => erasedRow f row

def erasedRow (f : String → String) : List Child → List Child
  | [] => []
  | .combinator k :: row => .combinator k :: erasedRow f row
  | .compound (.mk n e []) :: row => .compound (.mk n e []) :: erasedRow f row
  | .compound (.mk n e (c :: cs)) :: row =>
    headRow n e ++ erasedConditions f (c :: cs) ++ erasedRow f row

/-- What is in the brackets of a `:global` is taken as it stands. -/
def erasedConditions (f : String → String) : List Simple → List Child
  | [] => []
  | .pseudoClass n (.complex inner) :: cs =>
    (match Wrapper.ofName? n with
      | some .global => inner.children
      | some .local_ => inner.erased f
      | none => [.compound (.mk false none [.pseudoClass n (.complex (inner.unwrapped f))])]) ++
      erasedConditions f cs
  | c :: cs => .compound (.mk false none [c.unwrapped f]) :: erasedConditions f cs

end

def Relative.mapSelectors (g : ComplexSelector → ComplexSelector) : Relative → Relative
  | .mk k c => .mk k (g c)

def Target.mapSelectors (g : ComplexSelector → ComplexSelector) : Target → Target
  | .selectors list => .selectors (list.map g)
  | .relatives list => .relatives (list.map (Relative.mapSelectors g))

def Piece.mapSelectors (g : ComplexSelector → ComplexSelector) : Piece → Piece
  | .text t => .text t
  | .selector c => .selector (g c)

def Prelude.mapSelectors (g : ComplexSelector → ComplexSelector) : Prelude → Prelude
  | .known ps => .known (ps.map (Piece.mapSelectors g))
  | p => p

mutual

def Rule.mapSelectors (g : ComplexSelector → ComplexSelector) : Rule → Rule
  | .style t block => .style (t.mapSelectors g) (mapBlock g block)
  | .atBlock n p block => .atBlock n (p.mapSelectors g) (mapBlock g block)
  | .statement n p => .statement n (p.mapSelectors g)

def Item.mapSelectors (g : ComplexSelector → ComplexSelector) : Item → Item
  | .declaration d => .declaration d
  | .rule r => .rule (r.mapSelectors g)
  | .keyframe selectors block => .keyframe selectors (mapBlock g block)
  | .raw t => .raw t

def mapBlock (g : ComplexSelector → ComplexSelector) : List Item → List Item
  | [] => []
  | i :: rest => i.mapSelectors g :: mapBlock g rest

end

/-- The sheet with another selector in the place of each one in a rule or a prelude. -/
def Sheet.mapSelectors (g : ComplexSelector → ComplexSelector) (sheet : Sheet) : Sheet :=
  ⟨sheet.rules.map (Rule.mapSelectors g)⟩

theorem erasedConditions_cons {c : Simple} (h : ¬ c.IsWrapping) (f : String → String)
    (cs : List Simple) : erasedConditions f (c :: cs) =
      .compound (.mk false none [c.unwrapped f]) :: erasedConditions f cs := by
  rw [erasedConditions]
  rintro n inner rfl
  exact h ⟨n, inner, rfl⟩

theorem ComplexSelector.unwrapped_eq (f : String → String) (c : ComplexSelector) :
    c.unwrapped f = .mk (pushAll (c.erased f) []).reverse := by
  rcases c with ⟨row⟩
  rw [unwrapped, erased]

theorem unwrappedSelectors_eq_map (f : String → String) (cs : List ComplexSelector) :
    unwrappedSelectors f cs = cs.map (ComplexSelector.unwrapped f) := by
  induction cs with
  | nil => rw [unwrappedSelectors, List.map_nil]
  | cons c cs ih => rw [unwrappedSelectors, ih, List.map_cons]

end Unwrapped

end Css

namespace Scoping

open Css

section Compounds

theorem pushAll_append : ∀ row row' out : List Child,
    pushAll (row ++ row') out = pushAll row' (pushAll row out)
  | [], _, _ => rfl
  | .combinator k :: row, row', out => pushAll_append row row' (.combinator k :: out)
  | .compound c :: row, row', out => pushAll_append row row' (push c out)

/-- Two compounds pushed one behind the other are pushed as one. -/
theorem push_push : ∀ (c d : Compound) (out : List Child),
    push d (push c out) = push (.mk (c.nesting || d.nesting) (c.element.or d.element)
      (c.conditions ++ d.conditions)) out
  | .mk _ _ _, .mk _ _ _, [] => rfl
  | .mk _ _ _, .mk _ _ _, .combinator _ :: _ => rfl
  | .mk n e cs, .mk n' e' cs', .compound (.mk m a bs) :: out => by
    simp only [push, Compound.nesting, Compound.element, Compound.conditions, Bool.or_assoc,
      Option.or_assoc, List.append_assoc]

theorem pushAll_push_reverse (c : Compound) : ∀ mid out : List Child,
    pushAll (push c mid).reverse out = push c (pushAll mid.reverse out)
  | [], _ => rfl
  | .combinator k :: mid, out => by
    show pushAll (Child.compound c :: .combinator k :: mid).reverse out = _
    rw [List.reverse_cons, pushAll_append]
    rfl
  | .compound d :: mid, out => by
    rw [push, List.reverse_cons, List.reverse_cons, pushAll_append, pushAll_append]
    exact (push_push d c _).symm

/-- Children that were pushed before are pushed as what they have become. -/
theorem pushAll_pushAll : ∀ row mid out : List Child,
    pushAll (pushAll row mid).reverse out = pushAll row (pushAll mid.reverse out)
  | [], _, _ => rfl
  | .combinator k :: row, mid, out => by
    rw [pushAll, pushAll, pushAll_pushAll row, List.reverse_cons, pushAll_append]
    rfl
  | .compound c :: row, mid, out => by
    rw [pushAll, pushAll, pushAll_pushAll row, pushAll_push_reverse]

theorem pushAll_unwrapped (f : String → String) (c : ComplexSelector) (out : List Child) :
    pushAll (c.unwrapped f).children out = pushAll (c.erased f) out := by
  rw [ComplexSelector.unwrapped_eq]
  exact pushAll_pushAll (c.erased f) [] out

theorem pushHead_eq (nesting : Bool) (element : Option Element) (out : List Child) :
    pushHead nesting element out = pushAll (headRow nesting element) out := by
  unfold pushHead headRow
  split_ifs <;> rfl

end Compounds

section Selectors

mutual

theorem unwraps_simple (s : Scope) : ∀ c : Simple, result (simple s c) = c.unwrapped s.scopedName
  | .id n => by
    rw [simple, Simple.unwrapped]
    rfl
  | .className n => by
    rw [simple, Simple.unwrapped, (Scope.Settled.rename n).result_map, result_rename]
  | .attribute a => by
    rw [simple, Simple.unwrapped]
    rfl
  | .pseudoClass n a => by
    rw [simple, Simple.unwrapped, (settled_args s a).result_map, unwraps_args s a]
  | .pseudoElement n a => by
    rw [simple, Simple.unwrapped, (settled_args s a).result_map, unwraps_args s a]

theorem unwraps_args (s : Scope) : ∀ a : Args, result (args s a) = a.unwrapped s.scopedName
  | .absent => by
    rw [args, Args.unwrapped]
    rfl
  | .text t => by
    rw [args, Args.unwrapped]
    rfl
  | .complex c => by
    rw [args, Args.unwrapped, (settled_complex s c).result_map, unwraps_complex s c]
  | .compounds cs => by
    rw [args, Args.unwrapped, (settled_compounds s cs).result_map, unwraps_compounds s cs]
  | .list cs => by
    rw [args, Args.unwrapped, (settled_complexes s cs).result_map, unwraps_complexes s cs]
  | .lenient ms => by
    rw [args, Args.unwrapped, (settled_members s ms).result_map, unwraps_members s ms]
  | .formula f joint cs => by
    rw [args, Args.unwrapped, (settled_complexes s cs).result_map, unwraps_complexes s cs]

theorem unwraps_members (s : Scope) : ∀ ms : List Member,
    result (members s ms) = unwrappedMembers s.scopedName ms
  | [] => by
    rw [members, unwrappedMembers]
    rfl
  | .selector c :: ms => by
    rw [members, unwrappedMembers,
      (settled_complex s c).result_bind fun _ => (settled_members s ms).map,
      (settled_members s ms).result_map, unwraps_complex s c, unwraps_members s ms]
  | .relative (.mk k c) :: ms => by
    rw [members, unwrappedMembers,
      (settled_complex s c).result_bind fun _ => (settled_members s ms).map,
      (settled_members s ms).result_map, unwraps_complex s c, unwraps_members s ms]
  | .raw t :: ms => by
    rw [members, unwrappedMembers, (settled_members s ms).result_map, unwraps_members s ms]

theorem unwraps_compound (s : Scope) : ∀ c : Compound,
    result (compound s c) = c.unwrapped s.scopedName
  | .mk n e cs => by
    rw [compound, Compound.unwrapped, (settled_simples s cs).result_map, unwraps_simples s cs]

theorem unwraps_compounds (s : Scope) : ∀ cs : List Compound,
    result (compounds s cs) = unwrappedCompounds s.scopedName cs
  | [] => by
    rw [compounds, unwrappedCompounds]
    rfl
  | c :: cs => by
    rw [compounds, unwrappedCompounds,
      (settled_compound s c).result_bind fun _ => (settled_compounds s cs).map,
      (settled_compounds s cs).result_map, unwraps_compound s c, unwraps_compounds s cs]

theorem unwraps_simples (s : Scope) : ∀ cs : List Simple,
    result (simples s cs) = unwrappedConditions s.scopedName cs
  | [] => by
    rw [simples, unwrappedConditions]
    rfl
  | c :: cs => by
    rw [simples, unwrappedConditions,
      (settled_simple s c).result_bind fun _ => (settled_simples s cs).map,
      (settled_simples s cs).result_map, unwraps_simple s c, unwraps_simples s cs]

theorem unwraps_complex (s : Scope) : ∀ c : ComplexSelector,
    result (complex s c) = c.unwrapped s.scopedName
  | .mk row => by
    rw [complex, ComplexSelector.unwrapped, (settled_children s row []).result_map,
      unwraps_children s row []]

theorem unwraps_complexes (s : Scope) : ∀ cs : List ComplexSelector,
    result (complexes s cs) = unwrappedSelectors s.scopedName cs
  | [] => by
    rw [complexes, unwrappedSelectors]
    rfl
  | c :: cs => by
    rw [result_complexes_cons, unwrappedSelectors, unwraps_complex s c, unwraps_complexes s cs]

theorem unwraps_children (s : Scope) : ∀ row out : List Child,
    result (children s row out) = pushAll (erasedRow s.scopedName row) out
  | [], out => by
    rw [children, erasedRow]
    rfl
  | .combinator k :: row, out => by
    rw [children, erasedRow, unwraps_children s row]
    rfl
  | .compound (.mk n e []) :: row, out => by
    rw [children, erasedRow, unwraps_children s row]
    rfl
  | .compound (.mk n e (c :: cs)) :: row, out => by
    rw [children, erasedRow,
      (settled_conditions s (c :: cs) _).result_bind fun _ => settled_children s row _,
      unwraps_children s row, unwraps_conditions s (c :: cs), pushHead_eq, pushAll_append,
      pushAll_append]

theorem unwraps_conditions (s : Scope) : ∀ (cs : List Simple) (out : List Child),
    result (conditions s cs out) = pushAll (erasedConditions s.scopedName cs) out
  | [], out => by
    rw [conditions, erasedConditions]
    rfl
  | c :: cs, out => by
    by_cases hc : c.IsWrapping
    · obtain ⟨n, inner, rfl⟩ := hc
      rw [conditions, erasedConditions, pushAll_append]
      rcases Wrapper.ofName? n with _ | _ | _
      · rw [(settled_complex s inner).result_bind fun _ => settled_conditions s cs _,
          unwraps_complex s inner, unwraps_conditions s cs]
        rfl
      · exact unwraps_conditions s cs _
      · rw [(settled_complex s inner).result_bind fun _ => settled_conditions s cs _,
          unwraps_complex s inner, unwraps_conditions s cs, pushAll_unwrapped]
    · rw [conditions, (settled_simple s c).result_bind fun _ => settled_conditions s cs _,
        unwraps_simple s c, unwraps_conditions s cs, erasedConditions_cons hc]
      · rfl
      · rintro n inner rfl
        exact hc ⟨n, inner, rfl⟩

end

end Selectors

section Sheets

theorem unwraps_relatives (s : Scope) : ∀ rs : List Relative,
    result (relatives s rs) = rs.map (Relative.mapSelectors (ComplexSelector.unwrapped s.scopedName))
  | [] => rfl
  | .mk k c :: rs => by
    rw [relatives, (settled_complex s c).result_bind fun _ => (settled_relatives s rs).map,
      (settled_relatives s rs).result_map, unwraps_complex, unwraps_relatives s rs]
    rfl

theorem unwraps_target (s : Scope) : ∀ t : Target,
    result (target s t) = t.mapSelectors (ComplexSelector.unwrapped s.scopedName)
  | .selectors list => by
    rw [target, (settled_complexes s list).result_map, unwraps_complexes, unwrappedSelectors_eq_map]
    rfl
  | .relatives list => by
    rw [target, (settled_relatives s list).result_map, unwraps_relatives]
    rfl

theorem unwraps_pieces (s : Scope) : ∀ ps : List Piece,
    result (pieces s ps) = ps.map (Piece.mapSelectors (ComplexSelector.unwrapped s.scopedName))
  | [] => rfl
  | .text t :: ps => by
    rw [pieces, (settled_pieces s ps).result_map, unwraps_pieces s ps]
    rfl
  | .selector c :: ps => by
    rw [pieces, (settled_complex s c).result_bind fun _ => (settled_pieces s ps).map,
      (settled_pieces s ps).result_map, unwraps_complex, unwraps_pieces s ps]
    rfl

theorem unwraps_start (s : Scope) : ∀ p : Prelude,
    result (start s p) = p.mapSelectors (ComplexSelector.unwrapped s.scopedName)
  | .absent => rfl
  | .raw _ => rfl
  | .known ps => by
    rw [start, (settled_pieces s ps).result_map, unwraps_pieces]
    rfl

mutual

theorem unwraps_rule (s : Scope) : ∀ r : Rule,
    result (rule s r) = r.mapSelectors (ComplexSelector.unwrapped s.scopedName)
  | .style t block => by
    rw [result_rule_style, unwraps_target, unwraps_items s block, Rule.mapSelectors]
  | .atBlock n p block => by
    rw [result_rule_atBlock, unwraps_start, unwraps_items s block, Rule.mapSelectors]
  | .statement n p => by
    rw [result_rule_statement, unwraps_start, Rule.mapSelectors]

theorem unwraps_item (s : Scope) : ∀ i : Item,
    result (item s i) = i.mapSelectors (ComplexSelector.unwrapped s.scopedName)
  | .declaration d => by
    rw [item, Item.mapSelectors]
    rfl
  | .rule r => by
    rw [item, (settled_rule s r).result_map, unwraps_rule s r, Item.mapSelectors]
  | .keyframe selectors block => by
    rw [item, (settled_items s block).result_map, unwraps_items s block, Item.mapSelectors]
  | .raw t => by
    rw [item, Item.mapSelectors]
    rfl

theorem unwraps_items (s : Scope) : ∀ is : List Item,
    result (items s is) = mapBlock (ComplexSelector.unwrapped s.scopedName) is
  | [] => by
    rw [items, mapBlock]
    rfl
  | i :: is => by
    rw [result_items_cons, unwraps_item s i, unwraps_items s is, mapBlock]

end

theorem unwraps_rules (s : Scope) : ∀ rs : List Rule,
    result (rules s rs) = rs.map (Rule.mapSelectors (ComplexSelector.unwrapped s.scopedName))
  | [] => rfl
  | r :: rs => by
    rw [result_rules_cons, unwraps_rule, unwraps_rules s rs, List.map_cons]

end Sheets

end Scoping

namespace Css

namespace Stretch

theorem narrowed_add (t : Stretch) (c : Compound) :
    (t.narrowed.add c).narrowed = (t.add c).narrowed := by
  rcases t with ⟨n, _ | ⟨e, es⟩, cs⟩ <;> simp [narrowed, add]

theorem narrowed_narrowed (t : Stretch) : t.narrowed.narrowed = t.narrowed := by
  simp [narrowed, List.take_take]

theorem narrowed_eq_self {t : Stretch} : t.narrowed = t ↔ t.elements.length ≤ 1 := by
  rcases t with ⟨n, es, cs⟩
  simp only [narrowed, mk.injEq, and_true, true_and]
  constructor
  · intro h
    rw [← h, List.length_take]
    exact Nat.min_le_left _ _
  · exact List.take_of_length_le

/-- A compound that holds what two compounds hold adds what they add, but for an element name of the
second one behind one of the first. -/
theorem narrowed_add_add (t : Stretch) : ∀ c d : Compound,
    ((t.add c).add d).narrowed = (t.add (.mk (c.nesting || d.nesting) (c.element.or d.element)
      (c.conditions ++ d.conditions))).narrowed
  | .mk _ e _, .mk _ _ _ => by
    rcases t with ⟨n, _ | ⟨a, es⟩, cs⟩ <;> rcases e with _ | e <;>
      simp [narrowed, add, Compound.nesting, Compound.element, Compound.conditions, Bool.or_assoc]

end Stretch

namespace Reading

theorem narrowed_add (r : Reading) : ∀ child : Child,
    (r.narrowed.add child).narrowed = (r.add child).narrowed
  | .compound c => by
    simp [narrowed, add, Stretch.narrowed_add, Function.comp_def, Stretch.narrowed_narrowed]
  | .combinator k => by
    simp [narrowed, add, Function.comp_def, Stretch.narrowed_narrowed]

theorem narrowed_foldl : ∀ (row : List Child) {r r' : Reading}, r.narrowed = r'.narrowed →
    (row.foldl add r).narrowed = (row.foldl add r').narrowed
  | [], _, _, h => h
  | child :: row, r, r', h => by
    refine narrowed_foldl row ?_
    rw [← narrowed_add r, h, narrowed_add r']

theorem narrowed_eq_self {r : Reading} :
    r.narrowed = r ↔ ∀ t ∈ r.stretches, t.elements.length ≤ 1 := by
  rcases r with ⟨t, ts⟩
  have hts : (ts.map fun p => (p.1.narrowed, p.2)) = ts ↔ ∀ p ∈ ts, p.1.narrowed = p.1 := by
    conv_lhs => rw [← List.map_id ts, List.map_map, List.map_inj_left]
    simp [Prod.ext_iff]
  simp only [narrowed, stretches, mk.injEq, hts, List.forall_mem_cons, List.forall_mem_map,
    Stretch.narrowed_eq_self]

theorem ofRow_reverse_cons (child : Child) (out : List Child) :
    ofRow (child :: out).reverse = (ofRow out.reverse).add child := by
  rw [List.reverse_cons, ofRow, List.foldl_append]
  rfl

end Reading

end Css

namespace Scoping

open Css

theorem narrowed_push (c : Compound) : ∀ out : List Child,
    (Reading.ofRow (push c out).reverse).narrowed =
      ((Reading.ofRow out.reverse).add (.compound c)).narrowed
  | [] => rfl
  | .combinator k :: out => by
    show (Reading.ofRow (Child.compound c :: .combinator k :: out).reverse).narrowed = _
    rw [Reading.ofRow_reverse_cons]
  | .compound d :: out => by
    rw [push, Reading.ofRow_reverse_cons, Reading.ofRow_reverse_cons]
    simp only [Reading.narrowed, Reading.add, Stretch.narrowed_add_add]

/-- What is pushed is read behind what was there already. -/
theorem narrowed_pushAll : ∀ row out : List Child,
    (Reading.ofRow (pushAll row out).reverse).narrowed =
      (row.foldl Reading.add (Reading.ofRow out.reverse)).narrowed
  | [], _ => rfl
  | .combinator k :: row, out => by
    rw [pushAll, narrowed_pushAll row, Reading.ofRow_reverse_cons]
    rfl
  | .compound c :: row, out => by
    rw [pushAll, narrowed_pushAll row]
    exact Reading.narrowed_foldl row (narrowed_push c out)

section Apart

theorem mayMeet_swap : ∀ {a b : Child}, a.MayMeet b → b.MayMeet a
  | .compound _, .compound _, h => h
  | .compound _, .combinator _, _ => trivial
  | .combinator _, .compound _, _ => trivial
  | .combinator _, .combinator _, _ => trivial

theorem apart_combinator (k : Combinator) : ∀ {out : List Child}, out.IsChain Child.MayMeet →
    (Child.combinator k :: out).IsChain Child.MayMeet
  | [], _ => .singleton _
  | _ :: _, h => .cons_cons trivial h

theorem apart_push (c : Compound) : ∀ {out : List Child}, out.IsChain Child.MayMeet →
    (push c out).IsChain Child.MayMeet
  | [], _ => .singleton _
  | .combinator _ :: _, h => .cons_cons trivial h
  | .compound _ :: [], _ => .singleton _
  | .compound _ :: .combinator _ :: _, .cons_cons _ h => .cons_cons trivial h
  | .compound _ :: .compound _ :: _, .cons_cons h _ => h.elim

theorem apart_pushAll : ∀ (row : List Child) {out : List Child}, out.IsChain Child.MayMeet →
    (pushAll row out).IsChain Child.MayMeet
  | [], _, h => h
  | .combinator k :: row, _, h => apart_pushAll row (apart_combinator k h)
  | .compound c :: row, _, h => apart_pushAll row (apart_push c h)

/-- A stretch that is one compound has one element name at most. -/
theorem narrowed_of_apart : ∀ {out : List Child}, out.IsChain Child.MayMeet →
    (Reading.ofRow out.reverse).narrowed = Reading.ofRow out.reverse
  | [], _ => rfl
  | [.compound (.mk _ none _)], _ => rfl
  | [.compound (.mk _ (some _) _)], _ => rfl
  | .combinator k :: out, h => by
    have ih : (Reading.ofRow out.reverse).narrowed = _ := narrowed_of_apart h.tail
    rw [Reading.ofRow_reverse_cons]
    conv_rhs => rw [← ih]
    rfl
  | .compound (.mk n e cs) :: .combinator k :: out, .cons_cons _ h => by
    -- the combinator starts a stretch, and this compound is all of it
    have ih : (Reading.ofRow out.reverse).narrowed = _ := narrowed_of_apart h.tail
    rw [Reading.ofRow_reverse_cons, Reading.ofRow_reverse_cons]
    conv_rhs => rw [← ih]
    rcases e with _ | e <;> rfl
  | .compound _ :: .compound _ :: _, .cons_cons h _ => h.elim

/-- An unwrapped selector has one compound at most between two combinators, and it has the stretches
of the erased row but for element names behind the first one of a stretch. -/
theorem reading_unwrapped (f : String → String) (c : ComplexSelector) :
    (c.unwrapped f).children.IsChain Child.MayMeet ∧
      Reading.ofRow (c.unwrapped f).children = (Reading.ofRow (c.erased f)).narrowed := by
  have hapart : (pushAll (c.erased f) []).IsChain Child.MayMeet := apart_pushAll _ .nil
  rw [ComplexSelector.unwrapped_eq, ComplexSelector.children]
  constructor
  · rw [List.isChain_reverse]
    exact hapart.imp fun _ _ => mayMeet_swap
  · rw [← narrowed_of_apart hapart]
    exact narrowed_pushAll (c.erased f) []

/-- `.a:global(.b .c).d`: what is around the wrapper joins the first and the last compound in it. -/
example :
    let inner : ComplexSelector := .mk [.compound (.mk false none [.className "b"]),
      .combinator .descendant, .compound (.mk false none [.className "c"])]
    ((ComplexSelector.mk [.compound (.mk false none [.className "a",
      .pseudoClass "global" (.complex inner), .className "d"])]).unwrapped ("s_" ++ ·)).text =
        ".s_a.b .c.s_d" := by
  decide +kernel

/-- Whatever the sheet, the path and the pattern, scoping puts the unwrapped selector in the place of
each selector and changes nothing else. A selector that is unwrapped has the stretches of its row
without wrappers, in their order, with the same combinators between them and as one compound each:
`&` if it was in any part, all conditions in their order, and the first element name. So nothing is
lost, added or doubled exactly if no stretch had two element names. -/
theorem run_unwraps (naming : Naming) (path : Path) (sheet : Sheet) :
    (run naming path sheet).1 =
        sheet.mapSelectors (ComplexSelector.unwrapped (naming.scopedName path)) ∧
      ∀ c : ComplexSelector,
        let unwrapped := (c.unwrapped (naming.scopedName path)).children
        let erased := c.erased (naming.scopedName path)
        unwrapped.IsChain Child.MayMeet ∧
          Reading.ofRow unwrapped = (Reading.ofRow erased).narrowed ∧
          (Reading.ofRow unwrapped = Reading.ofRow erased ↔
            ∀ t ∈ (Reading.ofRow erased).stretches, t.elements.length ≤ 1) := by
  constructor
  · exact congrArg Sheet.mk (unwraps_rules ⟨naming, path⟩ sheet.rules)
  · intro c unwrapped erased
    obtain ⟨hapart, hreading⟩ := reading_unwrapped (naming.scopedName path) c
    refine ⟨hapart, hreading, ?_⟩
    rw [← Reading.narrowed_eq_self, ← hreading]

/-- An element name behind the first one is gone, so that the rule applies to every `div`. A wrapper
in the brackets of a `:global` has become a condition of the selector. -/
theorem element_lost :
    (Pipeline.ofConfig ⟨[.scopeClasses "s_[local]"]⟩).process
        "div:global(span) \x7b color: red \x7d" ⟨"a.sss"⟩ =
      .ok ⟨"div \x7b\n  color: red;\n\x7d", [⟨"css-modules", .exports ⟨[]⟩⟩]⟩ ∧
    (Pipeline.ofConfig ⟨[.scopeClasses "s_[local]"]⟩).process
        ".a:global(:global(.b)) \x7b color: red \x7d" ⟨"a.sss"⟩ =
      .ok ⟨".s_a:global(.b) \x7b\n  color: red;\n\x7d",
        [⟨"css-modules", .exports ⟨[("a", "s_a")]⟩⟩]⟩ := by
  decide +kernel

end Apart

end Scoping

end ScopedStyles
