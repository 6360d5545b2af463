import ScopedStyles.Pipeline
import ScopedStyles.Proofs.Mentions

/-!
# Renaming classes

Scoping a sheet gives each mention of a class its scoped name, once, and leaves those alone that
stand within dissolved brackets of `:global`; no mention is lost and none changes its turn. The
class map pairs the names that were renamed with their scoped names, in the order in which they
were first met (`scopeClasses_renames`).

`Scope.Meets` says which mentions an action goes through, whatever was met before it. Children on
their way into a complex selector are kept the last one first, so they are looked at from behind
(`classNames`).
-/

namespace ScopedStyles.Scoping

open Css

namespace Scope

def scopedName (s : Scope) (name : String) : String := s.naming.scopedName s.path name

/-- What becomes of the name of a mention. -/
def nameOf (s : Scope) (m : Mention) : String :=
  if m.standing = .dissolved then m.name else s.scopedName m.name

/-- The class map when these names were met one after the other. -/
def mapOf (s : Scope) (met : List String) : ClassMap :=
  ⟨met.eraseDups.map fun name => (name, s.scopedName name)⟩

end Scope

/-- The names that are renamed, in order. -/
def renamed (ms : List Mention) : List String :=
  (ms.filter fun m => m.standing ≠ .dissolved).map Mention.name

variable {s : Scope} {α β : Type}

section Maps

theorem lookup_map_pair (f : String → String) (name : String) : ∀ names : List String,
    (names.map fun n => (n, f n)).lookup name = if name ∈ names then some (f name) else none
  | [] => rfl
  | n :: names => by
    rw [List.map_cons, List.lookup_cons, lookup_map_pair f name names]
    by_cases h : name = n
    · simp [h]
    · simp [h, beq_eq_false_iff_ne.2 h]

theorem setPair_of_notMem {name : String} (value : String) : ∀ {pairs : List (String × String)},
    name ∉ pairs.map Prod.fst → ClassMap.setPair name value pairs = pairs ++ [(name, value)]
  | [], _ => rfl
  | (n, v) :: rest, h => by
    rw [List.map_cons, List.mem_cons, not_or] at h
    rw [ClassMap.setPair, if_neg (Ne.symm h.1), setPair_of_notMem value h.2, List.cons_append]

theorem get?_mapOf (s : Scope) (met : List String) (name : String) :
    (s.mapOf met).get? name = if name ∈ met then some (s.scopedName name) else none := by
  simp only [Scope.mapOf, ClassMap.get?, lookup_map_pair, List.mem_eraseDups]

/-- A name that is met takes its scoped name, whether it is known or not. -/
theorem rename_run (s : Scope) (name : String) (met : List String) :
    (s.rename name).run (s.mapOf met) = (s.scopedName name, s.mapOf (met ++ [name])) := by
  show s.rename name (s.mapOf met) = _
  rw [Scope.rename, get?_mapOf]
  by_cases h : name ∈ met
  · simp only [h, if_true, Scope.mapOf, List.eraseDups_append]
    simp [List.removeAll, h]
  · have hnew : name ∉ (s.mapOf met).pairs.map Prod.fst := by
      simpa [Scope.mapOf, Function.comp_def] using h
    simp only [h, if_false, ClassMap.insert, ← Scope.scopedName.eq_def,
      setPair_of_notMem _ hnew]
    simp [Scope.mapOf, List.eraseDups_append, List.removeAll, h, List.eraseDups_cons]

end Maps

section Met

theorem renamed_append (ms ms' : List Mention) :
    renamed (ms ++ ms') = renamed ms ++ renamed ms' := by
  simp only [renamed, List.filter_append, List.map_append]

theorem renamed_bracketed (pseudo : String) (ms : List Mention) :
    renamed (ms.map (Mention.bracketed pseudo)) = renamed ms := by
  induction ms with
  | nil => rfl
  | cons m ms ih =>
    simp only [renamed, List.map_cons, List.filter_cons, ne_eq,
      Mention.bracketed_dissolved_iff] at ih ⊢
    split_ifs
    · rw [List.map_cons, List.map_cons, ih, Mention.bracketed_name]
    · exact ih

theorem renamed_unwrapped {pseudo : String} (h : Wrapper.ofName? pseudo = some .global)
    (ms : List Mention) : renamed (ms.map (Mention.unwrapped pseudo)) = [] := by
  simp [renamed, Mention.unwrapped_standing h]

theorem nameOf_bracketed (s : Scope) (pseudo : String) (m : Mention) :
    s.nameOf (m.bracketed pseudo) = s.nameOf m := by
  simp only [Scope.nameOf, Mention.bracketed_dissolved_iff, Mention.bracketed_name]

/-- Whatever was met before, the action goes through the mentions, and what it yields is as said. -/
def Scope.Meets (s : Scope) (ms : List Mention) (yields : α → Prop) (act : Renaming α) : Prop :=
  ∀ met, ∃ a, act.run (s.mapOf met) = (a, s.mapOf (met ++ renamed ms)) ∧ yields a

theorem meets_pure {yields : α → Prop} {a : α} (h : yields a) : s.Meets [] yields (pure a) :=
  fun met => ⟨a, by rw [renamed, List.filter_nil, List.map_nil, List.append_nil]; rfl, h⟩

theorem Scope.Meets.bind {ms ms' : List Mention} {P : α → Prop} {Q : β → Prop}
    {act : Renaming α} {next : α → Renaming β} (h : s.Meets ms P act)
    (h' : ∀ a, P a → s.Meets ms' Q (next a)) : s.Meets (ms ++ ms') Q (act >>= next) := by
  intro met
  obtain ⟨a, ha, hp⟩ := h met
  obtain ⟨b, hb, hq⟩ := h' a hp (met ++ renamed ms)
  refine ⟨b, ?_, hq⟩
  rw [StateT.run_bind, ha, renamed_append, ← List.append_assoc]
  exact hb

theorem Scope.Meets.map {ms : List Mention} {P : α → Prop} {Q : β → Prop} {act : Renaming α}
    {f : α → β} (h : s.Meets ms P act) (h' : ∀ a, P a → Q (f a)) :
    s.Meets ms Q (act >>= fun a => pure (f a)) := by
  rw [← List.append_nil ms]
  exact h.bind fun a ha => meets_pure (h' a ha)

theorem Scope.Meets.mono {ms : List Mention} {P Q : α → Prop} {act : Renaming α}
    (h : s.Meets ms P act) (h' : ∀ a, P a → Q a) : s.Meets ms Q act := by
  intro met
  obtain ⟨a, ha, hp⟩ := h met
  exact ⟨a, ha, h' a hp⟩

/-- Mentions are met by their renamed names alone. -/
theorem Scope.Meets.congr {ms ms' : List Mention} {P : α → Prop} {act : Renaming α}
    (h : s.Meets ms P act) (h' : renamed ms' = renamed ms) : s.Meets ms' P act := by
  unfold Scope.Meets
  rw [h']
  exact h

theorem map_name_bracketed (pseudo : String) (ms : List Mention) :
    (ms.map (Mention.bracketed pseudo)).map Mention.name = ms.map Mention.name := by
  simp only [List.map_map, Function.comp_def, Mention.bracketed_name]

theorem meets_rename (s : Scope) (name : String) :
    s.Meets [⟨name, .outside⟩] (· = s.scopedName name) (s.rename name) :=
  fun met => ⟨_, rename_run s name met, rfl⟩

/-- The second row of mentions is the first one with the new names. -/
def Scope.Renames (s : Scope) (ms ms' : List Mention) : Prop :=
  ms'.map Mention.name = ms.map s.nameOf

theorem Scope.Renames.append {ms₁ ms₂ ms₁' ms₂' : List Mention} (h₁ : s.Renames ms₁ ms₁')
    (h₂ : s.Renames ms₂ ms₂') : s.Renames (ms₁ ++ ms₂) (ms₁' ++ ms₂') := by
  unfold Scope.Renames at *
  rw [List.map_append, List.map_append, h₁, h₂]

/-- Brackets that stay make no difference to the names. -/
theorem Scope.Renames.bracketed {ms ms' : List Mention} (pseudo : String) (h : s.Renames ms ms') :
    s.Renames ms (ms'.map (Mention.bracketed pseudo)) := by
  unfold Scope.Renames at *
  rw [map_name_bracketed, h]

theorem Scope.Renames.of_bracketed {ms ms' : List Mention} (pseudo : String)
    (h : s.Renames ms ms') : s.Renames (ms.map (Mention.bracketed pseudo)) ms' := by
  unfold Scope.Renames at *
  rw [List.map_map, h]
  exact List.map_congr_left fun m _ => (nameOf_bracketed s pseudo m).symm

/-- Within dissolved brackets of `:global` the names stay. -/
theorem renames_unwrapped (s : Scope) {pseudo : String}
    (h : Wrapper.ofName? pseudo = some .global) (ms : List Mention) :
    s.Renames (ms.map (Mention.unwrapped pseudo)) ms := by
  unfold Scope.Renames
  rw [List.map_map]
  refine List.map_congr_left fun m _ => ?_
  rw [Function.comp_apply, Scope.nameOf, if_pos (Mention.unwrapped_standing h m),
    Mention.unwrapped_name]

end Met

section Children

/-- What is read off the conditions of the compounds in a row, in order. -/
def gather {γ : Type} (f : List Simple → List γ) (row : List Child) : List γ :=
  row.flatMap fun
    | .compound c => f c.conditions
    | .combinator _ => []

section Gather

variable {γ : Type} {f : List Simple → List γ}

theorem gather_reverse_cons (child : Child) (out : List Child) :
    gather f (child :: out).reverse = gather f out.reverse ++ gather f [child] := by
  simp only [gather, List.reverse_cons, List.flatMap_append]

theorem gather_combinator (k : Combinator) (out : List Child) :
    gather f (.combinator k :: out).reverse = gather f out.reverse := by
  rw [gather_reverse_cons]
  simp [gather]

variable (hf : ∀ cs ds, f (cs ++ ds) = f cs ++ f ds)
include hf

theorem gather_push (nesting : Bool) (element : Option Element) (cs : List Simple) :
    ∀ out : List Child,
      gather f (push (.mk nesting element cs) out).reverse = gather f out.reverse ++ f cs
  | [] => by simp [push, gather, Compound.conditions]
  | .combinator k :: out => by
    rw [push, gather_reverse_cons]
    · simp [gather, Compound.conditions]
    · simp
  | .compound (.mk _ _ ds) :: out => by
    rw [push, gather_reverse_cons, gather_reverse_cons]
    simp [gather, Compound.conditions, hf]

theorem gather_pushAll : ∀ cs out : List Child,
    gather f (pushAll cs out).reverse = gather f out.reverse ++ gather f cs
  | [], out => by simp [pushAll, gather]
  | .combinator k :: cs, out => by
    rw [pushAll, gather_pushAll, gather_combinator]
    simp [gather]
  | .compound (.mk _ _ ds) :: cs, out => by
    rw [pushAll, gather_pushAll, gather_push hf]
    simp [gather, Compound.conditions]

theorem gather_pushHead (nesting : Bool) (element : Option Element) (out : List Child) :
    gather f (pushHead nesting element out).reverse = gather f out.reverse := by
  have hnil : f [] = [] := List.self_eq_append_right.1 (hf [] [])
  unfold pushHead
  split_ifs
  · rw [gather_push hf, hnil, List.append_nil]
  · rfl

end Gather

theorem childMentions_eq_gather : ∀ row : List Child,
    childMentions row = gather conditionMentions row
  | [] => by rw [childMentions]; rfl
  | .combinator _ :: row => by rw [childMentions, childMentions_eq_gather row]; rfl
  | .compound (.mk _ _ cs) :: row => by rw [childMentions, childMentions_eq_gather row]; rfl

/-- The mentions of children that are kept the last one first, the first mention first. -/
def rowMentions (out : List Child) : List Mention := childMentions out.reverse

theorem rowMentions_eq (out : List Child) :
    rowMentions out = gather conditionMentions out.reverse :=
  childMentions_eq_gather _

theorem rowMentions_combinator (k : Combinator) (out : List Child) :
    rowMentions (.combinator k :: out) = rowMentions out := by
  rw [rowMentions_eq, rowMentions_eq, gather_combinator]

theorem rowMentions_push (nesting : Bool) (element : Option Element) (cs : List Simple)
    (out : List Child) :
    rowMentions (push (.mk nesting element cs) out) = rowMentions out ++ conditionMentions cs := by
  rw [rowMentions_eq, rowMentions_eq, gather_push conditionMentions_append]

theorem rowMentions_pushAll (cs out : List Child) :
    rowMentions (pushAll cs out) = rowMentions out ++ childMentions cs := by
  rw [rowMentions_eq, rowMentions_eq, gather_pushAll conditionMentions_append,
    childMentions_eq_gather]

theorem rowMentions_pushHead (nesting : Bool) (element : Option Element) (out : List Child) :
    rowMentions (pushHead nesting element out) = rowMentions out := by
  rw [rowMentions_eq, rowMentions_eq, gather_pushHead conditionMentions_append]

/-- The classes of children that are kept the last one first, the first class first. -/
def classNames (out : List Child) : List String := (childMentions out.reverse).map Mention.name

theorem classNames_eq (out : List Child) : classNames out = (rowMentions out).map Mention.name := rfl

theorem classNames_combinator (k : Combinator) (out : List Child) :
    classNames (.combinator k :: out) = classNames out := by
  rw [classNames_eq, rowMentions_combinator, classNames_eq]

theorem classNames_push (nesting : Bool) (element : Option Element) (cs : List Simple)
    (out : List Child) : classNames (push (.mk nesting element cs) out) =
      classNames out ++ (conditionMentions cs).map Mention.name := by
  rw [classNames_eq, rowMentions_push, List.map_append, classNames_eq]

theorem classNames_pushAll (cs out : List Child) :
    classNames (pushAll cs out) = classNames out ++ (childMentions cs).map Mention.name := by
  rw [classNames_eq, rowMentions_pushAll, List.map_append, classNames_eq]

theorem classNames_pushHead (nesting : Bool) (element : Option Element) (out : List Child) :
    classNames (pushHead nesting element out) = classNames out := by
  rw [classNames_eq, rowMentions_pushHead, classNames_eq]

/-- A row of children with the new names of the mentions behind it. -/
def Scope.Extends (s : Scope) (out : List Child) (ms : List Mention) (out' : List Child) : Prop :=
  classNames out' = classNames out ++ ms.map s.nameOf

theorem Scope.Extends.refl (s : Scope) (out : List Child) : s.Extends out [] out :=
  (List.append_nil _).symm

theorem Scope.Extends.of_classNames {out₁ out₂ out' : List Child} {ms : List Mention}
    (h : s.Extends out₁ ms out') (h' : classNames out₁ = classNames out₂) :
    s.Extends out₂ ms out' := by
  unfold Scope.Extends at *
  rw [h, h']

theorem Scope.Extends.trans {out out' out'' : List Child} {ms ms' : List Mention}
    (h : s.Extends out ms out') (h' : s.Extends out' ms' out'') :
    s.Extends out (ms ++ ms') out'' := by
  unfold Scope.Extends at *
  rw [h', h, List.map_append, List.append_assoc]

theorem mentions_eq_childMentions (c : ComplexSelector) :
    c.mentions = childMentions c.children := by
  rcases c with ⟨cs⟩
  rw [ComplexSelector.mentions, ComplexSelector.children]

theorem extends_push {ms : List Mention} {c : Simple} (h : s.Renames ms c.mentions)
    (out : List Child) : s.Extends out ms (push (.mk false none [c]) out) := by
  rw [Scope.Extends, classNames_push, conditionMentions_names, h]

theorem extends_pushAll {ms : List Mention} {c : ComplexSelector} (h : s.Renames ms c.mentions)
    (out : List Child) : s.Extends out ms (pushAll c.children out) := by
  rw [Scope.Extends, classNames_pushAll, ← mentions_eq_childMentions, h]

end Children

section Selectors

theorem meets_wrapping {n : String} {inner : ComplexSelector} {rest : List Simple}
    (hi : s.Meets inner.mentions (fun c => s.Renames inner.mentions c.mentions) (complex s inner))
    (hr : ∀ out, s.Meets (conditionMentions rest) (s.Extends out (conditionMentions rest))
      (conditions s rest out)) (out : List Child) :
    s.Meets (conditionMentions (.pseudoClass n (.complex inner) :: rest))
      (s.Extends out (conditionMentions (.pseudoClass n (.complex inner) :: rest)))
      (conditions s (.pseudoClass n (.complex inner) :: rest) out) := by
  rw [conditions, conditionMentions]
  have hstay : Wrapper.ofName? n ≠ some .global →
      inner.mentions.map (Mention.unwrapped n) = inner.mentions := fun h => by
    rw [List.map_congr_left fun m _ => Mention.unwrapped_eq_self h m, List.map_id']
  rcases hw : Wrapper.ofName? n with _ | _ | _
  · rw [hstay (by simp [hw])]
    refine hi.bind fun c hc => (hr _).mono fun out' h' => .trans (extends_push ?_ out) h'
    rw [Simple.mentions, Args.mentions]
    exact hc.bracketed n
  · refine ((hr _).mono fun out' h' => .trans (extends_pushAll ?_ out) h').congr ?_
    · rw [renamed_append, renamed_unwrapped hw, List.nil_append]
    · exact renames_unwrapped s hw inner.mentions
  · rw [hstay (by simp [hw])]
    exact hi.bind fun c hc => (hr _).mono fun out' h' => .trans (extends_pushAll hc out) h'

theorem meets_plain {c : Simple} {rest : List Simple} (hc : ¬ c.IsWrapping)
    (h : s.Meets c.mentions (fun c' => s.Renames c.mentions c'.mentions) (simple s c))
    (hr : ∀ out, s.Meets (conditionMentions rest) (s.Extends out (conditionMentions rest))
      (conditions s rest out)) (out : List Child) :
    s.Meets (conditionMentions (c :: rest)) (s.Extends out (conditionMentions (c :: rest)))
      (conditions s (c :: rest) out) := by
  have heq : conditions s (c :: rest) out =
      simple s c >>= fun c' => conditions s rest (push (.mk false none [c']) out) := by
    rw [conditions]
    rintro n inner rfl
    exact hc ⟨n, inner, rfl⟩
  rw [heq, conditionMentions_cons hc]
  exact h.bind fun c' hc' => (hr _).mono fun out' h' => (extends_push hc' out).trans h'

mutual

theorem meets_simple (s : Scope) : ∀ c : Simple,
    s.Meets c.mentions (fun c' => s.Renames c.mentions c'.mentions) (simple s c)
  | .id n => by
    rw [simple, Simple.mentions]
    exact meets_pure rfl
  | .className n => by
    rw [simple, Simple.mentions]
    exact (meets_rename s n).map fun n' hn => by
      rw [Simple.mentions, hn]
      rfl
  | .attribute a => by
    rw [simple, Simple.mentions]
    exact meets_pure rfl
  | .pseudoClass n a => by
    rw [simple, Simple.mentions]
    refine ((meets_args s a).map fun a' h => ?_).congr (renamed_bracketed n _)
    rw [Simple.mentions]
    exact (h.bracketed n).of_bracketed n
  | .pseudoElement n a => by
    rw [simple, Simple.mentions]
    exact (meets_args s a).map fun a' h => by rwa [Simple.mentions]

theorem meets_args (s : Scope) : ∀ a : Args,
    s.Meets a.mentions (fun a' => s.Renames a.mentions a'.mentions) (args s a)
  | .absent => by
    rw [args, Args.mentions]
    exact meets_pure rfl
  | .text t => by
    rw [args, Args.mentions]
    exact meets_pure rfl
  | .complex c => by
    rw [args, Args.mentions]
    exact (meets_complex s c).map fun c' h => by rwa [Args.mentions]
  | .compounds cs => by
    rw [args, Args.mentions]
    exact (meets_compounds s cs).map fun cs' h => by rwa [Args.mentions]
  | .list cs => by
    rw [args, Args.mentions]
    exact (meets_complexes s cs).map fun cs' h => by rwa [Args.mentions]
  | .lenient ms => by
    rw [args, Args.mentions]
    exact (meets_members s ms).map fun ms' h => by rwa [Args.mentions]
  | .formula f joint cs => by
    rw [args, Args.mentions]
    exact (meets_complexes s cs).map fun cs' h => by rwa [Args.mentions]

theorem meets_members (s : Scope) : ∀ ms : List Member,
    s.Meets (memberMentions ms) (fun ms' => s.Renames (memberMentions ms) (memberMentions ms'))
      (members s ms)
  | [] => by
    rw [members, memberMentions]
    exact meets_pure rfl
  | .selector c :: ms => by
    rw [members, memberMentions]
    refine (meets_complex s c).bind fun c' h => (meets_members s ms).map fun ms' h' => ?_
    rw [memberMentions]
    exact h.append h'
  | .relative (.mk k c) :: ms => by
    rw [members, memberMentions]
    refine (meets_complex s c).bind fun c' h => (meets_members s ms).map fun ms' h' => ?_
    rw [memberMentions]
    exact h.append h'
  | .raw t :: ms => by
    rw [members, memberMentions]
    exact (meets_members s ms).map fun ms' h' => by rwa [memberMentions]

theorem meets_compound (s : Scope) : ∀ c : Compound,
    s.Meets c.mentions (fun c' => s.Renames c.mentions c'.mentions) (compound s c)
  | .mk n e cs => by
    rw [compound, Compound.mentions]
    exact (meets_simples s cs).map fun cs' h => by rwa [Compound.mentions]

theorem meets_compounds (s : Scope) : ∀ cs : List Compound,
    s.Meets (compoundMentions cs)
      (fun cs' => s.Renames (compoundMentions cs) (compoundMentions cs')) (compounds s cs)
  | [] => by
    rw [compounds, compoundMentions]
    exact meets_pure rfl
  | c :: rest => by
    rw [compounds, compoundMentions]
    refine (meets_compound s c).bind fun c' h => (meets_compounds s rest).map fun cs' h' => ?_
    rw [compoundMentions]
    exact h.append h'

theorem meets_simples (s : Scope) : ∀ cs : List Simple,
    s.Meets (simpleMentions cs) (fun cs' => s.Renames (simpleMentions cs) (simpleMentions cs'))
      (simples s cs)
  | [] => by
    rw [simples, simpleMentions]
    exact meets_pure rfl
  | c :: rest => by
    rw [simples, simpleMentions]
    refine (meets_simple s c).bind fun c' h => (meets_simples s rest).map fun cs' h' => ?_
    rw [simpleMentions]
    exact h.append h'

theorem meets_complex (s : Scope) : ∀ c : ComplexSelector,
    s.Meets c.mentions (fun c' => s.Renames c.mentions c'.mentions) (complex s c)
  | .mk cs => by
    rw [complex, ComplexSelector.mentions]
    refine (meets_children s cs []).map fun out h => ?_
    rw [ComplexSelector.mentions]
    exact h

theorem meets_children (s : Scope) : ∀ cs out : List Child,
    s.Meets (childMentions cs) (s.Extends out (childMentions cs)) (children s cs out)
  | [], out => by
    rw [children, childMentions]
    exact meets_pure (.refl s out)
  | .combinator k :: rest, out => by
    rw [children, childMentions]
    exact (meets_children s rest _).mono fun out' h => h.of_classNames (classNames_combinator k out)
  | .compound (.mk n e []) :: rest, out => by
    rw [children, childMentions, conditionMentions, List.nil_append]
    refine (meets_children s rest _).mono fun out' h => h.of_classNames ?_
    rw [classNames_push, conditionMentions, List.map_nil, List.append_nil]
  | .compound (.mk n e (c :: cs)) :: rest, out => by
    rw [children, childMentions]
    refine (meets_conditions s (c :: cs) _).bind fun out' h =>
      (meets_children s rest out').mono fun out'' h' => .trans ?_ h'
    exact h.of_classNames (classNames_pushHead n e out)

theorem meets_conditions (s : Scope) : ∀ (cs : List Simple) (out : List Child),
    s.Meets (conditionMentions cs) (s.Extends out (conditionMentions cs)) (conditions s cs out)
  | [], out => by
    rw [conditions, conditionMentions]
    exact meets_pure (.refl s out)
  | c :: rest, out => by
    by_cases hc : c.IsWrapping
    · obtain ⟨n, inner, rfl⟩ := hc
      exact meets_wrapping (meets_complex s inner) (meets_conditions s rest) out
    · exact meets_plain hc (meets_simple s c) (meets_conditions s rest) out

theorem meets_complexes (s : Scope) : ∀ cs : List ComplexSelector,
    s.Meets (complexMentions cs) (fun cs' => s.Renames (complexMentions cs) (complexMentions cs'))
      (complexes s cs)
  | [] => by
    rw [complexes, complexMentions]
    exact meets_pure rfl
  | c :: rest => by
    rw [complexes, complexMentions]
    refine (meets_complex s c).bind fun c' h => (meets_complexes s rest).map fun cs' h' => ?_
    rw [complexMentions]
    exact h.append h'

end

end Selectors

section Sheets

theorem meets_relatives (s : Scope) : ∀ rs : List Relative,
    s.Meets (rs.flatMap Relative.mentions)
      (fun rs' => s.Renames (rs.flatMap Relative.mentions) (rs'.flatMap Relative.mentions))
      (relatives s rs)
  | [] => meets_pure rfl
  | .mk k c :: rs => by
    rw [relatives, List.flatMap_cons, Relative.mentions]
    refine (meets_complex s c).bind fun c' h => (meets_relatives s rs).map fun rs' h' => ?_
    rw [List.flatMap_cons, Relative.mentions]
    exact h.append h'

theorem meets_target (s : Scope) : ∀ t : Target,
    s.Meets t.mentions (fun t' => s.Renames t.mentions t'.mentions) (target s t)
  | .selectors list => (meets_complexes s list).map fun _ h => h
  | .relatives list => (meets_relatives s list).map fun _ h => h

theorem meets_pieces (s : Scope) : ∀ ps : List Piece,
    s.Meets (ps.flatMap Piece.mentions)
      (fun ps' => s.Renames (ps.flatMap Piece.mentions) (ps'.flatMap Piece.mentions)) (pieces s ps)
  | [] => meets_pure rfl
  | .text t :: ps => (meets_pieces s ps).map fun _ h => h
  | .selector c :: ps => by
    rw [pieces, List.flatMap_cons, Piece.mentions]
    refine (meets_complex s c).bind fun c' h => (meets_pieces s ps).map fun ps' h' => ?_
    rw [List.flatMap_cons, Piece.mentions]
    exact h.append h'

theorem meets_start (s : Scope) : ∀ p : Prelude,
    s.Meets p.mentions (fun p' => s.Renames p.mentions p'.mentions) (start s p)
  | .absent => meets_pure rfl
  | .raw _ => meets_pure rfl
  | .known ps => (meets_pieces s ps).map fun _ h => h

mutual

theorem meets_rule (s : Scope) : ∀ r : Rule,
    s.Meets r.mentions (fun r' => s.Renames r.mentions r'.mentions) (rule s r)
  | .style t block => by
    rw [rule, Rule.mentions]
    refine (meets_target s t).bind fun t' h => (meets_items s block).map fun block' h' => ?_
    rw [Rule.mentions]
    exact h.append h'
  | .atBlock n p block => by
    rw [rule, Rule.mentions]
    refine (meets_start s p).bind fun p' h => (meets_items s block).map fun block' h' => ?_
    rw [Rule.mentions]
    exact h.append h'
  | .statement n p => by
    rw [rule, Rule.mentions]
    exact (meets_start s p).map fun p' h => by rwa [Rule.mentions]

theorem meets_item (s : Scope) : ∀ i : Item,
    s.Meets i.mentions (fun i' => s.Renames i.mentions i'.mentions) (item s i)
  | .declaration d => by
    rw [item, Item.mentions]
    exact meets_pure rfl
  | .rule r => by
    rw [item, Item.mentions]
    exact (meets_rule s r).map fun r' h => by rwa [Item.mentions]
  | .keyframe selectors block => by
    rw [item, Item.mentions]
    exact (meets_items s block).map fun block' h => by rwa [Item.mentions]
  | .raw t => by
    rw [item, Item.mentions]
    exact meets_pure rfl

theorem meets_items (s : Scope) : ∀ is : List Item,
    s.Meets (blockMentions is) (fun is' => s.Renames (blockMentions is) (blockMentions is'))
      (items s is)
  | [] => by
    rw [items, blockMentions]
    exact meets_pure rfl
  | i :: rest => by
    rw [items, blockMentions]
    refine (meets_item s i).bind fun i' h => (meets_items s rest).map fun is' h' => ?_
    rw [blockMentions]
    exact h.append h'

end

theorem meets_rules (s : Scope) : ∀ rs : List Rule,
    s.Meets (rs.flatMap Rule.mentions)
      (fun rs' => s.Renames (rs.flatMap Rule.mentions) (rs'.flatMap Rule.mentions)) (rules s rs)
  | [] => meets_pure rfl
  | r :: rs => by
    rw [rules, List.flatMap_cons]
    refine (meets_rule s r).bind fun r' h => (meets_rules s rs).map fun rs' h' => ?_
    rw [List.flatMap_cons]
    exact h.append h'

/-- A stage at the end of a pipeline works on the sheet that the stages before it leave, and its
messages come last. -/
theorem run_concat (path : Path) (last : Stage) : ∀ (before : Pipeline) (sheet : Sheet),
    Pipeline.run path (before ++ [last]) sheet = do
      let (sheet, ms) ← Pipeline.run path before sheet
      let (sheet, more) ← last.run path sheet
      return (sheet, ms ++ more)
  | [], sheet => by
    rcases h : last.run path sheet with e | ⟨sheet', ms⟩ <;>
      simp [Pipeline.run, h, bind, Except.bind, pure, Except.pure]
  | stage :: before, sheet => by
    rw [List.cons_append, Pipeline.run, Pipeline.run]
    rcases stage.run path sheet with e | ⟨sheet', ms⟩
    · rfl
    simp only [bind, Except.bind, run_concat path last before sheet']
    rcases Pipeline.run path before sheet' with e | ⟨sheet'', ms'⟩
    · rfl
    simp only [pure, Except.pure]
    rcases last.run path sheet'' with e | ⟨sheet₃, ms''⟩
    · rfl
    · simp only [List.append_assoc]

/-- The classes of a scoped sheet are those of the sheet in their order, each one renamed unless it
stands within dissolved brackets of `:global`. The class map pairs the names renamed with their new
names, in the order in which they are first mentioned. The stage adds one message, which exports
the class map, to those of the stages before it. -/
theorem scopeClasses_renames (naming : Naming) (path : Path) (sheet : Sheet) :
    (run naming path sheet).1.mentions.map Mention.name = sheet.mentions.map (fun m =>
        if m.standing = .dissolved then m.name else naming.scopedName path m.name) ∧
      (run naming path sheet).2 = ⟨scopingStage, .exports
        ⟨((sheet.mentions.filter fun m => m.standing ≠ .dissolved).map Mention.name).eraseDups.map
          fun name => (name, naming.scopedName path name)⟩⟩ ∧
      ∀ (before : Pipeline) (first : Sheet),
        Pipeline.run path (before ++ [.scopeClasses naming]) first = do
          let (last, ms) ← Pipeline.run path before first
          return ((run naming path last).1, ms ++ [(run naming path last).2]) := by
  obtain ⟨rs, hrs, hnames⟩ := meets_rules ⟨naming, path⟩ sheet.rules []
  have hrun : run naming path sheet = (⟨rs⟩, ⟨scopingStage, .exports
      (Scope.mapOf ⟨naming, path⟩ (renamed sheet.mentions))⟩) := by
    have hempty : ClassMap.empty = Scope.mapOf ⟨naming, path⟩ [] := rfl
    rw [run, hempty, hrs]
    rfl
  refine ⟨?_, ?_, fun before first => run_concat path _ before first⟩
  · rw [hrun]
    exact hnames
  · rw [hrun]
    rfl

end Sheets

end ScopedStyles.Scoping
