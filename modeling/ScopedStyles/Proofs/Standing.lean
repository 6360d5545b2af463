import Mathlib.Data.List.Forall2
import ScopedStyles.Proofs.ClassRenaming

/-!
# Scoping and where classes stand

Scoping takes brackets of `:global` away and puts none around anything, so a class that stands
outside of them all still does in the scoped sheet, whatever the classes are renamed to
(`stays_complex`, `stays_target`, `stays_start`). What it was renamed to is said by
`Scope.Renames`.
-/

namespace ScopedStyles.Scoping

open Css

/-- The second row of mentions is the first one again, and what stood outside in it still does. -/
def Stays (ms ms' : List Mention) : Prop :=
  List.Forall₂ (fun m m' => m.standing = .outside → m'.standing = .outside) ms ms'

namespace Stays

variable {ms ms' ms'' : List Mention}

theorem refl (ms : List Mention) : Stays ms ms :=
  List.forall₂_same.2 fun _ _ h => h

theorem trans (h : Stays ms ms') (h' : Stays ms' ms'') : Stays ms ms'' := by
  induction h generalizing ms'' with
  | nil => exact h'
  | cons hm _ ih =>
    cases h' with
    | cons hm' hs' => exact .cons (hm' ∘ hm) (ih hs')

theorem append {ns ns' : List Mention} (h : Stays ms ms') (h' : Stays ns ns') :
    Stays (ms ++ ns) (ms' ++ ns') :=
  List.rel_append h h'

/-- Outside of further brackets only what was outside can be outside, and only if the brackets are
not those of `:global`; there it is what it was. -/
theorem map {f g : Mention → Mention} (h : Stays ms ms')
    (hf : ∀ m m' : Mention, (f m).standing = .outside →
      (m.standing = .outside → m'.standing = .outside) → (g m').standing = .outside) :
    Stays (ms.map f) (ms'.map g) := by
  refine List.forall₂_map_left_iff.2 (List.forall₂_map_right_iff.2 (h.imp fun m m' hm ho => ?_))
  exact hf m m' ho hm

end Stays

theorem bracketed_outside_iff {pseudo : String} {m : Mention} :
    (m.bracketed pseudo).standing = .outside ↔
      Wrapper.ofName? pseudo ≠ some .global ∧ m.standing = .outside := by
  unfold Mention.bracketed
  split_ifs with h
  · simp [h.1]
  · rw [not_and] at h
    exact ⟨fun ho => ⟨fun hn => h hn ho, ho⟩, And.right⟩

theorem unwrapped_outside_iff {pseudo : String} {m : Mention} :
    (m.unwrapped pseudo).standing = .outside ↔
      Wrapper.ofName? pseudo ≠ some .global ∧ m.standing = .outside := by
  unfold Mention.unwrapped
  split_ifs with h
  · simp [h]
  · exact ⟨fun ho => ⟨h, ho⟩, And.right⟩

namespace Stays

variable {ms ms' : List Mention}

theorem bracketed (pseudo : String) (h : Stays ms ms') :
    Stays (ms.map (Mention.bracketed pseudo)) (ms'.map (Mention.bracketed pseudo)) :=
  h.map fun _ _ ho hm => by
    rw [bracketed_outside_iff] at ho ⊢
    exact ⟨ho.1, hm ho.2⟩

theorem unwrapped (pseudo : String) (h : Stays ms ms') :
    Stays (ms.map (Mention.unwrapped pseudo)) (ms'.map (Mention.unwrapped pseudo)) :=
  h.map fun _ _ ho hm => by
    rw [unwrapped_outside_iff] at ho ⊢
    exact ⟨ho.1, hm ho.2⟩

/-- Brackets may go. -/
theorem of_unwrapped (pseudo : String) (h : Stays ms ms') :
    Stays (ms.map (Mention.unwrapped pseudo)) ms' := by
  rw [← List.map_id ms']
  exact h.map fun _ _ ho hm => hm (unwrapped_outside_iff.1 ho).2

/-- What a condition has outside is outside wherever the condition stands. -/
theorem conditionMentions (c : Simple) : Stays c.mentions (conditionMentions [c]) := by
  by_cases h : c.IsWrapping
  · obtain ⟨n, inner, rfl⟩ := h
    simp only [Css.conditionMentions, Simple.mentions, Args.mentions, List.append_nil]
    exact (refl inner.mentions).map fun _ _ ho hm => by
      rw [bracketed_outside_iff] at ho
      rw [unwrapped_outside_iff]
      exact ⟨ho.1, hm ho.2⟩
  · rw [conditionMentions_cons h, Css.conditionMentions, List.append_nil]
    exact refl _

end Stays

section Children

/-- The mentions have come behind those that were there, and all stay where they stood. -/
def Lengthens (out : List Child) (ms : List Mention) (out' : List Child) : Prop :=
  Stays (rowMentions out ++ ms) (rowMentions out')

namespace Lengthens

variable {out out' out'' : List Child} {ms ms' : List Mention}

theorem refl (out : List Child) : Lengthens out [] out := by
  rw [Lengthens, List.append_nil]
  exact .refl _

theorem trans (h : Lengthens out ms out') (h' : Lengthens out' ms' out'') :
    Lengthens out (ms ++ ms') out'' := by
  rw [Lengthens, ← List.append_assoc]
  exact (Stays.append h (.refl ms')).trans h'

theorem of_rowMentions (h : rowMentions out' = rowMentions out) (h' : Lengthens out' ms out'') :
    Lengthens out ms out'' := by
  rwa [Lengthens, h] at h'

theorem push {c : Simple} (h : Stays ms (conditionMentions [c])) (out : List Child) :
    Lengthens out ms (push (.mk false none [c]) out) := by
  rw [Lengthens, rowMentions_push]
  exact .append (.refl _) h

theorem pushAll {c : ComplexSelector} (h : Stays ms c.mentions) (out : List Child) :
    Lengthens out ms (pushAll c.children out) := by
  rw [Lengthens, rowMentions_pushAll, ← mentions_eq_childMentions]
  exact .append (.refl _) h

end Lengthens

end Children

variable {s : Scope} {α β : Type}

section Selectors

/-- What the action yields is as said, whatever classes were met before. -/
def Yields (P : α → Prop) (act : Renaming α) : Prop := ∀ map, P (act.run map).1

theorem yields_pure {P : α → Prop} {a : α} (h : P a) : Yields P (pure a) := fun _ => h

theorem Yields.bind {P : α → Prop} {Q : β → Prop} {act : Renaming α} {next : α → Renaming β}
    (h : Yields P act) (h' : ∀ a, P a → Yields Q (next a)) : Yields Q (act >>= next) :=
  fun map => h' _ (h map) (act.run map).2

theorem Yields.map {P : α → Prop} {Q : β → Prop} {act : Renaming α} {f : α → β}
    (h : Yields P act) (h' : ∀ a, P a → Q (f a)) : Yields Q (act >>= fun a => pure (f a)) :=
  h.bind fun a ha => yields_pure (h' a ha)

theorem Yields.mono {P Q : α → Prop} {act : Renaming α} (h : Yields P act)
    (h' : ∀ a, P a → Q a) : Yields Q act :=
  fun map => h' _ (h map)

theorem stays_wrapping {n : String} {inner : ComplexSelector} {rest : List Simple}
    (hi : Yields (fun c => Stays inner.mentions c.mentions) (complex s inner))
    (hr : ∀ out, Yields (Lengthens out (conditionMentions rest)) (conditions s rest out))
    (out : List Child) :
    Yields (Lengthens out (conditionMentions (.pseudoClass n (.complex inner) :: rest)))
      (conditions s (.pseudoClass n (.complex inner) :: rest) out) := by
  rw [conditions, conditionMentions]
  rcases Wrapper.ofName? n with _ | _ | _
  · refine hi.bind fun c hc => (hr _).mono fun out' h' => .trans (.push ?_ out) h'
    rw [conditionMentions, conditionMentions, List.append_nil]
    exact hc.unwrapped n
  · exact (hr _).mono fun out' h' => .trans (.pushAll ((Stays.refl _).of_unwrapped n) out) h'
  · exact hi.bind fun c hc => (hr _).mono fun out' h' =>
      .trans (.pushAll (hc.of_unwrapped n) out) h'

theorem stays_plain {c : Simple} {rest : List Simple} (hc : ¬ c.IsWrapping)
    (h : Yields (fun c' => Stays c.mentions c'.mentions) (simple s c))
    (hr : ∀ out, Yields (Lengthens out (conditionMentions rest)) (conditions s rest out))
    (out : List Child) :
    Yields (Lengthens out (conditionMentions (c :: rest))) (conditions s (c :: rest) out) := by
  have heq : conditions s (c :: rest) out =
      simple s c >>= fun c' => conditions s rest (push (.mk false none [c']) out) := by
    rw [conditions]
    rintro n inner rfl
    exact hc ⟨n, inner, rfl⟩
  rw [heq, conditionMentions_cons hc]
  exact h.bind fun c' hc' => (hr _).mono fun out' h' =>
    .trans (.push (hc'.trans (.conditionMentions c')) out) h'

mutual

theorem stays_simple (s : Scope) : ∀ c : Simple,
    Yields (fun c' => Stays c.mentions c'.mentions) (simple s c)
  | .id n => by
    rw [simple]
    exact yields_pure (.refl _)
  | .className n => by
    rw [simple]
    refine Yields.map (P := fun _ => True) (fun _ => trivial) fun n' _ => ?_
    rw [Simple.mentions, Simple.mentions]
    exact List.Forall₂.cons (fun _ => rfl) .nil
  | .attribute a => by
    rw [simple]
    exact yields_pure (.refl _)
  | .pseudoClass n a => by
    rw [simple, Simple.mentions]
    refine (stays_args s a).map fun a' h => ?_
    rw [Simple.mentions]
    exact h.bracketed n
  | .pseudoElement n a => by
    rw [simple, Simple.mentions]
    exact (stays_args s a).map fun a' h => by rwa [Simple.mentions]

theorem stays_args (s : Scope) : ∀ a : Args,
    Yields (fun a' => Stays a.mentions a'.mentions) (args s a)
  | .absent => by
    rw [args]
    exact yields_pure (.refl _)
  | .text t => by
    rw [args]
    exact yields_pure (.refl _)
  | .complex c => by
    rw [args, Args.mentions]
    exact (stays_complex s c).map fun c' h => by rwa [Args.mentions]
  | .compounds cs => by
    rw [args, Args.mentions]
    exact (stays_compounds s cs).map fun cs' h => by rwa [Args.mentions]
  | .list cs => by
    rw [args, Args.mentions]
    exact (stays_complexes s cs).map fun cs' h => by rwa [Args.mentions]
  | .lenient ms => by
    rw [args, Args.mentions]
    exact (stays_members s ms).map fun ms' h => by rwa [Args.mentions]
  | .formula f joint cs => by
    rw [args, Args.mentions]
    exact (stays_complexes s cs).map fun cs' h => by rwa [Args.mentions]

theorem stays_members (s : Scope) : ∀ ms : List Member,
    Yields (fun ms' => Stays (memberMentions ms) (memberMentions ms')) (members s ms)
  | [] => by
    rw [members]
    exact yields_pure (.refl _)
  | .selector c :: ms => by
    rw [members, memberMentions]
    refine (stays_complex s c).bind fun c' h => (stays_members s ms).map fun ms' h' => ?_
    rw [memberMentions]
    exact h.append h'
  | .relative (.mk k c) :: ms => by
    rw [members, memberMentions]
    refine (stays_complex s c).bind fun c' h => (stays_members s ms).map fun ms' h' => ?_
    rw [memberMentions]
    exact h.append h'
  | .raw t :: ms => by
    rw [members, memberMentions]
    exact (stays_members s ms).map fun ms' h' => by rwa [memberMentions]

theorem stays_compound (s : Scope) : ∀ c : Compound,
    Yields (fun c' => Stays c.mentions c'.mentions) (compound s c)
  | .mk n e cs => by
    rw [compound, Compound.mentions]
    exact (stays_simples s cs).map fun cs' h => by rwa [Compound.mentions]

theorem stays_compounds (s : Scope) : ∀ cs : List Compound,
    Yields (fun cs' => Stays (compoundMentions cs) (compoundMentions cs')) (compounds s cs)
  | [] => by
    rw [compounds]
    exact yields_pure (.refl _)
  | c :: rest => by
    rw [compounds, compoundMentions]
    refine (stays_compound s c).bind fun c' h => (stays_compounds s rest).map fun cs' h' => ?_
    rw [compoundMentions]
    exact h.append h'

theorem stays_simples (s : Scope) : ∀ cs : List Simple,
    Yields (fun cs' => Stays (simpleMentions cs) (simpleMentions cs')) (simples s cs)
  | [] => by
    rw [simples]
    exact yields_pure (.refl _)
  | c :: rest => by
    rw [simples, simpleMentions]
    refine (stays_simple s c).bind fun c' h => (stays_simples s rest).map fun cs' h' => ?_
    rw [simpleMentions]
    exact h.append h'

theorem stays_complex (s : Scope) : ∀ c : ComplexSelector,
    Yields (fun c' => Stays c.mentions c'.mentions) (complex s c)
  | .mk cs => by
    rw [complex, ComplexSelector.mentions]
    refine (stays_children s cs []).map fun out h => ?_
    rw [ComplexSelector.mentions]
    exact h

theorem stays_children (s : Scope) : ∀ cs out : List Child,
    Yields (Lengthens out (childMentions cs)) (children s cs out)
  | [], out => by
    rw [children, childMentions]
    exact yields_pure (.refl out)
  | .combinator k :: rest, out => by
    rw [children, childMentions]
    exact (stays_children s rest _).mono fun out' => .of_rowMentions (rowMentions_combinator k out)
  | .compound (.mk n e []) :: rest, out => by
    rw [children, childMentions, conditionMentions, List.nil_append]
    refine (stays_children s rest _).mono fun out' => .of_rowMentions ?_
    rw [rowMentions_push, conditionMentions, List.append_nil]
  | .compound (.mk n e (c :: cs)) :: rest, out => by
    rw [children, childMentions]
    exact (stays_conditions s (c :: cs) _).bind fun out' h =>
      (stays_children s rest out').mono fun out'' h' =>
        .trans (.of_rowMentions (rowMentions_pushHead n e out) h) h'

theorem stays_conditions (s : Scope) : ∀ (cs : List Simple) (out : List Child),
    Yields (Lengthens out (conditionMentions cs)) (conditions s cs out)
  | [], out => by
    rw [conditions, conditionMentions]
    exact yields_pure (.refl out)
  | c :: rest, out => by
    by_cases hc : c.IsWrapping
    · obtain ⟨n, inner, rfl⟩ := hc
      exact stays_wrapping (stays_complex s inner) (stays_conditions s rest) out
    · exact stays_plain hc (stays_simple s c) (stays_conditions s rest) out

theorem stays_complexes (s : Scope) : ∀ cs : List ComplexSelector,
    Yields (fun cs' => Stays (complexMentions cs) (complexMentions cs')) (complexes s cs)
  | [] => by
    rw [complexes]
    exact yields_pure (.refl _)
  | c :: rest => by
    rw [complexes, complexMentions]
    refine (stays_complex s c).bind fun c' h => (stays_complexes s rest).map fun cs' h' => ?_
    rw [complexMentions]
    exact h.append h'

end

end Selectors

section Starts

theorem stays_relatives (s : Scope) : ∀ rs : List Relative,
    Yields (fun rs' => Stays (rs.flatMap Relative.mentions) (rs'.flatMap Relative.mentions))
      (relatives s rs)
  | [] => yields_pure (.refl _)
  | .mk k c :: rs => by
    rw [relatives, List.flatMap_cons, Relative.mentions]
    refine (stays_complex s c).bind fun c' h => (stays_relatives s rs).map fun rs' h' => ?_
    rw [List.flatMap_cons, Relative.mentions]
    exact h.append h'

theorem stays_target (s : Scope) : ∀ t : Target,
    Yields (fun t' => Stays t.mentions t'.mentions) (target s t)
  | .selectors list => (stays_complexes s list).map fun _ h => h
  | .relatives list => (stays_relatives s list).map fun _ h => h

theorem stays_pieces (s : Scope) : ∀ ps : List Piece,
    Yields (fun ps' => Stays (ps.flatMap Piece.mentions) (ps'.flatMap Piece.mentions))
      (pieces s ps)
  | [] => yields_pure (.refl _)
  | .text t :: ps => (stays_pieces s ps).map fun _ h => h
  | .selector c :: ps => by
    rw [pieces, List.flatMap_cons, Piece.mentions]
    refine (stays_complex s c).bind fun c' h => (stays_pieces s ps).map fun ps' h' => ?_
    rw [List.flatMap_cons, Piece.mentions]
    exact h.append h'

theorem stays_start (s : Scope) : ∀ p : Prelude,
    Yields (fun p' => Stays p.mentions p'.mentions) (start s p)
  | .absent => yields_pure (.refl _)
  | .raw _ => yields_pure (.refl _)
  | .known ps => (stays_pieces s ps).map fun _ h => h

end Starts

end ScopedStyles.Scoping
