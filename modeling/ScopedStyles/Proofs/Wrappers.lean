import ScopedStyles.Proofs.ExportedNames

/-!
# Wrappers that are left

`Sheet.wrappings` lists the wrappers of a sheet in document order: each `:global` and `:local` with
selectors in its brackets. Scoping leaves those that stand in a compound alone in brackets, as in
`:host(...)` and `::slotted(...)`, and those within a `:global` that is dissolved, since it moves
what is in there without looking at it; it dissolves all others (`scopeClasses_wrappings`). A sheet
without wrappers at these two kinds of places is left with none, and no class within a `:global` of
it is renamed or exported. Elsewhere a wrapper is left, and a class in it may be renamed
(`wrapper_left`).
-/

namespace ScopedStyles

open Scoping (Wrapper)

namespace Css

/-- A wrapper as a sheet has it, and whether scoping leaves it where it stands. -/
structure Wrapping where
  wrapper : Wrapper
  stays : Bool
deriving DecidableEq, Repr, Inhabited

/-- What a wrapping is behind the brackets of a wrapper that is dissolved. -/
def Wrapping.within : Wrapper → Wrapping → Wrapping
  | .global, w => ⟨w.wrapper, true⟩
  | .local_, w => w

def Args.holdsSelectors : Args → Bool
  | .absent | .text _ => false
  | _ => true

/-- The wrapping that a pseudo-class is in a compound alone in brackets. -/
def Args.wrapping? (pseudo : String) (a : Args) : Option Wrapping :=
  if a.holdsSelectors then (Wrapper.ofName? pseudo).map (⟨·, true⟩) else none

mutual

def Simple.wrappings : Simple → List Wrapping
  | .id _ | .className _ | .attribute _ => []
  | .pseudoClass n a => (a.wrapping? n).toList ++ a.wrappings
  | .pseudoElement _ a => a.wrappings

def Args.wrappings : Args → List Wrapping
  | .absent | .text _ => []
  | .complex c => c.wrappings
  | .compounds cs => compoundWrappings cs
  | .list cs => complexWrappings cs
  | .lenient ms => memberWrappings ms
  | .formula _ _ cs => complexWrappings cs

def memberWrappings : List Member → List Wrapping
  | [] => []
  | .selector c :: ms => c.wrappings ++ memberWrappings ms
  | .relative (.mk _ c) :: ms => c.wrappings ++ memberWrappings ms
  | .raw _ :: ms => memberWrappings ms

/-- Of a compound that stands alone in brackets. -/
def Compound.wrappings : Compound → List Wrapping
  | .mk _ _ cs => simpleWrappings cs

def compoundWrappings : List Compound → List Wrapping
  | [] => []
  | c :: rest => c.wrappings ++ compoundWrappings rest

def simpleWrappings : List Simple → List Wrapping
  | [] => []
  | c :: rest => c.wrappings ++ simpleWrappings rest

def ComplexSelector.wrappings : ComplexSelector → List Wrapping
  | .mk cs => childWrappings cs

def childWrappings : List Child → List Wrapping
  | [] => []
  | .combinator _ :: rest => childWrappings rest
  | .compound (.mk _ _ cs) :: rest => conditionWrappings cs ++ childWrappings rest

/-- Of the conditions of a compound in a complex selector. -/
def conditionWrappings : List Simple → List Wrapping
  | [] => []
  | .pseudoClass n (.complex inner) :: rest =>
    (match Wrapper.ofName? n with
      | some w => ⟨w, false⟩ :: inner.wrappings.map (Wrapping.within w)
      | none => inner.wrappings) ++ conditionWrappings rest
  | c :: rest => c.wrappings ++ conditionWrappings rest

def complexWrappings : List ComplexSelector → List Wrapping
  | [] => []
  | c :: rest => c.wrappings ++ complexWrappings rest

end

def Relative.wrappings : Relative → List Wrapping
  | .mk _ c => c.wrappings

def Target.wrappings : Target → List Wrapping
  | .selectors list => complexWrappings list
  | .relatives list => list.flatMap Relative.wrappings

def Piece.wrappings : Piece → List Wrapping
  | .text _ => []
  | .selector c => c.wrappings

def Prelude.wrappings : Prelude → List Wrapping
  | .known ps => ps.flatMap Piece.wrappings
  | _ => []

mutual

def Rule.wrappings : Rule → List Wrapping
  | .style target block => target.wrappings ++ blockWrappings block
  | .atBlock _ start block => start.wrappings ++ blockWrappings block
  | .statement _ start => start.wrappings

def Item.wrappings : Item → List Wrapping
  | .declaration _ => []
  | .rule r => r.wrappings
  | .keyframe _ block => blockWrappings block
  | .raw _ => []

def blockWrappings : List Item → List Wrapping
  | [] => []
  | i :: rest => i.wrappings ++ blockWrappings rest

end

/-- The wrappers of a sheet, in document order. -/
def Sheet.wrappings (sheet : Sheet) : List Wrapping := sheet.rules.flatMap Rule.wrappings

theorem conditionWrappings_cons {c : Simple} (h : ¬ c.IsWrapping) (rest : List Simple) :
    conditionWrappings (c :: rest) = c.wrappings ++ conditionWrappings rest := by
  rw [conditionWrappings]
  rintro n inner rfl
  exact h ⟨n, inner, rfl⟩

theorem conditionWrappings_append : ∀ cs ds : List Simple,
    conditionWrappings (cs ++ ds) = conditionWrappings cs ++ conditionWrappings ds
  | [], ds => by simp [conditionWrappings]
  | c :: cs, ds => by
    have ih := conditionWrappings_append cs ds
    by_cases h : c.IsWrapping
    · obtain ⟨n, inner, rfl⟩ := h
      simp only [List.cons_append, conditionWrappings, ih, List.append_assoc]
    · rw [List.cons_append, conditionWrappings_cons h, conditionWrappings_cons h, ih,
        List.append_assoc]

theorem Wrapping.within_wrapper (w : Wrapper) (v : Wrapping) : (v.within w).wrapper = v.wrapper := by
  cases w <;> rfl

theorem map_wrapper_within (w : Wrapper) (ws : List Wrapping) :
    (ws.map (Wrapping.within w)).map Wrapping.wrapper = ws.map Wrapping.wrapper := by
  simp only [List.map_map, Function.comp_def, Wrapping.within_wrapper]

/-- Which wrappers a condition has does not depend on where it stands. -/
theorem conditionWrappings_wrappers (c : Simple) :
    (conditionWrappings [c]).map Wrapping.wrapper = c.wrappings.map Wrapping.wrapper := by
  by_cases h : c.IsWrapping
  · obtain ⟨n, inner, rfl⟩ := h
    simp only [conditionWrappings, Simple.wrappings, Args.wrappings, Args.wrapping?,
      Args.holdsSelectors, if_true, List.append_nil, List.map_append]
    rcases Wrapper.ofName? n with _ | w
    · rfl
    · simp [Wrapping.within_wrapper]
  · rw [conditionWrappings_cons h, conditionWrappings, List.append_nil]

end Css

namespace Scoping

open Css

variable {s : Scope}

section Leaving

/-- The second row has the wrappers of the first one that stay. -/
def Leaves (ws ws' : List Wrapping) : Prop :=
  ws'.map Wrapping.wrapper = (ws.filter Wrapping.stays).map Wrapping.wrapper

namespace Leaves

variable {ws ws' vs vs' : List Wrapping}

theorem nil : Leaves [] [] := rfl

theorem append (h : Leaves ws ws') (h' : Leaves vs vs') : Leaves (ws ++ vs) (ws' ++ vs') := by
  unfold Leaves at *
  rw [List.map_append, List.filter_append, List.map_append, h, h']

/-- A wrapper that stays, if there is one, comes before those in its brackets. -/
theorem bracketed {pseudo : String} {a a' : Args} (ha : a'.holdsSelectors = a.holdsSelectors)
    (h : Leaves ws ws') :
    Leaves ((a.wrapping? pseudo).toList ++ ws) ((a'.wrapping? pseudo).toList ++ ws') := by
  refine .append ?_ h
  unfold Args.wrapping?
  rw [ha]
  split_ifs
  · rcases Wrapper.ofName? pseudo with _ | w <;> rfl
  · rfl

/-- Within a `:global` that goes all wrappers stay. -/
theorem global (ws : List Wrapping) :
    Leaves (⟨.global, false⟩ :: ws.map (Wrapping.within .global)) ws := by
  have hall : (ws.map (Wrapping.within .global)).filter Wrapping.stays =
      ws.map (Wrapping.within .global) := by
    rw [List.filter_eq_self]
    simp only [List.mem_map, forall_exists_index, and_imp, forall_apply_eq_imp_iff₂]
    exact fun _ _ => rfl
  unfold Leaves
  rw [List.filter_cons_of_neg (by simp), hall, map_wrapper_within]

theorem local_ (h : Leaves ws ws') :
    Leaves (⟨.local_, false⟩ :: ws.map (Wrapping.within .local_)) ws' := by
  have hid : ws.map (Wrapping.within .local_) = ws := List.map_id ws
  unfold Leaves
  rw [List.filter_cons_of_neg (by simp), hid]
  exact h

end Leaves

/-- The wrappers of children that are kept the last one first, the first wrapper first. -/
def rowWrappers (out : List Child) : List Wrapper :=
  (gather conditionWrappings out.reverse).map Wrapping.wrapper

theorem childWrappings_eq_gather : ∀ row : List Child,
    childWrappings row = gather conditionWrappings row
  | [] => by rw [childWrappings]; rfl
  | .combinator _ :: row => by rw [childWrappings, childWrappings_eq_gather row]; rfl
  | .compound (.mk _ _ cs) :: row => by rw [childWrappings, childWrappings_eq_gather row]; rfl

theorem wrappings_eq_gather (c : ComplexSelector) :
    c.wrappings = gather conditionWrappings c.children := by
  rcases c with ⟨cs⟩
  rw [ComplexSelector.wrappings, childWrappings_eq_gather, ComplexSelector.children]

theorem rowWrappers_push (nesting : Bool) (element : Option Element) (cs : List Simple)
    (out : List Child) : rowWrappers (push (.mk nesting element cs) out) =
      rowWrappers out ++ (conditionWrappings cs).map Wrapping.wrapper := by
  rw [rowWrappers, gather_push conditionWrappings_append, List.map_append, rowWrappers]

theorem rowWrappers_pushAll (c : ComplexSelector) (out : List Child) :
    rowWrappers (pushAll c.children out) =
      rowWrappers out ++ c.wrappings.map Wrapping.wrapper := by
  rw [rowWrappers, gather_pushAll conditionWrappings_append, List.map_append, rowWrappers,
    wrappings_eq_gather]

/-- The wrappers that stay have come behind those that were there. -/
def Keeps (out : List Child) (ws : List Wrapping) (out' : List Child) : Prop :=
  rowWrappers out' = rowWrappers out ++ (ws.filter Wrapping.stays).map Wrapping.wrapper

namespace Keeps

variable {out out' out'' : List Child} {ws ws' : List Wrapping}

theorem refl (out : List Child) : Keeps out [] out := (List.append_nil _).symm

theorem trans (h : Keeps out ws out') (h' : Keeps out' ws' out'') :
    Keeps out (ws ++ ws') out'' := by
  unfold Keeps at *
  rw [h', h, List.filter_append, List.map_append, List.append_assoc]

theorem of_rowWrappers (h : rowWrappers out' = rowWrappers out) (h' : Keeps out' ws out'') :
    Keeps out ws out'' := by
  rwa [Keeps, h] at h'

theorem push {c : Simple} (h : Leaves ws c.wrappings) (out : List Child) :
    Keeps out ws (push (.mk false none [c]) out) := by
  rw [Keeps, rowWrappers_push, conditionWrappings_wrappers, h]

theorem pushAll {c : ComplexSelector} (h : Leaves ws c.wrappings) (out : List Child) :
    Keeps out ws (pushAll c.children out) := by
  rw [Keeps, rowWrappers_pushAll, h]

end Keeps

theorem leaves_wrapping {n : String} {inner : ComplexSelector} {rest : List Simple}
    (hi : Yields (fun c => Leaves inner.wrappings c.wrappings) (complex s inner))
    (hr : ∀ out, Yields (Keeps out (conditionWrappings rest)) (conditions s rest out))
    (out : List Child) :
    Yields (Keeps out (conditionWrappings (.pseudoClass n (.complex inner) :: rest)))
      (conditions s (.pseudoClass n (.complex inner) :: rest) out) := by
  rw [conditions, conditionWrappings]
  rcases hw : Wrapper.ofName? n with _ | _ | _
  · refine hi.bind fun c hc => (hr _).mono fun out' h' => .trans (.push ?_ out) h'
    simpa [Simple.wrappings, Args.wrappings, Args.wrapping?, hw] using hc
  · exact (hr _).mono fun out' h' => .trans (.pushAll (.global _) out) h'
  · exact hi.bind fun c hc => (hr _).mono fun out' h' => .trans (.pushAll hc.local_ out) h'

theorem leaves_plain {c : Simple} {rest : List Simple} (hc : ¬ c.IsWrapping)
    (h : Yields (fun c' => Leaves c.wrappings c'.wrappings) (simple s c))
    (hr : ∀ out, Yields (Keeps out (conditionWrappings rest)) (conditions s rest out))
    (out : List Child) :
    Yields (Keeps out (conditionWrappings (c :: rest))) (conditions s (c :: rest) out) := by
  have heq : conditions s (c :: rest) out =
      simple s c >>= fun c' => conditions s rest (push (.mk false none [c']) out) := by
    rw [conditions]
    rintro n inner rfl
    exact hc ⟨n, inner, rfl⟩
  rw [heq, conditionWrappings_cons hc]
  exact h.bind fun c' hc' => (hr _).mono fun out' h' => .trans (.push hc' out) h'

mutual

theorem leaves_simple (s : Scope) : ∀ c : Simple,
    Yields (fun c' => Leaves c.wrappings c'.wrappings) (simple s c)
  | .id n => by
    rw [simple]
    exact yields_pure .nil
  | .className n => by
    rw [simple]
    exact Yields.map (P := fun _ => True) (fun _ => trivial) fun n' _ => .nil
  | .attribute a => by
    rw [simple]
    exact yields_pure .nil
  | .pseudoClass n a => by
    rw [simple, Simple.wrappings]
    refine (leaves_args s a).map fun a' h => ?_
    rw [Simple.wrappings]
    exact .bracketed h.1 h.2
  | .pseudoElement n a => by
    rw [simple, Simple.wrappings]
    exact (leaves_args s a).map fun a' h => by
      rw [Simple.wrappings]
      exact h.2

theorem leaves_args (s : Scope) : ∀ a : Args,
    Yields (fun a' => a'.holdsSelectors = a.holdsSelectors ∧ Leaves a.wrappings a'.wrappings)
      (args s a)
  | .absent => by
    rw [args]
    exact yields_pure ⟨rfl, .nil⟩
  | .text t => by
    rw [args]
    exact yields_pure ⟨rfl, .nil⟩
  | .complex c => by
    rw [args, Args.wrappings]
    exact (leaves_complex s c).map fun c' h => ⟨rfl, by rwa [Args.wrappings]⟩
  | .compounds cs => by
    rw [args, Args.wrappings]
    exact (leaves_compounds s cs).map fun cs' h => ⟨rfl, by rwa [Args.wrappings]⟩
  | .list cs => by
    rw [args, Args.wrappings]
    exact (leaves_complexes s cs).map fun cs' h => ⟨rfl, by rwa [Args.wrappings]⟩
  | .lenient ms => by
    rw [args, Args.wrappings]
    exact (leaves_members s ms).map fun ms' h => ⟨rfl, by rwa [Args.wrappings]⟩
  | .formula f joint cs => by
    rw [args, Args.wrappings]
    exact (leaves_complexes s cs).map fun cs' h => ⟨rfl, by rwa [Args.wrappings]⟩

theorem leaves_members (s : Scope) : ∀ ms : List Member,
    Yields (fun ms' => Leaves (memberWrappings ms) (memberWrappings ms')) (members s ms)
  | [] => by
    rw [members]
    exact yields_pure .nil
  | .selector c :: ms => by
    rw [members, memberWrappings]
    refine (leaves_complex s c).bind fun c' h => (leaves_members s ms).map fun ms' h' => ?_
    rw [memberWrappings]
    exact h.append h'
  | .relative (.mk k c) :: ms => by
    rw [members, memberWrappings]
    refine (leaves_complex s c).bind fun c' h => (leaves_members s ms).map fun ms' h' => ?_
    rw [memberWrappings]
    exact h.append h'
  | .raw t :: ms => by
    rw [members, memberWrappings]
    exact (leaves_members s ms).map fun ms' h' => by rwa [memberWrappings]

theorem leaves_compound (s : Scope) : ∀ c : Compound,
    Yields (fun c' => Leaves c.wrappings c'.wrappings) (compound s c)
  | .mk n e cs => by
    rw [compound, Compound.wrappings]
    exact (leaves_simples s cs).map fun cs' h => by rwa [Compound.wrappings]

theorem leaves_compounds (s : Scope) : ∀ cs : List Compound,
    Yields (fun cs' => Leaves (compoundWrappings cs) (compoundWrappings cs')) (compounds s cs)
  | [] => by
    rw [compounds]
    exact yields_pure .nil
  | c :: rest => by
    rw [compounds, compoundWrappings]
    refine (leaves_compound s c).bind fun c' h => (leaves_compounds s rest).map fun cs' h' => ?_
    rw [compoundWrappings]
    exact h.append h'

theorem leaves_simples (s : Scope) : ∀ cs : List Simple,
    Yields (fun cs' => Leaves (simpleWrappings cs) (simpleWrappings cs')) (simples s cs)
  | [] => by
    rw [simples]
    exact yields_pure .nil
  | c :: rest => by
    rw [simples, simpleWrappings]
    refine (leaves_simple s c).bind fun c' h => (leaves_simples s rest).map fun cs' h' => ?_
    rw [simpleWrappings]
    exact h.append h'

theorem leaves_complex (s : Scope) : ∀ c : ComplexSelector,
    Yields (fun c' => Leaves c.wrappings c'.wrappings) (complex s c)
  | .mk cs => by
    rw [complex, ComplexSelector.wrappings]
    refine (leaves_children s cs []).map fun out h => ?_
    rw [ComplexSelector.wrappings, Leaves, childWrappings_eq_gather out.reverse]
    exact h

theorem leaves_children (s : Scope) : ∀ cs out : List Child,
    Yields (Keeps out (childWrappings cs)) (children s cs out)
  | [], out => by
    rw [children, childWrappings]
    exact yields_pure (.refl out)
  | .combinator k :: rest, out => by
    rw [children, childWrappings]
    refine (leaves_children s rest _).mono fun out' => .of_rowWrappers ?_
    rw [rowWrappers, gather_combinator, rowWrappers]
  | .compound (.mk n e []) :: rest, out => by
    rw [children, childWrappings, conditionWrappings, List.nil_append]
    refine (leaves_children s rest _).mono fun out' => .of_rowWrappers ?_
    rw [rowWrappers_push, conditionWrappings, List.map_nil, List.append_nil]
  | .compound (.mk n e (c :: cs)) :: rest, out => by
    rw [children, childWrappings]
    refine (leaves_conditions s (c :: cs) _).bind fun out' h =>
      (leaves_children s rest out').mono fun out'' h' => .trans (.of_rowWrappers ?_ h) h'
    rw [rowWrappers, gather_pushHead conditionWrappings_append, rowWrappers]

theorem leaves_conditions (s : Scope) : ∀ (cs : List Simple) (out : List Child),
    Yields (Keeps out (conditionWrappings cs)) (conditions s cs out)
  | [], out => by
    rw [conditions, conditionWrappings]
    exact yields_pure (.refl out)
  | c :: rest, out => by
    by_cases hc : c.IsWrapping
    · obtain ⟨n, inner, rfl⟩ := hc
      exact leaves_wrapping (leaves_complex s inner) (leaves_conditions s rest) out
    · exact leaves_plain hc (leaves_simple s c) (leaves_conditions s rest) out

theorem leaves_complexes (s : Scope) : ∀ cs : List ComplexSelector,
    Yields (fun cs' => Leaves (complexWrappings cs) (complexWrappings cs')) (complexes s cs)
  | [] => by
    rw [complexes]
    exact yields_pure .nil
  | c :: rest => by
    rw [complexes, complexWrappings]
    refine (leaves_complex s c).bind fun c' h => (leaves_complexes s rest).map fun cs' h' => ?_
    rw [complexWrappings]
    exact h.append h'

end

theorem leaves_relatives (s : Scope) : ∀ rs : List Relative,
    Yields (fun rs' => Leaves (rs.flatMap Relative.wrappings) (rs'.flatMap Relative.wrappings))
      (relatives s rs)
  | [] => yields_pure .nil
  | .mk k c :: rs => by
    rw [relatives, List.flatMap_cons, Relative.wrappings]
    refine (leaves_complex s c).bind fun c' h => (leaves_relatives s rs).map fun rs' h' => ?_
    rw [List.flatMap_cons, Relative.wrappings]
    exact h.append h'

theorem leaves_target (s : Scope) : ∀ t : Target,
    Yields (fun t' => Leaves t.wrappings t'.wrappings) (target s t)
  | .selectors list => (leaves_complexes s list).map fun _ h => h
  | .relatives list => (leaves_relatives s list).map fun _ h => h

theorem leaves_pieces (s : Scope) : ∀ ps : List Piece,
    Yields (fun ps' => Leaves (ps.flatMap Piece.wrappings) (ps'.flatMap Piece.wrappings))
      (pieces s ps)
  | [] => yields_pure .nil
  | .text t :: ps => (leaves_pieces s ps).map fun _ h => h
  | .selector c :: ps => by
    rw [pieces, List.flatMap_cons, Piece.wrappings]
    refine (leaves_complex s c).bind fun c' h => (leaves_pieces s ps).map fun ps' h' => ?_
    rw [List.flatMap_cons, Piece.wrappings]
    exact h.append h'

theorem leaves_start (s : Scope) : ∀ p : Prelude,
    Yields (fun p' => Leaves p.wrappings p'.wrappings) (start s p)
  | .absent => yields_pure .nil
  | .raw _ => yields_pure .nil
  | .known ps => (leaves_pieces s ps).map fun _ h => h

mutual

theorem leaves_rule (s : Scope) : ∀ r : Rule,
    Yields (fun r' => Leaves r.wrappings r'.wrappings) (rule s r)
  | .style t block => by
    rw [rule, Rule.wrappings]
    refine (leaves_target s t).bind fun t' h => (leaves_items s block).map fun block' h' => ?_
    rw [Rule.wrappings]
    exact h.append h'
  | .atBlock n p block => by
    rw [rule, Rule.wrappings]
    refine (leaves_start s p).bind fun p' h => (leaves_items s block).map fun block' h' => ?_
    rw [Rule.wrappings]
    exact h.append h'
  | .statement n p => by
    rw [rule, Rule.wrappings]
    exact (leaves_start s p).map fun p' h => by rwa [Rule.wrappings]

theorem leaves_item (s : Scope) : ∀ i : Item,
    Yields (fun i' => Leaves i.wrappings i'.wrappings) (item s i)
  | .declaration d => by
    rw [item]
    exact yields_pure .nil
  | .rule r => by
    rw [item, Item.wrappings]
    exact (leaves_rule s r).map fun r' h => by rwa [Item.wrappings]
  | .keyframe selectors block => by
    rw [item, Item.wrappings]
    exact (leaves_items s block).map fun block' h => by rwa [Item.wrappings]
  | .raw t => by
    rw [item]
    exact yields_pure .nil

theorem leaves_items (s : Scope) : ∀ is : List Item,
    Yields (fun is' => Leaves (blockWrappings is) (blockWrappings is')) (items s is)
  | [] => by
    rw [items]
    exact yields_pure .nil
  | i :: rest => by
    rw [items, blockWrappings]
    refine (leaves_item s i).bind fun i' h => (leaves_items s rest).map fun is' h' => ?_
    rw [blockWrappings]
    exact h.append h'

end

theorem leaves_rules (s : Scope) : ∀ rs : List Rule,
    Yields (fun rs' => Leaves (rs.flatMap Rule.wrappings) (rs'.flatMap Rule.wrappings)) (rules s rs)
  | [] => yields_pure .nil
  | r :: rs => by
    rw [rules, List.flatMap_cons]
    refine (leaves_rule s r).bind fun r' h => (leaves_rules s rs).map fun rs' h' => ?_
    rw [List.flatMap_cons]
    exact h.append h'

end Leaving

section Within

/-- Where a class stands within brackets of `:global` that stay, a `:global` that stays is there. -/
def Accounts (ws : List Wrapping) (ms : List Mention) : Prop :=
  ∀ m ∈ ms, m.standing = .within → ⟨.global, true⟩ ∈ ws

namespace Accounts

variable {ws vs : List Wrapping} {ms ns : List Mention}

theorem nil (ws : List Wrapping) : Accounts ws [] := fun _ h => absurd h List.not_mem_nil

theorem append (h : Accounts ws ms) (h' : Accounts vs ns) : Accounts (ws ++ vs) (ms ++ ns) := by
  intro m hm hw
  rcases List.mem_append.1 hm with hm | hm
  · exact List.mem_append_left _ (h m hm hw)
  · exact List.mem_append_right _ (h' m hm hw)

theorem bracketed {a : Args} (n : String) (ha : a.holdsSelectors) (h : Accounts ws ms) :
    Accounts ((a.wrapping? n).toList ++ ws) (ms.map (Mention.bracketed n)) := by
  intro m' hm' hw
  obtain ⟨m, hm, rfl⟩ := List.mem_map.1 hm'
  unfold Mention.bracketed at hw
  split_ifs at hw with hg
  · exact List.mem_append_left _ (by simp [Args.wrapping?, ha, hg.1])
  · exact List.mem_append_right _ (h m hm hw)

theorem unwrapped (n : String) (h : Accounts ws ms) :
    Accounts (match Wrapper.ofName? n with
      | some w => ⟨w, false⟩ :: ws.map (Wrapping.within w)
      | none => ws) (ms.map (Mention.unwrapped n)) := by
  intro m' hm' hw
  obtain ⟨m, hm, rfl⟩ := List.mem_map.1 hm'
  rcases hn : Wrapper.ofName? n with _ | _ | _
  · rw [Mention.unwrapped_eq_self (by simp [hn])] at hw
    exact h m hm hw
  · rw [Mention.unwrapped_standing hn] at hw
    cases hw
  · rw [Mention.unwrapped_eq_self (by simp [hn])] at hw
    exact List.mem_cons_of_mem _ (List.mem_map.2 ⟨_, h m hm hw, rfl⟩)

end Accounts

mutual

theorem accounts_simple : ∀ c : Simple, Accounts c.wrappings c.mentions
  | .id _ => by
    rw [Simple.mentions]
    exact .nil _
  | .className n => by
    rw [Simple.mentions]
    intro m hm hw
    rw [List.mem_singleton.1 hm] at hw
    cases hw
  | .attribute _ => by
    rw [Simple.mentions]
    exact .nil _
  | .pseudoClass n a => by
    rw [Simple.mentions, Simple.wrappings]
    rcases ha : a.holdsSelectors with _ | _
    · have hnone : a.mentions = [] := by
        cases a <;> simp_all [Args.holdsSelectors, Args.mentions]
      rw [hnone]
      exact .nil _
    · exact .bracketed n ha (accounts_args a)
  | .pseudoElement _ a => by
    rw [Simple.mentions, Simple.wrappings]
    exact accounts_args a

theorem accounts_args : ∀ a : Args, Accounts a.wrappings a.mentions
  | .absent => by
    rw [Args.mentions]
    exact .nil _
  | .text _ => by
    rw [Args.mentions]
    exact .nil _
  | .complex c => by
    rw [Args.mentions, Args.wrappings]
    exact accounts_complex c
  | .compounds cs => by
    rw [Args.mentions, Args.wrappings]
    exact accounts_compounds cs
  | .list cs => by
    rw [Args.mentions, Args.wrappings]
    exact accounts_complexes cs
  | .lenient ms => by
    rw [Args.mentions, Args.wrappings]
    exact accounts_members ms
  | .formula _ _ cs => by
    rw [Args.mentions, Args.wrappings]
    exact accounts_complexes cs

theorem accounts_members : ∀ ms : List Member, Accounts (memberWrappings ms) (memberMentions ms)
  | [] => by
    rw [memberMentions]
    exact .nil _
  | .selector c :: ms => by
    rw [memberMentions, memberWrappings]
    exact (accounts_complex c).append (accounts_members ms)
  | .relative (.mk _ c) :: ms => by
    rw [memberMentions, memberWrappings]
    exact (accounts_complex c).append (accounts_members ms)
  | .raw _ :: ms => by
    rw [memberMentions, memberWrappings]
    exact accounts_members ms

theorem accounts_compound : ∀ c : Compound, Accounts c.wrappings c.mentions
  | .mk _ _ cs => by
    rw [Compound.mentions, Compound.wrappings]
    exact accounts_simples cs

theorem accounts_compounds : ∀ cs : List Compound,
    Accounts (compoundWrappings cs) (compoundMentions cs)
  | [] => by
    rw [compoundMentions]
    exact .nil _
  | c :: rest => by
    rw [compoundMentions, compoundWrappings]
    exact (accounts_compound c).append (accounts_compounds rest)

theorem accounts_simples : ∀ cs : List Simple, Accounts (simpleWrappings cs) (simpleMentions cs)
  | [] => by
    rw [simpleMentions]
    exact .nil _
  | c :: rest => by
    rw [simpleMentions, simpleWrappings]
    exact (accounts_simple c).append (accounts_simples rest)

theorem accounts_complex : ∀ c : ComplexSelector, Accounts c.wrappings c.mentions
  | .mk cs => by
    rw [ComplexSelector.mentions, ComplexSelector.wrappings]
    exact accounts_children cs

theorem accounts_children : ∀ cs : List Child, Accounts (childWrappings cs) (childMentions cs)
  | [] => by
    rw [childMentions]
    exact .nil _
  | .combinator _ :: rest => by
    rw [childMentions, childWrappings]
    exact accounts_children rest
  | .compound (.mk _ _ cs) :: rest => by
    rw [childMentions, childWrappings]
    exact (accounts_conditions cs).append (accounts_children rest)

theorem accounts_conditions : ∀ cs : List Simple,
    Accounts (conditionWrappings cs) (conditionMentions cs)
  | [] => by
    rw [conditionMentions]
    exact .nil _
  | c :: rest => by
    by_cases hc : c.IsWrapping
    · obtain ⟨n, inner, rfl⟩ := hc
      rw [conditionMentions, conditionWrappings]
      exact ((accounts_complex inner).unwrapped n).append (accounts_conditions rest)
    · rw [conditionMentions_cons hc, conditionWrappings_cons hc]
      exact (accounts_simple c).append (accounts_conditions rest)

theorem accounts_complexes : ∀ cs : List ComplexSelector,
    Accounts (complexWrappings cs) (complexMentions cs)
  | [] => by
    rw [complexMentions]
    exact .nil _
  | c :: rest => by
    rw [complexMentions, complexWrappings]
    exact (accounts_complex c).append (accounts_complexes rest)

end

theorem accounts_flatMap {α : Type} {f : α → List Wrapping} {g : α → List Mention}
    (h : ∀ a, Accounts (f a) (g a)) : ∀ l : List α, Accounts (l.flatMap f) (l.flatMap g)
  | [] => .nil _
  | a :: l => (h a).append (accounts_flatMap h l)

theorem accounts_target : ∀ t : Target, Accounts t.wrappings t.mentions
  | .selectors list => accounts_complexes list
  | .relatives list => accounts_flatMap (fun ⟨_, c⟩ => accounts_complex c) list

theorem accounts_piece : ∀ p : Piece, Accounts p.wrappings p.mentions
  | .text _ => .nil _
  | .selector c => accounts_complex c

theorem accounts_start : ∀ p : Prelude, Accounts p.wrappings p.mentions
  | .absent => .nil _
  | .raw _ => .nil _
  | .known ps => accounts_flatMap accounts_piece ps

mutual

theorem accounts_rule : ∀ r : Rule, Accounts r.wrappings r.mentions
  | .style t block => by
    rw [Rule.mentions, Rule.wrappings]
    exact (accounts_target t).append (accounts_items block)
  | .atBlock _ p block => by
    rw [Rule.mentions, Rule.wrappings]
    exact (accounts_start p).append (accounts_items block)
  | .statement _ p => by
    rw [Rule.mentions, Rule.wrappings]
    exact accounts_start p

theorem accounts_item : ∀ i : Item, Accounts i.wrappings i.mentions
  | .declaration _ => by
    rw [Item.mentions]
    exact .nil _
  | .rule r => by
    rw [Item.mentions, Item.wrappings]
    exact accounts_rule r
  | .keyframe _ block => by
    rw [Item.mentions, Item.wrappings]
    exact accounts_items block
  | .raw _ => by
    rw [Item.mentions]
    exact .nil _

theorem accounts_items : ∀ is : List Item, Accounts (blockWrappings is) (blockMentions is)
  | [] => by
    rw [blockMentions]
    exact .nil _
  | i :: rest => by
    rw [blockMentions, blockWrappings]
    exact (accounts_item i).append (accounts_items rest)

end

theorem accounts_sheet (sheet : Sheet) : Accounts sheet.wrappings sheet.mentions :=
  accounts_flatMap accounts_rule sheet.rules

theorem wrappings_run (naming : Naming) (path : Path) (sheet : Sheet) :
    Leaves sheet.wrappings (run naming path sheet).1.wrappings :=
  leaves_rules ⟨naming, path⟩ sheet.rules ClassMap.empty

/-- The classes of a scoped sheet are those of the sheet with their new names. -/
theorem mentions_run (naming : Naming) (path : Path) (sheet : Sheet) :
    Scope.Renames ⟨naming, path⟩ sheet.mentions (run naming path sheet).1.mentions := by
  obtain ⟨rs, hrs, hnames⟩ := meets_rules ⟨naming, path⟩ sheet.rules []
  have hempty : ClassMap.empty = Scope.mapOf ⟨naming, path⟩ [] := rfl
  rw [run, hempty, hrs]
  exact hnames

/-- If no wrapper stays, a class that is not outside of all `:global` is within one that goes. -/
theorem dissolved_iff_of_none_stays {sheet : Sheet} (h : ∀ w ∈ sheet.wrappings, w.stays = false)
    {m : Mention} (hm : m ∈ sheet.mentions) : m.standing = .dissolved ↔ m.standing ≠ .outside := by
  have hwithin : m.standing ≠ .within := fun hw => by
    simpa using h _ (accounts_sheet sheet m hm hw)
  rcases hs : m.standing with _ | _ | _
  · simp
  · exact absurd hs hwithin
  · simp

/-- The wrappers of a scoped sheet are those of the sheet that stand in a compound alone in brackets
or within a `:global` that is dissolved, in their order. If there are none of these, no wrapper is
left anywhere, all classes within a `:global` keep their names, and nothing but the classes outside
of every `:global` is renamed and exported. -/
theorem scopeClasses_wrappings (naming : Naming) (path : Path) (sheet : Sheet) :
    (run naming path sheet).1.wrappings.map Wrapping.wrapper =
        (sheet.wrappings.filter Wrapping.stays).map Wrapping.wrapper ∧
      ((∀ w ∈ sheet.wrappings, w.stays = false) →
        (run naming path sheet).1.wrappings = [] ∧
        (run naming path sheet).1.mentions.map Mention.name = sheet.mentions.map (fun m =>
          if m.standing = .outside then naming.scopedName path m.name else m.name) ∧
        (run naming path sheet).2 = ⟨scopingStage, .exports
          ⟨((sheet.mentions.filter fun m => m.standing = .outside).map Mention.name).eraseDups.map
            fun name => (name, naming.scopedName path name)⟩⟩) := by
  have hwrappings := wrappings_run naming path sheet
  refine ⟨hwrappings, fun h => ⟨?_, ?_, ?_⟩⟩
  · have hnone : sheet.wrappings.filter Wrapping.stays = [] :=
      List.filter_eq_nil_iff.2 fun w hw => by simp [h w hw]
    rw [Leaves, hnone] at hwrappings
    exact List.map_eq_nil_iff.1 hwrappings
  · have hnames := mentions_run naming path sheet
    unfold Scope.Renames at hnames
    rw [hnames]
    refine List.map_congr_left fun m hm => ?_
    have hd := dissolved_iff_of_none_stays h hm
    by_cases ho : m.standing = .outside
    · rw [Scope.nameOf, if_neg (by simp [ho]), if_pos ho]
      rfl
    · rw [Scope.nameOf, if_pos (hd.2 ho), if_neg ho]
  · have hrenamed : sheet.mentions.filter (fun m => m.standing ≠ .dissolved) =
        sheet.mentions.filter fun m => m.standing = .outside :=
      List.filter_congr fun m hm => by
        have hd := dissolved_iff_of_none_stays h hm
        by_cases ho : m.standing = .outside <;> simp [hd, ho]
    rw [(run_alike naming path sheet).2, Scope.mapOf, renamed, hrenamed]
    rfl

/-- Wrappers in many places where they go: several in a compound, in the brackets of `:not`, `:is`
and `:has`, and within a `:local`. -/
theorem scopeClasses_wrappings_dissolved :
    let text := ":global(.a .b):not(:global(.c)) > .d:is(:local(.e)):local(.f:GLOBAL(.a)) " ++
      "\x7b color: red; & :has(+ :global(.d)) \x7b color: blue \x7d \x7d"
    ∃ sheet, Sheet.read text = some sheet ∧ sheet.wrappings.length = 6 ∧
      (∀ w ∈ sheet.wrappings, w.stays = false) ∧
      (run ⟨"s_[local]"⟩ ⟨"a.sss"⟩ sheet).1.wrappings = [] ∧
      (run ⟨"s_[local]"⟩ ⟨"a.sss"⟩ sheet).2 =
        ⟨scopingStage, .exports ⟨[("d", "s_d"), ("e", "s_e"), ("f", "s_f")]⟩⟩ := by
  intro text
  obtain ⟨sheet, hsheet⟩ := Option.isSome_iff_exists.1
    (by decide +kernel : (Sheet.read text).isSome = true)
  have hfacts : (Sheet.read text).map (fun sheet =>
      (sheet.wrappings.length, sheet.wrappings.all (fun w => !w.stays),
        (run ⟨"s_[local]"⟩ ⟨"a.sss"⟩ sheet).2)) = some (6, true,
          ⟨scopingStage, .exports ⟨[("d", "s_d"), ("e", "s_e"), ("f", "s_f")]⟩⟩) := by
    decide +kernel
  rw [hsheet] at hfacts
  simp only [Option.map_some, Option.some.injEq, Prod.mk.injEq, List.all_eq_true,
    Bool.not_eq_true'] at hfacts
  obtain ⟨hlength, hstays, hexports⟩ := hfacts
  exact ⟨sheet, hsheet, hlength, hstays, ((scopeClasses_wrappings _ _ sheet).2 hstays).1, hexports⟩

/-- A `:global` in the brackets of `:host` is left, and its class is renamed and exported; one within
another `:global` is left as well. -/
theorem wrapper_left :
    (Pipeline.ofConfig ⟨[.scopeClasses "s_[local]"]⟩).process
        ":host(:global(.a)) \x7b color: red \x7d" ⟨"a.sss"⟩ =
      .ok ⟨":host(:global(.s_a)) \x7b\n  color: red;\n\x7d",
        [⟨"css-modules", .exports ⟨[("a", "s_a")]⟩⟩]⟩ ∧
    (Pipeline.ofConfig ⟨[.scopeClasses "s_[local]"]⟩).process
        ":global(:global(.a)) \x7b color: red \x7d" ⟨"a.sss"⟩ =
      .ok ⟨":global(.a) \x7b\n  color: red;\n\x7d",
        [⟨"css-modules", .exports ⟨[]⟩⟩]⟩ := by
  decide +kernel

end Within

end Scoping

end ScopedStyles
