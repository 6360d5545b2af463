import ScopedStyles.Proofs.Replacement
import ScopedStyles.Proofs.TemplateValues
import ScopedStyles.Transform

/-!
# Templates as specifiers

A call of `require` may be given a string or a template with nothing to be put in. Of a string its
value is read, of a template what is written in it: where an argument is respelled so that neither
reading tells a difference, the work on a program comes to the same (`sameWork_of_respelled`). So a
template stands for the string of its value only where there is nothing in it that stands for
something else, or where no stylesheet is meant either way (`readsTemplates`). A stylesheet that is
named by an escape is not found (`template_not_evaluated`).
-/

namespace ScopedStyles

namespace Script.Node

/-- A template with nothing to be put in, and the text that is written in it. -/
inductive IsTemplate : Node → String → Prop
  | mk (raw : String) (s s₁ s₂ s₃ : Span) :
    IsTemplate (.mk .template s [.mk .list s₁ [], .mk .list s₂ [.mk (.quasi raw) s₃ []]]) raw

/-- A string and its value. -/
inductive IsString : Node → Option String → Prop
  | mk (value written : Option String) (s : Span) :
    IsString (.mk (.string value written) s []) value

/-- A call of `require`, and what it is given first. -/
inductive IsRequire : Node → Node → Prop
  | mk (isOptional : Bool) (s s₁ s₂ : Span) (ks : List Node) (a : Node) (args rest : List Node) :
    IsRequire
      (.mk .call s (.mk (.ident "require" isOptional) s₁ ks :: .mk .list s₂ (a :: args) :: rest)) a

/-- The second tree is the first one with what some calls of `require` are given first replaced, as
the relation of nodes says. -/
inductive Respelled (same : Node → Node → Prop) : Node → Node → Prop
  | argument {isOptional : Bool} {s s₁ s₂ : Span} {a a' : Node}
    {args args' rest rest' : List Node} :
    same a a' → List.Forall₂ (Respelled same) args args' →
    List.Forall₂ (Respelled same) rest rest' →
    Respelled same
      (.mk .call s (.mk (.ident "require" isOptional) s₁ [] :: .mk .list s₂ (a :: args) :: rest))
      (.mk .call s (.mk (.ident "require" isOptional) s₁ [] :: .mk .list s₂ (a' :: args') :: rest'))
  | kept {k : Kind} {s : Span} {ks ks' : List Node} :
    List.Forall₂ (Respelled same) ks ks' → Respelled same (.mk k s ks) (.mk k s ks')

/-- Two nodes without references in them by which the same stylesheet is required, or none. -/
inductive SameSheet : Node → Node → Prop
  | mk {a a' : Node} {specifier specifier' : String} :
    Literal a specifier → Literal a' specifier' →
    (∀ r, a.inlineMaps r = (a, r)) → (∀ r, a'.inlineMaps r = (a', r)) →
    (specifier = specifier' ∨
      ¬ Specifier.isStylesheet specifier ∧ ¬ Specifier.isStylesheet specifier') →
    SameSheet a a'

variable {same : Node → Node → Prop}

section Respelled

mutual

theorem Respelled.refl : ∀ n : Node, Respelled same n n
  | .mk _ _ ks => .kept (respelled_refl_all ks)

theorem respelled_refl_all : ∀ ns : List Node, List.Forall₂ (Respelled same) ns ns
  | [] => .nil
  | n :: ns => .cons (.refl n) (respelled_refl_all ns)

end

mutual

theorem Respelled.swap : ∀ {n n' : Node}, Respelled same n n' →
    Respelled (fun a a' => same a' a) n' n
  | _, _, .argument ha hargs hrest =>
    .argument ha (respelled_swap_all hargs) (respelled_swap_all hrest)
  | _, _, .kept hks => .kept (respelled_swap_all hks)

theorem respelled_swap_all : ∀ {ns ns' : List Node}, List.Forall₂ (Respelled same) ns ns' →
    List.Forall₂ (Respelled fun a a' => same a' a) ns' ns
  | _, _, .nil => .nil
  | _, _, .cons hn hns => .cons hn.swap (respelled_swap_all hns)

end

/-- What is no call has the same parts as it had, each of them respelled. -/
theorem Respelled.eq_mk {k : Kind} {s : Span} {ks : List Node} {n' : Node}
    (h : Respelled same (.mk k s ks) n') (hk : k ≠ .call) :
    ∃ ks', n' = .mk k s ks' ∧ List.Forall₂ (Respelled same) ks ks' := by
  cases h with
  | argument => exact absurd rfl hk
  | kept hks => exact ⟨_, rfl, hks⟩

theorem Respelled.stringValue_eq {n n' : Node} (h : Respelled same n n') :
    n'.stringValue = n.stringValue := by
  cases h with
  | argument => rfl
  | @kept k => cases k <;> rfl

theorem Respelled.literal {n n' : Node} {specifier : String} (h : Respelled same n n')
    (hl : Literal n specifier) : Literal n' specifier := by
  cases hl with
  | string value written s ks =>
    obtain ⟨ks', rfl, -⟩ := h.eq_mk (by simp)
    exact .string value written s ks'
  | template raw s s₁ s₂ s₃ ks =>
    obtain ⟨_, rfl, hks⟩ := h.eq_mk (by simp)
    obtain _ | ⟨h₁, _ | ⟨h₂, _ | _⟩⟩ := hks
    obtain ⟨_, rfl, hnil⟩ := h₁.eq_mk (by simp)
    obtain ⟨_, rfl, hquasi⟩ := h₂.eq_mk (by simp)
    cases hnil
    obtain _ | ⟨h₃, _ | _⟩ := hquasi
    obtain ⟨ks₃, rfl, -⟩ := h₃.eq_mk (by simp)
    exact .template _ s s₁ s₂ s₃ ks₃

end Respelled

section Calls

theorem IsRequire.requiredSpecifier? {n a : Node} {specifier : String} (h : IsRequire n a)
    (hl : Literal a specifier) : n.requiredSpecifier? = some specifier := by
  cases h
  cases hl <;> rfl

theorem exists_isRequire {n : Node} {specifier : String}
    (h : n.requiredSpecifier? = some specifier) : ∃ a, IsRequire n a ∧ Literal a specifier := by
  unfold Node.requiredSpecifier? at h
  split at h
  · split at h
    · obtain rfl := Option.some.inj h
      exact ⟨_, .mk _ _ _ _ _ _ _ _, .string _ _ _ _⟩
    · obtain rfl := Option.some.inj h
      exact ⟨_, .mk _ _ _ _ _ _ _ _, .template _ _ _ _ _ _⟩
    · cases h
  · cases h

theorem requiredSpecifier?_of_forall₂ {k : Kind} {s : Span} {ks ks' : List Node}
    (h : List.Forall₂ (Respelled same) ks ks') {specifier : String}
    (hn : (mk k s ks).requiredSpecifier? = some specifier) :
    (mk k s ks').requiredSpecifier? = some specifier := by
  obtain ⟨a, ⟨⟩, hl⟩ := exists_isRequire hn
  obtain _ | ⟨hx, _ | ⟨hy, hrest⟩⟩ := h
  obtain ⟨_, rfl, -⟩ := hx.eq_mk (by simp)
  obtain ⟨_, rfl, hargs⟩ := hy.eq_mk (by simp)
  obtain _ | ⟨ha, -⟩ := hargs
  exact IsRequire.requiredSpecifier? (.mk _ _ _ _ _ _ _ _) (ha.literal hl)

theorem requiredSpecifier?_kept {k : Kind} {s : Span} {ks ks' : List Node}
    (h : List.Forall₂ (Respelled same) ks ks') :
    (mk k s ks').requiredSpecifier? = (mk k s ks).requiredSpecifier? := by
  ext specifier
  exact ⟨requiredSpecifier?_of_forall₂ (respelled_swap_all h), requiredSpecifier?_of_forall₂ h⟩

end Calls

section Imports

theorem namespaceName?_of_forall₂ {names names' : List Node}
    (h : List.Forall₂ (Respelled same) names names') {name : Node}
    (hn : namespaceName? names = some name) :
    ∃ name', namespaceName? names' = some name' ∧ Respelled same name name' := by
  obtain ⟨s, rfl⟩ := namespaceName?_eq_some hn
  obtain _ | ⟨hx, _ | _⟩ := h
  obtain ⟨_, rfl, hparts⟩ := hx.eq_mk (by simp)
  obtain _ | ⟨hname, _ | _⟩ := hparts
  exact ⟨_, rfl, hname⟩

theorem namespaceName?_rel {names names' : List Node}
    (h : List.Forall₂ (Respelled same) names names') :
    Option.Rel (Respelled same) (namespaceName? names) (namespaceName? names') := by
  rcases hn : namespaceName? names with _ | name
  · rcases hn' : namespaceName? names' with _ | name'
    · exact .none
    · obtain ⟨name, hname, -⟩ := namespaceName?_of_forall₂ (respelled_swap_all h) hn'
      rw [hn] at hname
      cases hname
  · obtain ⟨name', hn', hname⟩ := namespaceName?_of_forall₂ h hn
    rw [hn']
    exact .some hname

theorem Respelled.span_eq {n n' : Node} (h : Respelled same n n') : n'.span = n.span := by
  cases h <;> rfl

theorem Respelled.bind {name name' o : Node} (h : Respelled same name name') (span : Span) :
    Respelled same (Node.bind span name o) (Node.bind span name' o) := by
  rw [Node.bind, Node.bind, h.span_eq]
  exact .kept (.cons (.kept (.cons (.kept (.cons h (.cons (.refl _) .nil))) (.cons (.refl o) .nil)))
    .nil)

end Imports

section Step

/-- Steps on trees that are respelled: the same is done, and what comes of it is respelled too. -/
structure SameStep (same : Node → Node → Prop) (step step' : Option Node × Inlining) : Prop where
  state : step'.2 = step.2
  tree : Option.Rel (Respelled same) step.1 step'.1

theorem SameStep.refl (step : Option Node × Inlining) : SameStep same step step := by
  refine ⟨rfl, ?_⟩
  cases step.1 with
  | none => exact .none
  | some n => exact .some (.refl n)

/-- What the parts of an import have to be like. -/
inductive IsImport : List Node → Prop
  | mk (s : Span) (names : List Node) (source : Node) (rest : List Node) :
    IsImport (.mk .list s names :: source :: rest)

theorem IsImport.of_forall₂ {ks ks' : List Node} (h : List.Forall₂ (Respelled same) ks ks')
    (hks : IsImport ks) : IsImport ks' := by
  cases hks
  obtain _ | ⟨hx, _ | _⟩ := h
  obtain ⟨_, rfl, -⟩ := hx.eq_mk (by simp)
  exact .mk _ _ _ _

theorem inlineImport_list (typeOnly : Bool) (phase : Phase) (s s₁ : Span) (names : List Node)
    (source : Node) (rest : List Node) (r : Inlining) :
    (mk (.importDecl typeOnly phase) s (.mk .list s₁ names :: source :: rest)).inlineImport r =
      if !Specifier.isStylesheet source.stringValue then (none, r)
      else match typeOnly, namespaceName? names with
        | false, some name => ((r.inlineClassNames source.stringValue).1.map (Node.bind s name),
            (r.inlineClassNames source.stringValue).2)
        | _, _ => (none, r.tell (.unsupportedForm source.stringValue)) := rfl

theorem inlineImport_of_not {k : Kind} {s : Span} {ks : List Node} (h : ¬ IsImport ks)
    (r : Inlining) : (mk k s ks).inlineImport r = (none, r) := by
  unfold inlineImport
  split
  · rename_i heq
    cases heq
    exact absurd (.mk _ _ _ _) h
  · rfl

theorem sameStep_inlineImport {typeOnly : Bool} {phase : Phase} {s : Span} {ks ks' : List Node}
    (h : List.Forall₂ (Respelled same) ks ks') (r : Inlining) :
    SameStep same ((mk (.importDecl typeOnly phase) s ks).inlineImport r)
      ((mk (.importDecl typeOnly phase) s ks').inlineImport r) := by
  by_cases hks : IsImport ks
  · obtain ⟨s₁, names, source, rest⟩ := hks
    obtain _ | ⟨hx, _ | ⟨hsource, hrest⟩⟩ := h
    obtain ⟨names', rfl, hnames⟩ := hx.eq_mk (by simp)
    rw [inlineImport_list, inlineImport_list, hsource.stringValue_eq]
    split_ifs
    · exact .refl _
    · have hname := namespaceName?_rel hnames
      generalize namespaceName? names = bound, namespaceName? names' = bound' at hname
      rcases typeOnly with _ | _
      · cases hname with
        | none => exact .refl _
        | some hname =>
          refine ⟨rfl, ?_⟩
          rcases (r.inlineClassNames source.stringValue).1 with _ | o
          · exact .none
          · exact .some (hname.bind s)
      · exact .refl _
  · have hks' : ¬ IsImport ks' := fun hks' => hks (hks'.of_forall₂ (respelled_swap_all h))
    rw [inlineImport_of_not hks, inlineImport_of_not hks']
    exact .refl _

theorem sameStep_inlineCall {n n' : Node} (r : Inlining)
    (h : n'.requiredSpecifier? = n.requiredSpecifier?) :
    SameStep same (n.inlineCall r) (n'.inlineCall r) := by
  rw [inlineCall, inlineCall, h]
  exact .refl _

theorem inlineCall_of_not {n : Node} {specifier : String}
    (h : n.requiredSpecifier? = some specifier) (hno : ¬ Specifier.isStylesheet specifier)
    (r : Inlining) : n.inlineCall r = (none, r) := by
  simp [inlineCall, h, hno]

theorem Respelled.sameStep (hsame : ∀ a a', same a a' → SameSheet a a') {n n' : Node}
    (h : Respelled same n n') (r : Inlining) :
    SameStep same (n.replacement r) (n'.replacement r) := by
  cases h with
  | @argument isOptional s s₁ s₂ a a' _ _ _ _ ha =>
    obtain ⟨hl, hl', -, -, hsheet⟩ := hsame _ _ ha
    have hspecifier := fun args rest =>
      (IsRequire.mk isOptional s s₁ s₂ [] a args rest).requiredSpecifier? hl
    have hspecifier' := fun args rest =>
      (IsRequire.mk isOptional s s₁ s₂ [] a' args rest).requiredSpecifier? hl'
    show SameStep same (inlineCall _ r) (inlineCall _ r)
    rcases hsheet with rfl | ⟨hno, hno'⟩
    · exact sameStep_inlineCall r ((hspecifier' _ _).trans (hspecifier _ _).symm)
    · rw [inlineCall_of_not (hspecifier _ _) hno, inlineCall_of_not (hspecifier' _ _) hno']
      exact .refl _
  | @kept k s ks ks' hks =>
    cases k with
    | importDecl => exact sameStep_inlineImport hks r
    | call => exact sameStep_inlineCall r (requiredSpecifier?_kept hks)
    | _ => exact .refl _

end Step

section Work

theorem inlineAll_cons (n : Node) (ns : List Node) (r : Inlining) :
    inlineAll (n :: ns) r = ((n.inlineMaps r).1 :: (inlineAll ns (n.inlineMaps r).2).1,
      (inlineAll ns (n.inlineMaps r).2).2) := rfl

/-- The work on the parts of a call of `require` whose first argument has no references in it. -/
theorem inlineAll_require {isOptional : Bool} {s₁ s₂ : Span} {a : Node}
    (ha : ∀ r, a.inlineMaps r = (a, r)) (args rest : List Node) (r : Inlining) :
    inlineAll (.mk (.ident "require" isOptional) s₁ [] :: .mk .list s₂ (a :: args) :: rest) r =
      (.mk (.ident "require" isOptional) s₁ [] :: .mk .list s₂ (a :: (inlineAll args r).1) ::
        (inlineAll rest (inlineAll args r).2).1, (inlineAll rest (inlineAll args r).2).2) := by
  have hname : (mk (.ident "require" isOptional) s₁ []).inlineMaps r =
      (mk (.ident "require" isOptional) s₁ [], r) := rfl
  have hargs : (mk .list s₂ (a :: args)).inlineMaps r =
      (mk .list s₂ (a :: (inlineAll args r).1), (inlineAll args r).2) := by
    rw [inlineMaps_of_none rfl, inlineAll_cons, ha]
  rw [inlineAll_cons, hname, inlineAll_cons, hargs]

/-- Where the same is done with two nodes, the same is done within them if their parts allow it. -/
theorem inlineMaps_of_sameStep {k : Kind} {s : Span} {ks ks' : List Node} {r : Inlining}
    (hstep : SameStep same ((mk k s ks).replacement r) ((mk k s ks').replacement r))
    (hparts : ∀ q, (inlineAll ks' q).2 = (inlineAll ks q).2 ∧
      Respelled same (mk k s (inlineAll ks q).1) (mk k s (inlineAll ks' q).1)) :
    ((mk k s ks').inlineMaps r).2 = ((mk k s ks).inlineMaps r).2 ∧
      Respelled same ((mk k s ks).inlineMaps r).1 ((mk k s ks').inlineMaps r).1 := by
  obtain ⟨hstate, htree⟩ := hstep
  rcases h : (mk k s ks).replacement r with ⟨new, q⟩
  rcases h' : (mk k s ks').replacement r with ⟨new', q'⟩
  rw [h, h'] at hstate htree
  obtain rfl : q' = q := hstate
  cases htree with
  | some ho =>
    rw [inlineMaps_of_some h, inlineMaps_of_some h']
    exact ⟨rfl, ho⟩
  | none =>
    rw [inlineMaps_of_none h, inlineMaps_of_none h']
    exact hparts q'

mutual

theorem Respelled.inlineMaps (hsame : ∀ a a', same a a' → SameSheet a a') :
    ∀ {n n' : Node}, Respelled same n n' → ∀ r : Inlining,
      (n'.inlineMaps r).2 = (n.inlineMaps r).2 ∧
        Respelled same (n.inlineMaps r).1 (n'.inlineMaps r).1
  | _, _, .argument ha hargs hrest, r => by
    obtain ⟨-, -, hleaf, hleaf', -⟩ := hsame _ _ ha
    refine inlineMaps_of_sameStep
      (Respelled.sameStep hsame (.argument ha hargs hrest) r) fun q => ?_
    obtain ⟨hq, hargs'⟩ := respelled_inlineAll hsame hargs q
    obtain ⟨hq', hrest'⟩ := respelled_inlineAll hsame hrest (inlineAll _ q).2
    rw [inlineAll_require hleaf, inlineAll_require hleaf', hq]
    exact ⟨hq', .argument ha hargs' hrest'⟩
  | _, _, .kept hks, r => by
    refine inlineMaps_of_sameStep (Respelled.sameStep hsame (.kept hks) r) fun q => ?_
    obtain ⟨hq, hparts⟩ := respelled_inlineAll hsame hks q
    exact ⟨hq, .kept hparts⟩

theorem respelled_inlineAll (hsame : ∀ a a', same a a' → SameSheet a a') :
    ∀ {ns ns' : List Node}, List.Forall₂ (Respelled same) ns ns' → ∀ r : Inlining,
      (inlineAll ns' r).2 = (inlineAll ns r).2 ∧
        List.Forall₂ (Respelled same) (inlineAll ns r).1 (inlineAll ns' r).1
  | _, _, .nil, _ => ⟨rfl, .nil⟩
  | _, _, @List.Forall₂.cons _ _ _ n n' ns ns' hn hns, r => by
    obtain ⟨hstate, htree⟩ := hn.inlineMaps hsame r
    obtain ⟨hstate', hrest⟩ := respelled_inlineAll hsame hns (n.inlineMaps r).2
    rw [inlineAll_cons, inlineAll_cons, hstate]
    exact ⟨hstate', .cons htree hrest⟩

end

end Work

section Templates

/-- A template, and the string whose value is made of what is written in the template. -/
inductive AsString (value : String → Option String) : Node → Node → Prop
  | mk {t w : Node} {raw : String} :
    IsTemplate t raw → IsString w (value raw) → AsString value t w

theorem IsTemplate.literal {t : Node} {raw : String} (h : IsTemplate t raw) : Literal t raw := by
  cases h
  exact .template _ _ _ _ _ _

theorem IsString.literal {w : Node} {value : Option String} (h : IsString w value) :
    Literal w (value.getD "") := by
  cases h
  exact .string _ _ _ _

theorem IsTemplate.inlineMaps {t : Node} {raw : String} (h : IsTemplate t raw) (r : Inlining) :
    t.inlineMaps r = (t, r) := by
  cases h
  rfl

theorem IsString.inlineMaps {w : Node} {value : Option String} (h : IsString w value)
    (r : Inlining) : w.inlineMaps r = (w, r) := by
  cases h
  rfl

/-- What is written in a template and its value stand for the same stylesheet, or for none: nothing
in it stands for something else, or neither of them is the name of a stylesheet. -/
def MeansOne (raw : String) : Prop :=
  ('\\' ∉ raw.toList ∧ '\r' ∉ raw.toList) ∨
    ¬ Specifier.isStylesheet raw ∧ ¬ Specifier.isStylesheet ((Token.templateText? raw).getD "")

/-- A template whose text and value mean one, and the string of its value. -/
inductive AsPlainString : Node → Node → Prop
  | mk {t w : Node} {raw : String} :
    IsTemplate t raw → IsString w (Token.templateText? raw) → MeansOne raw → AsPlainString t w

theorem templateText?_getD_eq_iff {raw : String} : (Token.templateText? raw).getD "" = raw ↔
    '\\' ∉ raw.toList ∧ '\r' ∉ raw.toList := by
  rw [← Token.templateText?_eq_self_iff]
  constructor
  · intro h
    rcases hvalue : Token.templateText? raw with _ | value
    · rw [hvalue] at h
      obtain rfl : "" = raw := h
      exact absurd hvalue (by decide +kernel)
    · rw [hvalue] at h
      rw [show value = raw from h]
  · intro h
    rw [h]
    rfl

theorem meansOne_iff {raw : String} : MeansOne raw ↔
    raw = (Token.templateText? raw).getD "" ∨ ¬ Specifier.isStylesheet raw ∧
      ¬ Specifier.isStylesheet ((Token.templateText? raw).getD "") := by
  rw [MeansOne, ← templateText?_getD_eq_iff, eq_comm]

theorem AsString.sameSheet {t w : Node} (h : AsString some t w) : SameSheet t w := by
  obtain ⟨ht, hw⟩ := h
  exact ⟨ht.literal, hw.literal, ht.inlineMaps, hw.inlineMaps, .inl rfl⟩

theorem AsPlainString.sameSheet {t w : Node} (h : AsPlainString t w) : SameSheet t w := by
  obtain ⟨ht, hw, hone⟩ := h
  exact ⟨ht.literal, hw.literal, ht.inlineMaps, hw.inlineMaps, meansOne_iff.1 hone⟩

end Templates

section Behind

/-- The specifier of a reference that is reported to be left as it is. -/
def leftSpecifier? : Event → Option String
  | .leftFailed specifier _ _ | .leftUnmapped specifier _ => some specifier
  | _ => none

theorem events_processFile (b : Build) (path : Path) :
    b.events <+: (b.processFile path).2.events := by
  unfold Build.processFile
  split
  · exact List.prefix_refl _
  · split
    · exact List.prefix_append _ _
    · unfold Build.processNew
      simp only []
      split
      · exact List.prefix_append _ _
      · split <;> exact List.prefix_append _ _

/-- The work on a specifier leaves a replacement by it behind, or else an event with it. -/
theorem inlineClassNames_trace (specifier : String) (r : Inlining) :
    (∃ path m, (r.inlineClassNames specifier).2.replacements =
      r.replacements ++ [⟨specifier, path, m⟩]) ∨
    (r.inlineClassNames specifier).2.replacements = r.replacements ∧
      ∃ events e, (r.inlineClassNames specifier).2.build.events = events ++ [e] ∧
        r.build.events <+: events ∧ leftSpecifier? e = some specifier := by
  have hevents := events_processFile r.build (Specifier.resolve specifier r.file)
  rcases hm : r.mapOf? specifier with _ | m
  · right
    unfold Inlining.mapOf? Build.outcome at hm
    simp only [Inlining.inlineClassNames]
    rcases hp : (r.build.processFile (Specifier.resolve specifier r.file)).1 with failure | o
    · exact ⟨rfl, _, _, rfl, hevents, rfl⟩
    · rw [hp] at hm
      simp only [hm]
      exact ⟨rfl, _, _, rfl, hevents, rfl⟩
  · obtain ⟨o, ho, hom⟩ := Inlining.mapOf?_eq_some hm
    rw [Inlining.inlineClassNames_of_ok ho hom]
    exact .inl ⟨_, m, rfl⟩

theorem inlineClassNames_ne_self (specifier : String) (r : Inlining) :
    (r.inlineClassNames specifier).2 ≠ r := by
  intro h
  rcases inlineClassNames_trace specifier r with ⟨path, m, hr⟩ | ⟨-, events, e, he, hprefix, -⟩
  · rw [h] at hr
    simpa using congrArg List.length hr
  · rw [h] at he
    have := hprefix.length_le
    rw [he, List.length_append, List.length_singleton] at this
    omega

/-- The specifier can be told from what is left. -/
theorem inlineClassNames_inj {specifier specifier' : String} {r : Inlining}
    (h : (r.inlineClassNames specifier').2 = (r.inlineClassNames specifier).2) :
    specifier = specifier' := by
  have htrace := inlineClassNames_trace specifier r
  -- a replacement against an event is told by the number of replacements
  rcases inlineClassNames_trace specifier' r with ⟨path', m', hr'⟩ | ⟨hr', events', e', he', -, hl'⟩
  · rw [h] at hr'
    rcases htrace with ⟨path, m, hr⟩ | ⟨hr, -⟩
    · have hlast := List.append_cancel_left (hr.symm.trans hr')
      simp only [List.cons.injEq, Replacement.mk.injEq] at hlast
      exact hlast.1.1
    · rw [hr] at hr'
      simpa using congrArg List.length hr'
  · rw [h] at hr' he'
    rcases htrace with ⟨path, m, hr⟩ | ⟨-, events, e, he, -, hl⟩
    · rw [hr] at hr'
      simpa using congrArg List.length hr'
    · have hlast := List.append_inj_right' (he.symm.trans he') rfl
      obtain rfl := List.singleton_inj.1 hlast
      exact Option.some.inj (hl.symm.trans hl')

theorem IsRequire.replacement {n a : Node} {specifier : String} (h : IsRequire n a)
    (hl : Literal a specifier) (r : Inlining) : n.replacement r =
      if Specifier.isStylesheet specifier then r.inlineClassNames specifier else (none, r) := by
  have hspecifier := h.requiredSpecifier? hl
  cases h
  show inlineCall _ r = _
  rw [inlineCall, hspecifier]

/-- Calls with other arguments do the same if and only if these stand for the same stylesheet or for
none. -/
theorem replacement_state_eq_iff {n n' a a' : Node} {specifier specifier' : String}
    (hn : IsRequire n a) (hn' : IsRequire n' a') (hl : Literal a specifier)
    (hl' : Literal a' specifier') (r : Inlining) :
    (n'.replacement r).2 = (n.replacement r).2 ↔ specifier = specifier' ∨
      ¬ Specifier.isStylesheet specifier ∧ ¬ Specifier.isStylesheet specifier' := by
  rw [hn.replacement hl, hn'.replacement hl']
  constructor
  · intro h
    split_ifs at h with hs' hs hs
    · exact .inl (inlineClassNames_inj h)
    · exact absurd h (inlineClassNames_ne_self specifier' r)
    · exact absurd h.symm (inlineClassNames_ne_self specifier r)
    · exact .inr ⟨hs, hs'⟩
  · rintro (rfl | ⟨hs, hs'⟩)
    · rfl
    · rw [if_neg hs, if_neg hs']

end Behind

section Directives

theorem Respelled.kind_eq {n n' : Node} (h : Respelled same n n') : n'.kind = n.kind := by
  cases h <;> rfl

theorem Respelled.isDirective {n n' : Node} (h : Respelled same n n') (hn : n.isDirective) :
    n'.isDirective := by
  obtain ⟨hk, x, hx, value, written, hstring⟩ := isDirective_iff.1 hn
  obtain ⟨k, s, ks⟩ := n
  obtain rfl : k = .exprStmt := hk
  obtain rfl : ks = [x] := hx
  obtain ⟨_, rfl, hks⟩ := h.eq_mk (by simp)
  obtain _ | ⟨hx', _ | _⟩ := hks
  exact isDirective_iff.2 ⟨rfl, _, rfl, value, written, hx'.kind_eq.trans hstring⟩

theorem Respelled.isDirective_eq {n n' : Node} (h : Respelled same n n') :
    n'.isDirective = n.isDirective :=
  Bool.eq_iff_iff.2 ⟨h.swap.isDirective, h.isDirective⟩

end Directives

end Script.Node

namespace Script.Program

open Node

/-- The work on two programs comes to the same, and so do the programs that it yields, up to the
arguments that were respelled before. -/
structure SameWork (same : Node → Node → Prop) (p p' : Program) (r : Inlining) : Prop where
  state : (p'.inlineMaps r).2 = (p.inlineMaps r).2
  body : List.Forall₂ (Respelled same) (p.inlineMaps r).1.body (p'.inlineMaps r).1.body

theorem sameWork_of_respelled {same : Node → Node → Prop}
    (hsame : ∀ a a', same a a' → SameSheet a a') {p : Program} {body : List Node}
    (h : List.Forall₂ (Respelled same) p.body body) (r : Inlining) :
    SameWork same p { p with body := body } r := by
  obtain ⟨hstate, hbody⟩ := respelled_inlineAll hsame h r
  obtain ⟨htop, hrest⟩ := forall₂_splitDirectives (fun _ _ hn => hn.isDirective_eq) hbody
  refine ⟨congrArg (fun q => q.takeHoisted.2) hstate, ?_⟩
  show List.Forall₂ (Respelled same)
    ((inlineAll p.body r).1.takeWhile isDirective ++ (inlineAll p.body r).2.hoisted.map p.load ++
      (inlineAll p.body r).1.dropWhile isDirective)
    ((inlineAll body r).1.takeWhile isDirective ++ (inlineAll body r).2.hoisted.map p.load ++
      (inlineAll body r).1.dropWhile isDirective)
  rw [hstate]
  exact List.rel_append (List.rel_append htop (respelled_refl_all _)) hrest

/-- What the templates that `require` is given stand for. -/
structure ReadsTemplates (r : Inlining) : Prop where
  /-- A template stands for the string of what is written in it. -/
  text : ∀ (p : Program) (body : List Node), List.Forall₂ (Respelled (AsString some)) p.body body →
    SameWork (AsString some) p { p with body := body } r
  /-- It stands for the string of its value where what is written means the same. -/
  value : ∀ (p : Program) (body : List Node), List.Forall₂ (Respelled AsPlainString) p.body body →
    SameWork AsPlainString p { p with body := body } r
  /-- Anywhere else a call does something else than the call with its value. -/
  call : ∀ {n n' t w : Node} {raw : String}, IsRequire n t → IsRequire n' w → IsTemplate t raw →
    IsString w (Token.templateText? raw) →
      ((n'.replacement r).2 = (n.replacement r).2 ↔ MeansOne raw)

/-- Whatever the file, the disk, the records and what was gathered before. -/
theorem readsTemplates (r : Inlining) : ReadsTemplates r where
  text _ _ h := sameWork_of_respelled (fun _ _ => AsString.sameSheet) h r
  value _ _ h := sameWork_of_respelled (fun _ _ => AsPlainString.sameSheet) h r
  call hn hn' ht hw := by
    rw [replacement_state_eq_iff hn hn' ht.literal hw.literal, meansOne_iff]

/-- A template that evaluates to the name of a stylesheet by an escape. -/
theorem template_not_evaluated :
    let disk := ((Disk.empty ["app"]).put ["app"] .directory).put ["app", "a.sss"]
      (.file (.text ".x \x7b color: red \x7d"))
    let build : Build := .start disk (.fresh [.scopeClasses ⟨"[local]_y"⟩])
    let r := Inlining.start ⟨"App.jsx"⟩ build none
    let template : Node := .mk .template .none
      [list [], list [.mk (.quasi "./\\x61.sss") .none []]]
    let call (a : Node) : Node := .mk .call .none [name "require" .none, list [a], absent]
    let p : Program := ⟨true, none, .none, [.mk .exprStmt .none [call template]]⟩
    let p' : Program := ⟨true, none, .none, [.mk .exprStmt .none [call (text "./a.sss" .none)]]⟩
    List.Forall₂ (Respelled (AsString Token.templateText?)) p.body p'.body ∧
      (p.inlineMaps r).2.replacements = [] ∧
      (p'.inlineMaps r).2.replacements = [⟨"./a.sss", ⟨"a.sss"⟩, ⟨[("x", "x_y")]⟩⟩] ∧
      (Transform.run "const css = require(`./\\x61.sss`);\n" "App.jsx" false build).map
        (fun done => done.1.replacements) = some [] := by
  intro disk build r template call p p'
  have hvalue : Token.templateText? "./\\x61.sss" = some "./a.sss" := by decide +kernel
  refine ⟨?_, by decide +kernel, by decide +kernel, by decide +kernel⟩
  have harg : AsString Token.templateText? template (text "./a.sss" .none) := by
    refine .mk (.mk _ _ _ _ _) ?_
    rw [hvalue]
    exact .mk _ _ _
  exact .cons (.kept (.cons (.argument harg .nil (respelled_refl_all _)) .nil)) .nil

end Script.Program

end ScopedStyles
