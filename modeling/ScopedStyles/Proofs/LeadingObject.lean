import Mathlib.Tactic.SplitIfs
import ScopedStyles.Script.Reader

/-!
# What starts with an object

An expression may start with an object, where a brace stands; a statement may not, since a brace
starts a block there. `Node.opensObject` says of a node whether the first thing that is written of
it is an object. For each reader of expressions there is a statement here on what it reads:

* what starts with a word, a sign or a literal does not start with an object (`Yields Plain`);
* what goes on behind an expression starts with an object only if that expression does
  (`Yields (Continues e)`);
* what may start with anything starts with an object only at a brace (`Opens`), up to whole
  expressions (`opens_expression`).
-/

namespace ScopedStyles.Script

def Kind.isObject : Kind → Bool
  | .object _ => true
  | _ => false

/-- Whether a node of this kind is written with its first child at the start. -/
def Kind.startsWithChild : Kind → Bool
  | .member | .optionalMember _ | .call | .optionalCall _ | .taggedTemplate | .nonNull
  | .instantiation | .update _ false | .binary _ | .asExpr | .satisfies | .conditional
  | .assign _ | .sequence | .exprStmt => true
  | _ => false

/-- Whether a node of this kind starts with a sign, word or child of its own. -/
def Kind.isPlain (k : Kind) : Bool := !k.isObject && !k.startsWithChild

mutual

/-- Whether the first thing that is written of a node is an object. -/
def Node.opensObject : Node → Bool
  | .mk k _ ks => k.isObject || k.startsWithChild && firstOpensObject ks

def firstOpensObject : List Node → Bool
  | [] => false
  | n :: _ => n.opensObject

end

namespace Node

/-- The node does not start with an object. -/
def Plain (n : Node) : Prop := n.opensObject = false

/-- The node starts with an object only if the other one does. -/
def Continues (e n : Node) : Prop := n.opensObject = true → e.opensObject = true

theorem plain_of_kind {n : Node} (h : n.kind.isPlain = true) : n.Plain := by
  rcases n with ⟨k, s, ks⟩
  simp only [kind, Kind.isPlain, Bool.and_eq_true, Bool.not_eq_true'] at h
  rw [Plain, opensObject, h.1, h.2, Bool.false_and, Bool.or_false]

theorem plain_mk {k : Kind} {s : Span} {ks : List Node} (h : k.isPlain = true) :
    (mk k s ks).Plain :=
  plain_of_kind h

theorem plain_iff {n : Node} : n.Plain ↔ ¬n.opensObject = true := by
  rw [Plain, Bool.not_eq_true]

theorem Plain.continues {n : Node} (h : n.Plain) (e : Node) : e.Continues n := fun ho =>
  absurd ho (plain_iff.1 h)

theorem Continues.refl (e : Node) : e.Continues e := id

theorem Continues.plain {e n : Node} (h : e.Continues n) (he : e.Plain) : n.Plain :=
  plain_iff.2 fun ho => plain_iff.1 he (h ho)

theorem Continues.trans {e n n' : Node} (h : e.Continues n) (h' : n.Continues n') :
    e.Continues n' := h ∘ h'

/-- A node is written with its first child at the start, or with something of its own. -/
theorem continues_mk {k : Kind} {s : Span} {e : Node} {ks : List Node} (h : k.isObject = false) :
    e.Continues (mk k s (e :: ks)) := fun ho => by
  rw [opensObject, h, Bool.false_or, firstOpensObject, Bool.and_eq_true] at ho
  exact ho.2

end Node

open Node (Plain Continues)

namespace Read

variable {α β : Type} {P : α → Prop} {Q : β → Prop}

section Yielding

/-- Whatever is read is as said. -/
def Yields (P : α → Prop) (p : Read α) : Prop := ∀ r a r', p r = some (a, r') → P a

theorem bind_eq_some {p : Read α} {f : α → Read β} {r r'' : Reading} {b : β} :
    (p >>= f) r = some (b, r'') ↔ ∃ a r', p r = some (a, r') ∧ f a r' = some (b, r'') := by
  simp only [bind, StateT.bind, Option.bind_eq_some_iff, Prod.exists]

theorem yields_bind {p : Read α} {f : α → Read β} (h : ∀ a, Yields Q (f a)) :
    Yields Q (p >>= f) := fun r b r'' hb => by
  obtain ⟨a, r', -, hf⟩ := bind_eq_some.1 hb
  exact h a r' b r'' hf

theorem Yields.bind {p : Read α} {f : α → Read β} (hp : Yields P p)
    (h : ∀ a, P a → Yields Q (f a)) : Yields Q (p >>= f) := fun r b r'' hb => by
  obtain ⟨a, r', ha, hf⟩ := bind_eq_some.1 hb
  exact h a (hp r a r' ha) r' b r'' hf

theorem Yields.mono {P P' : α → Prop} {p : Read α} (h : Yields P p) (h' : ∀ a, P a → P' a) :
    Yields P' p := fun r a r' ha => h' a (h r a r' ha)

theorem yields_pure {a : α} (h : P a) : Yields P (pure a : Read α) := fun r b r' hb => by
  cases hb
  exact h

theorem yields_fail : Yields P (fail : Read α) := fun _ _ _ h => nomatch h

theorem yields_map {p : Read α} {f : α → β} (h : Yields (fun a => Q (f a)) p) :
    Yields Q (f <$> p) := by
  rw [map_eq_pure_bind]
  exact h.bind fun a ha => yields_pure ha

theorem yields_withMode {change : Mode → Mode} {p : Read α} (h : Yields P p) :
    Yields P (withMode change p) := by
  unfold withMode
  refine yields_bind fun _ => yields_bind fun _ => h.bind fun a ha => ?_
  exact yields_bind fun _ => yields_pure ha

theorem yields_node {P : Node → Prop} {k : Kind} {lo : Nat} {ks : List Node}
    (h : ∀ s, P (.mk k s ks)) : Yields P (node k lo ks) :=
  yields_bind fun _ => yields_pure (h _)

theorem yields_plain_node {k : Kind} {lo : Nat} {ks : List Node} (h : k.isPlain = true) :
    Yields Plain (node k lo ks) :=
  yields_node fun _ => Node.plain_mk h

theorem yields_attempt {p : Read α} (h : Yields P p) :
    Yields (fun o => ∀ a ∈ o, P a) (attempt p) := fun r o r' ho => by
  unfold attempt at ho
  rcases hp : p r with _ | ⟨a, r₁⟩ <;> rw [hp] at ho
  · obtain ⟨rfl, -⟩ := Prod.mk.inj (Option.some.inj ho)
    exact fun _ h => nomatch h
  · obtain ⟨rfl, -⟩ := Prod.mk.inj (Option.some.inj ho)
    intro b hb
    exact Option.some.inj hb ▸ h r a r₁ hp

theorem yields_tried {p : Read α} (h : Yields P p) :
    Yields (fun o => ∀ a ∈ o, P a) (tried p) :=
  yields_attempt (yields_withMode h)

end Yielding

variable (g : Grammar)

section Words

theorem yields_anyName : Yields Plain anyName := by
  unfold anyName
  refine yields_bind fun lo => yields_bind fun t => ?_
  split
  · exact yields_bind fun _ => yields_plain_node rfl
  · exact yields_fail

theorem yields_reference : Yields Plain reference := by
  unfold reference
  repeat' first | exact yields_anyName | refine yields_bind fun _ => ?_

theorem yields_privateName : Yields Plain privateName := by
  unfold privateName
  repeat' first
    | exact yields_plain_node rfl
    | exact yields_fail
    | refine yields_bind fun _ => ?_
    | split

theorem yields_stringLit : Yields Plain stringLit := by
  unfold stringLit
  repeat' first
    | exact yields_plain_node rfl
    | exact yields_fail
    | refine yields_bind fun _ => ?_
    | split

theorem yields_numberLit : Yields Plain numberLit := by
  unfold numberLit
  repeat' first
    | exact yields_plain_node rfl
    | exact yields_fail
    | refine yields_bind fun _ => ?_
    | split

theorem yields_regexLit : Yields Plain regexLit := by
  unfold regexLit
  repeat' first
    | exact yields_plain_node rfl
    | exact yields_fail
    | refine yields_bind fun _ => ?_
    | split

theorem yields_word {k : Kind} (h : k.isPlain = true) : Yields Plain (word k) := by
  unfold word
  exact yields_bind fun _ => yields_bind fun _ => yields_plain_node h

theorem yields_superWord : Yields Plain superWord := by
  unfold superWord
  refine yields_bind fun _ => yields_bind fun _ => (yields_word rfl).bind fun n hn => ?_
  repeat' first | exact yields_pure hn | refine yields_bind fun _ => ?_

theorem yields_template (b : Bool) : Yields Plain (template g b) := by
  unfold template
  repeat' first | exact yields_plain_node rfl | refine yields_bind fun _ => ?_

theorem yields_arrayLit : Yields Plain (arrayLit g) := by
  unfold arrayLit
  repeat' first | exact yields_plain_node rfl | refine yields_bind fun _ => ?_

theorem yields_importExpr : Yields Plain (importExpr g) := by
  unfold importExpr
  refine yields_bind fun lo => yields_bind fun _ => yields_bind fun b => ?_
  split
  · refine yields_bind fun m => yields_bind fun _ => ?_
    extract_lets called
    have hcalled : ∀ phase, Yields Plain (called phase) := fun phase =>
      yields_bind fun _ => (yields_plain_node rfl).bind fun callee hc => yields_bind fun _ =>
        yields_node fun _ => (Node.continues_mk rfl).plain hc
    refine yields_bind fun isMeta => ?_
    split
    · exact yields_bind fun _ => yields_bind fun _ => yields_bind fun _ => yields_plain_node rfl
    · repeat' first | exact hcalled _ | exact yields_fail | split | refine yields_bind fun _ => ?_
  · exact (yields_plain_node rfl).bind fun callee hc => yields_bind fun _ => yields_bind fun _ =>
      yields_node fun _ => (Node.continues_mk rfl).plain hc

end Words

section Functions

theorem yields_functionExpr (lo : Nat) (isAsync : Bool) :
    Yields Plain (functionExpr g lo isAsync) := by
  unfold functionExpr
  repeat' first
    | exact yields_plain_node rfl
    | exact yields_fail
    | refine yields_bind fun _ => ?_
    | split

theorem yields_arrowFrom (lo : Nat) (marks : FunctionMarks) (params : List Node) (returns : Node) :
    Yields (fun n => n.kind = .arrow marks) (arrowFrom g lo marks params returns) := by
  unfold arrowFrom
  exact yields_bind fun _ => yields_bind fun _ => yields_node fun _ => rfl

theorem plain_of_arrow {marks : FunctionMarks} {n : Node} (h : n.kind = .arrow marks) : n.Plain :=
  Node.plain_of_kind (by rw [h]; rfl)

theorem yields_arrow? (lo : Nat) (marks : FunctionMarks) (mayBeArrow : Bool) (items : List Node)
    (endsInComma : Bool) :
    Yields (fun o => ∀ f ∈ o, Plain f) (arrow? g lo marks mayBeArrow items endsInComma) := by
  unfold arrow?
  refine yields_bind fun l => yields_bind fun isColon => ?_
  extract_lets typed finish late
  have hfinish : ∀ b returns, Yields Plain (finish b returns) := fun b returns =>
    yields_bind fun _ => yields_bind fun _ => yields_bind fun _ =>
      (yields_arrowFrom g lo marks _ _).mono fun _ => plain_of_arrow
  have hlate : ∀ returns, Yields (fun o => ∀ f ∈ o, Plain f) (late returns) := by
    intro returns
    refine yields_bind fun isArrow => ?_
    split
    · refine yields_bind fun _ => yields_bind fun _ => (hfinish _ _).bind fun f hf => ?_
      refine yields_bind fun _ => yields_bind fun _ => yields_pure fun f' hf' => ?_
      exact Option.some.inj hf' ▸ hf
    · exact yields_bind fun _ => yields_pure nofun
  refine yields_bind fun m => ?_
  extract_lets colonFollows goOn
  have hgoOn : ∀ early, (∀ f ∈ early, Plain f) →
      Yields (fun o => ∀ f ∈ o, Plain f) (goOn early) := by
    intro early he
    unfold goOn
    split
    · exact yields_pure he
    · split <;> exact yields_bind hlate
  split
  · exact (yields_pure nofun).bind hgoOn
  · refine (yields_tried ?_).bind hgoOn
    exact yields_bind fun _ => (hfinish _ _).bind fun f hf => yields_bind fun _ =>
      yields_bind fun _ => yields_pure hf

theorem yields_parenthesized : Yields Plain (parenthesized g) := by
  unfold parenthesized
  refine yields_bind fun lo => yields_bind fun m => ?_
  extract_lets mayBeArrow
  refine yields_bind fun items => yields_bind fun hi =>
    (yields_arrow? g lo .plain _ _ _).bind fun o ho => ?_
  split
  · exact yields_pure (ho _ rfl)
  · refine yields_bind fun _ => ?_
    split
    · exact yields_fail
    · exact yields_pure (Node.plain_mk rfl)
    · exact yields_pure (Node.plain_mk rfl)

theorem yields_nameOrArrow (lo : Nat) (isAsync : Bool) {name : Node} (hn : name.Plain) :
    Yields Plain (nameOrArrow g lo isAsync name) := by
  have harrow : ∀ marks params returns, Yields Plain (arrowFrom g lo marks params returns) :=
    fun marks params returns =>
      (yields_arrowFrom g lo marks params returns).mono fun _ => plain_of_arrow
  have has : ∀ t, Yields Plain (node .asExpr lo [name, t]) := fun t =>
    yields_node fun _ => (Node.continues_mk rfl).plain hn
  unfold nameOrArrow
  repeat' first
    | exact yields_pure hn
    | exact harrow _ _ _
    | exact has _
    | split
    | refine yields_bind fun _ => ?_
    | dsimp only

theorem yields_identifier : Yields Plain (identifier g) := by
  unfold identifier
  exact yields_bind fun lo => yields_reference.bind fun name hn => yields_nameOrArrow g lo false hn

theorem yields_genericAsync (lo : Nat) : Yields Plain (genericAsync g lo) := by
  unfold genericAsync
  refine yields_bind fun _ => yields_bind fun _ => yields_bind fun _ => yields_bind fun _ =>
    (yields_arrowFrom g lo ⟨true, false⟩ _ _).bind fun f hf => ?_
  split
  · exact yields_pure (plain_of_arrow hf)
  · exact yields_fail

theorem yields_asyncExpr : Yields Plain (asyncExpr g) := by
  unfold asyncExpr
  refine yields_bind fun lo => yields_bind fun m => ?_
  extract_lets mayBeArrow goOn
  have hgoOn : ∀ o, (∀ f ∈ o, Plain f) → Yields Plain (goOn o) := by
    intro o ho
    unfold goOn
    split
    · exact yields_pure (ho _ rfl)
    · refine yields_bind fun isOpen => yields_anyName.bind fun name hn => ?_
      split
      · refine yields_bind fun items => yields_bind fun hi =>
          (yields_arrow? g lo ⟨true, false⟩ _ _ _).bind fun o ho => ?_
        split
        · exact yields_pure (ho _ rfl)
        · exact yields_pure ((Node.continues_mk rfl).plain hn)
      · exact yields_nameOrArrow g lo true hn
  refine yields_bind fun l => yields_bind fun isAngle => yields_bind fun isFunction => ?_
  split
  · exact yields_bind fun _ => yields_functionExpr g lo true
  · split
    · exact (yields_tried (yields_genericAsync g lo)).bind hgoOn
    · exact (yields_pure nofun).bind hgoOn

end Functions

section Operands

/-- What is read starts with an object only where an opening brace stands. -/
def Opens (p : Read Node) : Prop :=
  ∀ r n r', p r = some (n, r') → n.opensObject = true → r.token = .sign "\x7b"

theorem Yields.opens {p : Read Node} (h : Yields Plain p) : Opens p := fun r n r' hr ho =>
  absurd ho (Node.plain_iff.1 (h r n r' hr))

/-- A reader that looks at the state and leaves it as it is. -/
def Looks (p : Read α) : Prop := ∀ r a r', p r = some (a, r') → r' = r

theorem Looks.opens {p : Read α} {f : α → Read Node} (hp : Looks p) (h : ∀ a, Opens (f a)) :
    Opens (p >>= f) := fun r n r' hr ho => by
  obtain ⟨a, r₁, ha, hf⟩ := bind_eq_some.1 hr
  obtain rfl := hp r a r₁ ha
  exact h a _ n r' hf ho

theorem Opens.bind {p : Read Node} {f : Node → Read Node} (hp : Opens p)
    (h : ∀ e, Yields (Continues e) (f e)) : Opens (p >>= f) := fun r n r' hr ho => by
  obtain ⟨e, r₁, he, hf⟩ := bind_eq_some.1 hr
  exact hp r e r₁ he (h e r₁ n r' hf ho)

/-- Where no brace stands. -/
theorem opens_token {f : Token → Read Node}
    (h : ∀ t, t ≠ .sign "\x7b" → Yields Plain (f t)) : Opens (token >>= f) := by
  intro r n r' hr ho
  have hf : f r.token r = some (n, r') := hr
  exact Decidable.byContradiction fun ht => Node.plain_iff.1 (h r.token ht r n r' hf) ho

theorem withMode_run (change : Mode → Mode) (p : Read α) (r : Reading) :
    withMode change p r = (p { r with mode := change r.mode }).map fun ar =>
      (ar.1, { ar.2 with mode := r.mode }) := by
  unfold withMode
  show (p { r with mode := change r.mode }).bind _ = _
  rcases p { r with mode := change r.mode } with _ | ⟨a, r₁⟩ <;> rfl

theorem withMode_eq_some {change : Mode → Mode} {p : Read α} {r r' : Reading} {a : α}
    (h : withMode change p r = some (a, r')) :
    ∃ r₁, p { r with mode := change r.mode } = some (a, r₁) := by
  rw [withMode_run, Option.map_eq_some_iff] at h
  obtain ⟨⟨a', r₁⟩, hp, heq⟩ := h
  obtain ⟨rfl, -⟩ := Prod.mk.inj heq
  exact ⟨r₁, hp⟩

theorem opens_withMode {change : Mode → Mode} {p : Read Node} (h : Opens p) :
    Opens (withMode change p) := fun r n r' hr ho => by
  obtain ⟨r₁, hp⟩ := withMode_eq_some hr
  exact h { r with mode := change r.mode } n r₁ hp ho

theorem opens_attempt {p : Read Node} {f : Option Node → Read Node} (hp : Opens p)
    (h : ∀ e, Yields (Continues e) (f (some e))) (h' : Opens (f none)) :
    Opens (attempt p >>= f) := fun r n r' hr ho => by
  obtain ⟨o, r₁, ht, hf⟩ := bind_eq_some.1 hr
  unfold attempt at ht
  rcases hp' : p r with _ | ⟨e, r₂⟩ <;> rw [hp'] at ht <;> cases ht
  · exact h' r n r' hf ho
  · exact hp r e r₁ hp' (h e r₁ n r' hf ho)

theorem looks_lo : Looks lo := fun _ _ _ h => by cases h; rfl
theorem looks_token : Looks token := fun _ _ _ h => by cases h; rfl
theorem looks_mode : Looks mode := fun _ _ _ h => by cases h; rfl
theorem looks_language : Looks language := fun _ _ _ h => by cases h; rfl
theorem looks_isWord (w : String) : Looks (isWord w) := fun _ _ _ h => by cases h; rfl
theorem looks_isSign (w : String) : Looks (isSign w) := fun _ _ _ h => by cases h; rfl
theorem looks_bound : Looks bound := fun _ _ _ h => by cases h; rfl

theorem yields_newExpr : ∀ fuel, Yields Plain (newExpr g fuel)
  | 0 => yields_fail
  | fuel + 1 => by
    rw [newExpr]
    repeat' first
    | exact yields_plain_node rfl
    | exact yields_fail
    | refine yields_bind fun _ => ?_
    | split

/-- A brace opens an object only at the token it is. -/
theorem opens_primary (hm : Yields Plain g.markup) : Opens (primary g) := by
  unfold primary
  refine looks_lo.opens fun lo => opens_token fun t ht => ?_
  split
  · repeat' first
      | with_reducible exact yields_superWord
      | with_reducible exact yields_functionExpr g lo false
      | with_reducible exact yields_importExpr g
      | with_reducible exact yields_asyncExpr g
      | with_reducible exact yields_identifier g
      | exact yields_word rfl
      | exact yields_plain_node rfl
      | split
      | refine yields_bind fun _ => ?_
  · exact yields_stringLit
  · exact yields_numberLit
  · exact yields_numberLit
  · exact yields_bind fun _ => yields_bind fun _ => yields_privateName
  · rename_i s
    have hs : s ≠ "\x7b" := fun h => ht (congrArg Token.sign h)
    rw [if_neg hs]
    split_ifs
    · exact yields_regexLit
    · exact yields_template g false
    · exact yields_arrayLit g
    · exact yields_parenthesized g
    · refine yields_bind fun l => ?_
      split
      · exact hm.bind fun e he => yields_bind fun _ => yields_pure he
      · exact yields_fail
  · exact yields_fail

theorem yields_taggedTemplate (tag args : Node) :
    Yields (Continues tag) (taggedTemplate g tag args) := by
  unfold taggedTemplate
  exact yields_bind fun _ => yields_node fun _ => Node.continues_mk rfl

theorem yields_typedStep (calls : Bool) {callKind : Kind} (hk : callKind.isObject = false)
    (inChain : Bool) (e : Node) :
    Yields (fun s => Continues e s.1) (typedStep g calls callKind inChain e) := by
  unfold typedStep
  have hcall : ∀ args targs, Yields (Continues e) (node callKind e.lo [e, args, targs]) :=
    fun args targs => yields_node fun _ => Node.continues_mk hk
  have hinst : ∀ targs, Yields (Continues e) (node .instantiation e.lo [e, targs]) := fun targs =>
    yields_node fun _ => Node.continues_mk rfl
  refine yields_bind fun targs => yields_bind fun isOpen => ?_
  split
  · exact yields_bind fun _ => (hcall _ _).bind fun n hn => yields_pure hn
  · refine yields_bind fun isTick => ?_
    split
    · exact yields_bind fun _ => (yields_taggedTemplate g e _).bind fun n hn => yields_pure hn
    · repeat' first
        | exact (hinst _).bind fun n hn => yields_pure hn
        | refine yields_bind fun _ => ?_

theorem yields_chainStep (e : Node) : Yields (Continues e) (chainStep g e) := by
  unfold chainStep
  have hmember : ∀ key, Yields (Continues e) (node (.optionalMember true) e.lo [e, key]) :=
    fun key => yields_node fun _ => Node.continues_mk rfl
  extract_lets called
  have hcalled : ∀ targs, Yields (Continues e) (called targs) := fun targs =>
    yields_bind fun _ => yields_node fun _ => Node.continues_mk rfl
  repeat' first
    | exact hmember _
    | exact hcalled _
    | split
    | refine yields_bind fun _ => ?_

theorem yields_step? (calls inChain : Bool) (e : Node) :
    Yields (fun o => ∀ s ∈ o, Continues e s.1) (step? g calls inChain e) := by
  have hsome : ∀ {p : Read Node} {b : Bool}, Yields (Continues e) p →
      Yields (fun o : Option (Node × Bool) => ∀ s ∈ o, Continues e s.1)
        (p >>= fun n => pure (some (n, b))) := fun hp =>
    hp.bind fun n hn => yields_pure fun s hs => Option.some.inj hs ▸ hn
  have hnode : ∀ {k : Kind} {ks : List Node}, k.isObject = false →
      Yields (Continues e) (node k e.lo (e :: ks)) := fun hk =>
    yields_node fun _ => Node.continues_mk hk
  unfold step?
  refine yields_bind fun l => ?_
  extract_lets types memberKind callKind
  have hmember : memberKind.isObject = false := by
    unfold memberKind
    split <;> rfl
  have hcall : callKind.isObject = false := by
    unfold callKind
    split <;> rfl
  refine yields_bind fun isPoint => ?_
  split
  · exact yields_bind fun _ => yields_bind fun _ => hsome (hnode hmember)
  refine yields_bind fun isBracket => ?_
  split
  · exact yields_bind fun _ => hsome (hnode hmember)
  refine yields_bind fun isChain => ?_
  split
  · exact yields_bind fun _ => hsome (yields_chainStep g e)
  refine yields_bind fun isOpen => ?_
  split
  · exact yields_bind fun _ => hsome (hnode hcall)
  refine yields_bind fun isTick => ?_
  split
  · exact yields_bind fun _ => hsome (yields_taggedTemplate g e _)
  refine yields_bind fun isMark => yields_bind fun isNew => ?_
  split
  · exact yields_bind fun _ => hsome (hnode rfl)
  refine yields_bind fun isAngle => ?_
  split
  · exact yields_tried (yields_typedStep g calls hcall inChain e)
  · exact yields_pure nofun

theorem yields_steps (calls : Bool) : ∀ (fuel : Nat) (inChain : Bool) (e : Node),
    Yields (Continues e) (steps g calls fuel inChain e)
  | 0, _, _ => yields_fail
  | fuel + 1, inChain, e => by
    rw [steps]
    refine (yields_step? g calls inChain e).bind fun o ho => ?_
    split
    · exact (yields_steps calls fuel _ _).mono fun n hn => (ho _ rfl).trans hn
    · exact yields_pure (.refl e)

theorem opens_leftHandSide (hm : Yields Plain g.markup) : Opens (leftHandSide g) := by
  unfold leftHandSide
  have hrest : ∀ first, Yields (Continues first) (do
      if first.isArrow || isMarkup first then return first
      else steps g true (← bound) false first) := fun first => by
    split
    · exact yields_pure (.refl first)
    · exact yields_bind fun _ => yields_steps g true _ false first
  refine (looks_isWord "new").opens fun isNew => ?_
  extract_lets goOn
  split
  · exact (looks_bound.opens fun fuel => (yields_newExpr g fuel).opens).bind hrest
  · exact (opens_primary g hm).bind hrest

theorem opens_postfixUpdate (hm : Yields Plain g.markup) : Opens (postfixUpdate g) := by
  unfold postfixUpdate
  refine (opens_leftHandSide g hm).bind fun e => ?_
  have hupdate : ∀ sign, Yields (Continues e) (node (.update sign false) e.lo [e]) := fun _ =>
    yields_node fun _ => Node.continues_mk rfl
  repeat' first
    | exact yields_pure (.refl e)
    | exact hupdate _
    | split
    | refine yields_bind fun _ => ?_

theorem yields_awaitFrom (lo : Nat) : Yields Plain (awaitFrom g lo) := by
  unfold awaitFrom
  repeat' first
    | exact yields_plain_node rfl
    | refine yields_bind fun _ => ?_
    | split
    | dsimp only

theorem opens_operand (hm : Yields Plain g.markup) : Opens (operand g) := by
  unfold operand
  have hpostfix := opens_postfixUpdate g hm
  refine looks_lo.opens fun lo => looks_token.opens fun t => ?_
  split
  · rename_i s
    split
    · exact Yields.opens <| yields_bind fun _ => yields_bind fun _ => yields_bind fun _ =>
        yields_bind fun _ => yields_plain_node rfl
    split
    · exact Yields.opens <| yields_bind fun _ => yields_bind fun _ => yields_plain_node rfl
    refine looks_language.opens fun l => looks_language.opens fun l' => ?_
    split
    · refine Yields.opens <| yields_bind fun _ => yields_bind fun isConst => ?_
      split
      · exact yields_bind fun _ => yields_bind fun _ => yields_plain_node rfl
      · exact yields_bind fun _ => yields_bind fun _ => yields_bind fun _ => yields_plain_node rfl
    · exact hpostfix
  · split
    · exact Yields.opens <| yields_bind fun _ => yields_bind fun _ => yields_bind fun _ =>
        yields_bind fun _ => yields_bind fun _ => yields_plain_node rfl
    split
    · exact Yields.opens <| yields_bind fun _ => yields_awaitFrom g lo
    · exact hpostfix
  · exact hpostfix

end Operands

section Operators

theorem yields_operators : ∀ (fuel least : Nat) (left : Node),
    Yields (Continues left) (operators g fuel least left)
  | 0, _, _ => yields_fail
  | fuel + 1, least, left => by
    -- an operator makes a node that starts with what is on its left
    have hleft : ∀ {k : Kind} {ks : List Node}, k.isObject = false →
        Yields (Continues left) (node k left.lo (left :: ks) >>= operators g fuel least) :=
      fun hk => (yields_node fun _ => Node.continues_mk (e := left) hk).bind fun n hn =>
        (yields_operators fuel least n).mono fun _ => hn.trans
    rw [operators]
    refine yields_bind fun isAngle => ?_
    extract_lets goOn
    have hgoOn : ∀ u, Yields (Continues left) (goOn u) := by
      intro u
      refine yields_bind fun op => ?_
      split
      · exact yields_pure (.refl left)
      · split
        · exact yields_pure (.refl left)
        refine yields_bind fun _ => yields_bind fun isConst => ?_
        split
        · exact yields_bind fun _ => hleft rfl
        split
        · refine yields_bind fun t => hleft ?_
          split <;> rfl
        · exact yields_bind fun _ => yields_bind fun _ => yields_bind fun _ => yields_bind fun _ =>
            hleft rfl
    split
    · exact yields_bind hgoOn
    · exact hgoOn ()

theorem yields_alternatives (test : Node) : Yields (Continues test) (alternatives g test) := by
  unfold alternatives
  exact yields_bind fun _ => yields_bind fun _ => yields_bind fun _ => yields_bind fun _ =>
    yields_node fun _ => Node.continues_mk rfl

theorem continues_target? {strict : Bool} {n p : Node} (h : n.target? strict = some p) :
    n.Continues p := by
  unfold Node.target? at h
  split_ifs at h with hl hs
  · -- what is left of a list is a pattern, which is no object
    refine Node.Plain.continues ?_ _
    rcases n with ⟨k, s, ks⟩
    cases k with
    | array endsInComma =>
      rw [Node.element?] at h
      obtain ⟨items, -, h⟩ := Option.bind_eq_some_iff.1 h
      exact Option.some.inj h ▸ Node.plain_mk rfl
    | object endsInComma =>
      rw [Node.element?] at h
      obtain ⟨props, -, h⟩ := Option.bind_eq_some_iff.1 h
      exact Option.some.inj h ▸ Node.plain_mk rfl
    | _ => exact absurd hl Bool.false_ne_true
  · exact Option.some.inj h ▸ .refl n

theorem yields_toTarget {read : Bool → Node → Option Node} {n : Node}
    (h : ∀ strict p, read strict n = some p → n.Continues p) :
    Yields (Continues n) (toTarget read n) := by
  unfold toTarget
  refine yields_bind fun m => ?_
  split
  · exact yields_pure (h _ _ ‹_›)
  · exact yields_fail

theorem yields_assignmentFrom (left : Node) : Yields (Continues left) (assignmentFrom g left) := by
  unfold assignmentFrom
  refine yields_bind fun t => ?_
  split
  · split
    · refine (yields_toTarget ?_).bind fun target ht => ?_
      · intro strict p
        split
        · exact continues_target?
        · intro h
          dsimp only at h
          split_ifs at h
          exact Option.some.inj h ▸ .refl left
      · exact yields_bind fun _ => yields_bind fun _ => yields_node fun _ =>
          ht.trans (Node.continues_mk rfl)
    · exact yields_pure (.refl left)
  · exact yields_pure (.refl left)

end Operators

section Expressions

theorem opens_binary (ho : Opens g.operand) : Opens (binary g) := by
  unfold binary
  refine ho.bind fun first => ?_
  split
  · exact yields_pure (.refl first)
  · exact yields_bind fun _ => yields_operators g _ 0 first

theorem opens_conditional (ho : Opens g.operand) : Opens (conditional g) := by
  unfold conditional
  refine (opens_binary g ho).bind fun test => yields_bind fun isMark => ?_
  split
  · exact yields_alternatives g test
  · exact yields_pure (.refl test)

theorem yields_yieldExpr : Yields Plain (yieldExpr g) := by
  unfold yieldExpr
  repeat' first
    | exact yields_plain_node rfl
    | refine yields_bind fun _ => ?_
    | split
    | dsimp only

theorem opens_plainAssignment (ho : Opens g.operand) : Opens (plainAssignment g) := by
  unfold plainAssignment
  refine looks_mode.opens fun m => (looks_isWord _).opens fun isYield => ?_
  split
  · exact (yields_yieldExpr g).opens
  · refine (opens_conditional g ho).bind fun left => ?_
    split
    · exact yields_pure (.refl left)
    · exact yields_assignmentFrom g left

theorem yields_genericArrow : Yields Plain (genericArrow g) := by
  unfold genericArrow
  refine yields_bind fun lo => yields_bind fun tps => yields_bind fun start =>
    yields_bind fun f => ?_
  split
  · exact yields_pure (Node.plain_mk rfl)
  · exact yields_fail

theorem opens_assignment (ho : Opens g.operand) : Opens (assignment g) := by
  unfold assignment
  have hplain := opens_plainAssignment g ho
  refine looks_lo.opens fun lo => opens_withMode <| looks_language.opens fun l =>
    (looks_isSign "<").opens fun isAngle => ?_
  split
  · split
    · refine opens_attempt hplain (fun e => yields_pure (.refl e)) ?_
      exact (yields_withMode (yields_genericArrow g)).opens
    · refine opens_attempt (yields_withMode (yields_genericArrow g)).opens
        (fun e => yields_pure (.refl e)) hplain
  · exact hplain

theorem opens_separated {sign : String} {item : Read Node} {f : List Node → Read Node}
    (hi : Opens item) (h : ∀ e es, Yields (Continues e) (f (e :: es))) :
    Opens (separated sign item >>= f) := by
  rw [separated, bind_assoc]
  refine hi.bind fun first => ?_
  rw [bind_assoc]
  refine yields_bind fun rest => ?_
  rw [pure_bind]
  exact h first rest

theorem opens_expression (ha : Opens g.assignment) : Opens (expression g) := by
  unfold expression
  refine looks_lo.opens fun lo => opens_separated ha fun e es => ?_
  split
  · rename_i e' heq
    obtain ⟨rfl, -⟩ := List.cons.inj heq
    exact yields_pure (.refl e)
  · exact yields_node fun _ => Node.continues_mk rfl

end Expressions

end Read
end ScopedStyles.Script
