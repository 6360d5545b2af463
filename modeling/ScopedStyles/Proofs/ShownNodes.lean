import ScopedStyles.Proofs.OpeningLayouts

/-!
# Nodes whose layout is shown

The layout of a node is made of the layouts of other nodes, of its kids for the most part and of
their kids where it looks into them (`shown`). Result types of getters, type parameters of class
expressions and names in imports and exports are not among them. What opens in the layout of a node
that is shown opens in the whole (`opens_shown`), so it opens in the layout of a program if the node
stands where nodes are shown all the way (`Program.opens_layout`).
-/

namespace ScopedStyles.Script

namespace Layout

open Node

variable {pos : Nat} {n : Node} {ns : List Node}

theorem plain_part (k : Kind) (s : Span) (ks : List Node) :
    (mk k s ks).part.plain = Layout.node k s (ks.map part) := by
  rw [← parts_eq_map]
  rfl

section Expressions

/-- What the layout of a node is, by the kinds that it may be of. -/
theorem node_eq {k : Kind} {s : Span} {ps : List Part} {l : Layout}
    (h : (expression k s ps <|> pattern k s ps <|> classMember k s ps <|> statement? k s ps <|>
      item k s ps <|> markup k s ps <|> type k s ps <|> typeMember k s ps <|>
      typeDeclaration k s ps) = some l) : Layout.node k s ps = l := by
  rw [Layout.node, h]
  rfl

def shownExpression : Kind → List Node → List Node
  | .getterProp, [key, _, body] => key :: body.items
  | .setterProp, [key, params, body] => key :: params.kids ++ body.items
  | .newCall, [f, args, targs] => [f, targs] ++ args.items.flatMap unspread
  | .template, [es, cs] => es.kids.take cs.kids.length
  | .taggedTemplate, [tag, args, t] =>
    tag :: args :: (t.kid 0).kids.take (t.kid 1).kids.length
  | .array _, items => items.flatMap unspread
  | .object _, props => props
  | .keyValue, [a, b] | .assignProp, [a, b] => [a, b]
  | .methodProp _, [key, f] => key :: f.ofFunction
  | .spread, [e] | .computed, [e] | .unary _, [e] | .update _ true, [e] | .update _ false, [e] =>
    [e]
  | .binary _, [l, r] | .assign _, [l, r] => [l, r]
  | .conditional, [t, y, n] => [t, y, n]
  | .sequence, es => es
  | .call, [f, args, targs] | .optionalCall _, [f, args, targs] =>
    f :: targs :: args.kids.flatMap unspread
  | .member, [e, k] | .optionalMember _, [e, k] => [e, k]
  | .arrow _, [ps, body, tps, r] => tps :: r :: ps.kids ++ body.ofArrow
  | .functionExpr, [name, f] => name :: f.ofFunction
  | .classExpr, [name, body] => name :: body.ofClass
  | .yield_ _, [e] | .await_, [e] | .paren, [e] | .asConst, [e] | .nonNull, [e] => [e]
  | .asExpr, [e, t] | .satisfies, [e, t] | .typeAssertion, [e, t] | .instantiation, [e, t] => [e, t]
  | _, _ => []

theorem opens_shownExpression {k : Kind} {ks : List Node} (h : Shows pos (shownExpression k ks))
    (s : Span) : (mk k s ks).part.plain.Opens pos := by
  rw [plain_part]
  unfold shownExpression at h
  split at h
  case h_1 => -- a getter
    rcases (shows_cons _ _).1 h with h | h
    · exact ((h.right _).left _).left _
    · exact (opens_items h []).right _
  case h_2 => -- a setter
    rcases (shows_append _ _).1 h with h | h
    · rw [node_eq rfl, kids_part]
      exact Opens.left (by grind) _
    · exact (opens_items h []).right _
  case h_3 => -- a call with `new`
    rcases (shows_append _ _).1 h with h | h
    · exact Opens.left (by grind) _
    · exact (opens_arguments_items h s).right _
  all_goals first
    | exact (shows_nil.1 h).elim
    | rw [node_eq rfl]; grind

def shownPattern : Kind → List Node → List Node
  | .objectPattern _, [props, ann] => ann :: props.kids
  | .arrayPattern _, [items, ann] => ann :: items.kids
  | .binding, [a, b] | .keyValuePattern, [a, b] | .shorthandPattern, [a, b] | .rest _, [a, b]
  | .assignPattern, [a, b] => [a, b]
  | .parameter, [p] | .parameterProperty _, [p] => [p]
  | _, _ => []

theorem opens_shownPattern {k : Kind} {ks : List Node} (h : Shows pos (shownPattern k ks))
    (s : Span) : (mk k s ks).part.plain.Opens pos := by
  rw [plain_part]
  unfold shownPattern at h
  split at h
  case h_1 => -- properties
    rw [node_eq rfl, kids_part]
    rcases (shows_cons _ _).1 h with h | h
    · grind
    · rw [h.isEmpty]
      grind
  all_goals first
    | exact (shows_nil.1 h).elim
    | rw [node_eq rfl]; grind

def shownClassMember : Kind → List Node → List Node
  | .constructor_ _, [_, params, body] => params.kids ++ body.items
  | .method _ _, [key, f] => key :: f.ofFunction
  | .property _, [key, value, ann] => [key, value, ann]
  | .staticBlock, [b] => b.kids
  | _, _ => []

theorem opens_shownClassMember {k : Kind} {ks : List Node} (h : Shows pos (shownClassMember k ks))
    (s : Span) : (mk k s ks).part.plain.Opens pos := by
  rw [plain_part]
  unfold shownClassMember at h
  split at h
  case h_1 => -- a constructor
    rw [node_eq rfl, constructor, kids_part]
    rcases (shows_append _ _).1 h with h | h
    · exact Opens.left (by grind) _
    · exact (opens_items h _).right _
  case h_3 => -- a property
    rw [node_eq rfl, field]
    simp only [shows_cons, shows_nil, or_false] at h
    rcases h with h | h | h <;> grind
  all_goals first
    | exact (shows_nil.1 h).elim
    | rw [node_eq rfl]; grind

end Expressions

section Statements

theorem opens_statements (h : Shows pos ns) : ∃ n ∈ ns, Opens pos (statement n.part) :=
  h.imp fun _ hn => ⟨hn.1, opens_statement hn.2⟩

@[grind ←] theorem opens_ifLayout {test yes no : Node} (h : Shows pos [test, yes, no]) (s : Span) :
    Opens pos (ifLayout s test.part yes.part no.part) := by
  simp only [shows_cons, shows_nil, or_false] at h
  unfold ifLayout
  rcases h with h | h | h
  · grind
  · grind
  · rw [isAbsent_of_opens h]
    grind

@[grind ←] theorem opens_caseLayout {test : Node} (h : test.part.plain.Opens pos ∨ Shows pos ns)
    (s : Span) : Opens pos (caseLayout s test.part (ns.map part)) := by
  unfold caseLayout
  rcases h with h | h
  · rw [isAbsent_of_opens h]
    grind
  · rw [h.isEmpty]
    exact Opens.right ((Opens.right (opens_row _ _ _ (opens_statements h)) _).left _) _

@[grind ←] theorem opens_switchLayout {e : Node} (h : e.part.plain.Opens pos ∨ Shows pos ns)
    (s : Span) : Opens pos (switchLayout s e.part (ns.map part)) := by
  unfold switchLayout
  rcases h with h | h
  · grind
  · rw [h.isEmpty]
    grind

@[grind ←] theorem opens_tryLayout {body handler final : Node}
    (h : handler.part.plain.Opens pos ∨ Shows pos body.kids ∨ Shows pos final.items) (s : Span) :
    Opens pos (tryLayout s body.part handler.part final.part) := by
  unfold tryLayout after
  rcases h with h | h | h
  · rw [isAbsent_of_opens h]
    grind
  · grind
  · rw [isAbsent_of_items h]
    exact Opens.right (Opens.right (opens_block (kids_of_items h) true) _) _

theorem Opens.filter {l : Layout} (h : l.Opens pos) {f : Piece → Bool} (hmark : f (.mark pos))
    (htext : f (.text "\x7b")) : Opens pos (List.filter f l) := by
  obtain ⟨before, after, rfl⟩ := h
  exact ⟨before.filter f, after.filter f, by simp [hmark, htext]⟩

@[grind ←] theorem opens_expressionStatement (h : n.part.plain.Opens pos) (s : Span) :
    Opens pos (expressionStatement s n.part) :=
  (((opens_whole h).filter rfl rfl).left _).cons _

@[grind ←] theorem opens_variableList (h : Shows pos ns) (s : Span) (w : Variable) (d : Bool) :
    Opens pos (variableList s w d (ns.map part)) := by
  unfold variableList
  grind

@[grind ←] theorem opens_loopHead (h : Shows pos n.ofHead) : Opens pos (loopHead n.part) := by
  obtain ⟨k, s, ks⟩ := n
  unfold ofHead at h
  split at h
  · rename_i w d s' ds heq
    obtain ⟨rfl, rfl, rfl⟩ := Node.mk.inj heq
    unfold loopHead
    rw [kids_part]
    exact (opens_variableList h _ w d).right _
  · rename_i hne
    unfold loopHead
    split
    · rename_i w d hk
      obtain rfl : k = .variables w d := hk
      exact absurd rfl (hne w d s ks)
    · exact opens_whole ((shows_singleton _).1 h)

def shownStatement : Kind → List Node → List Node
  | .block, ss => ss
  | .catch_, [p, body] => p :: body.kids
  | .try_, [body, handler, final] => handler :: body.kids ++ final.items
  | .case_, [test, ss] => test :: ss.kids
  | .switch, [e, cases] => e :: cases.kids
  | .with_, [a, b] | .labeled, [a, b] | .while_, [a, b] | .doWhile, [a, b] | .declarator, [a, b] =>
    [a, b]
  | .return_, [e] | .break_, [e] | .continue_, [e] | .throw_, [e] | .exprStmt, [e] => [e]
  | .if_, [test, yes, no] => [test, yes, no]
  | .for_, [i, t, u, b] => t :: u :: b :: i.ofHead
  | .forIn, [l, r, b] | .forOf _, [l, r, b] => r :: b :: l.ofHead
  | .variables _ _, ds => ds
  | .functionDecl _, [name, f] => name :: f.ofFunction
  | .classDecl _ _, [name, body] => name :: body.kid 2 :: body.ofClass
  | _, _ => []

theorem opens_shownStatement {k : Kind} {ks : List Node} (h : Shows pos (shownStatement k ks))
    (s : Span) : (mk k s ks).part.plain.Opens pos := by
  rw [plain_part]
  unfold shownStatement at h
  split at h
  case h_1 => -- a block
    exact opens_blockOf h true rfl
  case h_2 => -- a handler
    rw [node_eq rfl]
    rcases (shows_cons _ _).1 h with h | h
    · rw [isAbsent_of_opens h]
      grind
    · exact (opens_block h true).right _
  all_goals first
    | exact (shows_nil.1 h).elim
    | rw [node_eq rfl]; grind

end Statements

section Imports

theorem opens_source {attributes : Node}
    (h : n.part.plain.Opens pos ∨ attributes.part.plain.Opens pos) (s : Span) :
    Opens pos (source s n.part attributes.part) := by
  unfold source
  grind

@[grind ←] theorem opens_importLayout {attributes : Node}
    (h : n.part.plain.Opens pos ∨ attributes.part.plain.Opens pos) (s : Span) (typeOnly : Bool)
    (phase : Phase) (ps : List Part) :
    Opens pos (importLayout s typeOnly phase ps n.part attributes.part) :=
  (opens_source h s).right _

/-- The names in imports and exports are left out. -/
def shownItem : Kind → List Node → List Node
  | .importDecl _ _, [_, source, attributes] => [source, attributes]
  | .exportDecl, [d] | .exportDefaultDecl, [d] | .exportDefaultExpr, [d] | .exportAssignment, [d] =>
    [d]
  | .importEquals _ _, [name, ref] => [name, ref]
  | _, _ => []

theorem opens_shownItem {k : Kind} {ks : List Node} (h : Shows pos (shownItem k ks)) (s : Span) :
    (mk k s ks).part.plain.Opens pos := by
  rw [plain_part]
  unfold shownItem at h
  split at h
  all_goals first
    | exact (shows_nil.1 h).elim
    | rw [node_eq rfl]; grind

@[grind ←] theorem opens_children : ∀ {ns : List Node}, Shows pos ns →
    Opens pos (children (ns.map part))
  | n :: ns, h => by
    have hcons : children ((n :: ns).map part) = n.part.plain ++ children (ns.map part) := rfl
    rw [hcons]
    rcases (shows_cons n ns).1 h with h | h
    · exact h.left _
    · exact (opens_children h).right _
  | [], h => (shows_nil.1 h).elim

theorem opens_ofContainer (h : Shows pos n.ofContainer) : Opens pos
    (match n.part.kind with
      | .emptyExpr => [.leading n.part.lo]
      | _ => n.part.whole) := by
  obtain ⟨k, s, ks⟩ := n
  unfold ofContainer at h
  split at h
  · exact (shows_nil.1 h).elim
  · rename_i hne
    split
    · rename_i hk
      obtain rfl : k = .emptyExpr := hk
      exact absurd rfl (hne s ks)
    · exact opens_whole ((shows_singleton _).1 h)

def shownMarkup : Kind → List Node → List Node
  | .container, [e] => e.ofContainer
  | .opening _, [name, attributes, targs] => name :: targs :: attributes.kids
  | .element, [opening, cs, closing] => opening :: closing :: cs.kids
  | .fragment, [cs] => cs.kids
  | .attribute, [name, value] => [name, value]
  | .spreadAttribute, [e] | .spreadChild, [e] => [e]
  | _, _ => []

theorem opens_shownMarkup {k : Kind} {ks : List Node} (h : Shows pos (shownMarkup k ks))
    (s : Span) : (mk k s ks).part.plain.Opens pos := by
  rw [plain_part]
  unfold shownMarkup at h
  split at h
  case h_1 => -- braces
    exact (((opens_ofContainer h).right _).left _).cons _
  case h_2 => -- a tag with its attributes
    rw [node_eq rfl, kids_part]
    simp only [shows_cons] at h
    rcases h with h | h | h
    · grind
    · grind
    · have hrow := opens_row s none space h
      rw [h.isEmpty]
      grind
  all_goals first
    | exact (shows_nil.1 h).elim
    | rw [node_eq rfl]; grind

end Imports

section Types

@[grind ←] theorem opens_members (h : Shows pos ns) (s : Span) :
    Opens pos (members s (ns.map part)) := by
  have hopens : ∃ n ∈ ns, Opens pos (n.part.plain ++ say ";") :=
    h.imp fun n hn => ⟨hn.1, hn.2.left _⟩
  have hlines : Opens pos (inLines s none (fun m => m.plain ++ say ";") (ns.map part)) :=
    opens_inLines hopens s none
  rw [members, h.isEmpty]
  exact (hlines.right _).left _

@[grind ←] theorem opens_functionType {ps tps r : Node} (h : Shows pos (tps :: r :: ps.kids))
    (s : Span) (word : String) : Opens pos (functionType s word ps.part tps.part r.part) := by
  simp only [shows_cons] at h
  rw [functionType, kids_part]
  rcases h with h | h | h <;> grind

@[grind ←] theorem opens_importOptions (h : n.part.plain.Opens pos) :
    Opens pos (importOptions n.part) := by
  rw [importOptions, isAbsent_of_opens h]
  exact ((h.right _).left _).left _

def shownType : Kind → List Node → List Node
  | .mappedType _ _, [p, n, t] => [p.kid 0, p.kid 1, n, t]
  | .importType, [source, options, q, args] => [source, options, q, args]
  | .templateType, [ts, cs] => ts.kids.take cs.kids.length
  | .typeArgs, ts | .typeParams, ts | .typeLiteral, ts | .tupleType, ts | .unionType, ts
  | .intersectionType, ts => ts
  | .functionType, [ps, tps, r] | .constructorType _, [ps, tps, r] => tps :: r :: ps.kids
  | .conditionalType, [t, e, y, n] => [t, e, y, n]
  | .typeParam _, [n, c, d] => [n, c, d]
  | .typeRef, [a, b] | .qualifiedName, [a, b] | .typeQuery, [a, b] | .tupleElement, [a, b]
  | .indexedType, [a, b] | .typePredicate _, [a, b] | .heritage, [a, b] => [a, b]
  | .typeAnn, [t] | .arrayType, [t] | .optionalType, [t] | .restType, [t] | .inferType, [t]
  | .parenType, [t] | .typeOperator _, [t] | .literalType, [t] => [t]
  | _, _ => []

theorem opens_shownType {k : Kind} {ks : List Node} (h : Shows pos (shownType k ks))
    (s : Span) : (mk k s ks).part.plain.Opens pos := by
  rw [plain_part]
  unfold shownType at h
  split at h
  case h_1 => -- a mapped type
    rw [node_eq rfl, kid_part, kid_part]
    simp only [shows_cons, shows_nil, or_false] at h
    refine (((Opens.left ?_ _).left _).left _).cons _
    rcases h with h | h | h | h
    · exact ((((((h.right _).left _).left _).left _).left _).left _).left _
    · exact ((((h.right _).left _).left _).left _).left _
    · exact ((((opens_after h h _).right _).left _).left _).left _
    · exact (opens_annotated h).right _
  case h_2 => -- an imported type
    rw [node_eq rfl]
    simp only [shows_cons, shows_nil, or_false] at h
    rcases h with h | h | h | h <;> grind
  case h_3 => -- a template
    rw [node_eq rfl, kids_part, kids_part]
    exact (opens_template h oneLineEnd).cons _
  all_goals first
    | exact (shows_nil.1 h).elim
    | exact (opens_row s _ space h).cons _
    | rw [node_eq rfl]; grind

@[grind ←] theorem opens_memberKey (h : Shows pos n.ofMemberKey) :
    Opens pos (memberKey n.part) := by
  obtain ⟨k, s, ks⟩ := n
  unfold ofMemberKey at h
  split at h
  · rename_i s' ks' heq
    obtain ⟨rfl, rfl, rfl⟩ := Node.mk.inj heq
    have hkid := (shows_singleton _).1 h
    show Opens pos (say "[" ++ ((mk .computed s ks).part.kid 0).whole ++ say "]")
    rw [kid_part]
    exact ((opens_whole hkid).right _).left _
  · rename_i hne
    unfold memberKey
    split
    · rename_i hk
      obtain rfl : k = .computed := hk
      exact absurd rfl (hne s ks)
    · exact (shows_singleton _).1 h

@[grind ←] theorem opens_signature {tps params : Node}
    (h : tps.part.plain.Opens pos ∨ Shows pos params.kids) (s : Span) (returns : Part) :
    Opens pos (signature s tps.part params.part returns) := by
  rw [signature, kids_part]
  grind

@[grind ←] theorem opens_signature_returns (h : n.part.plain.Opens pos) (s : Span)
    (tps params : Part) : Opens pos (signature s tps params n.part) :=
  (opens_annotated h).right _

def shownTypeMember : Kind → List Node → List Node
  | .indexSignature _ _, [p, t] => [p, t]
  | .propertySignature _ _, [key, ann] | .getterSignature, [key, ann] => ann :: key.ofMemberKey
  | .methodSignature _, [key, ps, tps, r] => tps :: r :: ps.kids ++ key.ofMemberKey
  | .setterSignature, [key, ps] => ps.kids ++ key.ofMemberKey
  | .callSignature, [ps, tps, r] | .constructSignature, [ps, tps, r] => tps :: r :: ps.kids
  | _, _ => []

theorem opens_shownTypeMember {k : Kind} {ks : List Node} (h : Shows pos (shownTypeMember k ks))
    (s : Span) : (mk k s ks).part.plain.Opens pos := by
  rw [plain_part]
  unfold shownTypeMember at h
  split at h
  case h_1 => -- an index
    rw [node_eq rfl]
    rename_i p t
    have hp : [p.part] = [p].map part := rfl
    rw [hp]
    grind
  all_goals first
    | exact (shows_nil.1 h).elim
    | rw [node_eq rfl]; grind

theorem opens_moduleBody (h : Shows pos n.kids) : Opens pos (moduleBody n.part) := by
  rw [moduleBody, kids_part, h.isEmpty]
  exact (((opens_inLines (opens_statements h) _ _).right _).left _).cons _

theorem opens_moduleTail (n : Node) : ∀ name : Layout, name.Opens pos ∨ Shows pos n.ofModule →
    Opens pos (moduleTail name n.part) := by
  induction n using ofModule.induct with
  | case1 s ks =>
    rintro name (h | h)
    · exact h
    · exact (shows_nil.1 h).elim
  | case2 d g w s inner body ih =>
    intro name h
    rw [ofModule, shows_cons] at h
    show Opens pos (name ++ say "." ++ moduleTail inner.part.plain body.part)
    rcases h with h | h
    · exact (h.left _).left _
    · exact (ih _ h).right _
  | case3 k s ks hne hmodule =>
    intro name h
    rw [ofModule.eq_3 _ _ _ hne hmodule] at h
    have hbody : moduleTail name (mk k s ks).part =
        name ++ space ++ moduleBody (mk k s ks).part := by
      rw [part, moduleTail.eq_def]
      dsimp only
      split
      · rename_i hk
        exact (hne hk).elim
      · rename_i d g w inner body hk hkids
        rw [parts_eq_map, List.map_eq_cons_iff] at hkids
        obtain ⟨a, rest, rfl, -, hrest⟩ := hkids
        obtain ⟨b, rest, rfl, -, hrest⟩ := List.map_eq_cons_iff.1 hrest
        obtain rfl := List.map_eq_nil_iff.1 hrest
        exact (hmodule _ _ _ a b hk rfl).elim
      · rfl
    rw [hbody]
    rcases h with h | h
    · exact (h.left _).left _
    · exact (opens_moduleBody h).right _

def shownTypeDeclaration : Kind → List Node → List Node
  | .interface _, [name, tps, parents, body] => name :: tps :: body :: parents.kids
  | .module_ _ true _, [_, body] => body.ofModule
  | .module_ _ false _, [name, body] => name :: body.ofModule
  | .enum _ _, [name, ms] => name :: ms.kids
  | .typeAlias _, [name, tps, t] => [name, tps, t]
  | .enumMember, [name, value] => [name, value]
  | _, _ => []

theorem opens_shownTypeDeclaration {k : Kind} {ks : List Node}
    (h : Shows pos (shownTypeDeclaration k ks)) (s : Span) : (mk k s ks).part.plain.Opens pos := by
  rw [plain_part]
  unfold shownTypeDeclaration at h
  split at h
  case h_1 => -- an interface
    rw [node_eq rfl, kids_part]
    simp only [shows_cons] at h
    rcases h with h | h | h | h
    · grind
    · grind
    · grind
    · rw [h.isEmpty]
      grind
  case h_2 => -- a global namespace
    exact ((opens_moduleTail _ _ (.inr h)).right _).cons _
  case h_3 => -- a namespace
    exact (((opens_moduleTail _ _ ((shows_cons _ _).1 h)).right _).right _).cons _
  all_goals first
    | exact (shows_nil.1 h).elim
    | rw [node_eq rfl]; grind

end Types

section All

/-- The nodes whose layouts the layout of a node is made of. -/
def shown (k : Kind) (ks : List Node) : List Node :=
  shownExpression k ks ++ shownPattern k ks ++ shownClassMember k ks ++ shownStatement k ks ++
    shownItem k ks ++ shownMarkup k ks ++ shownType k ks ++ shownTypeMember k ks ++
    shownTypeDeclaration k ks

/-- What a node shows is part of its layout. -/
theorem opens_shown {k : Kind} {ks : List Node} (h : Shows pos (shown k ks)) (s : Span) :
    (mk k s ks).part.plain.Opens pos := by
  simp only [shown, shows_append] at h
  rcases h with (((((((h | h) | h) | h) | h) | h) | h) | h) | h
  · exact opens_shownExpression h s
  · exact opens_shownPattern h s
  · exact opens_shownClassMember h s
  · exact opens_shownStatement h s
  · exact opens_shownItem h s
  · exact opens_shownMarkup h s
  · exact opens_shownType h s
  · exact opens_shownTypeMember h s
  · exact opens_shownTypeDeclaration h s

end All

end Layout

namespace Node

/-- A node stands where it is shown. -/
inductive Shown (n : Node) : Node → Prop
  | here : Shown n n
  | inner {k : Kind} {s : Span} {ks : List Node} {c : Node} :
    c ∈ Layout.shown k ks → Shown n c → Shown n (mk k s ks)

theorem Shown.opens {n t : Node} (h : Shown n t) {pos : Nat} (hn : n.part.plain.Opens pos) :
    t.part.plain.Opens pos := by
  induction h with
  | here => exact hn
  | inner hc _ ih => exact Layout.opens_shown ⟨_, hc, ih⟩ _

end Node

theorem Program.opens_layout {p : Program} {n item : Node} (hitem : item ∈ p.body)
    (h : n.Shown item) {pos : Nat} (hn : n.part.plain.Opens pos) : p.layout.Opens pos := by
  have hstatement := Layout.opens_statement (h.opens hn)
  rw [Program.layout, Layout.parts_eq_map]
  obtain ⟨before, after, hbody⟩ := List.append_of_mem hitem
  rw [hbody, List.map_append, List.flatMap_append, List.map_cons, List.flatMap_cons]
  exact ((((hstatement.left _).right _).right _)).left _

end ScopedStyles.Script
