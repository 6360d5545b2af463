import ScopedStyles.Proofs.WrittenMarks

/-!
# Openings within layouts

What opens in a layout opens in each layout that it is a part of (`Opens.left`, `Opens.right`).
Rows, arguments, blocks, functions and classes are made of the layouts of their nodes, and what one
of the nodes opens opens in them (`opens_row` and what follows from it). Some layouts look into a
node and are made of its kids in its stead.
-/

namespace ScopedStyles.Script

namespace Node

def kid (n : Node) (i : Nat) : Node := n.kids.getD i absent

/-- The kids of a node that is there. -/
def items (n : Node) : List Node := if n.isAbsent then [] else n.kids

/-- What a spread shows in a row. -/
def unspread : Node → List Node
  | mk .spread s ks => [(mk .spread s ks).kid 0]
  | n => [n]

/-- Of a function from its type parameters on. -/
def ofFunction (f : Node) : List Node := f.kid 2 :: f.kid 3 :: (f.kid 0).kids ++ (f.kid 1).items

/-- Of a class behind its type parameters. -/
def ofClass (body : Node) : List Node :=
  body.kid 1 :: body.kid 3 :: (body.kid 4).kids ++ (body.kid 0).kids

def ofArrow : Node → List Node
  | mk .block _ ks => ks
  | n => [n]

/-- Of the first part of a loop's head. -/
def ofHead : Node → List Node
  | mk (.variables _ _) _ ds => ds
  | n => [n]

/-- Of a namespace behind its name. -/
def ofModule : Node → List Node
  | mk .absent _ _ => []
  | mk (.module_ ..) _ [inner, body] => inner :: ofModule body
  | mk _ _ ks => ks

/-- Of braces in markup. -/
def ofContainer : Node → List Node
  | mk .emptyExpr _ _ => []
  | n => [n]

/-- Of the name of a member of a type. -/
def ofMemberKey : Node → List Node
  | mk .computed s ks => [(mk .computed s ks).kid 0]
  | n => [n]

end Node

namespace Layout

open Node

variable {pos : Nat}

variable {n : Node}

section Opening

@[grind ←] theorem Opens.left {l : Layout} (h : l.Opens pos) (l' : Layout) : Opens pos (l ++ l') :=
  h.trans (List.prefix_append l l').isInfix

@[grind ←] theorem Opens.right {l : Layout} (h : l.Opens pos) (l' : Layout) : Opens pos (l' ++ l) :=
  h.trans (List.suffix_append l' l).isInfix

@[grind ←] theorem Opens.cons {l : Layout} (h : l.Opens pos) (x : Piece) : Opens pos (x :: l) :=
  h.trans (List.suffix_cons x l).isInfix

theorem not_opens_nil : ¬ Opens pos [] := by simp [Opens]

theorem isAbsent_part (n : Node) : n.part.isAbsent = n.isAbsent := by
  cases n
  rfl

theorem parts_eq_map : ∀ ns : List Node, parts ns = ns.map part
  | [] => rfl
  | n :: ns => by rw [parts, parts_eq_map ns, List.map_cons]

@[simp, grind =] theorem kids_part (n : Node) : n.part.kids = n.kids.map part := by
  obtain ⟨k, s, ks⟩ := n
  exact parts_eq_map ks

@[simp, grind =] theorem kid_part (n : Node) (i : Nat) : n.part.kid i = (n.kid i).part := by
  rw [Part.kid, Node.kid, kids_part, List.getD_eq_getElem?_getD, List.getD_eq_getElem?_getD,
    List.getElem?_map]
  rcases n.kids[i]? with _ | c <;> rfl

/-- What opens something is there. -/
theorem isAbsent_of_opens {n : Node} (h : n.part.plain.Opens pos) :
    n.part.isAbsent = false := by
  obtain ⟨k, s, ks⟩ := n
  rw [isAbsent_part]
  unfold isAbsent
  split
  · rename_i hk
    obtain rfl : k = .absent := hk
    exact absurd h not_opens_nil
  · rfl

@[grind ←] theorem opens_whole (h : n.part.plain.Opens pos) : Opens pos n.part.whole := by
  rw [Part.whole, isAbsent_of_opens h]
  exact h.left _

@[grind ←] theorem opens_base (h : n.part.plain.Opens pos) : Opens pos (base n.part) := by
  unfold base
  split
  · exact h
  · exact opens_whole h

@[grind ←] theorem opens_after (h : n.part.plain.Opens pos) {l : Layout} (hl : Opens pos l)
    (before : String) : Opens pos (after before n.part l) := by
  rw [after, isAbsent_of_opens h]
  exact hl.right _

@[grind ←] theorem opens_annotated (h : n.part.plain.Opens pos) :
    Opens pos <| annotation n.part :=
  opens_after h h _

end Opening

variable {ns : List Node}

section Rows

/-- One of the nodes opens something at the position. -/
def Shows (pos : Nat) (ns : List Node) : Prop := ∃ n ∈ ns, n.part.plain.Opens pos

@[simp, grind =] theorem shows_nil : Shows pos [] ↔ False := by simp [Shows]

@[simp, grind =] theorem shows_cons (n : Node) (ns : List Node) :
    Shows pos (n :: ns) ↔ n.part.plain.Opens pos ∨ Shows pos ns := by
  simp [Shows]

@[simp, grind =] theorem shows_append (ns ns' : List Node) :
    Shows pos (ns ++ ns') ↔ Shows pos ns ∨ Shows pos ns' := by
  simp only [Shows, List.mem_append, or_and_right, exists_or]

theorem shows_singleton (n : Node) : Shows pos [n] ↔ n.part.plain.Opens pos := by simp

theorem isEmpty_of_mem (h : n ∈ ns) : (ns.map part).isEmpty = false := by
  cases h <;> rfl

@[grind →] theorem Shows.isEmpty (h : Shows pos ns) : (ns.map part).isEmpty = false := by
  obtain ⟨n, hn, -⟩ := h
  exact isEmpty_of_mem hn

theorem opens_row {item : Part → Layout} (parent : Span) (sign : Option String) (gap : Layout) :
    ∀ {ns : List Node}, (∃ n ∈ ns, Opens pos (item n.part)) →
      Opens pos (row parent sign gap item (ns.map part))
  | n :: ns, h => by
    rw [List.map_cons, row]
    rcases (by simpa only [List.mem_cons, exists_eq_or_imp] using h) with h | h
    · split <;> grind
    · have ih := opens_row parent sign gap h
      obtain ⟨m, hm, -⟩ := h
      rw [isEmpty_of_mem hm]
      exact ih.right _

theorem Shows.whole (h : Shows pos ns) : ∃ n ∈ ns, Opens pos n.part.whole :=
  h.imp fun _ hn => ⟨hn.1, opens_whole hn.2⟩

@[grind ←] theorem opens_inLine (h : Shows pos ns) (parent : Span) :
    Opens pos (inLine parent Part.plain (ns.map part)) :=
  opens_row _ _ _ h

@[grind ←] theorem opens_inLine_whole (h : Shows pos ns) (parent : Span) :
    Opens pos (inLine parent Part.whole (ns.map part)) :=
  opens_row _ _ _ h.whole

theorem opens_inLines {item : Part → Layout} (h : ∃ n ∈ ns, Opens pos (item n.part)) (parent : Span)
    (sign : Option String) : Opens pos (inLines parent sign item (ns.map part)) :=
  ((opens_row _ _ _ h).right _).left _

@[grind ←] theorem opens_inLines_plain (h : Shows pos ns) (parent : Span) (sign : Option String) :
    Opens pos (inLines parent sign Part.plain (ns.map part)) :=
  opens_inLines h _ _

theorem opens_spreadOr (h : Shows pos n.unspread) : Opens pos (spreadOr n.part) := by
  obtain ⟨k, s, ks⟩ := n
  unfold unspread at h
  split at h
  · rename_i s' ks' heq
    obtain ⟨rfl, rfl, rfl⟩ := Node.mk.inj heq
    rw [spreadOr]
    show Opens pos (marked _ _ ++ ((mk .spread s ks).part.kid 0).whole)
    rw [kid_part]
    exact (opens_whole (by simpa using h)).right _
  · rename_i hne
    have hwhole := opens_whole ((shows_singleton _).1 h)
    unfold spreadOr
    split
    · rename_i hk
      obtain rfl : k = .spread := hk
      exact absurd rfl (hne s ks)
    · exact hwhole

theorem opens_spreads (h : Shows pos (ns.flatMap unspread)) :
    ∃ n ∈ ns, Opens pos (spreadOr n.part) := by
  obtain ⟨c, hc, hopens⟩ := h
  obtain ⟨n, hn, hcn⟩ := List.mem_flatMap.1 hc
  exact ⟨n, hn, opens_spreadOr ⟨c, hcn, hopens⟩⟩

@[grind ←] theorem opens_arguments (h : Shows pos (n.kids.flatMap unspread)) (s : Span) :
    Opens pos (arguments s n.part) := by
  rw [arguments, kids_part]
  exact ((opens_row _ _ _ (opens_spreads h)).right _).left _

@[grind ←] theorem opens_array (h : Shows pos (ns.flatMap unspread)) (s : Span) :
    Opens pos (array s (ns.map part)) := by
  have hrow := opens_row s (some ",") [.line] (opens_spreads h)
  obtain ⟨m, hm, -⟩ := opens_spreads h
  rw [array, isEmpty_of_mem hm]
  grind

@[grind ←] theorem opens_object (h : Shows pos ns) (s : Span) :
    Opens pos (object s (ns.map part)) := by
  rw [object, h.isEmpty]
  grind

end Rows

section Blocks

@[grind ←] theorem opens_statement (h : n.part.plain.Opens pos) : Opens pos (statement n.part) := by
  unfold statement block.statement
  split
  · exact h
  · exact h.left _

theorem opens_blockOf (h : Shows pos ns) (marked : Bool) {p : Part} (hp : p.kids = ns.map part) :
    Opens pos (block marked p) := by
  have hstatements : ∃ n ∈ ns, Opens pos (block.statement n.part) :=
    h.imp fun n hn => ⟨hn.1, opens_statement hn.2⟩
  have hlines := opens_inLines hstatements p.node.span none
  rw [block, hp, h.isEmpty]
  grind

@[grind ←] theorem opens_block (h : Shows pos n.kids) (marked : Bool) :
    Opens pos (block marked n.part) :=
  opens_blockOf h marked (kids_part n)

@[grind →] theorem isAbsent_of_items (h : Shows pos n.items) : n.part.isAbsent = false := by
  unfold items at h
  rw [isAbsent_part]
  split at h
  · exact (shows_nil.1 h).elim
  · rename_i hn
    exact Bool.eq_false_iff.2 hn

@[grind →] theorem kids_of_items (h : Shows pos n.items) : Shows pos n.kids := by
  unfold items at h
  split at h
  · exact (shows_nil.1 h).elim
  · exact h

/-- A body, if there is one. -/
theorem opens_items (h : Shows pos n.items) (l : Layout) :
    Opens pos (if n.part.isAbsent then l else block true n.part) := by
  rw [if_neg (by simp [isAbsent_of_items h])]
  exact opens_block (kids_of_items h) true

/-- Arguments, if there are any. -/
theorem opens_arguments_items (h : Shows pos (n.items.flatMap unspread)) (s : Span) :
    Opens pos (if n.part.isAbsent then [] else arguments s n.part) := by
  unfold items at h
  rw [isAbsent_part]
  split at h
  · exact (shows_nil.1 h).elim
  · rename_i hn
    rw [if_neg hn]
    exact opens_arguments h s

@[grind ←] theorem opens_functionTail (h : Shows pos n.ofFunction) (marked : Bool) :
    Opens pos (functionTail marked n.part) := by
  simp only [ofFunction, shows_cons, shows_append] at h
  rw [functionTail, kid_part, kid_part, kid_part, kid_part, signature, kids_part]
  rcases h with (h | h | h) | h <;> grind

@[grind ←] theorem opens_function {f : Node}
    (h : n.part.plain.Opens pos ∨ Shows pos f.ofFunction) :
    Opens pos (function n.part f.part) := by
  unfold function
  rcases h with h | h
  · rw [isAbsent_of_opens h]
    grind
  · grind

@[grind ←] theorem opens_classTail (h : Shows pos n.ofClass) (s : Span) :
    Opens pos (classTail s n.part) := by
  simp only [ofClass, shows_cons, shows_append] at h
  simp only [classTail, kid_part, kids_part]
  rcases h with (h | h | h) | h
  · grind
  · grind
  · rw [h.isEmpty]
    grind
  · rw [h.isEmpty]
    grind

@[grind ←] theorem opens_class {body : Node} {typed : Bool}
    (h : n.part.plain.Opens pos ∨ typed ∧ (body.kid 2).part.plain.Opens pos ∨
      Shows pos body.ofClass) (s : Span) : Opens pos («class» typed s n.part body.part) := by
  unfold «class»
  rcases h with h | ⟨rfl, h⟩ | h
  · rw [isAbsent_of_opens h]
    grind
  · rw [kid_part, if_pos rfl]
    grind
  · grind

@[grind ←] theorem opens_arrow {ps body tps r : Node} (h : Shows pos (tps :: r :: ps.kids) ∨
      Shows pos body.ofArrow) (s : Span) (m : FunctionMarks) :
    Opens pos (arrow s m ps.part body.part tps.part r.part) := by
  unfold arrow
  rw [kids_part]
  rcases h with h | h
  · simp only [shows_cons] at h
    rcases h with h | h | h <;> grind
  · obtain ⟨k, sb, ks⟩ := body
    unfold ofArrow at h
    split at h
    · rename_i sb' ks' heq
      obtain ⟨rfl, rfl, rfl⟩ := Node.mk.inj heq
      exact (opens_block h false).right _
    · rename_i hne
      split
      · rename_i hk
        obtain rfl : k = .block := hk
        exact absurd rfl (hne sb ks)
      · have hwhole := opens_whole ((shows_singleton _).1 h)
        grind

@[grind ←] theorem opens_member {e k : Node} (h : e.part.plain.Opens pos ∨ k.part.plain.Opens pos)
    (s : Span) : Opens pos (member s e.part k.part) := by
  unfold member
  split <;> grind

@[grind ←] theorem opens_chained {e k : Node} (h : e.part.plain.Opens pos ∨ k.part.plain.Opens pos)
    (s : Span) (here : Bool) : Opens pos (chained s here e.part k.part) := by
  unfold chained
  grind

@[grind ←] theorem opens_method {key f : Node}
    (h : key.part.plain.Opens pos ∨ Shows pos f.ofFunction) (s : Span) (m : MemberMarks)
    (kind : MethodKind) : Opens pos (method s m kind key.part f.part) := by
  unfold method
  grind

theorem opens_joined (between : Layout) : ∀ {ls : List Layout},
    (∃ l ∈ ls, Opens pos l) → Opens pos (joined between ls)
  | [l], h => by simpa [joined] using h
  | l :: l' :: ls, h => by
    have hcons : joined between (l :: l' :: ls) = l ++ (between ++ joined between (l' :: ls)) := by
      simp [joined]
    rw [hcons]
    rcases (by simpa only [List.mem_cons, exists_eq_or_imp] using h) with h | h
    · exact h.left _
    · exact ((opens_joined between (by simpa using h)).right _).right _

@[grind ←] theorem opens_joined_whole (h : Shows pos ns) (between : Layout) :
    Opens pos (joined between ((ns.map part).map Part.whole)) := by
  obtain ⟨n, hn, hopens⟩ := h.whole
  exact opens_joined between ⟨_, List.mem_map_of_mem (List.mem_map_of_mem hn), hopens⟩

@[grind ←] theorem opens_unary (h : n.part.plain.Opens pos) (op : String) :
    Opens pos (unary op n.part) :=
  (opens_whole h).right _

theorem opens_parts {item : Part → Layout} (chunk : String → String) : ∀ {es cs : List Node},
    (∃ e ∈ es.take cs.length, Opens pos (item e.part)) →
      Opens pos (template.parts chunk item (cs.map part) (es.map part))
  | e :: es, c :: cs, h => by
    rw [List.map_cons, List.map_cons, template.parts]
    rcases (by simpa only [List.length_cons, List.take_succ_cons, List.mem_cons,
      exists_eq_or_imp] using h) with h | h
    · grind
    · have ih := opens_parts chunk h
      grind
  | [], _, h => by simp at h
  | _ :: _, [], h => by simp at h

theorem opens_template {item : Part → Layout} {es cs : List Node}
    (h : ∃ e ∈ es.take cs.length, Opens pos (item e.part)) (chunk : String → String) :
    Opens pos (template chunk item (es.map part) (cs.map part)) := by
  have := opens_parts chunk h
  unfold template
  grind

@[grind ←] theorem opens_template_whole {es cs : List Node} (h : Shows pos (es.take cs.length))
    (chunk : String → String) :
    Opens pos (template chunk Part.whole (es.map part) (cs.map part)) :=
  opens_template h.whole chunk

end Blocks

end Layout

end ScopedStyles.Script
