import ScopedStyles.Proofs.Overwriting

/-!
# Paths by their pieces

A path is read by its pieces. `joinSlash_pieces` and `splitSlash_joinSlash` go from the pieces to
the path and back; `components_eq` says what the pieces give, the root or a dot in front and behind
it what `Component.ofPiece?` names.

`Written` lists are those that reading a path gives, and a path that is made of one is read as that
list (`components_ofComponents`). Normalising leaves components out and adds none
(`normalizeComponents_sublist`), so that its result is read back too and is no longer than the path
was. Its stack holds the root at the bottom or starts empty (`normalizeComponents_components`).
-/

namespace ScopedStyles.Path

section Pieces

theorem splitSlash_ne_nil : ∀ bs : Bytes, splitSlash bs ≠ []
  | [] => by simp [splitSlash]
  | b :: bs => by
    rw [splitSlash]
    split_ifs
    · simp
    · split <;> simp

theorem splitSlash_cons {b : UInt8} (hb : b ≠ slash) (bs : Bytes) :
    splitSlash (b :: bs) = (splitSlash bs).modifyHead (b :: ·) := by
  rw [splitSlash, if_neg hb]
  rcases h : splitSlash bs with _ | ⟨piece, rest⟩
  · exact absurd h (splitSlash_ne_nil bs)
  · rfl

theorem splitSlash_eq_splitOn (bs : Bytes) : splitSlash bs = bs.splitOn slash := by
  induction bs with
  | nil => rfl
  | cons b bs ih =>
    rw [List.splitOn_cons_eq_if_modifyHead, ← ih]
    by_cases hb : b = slash
    · rw [splitSlash, if_pos hb, if_pos (beq_iff_eq.2 hb)]
    · rw [splitSlash_cons hb, if_neg (by simpa using hb)]

/-- A slash ends a piece. -/
theorem splitSlash_append_slash (bs cs : Bytes) :
    splitSlash (bs ++ slash :: cs) = splitSlash bs ++ splitSlash cs := by
  induction bs with
  | nil => rfl
  | cons b bs ih =>
    by_cases hb : b = slash
    · rw [List.cons_append, splitSlash, if_pos hb, ih, splitSlash, if_pos hb, List.cons_append]
    · rw [List.cons_append, splitSlash_cons hb, ih, splitSlash_cons hb]
      rcases h : splitSlash bs with _ | ⟨piece, rest⟩
      · exact absurd h (splitSlash_ne_nil bs)
      · rfl

theorem splitSlash_of_notMem {bs : Bytes} (h : slash ∉ bs) : splitSlash bs = [bs] := by
  induction bs with
  | nil => rfl
  | cons b bs ih =>
    rw [List.mem_cons, not_or] at h
    rw [splitSlash_cons (Ne.symm h.1), ih h.2]
    rfl

/-- Without a slash the last piece goes on. -/
theorem splitSlash_append {cs : Bytes} (hcs : slash ∉ cs) (bs : Bytes) :
    ∃ before piece, splitSlash bs = before ++ [piece] ∧
      splitSlash (bs ++ cs) = before ++ [piece ++ cs] := by
  induction bs with
  | nil =>
    exact ⟨[], [], rfl, splitSlash_of_notMem hcs⟩
  | cons b bs ih =>
    obtain ⟨before, piece, hbs, happend⟩ := ih
    by_cases hb : b = slash
    · refine ⟨[] :: before, piece, ?_, ?_⟩
      · rw [splitSlash, if_pos hb, hbs, List.cons_append]
      · rw [List.cons_append, splitSlash, if_pos hb, happend, List.cons_append]
    · rw [List.cons_append, splitSlash_cons hb, splitSlash_cons hb, hbs, happend]
      rcases before with _ | ⟨first, before⟩
      · exact ⟨[], b :: piece, rfl, rfl⟩
      · exact ⟨(b :: first) :: before, piece, rfl, rfl⟩

theorem pieces_ne_nil (p : Path) : p.pieces ≠ [] := splitSlash_ne_nil p.bytes

theorem slash_notMem_of_mem_pieces {p : Path} {s : Bytes} (h : s ∈ p.pieces) : slash ∉ s :=
  Disk.no_slash_of_mem_splitSlash _ s h

theorem joinSlash_cons (s : Bytes) {ss : List Bytes} (h : ss ≠ []) :
    joinSlash (s :: ss) = s ++ slash :: joinSlash ss := by
  obtain ⟨t, ss, rfl⟩ := List.exists_cons_of_ne_nil h
  rfl

/-- A path is its pieces with slashes between them. -/
theorem joinSlash_pieces (p : Path) : joinSlash p.pieces = p.bytes := by
  rw [pieces, splitSlash_eq_splitOn]
  exact List.intercalate_splitOn slash

/-- Pieces between slashes are read back. -/
theorem splitSlash_joinSlash {ss : List Bytes} (hne : ss ≠ []) (h : ∀ s ∈ ss, slash ∉ s) :
    splitSlash (joinSlash ss) = ss := by
  rw [splitSlash_eq_splitOn]
  exact List.splitOn_intercalate slash h hne

theorem isAbsolute_iff {p : Path} :
    p.isAbsolute ↔ p.pieces.head? = some [] ∧ p.pieces ≠ [[]] := by
  rw [isAbsolute, pieces]
  rcases p.bytes with _ | ⟨b, bs⟩
  · simp [splitSlash]
  · by_cases hb : b = slash
    · rw [splitSlash, if_pos hb]
      simp [hb, splitSlash_ne_nil]
    · rw [splitSlash_cons hb]
      rcases h : splitSlash bs with _ | ⟨piece, rest⟩
      · exact absurd h (splitSlash_ne_nil bs)
      · simp [hb]

/-- What stands before the components that are named between slashes. -/
def lead (pieces : List Bytes) : List Component :=
  if pieces.head? = some [] ∧ pieces ≠ [[]] then [.root]
  else if pieces.head? = some [dot] then [.current] else []

theorem lead_congr {xs ys : List Bytes} (h : xs.head? = ys.head?) (hx : xs ≠ [[]])
    (hy : ys ≠ [[]]) : lead xs = lead ys := by
  simp [lead, h, hx, hy]

theorem components_eq (p : Path) :
    p.components = lead p.pieces ++ p.pieces.filterMap Component.ofPiece? := by
  unfold components lead
  by_cases h : p.isAbsolute
  · rw [if_pos h, if_pos (isAbsolute_iff.1 h)]
    rfl
  · rw [if_neg h, if_neg (fun hp => h (isAbsolute_iff.2 hp))]
    split_ifs <;> rfl

end Pieces

section Components

/-- A component that may stand anywhere. -/
inductive Inner : Component → Prop
  | parent : Inner .parent
  | name {s : Bytes} : isName s → Inner (.name s)

/-- The components of a path: the root and the current directory stand in front only. -/
inductive Written : List Component → Prop
  | inner {cs : List Component} : (∀ c ∈ cs, Inner c) → Written cs
  | root {cs : List Component} : (∀ c ∈ cs, Inner c) → Written (.root :: cs)
  | current {cs : List Component} : (∀ c ∈ cs, Inner c) → Written (.current :: cs)

theorem Written.inner_of_name {cs : List Component} {s : Bytes} (h : Written cs)
    (hs : .name s ∈ cs) : Inner (.name s) := by
  cases h with
  | inner h => exact h _ hs
  | root h => exact h _ (List.mem_of_ne_of_mem Component.noConfusion hs)
  | current h => exact h _ (List.mem_of_ne_of_mem Component.noConfusion hs)

theorem inner_of_ofPiece? {piece : Bytes} (hslash : slash ∉ piece) {c : Component}
    (h : Component.ofPiece? piece = some c) : Inner c := by
  unfold Component.ofPiece? at h
  split_ifs at h with hnone hparent
  · obtain rfl := Option.some.inj h
    exact .parent
  · obtain rfl := Option.some.inj h
    rw [not_or] at hnone
    exact .name (by simp [isName, hnone, hparent, hslash])

theorem inner_named (p : Path) : ∀ c ∈ p.pieces.filterMap Component.ofPiece?, Inner c := by
  intro c hc
  obtain ⟨piece, hpiece, hc⟩ := List.mem_filterMap.1 hc
  exact inner_of_ofPiece? (slash_notMem_of_mem_pieces hpiece) hc

theorem written_components (p : Path) : Written p.components := by
  rw [components_eq, lead]
  split_ifs
  · exact .root (inner_named p)
  · exact .current (inner_named p)
  · exact .inner (inner_named p)

/-- What is written of a component between slashes; the root is what stands before the first. -/
def Component.piece : Component → Bytes
  | .root => []
  | c => c.bytes

theorem piece_of_ofPiece? {s : Bytes} {c : Component} (h : Component.ofPiece? s = some c) :
    c.piece = s := by
  unfold Component.ofPiece? at h
  split_ifs at h with hnone hparent
  · obtain rfl := Option.some.inj h
    exact hparent.symm
  · obtain rfl := Option.some.inj h
    rfl

theorem Inner.piece {c : Component} (h : Inner c) :
    Component.ofPiece? c.piece = some c ∧ c.piece ≠ [] ∧ c.piece ≠ [dot] ∧ slash ∉ c.piece := by
  cases h with
  | parent => decide
  | @name s hs =>
    simp only [isName, Bool.and_eq_true, ne_eq, decide_not, Bool.not_eq_true',
      decide_eq_false_iff_not, List.contains_eq_mem] at hs
    obtain ⟨⟨⟨hempty, hdot⟩, hparent⟩, hslash⟩ := hs
    exact ⟨by simp [Component.piece, Component.bytes, Component.ofPiece?, hempty, hdot, hparent],
      hempty, hdot, hslash⟩

theorem filterMap_piece {cs : List Component} (h : ∀ c ∈ cs, Inner c) :
    (cs.map Component.piece).filterMap Component.ofPiece? = cs := by
  induction cs with
  | nil => rfl
  | cons c cs ih =>
    rw [List.forall_mem_cons] at h
    rw [List.map_cons, List.filterMap_cons_some h.1.piece.1, ih h.2]

theorem Written.slash_notMem {cs : List Component} (h : Written cs) :
    ∀ s ∈ cs.map Component.piece, slash ∉ s := by
  have hinner : ∀ {cs : List Component}, (∀ c ∈ cs, Inner c) →
      ∀ s ∈ cs.map Component.piece, slash ∉ s :=
    fun h => List.forall_mem_map.2 fun c hc => (h c hc).piece.2.2.2
  cases h with
  | inner h => exact hinner h
  | root h => exact List.forall_mem_cons.2 ⟨by decide, hinner h⟩
  | current h => exact List.forall_mem_cons.2 ⟨by decide, hinner h⟩

theorem bytes_ofComponents {cs : List Component} (h : Written cs) (hroot : cs ≠ [.root]) :
    (ofComponents cs).bytes = joinSlash (cs.map Component.piece) := by
  have hbytes : ∀ {cs : List Component}, (∀ c ∈ cs, Inner c) →
      cs.map Component.bytes = cs.map Component.piece := by
    intro cs h
    refine List.map_congr_left fun c hc => ?_
    cases h c hc <;> rfl
  cases h with
  | inner h =>
    rw [← hbytes h]
    rcases cs with _ | ⟨c, cs⟩
    · rfl
    · cases h c List.mem_cons_self <;> rfl
  | @root cs h =>
    rcases cs with _ | ⟨c, cs⟩
    · exact absurd rfl hroot
    · rw [List.map_cons, ← hbytes h]
      rfl
  | current h =>
    rw [List.map_cons, ← hbytes h]
    rfl

/-- A path that is made of components has them for pieces. -/
theorem pieces_ofComponents {cs : List Component} (h : Written cs) (hne : cs ≠ [])
    (hroot : cs ≠ [.root]) : (ofComponents cs).pieces = cs.map Component.piece := by
  rw [pieces, bytes_ofComponents h hroot]
  exact splitSlash_joinSlash (by simpa using hne) h.slash_notMem

/-- A path that is made of components has them. -/
theorem components_ofComponents {cs : List Component} (h : Written cs) :
    (ofComponents cs).components = cs := by
  by_cases hne : cs = []
  · subst hne
    decide
  by_cases hroot : cs = [.root]
  · subst hroot
    decide
  rw [components_eq, pieces_ofComponents h hne hroot]
  cases h with
  | inner h =>
    rw [filterMap_piece h]
    rcases cs with _ | ⟨c, cs⟩
    · exact absurd rfl hne
    · obtain ⟨-, hempty, hdot, -⟩ := (h c List.mem_cons_self).piece
      simp [lead, hempty, hdot]
  | @root cs h =>
    have hcs : cs ≠ [] := fun hcs => hroot (by rw [hcs])
    have hlead : lead ((Component.root :: cs).map Component.piece) = [.root] := by
      simp [lead, Component.piece, hcs]
    rw [hlead, List.map_cons, List.filterMap_cons_none rfl, filterMap_piece h]
    rfl
  | current h =>
    rw [List.map_cons, List.filterMap_cons_none rfl, filterMap_piece h]
    rfl

end Components

section Joined

theorem ofPiece?_eq_none_iff {piece : Bytes} :
    Component.ofPiece? piece = none ↔ piece = [] ∨ piece = [dot] := by
  unfold Component.ofPiece?
  split_ifs <;> simp [*]

theorem components_eq_nil_iff {p : Path} : p.components = [] ↔ p.bytes = [] := by
  constructor
  · intro h
    rw [components_eq, List.append_eq_nil_iff, lead] at h
    obtain ⟨hlead, hnamed⟩ := h
    split_ifs at hlead with habsolute hdot
    rcases hp : p.pieces with _ | ⟨piece, rest⟩
    · exact absurd hp (pieces_ne_nil p)
    rw [hp] at habsolute hdot hnamed
    have hpiece : piece = [] := by
      have hnone := List.filterMap_eq_nil_iff.1 hnamed piece List.mem_cons_self
      exact (ofPiece?_eq_none_iff.1 hnone).resolve_right fun h => hdot (by rw [h]; rfl)
    rw [hpiece] at habsolute
    simp only [List.head?_cons, true_and, not_not] at habsolute
    rw [← joinSlash_pieces p, hp, hpiece, habsolute]
    rfl
  · intro h
    obtain rfl : p = ⟨[]⟩ := by rw [← h]
    decide

/-- A path that is written behind another one adds its pieces to those that are finished. -/
theorem pieces_join {p q : Path} (hp : p.bytes ≠ []) (hq : ¬ q.isAbsolute) :
    ∃ before, before ≠ [] ∧ (p.join q).pieces = before ++ q.pieces ∧
      (p.pieces = before ∨ p.pieces = before ++ [[]]) := by
  rw [join, if_neg hq, if_neg hp]
  have happend : ∀ bs : Bytes, splitSlash (bs ++ slash :: q.bytes) = splitSlash bs ++ q.pieces :=
    fun bs => splitSlash_append_slash bs q.bytes
  -- the slash between the two is the last one of `p` or one that is put in
  split_ifs with hslash
  · obtain ⟨bs, hbs⟩ := List.getLast?_eq_some_iff.1 hslash
    refine ⟨splitSlash bs, splitSlash_ne_nil bs, ?_, .inr ?_⟩
    · rw [← happend, pieces, hbs, List.append_assoc]
      rfl
    · rw [pieces, hbs, splitSlash_append_slash]
      rfl
  · exact ⟨p.pieces, pieces_ne_nil p, happend _, .inl rfl⟩

/-- What is written behind a path is read as it is by itself, but for a dot in front. -/
theorem components_join {p q : Path} (hq : ¬ q.isAbsolute) : (p.join q).components =
    if p.components = [] then q.components
    else p.components ++ q.pieces.filterMap Component.ofPiece? := by
  by_cases hp : p.bytes = []
  · rw [if_pos (components_eq_nil_iff.2 hp), join, if_neg hq, if_pos hp]
  · rw [if_neg (fun h => hp (components_eq_nil_iff.1 h))]
    obtain ⟨before, hbefore, hjoin, hpieces⟩ := pieces_join hp hq
    have hlong : p.pieces ≠ [[]] := fun h => hp (by rw [← joinSlash_pieces p, h]; rfl)
    have hlonger : before ++ q.pieces ≠ [[]] := by
      intro h
      have := congrArg List.length h
      have := List.length_pos_of_ne_nil hbefore
      have := List.length_pos_of_ne_nil (pieces_ne_nil q)
      simp only [List.length_append, List.length_singleton] at *
      omega
    have hhead : (before ++ q.pieces).head? = p.pieces.head? := by
      rcases hpieces with h | h <;>
        simp only [h, List.head?_append_of_ne_nil _ hbefore]
    have hnamed : before.filterMap Component.ofPiece? =
        p.pieces.filterMap Component.ofPiece? := by
      rcases hpieces with h | h
      · rw [h]
      · rw [h, List.filterMap_append]
        exact (List.append_nil _).symm
    rw [components_eq, components_eq p, hjoin, lead_congr hhead hlonger hlong,
      List.filterMap_append, hnamed, List.append_assoc]

end Joined

section Sizes

theorem length_joinSlash_cons (s : Bytes) {ss : List Bytes} (h : ss ≠ []) :
    (joinSlash (s :: ss)).length = s.length + 1 + (joinSlash ss).length := by
  rw [joinSlash_cons s h, List.length_append, List.length_cons]
  omega

/-- Pieces that are left out make a path shorter. -/
theorem length_joinSlash_le {ss ts : List Bytes} (h : ss.Sublist ts) (hne : ss ≠ []) :
    (joinSlash ss).length ≤ (joinSlash ts).length := by
  induction h with
  | slnil => exact absurd rfl hne
  | @cons ss ts t h ih =>
    have hts : ts ≠ [] := fun hts => hne (List.sublist_nil.1 (hts ▸ h))
    have hshorter := ih hne
    rw [length_joinSlash_cons t hts]
    omega
  | @cons_cons ss ts s h ih =>
    by_cases hss : ss = []
    · subst hss
      by_cases hts : ts = []
      · subst hts
        exact Nat.le_refl _
      · rw [length_joinSlash_cons s hts, joinSlash, List.intercalate_singleton]
        omega
    · have hts : ts ≠ [] := fun hts => hss (List.sublist_nil.1 (hts ▸ h))
      have hshorter := ih hss
      rw [length_joinSlash_cons s hss, length_joinSlash_cons s hts]
      omega

theorem mem_joinSlash {ss : List Bytes} {b : UInt8} (hb : b ≠ slash) :
    b ∈ joinSlash ss ↔ ∃ s ∈ ss, b ∈ s := by
  induction ss with
  | nil => simp [joinSlash]
  | cons s ss ih =>
    rcases ss with _ | ⟨t, ss⟩
    · simp [joinSlash]
    · rw [joinSlash_cons s (List.cons_ne_nil t ss), List.mem_append, List.mem_cons, ih,
        List.exists_mem_cons_iff]
      simp [hb]

end Sizes

section Normalised

theorem stackStep_sublist (stack : List Component) (c : Component) :
    (stackStep stack c).reverse.Sublist (stack.reverse ++ [c]) := by
  have hkept : stack.reverse.Sublist (stack.reverse ++ [c]) := List.sublist_append_left _ _
  have hpushed : (c :: stack).reverse.Sublist (stack.reverse ++ [c]) := by
    rw [List.reverse_cons]
  cases c with
  | current => exact hkept
  | parent =>
    rcases stack with _ | ⟨top, stack⟩
    · exact hpushed
    · cases top with
      | name s =>
        have hpopped : stack.reverse.Sublist (stack.reverse ++ [.name s]) :=
          List.sublist_append_left _ _
        rw [List.reverse_cons] at hkept ⊢
        exact hpopped.trans hkept
      | root => exact hkept
      | _ => exact hpushed
  | _ => exact hpushed

/-- Normalising adds nothing and keeps the order. -/
theorem foldl_stackStep_sublist (cs stack : List Component) :
    (cs.foldl stackStep stack).reverse.Sublist (stack.reverse ++ cs) := by
  induction cs generalizing stack with
  | nil => exact List.sublist_append_left _ _
  | cons c cs ih =>
    refine (ih (stackStep stack c)).trans ?_
    have hstep := (stackStep_sublist stack c).append_right cs
    rwa [List.append_assoc] at hstep

/-- The root stays below everything. -/
theorem foldl_stackStep_root (cs above : List Component) :
    ∃ above', cs.foldl stackStep (above ++ [.root]) = above' ++ [.root] := by
  induction cs generalizing above with
  | nil => exact ⟨above, rfl⟩
  | cons c cs ih =>
    have hstep : ∃ above', stackStep (above ++ [.root]) c = above' ++ [.root] := by
      cases c with
      | current => exact ⟨above, rfl⟩
      | parent =>
        rcases above with _ | ⟨top, above⟩
        · exact ⟨[], rfl⟩
        · cases top with
          | name s => exact ⟨above, rfl⟩
          | root => exact ⟨.root :: above, rfl⟩
          | current => exact ⟨.parent :: .current :: above, rfl⟩
          | parent => exact ⟨.parent :: .parent :: above, rfl⟩
      | root => exact ⟨.root :: above, rfl⟩
      | name s => exact ⟨.name s :: above, rfl⟩
    obtain ⟨above', hstep⟩ := hstep
    rw [List.foldl_cons, hstep]
    exact ih above'

theorem normalizeComponents_sublist (cs : List Component) :
    (normalizeComponents cs).Sublist cs := foldl_stackStep_sublist cs []

theorem normalizeComponents_root (cs : List Component) :
    ∃ rest, normalizeComponents (.root :: cs) = .root :: rest ∧ rest.Sublist cs := by
  obtain ⟨above, habove⟩ := foldl_stackStep_root cs []
  have heq : normalizeComponents (.root :: cs) = .root :: above.reverse := by
    rw [normalizeComponents, List.foldl_cons]
    show (cs.foldl stackStep ([] ++ [.root])).reverse = _
    rw [habove, List.reverse_append]
    rfl
  refine ⟨above.reverse, heq, ?_⟩
  have hsub := normalizeComponents_sublist (.root :: cs)
  rw [heq] at hsub
  exact List.cons_sublist_cons.1 hsub

theorem normalizeComponents_current (cs : List Component) :
    normalizeComponents (.current :: cs) = normalizeComponents cs := rfl

theorem Written.normalizeComponents {cs : List Component} (h : Written cs) :
    Written (Path.normalizeComponents cs) := by
  cases h with
  | inner h => exact .inner fun c hc => h c ((normalizeComponents_sublist _).subset hc)
  | @root cs h =>
    obtain ⟨rest, heq, hsub⟩ := normalizeComponents_root cs
    rw [heq]
    exact .root fun c hc => h c (hsub.subset hc)
  | @current cs h =>
    rw [normalizeComponents_current]
    exact .inner fun c hc => h c ((normalizeComponents_sublist _).subset hc)

theorem components_normalize (p : Path) :
    p.normalize.components = normalizeComponents p.components :=
  components_ofComponents (written_components p).normalizeComponents

/-- The stack is empty before the first piece, or holds the root. -/
theorem normalizeComponents_components (p : Path) : normalizeComponents p.components =
    ((p.pieces.filterMap Component.ofPiece?).foldl stackStep
      (if p.isAbsolute then [.root] else [])).reverse := by
  unfold components
  split_ifs <;> rfl

theorem head?_ne_root {cs : List Component} (h : ∀ c ∈ cs, Inner c) : cs.head? ≠ some .root :=
  fun hroot => by cases h _ (List.mem_of_head? hroot)

theorem isAbsolute_iff_root {p : Path} : p.isAbsolute ↔ p.components.head? = some .root := by
  unfold components
  split_ifs with habsolute hdot
  · simp [habsolute]
  · simp [habsolute]
  · exact iff_of_false habsolute (head?_ne_root (inner_named p))

theorem Written.head?_normalizeComponents {cs : List Component} (h : Written cs) :
    (Path.normalizeComponents cs).head? = some .root ↔ cs.head? = some .root := by
  have hinner : ∀ {cs : List Component}, (∀ c ∈ cs, Inner c) →
      (Path.normalizeComponents cs).head? ≠ some .root := fun h =>
    head?_ne_root fun c hc => h c ((normalizeComponents_sublist _).subset hc)
  cases h with
  | inner h => exact iff_of_false (hinner h) (head?_ne_root h)
  | @root cs h =>
    obtain ⟨rest, heq, -⟩ := normalizeComponents_root cs
    rw [heq]
    rfl
  | @current cs h =>
    rw [normalizeComponents_current]
    exact iff_of_false (hinner h) (by simp)

theorem isAbsolute_normalize (p : Path) : p.normalize.isAbsolute = p.isAbsolute := by
  rw [Bool.eq_iff_iff, isAbsolute_iff_root, isAbsolute_iff_root, components_normalize]
  exact (written_components p).head?_normalizeComponents

theorem fileName?_eq_some_iff {p : Path} {s : Bytes} :
    p.fileName? = some s ↔ p.components.getLast? = some (.name s) := by
  unfold fileName?
  split
  · simp [*]
  · rename_i h
    exact iff_of_false (by simp) (h s)

theorem getLast?_normalizeComponents {cs : List Component} {s : Bytes}
    (h : cs.getLast? = some (.name s)) : (normalizeComponents cs).getLast? = some (.name s) := by
  obtain ⟨before, rfl⟩ := List.getLast?_eq_some_iff.1 h
  rw [normalizeComponents, List.foldl_append, List.getLast?_reverse]
  rfl

/-- A name at the end stays there. -/
theorem fileName?_normalize {p : Path} {s : Bytes} (h : p.fileName? = some s) :
    p.normalize.fileName? = some s := by
  rw [fileName?_eq_some_iff, components_normalize]
  exact getLast?_normalizeComponents (fileName?_eq_some_iff.1 h)

theorem piece_filterMap_sublist (pieces : List Bytes) :
    ((pieces.filterMap Component.ofPiece?).map Component.piece).Sublist pieces := by
  induction pieces with
  | nil => exact .slnil
  | cons s pieces ih =>
    rcases hs : Component.ofPiece? s with _ | c
    · rw [List.filterMap_cons_none hs]
      exact ih.cons s
    · rw [List.filterMap_cons_some hs, List.map_cons, piece_of_ofPiece? hs]
      exact ih.cons_cons s

/-- What is left of a path stands in it already. -/
theorem piece_normalizeComponents_sublist (p : Path) :
    ((normalizeComponents p.components).map Component.piece).Sublist p.pieces := by
  have hnamed := piece_filterMap_sublist p.pieces
  rw [components_eq, lead]
  split_ifs with habsolute hdot
  · obtain ⟨rest, heq, hsub⟩ := normalizeComponents_root (p.pieces.filterMap Component.ofPiece?)
    obtain ⟨more, hmore⟩ := List.head?_eq_some_iff.1 habsolute.1
    rw [List.singleton_append, heq, hmore]
    rw [hmore, List.filterMap_cons_none rfl] at hsub
    exact ((hsub.map _).trans (piece_filterMap_sublist more)).cons_cons []
  · rw [List.singleton_append, normalizeComponents_current]
    exact ((normalizeComponents_sublist _).map _).trans hnamed
  · exact ((normalizeComponents_sublist _).map _).trans hnamed

/-- What is left of a path that ends in a name, between slashes: neither nothing nor the root. -/
theorem pieces_normalize {p : Path} {s : Bytes} (h : p.fileName? = some s) :
    p.normalize.pieces = (normalizeComponents p.components).map Component.piece := by
  have hlast := getLast?_normalizeComponents (fileName?_eq_some_iff.1 h)
  refine pieces_ofComponents (written_components p).normalizeComponents ?_ ?_
  · intro hnil
    rw [hnil] at hlast
    cases hlast
  · intro hroot
    rw [hroot] at hlast
    cases hlast

theorem ne_empty_of_fileName? {p : Path} {s : Bytes} (h : p.fileName? = some s) : s ≠ [] := by
  have hmem := List.mem_of_getLast? (fileName?_eq_some_iff.1 h)
  exact ((written_components p).inner_of_name hmem).piece.2.1

end Normalised

end ScopedStyles.Path
