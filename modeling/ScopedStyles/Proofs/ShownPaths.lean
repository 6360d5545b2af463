import Mathlib.Data.List.TakeWhile
import ScopedStyles.Naming
import ScopedStyles.Proofs.LexicalPaths

/-!
# Paths as they are shown

`Path.shown` is the path that is written as another one is shown. Pieces are shown one by one
(`splitSlash_shown`), and so are components and stems; so what a path is shown as decides what its
stem is shown as (`safeStem_congr`). Paths that are shown as what they are are told apart by their
texts (`eq_of_text`). What a specifier stands for in a file that a text names is one of them
(`shown_resolve`).
-/

namespace ScopedStyles

namespace Path

/-- The path that is written as `p` is shown. -/
def shown (p : Path) : Path := ⟨p.bytes.shown⟩

theorem shown_eq_mk (p : Path) : p.shown = ⟨p.text⟩ := rfl

theorem shown_congr {p q : Path} (h : p.text = q.text) : p.shown = q.shown := by
  rw [shown_eq_mk, shown_eq_mk, h]

/-- Paths that are shown as what they are are told apart by their texts. -/
theorem eq_of_text {p q : Path} (hp : p.shown = p) (hq : q.shown = q) (h : p.text = q.text) :
    p = q := by
  rw [← hp, ← hq, shown_congr h]

theorem shown_mk (s : String) : (Path.mk s).shown = ⟨s⟩ := congrArg mk (Bytes.shown_ofText s)

@[simp]
theorem text_mk (s : String) : (Path.mk s).text = s := Bytes.text_ofText s

theorem slash_ascii : slash < 0x80 ∧ slash ≠ 0 := by decide

theorem dot_ascii : dot < 0x80 ∧ dot ≠ 0 := by decide

section Pieces

theorem shown_joinSlash (ss : List Bytes) :
    (joinSlash ss).shown = joinSlash (ss.map Bytes.shown) := by
  induction ss with
  | nil => rfl
  | cons s ss ih =>
    rcases eq_or_ne ss [] with rfl | hss
    · simp [joinSlash]
    · rw [joinSlash_cons s hss, Bytes.shown_append_cons s slash_ascii.1, ih, List.map_cons,
        joinSlash_cons _ (by simpa using hss)]

theorem splitSlash_shown (bs : Bytes) : splitSlash bs.shown = (splitSlash bs).map Bytes.shown := by
  have hbs : joinSlash (splitSlash bs) = bs := joinSlash_pieces ⟨bs⟩
  conv_lhs => rw [← hbs, shown_joinSlash]
  refine splitSlash_joinSlash (by simpa using splitSlash_ne_nil bs) fun s hs => ?_
  obtain ⟨piece, hpiece, rfl⟩ := List.mem_map.1 hs
  rw [Bytes.mem_shown_iff slash_ascii.1 slash_ascii.2]
  exact Disk.no_slash_of_mem_splitSlash bs piece hpiece

theorem pieces_shown (p : Path) : p.shown.pieces = p.pieces.map Bytes.shown :=
  splitSlash_shown p.bytes

/-- A component with its name as it is shown. -/
def Component.shown : Component → Component
  | .name s => .name s.shown
  | c => c

theorem shown_eq_nil_iff {s : Bytes} : s.shown = [] ↔ s = [] :=
  Bytes.shown_eq_iff fun _ h => absurd h List.not_mem_nil

theorem shown_eq_dot_iff {s : Bytes} : s.shown = [dot] ↔ s = [dot] :=
  Bytes.shown_eq_iff (by simp [dot_ascii])

theorem ofPiece?_shown (s : Bytes) :
    Component.ofPiece? s.shown = (Component.ofPiece? s).map Component.shown := by
  have hdots : s.shown = [dot, dot] ↔ s = [dot, dot] := Bytes.shown_eq_iff (by simp [dot_ascii])
  unfold Component.ofPiece?
  simp only [shown_eq_nil_iff, shown_eq_dot_iff, hdots]
  split_ifs <;> rfl

theorem lead_shown (ss : List Bytes) :
    lead (ss.map Bytes.shown) = (lead ss).map Component.shown := by
  rcases ss with _ | ⟨s, ss⟩
  · rfl
  · simp only [lead, List.map_cons, List.head?_cons, Option.some.injEq, ne_eq, List.cons.injEq,
      List.map_eq_nil_iff, shown_eq_nil_iff, shown_eq_dot_iff]
    split_ifs <;> rfl

theorem components_shown (p : Path) : p.shown.components = p.components.map Component.shown := by
  have hnamed : ∀ ss : List Bytes, (ss.map Bytes.shown).filterMap Component.ofPiece? =
      (ss.filterMap Component.ofPiece?).map Component.shown := by
    intro ss
    rw [List.filterMap_map, List.map_filterMap]
    exact congrArg (fun f => List.filterMap f ss) (funext ofPiece?_shown)
  rw [components_eq, components_eq, pieces_shown, lead_shown, hnamed, List.map_append]

end Pieces

section Stems

theorem fileName?_shown (p : Path) : p.shown.fileName? = p.fileName?.map Bytes.shown := by
  unfold fileName?
  rw [components_shown, List.getLast?_map]
  rcases p.components.getLast? with _ | c
  · rfl
  · cases c <;> rfl

theorem stemOf_of_notMem {s : Bytes} (h : dot ∉ s) : stemOf s = s := by
  have hdrop : s.reverse.dropWhile (· ≠ dot) = [] :=
    List.dropWhile_eq_nil_iff.2 fun b hb => decide_eq_true fun heq => h (by simpa [heq] using hb)
  unfold stemOf
  rw [hdrop]

/-- The last dot opens the extension, unless nothing stands before it. -/
theorem stemOf_append {s t : Bytes} (ht : dot ∉ t) :
    stemOf (s ++ dot :: t) = if s = [] then dot :: t else s := by
  have hdrop : (s ++ dot :: t).reverse.dropWhile (· ≠ dot) = dot :: s.reverse := by
    have hall : ∀ b ∈ t.reverse, decide (b ≠ dot) = true := fun b hb =>
      decide_eq_true fun heq => ht (by simpa [heq] using hb)
    rw [List.reverse_append, List.reverse_cons, List.append_assoc,
      List.dropWhile_append_of_pos hall, List.singleton_append,
      List.dropWhile_cons_of_neg (by simp)]
  unfold stemOf
  rw [hdrop]
  rcases hs : s.reverse with _ | ⟨b, bs⟩
  · rw [List.reverse_eq_nil_iff.1 hs, if_pos rfl]
    rfl
  · have hne : s ≠ [] := fun h => by simp [h] at hs
    rw [if_neg hne, ← List.reverse_reverse s, hs]

theorem stemOf_shown (s : Bytes) : stemOf s.shown = (stemOf s).shown := by
  have hmem : ∀ t : Bytes, dot ∈ t.shown ↔ dot ∈ t := fun t =>
    Bytes.mem_shown_iff dot_ascii.1 dot_ascii.2
  by_cases h : dot ∈ s
  · obtain ⟨after, before, hsplit, hlast⟩ :=
      List.eq_append_cons_of_mem (List.mem_reverse.2 h)
    have hs : s = before.reverse ++ dot :: after.reverse := by
      rw [← List.reverse_reverse s, hsplit]
      simp
    have hlast : dot ∉ after.reverse := fun h => hlast (List.mem_reverse.1 h)
    rw [hs, Bytes.shown_append_cons _ dot_ascii.1, stemOf_append hlast,
      stemOf_append (fun h => hlast ((hmem _).1 h))]
    simp only [shown_eq_nil_iff]
    split_ifs
    · exact (Bytes.shown_append_cons [] dot_ascii.1 _).symm
    · rfl
  · rw [stemOf_of_notMem h, stemOf_of_notMem fun h' => h ((hmem s).1 h')]

theorem stem?_shown (p : Path) : p.shown.stem? = p.stem?.map Bytes.shown := by
  rw [stem?, fileName?_shown, stem?, Option.map_map, Option.map_map]
  exact congrArg (fun f => Option.map f p.fileName?) (funext stemOf_shown)

end Stems

section Resolved

theorem Component.shown_bytes (c : Component) : c.shown.bytes = c.bytes.shown := by
  cases c <;> rfl

/-- A path that is made of components is shown component by component. -/
theorem shown_ofComponents (cs : List Component) :
    (ofComponents cs).shown = ofComponents (cs.map Component.shown) := by
  have hjoin : ∀ cs : List Component, (joinSlash (cs.map Component.bytes)).shown =
      joinSlash ((cs.map Component.shown).map Component.bytes) := by
    intro cs
    rw [shown_joinSlash, List.map_map, List.map_map]
    exact congrArg (fun f => joinSlash (List.map f cs))
      (funext fun c => (Component.shown_bytes c).symm)
  rcases cs with _ | ⟨c, cs⟩
  · rfl
  · cases c with
    | root =>
      refine congrArg mk ?_
      exact (Bytes.shown_append_cons [] slash_ascii.1 _).trans (congrArg (slash :: ·) (hjoin cs))
    | _ => exact congrArg mk (hjoin (_ :: cs))

theorem shown_ofComponents_self {cs : List Component} (h : ∀ c ∈ cs, c.shown = c) :
    (ofComponents cs).shown = ofComponents cs := by
  rw [shown_ofComponents, List.map_congr_left h, List.map_id']

theorem shown_of_mem_components {p : Path} (hp : p.shown = p) {c : Component}
    (h : c ∈ p.components) : c.shown = c := by
  have hshown : p.components.map Component.shown = p.components.map id := by
    rw [← components_shown, hp, List.map_id]
  exact List.map_inj_left.1 hshown c h

theorem parentComponents_subset (p : Path) : p.parentComponents ⊆ p.components := by
  intro c hc
  unfold parentComponents at hc
  split at hc
  · cases hc
  · cases hc
  · rename_i last rest _ hp
    have hc : c ∈ p.components.reverse := hp ▸ List.mem_cons_of_mem _ (List.mem_reverse.1 hc)
    exact List.mem_reverse.1 hc

end Resolved

end Path

/-- A specifier in a file that a text names stands for a path that is written as a text. -/
theorem Specifier.shown_resolve (specifier file : String) :
    (resolve specifier ⟨file⟩).shown = resolve specifier ⟨file⟩ := by
  unfold resolve
  split_ifs with hdot
  · have hdir : (Path.ofComponents (Path.mk file).parentComponents).shown =
        Path.ofComponents (Path.mk file).parentComponents :=
      Path.shown_ofComponents_self fun c hc =>
        Path.shown_of_mem_components (Path.shown_mk file) (Path.parentComponents_subset _ hc)
    have hspecifier : ∀ c ∈ (Path.mk specifier).components, c.shown = c := fun c hc =>
      Path.shown_of_mem_components (Path.shown_mk specifier) hc
    refine Path.shown_ofComponents_self fun c hc => ?_
    have hc := (Path.normalizeComponents_sublist _).subset hc
    rw [Path.components_join (not_isAbsolute hdot)] at hc
    split_ifs at hc
    · exact hspecifier c hc
    · rcases List.mem_append.1 hc with hc | hc
      · exact Path.shown_of_mem_components hdir hc
      · refine hspecifier c ?_
        rw [Path.components_eq]
        exact List.mem_append_right _ hc
  · exact Path.shown_mk specifier

/-- What a path is shown as decides what its stem is shown as. -/
theorem Naming.safeStem_congr {p q : Path} (h : p.text = q.text) : safeStem p = safeStem q := by
  have hshown : ∀ p : Path, Bytes.text (p.shown.stem?.getD []) = Bytes.text (p.stem?.getD []) := by
    intro p
    rw [Path.stem?_shown]
    rcases p.stem? with _ | stem
    · rfl
    · exact Bytes.text_shown stem
  rw [safeStem, safeStem, ← hshown p, ← hshown q, Path.shown_congr h]

end ScopedStyles
