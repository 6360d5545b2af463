import ScopedStyles.Proofs.LexicalPaths

/-!
# Paths in normal form

What normalising leaves is the root or a run of `..`, and names behind it (`kept_foldl_stackStep`):
the stack of the components read so far has this form before and after each of them. Reading what is
left rebuilds the stack (`foldl_normalizeComponents`), so that normalising twice changes nothing and
a path may be normalised before another one is written behind it (`normalize_join`).

`resolves_normally` puts together what this says of the path of a stylesheet: its form, that it ends
as the specifier does, and that the processed stylesheet stands beside it.
-/

namespace ScopedStyles.Path

section Stacks

/-- A stack of components, the last first: names, and below them the root or steps up that nothing
is there to undo. -/
inductive Kept : List Component → Prop
  | relative (names : List Bytes) (ups : ℕ) :
    Kept (names.map Component.name ++ List.replicate ups .parent)
  | absolute (names : List Bytes) : Kept (names.map Component.name ++ [.root])

theorem kept_stackStep {stack : List Component} (h : Kept stack) {c : Component} (hc : Inner c) :
    Kept (stackStep stack c) := by
  cases hc with
  | @name s hs =>
    cases h with
    | relative names ups => exact .relative (s :: names) ups
    | absolute names => exact .absolute (s :: names)
  | parent =>
    cases h with
    | relative names ups =>
      rcases names with _ | ⟨top, names⟩
      · have hup : stackStep (List.replicate ups .parent) .parent =
            List.replicate (ups + 1) .parent := by
          cases ups <;> rfl
        rw [List.map_nil, List.nil_append, hup]
        exact .relative [] (ups + 1)
      · exact .relative names ups
    | absolute names =>
      rcases names with _ | ⟨top, names⟩
      · exact .absolute []
      · exact .absolute names

theorem kept_foldl_stackStep {cs : List Component} (h : ∀ c ∈ cs, Inner c) {stack : List Component}
    (hstack : Kept stack) : Kept (cs.foldl stackStep stack) := by
  induction cs generalizing stack with
  | nil => exact hstack
  | cons c cs ih =>
    rw [List.forall_mem_cons] at h
    exact ih h.2 (kept_stackStep hstack h.1)

/-- What the components of a path leave. -/
theorem Written.kept {cs : List Component} (h : Written cs) : Kept (cs.foldl stackStep []) := by
  cases h with
  | inner h => exact kept_foldl_stackStep h (.relative [] 0)
  | root h => exact kept_foldl_stackStep h (.absolute [])
  | current h => exact kept_foldl_stackStep h (.relative [] 0)

theorem Kept.current_notMem {stack : List Component} (h : Kept stack) : .current ∉ stack := by
  cases h <;> simp

theorem Kept.exists_parents {stack : List Component} (h : Kept stack) :
    ∃ ups rest, stack.reverse = List.replicate ups .parent ++ rest ∧ .parent ∉ rest := by
  cases h with
  | relative names ups => exact ⟨ups, (names.map Component.name).reverse, by simp, by simp⟩
  | absolute names =>
    exact ⟨0, (names.map Component.name ++ [Component.root]).reverse, rfl, by simp⟩

theorem Kept.parent_notMem {stack : List Component} (h : Kept stack)
    (hroot : stack.reverse.head? = some .root) : .parent ∉ stack := by
  cases h with
  | relative names ups =>
    have hmem := List.mem_reverse.1 (List.mem_of_head? hroot)
    simp at hmem
  | absolute names => simp

theorem foldl_names (names : List Bytes) (stack : List Component) :
    (names.map Component.name).foldl stackStep stack =
      (names.map Component.name).reverse ++ stack := by
  induction names generalizing stack with
  | nil => rfl
  | cons s names ih =>
    have hpush : stackStep stack (.name s) = .name s :: stack := rfl
    rw [List.map_cons, List.foldl_cons, hpush, ih, List.reverse_cons, List.append_assoc]
    rfl

theorem foldl_parents (ups : ℕ) :
    (List.replicate ups Component.parent).foldl stackStep [] = List.replicate ups .parent := by
  induction ups with
  | zero => rfl
  | succ ups ih =>
    rw [List.replicate_succ', List.foldl_append, ih, ← List.replicate_succ', List.replicate_succ]
    cases ups <;> rfl

/-- A stack is rebuilt from the components that it holds. -/
theorem Kept.foldl_reverse {stack : List Component} (h : Kept stack) :
    stack.reverse.foldl stackStep [] = stack := by
  cases h with
  | relative names ups =>
    rw [List.reverse_append, List.foldl_append, List.reverse_replicate, foldl_parents,
      ← List.map_reverse, foldl_names, ← List.map_reverse, List.reverse_reverse]
  | absolute names =>
    rw [List.reverse_append, List.foldl_append, ← List.map_reverse, foldl_names,
      ← List.map_reverse, List.reverse_reverse]
    rfl

theorem foldl_normalizeComponents {cs : List Component} (h : Written cs) :
    (normalizeComponents cs).foldl stackStep [] = cs.foldl stackStep [] := h.kept.foldl_reverse

end Stacks

section Normalised

theorem normalizeComponents_normalizeComponents {cs : List Component} (h : Written cs) :
    normalizeComponents (normalizeComponents cs) = normalizeComponents cs := by
  rw [normalizeComponents, foldl_normalizeComponents h]
  rfl

theorem normalize_normalize (p : Path) : p.normalize.normalize = p.normalize := by
  rw [normalize, components_normalize, normalizeComponents_normalizeComponents
    (written_components p)]
  rfl

/-- The second path goes on with the stack that the first one leaves. -/
theorem normalizeComponents_join (p : Path) {q : Path} (hq : ¬ q.isAbsolute) :
    normalizeComponents (p.join q).components = ((q.pieces.filterMap Component.ofPiece?).foldl
      stackStep (p.components.foldl stackStep [])).reverse := by
  rw [components_join hq]
  split_ifs with hp
  · rw [hp, normalizeComponents_components, if_neg hq]
    rfl
  · rw [normalizeComponents, List.foldl_append]

/-- A path may be normalised before another one is written behind it. -/
theorem normalize_join (p : Path) {q : Path} (hq : ¬ q.isAbsolute) :
    (p.join q).normalize = (p.normalize.join q).normalize := by
  have heq : normalizeComponents (p.join q).components =
      normalizeComponents (p.normalize.join q).components := by
    rw [normalizeComponents_join p hq, normalizeComponents_join p.normalize hq,
      components_normalize, foldl_normalizeComponents (written_components p)]
  exact congrArg ofComponents heq

theorem current_notMem_normalize (p : Path) : .current ∉ p.normalize.components := by
  rw [components_normalize, normalizeComponents, List.mem_reverse]
  exact (written_components p).kept.current_notMem

/-- Steps up stand in front. -/
theorem exists_parents_normalize (p : Path) : ∃ ups rest,
    p.normalize.components = List.replicate ups .parent ++ rest ∧ .parent ∉ rest := by
  rw [components_normalize]
  exact (written_components p).kept.exists_parents

/-- At the root there is nothing above. -/
theorem parent_notMem_normalize {p : Path} (h : p.isAbsolute) :
    .parent ∉ p.normalize.components := by
  have hroot := isAbsolute_iff_root.1 ((isAbsolute_normalize p).trans h)
  rw [components_normalize, normalizeComponents] at hroot ⊢
  rw [List.mem_reverse]
  exact (written_components p).kept.parent_notMem hroot

theorem fileName?_join (p : Path) {q : Path} (hq : ¬ q.isAbsolute) {s : Bytes}
    (h : (q.pieces.filterMap Component.ofPiece?).getLast? = some (.name s)) :
    (p.join q).fileName? = some s := by
  rw [fileName?_eq_some_iff, components_join hq]
  obtain ⟨before, hbefore⟩ := List.getLast?_eq_some_iff.1 h
  split_ifs
  · rw [components_eq, hbefore, ← List.append_assoc]
    exact List.getLast?_concat
  · rw [hbefore, ← List.append_assoc]
    exact List.getLast?_concat

end Normalised

section Names

/-- What is added to the last piece is added to the whole. -/
theorem joinSlash_concat (ss : List Bytes) (s t : Bytes) :
    joinSlash (ss ++ [s ++ t]) = joinSlash (ss ++ [s]) ++ t := by
  induction ss with
  | nil => simp [joinSlash]
  | cons first ss ih =>
    rw [List.cons_append, List.cons_append, joinSlash_cons first (by simp),
      joinSlash_cons first (by simp), ih, List.append_assoc, List.cons_append]

/-- The end of the last name is the end of the path. -/
theorem bytes_ofComponents_concat {cs : List Component} {s t : Bytes}
    (h : Written (cs ++ [.name (s ++ t)])) :
    (ofComponents (cs ++ [.name (s ++ t)])).bytes =
      joinSlash (cs.map Component.piece ++ [s]) ++ t := by
  have hroot : cs ++ [Component.name (s ++ t)] ≠ [.root] := by
    intro h
    have hlast := congrArg List.getLast? h
    simp at hlast
  rw [bytes_ofComponents h hroot, List.map_append, ← joinSlash_concat]
  rfl

end Names

end ScopedStyles.Path

open ScopedStyles.Path (Component slash)

namespace ScopedStyles.Specifier

theorem resolve_eq {specifier : String} (hdot : specifier.toList.head? = some '.') (source : Path) :
    resolve specifier source =
      ((Path.ofComponents source.parentComponents).join ⟨specifier⟩).normalize := if_pos hdot

/-- What stands before the suffix of a specifier decides what its path is up to the suffix. -/
theorem exists_resolve (bs : Bytes) (source : Path) :
    ∃ stem : Bytes, ∀ {specifier : String} {ending : Bytes}, specifier.toList.head? = some '.' →
      ending.length = 4 → slash ∉ ending → Bytes.ofText specifier = bs ++ ending →
      resolve specifier source = ⟨stem ++ ending⟩ := by
  obtain ⟨before, stem, hnamed⟩ := exists_named bs
  obtain ⟨dir, hdir⟩ : ∃ dir, dir = Path.ofComponents source.parentComponents := ⟨_, rfl⟩
  obtain ⟨stack, hstack⟩ : ∃ stack, stack =
    before.foldl Path.stackStep (dir.components.foldl Path.stackStep []) := ⟨_, rfl⟩
  refine ⟨Path.joinSlash (stack.reverse.map Component.piece ++ [stem]), ?_⟩
  intro specifier ending hdot hlength hslash hspecifier
  have hnormal : Path.normalizeComponents (dir.join ⟨specifier⟩).components =
      stack.reverse ++ [.name (stem ++ ending)] := by
    rw [Path.normalizeComponents_join dir (not_isAbsolute hdot), hspecifier,
      hnamed ending hlength hslash, List.foldl_append, hstack]
    exact List.reverse_cons
  have hwritten := (Path.written_components (dir.join ⟨specifier⟩)).normalizeComponents
  rw [hnormal] at hwritten
  rw [resolve_eq hdot, ← hdir, Path.normalize, hnormal]
  exact congrArg Path.mk (Path.bytes_ofComponents_concat hwritten)

/-- The processed stylesheet stands beside the stylesheet. -/
theorem resolve_sibling {specifier : String} (hdot : specifier.toList.head? = some '.')
    (hsheet : isStylesheet specifier) (source : Path) :
    ∃ stem : Bytes, resolve specifier source = ⟨stem ++ ".sss"⟩ ∧
      resolve (sibling specifier) source = ⟨stem ++ ".css"⟩ := by
  obtain ⟨name, rfl⟩ := exists_eq_of_isStylesheet hsheet
  obtain ⟨stem, hstem⟩ := exists_resolve (Bytes.ofText name) source
  -- both specifiers start with the dot, which stands in `name` or is that of the suffix
  have hdot' : (name ++ ".css").toList.head? = some '.' := by
    rw [String.toList_append] at hdot ⊢
    rcases hname : name.toList with _ | ⟨c, cs⟩
    · rfl
    · rw [hname] at hdot
      exact hdot
  rw [sibling_append]
  exact ⟨stem, hstem hdot rfl (by decide +kernel) (Bytes.ofText_append ..),
    hstem hdot' rfl (by decide +kernel) (Bytes.ofText_append ..)⟩

/-- The path that a specifier stands for is in normal form and ends as the specifier does. -/
structure ResolvesNormally (specifier : String) (source : Path) : Prop where
  current : Component.current ∉ (resolve specifier source).components
  /-- Steps up stand in front only. -/
  parents : ∃ ups rest, (resolve specifier source).components =
    List.replicate ups .parent ++ rest ∧ Component.parent ∉ rest
  absolute : (resolve specifier source).isAbsolute →
    Component.parent ∉ (resolve specifier source).components
  fixed : (resolve specifier source).normalize = resolve specifier source
  last : ∃ name, (resolve specifier source).components.getLast? = some (.name name) ∧
    (Path.mk specifier).components.getLast? = some (.name name)
  suffixed : isStylesheet (resolve specifier source).text
  /-- The specifier of the processed stylesheet stands for the same path with `.css` at its end, -/
  beside : ∃ stem : Bytes, resolve specifier source = ⟨stem ++ ".sss"⟩ ∧
    resolve (sibling specifier) source = ⟨stem ++ ".css"⟩
  /-- and it is shown so. -/
  shown : (resolve (sibling specifier) source).text = sibling (resolve specifier source).text

/-- Whatever the source file is, a relative specifier of a stylesheet stands for a path in normal
form; and paths may be normalised before they are joined. -/
theorem resolves_normally {specifier : String} {source : Path}
    (hdot : specifier.toList.head? = some '.') (hsheet : isStylesheet specifier) :
    ResolvesNormally specifier source ∧
      ∀ p q : Path, ¬ q.isAbsolute → (p.join q).normalize = (p.normalize.join q).normalize := by
  refine ⟨?_, fun p q hq => Path.normalize_join p hq⟩
  obtain ⟨stem, hsss, hcss⟩ := resolve_sibling hdot hsheet source
  have htext : ∀ ending : String, ending.toList.head? = some '.' →
      (Path.mk (stem ++ ending)).text = stem.text ++ ending := fun ending =>
    Bytes.text_append_ofText stem (b := Path.dot) (by decide)
  obtain ⟨before, name, hnamed⟩ := named_of_isStylesheet hsheet
  have hlast : ((Path.mk specifier).pieces.filterMap Component.ofPiece?).getLast? =
      some (.name name) := by
    rw [hnamed]
    exact List.getLast?_concat
  have hjoined := Path.fileName?_normalize (Path.fileName?_join
    (Path.ofComponents source.parentComponents) (not_isAbsolute hdot) hlast)
  rw [← resolve_eq hdot, Path.fileName?_eq_some_iff] at hjoined
  have hown : (Path.mk specifier).components.getLast? = some (.name name) := by
    rw [Path.components_eq, hnamed, ← List.append_assoc]
    exact List.getLast?_concat
  have hnormal := resolve_eq hdot source
  exact {
    current := hnormal ▸ Path.current_notMem_normalize _
    parents := hnormal ▸ Path.exists_parents_normalize _
    absolute := fun habsolute => by
      rw [hnormal] at habsolute ⊢
      exact Path.parent_notMem_normalize ((Path.isAbsolute_normalize _).symm.trans habsolute)
    fixed := hnormal ▸ Path.normalize_normalize _
    last := ⟨name, hjoined, hown⟩
    suffixed := by
      rw [hsss, htext ".sss" rfl]
      exact isStylesheet_append _
    beside := ⟨stem, hsss, hcss⟩
    shown := by rw [hsss, hcss, htext ".sss" rfl, htext ".css" rfl, sibling_append] }

theorem resolves_normally_above_source :
    resolve ".././../styles/a.sss" ⟨"src/App.tsx"⟩ = ⟨"../styles/a.sss"⟩ ∧
      ResolvesNormally ".././../styles/a.sss" ⟨"src/App.tsx"⟩ :=
  ⟨by decide +kernel, (resolves_normally (by decide +kernel) (by decide +kernel)).1⟩

end ScopedStyles.Specifier
