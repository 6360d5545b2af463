import ScopedStyles.Proofs.PathPieces
import ScopedStyles.Proofs.ShownBytes
import ScopedStyles.Specifier

/-!
# Paths without a disk

A specifier is resolved without a look at the disk, and a disk with links may send the plain path
elsewhere. Without links it does not: `locate_resolve`.

The walk and the normalisation go over the same components. `Stacked` ties them together: what the
stack holds after some steps leads to where these steps have led. A step down pushes a name, and
the step up that takes the name off goes back to where the name was pushed; at the root `..` stays
where it is, and above the start of a relative path it is kept and walked. Every component that is
left was walked as one step when it was pushed (`Stacked.leads`), so the shorter path finds the
same directories. The names that were taken off were found by the longer path only: that is why
nothing is said of a plain path that leads nowhere.
-/

open ScopedStyles.Path (Component stackStep normalizeComponents slash dot)

namespace ScopedStyles.Disk

variable {d : Disk} {k : ℕ}

section Walks

/-- No link stands on the disk. -/
def LinkFree (d : Disk) : Prop := ∀ place target, d.entry? place ≠ some (.link target)

theorem linkFree_of_entries (h : ∀ entry ∈ d.entries, ∀ target, entry.2 ≠ .link target) :
    d.LinkFree := by
  intro place target hlink
  unfold entry? at hlink
  split_ifs at hlink with hroot
  · cases hlink
  obtain ⟨before, after, hentries, -⟩ := List.lookup_eq_some_iff.1 hlink
  exact h (place, .link target) (by simp [hentries]) target rfl

/-- One step where no link stands. -/
inductive Moves (d : Disk) : Place → Bytes → Place → Prop
  | stay {here : Place} : d.entry? here = some .directory → Moves d here [dot] here
  | up {here : Place} : d.entry? here = some .directory → Moves d here [dot, dot] here.dropLast
  | down {here : Place} {s : Bytes} {e : Entry} :
    d.entry? here = some .directory → IsDescent s → d.entry? (here ++ [s]) = some e →
    Moves d here s (here ++ [s])

theorem Moves.eq_of_dot {here next : Place} {s : Bytes} (h : Moves d here s next) (hs : s = [dot]) :
    next = here := by
  cases h with
  | stay => rfl
  | up => exact absurd hs (by decide)
  | down _ hdescent _ => exact absurd hs hdescent.not_current

theorem leads_nil_iff {here last : Place} : Leads d false (k + 1) here [] last ↔ here = last := by
  constructor
  · intro h
    cases h
    rfl
  · rintro rfl
    exact .arrived

theorem leads_cons_iff (hfree : d.LinkFree) {here last : Place} {s : Bytes} {rest : List Bytes} :
    Leads d false (k + 1) here (s :: rest) last ↔
      ∃ next, Moves d here s next ∧ Leads d false (k + 1) next rest last := by
  constructor
  · intro h
    cases h with
    | stay hhere hrest => exact ⟨_, .stay hhere, hrest⟩
    | up hhere hrest => exact ⟨_, .up hhere, hrest⟩
    | down hhere hs hnext _ hrest => exact ⟨_, .down hhere hs hnext, hrest⟩
    | jump _ _ hnext _ => exact absurd hnext (hfree _ _)
    | missing hcreate _ _ _ => cases hcreate
  · rintro ⟨next, hmove, hrest⟩
    cases hmove with
    | stay hhere => exact .stay hhere hrest
    | up hhere => exact .up hhere hrest
    | down hhere hs hnext =>
      exact .down hhere hs hnext (fun target h => hfree _ target (h ▸ hnext)) hrest

theorem leads_append_iff (hfree : d.LinkFree) {here last : Place} {ss ts : List Bytes} :
    Leads d false (k + 1) here (ss ++ ts) last ↔
      ∃ mid, Leads d false (k + 1) here ss mid ∧ Leads d false (k + 1) mid ts last := by
  induction ss generalizing here with
  | nil => simp [leads_nil_iff]
  | cons s ss ih =>
    simp only [List.cons_append, leads_cons_iff hfree, ih]
    constructor
    · rintro ⟨next, hmove, mid, hss, hts⟩
      exact ⟨mid, ⟨next, hmove, hss⟩, hts⟩
    · rintro ⟨mid, ⟨next, hmove, hss⟩, hts⟩
      exact ⟨next, hmove, mid, hss, hts⟩

end Walks

section Stacks

/-- The components kept so far, the last first, lead from one place to another. -/
inductive Stacked (d : Disk) : Place → List Component → Place → Prop
  | start (here : Place) : Stacked d here [] here
  | root : Stacked d [] [.root] []
  | parent {start here : Place} {stack : List Component} :
    Stacked d start stack here → Moves d here [dot, dot] here.dropLast →
    Stacked d start (.parent :: stack) here.dropLast
  | name {start here : Place} {stack : List Component} {s : Bytes} :
    Stacked d start stack here → s ≠ [] → Moves d here s (here ++ [s]) →
    Stacked d start (.name s :: stack) (here ++ [s])

/-- A step of the walk is a step of the normalisation. -/
theorem Stacked.step {start here next : Place} {stack : List Component} {s : Bytes}
    {c : Component} (h : Stacked d start stack here) (hmove : Moves d here s next)
    (hs : Component.ofPiece? s = some c) : Stacked d start (stackStep stack c) next := by
  cases hmove with
  | stay => cases hs
  | up hhere =>
    obtain rfl : Component.parent = c := Option.some.inj hs
    cases h with
    | start => exact .parent (.start _) (.up hhere)
    | root => exact .root
    | parent hstack hmove => exact .parent (.parent hstack hmove) (.up hhere)
    | name hstack _ _ =>
      -- the name is taken off, and the step up goes back to where it was pushed
      rw [List.dropLast_concat]
      exact hstack
  | down hhere hdescent hnext =>
    have hempty : s ≠ [] := fun hempty => by
      rw [hempty] at hs
      cases hs
    have hc : Component.name s = c := by
      simpa [Component.ofPiece?, hempty, hdescent.not_current, hdescent.not_parent] using hs
    rw [← hc]
    exact .name h hempty (.down hhere hdescent hnext)

/-- So is a walk. -/
theorem Stacked.run (hfree : d.LinkFree) {start last : Place} : ∀ {ss : List Bytes} {here : Place}
    {stack : List Component}, Stacked d start stack here → Leads d false (k + 1) here ss last →
    (∀ s ∈ ss, s ≠ []) →
    Stacked d start ((ss.filterMap Component.ofPiece?).foldl stackStep stack) last
  | [], here, stack, h, hleads, _ => by
    obtain rfl := leads_nil_iff.1 hleads
    exact h
  | s :: ss, here, stack, h, hleads, hss => by
    obtain ⟨next, hmove, hleads⟩ := (leads_cons_iff hfree).1 hleads
    rw [List.forall_mem_cons] at hss
    rcases hs : Component.ofPiece? s with _ | c
    · have hdot := (Path.ofPiece?_eq_none_iff.1 hs).resolve_left hss.1
      have hnext : next = here := hmove.eq_of_dot hdot
      rw [List.filterMap_cons_none hs]
      exact Stacked.run hfree (hnext ▸ h) hleads hss.2
    · rw [List.filterMap_cons_some hs, List.foldl_cons]
      exact Stacked.run hfree (h.step hmove hs) hleads hss.2

theorem leads_concat (hfree : d.LinkFree) {start here next : Place} {stack : List Component}
    {c : Component}
    (h : Leads d false (k + 1) start ((stack.reverse.map Component.piece).filter (· ≠ [])) here)
    (hc : c.piece ≠ []) (hmove : Moves d here c.piece next) : Leads d false (k + 1) start
      (((c :: stack).reverse.map Component.piece).filter (· ≠ [])) next := by
  have hlist : ((c :: stack).reverse.map Component.piece).filter (· ≠ []) =
      (stack.reverse.map Component.piece).filter (· ≠ []) ++ [c.piece] := by
    simp [hc]
  rw [hlist]
  exact (leads_append_iff hfree).2 ⟨here, h, (leads_cons_iff hfree).2 ⟨next, hmove, .arrived⟩⟩

/-- What is left of the components leads where they led. -/
theorem Stacked.leads (hfree : d.LinkFree) {start last : Place} {stack : List Component}
    (h : Stacked d start stack last) : Leads d false (k + 1) start
      ((stack.reverse.map Component.piece).filter (· ≠ [])) last := by
  induction h with
  | start => exact .arrived
  | root => exact .arrived
  | parent _ hmove ih => exact leads_concat hfree ih (by decide) hmove
  | name _ hs hmove ih => exact leads_concat hfree ih hs hmove

end Stacks

section Normalised

theorem clean_filterMap (pieces : List Bytes) :
    (steps.clean pieces).filterMap Component.ofPiece? = pieces.filterMap Component.ofPiece? := by
  fun_induction steps.clean pieces with
  | case1 => rfl
  | case2 => rfl
  | case3 rest hlast ih =>
    rw [List.filterMap_cons_none rfl]
    exact ih
  | case4 s rest hlast hs ih => rw [List.filterMap_cons, List.filterMap_cons, ih]

theorem clean_eq_filter (before : List Bytes) {last : Bytes} (hlast : last ≠ []) :
    steps.clean (before ++ [last]) = (before ++ [last]).filter (· ≠ []) := by
  induction before with
  | nil => simp [steps.clean, hlast]
  | cons s before ih =>
    rw [List.cons_append, List.filter_cons, ← ih]
    by_cases hs : s = [] <;> simp [steps.clean, hs]

/-- The steps of a path are its components between slashes. -/
theorem steps_filterMap (p : Path) :
    (steps p).filterMap Component.ofPiece? = p.pieces.filterMap Component.ofPiece? := by
  unfold steps
  split
  · rename_i h
    rw [h]
    rfl
  · exact clean_filterMap _

theorem ne_empty_of_mem_steps {p : Path} {s : Bytes} (h : s ∈ steps p) : s ≠ [] := by
  unfold steps at h
  split at h
  · cases h
  · exact (mem_clean _ h).1

/-- Where a path does not end in a slash its steps are the pieces that are not empty. -/
theorem steps_eq_filter {p : Path} {before : List Bytes} {last : Bytes}
    (h : p.pieces = before ++ [last]) (hlast : last ≠ []) :
    steps p = p.pieces.filter (· ≠ []) := by
  unfold steps
  split
  · rename_i hempty
    have hsingle : before ++ [last] = [] ++ [[]] := h ▸ hempty
    exact absurd (List.singleton_inj.1 (List.append_inj_right' hsingle rfl)) hlast
  · rw [h]
    exact clean_eq_filter before hlast

/-- A path that can be walked can be walked when it is normalised: nothing is added to it. -/
theorem IsWalkable.normalize {p : Path} (h : IsWalkable p) {name : Bytes}
    (hname : p.fileName? = some name) : IsWalkable p.normalize := by
  have hpieces := Path.pieces_normalize hname
  have hsub := Path.piece_normalizeComponents_sublist p
  rw [← hpieces] at hsub
  refine ⟨fun hnull => h.no_null ?_, fun hempty => ?_, Nat.lt_of_le_of_lt ?_ h.short⟩
  · rw [← Path.joinSlash_pieces] at hnull ⊢
    obtain ⟨s, hs, hnull⟩ := (Path.mem_joinSlash (by decide)).1 hnull
    exact (Path.mem_joinSlash (by decide)).2 ⟨s, hsub.subset hs, hnull⟩
  · have hlast := Path.fileName?_normalize hname
    rw [Path.fileName?, Path.components_eq_nil_iff.2 hempty] at hlast
    cases hlast
  · rw [← Path.joinSlash_pieces p.normalize, ← Path.joinSlash_pieces p]
    exact Path.length_joinSlash_le hsub (Path.pieces_ne_nil _)

/-- The steps of a normalised path that ends in a name. -/
theorem steps_normalize {p : Path} {name : Bytes} (hname : p.fileName? = some name) :
    steps p.normalize =
      ((normalizeComponents p.components).map Component.piece).filter (· ≠ []) := by
  obtain ⟨before, hlast⟩ := List.getLast?_eq_some_iff.1
    (Path.getLast?_normalizeComponents (Path.fileName?_eq_some_iff.1 hname))
  have hpieces := Path.pieces_normalize hname
  have hsplit : p.normalize.pieces = before.map Component.piece ++ [name] := by
    rw [hpieces, hlast, List.map_append]
    rfl
  rw [steps_eq_filter hsplit (Path.ne_empty_of_fileName? hname), hpieces]

/-- Where there are no links a path that ends in a name may be normalised before it is walked. -/
theorem locate_normalize (hfree : d.LinkFree) {p : Path} {name : Bytes}
    (hname : p.fileName? = some name) {place : Place} (h : d.locate p = .ok place) :
    d.locate p.normalize = .ok place := by
  obtain ⟨hp, hleads⟩ := locateWith_eq_ok_iff.1 h
  have hstacked : Stacked d (if p.isAbsolute then [] else d.base)
      ((p.pieces.filterMap Component.ofPiece?).foldl stackStep
        (if p.isAbsolute then [.root] else [])) place := by
    rw [← steps_filterMap]
    refine Stacked.run hfree ?_ hleads fun _ => ne_empty_of_mem_steps
    split_ifs
    · exact .root
    · exact .start _
  have hkept := hstacked.leads (k := maxLinks) hfree
  rw [← Path.normalizeComponents_components, ← steps_normalize hname,
    ← Path.isAbsolute_normalize] at hkept
  exact locateWith_eq_ok_iff.2 ⟨hp.normalize hname, hkept⟩

end Normalised

end ScopedStyles.Disk

namespace ScopedStyles.Specifier

theorem not_isAbsolute {specifier : String} (hdot : specifier.toList.head? = some '.') :
    ¬ (Path.mk specifier).isAbsolute := by
  have hhead : (Bytes.ofText specifier).head? = some dot := Bytes.head?_ofText (by decide) hdot
  simp only [Path.isAbsolute, hhead]
  decide

theorem isStylesheet_append (stem : String) : isStylesheet (stem ++ ".sss") := by
  rw [isStylesheet, String.toList_append]
  exact List.isSuffixOf_iff_suffix.2 (List.suffix_append ..)

theorem sibling_append (stem : String) : sibling (stem ++ ".sss") = stem ++ ".css" := by
  have hlength : (stem ++ ".sss").toList.length - 4 = stem.toList.length := by
    rw [String.toList_append, List.length_append]
    exact Nat.add_sub_cancel ..
  have hsuffix : suffix.isSuffixOf (stem ++ ".sss").toList = true := isStylesheet_append stem
  rw [sibling, if_pos hsuffix, hlength, String.toList_append, List.take_left,
    String.ofList_append, String.ofList_toList]

/-- A stylesheet is named by what stands before its suffix. -/
theorem exists_eq_of_isStylesheet {specifier : String} (h : isStylesheet specifier) :
    ∃ stem : String, specifier = stem ++ ".sss" := by
  obtain ⟨cs, hcs⟩ := List.isSuffixOf_iff_suffix.1 h
  refine ⟨String.ofList cs, String.toList_inj.1 ?_⟩
  rw [← hcs, String.toList_append, String.toList_ofList]
  rfl

/-- What ends in a suffix of four bytes without slashes is read as a name at its end; what stands
before the suffix decides all the rest. -/
theorem exists_named (bs : Bytes) : ∃ before stem, ∀ suffix : Bytes, suffix.length = 4 →
    slash ∉ suffix → (Path.mk (bs ++ suffix)).pieces.filterMap Component.ofPiece? =
      before ++ [.name (stem ++ suffix)] := by
  obtain ⟨before, stem, hsplit⟩ : ∃ before stem, Path.splitSlash bs = before ++ [stem] :=
    ⟨_, _, (List.dropLast_append_getLast (Path.splitSlash_ne_nil bs)).symm⟩
  refine ⟨before.filterMap Component.ofPiece?, stem, fun suffix hlength hslash => ?_⟩
  obtain ⟨before', stem', hbs, happend⟩ := Path.splitSlash_append hslash bs
  obtain ⟨rfl, hstem⟩ := List.append_inj' (hsplit.symm.trans hbs) rfl
  obtain rfl : stem = stem' := List.singleton_inj.1 hstem
  have hname : Component.ofPiece? (stem ++ suffix) = some (.name (stem ++ suffix)) := by
    have hlong : ∀ bs : Bytes, bs.length < 4 → stem ++ suffix ≠ bs := by
      rintro bs hbs rfl
      rw [List.length_append] at hbs
      omega
    have hnone : ¬ (stem ++ suffix = [] ∨ stem ++ suffix = [dot]) :=
      not_or.2 ⟨hlong _ (by decide), hlong _ (by decide)⟩
    rw [Component.ofPiece?, if_neg hnone, if_neg (hlong _ (by decide))]
  rw [Path.pieces, happend, List.filterMap_append, List.filterMap_cons_some hname]
  rfl

/-- What ends in the suffix of stylesheets ends in a name. -/
theorem named_of_isStylesheet {specifier : String} (h : isStylesheet specifier) :
    ∃ before name, (Path.mk specifier).pieces.filterMap Component.ofPiece? =
      before ++ [.name name] := by
  obtain ⟨stem, rfl⟩ := exists_eq_of_isStylesheet h
  obtain ⟨before, name, hnamed⟩ := exists_named (Bytes.ofText stem)
  rw [Bytes.ofText_append]
  exact ⟨before, _, hnamed (Bytes.ofText ".sss") rfl (by decide +kernel)⟩

end ScopedStyles.Specifier

namespace ScopedStyles.Disk

variable {d : Disk}

/-- Without links a stylesheet is found where the plain join of the directory of the source and the
specifier leads, however many `..` there are: `dir` is the directory as it is written. -/
theorem locate_resolve (hfree : d.LinkFree) {source dir : Path}
    (hdir : dir.components = source.parentComponents) {specifier : String}
    (hdot : specifier.toList.head? = some '.') (hsheet : Specifier.isStylesheet specifier)
    {place : Place} (h : d.locate (dir.join ⟨specifier⟩) = .ok place) :
    d.locate (Specifier.resolve specifier source) = .ok place := by
  have hrelative := Specifier.not_isAbsolute hdot
  have hwritten : (Path.ofComponents source.parentComponents).components = dir.components := by
    rw [← hdir]
    exact Path.components_ofComponents (Path.written_components dir)
  have hjoin : ((Path.ofComponents source.parentComponents).join ⟨specifier⟩).components =
      (dir.join ⟨specifier⟩).components := by
    rw [Path.components_join hrelative, Path.components_join hrelative, hwritten]
  have hresolve : Specifier.resolve specifier source = (dir.join ⟨specifier⟩).normalize := by
    rw [Specifier.resolve, if_pos hdot, Path.normalize, hjoin]
    rfl
  obtain ⟨before, name, hnamed⟩ := Specifier.named_of_isStylesheet hsheet
  have hname : (dir.join ⟨specifier⟩).fileName? = some name := by
    rw [Path.fileName?_eq_some_iff, Path.components_join hrelative]
    split_ifs
    · rw [Path.components_eq, hnamed, ← List.append_assoc]
      exact List.getLast?_concat
    · rw [hnamed, ← List.append_assoc]
      exact List.getLast?_concat
  rw [hresolve]
  exact locate_normalize hfree hname h

/-- A project below the root, and styles beside it. -/
def besideProject : Disk where
  base := ["app"]
  entries := [(["app"], .directory), (["app", "src"], .directory), (["styles"], .directory),
    (["styles", "a.sss"], .file (.text ".a {}"))]
  base_names := by decide

theorem linkFree_besideProject : besideProject.LinkFree := by
  refine linkFree_of_entries fun entry hentry => ?_
  simp only [besideProject, List.mem_cons, List.not_mem_nil, or_false] at hentry
  rcases hentry with rfl | rfl | rfl | rfl <;> exact fun _ => Entry.noConfusion

theorem locate_resolve_above_root :
    besideProject.locate ((Path.mk "src").join ⟨"./../../../../styles/a.sss"⟩) =
        .ok ["styles", "a.sss"] ∧
      besideProject.locate (Specifier.resolve "./../../../../styles/a.sss" ⟨"src/App.tsx"⟩) =
        .ok ["styles", "a.sss"] := by
  have hjoin : besideProject.locate ((Path.mk "src").join ⟨"./../../../../styles/a.sss"⟩) =
      .ok ["styles", "a.sss"] := by decide +kernel
  exact ⟨hjoin, locate_resolve linkFree_besideProject (by decide +kernel) (by decide +kernel)
    (by decide +kernel) hjoin⟩

end ScopedStyles.Disk
