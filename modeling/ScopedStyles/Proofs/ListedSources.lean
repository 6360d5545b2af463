import Mathlib.Data.List.Nodup
import Mathlib.Data.List.Pairwise
import ScopedStyles.SourceMap

/-!
# The sources that a map lists

Sources lie one behind the other and apart, so the start of a source belongs to it and to no other
(`Sources.Apart.find?_start`). Going through marks, a map lists each name once, with the text of a
source of that name if files of that path are asked for, and a source whose start is marked is
listed (`SourceMap.lists_ofMarks`).
-/

namespace ScopedStyles

namespace Sources

/-- The sources lie one behind the other, with room between them. -/
structure Apart (all : Sources) : Prop where
  apart : all.all.Pairwise fun s s' => s.stop < s'.start
  positive : ∀ s ∈ all.all, 0 < s.start

variable {all : Sources} {s s' : Source}

theorem start_le_stop (s : Source) : s.start ≤ s.stop := Nat.le_add_right _ _

theorem Apart.lt_next (h : all.Apart) (hs : s ∈ all.all) : s.stop < all.next := by
  rcases List.eq_nil_or_concat' all.all with hnil | ⟨before, last, hall⟩
  · exact absurd (hnil ▸ hs) List.not_mem_nil
  have hnext : all.next = last.stop + 1 := by
    rw [next, hall, List.getLast?_concat]
  have happart := h.apart
  rw [hall, List.pairwise_append] at happart
  rw [hall, List.mem_append, List.mem_singleton] at hs
  have := start_le_stop last
  rcases hs with hs | rfl
  · have := happart.2.2 s hs last List.mem_cons_self
    omega
  · omega

theorem next_pos (all : Sources) : 0 < all.next := by
  unfold next
  split <;> omega

theorem apart_add (h : all.Apart) (name text : String) : (all.add name text).2.Apart where
  apart := List.pairwise_append.2 ⟨h.apart, List.pairwise_singleton _ _, fun s hs s' hs' => by
    rw [List.mem_singleton.1 hs']
    exact h.lt_next hs⟩
  positive := List.forall_mem_append.2 ⟨h.positive, fun s hs => by
    rw [List.mem_singleton.1 hs]
    exact all.next_pos⟩

/-- The start of a source lies in no other one. -/
theorem Apart.eq_of_holds (h : all.Apart) (hs : s ∈ all.all) (hs' : s' ∈ all.all)
    (hholds : s'.holds s.start) : s' = s := by
  rw [Source.holds, Bool.and_eq_true, decide_eq_true_iff, decide_eq_true_iff] at hholds
  have : Std.Symm fun s s' : Source => s.stop < s'.start ∨ s'.stop < s.start := ⟨fun _ _ => Or.symm⟩
  have happart : all.all.Pairwise fun s s' => s.stop < s'.start ∨ s'.stop < s.start :=
    h.apart.imp .inl
  by_contra hne
  have := start_le_stop s
  rcases happart.forall hs' hs hne with hlt | hlt <;> omega

theorem Apart.find?_start (h : all.Apart) (hs : s ∈ all.all) : all.find? s.start = some s := by
  obtain ⟨before, after, hall⟩ := List.append_of_mem hs
  have happart := h.apart
  rw [hall, List.pairwise_append, List.pairwise_cons] at happart
  obtain ⟨-, ⟨hafter, -⟩, hbefore⟩ := happart
  have hb : before.filter (·.start ≤ s.start) = before := List.filter_eq_self.2 fun x hx => by
    have := hbefore x hx s List.mem_cons_self
    have := start_le_stop x
    exact decide_eq_true (by omega)
  have ha : after.filter (·.start ≤ s.start) = [] := List.filter_eq_nil_iff.2 fun x hx => by
    have := hafter x hx
    have := start_le_stop s
    simp only [decide_eq_true_eq]
    omega
  rw [find?, hall, List.filter_append, List.filter_cons_of_pos (by simp), hb, ha,
    List.getLast?_concat]

/-- Sources that lie apart span different places. -/
theorem Apart.nodup_spans (h : all.Apart) : (all.all.map Source.span).Nodup := by
  refine List.Pairwise.map _ (fun s s' hlt heq => ?_) h.apart
  have hlo : s.start = s'.start := congrArg Script.Span.lo heq
  have := start_le_stop s
  omega

end Sources

namespace SourceMap

def names (m : SourceMap) : List String := m.sources.map Prod.fst

/-- What stands in the map for a source. -/
def entry (inlined : List Path) (s : Source) : String × Option String :=
  (s.name, if namesOne inlined s.name then some s.text else none)

/-- A map lists sources, each name once. -/
structure Lists (all : Sources) (inlined : List Path) (m : SourceMap) : Prop where
  once : m.names.Nodup
  entries : ∀ e ∈ m.sources, ∃ s ∈ all.all, e = entry inlined s

variable {all : Sources} {inlined : List Path} {m : SourceMap} {s : Source}

theorem addSource_of_mem (h : s.name ∈ m.names) (inlined : List Path) :
    (m.addSource inlined s).2 = m := by
  unfold addSource
  split
  · rfl
  · rename_i hnone
    obtain ⟨e, he, hname⟩ := List.mem_map.1 h
    exact absurd hname (by simpa using List.findIdx?_eq_none_iff.1 hnone e he)

theorem addSource_of_notMem (h : s.name ∉ m.names) (inlined : List Path) :
    (m.addSource inlined s).2.sources = m.sources ++ [entry inlined s] := by
  unfold addSource
  split
  · rename_i i hsome
    obtain ⟨hi, hname, -⟩ := List.findIdx?_eq_some_iff_getElem.1 hsome
    exact absurd (List.mem_map.2 ⟨_, List.getElem_mem hi, of_decide_eq_true hname⟩) h
  · rfl

theorem lists_addSource (h : m.Lists all inlined) (hs : s ∈ all.all) :
    (m.addSource inlined s).2.Lists all inlined ∧ s.name ∈ (m.addSource inlined s).2.names ∧
      m.names ⊆ (m.addSource inlined s).2.names := by
  by_cases hname : s.name ∈ m.names
  · rw [addSource_of_mem hname]
    exact ⟨h, hname, List.Subset.refl _⟩
  · have hsources := addSource_of_notMem hname inlined
    have hnames : (m.addSource inlined s).2.names = m.names ++ [s.name] := by
      rw [names, hsources, List.map_append]
      rfl
    refine ⟨⟨?_, ?_⟩, ?_, ?_⟩
    · rw [hnames]
      exact List.concat_eq_append ▸ h.once.concat hname
    · rw [hsources]
      exact List.forall_mem_append.2 ⟨h.entries, by simpa using ⟨s, hs, rfl⟩⟩
    · simp [hnames]
    · simp [hnames]

section Marks

/-- What is known on the way through the marks: a map that lists sources, and among them the one at
hand. -/
structure Listing (all : Sources) (inlined : List Path)
    (state : Option (Source × Nat) × SourceMap) : Prop where
  lists : state.2.Lists all inlined
  current : ∀ s i, state.1 = some (s, i) → s ∈ all.all ∧ s.name ∈ state.2.names

/-- The source at hand for a position, and the map that lists it. -/
def turn (all : Sources) (inlined : List Path) (state : Option (Source × Nat) × SourceMap)
    (pos : Nat) : Option (Source × Nat) × SourceMap :=
  if state.1.any fun (s, _) => s.holds pos then state
  else match all.find? pos with
    | some s => (some (s, (state.2.addSource inlined s).1), (state.2.addSource inlined s).2)
    | none => (none, state.2)

/-- The segment of a mark is added if the source at hand has its place. -/
def withSegment (mark : Script.Mark) :
    Option (Source × Nat) × SourceMap → Option (Source × Nat) × SourceMap
  | (current, m) =>
    match current with
    | none => (none, m)
    | some (s, i) =>
      match s.place? mark.pos with
      | none => (current, m)
      | some (line, column) =>
        (current, { m with segments := ⟨mark.line, mark.column, i, line, column⟩ :: m.segments })

theorem addMark_eq (all : Sources) (inlined : List Path) (mark : Script.Mark) :
    ∀ state, addMark all inlined state mark = withSegment mark (turn all inlined state mark.pos)
  | (_, _) => rfl

theorem withSegment_eq (mark : Script.Mark) (state : Option (Source × Nat) × SourceMap) :
    ∃ segments, withSegment mark state = (state.1, { state.2 with segments := segments }) := by
  obtain ⟨_ | ⟨s, i⟩, m⟩ := state
  · exact ⟨_, rfl⟩
  · rcases hplace : s.place? mark.pos with _ | ⟨line, column⟩ <;>
      simp only [withSegment, hplace] <;> exact ⟨_, rfl⟩

variable {state : Option (Source × Nat) × SourceMap}

theorem listing_turn (h : Listing all inlined state) (pos : Nat) :
    Listing all inlined (turn all inlined state pos) ∧
      state.2.names ⊆ (turn all inlined state pos).2.names := by
  unfold turn
  split
  · exact ⟨h, List.Subset.refl _⟩
  · split
    · rename_i s hs
      have hmem : s ∈ all.all := (List.filter_sublist).subset (List.mem_of_getLast? hs)
      obtain ⟨hlists, hname, hsub⟩ := lists_addSource h.lists hmem
      refine ⟨⟨hlists, fun s' i h' => ?_⟩, hsub⟩
      obtain ⟨rfl, -⟩ := Prod.mk.inj (Option.some.inj h')
      exact ⟨hmem, hname⟩
    · exact ⟨⟨h.lists, fun s i h' => by simp at h'⟩, List.Subset.refl _⟩

theorem mem_names_turn (h : Listing all inlined state) (hall : all.Apart) (hs : s ∈ all.all) :
    s.name ∈ (turn all inlined state s.start).2.names := by
  unfold turn
  split
  · rename_i hholds
    obtain ⟨⟨s', i⟩, hcurrent, hholds⟩ := (Option.any_eq_true _ _).1 hholds
    obtain ⟨hs', hname⟩ := h.current s' i hcurrent
    rwa [hall.eq_of_holds hs hs' hholds] at hname
  · rw [hall.find?_start hs]
    exact (lists_addSource h.lists hs).2.1

theorem listing_addMark (h : Listing all inlined state) (mark : Script.Mark) :
    Listing all inlined (addMark all inlined state mark) ∧
      state.2.names ⊆ (addMark all inlined state mark).2.names := by
  obtain ⟨hlisting, hsub⟩ := listing_turn h mark.pos
  obtain ⟨segments, heq⟩ := withSegment_eq mark (turn all inlined state mark.pos)
  rw [addMark_eq, heq]
  exact ⟨⟨⟨hlisting.lists.once, hlisting.lists.entries⟩, hlisting.current⟩, hsub⟩

/-- A source is listed from the mark of its start on. -/
theorem mem_names_addMark (h : Listing all inlined state) (hall : all.Apart) (hs : s ∈ all.all)
    {mark : Script.Mark} (hpos : mark.pos = s.start) :
    s.name ∈ (addMark all inlined state mark).2.names := by
  obtain ⟨segments, heq⟩ := withSegment_eq mark (turn all inlined state mark.pos)
  rw [addMark_eq, heq, hpos]
  exact mem_names_turn h hall hs

theorem listing_foldl : ∀ (marks : List Script.Mark) {state : Option (Source × Nat) × SourceMap},
    Listing all inlined state → Listing all inlined (marks.foldl (addMark all inlined) state) ∧
      state.2.names ⊆ (marks.foldl (addMark all inlined) state).2.names ∧
      (all.Apart → ∀ s ∈ all.all, (∃ mark ∈ marks, mark.pos = s.start) →
        s.name ∈ (marks.foldl (addMark all inlined) state).2.names)
  | [], _, h => ⟨h, List.Subset.refl _, fun _ s _ ⟨_, hmark, _⟩ => absurd hmark List.not_mem_nil⟩
  | mark :: marks, state, h => by
    obtain ⟨hstep, hsub⟩ := listing_addMark h mark
    obtain ⟨hrest, hsub', hnames⟩ := listing_foldl marks hstep
    refine ⟨hrest, List.Subset.trans hsub hsub', fun hall s hs ⟨mark', hmark', hpos⟩ => ?_⟩
    rcases List.mem_cons.1 hmark' with rfl | hmark'
    · exact hsub' (mem_names_addMark h hall hs hpos)
    · exact hnames hall s hs ⟨mark', hmark', hpos⟩

/-- The map of some marks lists sources, each name once, and among them those whose start is
marked. -/
theorem lists_ofMarks (all : Sources) (inlined : List Path) (marks : List Script.Mark) :
    (ofMarks all inlined marks).Lists all inlined ∧
      (all.Apart → ∀ s ∈ all.all, (∃ mark ∈ marks, mark.pos = s.start) →
        s.name ∈ (ofMarks all inlined marks).names) := by
  have hstart : Listing all inlined (none, empty) :=
    ⟨⟨List.nodup_nil, fun _ h => absurd h List.not_mem_nil⟩, fun _ _ h => by simp at h⟩
  obtain ⟨hlisting, -, hnames⟩ := listing_foldl marks hstart
  exact ⟨⟨hlisting.lists.once, hlisting.lists.entries⟩, hnames⟩

end Marks

end SourceMap

end ScopedStyles
