import ScopedStyles.Proofs.Walks
import Mathlib.Data.List.Basic

/-!
# Overwriting a file

A walk looks at directories and links and never into a file, so overwriting files moves no path:
disks of one layout lead every path to one place (`locateWith_congr`), and putting a file where one
stands keeps the layout (`sameLayout_put`). The place that a path leads to is made of names
(`isName_of_locate`), and places made of names are told apart by their paths (`pathOf_inj`).
-/

namespace ScopedStyles

namespace Disk

open ScopedStyles.Path (slash dot)

/-- Disks that differ in nothing but what their files hold. -/
structure SameLayout (d d' : Disk) : Prop where
  base : d.base = d'.base
  entry : ∀ q, d.entry? q = d'.entry? q
    ∨ ∃ a b, d.entry? q = some (.file a) ∧ d'.entry? q = some (.file b)

section Entries

theorem lookup_cons_eq (q p : Place) (e : Entry) (l : List (Place × Entry)) :
    ((p, e) :: l).lookup q = if q = p then some e else l.lookup q := by
  rw [List.lookup_cons]
  by_cases h : q = p
  · simp [h]
  · simp [h, beq_eq_false_iff_ne.2 h]

theorem lookup_setEntry (place : Place) (e : Entry) (q : Place) :
    ∀ l : List (Place × Entry),
      (setEntry place e l).lookup q = if q = place then some e else l.lookup q
  | [] => lookup_cons_eq q place e []
  | (p, old) :: rest => by
    have ih := lookup_setEntry place e q rest
    by_cases hp : p = place
    · subst hp
      rw [setEntry, if_pos rfl, lookup_cons_eq, lookup_cons_eq]
      split_ifs <;> rfl
    · rw [setEntry, if_neg hp, lookup_cons_eq, ih, lookup_cons_eq]
      by_cases hq : q = p
      · subst hq
        simp [hp]
      · simp [hq]

theorem entry?_put {d : Disk} {place : Place} (e : Entry) (h : place ≠ []) (q : Place) :
    entry? (d.put place e) q = if q = place then some e else d.entry? q := by
  unfold entry? put
  by_cases hq : q = []
  · subst hq
    simp [Ne.symm h]
  · simp only [hq, if_false, lookup_setEntry]

/-- The root is a directory, so a file stands elsewhere. -/
theorem ne_nil_of_entry?_file {d : Disk} {place : Place} {c : Contents}
    (h : d.entry? place = some (.file c)) : place ≠ [] := by
  rintro rfl
  simp [ entry?] at h

theorem readAt_congr {d d' : Disk} {place : Place} (h : d.entry? place = d'.entry? place) :
    d.readAt place = d'.readAt place := by
  simp only [readAt, h]

theorem entry?_of_readAt {d : Disk} {place : Place} {c : Contents}
    (h : d.readAt place = .ok c) : d.entry? place = some (.file c) := by
  unfold readAt at h
  split at h <;> simp_all

theorem setEntry_comm {p q : Place} (hpq : p ≠ q) (e f : Entry) :
    ∀ l : List (Place × Entry), (l.lookup p).isSome → (l.lookup q).isSome →
      setEntry p e (setEntry q f l) = setEntry q f (setEntry p e l)
  | [], hp, _ => by simp at hp
  | (r, old) :: rest, hp, hq => by
    by_cases h1 : r = p
    · subst h1
      simp [setEntry, hpq]
    · by_cases h2 : r = q
      · subst h2
        simp [setEntry, h1]
      · rw [lookup_cons_eq, if_neg (Ne.symm h1)] at hp
        rw [lookup_cons_eq, if_neg (Ne.symm h2)] at hq
        simp [setEntry, h1, h2, setEntry_comm hpq e f rest hp hq]

/-- Files that stand at different places are overwritten in either order. -/
theorem put_comm {d : Disk} {p q : Place} {a b : Contents} (hpq : p ≠ q) (e f : Entry)
    (hp : d.entry? p = some (.file a)) (hq : d.entry? q = some (.file b)) :
    (d.put p e).put q f = (d.put q f).put p e := by
  have hp' : (d.entries.lookup p).isSome := by
    simpa [ entry?, ne_nil_of_entry?_file hp] using congrArg Option.isSome hp
  have hq' : (d.entries.lookup q).isSome := by
    simpa [ entry?, ne_nil_of_entry?_file hq] using congrArg Option.isSome hq
  simp only [put, setEntry_comm hpq e f d.entries hp' hq']

end Entries

section Layouts

theorem SameLayout.refl (d : Disk) : SameLayout d d := ⟨rfl, fun _ => .inl rfl⟩

theorem SameLayout.trans {d d' d'' : Disk} (h : SameLayout d d') (h' : SameLayout d' d'') :
    SameLayout d d'' := by
  refine ⟨h.base.trans h'.base, fun q => ?_⟩
  rcases h.entry q with he | ⟨a, b, ha, hb⟩
  · rw [he]
    exact h'.entry q
  · rcases h'.entry q with he' | ⟨_, c, _, hc⟩
    · exact .inr ⟨a, b, ha, he' ▸ hb⟩
    · exact .inr ⟨a, c, ha, hc⟩

/-- A file may take the place of a file. -/
theorem sameLayout_put {d : Disk} {place : Place} {old : Contents} (new : Contents)
    (h : d.entry? place = some (.file old)) : SameLayout d (d.put place (.file new)) := by
  refine ⟨rfl, fun q => ?_⟩
  rw [entry?_put _ (ne_nil_of_entry?_file h)]
  split_ifs with hq
  · exact .inr ⟨old, new, hq ▸ h, rfl⟩
  · exact .inl rfl

theorem walk_congr {d d' : Disk} (h : SameLayout d d') (create : Bool)
    (jump : Place → List Bytes → Except Fault Place) :
    ∀ (here : Place) (ss : List Bytes), d.walk create jump here ss = d'.walk create jump here ss
  | _, [] => rfl
  | here, s :: rest => by
    have ih := fun place => walk_congr h create jump place rest
    simp only [walk, ih]
    rcases h.entry here with he | ⟨a, b, ha, hb⟩
    · rcases h.entry (here ++ [s]) with hn | ⟨a, b, ha, hb⟩
      · rw [he, hn]
      · rw [he, ha, hb]
    · rw [ha, hb]

theorem follow_congr {d d' : Disk} (h : SameLayout d d') (create : Bool) :
    ∀ k, d.follow create k = d'.follow create k
  | 0 => rfl
  | k + 1 => by
    funext here ss
    simp only [follow, follow_congr h create k]
    exact walk_congr h create _ here ss

/-- Disks of one layout lead a path to one place. -/
theorem locateWith_congr {d d' : Disk} (h : SameLayout d d') (create : Bool) (p : Path) :
    d.locateWith create p = d'.locateWith create p := by
  simp only [locateWith, follow_congr h create, h.base]

theorem locate_congr {d d' : Disk} (h : SameLayout d d') (p : Path) : d.locate p = d'.locate p :=
  locateWith_congr h false p

end Layouts

section Names

theorem no_slash_of_mem_splitSlash :
    ∀ bs : Bytes, ∀ piece ∈ Path.splitSlash bs, slash ∉ piece
  | [] => by simp [Path.splitSlash]
  | c :: cs => by
    have ih := no_slash_of_mem_splitSlash cs
    intro piece h
    simp only [Path.splitSlash] at h
    split_ifs at h with hc
    · rcases List.mem_cons.1 h with rfl | h
      · simp
      · exact ih piece h
    · split at h
      · simp only [List.mem_singleton] at h
        subst h
        simpa using Ne.symm hc
      · rename_i first rest hs
        rw [hs] at ih
        rcases List.mem_cons.1 h with rfl | h
        · simpa [Ne.symm hc] using ih first List.mem_cons_self
        · exact ih piece (List.mem_cons_of_mem _ h)

theorem mem_clean : ∀ (pieces : List Bytes) {s : Bytes}, s ∈ steps.clean pieces →
    s ≠ [] ∧ (s ∈ pieces ∨ s = [dot])
  | [], s, h => by simp [steps.clean] at h
  | piece :: rest, s, h => by
    unfold steps.clean at h
    split at h
    · simp at h
    · simp only [List.mem_singleton] at h
      exact ⟨by simp [h], .inr h⟩
    · rename_i heq
      obtain ⟨rfl, rfl⟩ := List.cons.inj heq
      split_ifs at h with he
      · obtain ⟨h1, h2⟩ := mem_clean _ h
        exact ⟨h1, h2.imp_left (List.mem_cons_of_mem _)⟩
      · rcases List.mem_cons.1 h with rfl | h
        · exact ⟨he, .inl List.mem_cons_self⟩
        · obtain ⟨h1, h2⟩ := mem_clean _ h
          exact ⟨h1, h2.imp_left (List.mem_cons_of_mem _)⟩

/-- A step is a name unless it asks for a move. -/
theorem isName_of_mem_steps {p : Path} {s : Bytes} (h : s ∈ steps p) (h1 : s ≠ [dot])
    (h2 : s ≠ [dot, dot]) : isName s := by
  have hs : s ≠ [] ∧ (s ∈ p.pieces ∨ s = [dot]) := by
    unfold steps at h
    split at h
    · simp at h
    · exact mem_clean _ h
  have hslash : slash ∉ s := no_slash_of_mem_splitSlash _ s (hs.2.resolve_right h1)
  simp [isName, hs.1, h1, h2, hslash]

theorem Leads.names {d : Disk} {create : Bool} {k : Nat} {here last : Place} {ss : List Bytes}
    (h : Leads d create k here ss last) (hhere : ∀ s ∈ here, isName s)
    (hss : ∀ s ∈ ss, s ≠ [dot] → s ≠ [dot, dot] → isName s) : ∀ s ∈ last, isName s := by
  have hnext : ∀ {here : Place} {s : Bytes} {rest : List Bytes}, (∀ t ∈ here, isName t) →
      (∀ t ∈ s :: rest, t ≠ [dot] → t ≠ [dot, dot] → isName t) → IsDescent s →
      ∀ t ∈ here ++ [s], isName t := by
    intro here s rest hhere hss hs t ht
    rcases List.mem_append.1 ht with ht | ht
    · exact hhere t ht
    · rw [List.mem_singleton.1 ht]
      exact hss s List.mem_cons_self hs.not_current hs.not_parent
  induction h with
  | arrived => exact hhere
  | stay _ _ ih => exact ih hhere fun t ht => hss t (List.mem_cons_of_mem _ ht)
  | up _ _ ih =>
    exact ih (fun t ht => hhere t (List.dropLast_subset _ ht))
      fun t ht => hss t (List.mem_cons_of_mem _ ht)
  | down _ hs _ _ _ ih => exact ih (hnext hhere hss hs) fun t ht => hss t (List.mem_cons_of_mem _ ht)
  | jump _ _ _ _ ih =>
    refine ih ?_ fun t ht => ?_
    · split_ifs
      · simp
      · exact hhere
    · rcases List.mem_append.1 ht with ht | ht
      · exact isName_of_mem_steps ht
      · exact hss t (List.mem_cons_of_mem _ ht)
  | missing _ _ hs _ => exact hnext hhere hss hs

/-- The place that a path leads to is made of names. -/
theorem isName_of_locate {d : Disk} {p : Path} {place : Place} (h : d.locate p = .ok place) :
    ∀ s ∈ place, isName s := by
  refine (locateWith_eq_ok_iff.1 h).2.names ?_ fun _ => isName_of_mem_steps
  split_ifs
  · simp
  · exact d.base_names

theorem splitOn_joinSlash {place : Place} (h : ∀ s ∈ place, isName s) (hne : place ≠ []) :
    (Path.joinSlash place).splitOn slash = place := by
  refine List.splitOn_intercalate slash (fun s hs => ?_) hne
  have hn := h s hs
  simp only [isName, Bool.and_eq_true, Bool.not_eq_true', List.contains_eq_mem,
    decide_eq_false_iff_not] at hn
  exact hn.2

theorem eq_nil_of_joinSlash {place : Place} (h : ∀ s ∈ place, isName s)
    (he : Path.joinSlash place = []) : place = [] := by
  by_contra hne
  have hc := splitOn_joinSlash h hne
  rw [he] at hc
  have hn := h [] (by rw [← hc]; exact List.mem_cons_self)
  simp [isName] at hn

/-- Places made of names are told apart by their paths. -/
theorem pathOf_inj {p q : Place} (hp : ∀ s ∈ p, isName s) (hq : ∀ s ∈ q, isName s)
    (h : pathOf p = pathOf q) : p = q := by
  have hs : Path.joinSlash p = Path.joinSlash q := List.cons_injective (congrArg Path.bytes h)
  rcases eq_or_ne p [] with rfl | hpn
  · exact (eq_nil_of_joinSlash hq (by rw [← hs]; rfl)).symm
  rcases eq_or_ne q [] with rfl | hqn
  · exact eq_nil_of_joinSlash hp (by rw [hs]; rfl)
  rw [← splitOn_joinSlash hp hpn, ← splitOn_joinSlash hq hqn, hs]

end Names

end Disk

end ScopedStyles
