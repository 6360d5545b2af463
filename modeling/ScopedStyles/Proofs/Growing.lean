import ScopedStyles.Proofs.Overwriting
import ScopedStyles.Proofs.Walks

/-!
# Disks that grow

Writing a file and making a directory take nothing away (`Grows`), so a path that leads somewhere
leads there from then on (`Grows.locate`). A file is written where its path leads to afterwards, and
nothing else changes (`write_eq_ok`); a directory is made where nothing was
(`extended_makeDirectories`).

No link is overwritten as long as none stands at the base or above it (`Clear`): walks follow the
links that they meet, so they stand on none (`Leads.clear`).
-/

namespace ScopedStyles

namespace Disk

variable {d d' d'' : Disk}

section Entries

/-- What may become of an entry, or of a place without one, when nothing is taken away. -/
inductive Becomes : Option Entry → Option Entry → Prop
  | same (e : Option Entry) : Becomes e e
  | made : Becomes none (some .directory)
  | written (c : Contents) : Becomes none (some (.file c))
  | overwritten (old new : Contents) : Becomes (some (.file old)) (some (.file new))

theorem Becomes.trans {e e' e'' : Option Entry} (h : Becomes e e') (h' : Becomes e' e'') :
    Becomes e e'' := by
  cases h <;> cases h' <;> constructor

/-- A disk came from another one by writing files and making directories. -/
structure Grows (d d' : Disk) : Prop where
  base : d'.base = d.base
  entry : ∀ q, Becomes (d.entry? q) (d'.entry? q)

theorem Grows.refl (d : Disk) : Grows d d := ⟨rfl, fun _ => .same _⟩

theorem Grows.trans (h : Grows d d') (h' : Grows d' d'') : Grows d d'' :=
  ⟨h'.base.trans h.base, fun q => (h.entry q).trans (h'.entry q)⟩

theorem SameLayout.grows (h : SameLayout d d') : Grows d d' := by
  refine ⟨h.base.symm, fun q => ?_⟩
  rcases h.entry q with he | ⟨a, b, ha, hb⟩
  · rw [he]
    exact .same _
  · rw [ha, hb]
    exact .overwritten a b

theorem grows_put {place : Place} {e : Entry} (hp : place ≠ [])
    (he : Becomes (d.entry? place) (some e)) : Grows d (d.put place e) := by
  refine ⟨rfl, fun q => ?_⟩
  rw [entry?_put e hp]
  by_cases hq : q = place
  · rw [if_pos hq, hq]
    exact he
  · rw [if_neg hq]
    exact .same _

/-- Directories stay, and so do links. -/
theorem Grows.directory (h : Grows d d') {q : Place} (hq : d.entry? q = some .directory) :
    d'.entry? q = some .directory := by
  have he := h.entry q
  rw [hq] at he
  generalize hq' : d'.entry? q = e at he
  cases he
  rfl

theorem Grows.link (h : Grows d d') {q : Place} {target : Path} :
    d'.entry? q = some (.link target) ↔ d.entry? q = some (.link target) := by
  have he := h.entry q
  generalize hq : d.entry? q = e at he
  generalize hq' : d'.entry? q = e' at he
  cases he <;> simp

theorem Grows.exists_entry (h : Grows d d') {q : Place} {e : Entry} (hq : d.entry? q = some e) :
    ∃ e', d'.entry? q = some e' := by
  have he := h.entry q
  rw [hq] at he
  generalize hq' : d'.entry? q = e' at he
  cases he <;> simp

end Entries

section Leading

theorem Leads.grows (h : Grows d d') {create : Bool} {k : Nat} {here last : Place}
    {ss : List Bytes} (hl : Leads d create k here ss last) : Leads d' create k here ss last := by
  induction hl with
  | arrived => exact .arrived
  | stay hhere _ ih => exact .stay (h.directory hhere) ih
  | up hhere _ ih => exact .up (h.directory hhere) ih
  | down hhere hs hnext hlink _ ih =>
    obtain ⟨e', he'⟩ := h.exists_entry hnext
    refine .down (h.directory hhere) hs he' (fun target ht => ?_) ih
    rw [ht, h.link, hnext] at he'
    exact hlink target (Option.some.inj he')
  | jump hhere hs hnext _ ih => exact .jump (h.directory hhere) hs (h.link.2 hnext) ih
  | @missing _ here s hc hhere hs hnext =>
    rcases hnext' : d'.entry? (here ++ [s]) with _ | e
    · exact .missing hc (h.directory hhere) hs hnext'
    · refine .down (h.directory hhere) hs hnext' (fun target ht => ?_) .arrived
      rw [ht, h.link, hnext] at hnext'
      simp at hnext'

/-- A path that leads to a place leads there from then on. -/
theorem Grows.locateWith (h : Grows d d') {create : Bool} {p : Path} {place : Place}
    (hl : d.locateWith create p = .ok place) : d'.locateWith create p = .ok place := by
  obtain ⟨hp, hl⟩ := locateWith_eq_ok_iff.1 hl
  exact locateWith_eq_ok_iff.2 ⟨hp, h.base ▸ hl.grows h⟩

theorem Grows.locate (h : Grows d d') {p : Path} {place : Place} (hl : d.locate p = .ok place) :
    d'.locate p = .ok place :=
  h.locateWith hl

theorem Leads.of_entry {create : Bool} {k : Nat} {here last : Place} {ss : List Bytes}
    (hl : Leads d create k here ss last) (he : d.entry? last ≠ none) :
    Leads d false k here ss last := by
  induction hl with
  | arrived => exact .arrived
  | stay hhere _ ih => exact .stay hhere (ih he)
  | up hhere _ ih => exact .up hhere (ih he)
  | down hhere hs hnext hlink _ ih => exact .down hhere hs hnext hlink (ih he)
  | jump hhere hs hnext _ ih => exact .jump hhere hs hnext (ih he)
  | missing _ _ _ hnext => exact absurd hnext he

/-- Where something is, nothing had to be missing on the way. -/
theorem locate_of_locateWith {create : Bool} {p : Path} {place : Place}
    (hl : d.locateWith create p = .ok place) (he : d.entry? place ≠ none) :
    d.locate p = .ok place := by
  obtain ⟨hp, hl⟩ := locateWith_eq_ok_iff.1 hl
  exact locateWith_eq_ok_iff.2 ⟨hp, hl.of_entry he⟩

end Leading

section Links

/-- No link stands at a place or above it. -/
def Clear (d : Disk) (place : Place) : Prop :=
  ∀ q, q <+: place → ∀ target, d.entry? q ≠ some (.link target)

theorem clear_nil (d : Disk) : d.Clear [] := by
  intro q hq target
  obtain rfl : q = [] := List.prefix_nil.1 hq
  simp [ entry?]

theorem Clear.dropLast {place : Place} (h : d.Clear place) : d.Clear place.dropLast :=
  fun q hq => h q (hq.trans (List.dropLast_prefix place))

theorem Clear.concat {place : Place} {s : Bytes} (h : d.Clear place)
    (hs : ∀ target, d.entry? (place ++ [s]) ≠ some (.link target)) : d.Clear (place ++ [s]) := by
  intro q hq
  rcases List.prefix_concat_iff.1 hq with rfl | hq
  · exact hs
  · exact h q hq

theorem Grows.clear (h : Grows d d') {place : Place} (hc : d.Clear place) : d'.Clear place :=
  fun q hq target ht => hc q hq target (h.link.1 ht)

theorem Grows.clear_base (h : Grows d d') (hb : d.Clear d.base) : d'.Clear d'.base := by
  rw [h.base]
  exact h.clear hb

theorem Leads.clear {create : Bool} {k : Nat} {here last : Place} {ss : List Bytes}
    (hl : Leads d create k here ss last) (hc : d.Clear here) : d.Clear last := by
  induction hl with
  | arrived => exact hc
  | stay _ _ ih => exact ih hc
  | up _ _ ih => exact ih hc.dropLast
  | down _ _ hnext hlink _ ih =>
    exact ih (hc.concat fun target ht => hlink target (Option.some.inj (hnext.symm.trans ht)))
  | jump _ _ _ _ ih =>
    refine ih ?_
    split_ifs
    · exact clear_nil d
    · exact hc
  | missing _ _ _ hnext => exact hc.concat fun target ht => by simp [hnext] at ht

/-- From a clear base no path leads to a link. -/
theorem clear_of_locateWith (hb : d.Clear d.base) {create : Bool} {p : Path} {place : Place}
    (hl : d.locateWith create p = .ok place) : d.Clear place := by
  refine (locateWith_eq_ok_iff.1 hl).2.clear ?_
  split_ifs
  · exact clear_nil d
  · exact hb

end Links

section Contents

theorem readText_eq_ok_iff {p : Path} {text : String} :
    d.readText p = .ok text ↔
      ∃ place, d.locate p = .ok place ∧ d.entry? place = some (.file (.text text)) := by
  unfold readText read
  rcases d.locate p with fault | place
  · simp [bind, Except.bind]
  · simp only [bind, Except.bind, Except.ok.injEq, exists_eq_left']
    unfold readAt
    rcases d.entry? place with _ | ⟨text' | bytes⟩ | _ | target <;> simp [asText]

/-- A file is written where its path leads to from then on, and no other place changes. -/
structure Written (d d' : Disk) (p : Path) (place : Place) (c : Contents) : Prop where
  grows : Grows d d'
  leads : d'.locate p = .ok place
  entry : d'.entry? place = some (.file c)
  others : ∀ q, q ≠ place → d'.entry? q = d.entry? q

theorem Written.readText {p : Path} {place : Place} {text : String}
    (h : Written d d' p place (.text text)) : d'.readText p = .ok text :=
  readText_eq_ok_iff.2 ⟨place, h.leads, h.entry⟩

theorem write_eq_ok (hb : d.Clear d.base) {p : Path} {c : Contents}
    (h : d.write p c = .ok d') : ∃ place, Written d d' p place c := by
  unfold write at h
  rcases hl : d.locateWith true p with fault | place
  · simp [hl, bind, Except.bind] at h
  simp only [hl, bind, Except.bind] at h
  have hfile : Becomes (d.entry? place) (some (.file c)) ∧ d' = d.put place (.file c) := by
    split at h
    · simp at h
    · rename_i hdir
      refine ⟨?_, (Except.ok.inj h).symm⟩
      rcases he : d.entry? place with _ | old | _ | target
      · exact .written c
      · exact .overwritten old c
      · exact absurd he hdir
      · exact absurd he (clear_of_locateWith hb hl place (List.prefix_refl _) target)
  obtain ⟨hbec, rfl⟩ := hfile
  have hne : place ≠ [] := by
    rintro rfl
    simp only [ entry?, if_pos] at hbec
    cases hbec
  have hentry := entry?_put (d := d) (.file c) hne
  have hg := grows_put hne hbec
  have he := (hentry place).trans (if_pos rfl)
  refine ⟨place, hg, locate_of_locateWith (hg.locateWith hl) (by simp [he]), he, fun q hq => ?_⟩
  rw [hentry, if_neg hq]

end Contents

section Directories

/-- A disk came from another one by making directories where nothing was. -/
structure Extended (d d' : Disk) : Prop where
  base : d'.base = d.base
  entry : ∀ q, d'.entry? q = d.entry? q ∨ d.entry? q = none ∧ d'.entry? q = some .directory

theorem Extended.refl (d : Disk) : Extended d d := ⟨rfl, fun _ => .inl rfl⟩

theorem Extended.trans (h : Extended d d') (h' : Extended d' d'') : Extended d d'' := by
  refine ⟨h'.base.trans h.base, fun q => ?_⟩
  rcases h.entry q with he | ⟨he, hd⟩
  · rw [← he]
    exact h'.entry q
  · refine .inr ⟨he, ?_⟩
    rcases h'.entry q with he' | ⟨he', -⟩
    · rw [he', hd]
    · simp [hd] at he'

theorem Extended.grows (h : Extended d d') : Grows d d' := by
  refine ⟨h.base, fun q => ?_⟩
  rcases h.entry q with he | ⟨he, hd⟩
  · rw [he]
    exact .same _
  · rw [he, hd]
    exact .made

theorem extended_put {above : Place} {s : Bytes} (h : d.entry? (above ++ [s]) = none) :
    Extended d (d.put (above ++ [s]) .directory) := by
  refine ⟨rfl, fun q => ?_⟩
  rw [entry?_put .directory (by simp)]
  by_cases hq : q = above ++ [s]
  · exact .inr ⟨hq ▸ h, if_pos hq⟩
  · exact .inl (if_neg hq)

theorem extended_makeDirectory {done : List Path.Component} {c : Path.Component}
    (h : d.makeDirectory done c = .ok d') : Extended d d' := by
  unfold makeDirectory at h
  split at h
  · obtain rfl := Except.ok.inj h
    exact .refl d
  -- the directory is made below the base or below those that are there already
  extract_lets put at h
  have hput : ∀ above, put above = .ok d' → Extended d d' := by
    intro above hp
    simp only [put] at hp
    split_ifs at hp
    split at hp
    · rename_i hnone
      exact Except.ok.inj hp ▸ extended_put hnone
    · simp at hp
  by_cases hd : done.isEmpty
  · rw [if_pos hd] at h
    exact hput d.base h
  · rw [if_neg hd] at h
    rcases ha : d.locate (Path.ofComponents done) with fault | above
    · simp [ha, bind, Except.bind] at h
    · rw [ha] at h
      exact hput above h

theorem extended_makeEach : ∀ {rest done : List Path.Component} {d : Disk},
    d.makeEach done rest = .ok d' → Extended d d'
  | [], _, d, h => by
    obtain rfl : d = d' := by simpa [makeEach] using h
    exact .refl d
  | c :: rest, done, d, h => by
    unfold makeEach at h
    split at h
    · rename_i hd
      exact (extended_makeDirectory hd).trans (extended_makeEach h)
    · simp at h
    · simp at h

theorem extended_makeDirectories {p : Path} (h : d.makeDirectories p = .ok d') :
    Extended d d' := by
  unfold makeDirectories at h
  split_ifs at h
  exact extended_makeEach h

end Directories

end Disk

end ScopedStyles
