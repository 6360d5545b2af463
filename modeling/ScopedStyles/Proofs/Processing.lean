import ScopedStyles.Build
import ScopedStyles.Proofs.Overwriting
import Mathlib.Data.List.Perm.Basic

/-!
# Processing files

Processing a file does one of two things to a build, events apart: nothing, or it commits an
output, that is, it overwrites the file and records the output under the file's place
(`same_processFile`). A commit happens where the path leads to a text that is not recorded yet and
that the stages accept (`written?_eq_some`), and it changes no answer: the same file read again
would give the output that is now recorded, and no other file is touched (`outcome_processFile`).
So commits can be made in any order (`alike_processAll`).
-/

namespace ScopedStyles

namespace Processor

/-- The places of the records. -/
def places (p : Processor) : List Place := p.records.map Prod.fst

theorem record?_append (p : Processor) (place : Place) (o : Output) (q : Place) :
    ({ p with records := p.records ++ [(place, o)] } : Processor).record? q =
      (p.record? q).or (if q = place then some o else none) := by
  simp only [record?, List.lookup_append]
  congr 1
  rw [List.lookup_cons]
  by_cases h : q = place
  · simp [h]
  · simp [h, beq_eq_false_iff_ne.2 h]

theorem record?_eq_none_iff {p : Processor} {place : Place} :
    p.record? place = none ↔ place ∉ p.places := by
  simp only [record?, places, List.lookup_eq_none_iff, List.mem_map, not_exists, not_and]
  refine ⟨fun h r hr he => ?_, fun h r hr => ?_⟩
  · simpa [he] using h r hr
  · simpa using fun he => h r hr he.symm

theorem mem_records_of_record? {p : Processor} {place : Place} {o : Output}
    (h : p.record? place = some o) : (place, o) ∈ p.records := by
  obtain ⟨l₁, l₂, hl, -⟩ := List.lookup_eq_some_iff.1 h
  simp [hl]

end Processor

namespace Build

/-- What processing a file answers. -/
def outcome (b : Build) (path : Path) : Except Failure Output := (b.processFile path).1

/-- What processing the file at a place answers. -/
def answerAt (b : Build) (place : Place) : Except Failure Output :=
  match b.processor.record? place with
  | some o => .ok o
  | none => (b.processNew place).1

/-- The build with an output written over a file and recorded. -/
def commit (b : Build) (place : Place) (o : Output) : Build :=
  { b with
    disk := b.disk.put place (.file (.text o.css))
    processor := { b.processor with records := b.processor.records ++ [(place, o)] } }

/-- The place that processing a file writes, with what it writes there. -/
def written? (b : Build) (path : Path) : Option (Place × Output) :=
  match b.disk.locate path, b.outcome path with
  | .ok place, .ok o => if (b.processor.record? place).isSome then none else some (place, o)
  | _, _ => none

/-- The build with what is written committed. -/
def absorb (b : Build) : Option (Place × Output) → Build
  | some (place, o) => b.commit place o
  | none => b

/-- Builds that differ in no more than the events told. -/
structure Same (b b' : Build) : Prop where
  disk : b.disk = b'.disk
  processor : b.processor = b'.processor

theorem Same.refl (b : Build) : Same b b := ⟨rfl, rfl⟩

theorem Same.symm {b b' : Build} (h : Same b b') : Same b' b := ⟨h.disk.symm, h.processor.symm⟩

theorem Same.trans {b b' b'' : Build} (h : Same b b') (h' : Same b' b'') : Same b b'' :=
  ⟨h.disk.trans h'.disk, h.processor.trans h'.processor⟩

theorem same_tell (b : Build) (e : Event) : Same (b.tell e) b := ⟨rfl, rfl⟩

section Answers

theorem processNew_fst (b : Build) (place : Place) : (b.processNew place).1 =
    match b.disk.readAt place >>= Disk.asText with
    | .error fault => .error (.unreadable (Disk.pathOf place) fault)
    | .ok text => b.processor.stages.process text (Disk.pathOf place) := by
  unfold processNew
  simp only [tell]
  rcases b.disk.readAt place >>= Disk.asText with fault | text
  · rfl
  · rcases h : b.processor.stages.process text (Disk.pathOf place) with e | o <;> simp only [h]

theorem outcome_eq (b : Build) (path : Path) : b.outcome path =
    match b.disk.locate path with
    | .error fault => .error (.unresolved path fault)
    | .ok place => b.answerAt place := by
  unfold outcome processFile answerAt
  rcases b.disk.locate path with fault | place
  · rfl
  · rcases h : b.processor.record? place with _ | o <;> simp only [h]

theorem outcome_of_locate {b : Build} {path : Path} {place : Place}
    (h : b.disk.locate path = .ok place) : b.outcome path = b.answerAt place := by
  rw [outcome_eq, h]

theorem answerAt_of_record? {b : Build} {place : Place} {o : Output}
    (h : b.processor.record? place = some o) : b.answerAt place = .ok o := by
  rw [answerAt, h]

theorem answerAt_eq_ok {b : Build} {place : Place} {o : Output} (h : b.answerAt place = .ok o) :
    b.processor.record? place = some o ∨ b.processor.record? place = none ∧
      ∃ text, b.disk.entry? place = some (.file (.text text)) ∧
        b.processor.stages.process text (Disk.pathOf place) = .ok o := by
  unfold answerAt at h
  split at h
  · rename_i o' hr
    exact .inl (by rw [hr, Except.ok.inj h])
  · rename_i hr
    refine .inr ⟨hr, ?_⟩
    rw [processNew_fst] at h
    rcases hc : b.disk.readAt place with f | c <;> rw [hc] at h
    · simp [bind, Except.bind] at h
    · rcases c with text | bytes
      · exact ⟨text, Disk.entry?_of_readAt hc, h⟩
      · simp [bind, Except.bind, Disk.asText] at h

/-- What is answered depends on the record, the file and the stages. -/
theorem answerAt_congr {b b' : Build} {place : Place}
    (hr : b.processor.record? place = b'.processor.record? place)
    (he : b.disk.entry? place = b'.disk.entry? place)
    (hs : b.processor.stages = b'.processor.stages) : b.answerAt place = b'.answerAt place := by
  simp only [answerAt, processNew_fst, hr, Disk.readAt_congr he, hs]

end Answers

section Steps

theorem written?_eq_some {b : Build} {path : Path} {place : Place} {o : Output}
    (h : b.written? path = some (place, o)) :
    b.disk.locate path = .ok place ∧ b.processor.record? place = none ∧ b.answerAt place = .ok o ∧
      ∃ text, b.disk.entry? place = some (.file (.text text)) ∧
        b.processor.stages.process text (Disk.pathOf place) = .ok o := by
  unfold written? at h
  split at h
  · rename_i k o' hl ho
    split_ifs at h with hr
    simp only [Option.some.injEq, Prod.mk.injEq] at h
    obtain ⟨rfl, rfl⟩ := h
    have hn : b.processor.record? k = none := by simpa using hr
    rw [outcome_of_locate hl] at ho
    rcases answerAt_eq_ok ho with hs | ⟨-, ht⟩
    · simp [hn] at hs
    · exact ⟨hl, hn, ho, ht⟩
  · simp at h

/-- A file that is recorded is not written again; whatever leads to it is answered from the
record. -/
theorem processFile_of_record? {b : Build} {path : Path} {place : Place} {o : Output}
    (hl : b.disk.locate path = .ok place) (hr : b.processor.record? place = some o) :
    b.processFile path = (.ok o, b.tell (.alreadyProcessed (Disk.pathOf place))) := by
  simp only [processFile, hl, hr]

/-- Events apart, processing a file commits what it writes. -/
theorem same_processFile (b : Build) (path : Path) :
    Same (b.processFile path).2 (b.absorb (b.written? path)) := by
  unfold written? outcome processFile
  rcases b.disk.locate path with fault | place
  · exact .refl b
  · rcases hr : b.processor.record? place with _ | o
    · simp only [hr]
      unfold processNew
      simp only [tell]
      rcases b.disk.readAt place >>= Disk.asText with fault | text
      · exact ⟨rfl, rfl⟩
      · rcases ho : b.processor.stages.process text (Disk.pathOf place) with e | o
        · simp only [ho]
          exact ⟨rfl, rfl⟩
        · simp only [ho, hr, Option.isSome_none, Bool.false_eq_true, if_false]
          exact ⟨rfl, rfl⟩
    · simp only [hr]
      exact ⟨rfl, rfl⟩

end Steps

section Commits

/-- What comes after a build answers as the build does. -/
structure Steady (b b' : Build) : Prop where
  stages : b.processor.stages = b'.processor.stages
  layout : b.disk.SameLayout b'.disk
  answer : ∀ place, b'.answerAt place = b.answerAt place

theorem Steady.trans {b b' b'' : Build} (h : Steady b b') (h' : Steady b' b'') : Steady b b'' :=
  ⟨h.stages.trans h'.stages, h.layout.trans h'.layout,
    fun place => (h'.answer place).trans (h.answer place)⟩

theorem Same.steady {b b' : Build} (h : Same b b') : Steady b b' where
  stages := by rw [h.processor]
  layout := by rw [h.disk]; exact .refl _
  answer := fun _ => answerAt_congr (by rw [h.processor]) (by rw [h.disk]) (by rw [h.processor])

theorem Steady.outcome {b b' : Build} (h : Steady b b') (path : Path) :
    b'.outcome path = b.outcome path := by
  simp only [outcome_eq, ← Disk.locate_congr h.layout, h.answer]

theorem record?_commit (b : Build) (place : Place) (o : Output) (q : Place) :
    (b.commit place o).processor.record? q =
      (b.processor.record? q).or (if q = place then some o else none) :=
  b.processor.record?_append place o q

theorem entry?_commit {b : Build} {place : Place} (o : Output) (h : place ≠ []) (q : Place) :
    Disk.entry? (b.commit place o).disk q =
      if q = place then some (.file (.text o.css)) else b.disk.entry? q :=
  Disk.entry?_put _ h q

theorem steady_commit {b : Build} {path : Path} {place : Place} {o : Output}
    (h : b.written? path = some (place, o)) : Steady b (b.commit place o) := by
  obtain ⟨-, hr, ha, text, he, -⟩ := written?_eq_some h
  refine ⟨rfl, Disk.sameLayout_put _ he, fun q => ?_⟩
  by_cases hq : q = place
  · subst hq
    rw [ha]
    exact answerAt_of_record? (by simp [record?_commit, hr])
  · refine answerAt_congr ?_ ?_ rfl
    · simp [record?_commit, hq]
    · rw [entry?_commit _ (Disk.ne_nil_of_entry?_file he), if_neg hq]

theorem steady_absorb (b : Build) (path : Path) : Steady b (b.absorb (b.written? path)) := by
  rcases hw : b.written? path with _ | ⟨place, o⟩
  · exact (Same.refl b).steady
  · exact steady_commit hw

theorem steady_processFile (b : Build) (path : Path) : Steady b (b.processFile path).2 :=
  (steady_absorb b path).trans (same_processFile b path).symm.steady

/-- Processing one file changes no answer, that of the same file read again included. -/
theorem outcome_processFile (b : Build) (path q : Path) :
    (b.processFile path).2.outcome q = b.outcome q :=
  (steady_processFile b path).outcome q

end Commits

section Commuting

/-- Builds that differ in no more than the events told and the order of the records. -/
structure Alike (b b' : Build) : Prop where
  disk : b.disk = b'.disk
  stages : b.processor.stages = b'.processor.stages
  records : b.processor.records.Perm b'.processor.records
  record : ∀ place, b.processor.record? place = b'.processor.record? place

theorem Same.alike {b b' : Build} (h : Same b b') : Alike b b' :=
  ⟨h.disk, by rw [h.processor], by rw [h.processor], by simp [h.processor]⟩

theorem Alike.symm {b b' : Build} (h : Alike b b') : Alike b' b :=
  ⟨h.disk.symm, h.stages.symm, h.records.symm, fun place => (h.record place).symm⟩

theorem Alike.trans {b b' b'' : Build} (h : Alike b b') (h' : Alike b' b'') : Alike b b'' :=
  ⟨h.disk.trans h'.disk, h.stages.trans h'.stages, h.records.trans h'.records,
    fun place => (h.record place).trans (h'.record place)⟩

theorem Alike.answerAt {b b' : Build} (h : Alike b b') (place : Place) :
    b.answerAt place = b'.answerAt place :=
  answerAt_congr (h.record place) (by rw [h.disk]) h.stages

theorem Alike.outcome {b b' : Build} (h : Alike b b') (path : Path) :
    b.outcome path = b'.outcome path := by
  simp only [outcome_eq, h.disk, h.answerAt]

theorem Alike.written? {b b' : Build} (h : Alike b b') (path : Path) :
    b.written? path = b'.written? path := by
  simp only [Build.written?, h.disk, h.outcome, h.record]

theorem Alike.absorb {b b' : Build} (h : Alike b b') (w : Option (Place × Output)) :
    Alike (b.absorb w) (b'.absorb w) := by
  rcases w with _ | ⟨place, o⟩
  · exact h
  · exact ⟨congrArg (·.put place (.file (.text o.css))) h.disk, h.stages, h.records.append_right _,
      fun q => by simp only [Build.absorb, record?_commit, h.record]⟩

theorem alike_processFile {b b' : Build} (h : Alike b b') (path : Path) :
    Alike (b.processFile path).2 (b'.processFile path).2 := by
  refine (same_processFile b path).alike.trans (.trans ?_ (same_processFile b' path).symm.alike)
  rw [h.written? path]
  exact h.absorb _

/-- A place is written once. -/
theorem written?_commit {b : Build} {path : Path} {place : Place} {o : Output}
    (h : b.written? path = some (place, o)) (q : Path) :
    (b.commit place o).written? q = (b.written? q).filter fun w => w.1 ≠ place := by
  have hs := steady_commit h
  simp only [Build.written?, ← Disk.locate_congr hs.layout, hs.outcome, record?_commit]
  rcases b.disk.locate q with fault | k
  · rfl
  rcases b.outcome q with e | o'
  · rfl
  simp only
  rcases b.processor.record? k with _ | o''
  · by_cases hk : k = place <;> simp [hk, Option.filter_some]
  · simp

theorem alike_commit_comm {b : Build} {p q : Path} {k l : Place} {o o' : Output}
    (hp : b.written? p = some (k, o)) (hq : b.written? q = some (l, o')) (hkl : k ≠ l) :
    Alike ((b.commit k o).commit l o') ((b.commit l o').commit k o) := by
  obtain ⟨-, hk, -, _, hke, -⟩ := written?_eq_some hp
  obtain ⟨-, hl, -, _, hle, -⟩ := written?_eq_some hq
  refine ⟨Disk.put_comm hkl _ _ hke hle, rfl, ?_, fun r => ?_⟩
  · simp only [commit, List.append_assoc]
    exact List.Perm.append_left _ (List.Perm.swap _ _ _)
  · simp only [record?_commit]
    by_cases h1 : r = k
    · subst h1
      simp [hk, hkl]
    · simp [h1]

/-- Two files are processed in either order. -/
theorem alike_processFile_comm (b : Build) (p q : Path) :
    Alike ((b.processFile p).2.processFile q).2 ((b.processFile q).2.processFile p).2 := by
  have step : ∀ p q : Path, Alike ((b.processFile p).2.processFile q).2
      ((b.absorb (b.written? p)).absorb ((b.absorb (b.written? p)).written? q)) := fun p q =>
    (alike_processFile (same_processFile b p).alike q).trans (same_processFile _ q).alike
  refine (step p q).trans (.trans ?_ (step q p).symm)
  rcases hp : b.written? p with _ | ⟨k, o⟩ <;> rcases hq : b.written? q with _ | ⟨l, o'⟩
  · simp only [absorb, hp, hq]
    exact (Same.refl b).alike
  · simp only [absorb, hq, written?_commit hq, hp, Option.filter_none]
    exact (Same.refl _).alike
  · simp only [absorb, hp, written?_commit hp, hq, Option.filter_none]
    exact (Same.refl _).alike
  · by_cases hkl : k = l
    · obtain ⟨-, -, hk, -⟩ := written?_eq_some hp
      obtain ⟨-, -, hl, -⟩ := written?_eq_some hq
      subst hkl
      obtain rfl : o = o' := Except.ok.inj (hk.symm.trans hl)
      simp only [absorb, written?_commit hp, hp, hq]
      exact (Same.refl _).alike
    · simp only [absorb, written?_commit hp, written?_commit hq, hp, hq, Option.filter_some,
        decide_true, ne_eq, hkl, Ne.symm hkl, not_false_eq_true, if_true]
      exact alike_commit_comm hp hq hkl

end Commuting

section Rows

/-- Processes files one after the other. -/
def processAll (b : Build) (paths : List Path) : Build :=
  paths.foldl (fun b path => (b.processFile path).2) b

theorem processAll_append (b : Build) (ps qs : List Path) :
    b.processAll (ps ++ qs) = (b.processAll ps).processAll qs :=
  List.foldl_append

theorem alike_processAll_of_alike : ∀ {b b' : Build}, Alike b b' → ∀ paths : List Path,
    Alike (b.processAll paths) (b'.processAll paths)
  | _, _, h, [] => h
  | _, _, h, path :: paths => alike_processAll_of_alike (alike_processFile h path) paths

theorem steady_processAll (b : Build) : ∀ paths : List Path, Steady b (b.processAll paths) := by
  intro paths
  induction paths generalizing b with
  | nil => exact (Same.refl b).steady
  | cons path paths ih => exact (steady_processFile b path).trans (ih _)

/-- The order in which files are processed matters to no more than the order of the records. -/
theorem alike_processAll (b : Build) {ps qs : List Path} (h : ps.Perm qs) :
    Alike (b.processAll ps) (b.processAll qs) := by
  induction h generalizing b with
  | nil => exact (Same.refl b).alike
  | cons path _ ih => exact ih _
  | swap p q rest => exact alike_processAll_of_alike (alike_processFile_comm b q p) rest
  | trans _ _ ih₁ ih₂ => exact (ih₁ b).trans (ih₂ b)

end Rows

end Build

end ScopedStyles
