import ScopedStyles.Proofs.Transforming
import Mathlib.Data.List.Nodup

/-!
# Once per build

A build takes calls, and others may change the disk in between (`Act`). Whatever the calls and the
changes, no place is written twice and no other file is touched, what is recorded stays and
answers every later reference, and the processed files are listed in the order of first success.
As long as nobody else changes the disk, all records and class maps come from the texts that the
files held at first (`oncePerBuild`).

The calls are accounted for by `Build.Effect`, which says what a number of them does to disk and
records; effects of calls in a row add up (`Effect.trans`).
-/

namespace ScopedStyles

theorem Processor.processed_eq (p : Processor) : p.processed = p.places.map Disk.pathOf := by
  simp only [processed, places, List.map_map]
  rfl

namespace Build

variable {b b' b'' : Build} {ws ws' : List (Place × Output)}

section Effects

/-- A build came from another one by writing over text files that were not recorded, each of them
once, and recording what was written. -/
structure Effect (b b' : Build) (ws : List (Place × Output)) : Prop where
  stages : b'.processor.stages = b.processor.stages
  records : b'.processor.records = b.processor.records ++ ws
  names : ∀ w ∈ ws, ∀ s ∈ w.1, isName s
  unrecorded : ∀ w ∈ ws, w.1 ∉ b.processor.places
  once : (ws.map Prod.fst).Nodup
  original : ∀ w ∈ ws, ∃ text, b.disk.entry? w.1 = some (.file (.text text)) ∧
    b.processor.stages.process text (Disk.pathOf w.1) = .ok w.2
  written : ∀ w ∈ ws, b'.disk.entry? w.1 = some (.file (.text w.2.css))
  kept : ∀ q ∉ ws.map Prod.fst, b'.disk.entry? q = b.disk.entry? q

theorem Effect.places (h : Effect b b' ws) :
    b'.processor.places = b.processor.places ++ ws.map Prod.fst := by
  simp only [Processor.places, h.records, List.map_append]

theorem effect_of_same (h : Same b b') : Effect b b' [] where
  stages := by rw [h.processor]
  records := by simp [h.processor]
  names := by simp
  unrecorded := by simp
  once := by simp
  original := by simp
  written := by simp
  kept := by simp [h.disk]

theorem effect_commit {path : Path} {place : Place} {o : Output}
    (h : b.written? path = some (place, o)) : Effect b (b.commit place o) [(place, o)] := by
  obtain ⟨hl, hr, -, text, he, ho⟩ := written?_eq_some h
  have hentry := entry?_commit (b := b) o (Disk.ne_nil_of_entry?_file he)
  refine ⟨rfl, rfl, ?_, ?_, by simp, ?_, ?_, ?_⟩
  · simpa using Disk.isName_of_locate hl
  · simpa only [List.mem_singleton, forall_eq] using Processor.record?_eq_none_iff.1 hr
  · simpa using ⟨text, he, ho⟩
  · simp [hentry]
  · intro q hq
    rw [hentry, if_neg (by simpa using hq)]

/-- Effects in a row add up. -/
theorem Effect.trans (h : Effect b b' ws) (h' : Effect b' b'' ws') :
    Effect b b'' (ws ++ ws') := by
  have hnew : ∀ w ∈ ws', w.1 ∉ b.processor.places ∧ w.1 ∉ ws.map Prod.fst := fun w hw => by
    have hw' := h'.unrecorded w hw
    rwa [h.places, List.mem_append, not_or] at hw'
  have hold : ∀ w ∈ ws, w.1 ∉ ws'.map Prod.fst := fun w hw hw' => by
    obtain ⟨v, hv, he⟩ := List.mem_map.1 hw'
    exact (hnew v hv).2 (he ▸ List.mem_map_of_mem hw)
  refine ⟨h'.stages.trans h.stages, ?_, ?_, ?_, ?_, ?_, ?_, ?_⟩
  · rw [h'.records, h.records, List.append_assoc]
  · exact List.forall_mem_append.2 ⟨h.names, h'.names⟩
  · exact List.forall_mem_append.2 ⟨h.unrecorded, fun w hw => (hnew w hw).1⟩
  · rw [List.map_append]
    refine List.Nodup.append h.once h'.once fun q hq hq' => ?_
    obtain ⟨w, hw, rfl⟩ := List.mem_map.1 hq
    exact hold w hw hq'
  · refine List.forall_mem_append.2 ⟨h.original, fun w hw => ?_⟩
    obtain ⟨text, he, ho⟩ := h'.original w hw
    exact ⟨text, by rw [← h.kept _ (hnew w hw).2, he], by rw [← h.stages, ho]⟩
  · refine List.forall_mem_append.2 ⟨fun w hw => ?_, h'.written⟩
    rw [h'.kept _ (hold w hw), h.written w hw]
  · intro q hq
    rw [List.map_append, List.mem_append, not_or] at hq
    rw [h'.kept q hq.2, h.kept q hq.1]

theorem effect_processFile (b : Build) (path : Path) :
    Effect b (b.processFile path).2 (b.written? path).toList := by
  have hs := effect_of_same (same_processFile b path).symm
  rw [← List.append_nil (b.written? path).toList]
  refine .trans ?_ hs
  rcases hw : b.written? path with _ | ⟨place, o⟩
  · exact effect_of_same (.refl b)
  · exact effect_commit hw

/-- What processing files one after the other writes. -/
def writes : Build → List Path → List (Place × Output)
  | _, [] => []
  | b, path :: paths => (b.written? path).toList ++ writes (b.processFile path).2 paths

theorem effect_processAll : ∀ (paths : List Path) (b : Build),
    Effect b (b.processAll paths) (b.writes paths)
  | [], b => effect_of_same (.refl b)
  | path :: paths, b =>
    (effect_processFile b path).trans (effect_processAll paths (b.processFile path).2)

end Effects

section Successes

/-- The place of a file that is processed with success. -/
def served? (b : Build) (path : Path) : Option Place :=
  match b.disk.locate path, b.outcome path with
  | .ok place, .ok _ => some place
  | _, _ => none

/-- The places of the files that are processed with success, one after the other. -/
def served : Build → List Path → List Place
  | _, [] => []
  | b, path :: paths => (b.served? path).toList ++ served (b.processFile path).2 paths

/-- A file is written at its first success. -/
theorem written?_map_fst (b : Build) (path : Path) :
    (b.written? path).toList.map Prod.fst =
      (b.served? path).toList.removeAll b.processor.places := by
  unfold written? served?
  rcases b.disk.locate path with fault | place
  · rfl
  rcases b.outcome path with e | o
  · rfl
  rcases hr : b.processor.record? place with _ | o'
  · have hp : place ∉ b.processor.places := Processor.record?_eq_none_iff.1 hr
    simp [List.removeAll, hp, hr]
  · have hp : place ∈ b.processor.places := by
      by_contra hp
      simp [Processor.record?_eq_none_iff.2 hp] at hr
    simp [List.removeAll, hp, hr]

theorem places_processAll : ∀ (paths : List Path) {b : Build} {past : List Place},
    b.processor.places = past.eraseDups →
      (b.processAll paths).processor.places = (past ++ b.served paths).eraseDups
  | [], b, past, h => by
    rw [served, List.append_nil]
    exact h
  | path :: paths, b, past, h => by
    have hstep : (b.processFile path).2.processor.places =
        (past ++ (b.served? path).toList).eraseDups := by
      rw [(effect_processFile b path).places, written?_map_fst, h, List.eraseDups_append]
      congr 1
      rcases b.served? path with _ | place
      · rfl
      · by_cases hp : place ∈ past <;> simp [List.removeAll, hp, List.eraseDups_cons]
    rw [served, ← List.append_assoc]
    exact places_processAll paths hstep

end Successes

end Build

section Runs

/-- A call that a build takes. -/
inductive Call where
  | classMap (path : Path)
  | processFile (path : Path)
  | processText (text : String) (path : Path)
  | transform (j : Job)
deriving DecidableEq, Repr

namespace Call

def after : Call → Build → Build
  | classMap path, b => (b.classMap path).2
  | processFile path, b => (b.processFile path).2
  | processText _ _, b => b
  | transform j, b => j.after b

/-- The class maps that a call gives for the files it processes. -/
def maps : Call → Build → List (Path × ClassMap)
  | classMap path, b =>
    match (b.classMap path).1 with
    | .ok (some m) => [(path, m)]
    | _ => []
  | processFile path, b =>
    match (b.processFile path).1 with
    | .ok o => o.classMap?.toList.map (path, ·)
    | .error _ => []
  | processText _ _, _ => []
  | transform j, b =>
    match j.result b with
    | some t => t.replacements.map fun s => (s.path, s.classMap)
    | none => []

/-- The files that a call processes, in order. -/
def paths : Call → Build → List Path
  | classMap path, _ => [path]
  | processFile path, _ => [path]
  | processText _ _, _ => []
  | transform j, b => j.paths b

/-- What a call writes. -/
def writes (c : Call) (b : Build) : List (Place × Output) := b.writes (c.paths b)

/-- The places of the files that a call processes with success. -/
def served (c : Call) (b : Build) : List Place := b.served (c.paths b)

/-- Events apart, a call comes to processing its files. -/
theorem same_after (c : Call) (b : Build) : (c.after b).Same (b.processAll (c.paths b)) := by
  cases c with
  | classMap path => exact .refl _
  | processFile path => exact .refl _
  | processText text path => exact .refl _
  | transform j => exact j.same_after b

theorem effect_after (c : Call) (b : Build) : b.Effect (c.after b) (c.writes b) := by
  have h := (b.effect_processAll (c.paths b)).trans (Build.effect_of_same (c.same_after b).symm)
  rwa [List.append_nil] at h

theorem steady_after (c : Call) (b : Build) : b.Steady (c.after b) :=
  (b.steady_processAll _).trans (c.same_after b).symm.steady

/-- Each class map that a call gives is the answer for its path. -/
theorem outcome_of_mem_maps {c : Call} {b : Build} {path : Path} {m : ClassMap}
    (h : (path, m) ∈ c.maps b) : ∃ o, b.outcome path = .ok o ∧ o.classMap? = some m := by
  cases c with
  | classMap p =>
    simp only [maps, Build.classMap] at h
    rcases ho : (b.processFile p).1 with e | o
    · simp [ho, Except.map] at h
    · rcases hm : o.classMap? with _ | m'
      · simp [ho, Except.map, hm] at h
      · simp only [ho, Except.map, hm, List.mem_singleton, Prod.mk.injEq] at h
        obtain ⟨rfl, rfl⟩ := h
        exact ⟨o, ho, hm⟩
  | processFile p =>
    simp only [maps] at h
    rcases ho : (b.processFile p).1 with e | o
    · simp [ho] at h
    · simp only [ho, List.mem_map, Option.mem_toList, Prod.mk.injEq] at h
      obtain ⟨m', hm, rfl, rfl⟩ := h
      exact ⟨o, ho, hm⟩
  | processText text p => simp [maps] at h
  | transform j =>
    simp only [maps] at h
    rcases ht : j.result b with _ | t
    · simp [ht] at h
    · simp only [ht, List.mem_map, Prod.mk.injEq] at h
      obtain ⟨s, hs, rfl, rfl⟩ := h
      exact j.outcome_of_mem_replacements ht hs

end Call

/-- A step of a run: a call, or a change of the disk by others. -/
inductive Act where
  | call (c : Call)
  | outside (disk : Disk)

namespace Act

def after : Act → Build → Build
  | call c, b => c.after b
  | outside disk, b => { b with disk := disk }

def writes : Act → Build → List (Place × Output)
  | call c, b => c.writes b
  | outside _, _ => []

def served : Act → Build → List Place
  | call c, b => c.served b
  | outside _, _ => []

end Act

namespace Build

def run (b : Build) (acts : List Act) : Build := acts.foldl (fun b a => a.after b) b

/-- What the calls of a run write. -/
def runWrites : Build → List Act → List (Place × Output)
  | _, [] => []
  | b, a :: acts => a.writes b ++ runWrites (a.after b) acts

/-- The places of the files that the calls of a run process with success. -/
def runServed : Build → List Act → List Place
  | _, [] => []
  | b, a :: acts => a.served b ++ runServed (a.after b) acts

theorem run_append (b : Build) (acts acts' : List Act) :
    b.run (acts ++ acts') = (b.run acts).run acts' :=
  List.foldl_append

/-- Each place is recorded once, and it is made of names. -/
structure Sound (b : Build) : Prop where
  once : b.processor.places.Nodup
  names : ∀ place ∈ b.processor.places, ∀ s ∈ place, isName s

theorem Effect.sound {b b' : Build} {ws : List (Place × Output)} (h : Effect b b' ws)
    (hb : Sound b) : Sound b' := by
  refine ⟨?_, ?_⟩ <;> rw [h.places]
  · refine List.Nodup.append hb.once h.once fun q hq hq' => ?_
    obtain ⟨w, hw, rfl⟩ := List.mem_map.1 hq'
    exact h.unrecorded w hw hq
  · refine List.forall_mem_append.2 ⟨hb.names, fun q hq => ?_⟩
    obtain ⟨w, hw, rfl⟩ := List.mem_map.1 hq
    exact h.names w hw

theorem sound_run : ∀ (acts : List Act) {b : Build}, Sound b → Sound (b.run acts)
  | [], _, h => h
  | .call c :: acts, b, h => sound_run acts ((c.effect_after b).sound h)
  | .outside disk :: acts, b, h => sound_run acts (b := { b with disk := disk }) ⟨h.once, h.names⟩

theorem records_run : ∀ (acts : List Act) (b : Build),
    (b.run acts).processor.records = b.processor.records ++ b.runWrites acts
  | [], b => (List.append_nil _).symm
  | .call c :: acts, b => by
    have h := records_run acts (c.after b)
    rw [(c.effect_after b).records, List.append_assoc] at h
    exact h
  | .outside disk :: acts, b => records_run acts { b with disk := disk }

/-- What is recorded stays. -/
theorem record?_run {b : Build} {place : Place} {o : Output} (acts : List Act)
    (h : b.processor.record? place = some o) : (b.run acts).processor.record? place = some o := by
  unfold Processor.record? at h ⊢
  rw [records_run, List.lookup_append, h]
  rfl

theorem places_run : ∀ (acts : List Act) {b : Build} {past : List Place},
    b.processor.places = past.eraseDups →
      (b.run acts).processor.places = (past ++ b.runServed acts).eraseDups
  | [], b, past, h => by
    rw [runServed, List.append_nil]
    exact h
  | .call c :: acts, b, past, h => by
    have hc : (c.after b).processor.places = (past ++ c.served b).eraseDups := by
      rw [(c.same_after b).processor]
      exact places_processAll _ h
    rw [runServed, ← List.append_assoc]
    exact places_run acts hc
  | .outside disk :: acts, b, past, h => places_run acts (b := { b with disk := disk }) h

/-- As long as nobody else changes the disk, the calls of a run are one effect. -/
theorem effect_run : ∀ (calls : List Call) (b : Build),
    Effect b (b.run (calls.map .call)) (b.runWrites (calls.map .call))
  | [], b => effect_of_same (.refl b)
  | c :: calls, b => (c.effect_after b).trans (effect_run calls (c.after b))

theorem steady_run : ∀ (calls : List Call) (b : Build), Steady b (b.run (calls.map .call))
  | [], b => (Same.refl b).steady
  | c :: calls, b => (c.steady_after b).trans (steady_run calls (c.after b))

end Build

/-- An output comes from the text that the file at a place holds. -/
def Disk.Yields (disk : Disk) (stages : Pipeline) (place : Place) (o : Output) : Prop :=
  ∃ text, disk.entry? place = some (.file (.text text)) ∧
    stages.process text (Disk.pathOf place) = .ok o

/-- What holds of a build that started on a disk with a fresh processor and ran some acts. -/
structure OncePerBuild (b : Build) (acts : List Act) : Prop where
  /-- No place is written twice. -/
  once : ((b.runWrites acts).map Prod.fst).Nodup
  /-- A call overwrites and records what it writes, and leaves all other places alone. -/
  effect : ∀ before c later, acts = before ++ .call c :: later →
    (b.run before).Effect (c.after (b.run before)) (c.writes (b.run before))
  /-- What is recorded stays and answers whatever leads to its place; nothing is written then. -/
  settled : ∀ before later place o, acts = before ++ later →
    (b.run before).processor.record? place = some o →
      (b.run acts).processor.record? place = some o ∧
      ∀ path, (b.run acts).disk.locate path = .ok place →
        (b.run acts).processFile path =
          (.ok o, (b.run acts).tell (.alreadyProcessed (Disk.pathOf place)))
  /-- The processed files are listed once, in the order of first success. -/
  listed : (b.run acts).processor.processed.Nodup ∧
    (b.run acts).processor.processed = (b.runServed acts).eraseDups.map Disk.pathOf
  /-- Without changes by others, the recorded files hold what is recorded, and that comes from
  their original texts. -/
  original : ∀ calls : List Call, acts = calls.map .call → ∀ place o,
    (b.run acts).processor.record? place = some o →
      (b.run acts).disk.entry? place = some (.file (.text o.css)) ∧
      b.disk.Yields b.processor.stages place o
  /-- Without changes by others, so does each class map that a further call gives. -/
  maps : ∀ calls : List Call, acts = calls.map .call → ∀ (c : Call) path m,
    (path, m) ∈ c.maps (b.run acts) → ∃ place o, b.disk.locate path = .ok place ∧
      b.disk.Yields b.processor.stages place o ∧ o.classMap? = some m

/-- Whatever the stages, the disk, the calls and the changes by others. -/
theorem oncePerBuild (stages : Pipeline) (disk : Disk) (acts : List Act) :
    OncePerBuild (.start disk (.fresh stages)) acts := by
  have hsound : ((Build.start disk (.fresh stages)).run acts).Sound :=
    Build.sound_run acts ⟨List.nodup_nil, fun _ h => absurd h List.not_mem_nil⟩
  refine ⟨?_, ?_, ?_, ⟨?_, ?_⟩, ?_, ?_⟩
  · have h := hsound.once
    rwa [Processor.places, Build.records_run] at h
  · rintro before c later -
    exact c.effect_after _
  · rintro before later place o rfl hr
    have hr' := Build.record?_run later hr
    rw [← Build.run_append] at hr'
    exact ⟨hr', fun path hl => Build.processFile_of_record? hl hr'⟩
  · rw [Processor.processed_eq]
    refine List.Nodup.map_on (fun p hp q hq h => ?_) hsound.once
    exact Disk.pathOf_inj (hsound.names p hp) (hsound.names q hq) h
  · rw [Processor.processed_eq]
    have hnil : (Build.start disk (.fresh stages)).processor.places =
        ([] : List Place).eraseDups := rfl
    rw [Build.places_run acts hnil, List.nil_append]
  · rintro calls rfl place o hr
    have he := Build.effect_run calls (.start disk (.fresh stages))
    have hm : (place, o) ∈ (Build.start disk (.fresh stages)).runWrites (calls.map .call) := by
      have hrec := Processor.mem_records_of_record? hr
      rwa [he.records] at hrec
    exact ⟨he.written _ hm, he.original _ hm⟩
  · rintro calls rfl c path m h
    obtain ⟨o, ho, hm⟩ := Call.outcome_of_mem_maps h
    rw [(Build.steady_run calls _).outcome, Build.outcome_eq] at ho
    split at ho
    · simp at ho
    · rename_i place hl
      rcases Build.answerAt_eq_ok ho with hr | ⟨-, hy⟩
      · simp [Build.start, Processor.fresh, Processor.record?] at hr
      · exact ⟨place, o, hl, hy, hm⟩

end Runs

end ScopedStyles
