import ScopedStyles.CommandLine.Run
import ScopedStyles.Proofs.Growing
import ScopedStyles.Proofs.OncePerBuild

/-!
# What a run leaves in its directory

A run that writes into a directory names an output by the last name of its file alone, and it
writes the output before it reads the next file. So files of one name share an output, and what is
written for one file may go over what was written for another one, or over a file that is still to
be read; the run ends with success all the same (`output_overwritten`). Where nothing of the kind
happens, each output holds what became of its file (`run_delivers`).

A turn, and so a row of turns, writes its targets and the stylesheets that it processes and nothing
else (`Touches`). Paths only ever come to lead somewhere during a run, so all conditions are put on
the paths as they lead in the end.
-/

namespace ScopedStyles.CommandLine

open Disk (Grows Written)

variable {a : Arguments} {b b' b'' : Build} {dir file : Path} {ts ts' : List Path}

@[simp]
theorem disk_withDisk (b : Build) (d : Disk) : (withDisk b d).disk = d := rfl

@[simp]
theorem withDisk_withDisk (b : Build) (d d' : Disk) :
    withDisk (withDisk b d) d' = withDisk b d' := rfl

/-- What the results for a file are written to: its source map, if one is asked for, and its
output. -/
def Arguments.targets (a : Arguments) (dir file : Path) : List Path :=
  match file.fileName? with
  | .none => []
  | .some name => (if a.sourceMap then [dir.join ⟨mapNameOf name⟩] else []) ++ [dir.join ⟨name⟩]

/-- The path of a file's output. -/
def outputOf? (dir file : Path) : Option Path := file.fileName?.map fun name => dir.join ⟨name⟩

section Touched

/-- Neither one of the targets nor a stylesheet that was processed is at a place. -/
structure Spared (b : Build) (ts : List Path) (place : Place) : Prop where
  unprocessed : place ∉ b.processor.places
  untargeted : ∀ p ∈ ts, b.disk.locate p ≠ .ok place

/-- A build came from another one by writing the targets and processing stylesheets; directories
may have been made. -/
structure Touches (ts : List Path) (b b' : Build) : Prop where
  grows : Grows b.disk b'.disk
  places : b.processor.places ⊆ b'.processor.places
  kept : ∀ place c, Spared b' ts place →
    (b'.disk.entry? place = some (.file c) ↔ b.disk.entry? place = some (.file c))

theorem Spared.mono {place : Place} (hs : Spared b ts' place) (h : ts ⊆ ts') : Spared b ts place :=
  ⟨hs.unprocessed, fun p hp => hs.untargeted p (h hp)⟩

/-- What is spared in the end was spared all along. -/
theorem Spared.of_touches {place : Place} (hs : Spared b' ts place) (h : Touches ts' b b') :
    Spared b ts place :=
  ⟨fun hp => hs.unprocessed (h.places hp), fun p hp hl => hs.untargeted p hp (h.grows.locate hl)⟩

theorem Touches.refl (b : Build) : Touches [] b b := ⟨.refl _, fun _ h => h, fun _ _ _ => .rfl⟩

theorem touches_tell (b : Build) (e : Event) : Touches [] b (b.tell e) :=
  ⟨.refl _, fun _ h => h, fun _ _ _ => .rfl⟩

theorem Touches.trans (h : Touches ts b b') (h' : Touches ts' b' b'') :
    Touches (ts ++ ts') b b'' := by
  refine ⟨h.grows.trans h'.grows, List.Subset.trans h.places h'.places, fun place c hs => ?_⟩
  have hfirst : Spared b'' ts place := hs.mono (List.subset_append_left _ _)
  have hthen : Spared b'' ts' place := hs.mono (List.subset_append_right _ _)
  exact (h'.kept place c hthen).trans (h.kept place c (hfirst.of_touches h'))

theorem touches_transform {source name : String} {mapped : Bool} {t : Transformed}
    (h : Transform.run source name mapped b = some (t, b')) : Touches [] b b' := by
  let c : Call := .transform ⟨source, name, mapped⟩
  have hb : c.after b = b' := by simp only [c, Call.after, Job.after, h, Option.map_some]; rfl
  have he := hb ▸ c.effect_after b
  refine ⟨(hb ▸ c.steady_after b).layout.grows, ?_, fun place text hs => ?_⟩
  · rw [he.places]
    exact List.subset_append_left _ _
  · have hp := hs.unprocessed
    rw [he.places, List.mem_append, not_or] at hp
    rw [he.kept place hp.2]

theorem touches_makeDirectories {d : Disk} (h : b.disk.makeDirectories dir = .ok d) :
    Touches [] b (withDisk b d) := by
  have he := Disk.extended_makeDirectories h
  refine ⟨he.grows, fun _ h => h, fun place c _ => ?_⟩
  rcases he.entry place with hq | ⟨hq, hq'⟩
  · rw [← hq]
    rfl
  · show d.entry? place = _ ↔ _
    simp [hq, hq']

theorem touches_write {d : Disk} {p : Path} {place : Place} {c : Contents}
    (h : Written b.disk d p place c) : Touches [p] b (withDisk b d) := by
  refine ⟨h.grows, fun _ h => h, fun q c hs => ?_⟩
  have hq : q ≠ place := by
    rintro rfl
    exact hs.untargeted p List.mem_cons_self h.leads
  show d.entry? q = _ ↔ _
  rw [h.others q hq]

/-- What a path leads to, if anything, is spared. -/
def Untouched (b : Build) (ts : List Path) (p : Path) : Prop :=
  ∀ place, b.disk.locate p = .ok place → Spared b ts place

instance (b : Build) (ts : List Path) (place : Place) : Decidable (Spared b ts place) :=
  decidable_of_iff (place ∉ b.processor.places ∧ ∀ p ∈ ts, b.disk.locate p ≠ .ok place)
    ⟨fun h => ⟨h.1, h.2⟩, fun h => ⟨h.unprocessed, h.untargeted⟩⟩

instance (b : Build) (ts : List Path) (p : Path) : Decidable (Untouched b ts p) :=
  match h : b.disk.locate p with
  | .error _ => isTrue fun place hl => by simp [h] at hl
  | .ok place => decidable_of_iff (Spared b ts place)
    ⟨fun hs _ hl => Except.ok.inj (h.symm.trans hl) ▸ hs, fun hs => hs place h⟩

theorem Untouched.mono {p : Path} (hs : Untouched b ts' p) (h : ts ⊆ ts') : Untouched b ts p :=
  fun place hl => (hs place hl).mono h

theorem Untouched.of_touches {p : Path} (hs : Untouched b' ts p) (h : Touches ts' b b') :
    Untouched b ts p :=
  fun place hl => (hs place (h.grows.locate hl)).of_touches h

/-- A file that is spared reads as before. -/
theorem Touches.readText (h : Touches ts b b') {p : Path} {text : String}
    (hs : Untouched b' ts p) (hr : b.disk.readText p = .ok text) :
    b'.disk.readText p = .ok text := by
  obtain ⟨place, hl, he⟩ := Disk.readText_eq_ok_iff.1 hr
  have hl' := h.grows.locate hl
  exact Disk.readText_eq_ok_iff.2 ⟨place, hl', (h.kept place _ (hs place hl')).2 he⟩

end Touched

section Turn

/-- The code as it is written, with the line for its source map behind it if there is one. -/
def codeOf (a : Arguments) (name : Bytes) (t : Transformed) : String :=
  t.code ++ if a.sourceMap then mapLine (mapNameOf name) else ""

/-- One file's turn in a run that writes into a directory. -/
structure Turn (a : Arguments) (dir file : Path) (name : Bytes) (source : String)
    (t : Transformed) (r r' : Run) : Prop where
  named : file.fileName? = some name
  read : r.build.disk.readText file = .ok source
  made : ∃ b, Transform.run source file.text a.sourceMap r.build = some (t, b)
  listed : r'.written = r.written ++ [dir.join ⟨name⟩]
  touches : Touches (a.targets dir file) r.build r'.build
  output : r'.build.disk.readText (dir.join ⟨name⟩) = .ok (codeOf a name t)
  map : a.sourceMap → ∃ m, t.sourceMap = some m ∧
    (Untouched r'.build [dir.join ⟨name⟩] (dir.join ⟨mapNameOf name⟩) →
      r'.build.disk.readText (dir.join ⟨mapNameOf name⟩) = .ok m.toJson.compact)

/-- A source map is written before the output it belongs to. -/
theorem writeOutput_eq_ok {d d' : Disk} {t : Transformed} {out : Path} (hb : d.Clear d.base)
    (h : writeOutput d dir file t = (d', .ok out)) :
    ∃ name made, file.fileName? = some name ∧ out = dir.join ⟨name⟩ ∧
      d.makeDirectories dir = .ok made ∧
      match t.sourceMap with
      | none => ∃ place, Written made d' out place (.text t.code)
      | some m => ∃ mapped mapPlace place,
        Written made mapped (dir.join ⟨mapNameOf name⟩) mapPlace (.text m.toJson.compact) ∧
        Written mapped d' out place (.text (t.code ++ mapLine (mapNameOf name))) := by
  unfold writeOutput at h
  rcases hm : d.makeDirectories dir with fault | made
  · simp [hm] at h
  have hmade := (Disk.extended_makeDirectories hm).grows.clear_base hb
  rcases hn : file.fileName? with _ | name
  · simp [hm, hn] at h
  simp only [hm, hn, writeMap] at h
  rcases hs : t.sourceMap with _ | m
  · simp only [hs] at h
    rcases hw : made.write (dir.join ⟨name⟩) (.text t.code) with fault | written
    · simp [hw] at h
    simp only [hw, Prod.mk.injEq, Except.ok.injEq] at h
    obtain ⟨rfl, rfl⟩ := h
    exact ⟨name, made, rfl, rfl, rfl, Disk.write_eq_ok hmade hw⟩
  · simp only [hs] at h
    rcases hw : made.write (dir.join ⟨mapNameOf name⟩) (.text m.toJson.compact) with fault | mapped
    · simp [hw] at h
    simp only [hw] at h
    obtain ⟨mapPlace, hmap⟩ := Disk.write_eq_ok hmade hw
    rcases hw' : mapped.write (dir.join ⟨name⟩)
      (.text (t.code ++ mapLine (mapNameOf name))) with fault | written
    · simp [hw'] at h
    simp only [hw', Prod.mk.injEq, Except.ok.injEq] at h
    obtain ⟨rfl, rfl⟩ := h
    obtain ⟨place, hout⟩ := Disk.write_eq_ok (hmap.grows.clear_base hmade) hw'
    exact ⟨name, made, rfl, rfl, rfl, mapped, mapPlace, place, hmap, hout⟩

theorem turn_of_runFile {r r' : Run} (hdir : a.outDir = some dir)
    (hb : r.build.disk.Clear r.build.disk.base) (h : runFile a file r = (r', none)) :
    ∃ name source t, Turn a dir file name source t r r' := by
  unfold runFile at h
  rcases hr : r.build.disk.readText file with fault | source
  · simp [hr] at h
  simp only [hr] at h
  rcases ht : Transform.run source file.text a.sourceMap r.build with _ | ⟨t, c⟩
  · simp [ht] at h
  simp only [ht, deliver, hdir] at h
  set told := c.tell (.transformed file t.replacements.length) with htold
  have hc : Touches [] r.build told := (touches_transform ht).trans (touches_tell c _)
  rcases hw : writeOutput told.disk dir file t with ⟨d, e | out⟩
  · simp [hw] at h
  simp only [hw, Prod.mk.injEq] at h
  obtain ⟨rfl, -⟩ := h
  obtain ⟨name, made, hname, rfl, hmade, hout⟩ := writeOutput_eq_ok (hc.grows.clear_base hb) hw
  have hdirs := hc.trans (touches_makeDirectories hmade)
  have hmap := Job.isSome_sourceMap (j := ⟨source, file.text, a.sourceMap⟩) ht
  refine ⟨name, source, t, ?_⟩
  rcases hs : t.sourceMap with _ | m <;> simp only [hs] at hout hmap
  · obtain ⟨place, hout⟩ := hout
    have hplain : a.sourceMap = false := hmap.symm
    refine ⟨hname, hr, ⟨c, ht⟩, rfl, ?_, ?_, by simp [hplain]⟩
    · simpa [Arguments.targets, hname, hplain] using hdirs.trans (touches_write hout)
    · simpa [codeOf, hplain] using hout.readText
  · obtain ⟨mapped, mapPlace, place, hm, hout⟩ := hout
    have hasked : a.sourceMap = true := hmap.symm
    have htouch := touches_write (b := withDisk told mapped) hout
    refine ⟨hname, hr, ⟨c, ht⟩, rfl, ?_, ?_, fun _ => ⟨m, hs, fun hspared => ?_⟩⟩
    · have hboth := (hdirs.trans (touches_write (b := withDisk told made) hm)).trans htouch
      simpa [Arguments.targets, hname, hasked] using hboth
    · simpa [codeOf, hasked] using hout.readText
    · exact htouch.readText hspared hm.readText

end Turn

section Turns

theorem runFiles_cons {files : List Path} {r r' : Run}
    (h : runFiles a (file :: files) r = (r', none)) :
    ∃ next, runFile a file r = (next, none) ∧ runFiles a files next = (r', none) := by
  rw [runFiles] at h
  rcases hf : runFile a file r with ⟨next, e | _⟩ <;> rw [hf] at h
  · exact ⟨next, rfl, h⟩
  · simp at h

theorem runFiles_append {later : List Path} {r' : Run} : ∀ {before : List Path} {r : Run},
    runFiles a (before ++ later) r = (r', none) →
      ∃ now, runFiles a before r = (now, none) ∧ runFiles a later now = (r', none)
  | [], r, h => ⟨r, rfl, h⟩
  | f :: before, r, h => by
    obtain ⟨next, hf, hrest⟩ := runFiles_cons h
    obtain ⟨now, hb, hl⟩ := runFiles_append hrest
    exact ⟨now, by rw [runFiles, hf]; exact hb, hl⟩

/-- Each turn adds its targets to what is touched and its output to what is listed. -/
theorem turns_of_runFiles (hdir : a.outDir = some dir) : ∀ {files : List Path} {r r' : Run},
    r.build.disk.Clear r.build.disk.base → runFiles a files r = (r', none) →
      Touches (files.flatMap (a.targets dir)) r.build r'.build ∧
      ∃ more, r'.written = r.written ++ more ∧ more.map some = files.map (outputOf? dir)
  | [], r, r', _, h => by
    obtain rfl : r = r' := by simpa [runFiles] using h
    exact ⟨.refl _, [], by simp, rfl⟩
  | file :: files, r, r', hb, h => by
    obtain ⟨next, hf, hrest⟩ := runFiles_cons h
    obtain ⟨name, source, t, ht⟩ := turn_of_runFile hdir hb hf
    obtain ⟨htouch, more, hmore, houts⟩ :=
      turns_of_runFiles hdir (ht.touches.grows.clear_base hb) hrest
    refine ⟨ht.touches.trans htouch, dir.join ⟨name⟩ :: more, ?_, ?_⟩
    · rw [hmore, ht.listed, List.append_assoc, List.singleton_append]
    · rw [List.map_cons, List.map_cons, houts, outputOf?, ht.named]
      rfl

/-- What a run that has ended leaves of one of its files; `now` is the run as it was before the
file's turn. -/
structure Delivered (a : Arguments) (d : Disk) (dir : Path) (before : List Path) (file : Path)
    (later : List Path) (now r : Run) (name : Bytes) (source : String) (t : Transformed) : Prop where
  named : file.fileName? = some name
  listed : r.written[before.length]? = some (dir.join ⟨name⟩)
  /-- The text is what the file held at first, unless earlier turns wrote over it. -/
  read : now.build.disk.readText file = .ok source ∧
    (Untouched r.build (before.flatMap (a.targets dir)) file →
      ∃ place, r.build.disk.locate file = .ok place ∧ d.entry? place = some (.file (.text source)))
  made : ∃ b, Transform.run source file.text a.sourceMap now.build = some (t, b)
  /-- The output holds the code, unless later turns write over it. -/
  output : Untouched r.build (later.flatMap (a.targets dir)) (dir.join ⟨name⟩) →
    r.build.disk.readText (dir.join ⟨name⟩) = .ok (codeOf a name t)
  /-- The source map is there too, unless the output itself or a later turn writes over it. -/
  map : a.sourceMap → ∃ m, t.sourceMap = some m ∧
    (Untouched r.build (dir.join ⟨name⟩ :: later.flatMap (a.targets dir))
        (dir.join ⟨mapNameOf name⟩) →
      r.build.disk.readText (dir.join ⟨mapNameOf name⟩) = .ok m.toJson.compact)

theorem delivered_of_turn {before later : List Path} {start now next r : Run}
    {name : Bytes} {source : String} {t : Transformed}
    (hbefore : Touches (before.flatMap (a.targets dir)) start.build now.build)
    (hturn : Turn a dir file name source t now next)
    (hlater : Touches (later.flatMap (a.targets dir)) next.build r.build)
    (hlisted : r.written[before.length]? = some (dir.join ⟨name⟩)) :
    Delivered a start.build.disk dir before file later now r name source t := by
  have hrest := hturn.touches.trans hlater
  refine ⟨hturn.named, hlisted, ⟨hturn.read, fun hs => ?_⟩, hturn.made, fun hs => ?_, fun hm => ?_⟩
  · obtain ⟨place, hl, he⟩ := Disk.readText_eq_ok_iff.1 hturn.read
    have hl' := hrest.grows.locate hl
    have hs' := (hs place hl').of_touches hrest
    exact ⟨place, hl', (hbefore.kept place _ hs').1 he⟩
  · exact hlater.readText hs hturn.output
  · obtain ⟨m, hm, hmap⟩ := hturn.map hm
    refine ⟨m, hm, fun hs => ?_⟩
    have hout : Untouched r.build [dir.join ⟨name⟩] (dir.join ⟨mapNameOf name⟩) := hs.mono (by simp)
    exact hlater.readText (hs.mono (List.subset_cons_self _ _)) (hmap (hout.of_touches hlater))

/-- A run into a directory that ends with success has an output for each file, by the file's last
name. The output and the source map hold what became of the file as it was at first, as long as the
paths that are written for other files lead elsewhere. -/
theorem run_delivers {d : Disk} {r : Run} (h : run a d = (r, none)) (hdir : a.outDir = some dir)
    (hbase : d.Clear d.base) :
    ∃ c, loadConfig d a.config = .ok c ∧ r.written.map some = a.files.map (outputOf? dir) ∧
      ∀ before file later, a.files = before ++ file :: later →
        ∃ now name source t, runFiles a before ⟨.start d (.ofConfig c), "", []⟩ = (now, none) ∧
          Delivered a d dir before file later now r name source t := by
  unfold run at h
  rcases hc : loadConfig d a.config with e | c
  · simp [hc] at h
  simp only [hc] at h
  refine ⟨c, rfl, ?_, fun before file later hfiles => ?_⟩
  · obtain ⟨-, more, hmore, houts⟩ := turns_of_runFiles hdir hbase h
    rw [hmore, List.nil_append, houts]
  · rw [hfiles] at h
    obtain ⟨now, hbefore, hrest⟩ := runFiles_append h
    obtain ⟨next, hf, hrest⟩ := runFiles_cons hrest
    obtain ⟨htouch, made, hmade, houts⟩ := turns_of_runFiles hdir hbase hbefore
    have hlen : made.length = before.length := by simpa using congrArg List.length houts
    have hb := htouch.grows.clear_base hbase
    obtain ⟨name, source, t, hturn⟩ := turn_of_runFile hdir hb hf
    obtain ⟨hlater, more, hmore, -⟩ :=
      turns_of_runFiles hdir (hturn.touches.grows.clear_base hb) hrest
    refine ⟨now, name, source, t, hbefore, delivered_of_turn htouch hturn hlater ?_⟩
    rw [hmore, hturn.listed, hmade, List.nil_append, ← hlen]
    simp

/-- Three files of different names, with source maps: what is left of the second one. -/
theorem run_delivers_between :
    let d := ((((((Disk.empty []).put ["a"] .directory).put ["a", "x.js"]
      (.file (.text "export const x = 1;\n"))).put ["b"] .directory).put ["b", "y.js"]
      (.file (.text "export const y = 2;\n"))).put ["c"] .directory).put ["c", "z.js"]
      (.file (.text "export const z = 3;\n"))
    let a : Arguments :=
      ⟨none, some ⟨"dist"⟩, true, false, [⟨"a/x.js"⟩, ⟨"b/y.js"⟩, ⟨"c/z.js"⟩]⟩
    let r := (run a d).1
    run a d = (r, none) ∧ d.Clear d.base ∧ r.written[1]? = some ⟨"dist/y.js"⟩ ∧
      ∃ (source : String) (t : Transformed) (m : SourceMap),
        d.entry? ["b", "y.js"] = some (.file (.text source)) ∧ t.sourceMap = some m ∧
        r.build.disk.readText ⟨"dist/y.js"⟩ = .ok (t.code ++ mapLine "y.js.map") ∧
        r.build.disk.readText ⟨"dist/y.js.map"⟩ = .ok m.toJson.compact := by
  intro d a r
  -- nothing that is written for the other two files is in the way
  obtain ⟨hnone, hplace, hsource, hout, hmap⟩ : (run a d).2 = none ∧
      r.build.disk.locate ⟨"b/y.js"⟩ = .ok ["b", "y.js"] ∧
      Untouched r.build ([⟨"a/x.js"⟩].flatMap (a.targets ⟨"dist"⟩)) ⟨"b/y.js"⟩ ∧
      Untouched r.build ([⟨"c/z.js"⟩].flatMap (a.targets ⟨"dist"⟩)) (Path.join ⟨"dist"⟩ ⟨"y.js"⟩) ∧
      Untouched r.build
        (Path.join ⟨"dist"⟩ ⟨"y.js"⟩ :: [⟨"c/z.js"⟩].flatMap (a.targets ⟨"dist"⟩))
        (Path.join ⟨"dist"⟩ ⟨mapNameOf "y.js"⟩) := by
    decide +kernel
  have h : run a d = (r, none) := by rw [← hnone]
  have hbase : d.Clear d.base := Disk.clear_nil d
  obtain ⟨c, -, -, hdelivered⟩ := run_delivers h rfl hbase
  obtain ⟨now, name, source, t, -, hy⟩ := hdelivered [⟨"a/x.js"⟩] ⟨"b/y.js"⟩ [⟨"c/z.js"⟩] rfl
  have hname : Path.fileName? ⟨"b/y.js"⟩ = some (Bytes.ofText "y.js") := by decide +kernel
  obtain rfl : Bytes.ofText "y.js" = name := Option.some.inj (hname.symm.trans hy.named)
  have hjoin : Path.join ⟨"dist"⟩ ⟨"y.js"⟩ = ⟨"dist/y.js"⟩ := by decide +kernel
  have hmapName : mapNameOf "y.js" = "y.js.map" := by decide +kernel
  have hjoinMap : Path.join ⟨"dist"⟩ ⟨"y.js.map"⟩ = ⟨"dist/y.js.map"⟩ := by decide +kernel
  obtain ⟨place, hl, he⟩ := hy.read.2 hsource
  obtain rfl : (["b", "y.js"] : Place) = place := Except.ok.inj (hplace.symm.trans hl)
  obtain ⟨m, hm, hread⟩ := hy.map rfl
  have hlisted := hy.listed
  have houtput := hy.output hout
  have hmapped := hread hmap
  rw [hjoin] at hlisted houtput
  rw [codeOf, hmapName] at houtput
  rw [hmapName, hjoinMap] at hmapped
  exact ⟨h, hbase, hlisted, source, t, m, he, hm, houtput, hmapped⟩

/-- Two files of one name: both outputs are listed, by one path, and the first file's is lost. -/
theorem output_overwritten :
    let d := ((((Disk.empty []).put ["a"] .directory).put ["a", "index.js"]
      (.file (.text "export const a = 1;\n"))).put ["b"] .directory).put ["b", "index.js"]
      (.file (.text "export const b = 2;\n"))
    let a : Arguments :=
      ⟨none, some ⟨"dist"⟩, false, false, [⟨"a/index.js"⟩, ⟨"b/index.js"⟩]⟩
    (run a d).2 = none ∧
      (run a d).1.written = [⟨"dist/index.js"⟩, ⟨"dist/index.js"⟩] ∧
      (Transform.run "export const a = 1;\n" "a/index.js" false
        (.start d (.ofConfig .default))).map (fun done => done.1.code) =
          some "export const a = 1;\n" ∧
      (run a d).1.build.disk.readText ⟨"dist/index.js"⟩ = .ok "export const b = 2;\n" := by
  decide +kernel

end Turns

end ScopedStyles.CommandLine
