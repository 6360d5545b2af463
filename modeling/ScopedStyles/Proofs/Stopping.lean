import ScopedStyles.CommandLine.Run
import Mathlib.Data.List.Basic

/-!
# Where a run stops

A run reads a source and finds out whether it is a module before it does anything for it. So a
source that cannot be read stops the run as it was left by the files before it: no stylesheet is
processed and nothing is written for it or for the files behind it (`run_stops_at_bad_source`).
-/

namespace ScopedStyles.CommandLine

open Script (Program Language)

variable {a : Arguments} {d : Disk} {file : Path} {e : Failure}

/-- Why a source stops the run that reaches it: it is no text, or no module of its language. -/
inductive BadSource (d : Disk) (file : Path) : Failure → Prop
  | unreadable {fault : Disk.Fault} :
    d.readText file = .error fault → BadSource d file (.unreadable file fault)
  | malformed {source : String} : d.readText file = .ok source →
    Program.read (.ofFile file.text) .module source = none → BadSource d file (.malformed file)

/-- A bad source leaves the run as it was. -/
theorem runFile_of_badSource {r : Run} (h : BadSource r.build.disk file e) :
    runFile a file r = (r, some e) := by
  cases h with
  | unreadable hr => rw [runFile, hr]
  | @malformed source hr hp =>
    have ht : Transform.run source file.text a.sourceMap r.build = none := by
      rw [Transform.run, hp]
      rfl
    rw [runFile, hr]
    simp only [ht]

/-- A run goes on from where the files that it is done with have left it. -/
theorem runFiles_of_done {later : List Path} {now : Run} : ∀ {before : List Path} {r : Run},
    runFiles a before r = (now, none) → runFiles a (before ++ later) r = runFiles a later now
  | [], r, h => by
    obtain rfl : r = now := congrArg Prod.fst h
    rfl
  | f :: before, r, h => by
    rw [runFiles] at h
    rw [List.cons_append, runFiles]
    rcases hf : runFile a f r with ⟨next, _ | failure⟩ <;> simp only [hf] at h ⊢
    · exact runFiles_of_done h
    · simp at h

/-- How a file is dealt with does not depend on which other files there are. -/
theorem runFiles_withFiles (a : Arguments) (listed : List Path) : ∀ (files : List Path) (r : Run),
    runFiles { a with files := listed } files r = runFiles a files r
  | [], _ => rfl
  | f :: files, r => by
    have hf : runFile { a with files := listed } f r = runFile a f r := rfl
    rw [runFiles, runFiles, hf]
    rcases runFile a f r with ⟨next, _ | failure⟩
    · exact runFiles_withFiles a listed files next
    · rfl

/-- A run that reaches a bad source fails there, and what it leaves is what a run on the files
before that source leaves: the disk, the standard output, the outputs listed and the stylesheets
processed. A caller of the program sees the same standard output and the same disk, and another exit
code. -/
theorem run_stops_at_bad_source {before later : List Path} {r : Run}
    (hfiles : a.files = before ++ file :: later)
    (hbefore : run { a with files := before } d = (r, none))
    (hbad : BadSource r.build.disk file e) :
    run a d = (r, some e) ∧
      ∀ args args' : List String, Arguments.read args = .ok a →
        Arguments.read args' = .ok { a with files := before } →
          call args d = ⟨1, r.stdout, r.build.disk, e.chain⟩ ∧
          call args' d = ⟨0, r.stdout, r.build.disk, []⟩ := by
  have hrun : run a d = (r, some e) := by
    unfold run at hbefore ⊢
    rcases hc : loadConfig d a.config with failure | c <;> simp only [hc] at hbefore ⊢
    · simp at hbefore
    rw [runFiles_withFiles] at hbefore
    rw [hfiles, runFiles_of_done hbefore, runFiles, runFile_of_badSource hbad]
  refine ⟨hrun, fun args args' hargs hargs' => ⟨?_, ?_⟩⟩
  · simp only [call, hargs, hrun]
  · simp only [call, hargs', hbefore]

/-- The second of three files is no module. The stylesheet of the first file is processed and its
output and source map are written; those of the other two files stay as they are. -/
theorem run_stops_between :
    let d := (((((((Disk.empty []).put ["x.sss"] (.file (.text ".x \x7b color: red \x7d"))).put
      ["y.sss"] (.file (.text ".y \x7b color: red \x7d"))).put
      ["z.sss"] (.file (.text ".z \x7b color: red \x7d"))).put
      ["x.js"] (.file (.text "f(require('./x.sss'));\n"))).put
      ["y.js"] (.file (.text "f(require('./y.sss'), require('./x.sss'));\n)"))).put
      ["z.js"] (.file (.text "f(require('./z.sss'), require('./x.sss'));\n")))
    let a : Arguments := ⟨none, some ⟨"dist"⟩, true, false, [⟨"x.js"⟩, ⟨"y.js"⟩, ⟨"z.js"⟩]⟩
    let r := (run { a with files := [⟨"x.js"⟩] } d).1
    run { a with files := [⟨"x.js"⟩] } d = (r, none) ∧
      BadSource r.build.disk ⟨"y.js"⟩ (.malformed ⟨"y.js"⟩) ∧
      run a d = (r, some (.malformed ⟨"y.js"⟩)) ∧
      r.build.processor.processed = [⟨"/x.sss"⟩] ∧
      r.build.disk.entry? ["y.sss"] = some (.file (.text ".y \x7b color: red \x7d")) := by
  intro d a r
  obtain ⟨hnone, hprocessed, hkept, hread, hmalformed⟩ :
      (run { a with files := [⟨"x.js"⟩] } d).2 = none ∧
      r.build.processor.processed = [⟨"/x.sss"⟩] ∧
      r.build.disk.entry? ["y.sss"] = some (.file (.text ".y \x7b color: red \x7d")) ∧
      r.build.disk.readText ⟨"y.js"⟩ = .ok "f(require('./y.sss'), require('./x.sss'));\n)" ∧
      (Program.read (.ofFile "y.js") .module
        "f(require('./y.sss'), require('./x.sss'));\n)").isNone := by
    decide +kernel
  have hbefore : run { a with files := [⟨"x.js"⟩] } d = (r, none) := by rw [← hnone]
  have hbad := BadSource.malformed hread (Option.isNone_iff_eq_none.1 hmalformed)
  exact ⟨hbefore, hbad, (run_stops_at_bad_source rfl hbefore hbad).1, hprocessed, hkept⟩

end ScopedStyles.CommandLine
